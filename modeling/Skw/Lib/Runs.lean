import Mathlib.Data.List.SplitBy
import Mathlib.Data.List.Pairwise

/-! The runs of a list: its cut into the longest stretches of neighbours with one key. What a
program builds on the fly, by beginning a new part when the key changes and adding to the newest
part otherwise, is described by what one more element does to the runs. -/
namespace Lib
variable {α κ : Type*} [DecidableEq κ] {key : α → κ} {l g : List α} {gs : List (List α)} {a : α}

def runs (key : α → κ) (l : List α) : List (List α) := l.splitBy fun x y => key x == key y

@[simp] theorem runs_nil : runs key [] = [] := rfl

@[simp] theorem flatten_runs (key : α → κ) (l : List α) : (runs key l).flatten = l :=
  List.flatten_splitBy _ l

theorem ne_nil_of_mem_runs (h : g ∈ runs key l) : g ≠ [] := List.ne_nil_of_mem_splitBy h

theorem mem_of_mem_runs {x : α} (h : g ∈ runs key l) (hx : x ∈ g) : x ∈ l := by
  rw [← flatten_runs key l]
  exact List.mem_flatten_of_mem h hx

theorem exists_mem_runs {x : α} (key : α → κ) (hx : x ∈ l) : ∃ g ∈ runs key l, x ∈ g := by
  rw [← flatten_runs key l] at hx
  exact List.mem_flatten.1 hx

/-- The elements of a run have one key. -/
theorem key_eq_of_mem_runs (h : g ∈ runs key l) {x y : α} (hx : x ∈ g) (hy : y ∈ g) :
    key x = key y := by
  have hc : g.IsChain fun x y => key x = key y := by simpa using List.isChain_of_mem_splitBy h
  have : IsTrans α fun x y => key x = key y := ⟨fun _ _ _ => Eq.trans⟩
  have : Std.Symm fun x y : α => key x = key y := ⟨fun _ _ => Eq.symm⟩
  have hp : g.Pairwise fun x y => key x = key y := hc.pairwise
  by_cases he : x = y
  · rw [he]
  · exact hp.forall hx hy he

/-- An element with a key of its own begins a run. -/
theorem runs_concat_of_ne (h : ∀ x ∈ l.getLast?, key x ≠ key a) :
    runs key (l ++ [a]) = runs key l ++ [[a]] := by
  refine List.splitBy_append_cons [] fun x hx => ?_
  simpa using h x hx

/-- An element with the key of the newest run goes to it. -/
theorem runs_concat_of_eq (h : runs key l = gs ++ [g]) (hg : ∀ x ∈ g.getLast?, key x = key a) :
    runs key (l ++ [a]) = gs ++ [g ++ [a]] := by
  obtain ⟨hl, hnil, hin, hout⟩ := List.splitBy_eq_iff.1 h
  refine List.splitBy_eq_iff.2 ⟨by simp [hl], by simp_all, fun m hm => ?_, ?_⟩
  · rcases List.mem_append.1 hm with hm | hm
    · exact hin m (List.mem_append_left _ hm)
    · rw [List.mem_singleton.1 hm]
      have hc := hin g (by simp)
      exact List.isChain_append.2 ⟨hc, by simp, by simpa using hg⟩
  · rw [List.isChain_append] at hout ⊢
    refine ⟨hout.1, by simp, fun x hx y hy => ?_⟩
    obtain ⟨hxn, hgn, hr⟩ := hout.2.2 x hx g (by simp)
    have hy : g ++ [a] = y := by simpa using hy
    subst hy
    exact ⟨hxn, by simp, by rwa [List.head_append_of_ne_nil hgn]⟩

theorem exists_runs_eq_concat (key : α → κ) {x : α} (hx : x ∈ l.getLast?) :
    ∃ gs g, runs key l = gs ++ [g] ∧ x ∈ g.getLast? := by
  have hl : l ≠ [] := by rintro rfl; simp at hx
  have hne : runs key l ≠ [] := List.splitBy_ne_nil.2 hl
  have hg := ne_nil_of_mem_runs (List.getLast_mem hne)
  refine ⟨(runs key l).dropLast, (runs key l).getLast hne,
    (List.dropLast_append_getLast hne).symm, ?_⟩
  have he : ((runs key l).getLast hne).getLast hg = l.getLast hl :=
    List.getLast_getLast_splitBy _ hl
  rw [List.getLast?_eq_some_getLast hl, Option.mem_some] at hx
  rw [List.getLast?_eq_some_getLast hg, he, Option.mem_some]
  exact hx

section
variable {R : α → α → Prop}

theorem pairwise_of_mem_runs (hl : l.Pairwise R) (h : g ∈ runs key l) : g.Pairwise R := by
  rw [← flatten_runs key l, List.pairwise_flatten] at hl
  exact hl.1 g h

/-- Two runs are the same, or one lies before the other. -/
theorem runs_trichotomy (hl : l.Pairwise R) {h : List α} (hg : g ∈ runs key l)
    (hh : h ∈ runs key l) :
    g = h ∨ (∀ x ∈ g, ∀ y ∈ h, R x y) ∨ (∀ x ∈ g, ∀ y ∈ h, R y x) := by
  by_cases he : g = h
  · exact Or.inl he
  · rw [← flatten_runs key l, List.pairwise_flatten] at hl
    have hs : (runs key l).Pairwise fun g h =>
        (∀ x ∈ g, ∀ y ∈ h, R x y) ∨ (∀ x ∈ g, ∀ y ∈ h, R y x) := hl.2.imp Or.inl
    have : Std.Symm fun g h : List α =>
        (∀ x ∈ g, ∀ y ∈ h, R x y) ∨ (∀ x ∈ g, ∀ y ∈ h, R y x) :=
      ⟨fun _ _ => Or.symm ∘ Or.imp (fun hR x hx y hy => hR y hy x hx)
        fun hR x hx y hy => hR y hy x hx⟩
    exact Or.inr (hs.forall hg hh he)

end

end Lib
