import Skw.Tx.Prepare
import Mathlib.Data.List.Perm.Basic
import Mathlib.Data.Fintype.Card

/-! The order of the access categories that `skw_iface_set_wmm_capa` makes of a WMM parameter
element. -/
namespace Skw

/-- The fields of `skw_ac_param` that are used. -/
structure AcParam where
  aifsn : Fin 16
  acm : Bool
  txopLimit : BitVec 16

/-- The records of a WMM parameter element, in the order of the element: best effort, background,
video, voice. -/
structure Wmm where
  version : BitVec 8
  ac : Fin 4 → AcParam

/-- An entry of `iface->wmm.ac`. -/
structure WmmRank where
  aci : WmmAc
  aifsn : ℕ
  txopLimit : ℕ

/-- `iface->wmm`. -/
structure WmmInfo where
  acm : BitVec 8
  qosEnabled : Bool
  factor : WmmAc → ℤ
  ac : Fin 4 → WmmRank

/-- The category of a record. -/
def wmmAcOf : Fin 4 → WmmAc
  | 0 => .be
  | 1 => .bk
  | 2 => .vi
  | 3 => .vo

/-- The bit that a record with ACM sets. Voice sets that of video. -/
def wmmAcmBit : Fin 4 → WmmAc
  | 0 => .be
  | 1 => .bk
  | 2 => .vi
  | 3 => .vi

/-- The factor of a category at a place of the order. -/
def wmmFactor : WmmAc → ℕ → ℤ
  | .be, i => 2 - i
  | .bk, i => 3 - i
  | .vi, i => (1 - i) * 4
  | .vo, i => (0 - i) * 2

namespace Wmm

/-- The inner loop for `i` from an entry of `ac` on, with what `tmp` holds there; the entries
behind the list are -1. What is displaced goes on in `tmp`, and `i` takes its place. -/
def insertAc (ac : Fin 4 → AcParam) (i : Fin 4) : Fin 4 → List (Fin 4) → List (Fin 4)
  | tmp, [] => [tmp]
  | tmp, id :: l =>
    if (ac tmp).aifsn < (ac id).aifsn then i :: insertAc ac i id l else id :: insertAc ac i tmp l

/-- The array `ac` after the insertions of 3, 2, 1 and 0. -/
def order (ac : Fin 4 → AcParam) : List (Fin 4) :=
  [3, 2, 1, 0].foldl (fun l i => insertAc ac i i l) []

end Wmm

namespace WmmInfo

/-- A round of the loop over the order. -/
def rank (ac : Fin 4 → AcParam) (w : WmmInfo) (i : Fin 4) (aci : Fin 4) : WmmInfo :=
  { w with
    acm := if (ac aci).acm then w.acm ||| BitVec.twoPow 8 (wmmAcmBit aci).toNat else w.acm
    factor := Function.update w.factor (wmmAcOf aci) (wmmFactor (wmmAcOf aci) i)
    ac := Function.update w.ac i
      ⟨wmmAcOf aci, (ac aci).aifsn, (ac aci).txopLimit.toNat⟩ }

/-- The order has an entry for each of the four places. -/
def ranks (ac : Fin 4 → AcParam) (w : WmmInfo) : List (Fin 4) → ℕ → WmmInfo
  | [], _ => w
  | aci :: l, i => ranks ac (w.rank ac (Fin.ofNat 4 i) aci) l (i + 1)

def defaultWmm (w : WmmInfo) : WmmInfo :=
  { w with acm := 0, ac := ![⟨.vo, 2, 47⟩, ⟨.vi, 2, 94⟩, ⟨.be, 3, 0⟩, ⟨.bk, 7, 0⟩] }

/-- `skw_iface_set_wmm_capa` for the element that it finds. -/
def setWmmCapa (w : WmmInfo) (wmm : Option Wmm) : WmmInfo :=
  match wmm with
  | none => w.defaultWmm
  | some wmm =>
    if wmm.version ≠ 1 then w.defaultWmm
    else
      let w := ({ w with qosEnabled := true } : WmmInfo).ranks wmm.ac (Wmm.order wmm.ac) 0
      { w with factor := fun c => if w.factor c < 0 then 0 else w.factor c }

/-- The categories stand in the order of their AIFSN, each with its own parameters and factor, and
the ACM bits are those of the records. -/
structure Ordered (ac : Fin 4 → AcParam) (w : WmmInfo) : Prop where
  perm : (List.ofFn fun i => (w.ac i).aci).Perm [.vo, .vi, .be, .bk]
  sorted : ∀ i j, i ≤ j → (w.ac i).aifsn ≤ (w.ac j).aifsn
  params : ∀ i r, wmmAcOf r = (w.ac i).aci →
    (w.ac i).aifsn = (ac r).aifsn ∧ (w.ac i).txopLimit = (ac r).txopLimit.toNat
  factor : ∀ i, w.factor (w.ac i).aci = max 0 (wmmFactor (w.ac i).aci i)
  acm : ∀ r, w.acm.getLsbD (wmmAcOf r).toNat = (ac r).acm

end WmmInfo

namespace Wmm

/-- The entries that `i` would displace have one AIFSN. -/
def Level (ac : Fin 4 → AcParam) (i : Fin 4) (l : List (Fin 4)) : Prop :=
  ∀ r ∈ l, ∀ s ∈ l, (ac i).aifsn < (ac r).aifsn → (ac i).aifsn < (ac s).aifsn →
    (ac r).aifsn = (ac s).aifsn

def Sorted (ac : Fin 4 → AcParam) (l : List (Fin 4)) : Prop :=
  l.Pairwise fun r s => (ac r).aifsn ≤ (ac s).aifsn

variable {ac : Fin 4 → AcParam} {i tmp : Fin 4} {l is : List (Fin 4)}

theorem length_insertAc (i tmp : Fin 4) (l : List (Fin 4)) :
    (insertAc ac i tmp l).length = l.length + 1 := by
  induction l generalizing tmp with
  | nil => rfl
  | cons id l ih =>
    unfold insertAc
    split_ifs <;> simp [ih]

theorem insertAc_subset (i tmp : Fin 4) (l : List (Fin 4)) :
    insertAc ac i tmp l ⊆ i :: tmp :: l := by
  induction l generalizing tmp with
  | nil => simp [insertAc]
  | cons id l ih =>
    unfold insertAc
    intro x hx
    split_ifs at hx
    · rcases List.mem_cons.mp hx with rfl | hx
      · exact List.mem_cons_self
      · rcases List.mem_cons.mp (ih id hx) with rfl | hx
        · exact List.mem_cons_self
        · exact List.mem_cons_of_mem _ (List.mem_cons_of_mem _ hx)
    · rcases List.mem_cons.mp hx with rfl | hx
      · simp
      · have := ih tmp hx
        simp only [List.mem_cons] at this ⊢
        tauto

/-- Nothing further is displaced. -/
theorem insertAc_of_le (h : ∀ x ∈ l, (ac x).aifsn ≤ (ac tmp).aifsn) :
    insertAc ac i tmp l = l ++ [tmp] := by
  induction l with
  | nil => rfl
  | cons id l ih =>
    have hid := h id (by simp)
    rw [insertAc, if_neg (not_lt.mpr hid), ih fun x hx => h x (by simp [hx]), List.cons_append]

/-- What is displaced displaces another entry, and `i` is written there as well. -/
theorem mem_insertAc_of_lt (h : ∃ x ∈ l, (ac tmp).aifsn < (ac x).aifsn) :
    i ∈ insertAc ac i tmp l := by
  induction l with
  | nil =>
    obtain ⟨x, hx, -⟩ := h
    cases hx
  | cons id l ih =>
    unfold insertAc
    split_ifs with hid
    · exact List.mem_cons_self
    · obtain ⟨x, hx, hlt⟩ := h
      rcases List.mem_cons.mp hx with rfl | hx
      · exact absurd hlt hid
      · exact List.mem_cons_of_mem _ (ih ⟨x, hx, hlt⟩)

theorem insertAc_sorted (hs : Sorted ac l) (hl : Level ac i l) :
    (insertAc ac i i l).Perm (i :: l) ∧ Sorted ac (insertAc ac i i l) := by
  induction l with
  | nil => exact ⟨.refl _, List.pairwise_singleton ..⟩
  | cons id l ih =>
    obtain ⟨hid, hs⟩ := List.pairwise_cons.mp hs
    unfold insertAc
    split_ifs with hlt
    · -- All that follows has the AIFSN of what is displaced.
      have heq : ∀ x ∈ l, (ac x).aifsn = (ac id).aifsn := fun x hx =>
        hl x (by simp [hx]) id (by simp) (hlt.trans_le (hid x hx)) hlt
      rw [insertAc_of_le fun x hx => (heq x hx).le]
      refine ⟨(List.perm_append_singleton id l).cons i, List.pairwise_cons.mpr ⟨?_, ?_⟩⟩
      · intro x hx
        rcases List.mem_append.mp hx with hx | hx
        · exact (hlt.trans_le (hid x hx)).le
        · exact (List.mem_singleton.mp hx) ▸ hlt.le
      · refine List.pairwise_append.mpr ⟨hs, List.pairwise_singleton .., fun x hx y hy => ?_⟩
        rw [List.mem_singleton.mp hy]
        exact (heq x hx).le
    · obtain ⟨hp, hsort⟩ := ih hs fun r hr s hs => hl r (by simp [hr]) s (by simp [hs])
      refine ⟨(hp.cons id).trans (List.Perm.swap i id l), List.pairwise_cons.mpr ⟨?_, hsort⟩⟩
      intro x hx
      rcases List.mem_cons.mp (hp.mem_iff.mp hx) with rfl | hx
      · exact not_lt.mp hlt
      · exact hid x hx

theorem insertAc_not_nodup (hs : Sorted ac l) (hl : ¬ Level ac i l) :
    ¬ (insertAc ac i i l).Nodup := by
  induction l with
  | nil => exact absurd (fun r hr => by cases hr) hl
  | cons id l ih =>
    obtain ⟨hid, hs⟩ := List.pairwise_cons.mp hs
    unfold insertAc
    split_ifs with hlt
    · intro hn
      refine (List.nodup_cons.mp hn).1 (mem_insertAc_of_lt ?_)
      by_contra hno
      have heq : ∀ x ∈ id :: l, (ac x).aifsn = (ac id).aifsn := by
        intro x hx
        rcases List.mem_cons.mp hx with rfl | hx
        · rfl
        · exact le_antisymm (not_lt.mp fun h => hno ⟨x, hx, h⟩) (hid x hx)
      exact hl fun r hr s hs _ _ => (heq r hr).trans (heq s hs).symm
    · intro hn
      refine ih hs (fun hlev => hl fun r hr s hs hr' hs' => ?_) (List.nodup_cons.mp hn).2
      have hmem : ∀ x ∈ id :: l, (ac i).aifsn < (ac x).aifsn → x ∈ l := by
        intro x hx hx'
        rcases List.mem_cons.mp hx with rfl | hx
        · exact absurd hx' hlt
        · exact hx
      exact hlev r (hmem r hr hr') s (hmem s hs hs') hr' hs'

/-- Each insertion displaces entries of one AIFSN only. -/
def Levels (ac : Fin 4 → AcParam) : List (Fin 4) → List (Fin 4) → Prop
  | [], _ => True
  | i :: is, l => Level ac i l ∧ Levels ac is (i :: l)

theorem Level.congr {l' : List (Fin 4)} (h : Level ac i l) (hl : l' ⊆ l) : Level ac i l' :=
  fun r hr s hs => h r (hl hr) s (hl hs)

theorem Levels.congr {l' : List (Fin 4)} (h : Levels ac is l) (hl : l' ⊆ l) : Levels ac is l' := by
  induction is generalizing l l' with
  | nil => trivial
  | cons i is ih => exact ⟨h.1.congr hl, ih h.2 (List.cons_subset_cons i hl)⟩

def insertAll (ac : Fin 4 → AcParam) (is l : List (Fin 4)) : List (Fin 4) :=
  is.foldl (fun l i => insertAc ac i i l) l

theorem insertAll_sorted (hs : Sorted ac l) (hl : Levels ac is l) :
    (insertAll ac is l).Perm (is.reverse ++ l) ∧ Sorted ac (insertAll ac is l) := by
  induction is generalizing l with
  | nil => exact ⟨.refl _, hs⟩
  | cons i is ih =>
    obtain ⟨hp, hsort⟩ := insertAc_sorted hs hl.1
    obtain ⟨hperm, hsorted⟩ := ih hsort (hl.2.congr hp.subset)
    refine ⟨hperm.trans ?_, hsorted⟩
    rw [List.reverse_cons, List.append_assoc]
    exact hp.append_left _

/-- An entry that is lost does not come back. -/
theorem nodup_of_nodup_insertAc (h : (insertAc ac i i l).Nodup) : l.Nodup := by
  have hsub : insertAc ac i i l ⊆ i :: l := fun x hx => by
    have := insertAc_subset i i l hx
    simp only [List.mem_cons] at this ⊢
    tauto
  have hp := (h.subperm hsub).perm_of_length_le (length_insertAc i i l).ge
  exact (List.nodup_cons.mp (hp.nodup_iff.mp h)).2

theorem nodup_of_nodup_insertAll (h : (insertAll ac is l).Nodup) : l.Nodup := by
  induction is generalizing l with
  | nil => exact h
  | cons i is ih => exact nodup_of_nodup_insertAc (ih h)

theorem levels_of_nodup (hs : Sorted ac l) (h : (insertAll ac is l).Nodup) : Levels ac is l := by
  induction is generalizing l with
  | nil => trivial
  | cons i is ih =>
    have hlev : Level ac i l := by
      by_contra hl
      exact insertAc_not_nodup hs hl (nodup_of_nodup_insertAll h)
    obtain ⟨hp, hsort⟩ := insertAc_sorted hs hlev
    exact ⟨hlev, (ih hsort h).congr hp.symm.subset⟩

/-- Where two records behind another one have a greater AIFSN, it is the same one. -/
def Unchained (ac : Fin 4 → AcParam) : Prop :=
  ∀ i r s, i < r → i < s → (ac i).aifsn < (ac r).aifsn → (ac i).aifsn < (ac s).aifsn →
    (ac r).aifsn = (ac s).aifsn

instance (ac : Fin 4 → AcParam) : Decidable (Unchained ac) :=
  inferInstanceAs (Decidable (∀ _ _ _, _ → _ → _ → _ → _))

theorem levels_iff_unchained : Levels ac [3, 2, 1, 0] [] ↔ Unchained ac := by
  constructor
  · rintro ⟨-, h2, h1, h0, -⟩ i r s hr hs
    have hmem : ∀ {a b : Fin 4}, a < b → b ∈ [1, 2, 3] := by decide
    match i with
    | 0 => exact h0 r (hmem hr) s (hmem hs)
    | 1 =>
      have hmem : ∀ {b : Fin 4}, 1 < b → b ∈ [2, 3] := by decide
      exact h1 r (hmem hr) s (hmem hs)
    | 2 =>
      have hmem : ∀ {b : Fin 4}, 2 < b → b ∈ [3] := by decide
      exact h2 r (hmem hr) s (hmem hs)
    | 3 =>
      have hmem : ∀ {b : Fin 4}, ¬ 3 < b := by decide
      exact absurd hr hmem
  · intro h
    have hlev : ∀ (i : Fin 4) (l : List (Fin 4)), (∀ r ∈ l, i < r) → Level ac i l :=
      fun i l hl r hr s hs => h i r s (hl r hr) (hl s hs)
    exact ⟨hlev 3 [] (by decide), hlev 2 [3] (by decide), hlev 1 [2, 3] (by decide),
      hlev 0 [1, 2, 3] (by decide), trivial⟩

theorem length_order (ac : Fin 4 → AcParam) : (order ac).length = 4 := by
  simp [order, length_insertAc]

theorem order_sorted (h : Unchained ac) :
    (order ac).Perm [0, 1, 2, 3] ∧ Sorted ac (order ac) :=
  insertAll_sorted List.Pairwise.nil (levels_iff_unchained.mpr h)

theorem unchained_of_nodup (h : (order ac).Nodup) : Unchained ac :=
  levels_iff_unchained.mp (levels_of_nodup List.Pairwise.nil h)

end Wmm

namespace WmmInfo
variable {ac : Fin 4 → AcParam} {w : WmmInfo} {a b c d : Fin 4}

theorem wmmAcOf_injective : Function.Injective wmmAcOf := by decide

/-- No bit is left of an earlier element for a category without ACM, and voice has ACM only where
video has it and the bit of voice is set already. -/
def AcmFits (ac : Fin 4 → AcParam) (w : WmmInfo) : Prop :=
  (∀ r, w.acm.getLsbD (wmmAcOf r).toNat = true → (ac r).acm = true) ∧
    ((ac 3).acm = true → (ac 2).acm = true ∧ w.acm.getLsbD WmmAc.vo.toNat = true)

theorem acm_ranks (l : List (Fin 4)) (j : ℕ) (t : WmmAc) :
    (w.ranks ac l j).acm.getLsbD t.toNat = true ↔
      w.acm.getLsbD t.toNat = true ∨ ∃ r ∈ l, (ac r).acm = true ∧ wmmAcmBit r = t := by
  induction l generalizing w j with
  | nil => simp [ranks]
  | cons r l ih =>
    have hbit : ∀ u : WmmAc, (BitVec.twoPow 8 u.toNat).getLsbD t.toNat = decide (u = t) := by
      cases t <;> intro u <;> cases u <;> decide
    rw [ranks, ih, List.exists_mem_cons_iff, ← or_assoc]
    refine or_congr ?_ Iff.rfl
    cases hacm : (ac r).acm <;> simp [rank, hacm, hbit]

/-- Every record is visited. -/
theorem acm_iff {l : List (Fin 4)} (hl : ∀ r, r ∈ l) (j : ℕ) :
    (∀ r, (w.ranks ac l j).acm.getLsbD (wmmAcOf r).toNat = (ac r).acm) ↔ AcmFits ac w := by
  have hvo : ∀ r, wmmAcmBit r ≠ .vo := by decide
  have hown : ∀ r s, wmmAcmBit s = wmmAcOf r → s = r ∨ s = 3 ∧ r = 2 := by decide
  simp only [Bool.eq_iff_iff (b := (ac _).acm), acm_ranks]
  constructor
  · intro h
    refine ⟨fun r hr => (h r).mp (.inl hr), fun h3 => ⟨?_, ?_⟩⟩
    · exact (h 2).mp (.inr ⟨3, hl 3, h3, rfl⟩)
    · rcases (h 3).mpr h3 with hold | ⟨s, -, -, hs⟩
      · exact hold
      · exact absurd hs (hvo s)
  · rintro ⟨hstale, hvoice⟩ r
    constructor
    · rintro (hold | ⟨s, -, hacm, hs⟩)
      · exact hstale r hold
      · rcases hown r s hs with rfl | ⟨rfl, rfl⟩
        · exact hacm
        · exact (hvoice hacm).1
    · intro hacm
      match r with
      | 0 => exact .inr ⟨0, hl 0, hacm, rfl⟩
      | 1 => exact .inr ⟨1, hl 1, hacm, rfl⟩
      | 2 => exact .inr ⟨2, hl 2, hacm, rfl⟩
      | 3 => exact .inl (hvoice hacm).2

theorem ranks_ac (w : WmmInfo) (i : Fin 4) :
    (w.ranks ac [a, b, c, d] 0).ac i =
      ⟨wmmAcOf ([a, b, c, d].get i), (ac ([a, b, c, d].get i)).aifsn,
        (ac ([a, b, c, d].get i)).txopLimit.toNat⟩ :=
  match i with
  | 0 | 1 | 2 | 3 => rfl

/-- The factor of a category is written once, for its own place. -/
theorem ranks_factor (w : WmmInfo) (h : [a, b, c, d].Nodup) (i : Fin 4) :
    (w.ranks ac [a, b, c, d] 0).factor (wmmAcOf ([a, b, c, d].get i)) =
      wmmFactor (wmmAcOf ([a, b, c, d].get i)) i := by
  simp only [List.nodup_cons, List.mem_cons, List.not_mem_nil, not_or, or_false] at h
  obtain ⟨⟨hab, hac, had⟩, ⟨hbc, hbd⟩, hcd, -⟩ := h
  match i with
  | 0 => simp [ranks, rank, Function.update, wmmAcOf_injective.eq_iff, hab, hac, had]
  | 1 => simp [ranks, rank, Function.update, wmmAcOf_injective.eq_iff, hbc, hbd]
  | 2 => simp [ranks, rank, Function.update, wmmAcOf_injective.eq_iff, hcd]
  | 3 => simp [ranks, rank, Function.update]

/-- The order comes out as intended if and only if no insertion displaces records of different
AIFSN, and the bits if and only if ACM is that of video where it is that of voice. -/
theorem ordered_iff (ac : Fin 4 → AcParam) (w : WmmInfo) :
    (w.setWmmCapa (some ⟨1, ac⟩)).Ordered ac ↔ Wmm.Unchained ac ∧ w.AcmFits ac := by
  obtain ⟨a, b, c, d, hl⟩ : ∃ a b c d, Wmm.order ac = [a, b, c, d] :=
    List.length_eq_four.mp (Wmm.length_order ac)
  have hset : w.setWmmCapa (some ⟨1, ac⟩) =
      { ({ w with qosEnabled := true } : WmmInfo).ranks ac [a, b, c, d] 0 with
        factor := fun t =>
          if (({ w with qosEnabled := true } : WmmInfo).ranks ac [a, b, c, d] 0).factor t < 0 then 0
          else (({ w with qosEnabled := true } : WmmInfo).ranks ac [a, b, c, d] 0).factor t } := by
    rw [← hl]
    rfl
  have hacm : ({ w with qosEnabled := true } : WmmInfo).AcmFits ac ↔ w.AcmFits ac := Iff.rfl
  rw [hset, ← hacm]
  generalize ({ w with qosEnabled := true } : WmmInfo) = w
  have hcat : (List.ofFn fun i => ((w.ranks ac [a, b, c, d] 0).ac i).aci) =
      [a, b, c, d].map wmmAcOf := rfl
  constructor
  · intro h
    have hnodup : [a, b, c, d].Nodup := by
      apply List.Nodup.of_map wmmAcOf
      rw [← hcat]
      exact h.perm.nodup_iff.mpr (by decide)
    have hun := Wmm.unchained_of_nodup (hl ▸ hnodup)
    have hmem := (Wmm.order_sorted hun).1
    rw [hl] at hmem
    have hall : ∀ r : Fin 4, r ∈ [0, 1, 2, 3] := by decide
    exact ⟨hun, (acm_iff (fun r => hmem.mem_iff.mpr (hall r)) 0).mp h.acm⟩
  · rintro ⟨hun, hfits⟩
    obtain ⟨hperm, hsort⟩ := Wmm.order_sorted hun
    rw [hl] at hperm hsort
    have hall : ∀ r : Fin 4, r ∈ [0, 1, 2, 3] := by decide
    have hnodup : [a, b, c, d].Nodup := hperm.nodup_iff.mpr (by decide)
    refine ⟨?_, ?_, ?_, ?_, ?_⟩
    · show (List.ofFn fun i => ((w.ranks ac [a, b, c, d] 0).ac i).aci).Perm _
      rw [hcat]
      exact (hperm.map wmmAcOf).trans (by decide)
    · intro i j hij
      have haifsn : ∀ i, ((w.ranks ac [a, b, c, d] 0).ac i).aifsn =
          (ac ([a, b, c, d].get i)).aifsn := fun i => congrArg WmmRank.aifsn (ranks_ac w i)
      show ((w.ranks ac [a, b, c, d] 0).ac i).aifsn ≤ ((w.ranks ac [a, b, c, d] 0).ac j).aifsn
      rw [haifsn, haifsn]
      rcases hij.eq_or_lt with rfl | hlt
      · exact le_rfl
      · exact List.pairwise_iff_get.mp hsort i j hlt
    · intro i r hr
      have hi : (w.ranks ac [a, b, c, d] 0).ac i = _ := ranks_ac w i
      have hown : wmmAcOf r = wmmAcOf ([a, b, c, d].get i) := hr.trans (congrArg WmmRank.aci hi)
      rw [wmmAcOf_injective hown]
      exact ⟨congrArg WmmRank.aifsn hi, congrArg WmmRank.txopLimit hi⟩
    · intro i
      have hf : (w.ranks ac [a, b, c, d] 0).factor (wmmAcOf ([a, b, c, d].get i)) = _ :=
        ranks_factor w hnodup i
      have haci : ((w.ranks ac [a, b, c, d] 0).ac i).aci = wmmAcOf ([a, b, c, d].get i) :=
        congrArg WmmRank.aci (ranks_ac w i)
      dsimp only
      rw [haci, hf]
      split_ifs with hneg
      · exact (max_eq_left hneg.le).symm
      · exact (max_eq_right (not_lt.mp hneg)).symm
    · exact (acm_iff (fun r => hperm.mem_iff.mpr (hall r)) 0).mpr hfits

/-- What `iface->wmm` holds before the first element. -/
def zeroed : WmmInfo := ⟨0, false, fun _ => 0, fun _ => ⟨.vo, 0, 0⟩⟩

/-- Best effort with an AIFSN of 3, background with 1, video with 3 and voice with 2. -/
def chainedWmm : Fin 4 → AcParam :=
  ![⟨3, false, 0⟩, ⟨1, false, 0⟩, ⟨3, false, 0⟩, ⟨2, false, 0⟩]

/-- The usual AIFSN, with ACM for voice. -/
def voiceAcmWmm : Fin 4 → AcParam :=
  ![⟨3, false, 0⟩, ⟨7, false, 0⟩, ⟨2, false, 0⟩, ⟨2, true, 47⟩]

/-- Background takes two places and voice none; the ACM bit of voice is set for video. -/
theorem chained_not_ordered :
    ((zeroed.setWmmCapa (some ⟨1, chainedWmm⟩)).ac 0).aci = .bk ∧
      ((zeroed.setWmmCapa (some ⟨1, chainedWmm⟩)).ac 1).aci = .bk ∧
      ¬ (zeroed.setWmmCapa (some ⟨1, chainedWmm⟩)).Ordered chainedWmm ∧
      (zeroed.setWmmCapa (some ⟨1, voiceAcmWmm⟩)).acm = BitVec.twoPow 8 WmmAc.vi.toNat ∧
      ¬ (zeroed.setWmmCapa (some ⟨1, voiceAcmWmm⟩)).Ordered voiceAcmWmm := by
  refine ⟨by decide, by decide, fun h => ?_, by decide, fun h => ?_⟩
  · exact absurd h.perm (by decide)
  · exact absurd (h.acm 3) (by decide)

end WmmInfo
end Skw
