import Mathlib.Data.List.Basic
import Mathlib.Data.List.TakeDrop
import Mathlib.Tactic.Linarith
import Skw.Lib.Loop

/-! Data that a loop sends in pieces, each in a message that has its number and knows how much is
left behind it. How long the next piece is depends on how much is left before it; the first message
that is refused ends the loop. -/
namespace Lib
variable {α β : Type*} (size : ℕ → ℕ) (msg : ℕ → ℕ → List α → β) (refused : ℕ → Bool)

/-- What is left, the messages that have been sent, and whether one of them was refused. -/
structure Transfer (α β : Type*) where
  rest : List α
  sent : List β
  failed : Bool

/-- A pass over what is left. -/
def Transfer.pass (s : Transfer α β) : Pass (Transfer α β) :=
  if s.rest = [] then .done s
  else
    let k := size s.rest.length
    let sent := s.sent ++ [msg s.sent.length (s.rest.drop k).length (s.rest.take k)]
    if refused s.sent.length then .done { s with sent, failed := true }
    else .next { s with rest := s.rest.drop k, sent }

/-- The pieces of a list, at most `fuel` ones. -/
def piecesWithin : ℕ → List α → List (List α)
  | 0, _ => []
  | fuel + 1, xs =>
    if xs = [] then []
    else xs.take (size xs.length) :: piecesWithin fuel (xs.drop (size xs.length))

/-- The pieces in which a list is sent where none of them is bad. -/
def pieces (xs : List α) : List (List α) := piecesWithin size xs.length xs

/-- Every next piece is one, and is there. -/
def Cuts : Prop := ∀ n, 0 < n → 0 < size n ∧ size n ≤ n

variable {size msg refused} {xs : List α}

theorem Cuts.length_drop_lt (h : Cuts size) (hx : xs ≠ []) :
    (xs.drop (size xs.length)).length < xs.length := by
  have hpos := List.length_pos_iff.mpr hx
  have := (h xs.length hpos).1
  rw [List.length_drop]
  omega

/-- Fuel for every element is enough. -/
theorem piecesWithin_eq (h : Cuts size) {fuel : ℕ} (hf : xs.length ≤ fuel) :
    piecesWithin size fuel xs = pieces size xs := by
  suffices ∀ fuel fuel' : ℕ, xs.length ≤ fuel → xs.length ≤ fuel' →
      piecesWithin size fuel xs = piecesWithin size fuel' xs from
    this fuel xs.length hf (le_refl _)
  intro fuel
  induction fuel generalizing xs with
  | zero =>
    intro fuel' h₁ _
    have hx : xs = [] := List.length_eq_zero_iff.mp (Nat.le_zero.mp h₁)
    cases fuel' with
    | zero => rfl
    | succ fuel' =>
      rw [piecesWithin, piecesWithin, if_pos hx]
  | succ fuel ih =>
    intro fuel' h₁ h₂
    cases fuel' with
    | zero =>
      have hx : xs = [] := List.length_eq_zero_iff.mp (Nat.le_zero.mp h₂)
      rw [piecesWithin, piecesWithin, if_pos hx]
    | succ fuel' =>
      rw [piecesWithin, piecesWithin]
      split_ifs with hx
      · rfl
      · have hlt := h.length_drop_lt hx
        rw [ih (by omega) fuel' (by omega) (by omega)]

@[simp] theorem pieces_nil : pieces size ([] : List α) = [] := rfl

theorem pieces_of_ne_nil (h : Cuts size) (hx : xs ≠ []) :
    pieces size xs = xs.take (size xs.length) :: pieces size (xs.drop (size xs.length)) := by
  have hlt := h.length_drop_lt hx
  cases xs with
  | nil => exact absurd rfl hx
  | cons x xs =>
    change piecesWithin size (xs.length + 1) (x :: xs) = _
    rw [piecesWithin, if_neg hx, piecesWithin_eq h (Nat.lt_succ_iff.mp hlt)]

/-- A list is its pieces in their order. -/
theorem flatten_pieces (h : Cuts size) (xs : List α) : (pieces size xs).flatten = xs := by
  induction hn : xs.length using Nat.strong_induction_on generalizing xs with
  | _ n ih =>
    by_cases hx : xs = []
    · rw [hx]
      rfl
    · have hlt := h.length_drop_lt hx
      rw [pieces_of_ne_nil h hx, List.flatten_cons, ih _ (by omega) _ rfl, List.take_append_drop]

theorem pieces_eq_nil_iff (h : Cuts size) : pieces size xs = [] ↔ xs = [] := by
  constructor
  · intro hp
    rw [← flatten_pieces h xs, hp, List.flatten_nil]
  · rintro rfl
    rfl

/-- The length of each piece is the one that is next when it comes. -/
theorem length_piece (h : Cuts size) {pre post : List (List α)} {p : List α}
    (hp : pieces size xs = pre ++ p :: post) :
    p.length = size (xs.length - pre.flatten.length) ∧ p ≠ [] := by
  induction pre generalizing xs with
  | nil =>
    have hx : xs ≠ [] := by
      rintro rfl
      cases hp
    rw [pieces_of_ne_nil h hx, List.nil_append] at hp
    obtain ⟨rfl, _⟩ := List.cons.inj hp
    have hcut := h xs.length (List.length_pos_iff.mpr hx)
    have hlen : (xs.take (size xs.length)).length = size xs.length := by
      rw [List.length_take, min_eq_left hcut.2]
    refine ⟨hlen, ?_⟩
    intro hnil
    rw [hnil] at hlen
    have := hcut.1
    simp at hlen
    omega
  | cons q pre ih =>
    have hx : xs ≠ [] := by
      rintro rfl
      cases hp
    rw [pieces_of_ne_nil h hx, List.cons_append] at hp
    obtain ⟨rfl, hrest⟩ := List.cons.inj hp
    obtain ⟨hlen, hne⟩ := ih hrest
    refine ⟨?_, hne⟩
    have hcut := (h xs.length (List.length_pos_iff.mpr hx)).2
    rw [hlen, List.length_drop, List.flatten_cons, List.length_append, List.length_take,
      min_eq_left hcut, Nat.sub_sub]

/-- Pieces of one length, but for the last one. -/
theorem length_pieces_min {c : ℕ} (hc : 0 < c) (xs : List α) :
    (pieces (fun n => min n c) xs).length = (xs.length + (c - 1)) / c := by
  have h : Cuts fun n => min n c := fun n hn => by
    dsimp only
    omega
  induction hn : xs.length using Nat.strong_induction_on generalizing xs with
  | _ n ih =>
    by_cases hx : xs = []
    · subst hx
      subst hn
      exact (Nat.div_eq_of_lt (by rw [List.length_nil]; omega)).symm
    · have hpos := List.length_pos_iff.mpr hx
      have hdrop : (xs.drop (min xs.length c)).length = n - c := by
        rw [List.length_drop]
        omega
      rw [pieces_of_ne_nil h hx, List.length_cons, ih (n - c) (by omega) _ hdrop]
      by_cases hle : n ≤ c
      · rw [Nat.sub_eq_zero_of_le hle, Nat.zero_add, Nat.div_eq_of_lt (by omega),
          Nat.div_eq_of_lt_le] <;> omega
      · rw [← Nat.add_div_right _ hc]
        congr 1
        omega

/-- The messages of pieces, the first of which has number `i`, of `n` elements. -/
def messages (msg : ℕ → ℕ → List α → β) : ℕ → ℕ → List (List α) → List β
  | _, _, [] => []
  | i, n, p :: ps => msg i (n - p.length) p :: messages msg (i + 1) (n - p.length) ps

@[simp] theorem length_messages (msg : ℕ → ℕ → List α → β) (i n : ℕ) (ps : List (List α)) :
    (messages msg i n ps).length = ps.length := by
  induction ps generalizing i n with
  | nil => rfl
  | cons p ps ih => rw [messages, List.length_cons, ih, List.length_cons]

theorem messages_append (i n : ℕ) (ps qs : List (List α)) :
    messages msg i n (ps ++ qs) =
      messages msg i n ps ++ messages msg (i + ps.length) (n - ps.flatten.length) qs := by
  induction ps generalizing i n with
  | nil => rfl
  | cons p ps ih =>
    rw [List.cons_append, messages, ih, messages, List.cons_append, List.flatten_cons,
      List.length_append, List.length_cons, Nat.sub_sub, Nat.add_assoc, Nat.add_comm 1]

/-- What a message shows of its number and its piece. -/
theorem map_messages {γ : Type*} {g : β → γ} {f : ℕ → List α → γ}
    (h : ∀ i n p, g (msg i n p) = f i p) (i n : ℕ) (ps : List (List α)) :
    (messages msg i n ps).map g = ps.mapIdx fun j p => f (i + j) p := by
  induction ps generalizing i n with
  | nil => rfl
  | cons p ps ih =>
    rw [messages, List.map_cons, ih, h, List.mapIdx_cons, Nat.add_zero]
    congr 2
    funext j q
    rw [Nat.add_assoc, Nat.add_comm 1]

/-- Before the last element is sent, every message has something left behind it. -/
theorem left_of_mem_messages {i n : ℕ} {ps : List (List α)} (h : ps.flatten.length < n) {x : β}
    (hx : x ∈ messages msg i n ps) : ∃ j l p, 0 < l ∧ x = msg j l p := by
  induction ps generalizing i n with
  | nil => cases hx
  | cons p ps ih =>
    rw [List.flatten_cons, List.length_append] at h
    rw [messages, List.mem_cons] at hx
    rcases hx with rfl | hx
    · exact ⟨i, n - p.length, p, by omega, rfl⟩
    · exact ih (by omega) hx

/-- How many of `k` messages are sent, the first of which has number `i`. -/
def sentCount (refused : ℕ → Bool) : ℕ → ℕ → ℕ
  | _, 0 => 0
  | i, k + 1 => if refused i then 1 else sentCount refused (i + 1) k + 1

/-- Without a refusal all are sent. -/
theorem sentCount_eq {i k : ℕ} (h : ∀ j < k, refused (i + j) = false) :
    sentCount refused i k = k := by
  induction k generalizing i with
  | zero => rfl
  | succ k ih =>
    have h₀ : refused i = false := h 0 (Nat.succ_pos _)
    rw [sentCount, h₀, if_neg Bool.false_ne_true, ih]
    intro j hj
    rw [Nat.add_assoc, Nat.add_comm 1 j]
    exact h (j + 1) (Nat.succ_lt_succ hj)

/-- The loop is left; it has sent the messages up to the first one that is refused. -/
theorem loop_transfer (msg : ℕ → ℕ → List α → β) (refused : ℕ → Bool) (h : Cuts size)
    (sent : List β) (xs : List α) {fuel : ℕ} (hf : xs.length < fuel) :
    ∃ t, loop (Transfer.pass size msg refused) fuel ⟨xs, sent, false⟩ = some t ∧
      t.sent = sent ++ (messages msg sent.length xs.length (pieces size xs)).take
        (sentCount refused sent.length (pieces size xs).length) ∧
      (t.failed = true ↔ ∃ j < (pieces size xs).length, refused (sent.length + j) = true) := by
  induction fuel generalizing xs sent with
  | zero => omega
  | succ fuel ih =>
    rw [loop, Transfer.pass]
    dsimp only
    by_cases hx : xs = []
    · rw [if_pos hx]
      subst hx
      refine ⟨_, rfl, (List.append_nil _).symm, ?_⟩
      simp
    have hlt := h.length_drop_lt hx
    have hcut := (h xs.length (List.length_pos_iff.mpr hx)).2
    have hleft : xs.length - (xs.take (size xs.length)).length =
        (xs.drop (size xs.length)).length := by
      rw [List.length_take, List.length_drop, min_eq_left hcut]
    rw [if_neg hx, pieces_of_ne_nil h hx, List.length_cons, sentCount, messages, hleft]
    by_cases hb : refused sent.length = true
    · rw [if_pos hb, if_pos hb]
      exact ⟨_, rfl, rfl, iff_of_true rfl ⟨0, Nat.succ_pos _, hb⟩⟩
    · rw [if_neg hb, if_neg hb]
      obtain ⟨t, ht, hsent, hfail⟩ := ih
        (sent ++ [msg sent.length (xs.drop (size xs.length)).length (xs.take (size xs.length))])
        (xs.drop (size xs.length)) (by omega)
      have hnum : (sent ++ [msg sent.length (xs.drop (size xs.length)).length
          (xs.take (size xs.length))]).length = sent.length + 1 := List.length_append
      rw [hnum] at hsent hfail
      refine ⟨t, ht, ?_, ?_⟩
      · rw [hsent, List.append_assoc, List.take_succ_cons]
        rfl
      · rw [hfail]
        constructor
        · rintro ⟨j, hj, hr⟩
          refine ⟨j + 1, Nat.succ_lt_succ hj, ?_⟩
          rw [← hr]
          congr 1
          omega
        · rintro ⟨j, hj, hr⟩
          cases j with
          | zero => exact absurd hr hb
          | succ j =>
            refine ⟨j, Nat.lt_of_succ_lt_succ hj, ?_⟩
            rw [← hr]
            congr 1
            omega

end Lib
