import Skw.Kernel.Elements

/-! `skw_ie_split_ric`: where a list of elements is cut so that those of a table of kinds come
before the cut. A fragment stays with the element that it belongs to. -/
namespace Skw
open Lib (Tlv)

abbrev SKW_WLAN_EID_FRAGMENT : BitVec 8 := 242
abbrev WLAN_EID_RIC_DATA : BitVec 8 := 57

/-- The loop over the fragments behind an element. The loops of this file go on as often as `fuel`
tells, and a read behind the list gives nothing. -/
def skipFragments (ies : List (BitVec 8)) : ℕ → ℕ → Option ℕ
  | 0, _ => none
  | fuel + 1, pos =>
    if pos < ies.length then do
      if (← ies[pos]?) = SKW_WLAN_EID_FRAGMENT then
        let len ← ies[pos + 1]?
        skipFragments ies fuel (pos + (2 + len.toNat))
      else some pos
    else some pos

/-- `skw_skip_ie` -/
def skipIe (ies : List (BitVec 8)) (pos : ℕ) : Option ℕ := do
  let len ← ies[pos + 1]?
  let pos := pos + (2 + len.toNat)
  if len.toNat < 255 then some pos else skipFragments ies (ies.length + 1) pos

def idLoop (id : BitVec 8) (idExt : Bool) : List (BitVec 8) → Bool
  | [] => false
  | [c] => c = id && !idExt
  | c :: d :: ids =>
    if c = SKW_WLAN_EID_EXTENSION then
      if idExt && d = id then true else idLoop id idExt ids
    else if c = id && !idExt then true
    else idLoop id idExt (d :: ids)

/-- `skw_id_in_list`; a table has an entry, and the kind of an extension is behind its mark. -/
def idInList (ids : List (BitVec 8)) (id : BitVec 8) (idExt : Bool) : Bool :=
  if ids.getLast? = some SKW_WLAN_EID_EXTENSION then false else idLoop id idExt ids

/-- Whether the element at `pos` is in a table; nothing when its kind would be behind the list. -/
def kindInList (ies ids : List (BitVec 8)) (pos : ℕ) : Option (Option Bool) := do
  let ext : Bool := (← ies[pos]?) = SKW_WLAN_EID_EXTENSION
  let kind := pos + if ext then 2 else 0
  if ies.length ≤ kind then some none
  else
    let id ← ies[kind]?
    some (some (idInList ids id ext))

/-- The loop over what belongs to a resource request. -/
def skipRic (ies afterRic : List (BitVec 8)) : ℕ → ℕ → Option ℕ
  | 0, _ => none
  | fuel + 1, pos =>
    if pos < ies.length then do
      match ← kindInList ies afterRic pos with
      | some false => skipRic ies afterRic fuel (← skipIe ies pos)
      | _ => some pos
    else some pos

def splitLoop (ies ids afterRic : List (BitVec 8)) : ℕ → ℕ → Option ℕ
  | 0, _ => none
  | fuel + 1, pos =>
    if pos < ies.length then do
      match ← kindInList ies ids pos with
      | some true =>
        let pos' ← skipIe ies pos
        if (← ies[pos]?) = WLAN_EID_RIC_DATA ∧ afterRic ≠ [] then
          splitLoop ies ids afterRic fuel (← skipRic ies afterRic (ies.length + 1) pos')
        else splitLoop ies ids afterRic fuel pos'
      | _ => some pos
    else some pos

/-- `skw_ie_split_ric` -/
def ieSplitRic (ies ids afterRic : List (BitVec 8)) (offset : ℕ) : Option ℕ :=
  splitLoop ies ids afterRic (ies.length + 1) offset

section
variable {pre : List (BitVec 8)} {post : List Tlv} {e : Tlv} {fuel : ℕ} {r : Option ℕ}

/-- A position at the end of the first ones of the elements `post`, which begin behind `pre`. -/
def Lands (pre : List (BitVec 8)) (post : List Tlv) (r : Option ℕ) : Prop :=
  ∃ mid post', post = mid ++ post' ∧ r = some (pre ++ elementBytes mid).length

theorem Lands.here (pre : List (BitVec 8)) (post : List Tlv) : Lands pre post (some pre.length) :=
  ⟨[], post, rfl, by rw [elementBytes, List.flatMap_nil, List.append_nil]⟩

theorem Lands.behind (front : List Tlv) (h : Lands (pre ++ elementBytes front) post r) :
    Lands pre (front ++ post) r := by
  obtain ⟨mid, post', rfl, rfl⟩ := h
  refine ⟨front ++ mid, post', by rw [List.append_assoc], ?_⟩
  rw [elementBytes_append, List.append_assoc]

theorem getElem?_id (pre : List (BitVec 8)) (e : Tlv) (post : List Tlv) :
    (pre ++ elementBytes (e :: post))[pre.length]? = some e.id := by
  rw [List.getElem?_append_right le_rfl, Nat.sub_self, elementBytes_cons]
  rfl

theorem getElem?_len (pre : List (BitVec 8)) (e : Tlv) (post : List Tlv) :
    (pre ++ elementBytes (e :: post))[pre.length + 1]? = some (BitVec.ofNat 8 e.data.length) := by
  rw [List.getElem?_append_right (Nat.le_add_right _ 1), Nat.add_sub_cancel_left,
    elementBytes_cons]
  rfl

theorem append_elementBytes_cons (pre : List (BitVec 8)) (e : Tlv) (post : List Tlv) :
    pre ++ elementBytes (e :: post) = pre ++ elementBytes [e] ++ elementBytes post := by
  rw [List.append_assoc, ← elementBytes_append]
  rfl

/-- The position behind an element. -/
theorem length_append_element (pre : List (BitVec 8)) (e : Tlv) :
    pre.length + (2 + (BitVec.ofNat 8 e.data.length).toNat) = (pre ++ elementBytes [e]).length := by
  rw [toNat_length, elementBytes_cons, List.length_append, List.length_append, Tlv.length_bytes,
    Tlv.size, elementBytes, List.flatMap_nil, List.length_nil]
  omega

theorem lt_length_element (pre : List (BitVec 8)) (e : Tlv) (post : List Tlv) :
    pre.length < (pre ++ elementBytes (e :: post)).length := by
  rw [elementBytes_cons, List.length_append, List.length_append, Tlv.length_bytes, Tlv.size]
  omega

theorem not_lt_length_nil (pre : List (BitVec 8)) :
    ¬pre.length < (pre ++ elementBytes []).length := by
  rw [elementBytes, List.flatMap_nil, List.append_nil]
  exact lt_irrefl _

theorem skipFragments_lands (pre : List (BitVec 8)) (hfuel : post.length < fuel) :
    Lands pre post (skipFragments (pre ++ elementBytes post) fuel pre.length) := by
  induction post generalizing pre fuel with
  | nil =>
    cases fuel with
    | zero => exact absurd hfuel (Nat.not_lt_zero _)
    | succ fuel =>
      rw [skipFragments, if_neg (not_lt_length_nil pre)]
      exact .here pre []
  | cons e post ih =>
    cases fuel with
    | zero => exact absurd hfuel (Nat.not_lt_zero _)
    | succ fuel =>
      rw [skipFragments, if_pos (lt_length_element pre e post), getElem?_id]
      simp only [Option.bind_eq_bind, Option.bind_some]
      split_ifs with hid
      · rw [getElem?_len, Option.bind_some, length_append_element, append_elementBytes_cons]
        exact .behind [e] (ih _ (Nat.lt_of_succ_lt_succ hfuel))
      · exact .here pre (e :: post)

/-- An element is skipped with some of those behind it. -/
theorem exists_skipIe (pre : List (BitVec 8)) (e : Tlv) (post : List Tlv) :
    ∃ mid post', post = mid ++ post' ∧
      pre ++ elementBytes (e :: post) = pre ++ elementBytes (e :: mid) ++ elementBytes post' ∧
      skipIe (pre ++ elementBytes (e :: post)) pre.length =
        some (pre ++ elementBytes (e :: mid)).length := by
  simp only [skipIe, getElem?_len, Option.bind_eq_bind, Option.bind_some, length_append_element]
  split_ifs with hshort
  · exact ⟨[], post, rfl, append_elementBytes_cons pre e post, rfl⟩
  · have hfuel : post.length < (pre ++ elementBytes (e :: post)).length + 1 := by
      have hle := length_le_length_elementBytes (e :: post)
      rw [List.length_cons] at hle
      rw [List.length_append]
      omega
    obtain ⟨mid, post', rfl, hskip⟩ := skipFragments_lands (pre ++ elementBytes [e]) hfuel
    rw [← append_elementBytes_cons, ← append_elementBytes_cons] at hskip
    refine ⟨mid, post', rfl, ?_, hskip⟩
    rw [List.append_assoc, ← elementBytes_append]
    rfl

/-- Where an element begins its kind can be read. -/
theorem exists_kindInList (pre : List (BitVec 8)) (e : Tlv) (post : List Tlv)
    (ids : List (BitVec 8)) :
    ∃ k, kindInList (pre ++ elementBytes (e :: post)) ids pre.length = some k := by
  simp only [kindInList, getElem?_id, Option.bind_eq_bind, Option.bind_some]
  generalize (pre.length + if decide (e.id = SKW_WLAN_EID_EXTENSION) = true then 2 else 0) = kind
  by_cases hend : (pre ++ elementBytes (e :: post)).length ≤ kind
  · exact ⟨none, if_pos hend⟩
  · rw [if_neg hend, List.getElem?_eq_getElem (not_le.mp hend)]
    exact ⟨_, rfl⟩

theorem skipRic_lands (afterRic : List (BitVec 8)) (hfuel : post.length < fuel) :
    Lands pre post (skipRic (pre ++ elementBytes post) afterRic fuel pre.length) := by
  induction fuel generalizing pre post with
  | zero => exact absurd hfuel (Nat.not_lt_zero _)
  | succ fuel ih =>
    cases post with
    | nil =>
      rw [skipRic, if_neg (not_lt_length_nil pre)]
      exact .here pre []
    | cons e post =>
      obtain ⟨k, hk⟩ := exists_kindInList pre e post afterRic
      rw [skipRic, if_pos (lt_length_element pre e post)]
      simp only [hk, Option.bind_eq_bind, Option.bind_some]
      match k with
      | some false =>
        obtain ⟨mid, post', rfl, hlist, hskip⟩ := exists_skipIe pre e post
        simp only [List.length_cons, List.length_append] at hfuel
        simp only [hskip, Option.bind_some]
        rw [hlist]
        exact .behind (e :: mid) (ih (by omega))
      | none => exact .here pre (e :: post)
      | some true => exact .here pre (e :: post)

theorem splitLoop_lands {ids afterRic : List (BitVec 8)} (hfuel : post.length < fuel) :
    Lands pre post (splitLoop (pre ++ elementBytes post) ids afterRic fuel pre.length) := by
  induction fuel generalizing pre post with
  | zero => exact absurd hfuel (Nat.not_lt_zero _)
  | succ fuel ih =>
    cases post with
    | nil =>
      rw [splitLoop, if_neg (not_lt_length_nil pre)]
      exact .here pre []
    | cons e post =>
      obtain ⟨k, hk⟩ := exists_kindInList pre e post ids
      rw [splitLoop, if_pos (lt_length_element pre e post)]
      simp only [hk, getElem?_id, Option.bind_eq_bind, Option.bind_some]
      match k with
      | some true =>
        obtain ⟨mid, post', rfl, hlist, hskip⟩ := exists_skipIe pre e post
        simp only [List.length_cons, List.length_append] at hfuel
        simp only [hskip, Option.bind_some]
        rw [hlist]
        refine .behind (e :: mid) ?_
        split_ifs with hric
        · -- what belongs to the request is skipped, and the loop goes on behind it
          have hricFuel : post'.length <
              (pre ++ elementBytes (e :: mid) ++ elementBytes post').length + 1 := by
            have hle := length_le_length_elementBytes post'
            rw [List.length_append]
            omega
          obtain ⟨ric, rest, rfl, hland⟩ := skipRic_lands afterRic hricFuel
          simp only [List.length_append] at hfuel
          rw [hland, Option.bind_some, elementBytes_append, ← List.append_assoc]
          exact .behind ric (ih (by omega))
        · exact ih (by omega)
      | none => exact .here pre (e :: post)
      | some false => exact .here pre (e :: post)

/-- A list that is cut from the beginning of an element on is cut at the beginning of one. -/
theorem ieSplitRic_lands (pre : List (BitVec 8)) (post : List Tlv)
    (ids afterRic : List (BitVec 8)) :
    Lands pre post (ieSplitRic (pre ++ elementBytes post) ids afterRic pre.length) := by
  apply splitLoop_lands
  have hle := length_le_length_elementBytes post
  rw [List.length_append]
  omega

end

end Skw
