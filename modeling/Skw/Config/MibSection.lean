import Skw.Config.Mib

/-! Whether the values of a `[mib]` section arrive: for every sequence of lines, which are accepted,
what the lists hold after them, and what the data that are passed on mean. -/
namespace Skw

/-- The lines in file order, each with its allocations: what they return, and the lists. -/
def mibSection (mib : CfgMib) : List (MibLine × MibAlloc) → List ℤ × CfgMib
  | [] => ([], mib)
  | (l, a) :: calls =>
    let (ret, mib) := skwMibParser a mib l.key l.value
    let (rets, mib) := mibSection mib calls
    (ret :: rets, mib)

/-- The number lies in its type. -/
def MibLine.Fits (l : MibLine) : Prop := l.type.Represents l.number

instance (l : MibLine) : Decidable l.Fits := inferInstanceAs (Decidable (MibType.Represents _ _))

/-- The entry has the id and the type of the line. -/
def MibLine.Stored (l : MibLine) (md : MibData) : Prop :=
  md.id = BitVec.ofInt 32 l.id ∧ ∃ val, md.value = .num l.type val

/-- What is passed on has the id of the line, and the data mean its number. -/
def MibLine.Passed (l : MibLine) (dat : BitVec 32 × List (BitVec 8)) : Prop :=
  dat.1 = BitVec.ofInt 32 l.id ∧ l.type.decode dat.2 = l.number

/-- The lines whose numbers fit go to the list of a mode, in file order. -/
def linesOf (mode : MibMode) (calls : List (MibLine × MibAlloc)) : List MibLine :=
  (calls.map Prod.fst).filter fun l => l.mode = mode ∧ l.Fits

/-- A line is accepted exactly when its number lies in its type; each list is continued by the
entries of its lines, and what is passed on for them means their numbers. -/
structure MibExact (mib : CfgMib) (calls : List (MibLine × MibAlloc)) : Prop where
  accepted : List.Forall₂ (fun c ret => ret = 0 ↔ c.1.Fits) calls (mibSection mib calls).1
  stored : ∀ mode, ∃ mds, (mibSection mib calls).2 mode = mib mode ++ mds ∧
    List.Forall₂ MibLine.Stored (linesOf mode calls) mds ∧
      List.Forall₂ MibLine.Passed (linesOf mode calls) (skwConfigSetMib mds)

/-- The entry of the line is allocated and its number is not misread, or it is not allocated and
its number does not lie in its type. -/
def CallExact (c : MibLine × MibAlloc) : Prop :=
  if c.2.zalloc then ¬ c.1.type.Misread c.1.number else ¬ c.1.Fits

section
variable {mib : CfgMib} {l : MibLine} {a : MibAlloc} {calls : List (MibLine × MibAlloc)}

theorem skwMibParser_eq_zero_iff (mib : CfgMib) (l : MibLine) (a : MibAlloc) :
    (skwMibParser a mib l.key l.value).1 = 0 ↔
      l.type.Accepts (l.number.bmod (2 ^ 64)) ∧ a.zalloc = true := by
  rw [skwMibParser_line]
  split_ifs with hacc hz
  · exact iff_of_true rfl ⟨hacc, hz⟩
  · exact iff_of_false (show -ENOMEM ≠ 0 by decide) fun h => hz h.2
  · exact iff_of_false (show -EINVAL ≠ 0 by decide) fun h => hacc h.1

theorem callExact_iff (mib : CfgMib) (l : MibLine) (a : MibAlloc) : CallExact (l, a) ↔
    ((skwMibParser a mib l.key l.value).1 = 0 ↔ l.Fits) := by
  rw [skwMibParser_eq_zero_iff]
  unfold CallExact
  dsimp only
  split_ifs with hz
  · rw [and_iff_left hz]
    exact (MibType.accepts_bmod_iff l.type l.number).symm
  · simp [hz]

/-- A line that is handled right adds its entry to the list of its mode, or nothing. -/
theorem CallExact.lists (h : CallExact (l, a)) (mib : CfgMib) (mode : MibMode) :
    ∃ mds, (skwMibParser a mib l.key l.value).2 mode = mib mode ++ mds ∧
      List.Forall₂ MibLine.Stored (linesOf mode [(l, a)]) mds ∧
        List.Forall₂ MibLine.Passed (linesOf mode [(l, a)]) (skwConfigSetMib mds) := by
  have hiff := (callExact_iff mib l a).1 h
  rw [skwMibParser_eq_zero_iff mib l a] at hiff
  rw [skwMibParser_line]
  by_cases hfit : l.Fits
  · obtain ⟨hacc, hz⟩ := hiff.2 hfit
    rw [if_pos hacc, if_pos hz]
    by_cases hm : l.mode = mode
    · subst hm
      have hlines : linesOf l.mode [(l, a)] = [l] := by simp [linesOf, hfit]
      refine ⟨[⟨BitVec.ofInt 32 l.id, .num l.type (BitVec.ofInt 64 l.number)⟩], by simp, ?_⟩
      rw [hlines]
      exact ⟨.cons ⟨rfl, _, rfl⟩ .nil, .cons ⟨rfl, MibType.decode_longBytes hfit⟩ .nil⟩
    · have hlines : linesOf mode [(l, a)] = [] := by simp [linesOf, hm]
      refine ⟨[], by simp [Function.update_of_ne (Ne.symm hm)], ?_⟩
      rw [hlines]
      exact ⟨.nil, .nil⟩
  · have hlines : linesOf mode [(l, a)] = [] := by simp [linesOf, hfit]
    refine ⟨[], ?_, hlines ▸ ⟨.nil, .nil⟩⟩
    have hno := mt hiff.1 hfit
    split_ifs with hacc hz
    · exact absurd ⟨hacc, hz⟩ hno
    · simp
    · simp

theorem mibExact_of_callExact (h : ∀ c ∈ calls, CallExact c) : MibExact mib calls := by
  induction calls generalizing mib with
  | nil => exact ⟨.nil, fun mode => ⟨[], by simp [mibSection], .nil, .nil⟩⟩
  | cons c calls ih =>
    obtain ⟨l, a⟩ := c
    have hc : CallExact (l, a) := h _ (by simp)
    have hrest : MibExact (skwMibParser a mib l.key l.value).2 calls :=
      ih fun c hc => h c (List.mem_cons_of_mem _ hc)
    refine ⟨.cons ((callExact_iff mib l a).1 hc) hrest.accepted, fun mode => ?_⟩
    obtain ⟨mds, hmds, hst, hpass⟩ := hc.lists mib mode
    obtain ⟨mds', hmds', hst', hpass'⟩ := hrest.stored mode
    refine ⟨mds ++ mds', ?_, ?_⟩
    · rw [mibSection]
      dsimp only
      rw [hmds', hmds, List.append_assoc]
    · have hlines : linesOf mode ((l, a) :: calls) =
          linesOf mode [(l, a)] ++ linesOf mode calls := List.filter_append [l] (calls.map Prod.fst)
      rw [hlines, skwConfigSetMib, List.map_append]
      exact ⟨List.rel_append hst hst', List.rel_append hpass hpass'⟩

theorem MibExact.callExact (h : MibExact mib calls) : ∀ c ∈ calls, CallExact c := by
  have hacc := h.accepted
  clear h
  induction calls generalizing mib with
  | nil => simp
  | cons c calls ih =>
    obtain ⟨l, a⟩ := c
    obtain ⟨hl, hrest⟩ := List.forall₂_cons.1 hacc
    intro c hc
    rcases List.mem_cons.1 hc with rfl | hc
    · exact (callExact_iff mib l a).2 hl
    · exact ih hrest c hc

end

/-- The values of a section arrive exactly when every line of it is handled right. -/
theorem mibSection_exact_iff (mib : CfgMib) (calls : List (MibLine × MibAlloc)) :
    MibExact mib calls ↔ ∀ c ∈ calls, CallExact c :=
  ⟨MibExact.callExact, mibExact_of_callExact⟩

/-- `init@1=-128/s8`. -/
def leastS8 : MibLine where
  mode := .init
  idText := [ch '1']
  id := 1
  isId := .nonneg (.dec (by decide) (by decide))
  numberText := [ch '-', ch '1', ch '2', ch '8']
  number := -128
  isNumber := .neg (.dec (by decide) (by decide))
  type := .s8

/-- The least number of 8 bits is refused. -/
theorem leastS8_not_exact : leastS8.type.Represents leastS8.number ∧
    ¬ MibExact (fun _ => []) [(leastS8, ⟨true, true⟩)] := by
  refine ⟨by decide, fun h => ?_⟩
  have hret := (List.forall₂_cons.1 h.accepted).1
  have hret : (skwMibParser ⟨true, true⟩ (fun _ => []) leastS8.key leastS8.value).1 = 0 :=
    hret.2 (by decide)
  exact absurd hret (by decide)

end Skw
