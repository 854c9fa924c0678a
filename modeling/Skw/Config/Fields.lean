import Skw.Config.Parser

/-! The fields of an address and of an interface entry: with how many fields an address overruns its
six bytes, and with which fields an entry outside `interface[]` is touched. -/
namespace Skw

/-- A field of an address that is read: at most seven characters, and a value of one byte. -/
def FieldRead (f : Str) : Prop := f.length ≤ 7 ∧ (simpleStrtol f 16).1.toInt ≤ 0xff

instance (f : Str) : Decidable (FieldRead f) := inferInstanceAs (Decidable (_ ∧ _))

/-- The fields that are read, up to the first one that is not. -/
def macFields (s : Str) : List Str := (s.splitOn (ch ':')).takeWhile fun f => FieldRead f

section
variable {p f u : Str} {c : BitVec 8} {dat : CharBuf 8} (rest : Str) (addr : MacBytes) (idx : ℕ)

theorem endField_eq {m : MacState} (hf : 0 ∉ f) (h : m.dat.cells = f ++ 0 :: u) :
    m.endField = if (simpleStrtol f 16).1.toInt > 0xff then some (m, true) else
      (m.addr.write m.idx [(simpleStrtol f 16).1.setWidth 8]).bind fun addr =>
        some ({ m with j := 0, addr := addr, idx := m.idx + 1 }, false) := by
  rw [MacState.endField, Lib.Fixed.string_of_cells hf h]
  rfl

/-- A character before the end of a field goes to `dat`. -/
theorem macLoop_char {d : BitVec 8} (hd : d ≠ 0 ∧ d ≠ ch ':') (hdat : dat.cells = p ++ u)
    (hp : p.length < 8) : ∃ dat' w, dat'.cells = p ++ [d] ++ w ∧
      macLoop (d :: rest) ⟨dat, p.length, addr, idx⟩ =
        macLoop rest ⟨dat', (p ++ [d]).length, addr, idx⟩ := by
  obtain ⟨dat', hw⟩ := dat.exists_write (i := p.length) (s := [d]) (Nat.succ_le_of_lt hp)
  have hcells := Lib.Fixed.cells_of_write hw
  rw [hdat, List.take_left] at hcells
  refine ⟨dat', _, hcells, ?_⟩
  rw [macLoop]
  simp only [if_neg hd.2, if_neg hd.1, if_neg (Nat.not_le.2 hp), hw, List.length_append,
    List.length_singleton]
  rfl

/-- The end of a field. -/
theorem macLoop_sep (hc : c = ch ':' ∨ c = 0) (hp : 0 ∉ p) (hdat : dat.cells = p ++ u)
    (hlen : p.length < 8) : if FieldRead p then ∃ dat',
      macLoop (c :: rest) ⟨dat, p.length, addr, idx⟩ =
        (addr.write idx [(simpleStrtol p 16).1.setWidth 8]).bind fun addr =>
          macLoop rest ⟨dat', 0, addr, idx + 1⟩
      else ∃ m, macLoop (c :: rest) ⟨dat, p.length, addr, idx⟩ = some m := by
  obtain ⟨dat', hw⟩ := dat.exists_write (i := p.length) (s := [0]) (Nat.succ_le_of_lt hlen)
  have hcells := Lib.Fixed.cells_of_write hw
  rw [hdat, List.take_left, List.append_assoc] at hcells
  have hchr : (if c = ch ':' then 0 else c) = 0 := by
    rcases hc with rfl | rfl
    · exact if_pos rfl
    · exact ite_self _
  have hend := endField_eq (m := ⟨dat', p.length + 1, addr, idx⟩) hp hcells
  have hloop : macLoop (c :: rest) ⟨dat, p.length, addr, idx⟩ =
      (MacState.endField ⟨dat', p.length + 1, addr, idx⟩).bind fun q =>
        if q.2 then some q.1 else macLoop rest q.1 := by
    rw [macLoop]
    simp only [hchr, if_neg (Nat.not_le.2 hlen), hw]
    rfl
  rw [hloop, hend]
  by_cases hv : (simpleStrtol p 16).1.toInt > 0xff
  · rw [if_neg fun h : FieldRead p => absurd h.2 (not_le.2 hv), if_pos hv]
    exact ⟨_, rfl⟩
  · rw [if_pos ⟨Nat.lt_succ_iff.1 hlen, not_lt.1 hv⟩, if_neg hv]
    refine ⟨dat', ?_⟩
    dsimp only
    cases addr.write idx [(simpleStrtol p 16).1.setWidth 8] with
    | none => rfl
    | some a => rfl

/-- A field of an address, of which `p` stands in `dat` already. -/
theorem macLoop_field (hc : c = ch ':' ∨ c = 0) (hp : 0 ∉ p) (hf : 0 ∉ f ∧ ch ':' ∉ f)
    (hdat : dat.cells = p ++ u) : if FieldRead (p ++ f) then ∃ dat',
      macLoop (f ++ c :: rest) ⟨dat, p.length, addr, idx⟩ =
        (addr.write idx [(simpleStrtol (p ++ f) 16).1.setWidth 8]).bind fun addr =>
          macLoop rest ⟨dat', 0, addr, idx + 1⟩
      else ∃ m, macLoop (f ++ c :: rest) ⟨dat, p.length, addr, idx⟩ = some m := by
  induction f generalizing p dat u with
  | nil =>
    rw [List.append_nil, List.nil_append]
    by_cases hlen : p.length < 8
    · exact macLoop_sep rest addr idx hc hp hdat hlen
    · rw [if_neg fun h : FieldRead p => hlen (Nat.lt_succ_of_le h.1), macLoop]
      exact ⟨_, if_pos (Nat.not_lt.1 hlen)⟩
  | cons d f ih =>
    have hd : d ≠ 0 ∧ d ≠ ch ':' :=
      ⟨fun h => hf.1 (h ▸ List.mem_cons_self), fun h => hf.2 (h ▸ List.mem_cons_self)⟩
    by_cases hlen : p.length < 8
    · obtain ⟨dat', w, hw, hloop⟩ :=
        macLoop_char (f ++ c :: rest) addr idx hd hdat hlen
      rw [List.cons_append, hloop]
      have hp' : 0 ∉ p ++ [d] := by
        simpa using ⟨hp, Ne.symm hd.1⟩
      have := ih hp' ⟨mt (List.mem_cons_of_mem d) hf.1, mt (List.mem_cons_of_mem d) hf.2⟩ hw
      rwa [List.append_assoc, List.singleton_append] at this
    · have hlong : ¬ FieldRead (p ++ d :: f) := fun h => by
        have := h.1
        rw [List.length_append] at this
        omega
      rw [if_neg hlong, List.cons_append, macLoop]
      exact ⟨_, if_pos (Nat.not_lt.1 hlen)⟩

/-- A whole field that is read stays inside the address only if fewer than six were before it. -/
theorem isSome_macLoop_field (hc : c = ch ':' ∨ c = 0) (hf : 0 ∉ f ∧ ch ':' ∉ f) (dat : CharBuf 8)
    {n : ℕ} (hrest : ∀ dat addr, idx < ETH_ALEN →
      ((macLoop rest ⟨dat, 0, addr, idx + 1⟩).isSome ↔ idx + 1 + n ≤ ETH_ALEN))
    (hidx : idx ≤ ETH_ALEN) : (macLoop (f ++ c :: rest) ⟨dat, 0, addr, idx⟩).isSome ↔
      idx + (if FieldRead f then n + 1 else 0) ≤ ETH_ALEN := by
  have hfield := macLoop_field rest addr idx hc List.not_mem_nil hf (List.nil_append dat.cells).symm
  rw [List.nil_append] at hfield
  by_cases hr : FieldRead f
  · rw [if_pos hr] at hfield ⊢
    obtain ⟨dat', hloop⟩ := hfield
    rw [List.length_nil] at hloop
    rw [hloop]
    by_cases hlt : idx < ETH_ALEN
    · obtain ⟨a, ha⟩ := addr.exists_write (i := idx)
        (s := [(simpleStrtol f 16).1.setWidth 8]) (Nat.succ_le_of_lt hlt)
      rw [ha, Option.bind_some, hrest dat' a hlt]
      omega
    · have hnone : addr.write idx [(simpleStrtol f 16).1.setWidth 8] = none := by
        rw [← Option.not_isSome_iff_eq_none, Lib.Fixed.isSome_write_iff]
        exact fun h => hlt h
      rw [hnone]
      simp only [Option.bind_none, Option.isSome_none, Bool.false_eq_true, false_iff]
      omega
  · rw [if_neg hr] at hfield ⊢
    obtain ⟨m, hm⟩ := hfield
    rw [List.length_nil] at hm
    rw [hm]
    exact iff_of_true rfl hidx

end

theorem macFields_append {f : Str} (hf : ch ':' ∉ f) (s : Str) :
    macFields (f ++ ch ':' :: s) = if FieldRead f then f :: macFields s else [] := by
  rw [macFields, List.splitOn_append_cons_self_of_not_mem hf, List.takeWhile_cons]
  by_cases h : FieldRead f
  · rw [if_pos (decide_eq_true h), if_pos h, macFields]
  · rw [if_neg (by simpa using h), if_neg h]

theorem macFields_last {f : Str} (hf : ch ':' ∉ f) :
    macFields f = if FieldRead f then [f] else [] := by
  rw [macFields, List.splitOn_eq_singleton hf, List.takeWhile_cons]
  by_cases h : FieldRead f
  · rw [if_pos (decide_eq_true h), if_pos h, List.takeWhile_nil]
  · rw [if_neg (by simpa using h), if_neg h]

/-- An address stays inside its six bytes exactly when at most six fields are read. -/
theorem isSome_macLoop_iff {s : Str} (hs : 0 ∉ s) (dat : CharBuf 8) (addr : MacBytes) {idx : ℕ}
    (hidx : idx ≤ ETH_ALEN) : (macLoop (s ++ [0]) ⟨dat, 0, addr, idx⟩).isSome ↔
      idx + (macFields s).length ≤ ETH_ALEN := by
  induction hn : s.length using Nat.strong_induction_on generalizing s dat addr idx with
  | h n ih =>
    by_cases hmem : ch ':' ∈ s
    · obtain ⟨f, t, rfl, hf⟩ := List.eq_append_cons_of_mem hmem
      have hf0 : 0 ∉ f := fun h => hs (List.mem_append_left _ h)
      have ht0 : 0 ∉ t := fun h =>
        hs (List.mem_append_right _ (List.mem_cons_of_mem _ h))
      have hlt : t.length < n := by
        rw [← hn, List.length_append, List.length_cons]
        omega
      rw [List.append_assoc, List.cons_append, macFields_append hf,
        isSome_macLoop_field (t ++ [0]) addr idx (Or.inl rfl) ⟨hf0, hf⟩ dat
          (fun dat addr hlt' => ih t.length hlt ht0 dat addr hlt' rfl) hidx]
      split_ifs <;> rfl
    · rw [macFields_last hmem,
        isSome_macLoop_field (n := 0) [] addr idx (Or.inr rfl) ⟨hs, hmem⟩ dat
          (fun dat addr hlt => iff_of_true rfl hlt) hidx]
      split_ifs <;> rfl

/-- At most six fields of an address are read. -/
def MacOk (s : Str) : Prop := (macFields s).length ≤ ETH_ALEN

theorem isSome_macOf_iff {s : Str} (hs : 0 ∉ s) : (macOf s).isSome ↔ MacOk s := by
  have h := isSome_macLoop_iff hs (Lib.Fixed.fill 8 0) (Lib.Fixed.fill ETH_ALEN 0)
    (Nat.zero_le ETH_ALEN)
  rw [Nat.zero_add] at h
  rw [MacOk, ← h, macOf]
  cases macLoop (s ++ [0]) ⟨Lib.Fixed.fill 8 0, 0, Lib.Fixed.fill ETH_ALEN 0, 0⟩ with
  | none => rfl
  | some m => rfl

theorem subset_of_mem_splitOn {c : BitVec 8} {s f : Str} (h : f ∈ s.splitOn c) : f ⊆ s := by
  induction hn : s.length using Nat.strong_induction_on generalizing s with
  | h n ih =>
    by_cases hmem : c ∈ s
    · obtain ⟨g, t, rfl, hg⟩ := List.eq_append_cons_of_mem hmem
      rw [List.splitOn_append_cons_self_of_not_mem hg] at h
      rcases List.mem_cons.1 h with rfl | h
      · exact List.subset_append_left f (c :: t)
      · have hlt : t.length < n := by
          rw [← hn, List.length_append, List.length_cons]
          omega
        exact fun x hx => List.mem_append_right g (List.mem_cons_of_mem c (ih _ hlt h rfl hx))
    · rw [List.splitOn_eq_singleton hmem, List.mem_singleton] at h
      exact h ▸ List.Subset.refl f

theorem idxOf?_append {c : BitVec 8} {f : Str} (hf : c ∉ f) (t : Str) :
    (f ++ c :: t).idxOf? c = some f.length := by
  rw [List.idxOf?_eq_some_iff]
  refine ⟨by simp, by simp, fun j hj he => hf ?_⟩
  rw [List.getElem_append_left hj] at he
  exact he ▸ List.getElem_mem hj

namespace IntfState

/-- A field, which is left out if it is empty. -/
def step (idx : ℕ) (f : Str) (s : IntfState) : Option (IntfState × Bool) :=
  if f = [] then some (s, false) else field idx f s

def fields : List Str → ℕ → IntfState → Option IntfState
  | [], _, s => some s
  | f :: fs, idx, s =>
    (step idx f s).bind fun q => if q.2 then some q.1 else fields fs (idx + 1) q.1

theorem fields_nil_cons (fs : List Str) (idx : ℕ) (s : IntfState) :
    fields ([] :: fs) idx s = fields fs (idx + 1) s := rfl

/-- The pass over a field that is not empty. -/
theorem loop_field {n idx : ℕ} {pos f : Str} {s : IntfState} (hf : f ≠ []) (h0 : 0 ∉ f)
    (hlen : f.length < SKW_LINE_BUFF_LEN) (hpos : pos ≠ [])
    (hidx : (pos.idxOf? (ch ',')).getD pos.length = f.length) (htake : pos.take f.length = f) :
    loop (n + 1) pos idx s = (field idx f s).bind fun q =>
      if q.2 ∨ pos.idxOf? (ch ',') = none then some q.1
      else loop n (pos.drop (f.length + 1)) (idx + 1) q.1 := by
  obtain ⟨buff, hw, hcells⟩ :=
    (Lib.Fixed.fill SKW_LINE_BUFF_LEN (0 : BitVec 8)).write_zero hlen.le
  have hstr : buff.string 0 = some f := by
    have hd : SKW_LINE_BUFF_LEN - f.length = SKW_LINE_BUFF_LEN - f.length - 1 + 1 := by omega
    rw [Lib.Fixed.fill, List.drop_replicate, hd, List.replicate_succ] at hcells
    exact Lib.Fixed.string_of_cells h0 hcells
  rw [loop, if_neg hpos]
  simp only [hidx, htake, hw, List.length_eq_zero_iff, if_neg hf]
  change (buff.string 0).bind _ = _
  rw [hstr]
  rfl

/-- The loop goes over the first fields of the text. -/
theorem loop_eq (n : ℕ) {pos : Str} (idx : ℕ) (s : IntfState) (h0 : 0 ∉ pos)
    (hlen : pos.length < SKW_LINE_BUFF_LEN) :
    loop n pos idx s = fields ((pos.splitOn (ch ',')).take n) idx s := by
  induction n generalizing pos idx s with
  | zero => rfl
  | succ n ih =>
    by_cases hpos : pos = []
    · subst hpos
      rw [List.splitOn_nil, List.take_succ_cons, List.take_nil, fields_nil_cons]
      rfl
    · by_cases hmem : ch ',' ∈ pos
      · obtain ⟨f, t, rfl, hf⟩ := List.eq_append_cons_of_mem hmem
        have hf0 : 0 ∉ f := fun h => h0 (List.mem_append_left _ h)
        have ht0 : 0 ∉ t := fun h => h0 (List.mem_append_right _ (List.mem_cons_of_mem _ h))
        rw [List.length_append, List.length_cons] at hlen
        have hi := idxOf?_append hf t
        have hdrop : (f ++ ch ',' :: t).drop (f.length + 1) = t := by
          rw [← List.drop_drop, List.drop_left]
          rfl
        rw [List.splitOn_append_cons_self_of_not_mem hf, List.take_succ_cons]
        by_cases hfe : f = []
        · subst hfe
          rw [fields_nil_cons, ← ih (idx + 1) s ht0 (by omega), loop, if_neg hpos, hi]
          rfl
        · rw [loop_field hfe hf0 (by omega) hpos (by rw [hi]; rfl) (List.take_left ..), hdrop,
            fields, step, if_neg hfe]
          congr 1
          funext q
          rw [hi, ih (idx + 1) q.1 ht0 (by omega)]
          simp
      · have hi : pos.idxOf? (ch ',') = none := List.idxOf?_eq_none_iff.2 hmem
        rw [loop_field hpos h0 hlen hpos (by rw [hi]; rfl) (List.take_length ..),
          List.splitOn_eq_singleton hmem, List.take_succ_cons, fields, step, if_neg hpos]
        congr 1
        funext q
        simp [hi, fields]

/-- Empty fields behind the last one change nothing. -/
theorem fields_take (n : ℕ) (l : List Str) (idx : ℕ) (s : IntfState) :
    fields (l.take n) idx s = fields ((List.range n).map fun i => l.getD i []) idx s := by
  induction n generalizing l idx s with
  | zero => rfl
  | succ n ih =>
    rw [List.range_succ_eq_map, List.map_cons, List.map_map]
    cases l with
    | nil =>
      rw [List.take_nil, List.getD_nil, fields_nil_cons]
      have := ih [] (idx + 1) s
      rwa [List.take_nil] at this
    | cons f l =>
      rw [List.take_succ_cons, fields, fields]
      congr 1
      funext q
      rw [ih l (idx + 1) q.1]
      rfl

/-- `ifa` points into the array. -/
def Inside (s : IntfState) : Prop := 0 ≤ s.ifa ∧ s.ifa < SKW_NR_IFACE

theorem exists_entry {s : IntfState} (h : s.Inside) : ∃ x, s.entry = some x := by
  have hlen := s.intf.length_cells
  have hlt : s.ifa.toNat < s.intf.cells.length := by
    have := h.1
    have := h.2
    omega
  exact ⟨s.intf.cells[s.ifa.toNat], by rw [entry, if_pos h.1, List.getElem?_eq_getElem hlt]⟩

theorem entry_eq_none {s : IntfState} (h : ¬ s.Inside) : s.entry = none := by
  unfold entry
  split_ifs with h0
  · have hlen := s.intf.length_cells
    unfold Inside at h
    exact List.getElem?_eq_none (by omega)
  · rfl

theorem exists_setEntry {s : IntfState} (h : s.Inside) (x : CfgInterface) :
    ∃ t, s.setEntry x = some t ∧ t.ifa = s.ifa := by
  have hlt : s.ifa.toNat + [x].length ≤ SKW_NR_IFACE := by
    have := h.1
    have := h.2
    rw [List.length_singleton]
    omega
  obtain ⟨intf, hw⟩ := s.intf.exists_write hlt
  exact ⟨{ s with intf := intf }, by rw [setEntry, hw]; rfl, rfl⟩

theorem exists_setName (x : CfgInterface) (buff : Str) : ∃ y, setName x buff = some y := by
  have hlen : (buff.take (IFNAMSIZ - 1)).length ≤ IFNAMSIZ - 1 := List.length_take_le _ _
  obtain ⟨c, hc⟩ := x.name.exists_write (i := 0) (s := buff.take (IFNAMSIZ - 1) ++
    List.replicate (IFNAMSIZ - 1 - (buff.take (IFNAMSIZ - 1)).length) 0) (by
      rw [List.length_append, List.length_replicate]
      omega)
  obtain ⟨d, hd⟩ := c.exists_write (i := IFNAMSIZ - 1) (s := [0]) (by decide)
  refine ⟨{ x with name := d }, ?_⟩
  simp only [setName, hc, hd, Option.bind_eq_bind, Option.bind_some]

/-- Whether a field behind the first one touches the entry; `none` where its address overruns. -/
def touches (idx : ℕ) (f : Str) : Option Bool :=
  match idx with
  | 0 => some false
  | 1 => some (mode f).isSome
  | 2 => some (f ≠ [] ∧ f.length ≤ IFNAMSIZ)
  | _ => (macOf f).map Option.isSome

theorem step_nil (idx : ℕ) (s : IntfState) : step idx [] s = some (s, false) := if_pos rfl

theorem touches_nil (idx : ℕ) : touches idx [] = some false := by
  match idx with
  | 0 => rfl
  | 1 => rfl
  | 2 => rfl
  | n + 3 =>
    have h : macOf [] = some none := by decide
    change (macOf []).map Option.isSome = some false
    rw [h]
    rfl

/-- A name that is taken always fits the entry. -/
theorem field_two {f : Str} (s : IntfState) (hlen : ¬ f.length > IFNAMSIZ) :
    field 2 f s = s.entry.bind fun x =>
      (s.setEntry ((setName x f).getD x)).bind fun t => some (t, false) := by
  simp only [field, if_neg hlen]
  change s.entry.bind _ = _
  congr 1
  funext x
  obtain ⟨y, hy⟩ := exists_setName x f
  simp only [hy, Option.bind_eq_bind, Option.bind_some, Option.getD_some]

/-- What a field behind the first one does to the entry, when it touches it. -/
theorem step_eq {idx : ℕ} {f : Str} (s : IntfState) (hidx : idx ≠ 0) :
    (touches idx f = none ∧ step idx f s = none) ∨
      (touches idx f = some false ∧ step idx f s = some (s, false)) ∨
      (touches idx f = some true ∧ ∃ g : CfgInterface → CfgInterface, step idx f s =
        s.entry.bind fun x => (s.setEntry (g x)).bind fun t => some (t, false)) := by
  by_cases hf : f = []
  · subst hf
    exact Or.inr (Or.inl ⟨touches_nil idx, step_nil idx s⟩)
  · rw [step, if_neg hf]
    match idx with
    | 0 => exact absurd rfl hidx
    | 1 =>
      cases hm : mode f with
      | none =>
        refine Or.inr (Or.inl ⟨?_, ?_⟩)
        · simp only [touches, hm]
          rfl
        · simp only [field, hm]
      | some t =>
        refine Or.inr (Or.inr ⟨?_, fun x => { x with iftype := t }, ?_⟩)
        · simp only [touches, hm]
          rfl
        · simp only [field, hm]
          rfl
    | 2 =>
      by_cases hlen : f.length > IFNAMSIZ
      · refine Or.inr (Or.inl ⟨?_, if_pos hlen⟩)
        simp [touches, Nat.not_le.2 hlen]
      · refine Or.inr (Or.inr ⟨?_, fun x => (setName x f).getD x, field_two s hlen⟩)
        simp [touches, hf, Nat.not_lt.1 hlen]
    | n + 3 =>
      cases hm : macOf f with
      | none =>
        refine Or.inl ⟨?_, ?_⟩
        · simp only [touches, hm]
          rfl
        · simp only [field, hm]
          rfl
      | some o =>
        cases o with
        | none =>
          refine Or.inr (Or.inl ⟨?_, ?_⟩)
          · simp only [touches, hm]
            rfl
          · simp only [field, hm]
            rfl
        | some a =>
          refine Or.inr (Or.inr ⟨?_, fun x => { x with mac := a }, ?_⟩)
          · simp only [touches, hm]
            rfl
          · simp only [field, hm]
            rfl

/-- With an entry inside the array the fields are safe unless an address overruns. -/
theorem fields_inside {fs : List Str} {idx : ℕ} {s : IntfState} (hidx : idx ≠ 0) (hs : s.Inside) :
    (∀ t, fields fs idx s = some t → t.Inside) ∧
      ((fields fs idx s).isSome ↔ ∀ p ∈ fs.zipIdx idx, (touches p.2 p.1).isSome) := by
  induction fs generalizing idx s with
  | nil => exact ⟨fun t ht => Option.some.inj ht ▸ hs, by simp [fields]⟩
  | cons f fs ih =>
    rw [List.zipIdx_cons, List.forall_mem_cons, fields]
    rcases step_eq s hidx with ⟨ht, hstep⟩ | ⟨ht, hstep⟩ | ⟨ht, g, hstep⟩
    · rw [hstep, ht]
      exact ⟨fun t h => absurd h nofun, by simp⟩
    · rw [hstep, ht, Option.isSome_some, and_iff_right (rfl : true = true)]
      exact ih (Nat.succ_ne_zero idx) hs
    · obtain ⟨x, hx⟩ := exists_entry hs
      obtain ⟨t, hset, hifa⟩ := exists_setEntry hs (g x)
      have ht' : t.Inside := by
        unfold Inside at hs ⊢
        rwa [hifa]
      rw [hstep, hx, Option.bind_some, hset, ht, Option.isSome_some,
        and_iff_right (rfl : true = true)]
      exact ih (Nat.succ_ne_zero idx) ht'

/-- With an entry outside the array they are safe only if none of them touches it. -/
theorem fields_outside {fs : List Str} {idx : ℕ} {s : IntfState} (hidx : idx ≠ 0)
    (hs : ¬ s.Inside) : (∀ t, fields fs idx s = some t → t = s) ∧
      ((fields fs idx s).isSome ↔ ∀ p ∈ fs.zipIdx idx, touches p.2 p.1 = some false) := by
  induction fs generalizing idx with
  | nil => exact ⟨fun t ht => (Option.some.inj ht).symm, by simp [fields]⟩
  | cons f fs ih =>
    rw [List.zipIdx_cons, List.forall_mem_cons, fields]
    rcases step_eq s hidx with ⟨ht, hstep⟩ | ⟨ht, hstep⟩ | ⟨ht, g, hstep⟩
    · rw [hstep, ht]
      exact ⟨fun t h => absurd h nofun, by simp⟩
    · rw [hstep, ht, and_iff_right rfl]
      exact ih (Nat.succ_ne_zero idx)
    · rw [hstep, entry_eq_none hs, ht]
      exact ⟨fun t h => absurd h nofun, by simp⟩

/-- The line that is logged at the end. -/
def logged (detail : Bool) (s : IntfState) : Option CfgIntf :=
  if detail then s.entry.bind fun _ => some s.intf else some s.intf

/-- The fields behind the first one, and the line that is logged. -/
theorem isSome_rest_iff (detail : Bool) (f₁ f₂ f₃ : Str) (s : IntfState) :
    ((fields [f₁, f₂, f₃] 1 s).bind (logged detail)).isSome ↔
      (s.Inside ∧ (macOf f₃).isSome) ∨ (¬ s.Inside ∧ detail = false ∧ mode f₁ = none ∧
        (f₂ = [] ∨ IFNAMSIZ < f₂.length) ∧ macOf f₃ = some none) := by
  by_cases hs : s.Inside
  · obtain ⟨hin, hiff⟩ := fields_inside one_ne_zero hs
    have hiff : (fields [f₁, f₂, f₃] 1 s).isSome ↔ (macOf f₃).isSome :=
      hiff.trans (by simp [touches])
    rw [or_iff_left fun h => h.1 hs, and_iff_right hs, ← hiff]
    cases hr : fields [f₁, f₂, f₃] 1 s with
    | none => rfl
    | some t =>
      obtain ⟨x, hx⟩ := exists_entry (hin t hr)
      rw [Option.bind_some, logged, hx]
      cases detail with
      | false => rfl
      | true => rfl
  · obtain ⟨hin, hiff⟩ := fields_outside one_ne_zero hs
    have hiff : (fields [f₁, f₂, f₃] 1 s).isSome ↔ mode f₁ = none ∧
        (f₂ = [] ∨ IFNAMSIZ < f₂.length) ∧ macOf f₃ = some none := by
      have h₂ : ¬ (f₂ ≠ [] ∧ f₂.length ≤ IFNAMSIZ) ↔ f₂ = [] ∨ IFNAMSIZ < f₂.length := by
        rw [not_and_or, not_not, Nat.not_le]
      have h₃ : (macOf f₃).map Option.isSome = some false ↔ macOf f₃ = some none := by
        cases macOf f₃ with
        | none => simp
        | some o => cases o <;> simp
      refine hiff.trans ?_
      rw [← h₂, ← h₃]
      simp [touches]
    rw [or_iff_right fun h => hs h.1, and_iff_right hs, ← hiff]
    cases hr : fields [f₁, f₂, f₃] 1 s with
    | none => simp
    | some t =>
      rw [Option.bind_some, logged, hin t hr, entry_eq_none hs]
      cases detail with
      | false => simp
      | true => simp

end IntfState

/-- A field of an interface entry, empty where there are fewer. -/
def intfField (v : Str) (i : ℕ) : Str := (v.splitOn (ch ',')).getD i []

/-- The instance of an interface entry. -/
def intfInst (v : Str) : ℤ := if intfField v 0 = [] then 0 else IntfState.inst (intfField v 0)

/-- The instance is too large and ends the entry; or it is one of the four, and the address has at
most six fields that are read; or it is negative, and nothing reads or writes the entry: details
are not logged, there is no mode, no name that fits, and no address that is taken. -/
def IntfOk (detail : Bool) (v : Str) : Prop :=
  SKW_NR_IFACE ≤ intfInst v ∨ (0 ≤ intfInst v ∧ MacOk (intfField v 3)) ∨
    (intfInst v < 0 ∧ detail = false ∧ IntfState.mode (intfField v 1) = none ∧
      (intfField v 2 = [] ∨ IFNAMSIZ < (intfField v 2).length) ∧
      macOf (intfField v 3) = some none)

theorem intfField_subset (v : Str) (i : ℕ) : intfField v i ⊆ v := by
  rw [intfField, List.getD_eq_getElem?_getD]
  cases h : (v.splitOn (ch ','))[i]? with
  | none => exact List.nil_subset v
  | some f => exact subset_of_mem_splitOn (List.mem_of_getElem? h)

/-- An interface entry stays inside the objects in just these cases. -/
theorem isSome_skwConfigIntf_iff {detail : Bool} {intf : CfgIntf}
    {value : CharBuf SKW_LINE_BUFF_LEN} {v : Str} (hv : value.string 0 = some v) :
    (skwConfigIntf detail intf value).isSome ↔ IntfOk detail v := by
  obtain ⟨h0, -⟩ := Lib.Fixed.cells_of_string hv
  have hlen := Lib.Fixed.length_lt_of_string hv
  have hmac : (macOf (intfField v 3)).isSome ↔ MacOk (intfField v 3) :=
    isSome_macOf_iff fun h => h0 (intfField_subset v 3 h)
  have hloop : IntfState.loop 4 v 0 ⟨intf, 0⟩ = IntfState.fields
      [intfField v 0, intfField v 1, intfField v 2, intfField v 3] 0 ⟨intf, 0⟩ := by
    rw [IntfState.loop_eq 4 0 _ h0 hlen, IntfState.fields_take]
    rfl
  have hcall : skwConfigIntf detail intf value = (IntfState.fields
      [intfField v 0, intfField v 1, intfField v 2, intfField v 3] 0 ⟨intf, 0⟩).bind
        (IntfState.logged detail) := by
    rw [skwConfigIntf, hv, ← hloop]
    rfl
  rw [hcall, IntfState.fields, IntfState.step]
  unfold IntfOk intfInst
  by_cases hf : intfField v 0 = []
  · rw [if_pos hf, if_pos hf]
    have hs : (⟨intf, 0⟩ : IntfState).Inside := ⟨le_refl 0, Int.natCast_pos.2 (by decide)⟩
    refine (IntfState.isSome_rest_iff detail (intfField v 1) (intfField v 2) (intfField v 3)
      ⟨intf, 0⟩).trans ?_
    rw [hmac]
    simp [hs]
  · rw [if_neg hf, if_neg hf, IntfState.field]
    by_cases hbig : IntfState.inst (intfField v 0) ≥ SKW_NR_IFACE
    · have hs : (⟨intf, 0⟩ : IntfState).Inside := ⟨le_refl 0, Int.natCast_pos.2 (by decide)⟩
      obtain ⟨x, hx⟩ := IntfState.exists_entry hs
      rw [if_pos hbig, Option.bind_some, if_pos rfl, Option.bind_some, IntfState.logged, hx]
      refine iff_of_true ?_ (Or.inl hbig)
      cases detail with
      | false => rfl
      | true => rfl
    · rw [if_neg hbig]
      refine (IntfState.isSome_rest_iff detail (intfField v 1) (intfField v 2) (intfField v 3)
        ⟨intf, IntfState.inst (intfField v 0)⟩).trans ?_
      have hs : (⟨intf, IntfState.inst (intfField v 0)⟩ : IntfState).Inside ↔
          0 ≤ IntfState.inst (intfField v 0) := and_iff_left (not_le.1 hbig)
      rw [hmac, hs, not_le, or_iff_right hbig]

end Skw
