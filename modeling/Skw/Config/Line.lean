import Skw.Kernel.Str
import Skw.Lib.Fixed

/-! The lines of the configuration file. `skw_read_line` copies a line without blanks and comment to
a buffer, and `skw_line_parser` cuts what it finds there; an access outside its object is `none`.
Beside them stands what they do to the text itself. -/
namespace Skw

abbrev SKW_LINE_BUFF_LEN : ℕ := 128

abbrev CharBuf (n : ℕ) := Lib.Fixed (BitVec 8) n

abbrev CHAR_TAB : BitVec 8 := 9
abbrev CHAR_LF : BitVec 8 := 10
abbrev CHAR_CR : BitVec 8 := 13

/-- `mode`, `chr` and `do_save` of a pass over one character. -/
structure LineChar where
  mode : BitVec 8
  chr : BitVec 8
  doSave : Bool

def lineChar (mode c : BitVec 8) : LineChar :=
  let chr := if c = CHAR_CR ∨ c = CHAR_LF then 0 else if c = CHAR_TAB then ch ' ' else c
  let mode := if (c = CHAR_TAB ∨ c = ch '#') ∧ mode = 0 then chr else mode
  if mode = ch '#' then ⟨mode, chr, false⟩
  else ⟨mode, if chr = ch ';' then 0 else chr, chr ≠ ch ' '⟩

/-- The line that is being read: `mode`, `len`, `total` and the buffer. -/
structure ReadLine (n : ℕ) where
  mode : BitVec 8
  len : ℕ
  total : ℕ
  buf : CharBuf n

namespace ReadLine
variable {n : ℕ}

def save (r : ReadLine n) (chr : BitVec 8) : Option (ReadLine n) :=
  if r.len < n then do
    let buf ← r.buf.write r.len [chr]
    some { r with len := r.len + 1, total := r.total + 1, buf := buf }
  else some { r with total := r.total + 1 }

def pass (r : ReadLine n) (p : LineChar) : Option (ReadLine n) :=
  let r := { r with mode := p.mode }
  if p.doSave then r.save p.chr else some r

/-- A line that did not fit is made empty. -/
def finish (r : ReadLine n) : Option (CharBuf n) :=
  if r.total > r.len then r.buf.write 0 [0] else some r.buf

end ReadLine

/-- The loop of `skw_read_line` over the data from `offset` on: the line, and what is left. -/
def readLineLoop {n : ℕ} : Str → ReadLine n → Option (ReadLine n × Str)
  | [], r => some (r, [])
  | c :: data, r => do
    let p := lineChar r.mode c
    let r ← r.pass p
    if p.chr = 0 then some (r, data) else readLineLoop data r

/-- The value that is returned, the buffer, and the data behind the line. -/
def skwReadLine (n : ℕ) (data : Str) : Option (ℕ × CharBuf n × Str) := do
  let (r, rest) ← readLineLoop data ⟨0, 0, 0, Lib.Fixed.fill n 0⟩
  let buf ← r.finish
  some (data.length - rest.length, buf, rest)

inductive LineType
  | error
  | comment
  | config
  | item
deriving DecidableEq

/-- The buffers that `skw_line_parser` fills. -/
structure LineBufs where
  sec : CharBuf SKW_LINE_BUFF_LEN
  key : CharBuf SKW_LINE_BUFF_LEN
  value : CharBuf SKW_LINE_BUFF_LEN

/-- `len` characters of the line are copied to a buffer, and a NUL behind them. -/
def copyOut (dst line : CharBuf SKW_LINE_BUFF_LEN) (i len : ℕ) :
    Option (CharBuf SKW_LINE_BUFF_LEN) := do
  let s ← line.read i len
  let dst ← dst.write 0 s
  dst.write len [0]

def takeConfig (line : CharBuf SKW_LINE_BUFF_LEN) (b : LineBufs) (len : ℕ) :
    Option (LineType × LineBufs) :=
  if (len : ℤ) - 2 < 1 then some (.error, b)
  else do
    let sec ← copyOut b.sec line 1 (len - 2)
    some (.config, { b with sec := sec })

def takeItem (line : CharBuf SKW_LINE_BUFF_LEN) (b : LineBufs) (len keyLen : ℕ) :
    Option (LineType × LineBufs) := do
  let key ← copyOut b.key line 0 keyLen
  let value ← copyOut b.value line (keyLen + 1) (len - keyLen)
  some (.item, { b with key := key, value := value })

def skwLineParser (line : CharBuf SKW_LINE_BUFF_LEN) (b : LineBufs) :
    Option (LineType × LineBufs) := do
  let s ← line.string 0
  if s.length = 0 then some (.comment, b)
  else do
    let first ← line.read 0 1
    let last ← line.read (s.length - 1) 1
    if first = [ch '['] ∧ last = [ch ']'] then takeConfig line b s.length
    else
      match s.idxOf? (ch '=') with
      | none => some (.error, b)
      | some keyLen => takeItem line b s.length keyLen

/-- The characters of a line that are kept, a terminating NUL among them, and what is left. -/
def scanLine : BitVec 8 → Str → Str × Str
  | _, [] => ([], [])
  | mode, c :: data =>
    let p := lineChar mode c
    let (kept, rest) := if p.chr = 0 then ([], data) else scanLine p.mode data
    (if p.doSave then p.chr :: kept else kept, rest)

-- For the search for a NUL among the characters that are kept.
local instance lawfulBEqChar : LawfulBEq (BitVec 8) := inferInstance

/-- The text of a line in a buffer of `n` characters: a longer one is dropped, and one that fills
the buffer without a NUL has no end there. -/
def lineText (n : ℕ) (kept : Str) : Option Str :=
  if n < kept.length then some []
  else if kept.length = n ∧ 0 ∉ kept then none
  else some (kept.takeWhile (· ≠ 0))

/-- What a line says. -/
inductive Line
  | error
  | comment
  | config (name : Str)
  | item (key value : Str)
deriving DecidableEq

def parseText (s : Str) : Line :=
  if s = [] then .comment
  else if s.head? = some (ch '[') ∧ s.getLast? = some (ch ']') then
    if s.length ≤ 2 then .error else .config ((s.drop 1).take (s.length - 2))
  else
    match s.idxOf? (ch '=') with
    | none => .error
    | some k => .item (s.take k) (s.drop (k + 1))

example : parseText (str "[mib]") = .config (str "mib") := by decide

section
variable {n : ℕ}

/-- The line that was read so far: its characters, cut off at the end of the buffer. -/
structure Filled (kept : Str) (r : ReadLine n) : Prop where
  total : r.total = kept.length
  len : r.len = min kept.length n
  cells : r.buf.cells = kept.take n ++ List.replicate (n - kept.length) 0

theorem Filled.save {kept : Str} {r : ReadLine n} (h : Filled kept r) (c : BitVec 8) :
    ∃ r', r.save c = some r' ∧ Filled (kept ++ [c]) r' ∧ r'.mode = r.mode := by
  have hlen := h.len
  unfold ReadLine.save
  by_cases hn : r.len < n
  · rw [if_pos hn]
    have hk : kept.length < n := by omega
    have hr : r.len = kept.length := by omega
    obtain ⟨buf, hbuf⟩ := r.buf.exists_write (i := r.len) (s := [c]) (Nat.succ_le_of_lt hn)
    refine ⟨⟨r.mode, r.len + 1, r.total + 1, buf⟩, by rw [hbuf]; rfl, ⟨?_, ?_, ?_⟩, rfl⟩
    · simp [h.total]
    · simp only [List.length_append, List.length_singleton]
      omega
    · rw [Lib.Fixed.cells_of_write hbuf, h.cells, hr, List.take_of_length_le hk.le]
      have hd : n - kept.length = n - (kept.length + 1) + 1 := by omega
      rw [hd, List.replicate_succ]
      simp [List.take_of_length_le (by simp; omega : (kept ++ [c]).length ≤ n)]
  · rw [if_neg hn]
    refine ⟨_, rfl, ⟨?_, ?_, ?_⟩, rfl⟩
    · simp [h.total]
    · simp only [List.length_append, List.length_singleton]
      omega
    · have hk : n ≤ kept.length := by omega
      rw [h.cells, List.take_append_of_le_length hk, List.length_append]
      congr 2
      omega

theorem Filled.pass {kept : Str} {r : ReadLine n} (h : Filled kept r) (p : LineChar) :
    ∃ r', r.pass p = some r' ∧ Filled (kept ++ if p.doSave then [p.chr] else []) r' ∧
      r'.mode = p.mode := by
  have hm : Filled kept { r with mode := p.mode } := ⟨h.total, h.len, h.cells⟩
  unfold ReadLine.pass
  by_cases hs : p.doSave
  · simp only [if_pos hs]
    exact hm.save p.chr
  · simp only [if_neg hs, List.append_nil]
    exact ⟨_, rfl, hm, rfl⟩

theorem readLineLoop_eq (data : Str) {kept : Str} {r : ReadLine n} (h : Filled kept r) :
    ∃ r', readLineLoop data r = some (r', (scanLine r.mode data).2) ∧
      Filled (kept ++ (scanLine r.mode data).1) r' := by
  induction data generalizing kept r with
  | nil => exact ⟨r, rfl, by rwa [scanLine, List.append_nil]⟩
  | cons c data ih =>
    let p := lineChar r.mode c
    obtain ⟨r₁, hr₁, hf, hmode⟩ := h.pass p
    have hloop : readLineLoop (c :: data) r =
        if p.chr = 0 then some (r₁, data) else readLineLoop data r₁ := by
      rw [readLineLoop]
      change r.pass p >>= _ = _
      rw [hr₁]
      rfl
    have hscan : scanLine r.mode (c :: data) =
        let q := if p.chr = 0 then ([], data) else scanLine p.mode data
        ((if p.doSave then [p.chr] else []) ++ q.1, q.2) := by
      rw [scanLine]
      by_cases hs : p.doSave
      · simp [p, hs]
      · simp [p, hs]
    rw [hloop, hscan]
    by_cases hc : p.chr = 0
    · simp only [if_pos hc, List.append_nil]
      exact ⟨r₁, rfl, hf⟩
    · simp only [if_neg hc]
      obtain ⟨r', hr', hf'⟩ := ih hf
      rw [hmode] at hr' hf'
      exact ⟨r', hr', by rwa [← List.append_assoc]⟩

/-- A line uses up a character. -/
theorem length_scanLine_lt (mode : BitVec 8) {data : Str} (h : data ≠ []) :
    (scanLine mode data).2.length < data.length := by
  induction data generalizing mode with
  | nil => exact absurd rfl h
  | cons c data ih =>
    rw [scanLine]
    dsimp only
    rw [List.length_cons]
    split_ifs with hc
    · exact Nat.lt_succ_self _
    · cases data with
      | nil => exact Nat.lt_succ_self _
      | cons d data => exact (ih _ (List.cons_ne_nil d data)).trans (Nat.lt_succ_self _)

/-- `skw_read_line` stays inside the buffer, and leaves the text of the line in it. -/
theorem skwReadLine_eq (hn : 0 < n) (data : Str) : ∃ buf,
    skwReadLine n data = some (data.length - (scanLine 0 data).2.length, buf, (scanLine 0 data).2) ∧
      buf.string 0 = lineText n (scanLine 0 data).1 := by
  have h0 : Filled [] (⟨0, 0, 0, Lib.Fixed.fill n 0⟩ : ReadLine n) :=
    ⟨rfl, by simp, by simp [Lib.Fixed.fill]⟩
  obtain ⟨r, hr, hf⟩ := readLineLoop_eq data h0
  rw [List.nil_append] at hf
  change readLineLoop data _ = some (r, (scanLine 0 data).2) at hr
  have hf : Filled (scanLine 0 data).1 r := hf
  generalize (scanLine 0 data).1 = kept at hf
  have hlen := hf.len
  have htotal := hf.total
  unfold lineText
  by_cases hlong : n < kept.length
  · obtain ⟨buf, hbuf⟩ := r.buf.exists_write (i := 0) (s := [0]) hn
    refine ⟨buf, ?_, ?_⟩
    · rw [skwReadLine, hr]
      change r.finish >>= _ = _
      rw [ReadLine.finish, if_pos (by omega), hbuf]
      rfl
    · rw [if_pos hlong]
      exact Lib.Fixed.string_of_cells List.not_mem_nil (Lib.Fixed.cells_of_write hbuf)
  · refine ⟨r.buf, ?_, ?_⟩
    · rw [skwReadLine, hr]
      change r.finish >>= _ = _
      rw [ReadLine.finish, if_neg (by omega)]
      rfl
    · have hcells : r.buf.cells = kept ++ List.replicate (n - kept.length) 0 := by
        rw [hf.cells, List.take_of_length_le (by omega)]
      rw [if_neg hlong]
      by_cases hz : 0 ∈ kept
      · obtain ⟨s, t, rfl, hs⟩ := List.eq_append_cons_of_mem hz
        rw [if_neg fun h => h.2 hz, Lib.Fixed.takeWhile_ne_append hs]
        rw [List.append_assoc] at hcells
        exact Lib.Fixed.string_of_cells hs hcells
      · have htake : kept.takeWhile (· ≠ 0) = kept := by
          rw [List.takeWhile_eq_self_iff]
          intro x hx
          simpa using fun he : x = 0 => hz (he ▸ hx)
        by_cases hfull : kept.length = n
        · have hcells : r.buf.cells = kept := by
            rw [hcells, hfull, Nat.sub_self, List.replicate_zero, List.append_nil]
          rw [if_pos ⟨hfull, hz⟩, Lib.Fixed.string, hcells, if_neg hz]
        · have hr : n - kept.length = n - kept.length - 1 + 1 := by omega
          rw [if_neg fun h => hfull h.1, htake]
          rw [hr, List.replicate_succ] at hcells
          exact Lib.Fixed.string_of_cells hz hcells

/-- What the buffers say after a line. -/
def Says : Line → LineType → LineBufs → Prop
  | .error, t, _ => t = .error
  | .comment, t, _ => t = .comment
  | .config name, t, b => t = .config ∧ b.sec.string 0 = some name
  | .item k v, t, b => t = .item ∧ b.key.string 0 = some k ∧ b.value.string 0 = some v

theorem copyOut_eq (dst : CharBuf SKW_LINE_BUFF_LEN) {line : CharBuf SKW_LINE_BUFF_LEN}
    {s t u : Str} (h : line.cells = s ++ t ++ u) (ht : t.length < SKW_LINE_BUFF_LEN) :
    ∃ d, copyOut dst line s.length t.length = some d ∧ ∃ w, d.cells = t ++ 0 :: w := by
  obtain ⟨c, hc, hcells⟩ := dst.write_zero ht.le
  obtain ⟨d, hd⟩ := c.exists_write (i := t.length) (s := [0]) (Nat.succ_le_of_lt ht)
  refine ⟨d, ?_, (c.cells.drop (t.length + 1)), ?_⟩
  · rw [copyOut, Lib.Fixed.read_of_cells h]
    change dst.write 0 t >>= _ = _
    rw [hc]
    exact hd
  · have := Lib.Fixed.cells_of_write hd
    rw [hcells, List.take_left, List.append_assoc] at this
    rw [this, hcells]
    rfl

section
variable {line : CharBuf SKW_LINE_BUFF_LEN} {s u : Str} {b : LineBufs}

theorem takeConfig_eq (hz : 0 ∉ s) (hcells : line.cells = s ++ 0 :: u)
    (hlen : s.length < SKW_LINE_BUFF_LEN) : ∃ t b', takeConfig line b s.length = some (t, b') ∧
      Says (if s.length ≤ 2 then .error else .config ((s.drop 1).take (s.length - 2))) t b' := by
  unfold takeConfig
  by_cases hs : s.length ≤ 2
  · rw [if_pos (by omega), if_pos hs]
    exact ⟨_, _, rfl, rfl⟩
  · rw [if_neg (by omega), if_neg hs]
    have hname : ((s.drop 1).take (s.length - 2)).length = s.length - 2 := by
      simp only [List.length_take, List.length_drop]
      omega
    have hcut : line.cells = s.take 1 ++ (s.drop 1).take (s.length - 2) ++
        ((s.drop 1).drop (s.length - 2) ++ 0 :: u) := by
      have hdrop := List.take_append_drop (s.length - 2) (s.drop 1)
      rw [List.append_assoc, ← List.append_assoc ((s.drop 1).take _), hdrop,
        ← List.append_assoc, List.take_append_drop, hcells]
    have hone : (s.take 1).length = 1 := by
      rw [List.length_take]
      omega
    obtain ⟨d, hd, w, hw⟩ := copyOut_eq b.sec hcut (by rw [hname]; omega)
    rw [hone, hname] at hd
    refine ⟨.config, { b with sec := d }, by rw [hd]; rfl, rfl, ?_⟩
    refine Lib.Fixed.string_of_cells (fun hmem => hz ?_) hw
    exact List.mem_of_mem_drop (List.mem_of_mem_take hmem)

theorem takeItem_eq (hz : 0 ∉ s) (hcells : line.cells = s ++ 0 :: u)
    (hlen : s.length < SKW_LINE_BUFF_LEN) {k : ℕ} (hk : k < s.length) :
    ∃ t b', takeItem line b s.length k = some (t, b') ∧
      Says (.item (s.take k) (s.drop (k + 1))) t b' := by
  have htake : (s.take k).length = k := by
    rw [List.length_take]
    omega
  have htake' : (s.take (k + 1)).length = k + 1 := by
    rw [List.length_take]
    omega
  have hcut : line.cells = [] ++ s.take k ++ (s.drop k ++ 0 :: u) := by
    rw [List.nil_append, ← List.append_assoc, List.take_append_drop, hcells]
  have hcut' : line.cells = s.take (k + 1) ++ (s.drop (k + 1) ++ [0]) ++ u := by
    rw [← List.append_assoc, List.take_append_drop, List.append_assoc, hcells]
    rfl
  have hval : (s.drop (k + 1) ++ [0]).length = s.length - k := by
    rw [List.length_append, List.length_drop, List.length_singleton]
    omega
  obtain ⟨d, hd, w, hw⟩ := copyOut_eq b.key hcut (by rw [htake]; omega)
  obtain ⟨e, he, x, hx⟩ := copyOut_eq b.value hcut' (by rw [hval]; omega)
  rw [htake] at hd
  rw [htake', hval] at he
  refine ⟨.item, { b with key := d, value := e }, ?_, rfl, ?_, ?_⟩
  · rw [takeItem]
    rw [show copyOut b.key line 0 k = some d from hd]
    change copyOut b.value line (k + 1) (s.length - k) >>= _ = _
    rw [he]
    rfl
  · exact Lib.Fixed.string_of_cells (fun hmem => hz (List.mem_of_mem_take hmem)) hw
  · rw [List.append_assoc] at hx
    exact Lib.Fixed.string_of_cells (fun hmem => hz (List.mem_of_mem_drop hmem)) hx

/-- `skw_line_parser` stays inside the buffers when the line has an end, and leaves there what the
text says. -/
theorem skwLineParser_eq (h : line.string 0 = some s) (b : LineBufs) :
    ∃ t b', skwLineParser line b = some (t, b') ∧ Says (parseText s) t b' := by
  have hlen : s.length < SKW_LINE_BUFF_LEN := Lib.Fixed.length_lt_of_string h
  obtain ⟨hz, u, hcells⟩ := Lib.Fixed.cells_of_string h
  rw [skwLineParser, h]
  change ∃ t b', (if s.length = 0 then some (LineType.comment, b) else
    line.read 0 1 >>= fun first => line.read (s.length - 1) 1 >>= fun last => _) = _ ∧ _
  by_cases hs : s = []
  · subst hs
    exact ⟨_, _, rfl, rfl⟩
  · have hpos : 0 < s.length := List.length_pos_of_ne_nil hs
    have hfirst : line.read 0 1 = some [s.head hs] := by
      have hc : line.cells = [] ++ [s.head hs] ++ (s.tail ++ 0 :: u) := by
        rw [hcells, List.nil_append, ← List.append_assoc, List.singleton_append,
          List.cons_head_tail]
      exact Lib.Fixed.read_of_cells hc
    have hlast : line.read (s.length - 1) 1 = some [s.getLast hs] := by
      have hc : line.cells = s.dropLast ++ [s.getLast hs] ++ 0 :: u := by
        rw [List.dropLast_append_getLast, hcells]
      rw [← List.length_dropLast]
      exact Lib.Fixed.read_of_cells hc
    rw [if_neg (by omega), hfirst]
    change ∃ t b', (line.read (s.length - 1) 1 >>= fun last => _) = _ ∧ _
    rw [hlast]
    change ∃ t b', (if [s.head hs] = [ch '['] ∧ [s.getLast hs] = [ch ']'] then
      takeConfig line b s.length else _) = _ ∧ _
    rw [parseText, if_neg hs, List.head?_eq_some_head hs, List.getLast?_eq_some_getLast hs]
    by_cases hbr : s.head hs = ch '[' ∧ s.getLast hs = ch ']'
    · rw [if_pos ⟨by rw [hbr.1], by rw [hbr.2]⟩, if_pos ⟨by rw [hbr.1], by rw [hbr.2]⟩]
      exact takeConfig_eq hz hcells hlen
    · rw [if_neg fun h => hbr ⟨List.head_eq_of_cons_eq h.1, List.head_eq_of_cons_eq h.2⟩,
        if_neg fun h => hbr ⟨Option.some.inj h.1, Option.some.inj h.2⟩]
      cases hidx : s.idxOf? (ch '=') with
      | none => exact ⟨_, _, rfl, rfl⟩
      | some k =>
        obtain ⟨hk, -⟩ := List.idxOf?_eq_some_iff.1 hidx
        exact takeItem_eq hz hcells hlen hk

end

end

end Skw
