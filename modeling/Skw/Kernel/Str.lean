import Mathlib.Data.BitVec
import Mathlib.Data.Nat.Digits.Defs
import Mathlib.Tactic.Linarith

/-! Strings of the kernel: the bytes of a string without its terminating NUL, `strchr`, `strrchr`,
and `simple_strtol`, which reads the longest numeral at the start of a string into a long that
wraps. Beside it stands the grammar of the numerals with the numbers that they mean. Texts of the
form `key=value,key=value` are read by `strstr`, `strsep` and `kstrtou`. -/
namespace Skw

abbrev Str := List (BitVec 8)

def ch (c : Char) : BitVec 8 := BitVec.ofNat 8 c.toNat

def str (s : String) : Str := s.toList.map ch

/-- The text behind the first `c` of a string. -/
def strchr (c : BitVec 8) : Str → Option Str
  | [] => none
  | b :: s => if b = c then some s else strchr c s

/-- The text behind the last `c` of a string. -/
def strrchr (c : BitVec 8) : Str → Option Str
  | [] => none
  | b :: s =>
    match strrchr c s with
    | some t => some t
    | none => if b = c then some s else none

theorem strchr_append {c : BitVec 8} {s : Str} (h : c ∉ s) (t : Str) :
    strchr c (s ++ c :: t) = some t := by
  induction s with
  | nil => simp [strchr]
  | cons b s ih =>
    obtain ⟨hb, hs⟩ := not_or.1 (mt List.mem_cons.2 h)
    rw [List.cons_append, strchr, if_neg (Ne.symm hb), ih hs]

theorem strchr_eq_none {c : BitVec 8} {s : Str} (h : c ∉ s) : strchr c s = none := by
  induction s with
  | nil => rfl
  | cons b s ih =>
    obtain ⟨hb, hs⟩ := not_or.1 (mt List.mem_cons.2 h)
    rw [strchr, if_neg (Ne.symm hb), ih hs]

theorem strrchr_eq_none {c : BitVec 8} {s : Str} (h : c ∉ s) : strrchr c s = none := by
  induction s with
  | nil => rfl
  | cons b s ih =>
    obtain ⟨hb, hs⟩ := not_or.1 (mt List.mem_cons.2 h)
    simp [strrchr, ih hs, Ne.symm hb]

theorem strrchr_append {c : BitVec 8} {t : Str} (h : c ∉ t) (s : Str) :
    strrchr c (s ++ c :: t) = some t := by
  induction s with
  | nil => simp [strrchr, strrchr_eq_none h]
  | cons b s ih => rw [List.cons_append, strrchr, ih]

def tolower (c : BitVec 8) : BitVec 8 := c ||| 0x20

/-- The value of a character as a digit. -/
def digitVal (c : BitVec 8) : Option ℕ :=
  if ch '0' ≤ c ∧ c ≤ ch '9' then some (c.toNat - (ch '0').toNat)
  else if ch 'a' ≤ tolower c ∧ tolower c ≤ ch 'f' then
    some ((tolower c).toNat - (ch 'a').toNat + 10)
  else none

/-- `_parse_integer`: the digits are read as long as there are some. -/
def parseInteger (base : ℕ) : BitVec 64 → Str → BitVec 64 × Str
  | acc, [] => (acc, [])
  | acc, c :: s =>
    match digitVal c with
    | none => (acc, c :: s)
    | some d =>
      if d < base then parseInteger base (acc * BitVec.ofNat 64 base + BitVec.ofNat 64 d) s
      else (acc, c :: s)

/-- The radix that base 0 stands for; behind the text stands NUL. -/
def autoRadix (s : Str) : ℕ :=
  if s.getD 0 0 = ch '0' then
    if tolower (s.getD 1 0) = ch 'x' ∧ (digitVal (s.getD 2 0)).isSome then 16 else 8
  else 10

/-- Of radix 16 the `0x` is left out. -/
def skipHexPrefix (base : ℕ) (s : Str) : Str :=
  if base = 16 ∧ s.getD 0 0 = ch '0' ∧ tolower (s.getD 1 0) = ch 'x' then s.drop 2 else s

def simpleStrtoull (s : Str) (base : ℕ) : BitVec 64 × Str :=
  let base := if base = 0 then autoRadix s else base
  parseInteger base 0 (skipHexPrefix base s)

/-- The value, and the text at `*endp`. -/
def simpleStrtol (s : Str) (base : ℕ) : BitVec 64 × Str :=
  match s with
  | b :: t =>
    if b = ch '-' then
      let (v, endp) := simpleStrtoull t base
      (-v, endp)
    else simpleStrtoull s base
  | [] => simpleStrtoull [] base

/-- The number that digits mean in a radix, if all of them are digits of it. -/
def digitsValue (base : ℕ) : ℕ → Str → Option ℕ
  | acc, [] => some acc
  | acc, c :: s =>
    match digitVal c with
    | none => none
    | some d => if d < base then digitsValue base (acc * base + d) s else none

/-- The unsigned numerals of C, and their numbers. -/
inductive NatNumeral : Str → ℕ → Prop
  | dec {c : BitVec 8} {t : Str} {n : ℕ} (hc : c ≠ ch '0') (h : digitsValue 10 0 (c :: t) = some n) :
    NatNumeral (c :: t) n
  | oct {t : Str} {n : ℕ} (h : digitsValue 8 0 t = some n) : NatNumeral (ch '0' :: t) n
  | hex {x c : BitVec 8} {t : Str} {n : ℕ} (hx : tolower x = ch 'x')
    (h : digitsValue 16 0 (c :: t) = some n) : NatNumeral (ch '0' :: x :: c :: t) n

inductive Numeral : Str → ℤ → Prop
  | nonneg {t : Str} {n : ℕ} (h : NatNumeral t n) : Numeral t n
  | neg {t : Str} {n : ℕ} (h : NatNumeral t n) : Numeral (ch '-' :: t) (-n)

/-- Nothing that `simple_strtol` would read on follows. -/
def Stops (rest : Str) : Prop := ∀ c ∈ rest.head?, c = ch '/'

section
variable {base n acc : ℕ} {t rest : Str}

theorem parseInteger_of_stops (hrest : Stops rest) (v : BitVec 64) :
    parseInteger base v rest = (v, rest) := by
  cases rest with
  | nil => rfl
  | cons c s =>
    have hc : digitVal c = none := by
      rw [hrest c rfl]
      decide
    rw [parseInteger, hc]

/-- Reading digits leads to their number modulo `2 ^ 64`. -/
theorem parseInteger_digits (hrest : ∀ v, parseInteger base v rest = (v, rest))
    (h : digitsValue base acc t = some n) :
    parseInteger base (BitVec.ofNat 64 acc) (t ++ rest) = (BitVec.ofNat 64 n, rest) := by
  induction t generalizing acc with
  | nil =>
    obtain rfl : acc = n := Option.some.inj h
    exact hrest _
  | cons c s ih =>
    rw [digitsValue] at h
    rw [List.cons_append, parseInteger]
    cases hd : digitVal c with
    | none => simp [hd] at h
    | some d =>
      simp only [hd] at h ⊢
      split_ifs at h ⊢ with hlt
      · have := ih h
        rwa [BitVec.ofNat_add, BitVec.ofNat_mul] at this

theorem parseInteger_append (hrest : Stops rest) (h : digitsValue base acc t = some n) :
    parseInteger base (BitVec.ofNat 64 acc) (t ++ rest) = (BitVec.ofNat 64 n, rest) :=
  parseInteger_digits (parseInteger_of_stops hrest) h

theorem digitVal_of_tolower_eq_x : ∀ c, tolower c = ch 'x' → digitVal c = none := by decide

/-- A text that begins with an octal digit, or is at its end, does not go on to `0x`. -/
theorem autoRadix_oct (hrest : Stops rest) (h : digitsValue 8 acc t = some n) :
    tolower ((t ++ rest).getD 0 0) ≠ ch 'x' := by
  intro hx
  cases t with
  | nil =>
    cases rest with
    | nil => exact absurd hx (by decide)
    | cons c s =>
      have hc : c = ch '/' := hrest c rfl
      subst hc
      have : tolower (ch '/') = ch 'x' := hx
      exact absurd this (by decide)
  | cons c t =>
    have hc : digitVal c = none := digitVal_of_tolower_eq_x c hx
    simp [digitsValue, hc] at h

theorem simpleStrtoull_of_natNumeral (hrest : Stops rest) (h : NatNumeral t n) :
    simpleStrtoull (t ++ rest) 0 = (BitVec.ofNat 64 n, rest) := by
  cases h with
  | @dec c t n hc h =>
    have hr : autoRadix (c :: t ++ rest) = 10 := if_neg hc
    simp only [simpleStrtoull, if_pos, hr]
    exact parseInteger_append hrest h
  | @oct t n h =>
    have hx := autoRadix_oct hrest h
    have hr : autoRadix (ch '0' :: t ++ rest) = 8 := by
      rw [autoRadix, if_pos (by rfl)]
      exact if_neg fun hd => hx hd.1
    simp only [simpleStrtoull, if_pos, hr]
    have hz : digitsValue 8 0 (ch '0' :: t) = digitsValue 8 0 t := by
      rw [digitsValue, show digitVal (ch '0') = some 0 by decide]
      rfl
    exact parseInteger_append hrest (hz.trans h)
  | @hex x c t n hx h =>
    have hc : (digitVal c).isSome := by
      rw [digitsValue] at h
      cases hd : digitVal c with
      | none => simp [hd] at h
      | some d => rfl
    have hr : autoRadix (ch '0' :: x :: c :: t ++ rest) = 16 := by
      rw [autoRadix, if_pos (by rfl)]
      exact if_pos ⟨hx, hc⟩
    have hs : skipHexPrefix 16 (ch '0' :: x :: c :: t ++ rest) = c :: t ++ rest :=
      if_pos ⟨rfl, rfl, hx⟩
    simp only [simpleStrtoull, if_pos, hr, hs]
    exact parseInteger_append hrest h

theorem NatNumeral.ne_minus (h : NatNumeral t n) : ∃ c s, t = c :: s ∧ c ≠ ch '-' := by
  cases h with
  | @dec c t n hc h =>
    refine ⟨c, t, rfl, ?_⟩
    rintro rfl
    cases h
  | @oct t n h => exact ⟨_, t, rfl, by decide⟩
  | @hex x c t n hx h => exact ⟨_, x :: c :: t, rfl, by decide⟩

/-- `simple_strtol` reads a numeral, and its number modulo `2 ^ 64`. -/
theorem simpleStrtol_of_numeral {z : ℤ} (hrest : Stops rest) (h : Numeral t z) :
    simpleStrtol (t ++ rest) 0 = (BitVec.ofInt 64 z, rest) := by
  cases h with
  | @nonneg t n h =>
    obtain ⟨c, s, rfl, hc⟩ := h.ne_minus
    have := simpleStrtoull_of_natNumeral hrest h
    rw [List.cons_append] at this ⊢
    rw [simpleStrtol, if_neg hc, this, BitVec.ofInt_natCast]
  | @neg t n h =>
    have := simpleStrtoull_of_natNumeral hrest h
    rw [List.cons_append, simpleStrtol, if_pos rfl, this, BitVec.ofInt_neg, BitVec.ofInt_natCast]

end

/-- The text behind the first `key` of a string. -/
def strstr (key : Str) : Str → Option Str
  | [] => if key = [] then some [] else none
  | c :: s => if key.isPrefixOf (c :: s) then some ((c :: s).drop key.length) else strstr key s

/-- The text before the first `c` of a string, and the text behind it. -/
def strsep (c : BitVec 8) (s : Str) : Str × Option Str := (s.takeWhile (· ≠ c), strchr c s)

def isDigit (base : ℕ) (c : BitVec 8) : Bool := (digitVal c).any (· < base)

/-- `kstrtoull`: a numeral is the whole text, up to a `+` in front and a newline behind. -/
def kstrtoull (base : ℕ) (s : Str) : Option ℕ :=
  let s := if s.head? = some (ch '+') then s.tail else s
  let base := if base = 0 then autoRadix s else base
  let s := skipHexPrefix base s
  let digits := s.takeWhile (isDigit base)
  let rest := s.dropWhile (isDigit base)
  if digits = [] then none
  else if rest = [] ∨ rest = [0x0A] then digitsValue base 0 digits
  else none

/-- `kstrtou8`, `kstrtou32`. -/
def kstrtou (bits base : ℕ) (s : Str) : Option ℕ := (kstrtoull base s).filter (· < 2 ^ bits)

def isspace (c : BitVec 8) : Bool := c ∈ [0x09, 0x0A, 0x0B, 0x0C, 0x0D, 0x20, 0xA0]

/-- `%d` of `sscanf`: white space, a sign and decimal digits, read into a long that wraps and cut to
an int. -/
def scanInt (s : Str) : Option (BitVec 32 × Str) :=
  let s := s.dropWhile isspace
  let neg := s.head? = some (ch '-')
  let digits := if neg then s.tail else s
  if digits.head?.any (isDigit 10) then
    let (v, rest) := parseInteger 10 0 digits
    some ((if neg then -v else v).setWidth 32, rest)
  else none

/-- Whether `%02x` of `sscanf` finds a number. -/
def scansHex (s : Str) : Bool := (s.dropWhile isspace).head?.any (isDigit 16)

/-- The text behind what must come first. -/
def expect (first : Str) (s : Str) : Option Str :=
  if first.isPrefixOf s then some (s.drop first.length) else none

theorem kstrtou_lt {bits base v : ℕ} {s : Str} (h : kstrtou bits base s = some v) :
    v < 2 ^ bits :=
  of_decide_eq_true (Option.filter_eq_some_iff.mp h).2

end Skw
