import Skw.Lib.Fixed
import Skw.Lib.Loop
import Skw.Ucom.Device

/-! Writing to a character device. The message goes through the device's buffer in chunks, which
the AT port ends with a line end and the ports of the Bluetooth hand to their log. -/
namespace Skw

/-- The parts of the platform data that a write reads, and `SKWBT_LOG_PORT_EN`. -/
structure UcomTx where
  portName : List Char
  maxBufferSize : ℕ
  logPortEn : Bool
  pos : 0 < maxBufferSize

/-- `hw_sdma_tx` sends all of its argument, or fails with a negative value. -/
inductive SdmaTx
  | sent
  | failed (e : ℕ)
deriving DecidableEq

/-- What the chunks of a write meet: `copy_from_user` and `hw_sdma_tx`. -/
structure WriteEnv where
  copyFails : ℕ → Bool
  tx : ℕ → SdmaTx

/-- `outside` is an access outside the buffer or the message. -/
inductive WriteEnd
  | running
  | outside
  | returned (ret : ℤ)
deriving DecidableEq

/-- The variables of the loop, with the chunks so far and the bytes that were sent. -/
structure WriteState (max : ℕ) where
  count : ℕ
  off : ℕ
  chunk : ℕ
  txBuf : Lib.Fixed (BitVec 8) max
  sent : List (BitVec 8)
  result : WriteEnd
deriving DecidableEq

namespace UcomTx
variable (p : UcomTx)

def atc : Bool := nameStarts p.portName "ATC"

def log : Bool := nameStarts p.portName "LOG"

/-- The ports of which `skwbt_log_port_data_write` gets a copy. -/
def logged : Bool :=
  p.logPortEn && (nameStarts p.portName "BTCMD" || nameStarts p.portName "BTDATA" ||
    nameStarts p.portName "BTAUDIO" || nameStarts p.portName "BTISOC")

/-- `copy_from_user` of the next bytes. -/
def copyChunk (user : List (BitVec 8)) (off count : ℕ)
    (txBuf : Lib.Fixed (BitVec 8) p.maxBufferSize) :
    Option (ℕ × Lib.Fixed (BitVec 8) p.maxBufferSize) := do
  let size := min count p.maxBufferSize
  if off + size ≤ user.length then
    let txBuf ← txBuf.write 0 ((user.drop off).take size)
    some (size, txBuf)
  else none

/-- What happens to a copied chunk before it is sent: the new `size`, `count` and buffer. -/
def finishChunk (size count : ℕ) (txBuf : Lib.Fixed (BitVec 8) p.maxBufferSize) :
    Option (ℕ × ℕ × Lib.Fixed (BitVec 8) p.maxBufferSize) :=
  if p.atc then do
    let txBuf ← txBuf.write size [0x0D]
    let txBuf ← txBuf.write (size + 1) [0x0A]
    some (size + 2, count + 2, txBuf)
  else if p.logged then do
    -- the length goes through a `uint16_t`
    let _ ← txBuf.read 0 (count % 2 ^ 16)
    some (size, count, txBuf)
  else some (size, count, txBuf)

/-- A pass of the loop of `ucom_write`. -/
def writePass (env : WriteEnv) (user : List (BitVec 8)) (s : WriteState p.maxBufferSize) :
    Lib.Pass (WriteState p.maxBufferSize) :=
  if s.count = 0 then .done { s with result := .returned user.length }
  else if env.copyFails s.chunk then .done { s with result := .returned (-EFAULT) }
  else
    match p.copyChunk user s.off s.count s.txBuf with
    | none => .done { s with result := .outside }
    | some (size, txBuf) =>
      if p.log then .done { s with txBuf, result := .returned user.length }
      else
        match p.finishChunk size s.count txBuf with
        | none => .done { s with result := .outside }
        | some (size, count, txBuf) =>
          match env.tx s.chunk, txBuf.read 0 size with
          | _, none => .done { s with result := .outside }
          | .failed e, some _ => .done { s with txBuf, result := .returned (.negSucc e) }
          | .sent, some bytes =>
            .next
              { s with
                count := count - size
                off := s.off + size
                chunk := s.chunk + 1
                txBuf
                sent := s.sent ++ bytes }

/-- The state in which the loop begins. -/
def writeStart (user : List (BitVec 8)) (txBuf : Lib.Fixed (BitVec 8) p.maxBufferSize) :
    WriteState p.maxBufferSize := ⟨user.length, 0, 0, txBuf, [], .running⟩

/-- `ucom_write` with `cp_exception_sts`, `open` and `tx_busy` as it finds them: how it ends and the
bytes it has sent. `none` is a loop that is not left in `fuel` passes. -/
def ucomWrite (fuel : ℕ) (env : WriteEnv) (cpExceptionSts : Bool) (opens : ℕ) (txBusy : Bool)
    (user : List (BitVec 8)) (txBuf : Lib.Fixed (BitVec 8) p.maxBufferSize) :
    Option (WriteEnd × List (BitVec 8)) :=
  if cpExceptionSts ∨ opens = 0 then some (.returned (- EIO), [])
  else if txBusy then some (.returned (-EAGAIN), [])
  else
    (Lib.loop (p.writePass env user) fuel (p.writeStart user txBuf)).map fun s =>
      (s.result, s.sent)

/-- The bytes that the message is to become. -/
def wire (user : List (BitVec 8)) : List (BitVec 8) := if p.atc then user ++ [0x0D, 0x0A] else user

/-- The write ends inside its buffers, and where it returns the length of the message, that has
been sent. -/
def Delivered (user : List (BitVec 8)) (r : WriteEnd × List (BitVec 8)) : Prop :=
  ∃ ret, r.1 = .returned ret ∧ (ret = user.length → r.2 = p.wire user)

/-- The chunks up to the `k`-th were copied and the ones before it were sent. -/
def Reaches (env : WriteEnv) (i k : ℕ) : Prop :=
  (∀ j ≤ k, env.copyFails (i + j) = false) ∧ ∀ j < k, env.tx (i + j) = .sent

/-- Every chunk that a logged port hands on leaves a rest that the buffer could hold. -/
def LogFits (env : WriteEnv) (i count : ℕ) : Prop :=
  ∀ k, k * p.maxBufferSize < count → Reaches env i k →
    (count - k * p.maxBufferSize) % 2 ^ 16 ≤ p.maxBufferSize

/-- The message and its line end fit the buffer of the AT port, and a logged port has no rest above
its buffer. -/
def WriteFits (env : WriteEnv) (n : ℕ) : Prop :=
  (p.atc = true → n ≠ 0 ∧ (env.copyFails 0 = false → n + 2 ≤ p.maxBufferSize)) ∧
    (p.atc = false → p.logged = true → p.LogFits env 0 n)

section
variable {p : UcomTx} {env : WriteEnv} {user : List (BitVec 8)} {s : WriteState p.maxBufferSize}
  {off count i size : ℕ} {txBuf : Lib.Fixed (BitVec 8) p.maxBufferSize}

theorem logFits_zero : p.LogFits env i 0 := fun _ hk => absurd hk (Nat.not_lt_zero _)

/-- The rests of a message are its length and the rests behind the first chunk. -/
theorem logFits_iff (hc : 0 < count) :
    p.LogFits env i count ↔
      (env.copyFails i = false → count % 2 ^ 16 ≤ p.maxBufferSize) ∧
        (env.copyFails i = false → env.tx i = .sent →
          p.LogFits env (i + 1) (count - p.maxBufferSize)) := by
  constructor
  · intro h
    constructor
    · intro hcopy
      have hfirst := h 0 (by simpa using hc) ⟨fun j hj => by simpa [Nat.le_zero.mp hj] using hcopy,
        fun j hj => absurd hj (Nat.not_lt_zero j)⟩
      simpa using hfirst
    · intro hcopy htx k hk hreach
      have hlater := h (k + 1) (by rw [Nat.succ_mul]; omega)
        ⟨fun j hj => by
          cases j with
          | zero => exact hcopy
          | succ j => simpa [Nat.add_assoc, Nat.add_comm 1 j] using hreach.1 j (by omega),
        fun j hj => by
          cases j with
          | zero => exact htx
          | succ j => simpa [Nat.add_assoc, Nat.add_comm 1 j] using hreach.2 j (by omega)⟩
      rwa [Nat.succ_mul, Nat.add_comm, ← Nat.sub_sub] at hlater
  · rintro ⟨hfirst, hlater⟩ k hk hreach
    have hcopy : env.copyFails i = false := hreach.1 0 (Nat.zero_le k)
    cases k with
    | zero => simpa using hfirst hcopy
    | succ k =>
      have htx : env.tx i = .sent := hreach.2 0 (Nat.succ_pos k)
      rw [Nat.succ_mul] at hk
      have hrest := hlater hcopy htx k (by omega)
        ⟨fun j hj => by simpa [Nat.add_assoc, Nat.add_comm 1 j] using hreach.1 (j + 1) (by omega),
        fun j hj => by simpa [Nat.add_assoc, Nat.add_comm 1 j] using hreach.2 (j + 1) (by omega)⟩
      rwa [Nat.succ_mul, Nat.add_comm, ← Nat.sub_sub]

/-- The next bytes of the message are copied to the start of the buffer. -/
theorem exists_copyChunk (p : UcomTx) (txBuf : Lib.Fixed (BitVec 8) p.maxBufferSize)
    (h : off + count = user.length) :
    ∃ txBuf', p.copyChunk user off count txBuf = some (min count p.maxBufferSize, txBuf') ∧
      txBuf'.cells = (user.drop off).take (min count p.maxBufferSize) ++
        txBuf.cells.drop (min count p.maxBufferSize) := by
  have hlen : ((user.drop off).take (min count p.maxBufferSize)).length =
      min count p.maxBufferSize := by
    rw [List.length_take, List.length_drop]
    omega
  obtain ⟨txBuf', hwrite, hcells⟩ :=
    txBuf.write_zero (s := (user.drop off).take (min count p.maxBufferSize)) (by omega)
  refine ⟨txBuf', ?_, by rw [hcells, hlen]⟩
  have hle : off + min count p.maxBufferSize ≤ user.length := by omega
  simp only [copyChunk, hle, if_true, hwrite, Option.bind_eq_bind, Option.bind_some]

theorem finishChunk_plain (hatc : p.atc = false) :
    p.finishChunk size count txBuf =
      if p.logged = true ∧ p.maxBufferSize < count % 2 ^ 16 then none
      else some (size, count, txBuf) := by
  unfold finishChunk
  rw [hatc, if_neg Bool.false_ne_true]
  cases p.logged with
  | false => simp
  | true =>
    generalize count % 2 ^ 16 = rest
    by_cases hle : rest ≤ p.maxBufferSize
    · simp [Lib.Fixed.read, hle]
    · simp [Lib.Fixed.read, hle, not_le.mp hle]

theorem writePass_end (hc : s.count = 0) :
    p.writePass env user s = .done { s with result := .returned user.length } := if_pos hc

theorem writePass_efault (hc : s.count ≠ 0) (hcopy : env.copyFails s.chunk = true) :
    p.writePass env user s = .done { s with result := .returned (-EFAULT) } := by
  rw [writePass, if_neg hc, if_pos hcopy]

/-- A chunk that is neither refused nor on the AT port is sent as it is in the message. -/
theorem writePass_plain (hatc : p.atc = false) (hlog : p.log = false)
    (h : s.off + s.count = user.length) (hc : s.count ≠ 0) (hcopy : env.copyFails s.chunk = false)
    (hfits : ¬(p.logged = true ∧ p.maxBufferSize < s.count % 2 ^ 16)) :
    ∃ txBuf, p.writePass env user s =
      match env.tx s.chunk with
      | .failed e => .done { s with txBuf, result := .returned (.negSucc e) }
      | .sent =>
        .next
          { s with
            count := s.count - min s.count p.maxBufferSize
            off := s.off + min s.count p.maxBufferSize
            chunk := s.chunk + 1
            txBuf
            sent := s.sent ++ (user.drop s.off).take (min s.count p.maxBufferSize) } := by
  obtain ⟨txBuf, hchunk, hcells⟩ := exists_copyChunk p s.txBuf h
  refine ⟨txBuf, ?_⟩
  have hlen : ((user.drop s.off).take (min s.count p.maxBufferSize)).length =
      min s.count p.maxBufferSize := by
    rw [List.length_take, List.length_drop]
    omega
  have hread : txBuf.read 0 (min s.count p.maxBufferSize) =
      some ((user.drop s.off).take (min s.count p.maxBufferSize)) := by
    have hpiece := Lib.Fixed.read_of_cells (s := []) hcells
    rwa [hlen] at hpiece
  have hfinish : p.finishChunk (min s.count p.maxBufferSize) s.count txBuf =
      some (min s.count p.maxBufferSize, s.count, txBuf) := by
    rw [finishChunk_plain hatc, if_neg hfits]
  rw [writePass, if_neg hc, hcopy, if_neg Bool.false_ne_true]
  simp only [hchunk, hlog, Bool.false_eq_true, if_false, hfinish, hread]
  cases env.tx s.chunk with
  | failed e => rfl
  | sent => rfl

/-- A chunk of which the log would get more than the buffer holds. -/
theorem writePass_bad (hatc : p.atc = false) (hlog : p.log = false)
    (h : s.off + s.count = user.length) (hc : s.count ≠ 0) (hcopy : env.copyFails s.chunk = false)
    (hbad : p.logged = true ∧ p.maxBufferSize < s.count % 2 ^ 16) :
    p.writePass env user s = .done { s with result := .outside } := by
  obtain ⟨txBuf, hchunk, -⟩ := exists_copyChunk p s.txBuf h
  rw [writePass, if_neg hc, hcopy, if_neg Bool.false_ne_true]
  simp only [hchunk, hlog, Bool.false_eq_true, if_false, finishChunk_plain hatc, if_pos hbad]

/-- On a port that is neither the log nor the AT port the rest of the message is delivered where
the log of the port gets no more than the buffer holds. -/
theorem endsIn_plain_iff (hatc : p.atc = false) (hlog : p.log = false)
    (h : s.off + s.count = user.length) (hsent : s.sent = user.take s.off) :
    Lib.EndsIn (p.writePass env user) (fun t => p.Delivered user (t.result, t.sent)) s ↔
      (p.logged = true → p.LogFits env s.chunk s.count) := by
  have hwire : p.wire user = user := by rw [wire, hatc, if_neg Bool.false_ne_true]
  generalize hn : s.count = n
  induction n using Nat.strong_induction_on generalizing s with
  | _ n ih =>
    by_cases hc : s.count = 0
    · rw [Lib.endsIn_of_done (writePass_end hc), ← hn, hc]
      refine iff_of_true ⟨_, rfl, fun _ => ?_⟩ fun _ => logFits_zero
      rw [hwire, hsent, List.take_of_length_le (by omega)]
    have hpos : 0 < n := by omega
    rw [logFits_iff hpos]
    cases hcopy : env.copyFails s.chunk with
    | true =>
      rw [Lib.endsIn_of_done (writePass_efault hc hcopy)]
      refine iff_of_true ⟨_, rfl, fun hret => ?_⟩ (by simp)
      exact absurd hret (by rw [EFAULT]; omega)
    | false =>
      by_cases hbad : p.logged = true ∧ p.maxBufferSize < n % 2 ^ 16
      · rw [Lib.endsIn_of_done (writePass_bad hatc hlog h hc hcopy (hn ▸ hbad))]
        refine iff_of_false (fun hd => ?_) fun hfits => ?_
        · obtain ⟨ret, hret, -⟩ := hd
          cases hret
        · exact absurd ((hfits hbad.1).1 rfl) (not_le.mpr hbad.2)
      · have hle : p.logged = true → n % 2 ^ 16 ≤ p.maxBufferSize := fun hl =>
          not_lt.mp fun hlt => hbad ⟨hl, hlt⟩
        obtain ⟨txBuf, hpass⟩ := writePass_plain hatc hlog h hc hcopy (hn ▸ hbad)
        cases htx : env.tx s.chunk with
        | failed e =>
          rw [htx] at hpass
          rw [Lib.endsIn_of_done hpass]
          refine iff_of_true ⟨_, rfl, fun hret => ?_⟩ fun hl => ⟨fun _ => hle hl, nofun⟩
          exact absurd hret (by omega)
        | sent =>
          rw [htx] at hpass
          have hmin : min n p.maxBufferSize ≤ n := min_le_left _ _
          have hmax := p.pos
          rw [hn] at h hpass
          refine (Lib.endsIn_of_next hpass).trans
            ((ih (n - min n p.maxBufferSize) (by omega) ?_ ?_ rfl).trans ?_)
          · change s.off + min n p.maxBufferSize + (n - min n p.maxBufferSize) = user.length
            omega
          · change s.sent ++ (user.drop s.off).take (min n p.maxBufferSize) =
              user.take (s.off + min n p.maxBufferSize)
            rw [hsent, List.take_add]
          · have hrest : n - min n p.maxBufferSize = n - p.maxBufferSize := by omega
            rw [hrest]
            exact ⟨fun hl hlog => ⟨fun _ => hle hlog, fun _ _ => hl hlog⟩,
              fun hl hlog => (hl hlog).2 rfl rfl⟩

/-- A line end behind the chunk, where the buffer has room for it. -/
theorem exists_finishChunk_atc {body rest : List (BitVec 8)} (count : ℕ) (hatc : p.atc = true)
    (hcells : txBuf.cells = body ++ rest) (hfits : body.length + 2 ≤ p.maxBufferSize) :
    ∃ txBuf', p.finishChunk body.length count txBuf =
        some (body.length + 2, count + 2, txBuf') ∧
      txBuf'.read 0 (body.length + 2) = some (body ++ [0x0D, 0x0A]) := by
  have hlen : body.length + rest.length = p.maxBufferSize := by
    rw [← txBuf.length_cells, hcells, List.length_append]
  have hrest : ∃ x y rest', rest = x :: y :: rest' := by
    match rest, hlen with
    | x :: y :: rest', _ => exact ⟨x, y, rest', rfl⟩
    | [x], hlen =>
      rw [List.length_singleton] at hlen
      omega
    | [], hlen =>
      rw [List.length_nil] at hlen
      omega
  obtain ⟨x, y, rest', rfl⟩ := hrest
  obtain ⟨cr, hcr, hcrCells⟩ := txBuf.write_of_cells (s := body) (t := [x]) (u := y :: rest')
    (v := [0x0D]) (by rw [hcells, List.append_assoc, List.singleton_append]) rfl
  obtain ⟨lf, hlf, hlfCells⟩ := cr.write_of_cells (s := body ++ [0x0D]) (t := [y]) (u := rest')
    (v := [0x0A]) (by rw [hcrCells, List.append_assoc _ [y], List.singleton_append]) rfl
  refine ⟨lf, ?_, ?_⟩
  · rw [List.length_append, List.length_singleton] at hlf
    simp only [finishChunk, hatc, if_true, hcr, hlf, Option.bind_eq_bind, Option.bind_some]
  · have hall : lf.cells = [] ++ (body ++ [0x0D, 0x0A]) ++ rest' := by
      rw [hlfCells, List.nil_append, List.append_assoc body, List.singleton_append]
    have hread := Lib.Fixed.read_of_cells hall
    rwa [List.length_append] at hread

theorem finishChunk_atc_of_lt (hatc : p.atc = true) (hlt : p.maxBufferSize < size + 2) :
    p.finishChunk size count txBuf = none := by
  rw [finishChunk, if_pos hatc]
  cases hcr : txBuf.write size [0x0D] with
  | none => rfl
  | some txBuf' =>
    have hlf : txBuf'.write (size + 1) [0x0A] = none := by
      rw [← Option.not_isSome_iff_eq_none, Lib.Fixed.isSome_write_iff, List.length_singleton]
      omega
    simp only [Option.bind_eq_bind, Option.bind_some, hlf, Option.bind_none]

/-- On the AT port the message is delivered with a line end where both fit the buffer. -/
theorem endsIn_atc_iff (hatc : p.atc = true) (hlog : p.log = false) :
    Lib.EndsIn (p.writePass env user) (fun t => p.Delivered user (t.result, t.sent))
        (p.writeStart user txBuf) ↔
      user.length ≠ 0 ∧ (env.copyFails 0 = false → user.length + 2 ≤ p.maxBufferSize) := by
  have hwire : p.wire user = user ++ [0x0D, 0x0A] := by rw [wire, if_pos hatc]
  by_cases hc : user.length = 0
  · rw [Lib.endsIn_of_done (writePass_end (s := p.writeStart user txBuf) hc)]
    refine iff_of_false ?_ fun h => h.1 hc
    rintro ⟨ret, hret, hsent⟩
    have hnil := hsent (WriteEnd.returned.inj hret).symm
    rw [hwire] at hnil
    exact absurd hnil.symm (by simp [writeStart])
  cases hcopy : env.copyFails 0 with
  | true =>
    rw [Lib.endsIn_of_done (writePass_efault (s := p.writeStart user txBuf) hc hcopy)]
    refine iff_of_true ⟨_, rfl, fun hret => ?_⟩ ⟨hc, nofun⟩
    exact absurd hret (by rw [EFAULT]; omega)
  | false =>
    obtain ⟨txBuf', hchunk, hcells⟩ := exists_copyChunk p txBuf (Nat.zero_add user.length)
    have hc' : ¬(p.writeStart user txBuf).count = 0 := hc
    by_cases hfits : user.length + 2 ≤ p.maxBufferSize
    · have hmin : min user.length p.maxBufferSize = user.length := by omega
      rw [hmin, List.drop_zero, List.take_length] at hcells
      obtain ⟨lf, hfinish, hread⟩ := exists_finishChunk_atc user.length hatc hcells hfits
      have hpass : p.writePass env user (p.writeStart user txBuf) =
          match env.tx 0 with
          | .failed e =>
            .done { p.writeStart user txBuf with txBuf := lf, result := .returned (.negSucc e) }
          | .sent =>
            .next ⟨0, user.length + 2, 1, lf, user ++ [0x0D, 0x0A], .running⟩ := by
        rw [writePass, if_neg hc']
        simp only [writeStart, hcopy, Bool.false_eq_true, if_false, hchunk, hlog, hmin, hfinish,
          hread]
        cases env.tx 0 with
        | failed e => rfl
        | sent => simp
      cases htx : env.tx 0 with
      | failed e =>
        rw [htx] at hpass
        rw [Lib.endsIn_of_done hpass]
        refine iff_of_true ⟨_, rfl, fun hret => ?_⟩ ⟨hc, fun _ => hfits⟩
        exact absurd hret (by omega)
      | sent =>
        rw [htx] at hpass
        rw [Lib.endsIn_of_next hpass, Lib.endsIn_of_done (writePass_end rfl)]
        exact iff_of_true ⟨_, rfl, fun _ => hwire.symm⟩ ⟨hc, fun _ => hfits⟩
    · have hsize : p.maxBufferSize < min user.length p.maxBufferSize + 2 := by omega
      have hpass : p.writePass env user (p.writeStart user txBuf) =
          .done { p.writeStart user txBuf with result := .outside } := by
        rw [writePass, if_neg hc']
        simp only [writeStart, hcopy, Bool.false_eq_true, if_false, hchunk, hlog,
          finishChunk_atc_of_lt hatc hsize]
      rw [Lib.endsIn_of_done hpass]
      refine iff_of_false ?_ fun h => hfits (h.2 rfl)
      rintro ⟨ret, hret, -⟩
      cases hret

/-- A write that is not refused ends as its loop does. -/
theorem exists_ucomWrite_iff {opens : ℕ} (hopens : opens ≠ 0) :
    (∃ fuel r, p.ucomWrite fuel env false opens false user txBuf = some r ∧
        p.Delivered user r) ↔
      Lib.EndsIn (p.writePass env user) (fun t => p.Delivered user (t.result, t.sent))
        (p.writeStart user txBuf) := by
  simp only [ucomWrite, hopens, Bool.false_eq_true, or_self, if_false, Option.map_eq_some_iff,
    Lib.EndsIn]
  constructor
  · rintro ⟨fuel, _, ⟨t, ht, rfl⟩, hd⟩
    exact ⟨t, ⟨fuel, ht⟩, hd⟩
  · rintro ⟨t, ⟨fuel, ht⟩, hd⟩
    exact ⟨fuel, _, ⟨t, ht, rfl⟩, hd⟩

end

/-- A write to a port other than the log is delivered exactly when it is refused, or its chunks fit
the buffer. -/
theorem delivered_iff (p : UcomTx) (hlog : p.log = false) (env : WriteEnv) (cpExceptionSts : Bool)
    (opens : ℕ) (txBusy : Bool) (user : List (BitVec 8))
    (txBuf : Lib.Fixed (BitVec 8) p.maxBufferSize) :
    (∃ fuel r, p.ucomWrite fuel env cpExceptionSts opens txBusy user txBuf = some r ∧
        p.Delivered user r) ↔
      (cpExceptionSts = false → opens ≠ 0 → txBusy = false → p.WriteFits env user.length) := by
  have hio : ¬(- EIO : ℤ) = user.length := by
    unfold EIO
    omega
  have hagain : ¬(-EAGAIN : ℤ) = user.length := by
    rw [EAGAIN]
    omega
  by_cases hrefused : cpExceptionSts = true ∨ opens = 0
  · have hrun : p.ucomWrite 0 env cpExceptionSts opens txBusy user txBuf =
        some (.returned (- EIO), []) := if_pos hrefused
    refine iff_of_true ⟨0, _, hrun, _, rfl, fun hret => absurd hret hio⟩ fun hcp hopen => ?_
    rcases hrefused with h | h
    · rw [hcp] at h
      cases h
    · exact absurd h hopen
  rw [not_or, Bool.not_eq_true] at hrefused
  obtain ⟨rfl, hopens⟩ := hrefused
  cases txBusy with
  | true =>
    have hrun : p.ucomWrite 0 env false opens true user txBuf =
        some (.returned (-EAGAIN), []) := by simp [ucomWrite, hopens]
    refine iff_of_true ⟨0, _, hrun, _, rfl, fun hret => absurd hret hagain⟩ ?_
    exact fun _ _ => nofun
  | false =>
    rw [exists_ucomWrite_iff hopens, WriteFits]
    cases hatc : p.atc with
    | true =>
      rw [endsIn_atc_iff hatc hlog]
      simp [hopens]
    | false =>
      rw [endsIn_plain_iff hatc hlog (Nat.zero_add _) rfl]
      simp [writeStart, hopens]

/-- The AT port, with the buffer of `ucom_pdata`. -/
def atPort : UcomTx := ⟨"ATC".toList, 0x1000, true, by decide⟩

def okEnv : WriteEnv := ⟨fun _ => false, fun _ => .sent⟩

theorem at_delivered_iff :
    (∃ fuel r, atPort.ucomWrite fuel okEnv false 1 false [65, 84] (.fill _ 0) = some r ∧
        atPort.Delivered [65, 84] r) ↔
      (false = false → 1 ≠ 0 → false = false → atPort.WriteFits okEnv 2) :=
  delivered_iff atPort (by decide) okEnv false 1 false [65, 84] _

/-- The line end of a command that almost fills the buffer is written behind it. -/
theorem long_command_not_delivered :
    ¬∃ fuel r, atPort.ucomWrite fuel okEnv false 1 false (List.replicate 4095 0)
        (.fill _ 0) = some r ∧ atPort.Delivered (List.replicate 4095 0) r := by
  rw [exists_ucomWrite_iff Nat.one_ne_zero, endsIn_atc_iff (by decide) (by decide)]
  intro h
  have hle := h.2 rfl
  rw [List.length_replicate] at hle
  exact absurd hle (by decide)

end UcomTx

end Skw
