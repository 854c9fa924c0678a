import Skw.Lib.Fixed
import Skw.Sdio.Frag

/-! The texts that the receive thread keeps: the version message of the chip, to which every crash
message is appended, and the last messages of a chip that has crashed. -/
namespace Skw

abbrev FIRMWARE_VERSION_SIZE : ℕ := 128
abbrev ASSERT_CONTEXT_SIZE : ℕ := 1024

/-- The bytes of a text. -/
def ascii (s : String) : List (BitVec 8) := s.toList.map fun c => BitVec.ofNat 8 c.toNat

/-- The string that begins a list of bytes. -/
def cstring (l : List (BitVec 8)) : List (BitVec 8) := l.takeWhile (· ≠ 0)

/-- A packet in its slot of `max_pac_size` bytes, with the bytes behind the slot. For a port that is
not the loop-check port it says what the port is like: whether it is open, has a scatter list and
expects the packet's number, and the free bytes of its ring. -/
structure SlotPacket (ver : CpVer) where
  eof : Bool
  channel : ℕ
  len : ℕ
  slot : Lib.Fixed (BitVec 8) ver.maxPacSize
  behind : List (BitVec 8)
  opened : Bool
  sg : Bool
  inOrder : Bool
  bufSize : ℕ

/-- What the parsers let through. -/
def SlotPacket.Admitted {ver : CpVer} (k : SlotPacket ver) : Prop :=
  k.eof = false ∧ k.channel < ver.maxChNum ∧ k.len ≠ 0 ∧ k.len ≤ ver.maxPacSize - 4

instance {ver : CpVer} (k : SlotPacket ver) : Decidable k.Admitted :=
  inferInstanceAs (Decidable (_ ∧ _))

/-- The text of a control message, once its terminator is in the slot. -/
def SlotPacket.text {ver : CpVer} (k : SlotPacket ver)
    (slot : Lib.Fixed (BitVec 8) ver.maxPacSize) : List (BitVec 8) :=
  cstring (slot.cells.drop 16 ++ k.behind)

/-- The offset and the length of a packet's payload, behind its number if it has one. -/
def SlotPacket.payload {ver : CpVer} (k : SlotPacket ver) : ℕ × ℕ :=
  if 12 < k.len then (16, k.len - 12) else if k.len = 12 then (4, 0) else (4, k.len)

/-- `firmware_version`, `assert_context` with its size, `assert_info_print` and `cp_state`. -/
structure Control where
  firmwareVersion : Lib.Fixed (BitVec 8) FIRMWARE_VERSION_SIZE
  assertContext : Lib.Fixed (BitVec 8) ASSERT_CONTEXT_SIZE
  assertContextSize : ℕ
  assertInfoPrint : ℕ
  cpState : ℕ
deriving DecidableEq

/-- A packet, or a change of `cp_state` by another thread. -/
inductive ControlEvent (ver : CpVer)
  | packet (k : SlotPacket ver) (admaRxEnable : Bool)
  | setCpState (cpState : ℕ)

namespace Control

def init : Control := ⟨.fill _ 0, .fill _ 0, 0, 0, 0⟩

/-- The version message so far. -/
def version (s : Control) : List (BitVec 8) := cstring s.firmwareVersion.cells

/-- `sprintf(firmware_version, "%s:%s\n", firmware_version, cmd)`: the array is printed onto
itself, and the rest behind it. -/
def appendVersion (s : Control) (cmd : List (BitVec 8)) : Option Control := do
  let firmwareVersion ← s.firmwareVersion.write s.version.length
    (ascii ":" ++ cmd ++ ascii "\n" ++ [0])
  some { s with firmwareVersion }

/-- `firmware_version` is cleared, and takes what it can hold of the message. -/
def storeVersion (s : Control) (cmd : List (BitVec 8)) : Option Control := do
  let firmwareVersion ← (Lib.Fixed.fill FIRMWARE_VERSION_SIZE 0).write 0
    (cmd.take (FIRMWARE_VERSION_SIZE - 1))
  some { s with firmwareVersion }

/-- What a message on the loop-check port does to the texts. -/
def command (s : Control) (len : ℕ) (cmd : List (BitVec 8)) : Option Control :=
  if len = 19 ∧ (ascii "BTREADY").isPrefixOf cmd ∨ len = 21 ∧ (ascii "WIFIREADY").isPrefixOf cmd
  then some s
  else if (ascii "BSPASSERT").isPrefixOf cmd then do
    let s ← s.appendVersion cmd
    if s.cpState = DEVICE_BLOCKED_EVENT then some s
    else some { s with cpState := 1, assertContext := .fill _ 0, assertContextSize := 0 }
  else if len = 20 ∧ (ascii "DUMPDONE").isPrefixOf cmd then
    if s.cpState = DEVICE_BLOCKED_EVENT then some s
    else some { s with cpState := DEVICE_DUMPDONE_EVENT }
  else if (ascii "trunk_W").isPrefixOf cmd then do
    let s ← s.storeVersion cmd
    some { s with
      assertInfoPrint := if s.cpState ≠ 0 then 0 else s.assertInfoPrint
      cpState := 0 }
  else some s

/-- A payload goes behind those that `assert_context` has, if it leaves room. -/
def addContext {ver : CpVer} (s : Control) (k : SlotPacket ver) : Option Control :=
  if s.assertContextSize + k.payload.2 < ASSERT_CONTEXT_SIZE then do
    let bytes ← k.slot.read k.payload.1 k.payload.2
    let assertContext ← s.assertContext.write s.assertContextSize bytes
    some { s with assertContext, assertContextSize := s.assertContextSize + k.payload.2 }
  else some s

/-- What a packet of another port leaves in `assert_context`, on a chip of the first version. -/
def keepContext {ver : CpVer} (s : Control) (k : SlotPacket ver) (admaRxEnable : Bool) :
    Option Control :=
  if ¬k.opened ∧ admaRxEnable then some s
  else if k.sg then some s
  else if ¬k.inOrder ∧ 12 < k.len ∧ k.channel ≠ ver.logPort then some s
  else if s.cpState ≠ 0 ∧ (k.payload.2 ≠ 245 ∨ k.bufSize < 2048) then
    -- the counter goes on past its limit
    let s' := { s with assertInfoPrint := s.assertInfoPrint + 1 }
    if s.assertInfoPrint < 28 ∧ ¬(ascii "+LOG").isPrefixOf (k.slot.cells.drop k.payload.1) then
      s'.addContext k
    else some s'
  else some s

/-- `skw_sdio_handle_packet` and `skw_sdio2_handle_packet`, as far as they concern the texts. `none`
is an access outside the packet or an array. -/
def handlePacket {ver : CpVer} (s : Control) (k : SlotPacket ver) (admaRxEnable : Bool) :
    Option Control :=
  if k.channel = ver.loopcheckPort then do
    -- `cmd` is behind four headers, and its terminator twelve bytes before its length
    let slot ← k.slot.write (k.len + 4) [0]
    s.command k.len (k.text slot)
  else
    match ver with
    | .v10 => s.keepContext k admaRxEnable
    | .v20 => some s

/-- The parsers, packet by packet. -/
def step (ver : CpVer) (s : Control) : ControlEvent ver → Option Control
  | .packet k admaRxEnable =>
    if k.Admitted then s.handlePacket k admaRxEnable else some s
  | .setCpState cpState => some { s with cpState }

/-- A control message is shorter than the longest one, and a crash message has room behind the
version message. -/
def Fits {ver : CpVer} (s : Control) : ControlEvent ver → Prop
  | .packet k _ =>
    k.Admitted → k.channel = ver.loopcheckPort → k.len ≠ ver.maxPacSize - 4 ∧
      ∀ slot, k.slot.write (k.len + 4) [0] = some slot →
        (ascii "BSPASSERT").isPrefixOf (k.text slot) = true →
          s.version.length + (k.text slot).length + 3 ≤ FIRMWARE_VERSION_SIZE
  | .setCpState _ => True

section
variable {ver : CpVer} {s t : Control} {k : SlotPacket ver} {len : ℕ} {cmd : List (BitVec 8)}

theorem isSome_appendVersion_iff :
    (s.appendVersion cmd).isSome = true ↔
      s.version.length + cmd.length + 3 ≤ FIRMWARE_VERSION_SIZE := by
  have hlen : (ascii ":" ++ cmd ++ ascii "\n" ++ [0]).length = cmd.length + 3 := by
    have hcolon : (ascii ":").length = 1 := rfl
    have hline : (ascii "\n").length = 1 := rfl
    simp only [List.length_append, hcolon, hline, List.length_singleton]
    omega
  have hwrite := Lib.Fixed.isSome_write_iff (b := s.firmwareVersion) (i := s.version.length)
    (s := ascii ":" ++ cmd ++ ascii "\n" ++ [0])
  rw [hlen, ← Nat.add_assoc] at hwrite
  rw [← hwrite, appendVersion]
  cases s.firmwareVersion.write s.version.length (ascii ":" ++ cmd ++ ascii "\n" ++ [0]) with
  | none => rfl
  | some b => rfl

theorem isSome_storeVersion (s : Control) (cmd : List (BitVec 8)) :
    (s.storeVersion cmd).isSome = true := by
  obtain ⟨b, hb⟩ := (Lib.Fixed.fill FIRMWARE_VERSION_SIZE (0 : BitVec 8)).exists_write (i := 0)
    (s := cmd.take (FIRMWARE_VERSION_SIZE - 1)) (by
      rw [List.length_take, FIRMWARE_VERSION_SIZE]
      omega)
  simp only [storeVersion, hb, Option.bind_eq_bind, Option.bind_some, Option.isSome_some]

/-- A ready message is no crash message. -/
theorem not_assert_of_ready (h : (ascii "BTREADY").isPrefixOf cmd = true ∨
    (ascii "WIFIREADY").isPrefixOf cmd = true) : ¬(ascii "BSPASSERT").isPrefixOf cmd = true := by
  simp only [List.isPrefixOf_iff_prefix] at h ⊢
  intro hassert
  rcases h with h | h
  · exact absurd (List.prefix_of_prefix_length_le h hassert (by decide)) (by decide)
  · exact absurd (List.prefix_of_prefix_length_le h hassert (by decide)) (by decide)

/-- Only a crash message can be too long. -/
theorem isSome_command_iff :
    (s.command len cmd).isSome = true ↔
      ((ascii "BSPASSERT").isPrefixOf cmd = true →
        s.version.length + cmd.length + 3 ≤ FIRMWARE_VERSION_SIZE) := by
  unfold command
  split_ifs with hready hassert hdump hblocked htrunk
  · have hno : ¬(ascii "BSPASSERT").isPrefixOf cmd = true :=
      not_assert_of_ready (hready.imp And.right And.right)
    simp [hno]
  · rw [← isSome_appendVersion_iff]
    cases s.appendVersion cmd with
    | none => simp [hassert]
    | some t =>
      simp only [Option.bind_eq_bind, Option.bind_some, Option.isSome_some, implies_true, iff_true]
      split_ifs
      · rfl
      · rfl
  · simp [hassert]
  · simp [hassert]
  · obtain ⟨t, ht⟩ := Option.isSome_iff_exists.mp (isSome_storeVersion s cmd)
    simp [hassert, ht]
  · simp [hassert]

/-- An admitted packet ends inside its slot. -/
theorem payload_le (hk : k.Admitted) : k.payload.1 + k.payload.2 ≤ ver.maxPacSize := by
  obtain ⟨-, -, -, hlen⟩ := hk
  have hpac : 16 ≤ ver.maxPacSize := by
    cases ver with
    | v10 => decide
    | v20 => decide
  unfold SlotPacket.payload
  split_ifs
  · simp only
    omega
  · simp only
    omega
  · simp only
    omega

theorem exists_addContext (s : Control) (hk : k.Admitted) :
    ∃ t, s.addContext k = some t ∧
      (s.assertContextSize ≤ ASSERT_CONTEXT_SIZE → t.assertContextSize ≤ ASSERT_CONTEXT_SIZE) := by
  unfold addContext
  split_ifs with hroom
  · have hle := payload_le hk
    have hread : k.slot.read k.payload.1 k.payload.2 =
        some ((k.slot.cells.drop k.payload.1).take k.payload.2) := if_pos hle
    obtain ⟨b, hb⟩ := s.assertContext.exists_write (i := s.assertContextSize)
      (s := (k.slot.cells.drop k.payload.1).take k.payload.2) (by
        rw [List.length_take]
        omega)
    have hadd : (do
        let bytes ← k.slot.read k.payload.1 k.payload.2
        let assertContext ← s.assertContext.write s.assertContextSize bytes
        some { s with
          assertContext, assertContextSize := s.assertContextSize + k.payload.2 }) =
        some { s with
          assertContext := b, assertContextSize := s.assertContextSize + k.payload.2 } := by
      simp only [hread, hb, Option.bind_eq_bind, Option.bind_some]
    exact ⟨_, hadd, fun _ => hroom.le⟩
  · exact ⟨s, rfl, id⟩

/-- What is kept for a crashed chip is inside its array. -/
theorem exists_keepContext (s : Control) (hk : k.Admitted) (adma : Bool) :
    ∃ t, s.keepContext k adma = some t ∧
      (s.assertContextSize ≤ ASSERT_CONTEXT_SIZE → t.assertContextSize ≤ ASSERT_CONTEXT_SIZE) := by
  unfold keepContext
  split_ifs
  · exact ⟨s, rfl, id⟩
  · exact ⟨s, rfl, id⟩
  · exact ⟨s, rfl, id⟩
  · exact exists_addContext { s with assertInfoPrint := s.assertInfoPrint + 1 } hk
  · exact ⟨_, rfl, id⟩
  · exact ⟨s, rfl, id⟩

theorem command_size (h : s.command len cmd = some t)
    (hs : s.assertContextSize ≤ ASSERT_CONTEXT_SIZE) :
    t.assertContextSize ≤ ASSERT_CONTEXT_SIZE := by
  unfold command at h
  split_ifs at h
  · rwa [← Option.some.inj h]
  · obtain ⟨u, hu, ht⟩ := Option.bind_eq_some_iff.mp h
    obtain ⟨b, -, hb⟩ := Option.bind_eq_some_iff.mp hu
    obtain rfl := Option.some.inj hb
    split_ifs at ht
    · rwa [← Option.some.inj ht]
    · rw [← Option.some.inj ht]
      exact Nat.zero_le _
  · rwa [← Option.some.inj h]
  · rwa [← Option.some.inj h]
  · obtain ⟨u, hu, ht⟩ := Option.bind_eq_some_iff.mp h
    obtain ⟨b, -, hb⟩ := Option.bind_eq_some_iff.mp hu
    obtain rfl := Option.some.inj hb
    rwa [← Option.some.inj ht]
  · rwa [← Option.some.inj h]

/-- A step stays inside the packet and the arrays exactly when its event fits. -/
theorem isSome_step_iff (s : Control) (e : ControlEvent ver) :
    (s.step ver e).isSome = true ↔ s.Fits e := by
  cases e with
  | setCpState cpState => exact iff_of_true rfl trivial
  | packet k adma =>
    simp only [step, Fits]
    by_cases hk : k.Admitted
    · rw [if_pos hk]
      unfold handlePacket
      by_cases hch : k.channel = ver.loopcheckPort
      · have hroom : (k.slot.write (k.len + 4) [0]).isSome = true ↔
            k.len ≠ ver.maxPacSize - 4 := by
          have hpac : 16 ≤ ver.maxPacSize := by
            cases ver with
            | v10 => decide
            | v20 => decide
          have hle := hk.2.2.2
          rw [Lib.Fixed.isSome_write_iff, List.length_singleton]
          omega
        rw [if_pos hch]
        simp only [hk, hch, true_implies]
        cases hw : k.slot.write (k.len + 4) [0] with
        | none =>
          have hlong : ¬k.len ≠ ver.maxPacSize - 4 := by
            rw [← hroom, hw]
            exact Bool.false_ne_true
          simp [hlong]
        | some slot =>
          have hshort : k.len ≠ ver.maxPacSize - 4 := by
            rw [← hroom, hw]
            rfl
          simp only [Option.bind_eq_bind, Option.bind_some, isSome_command_iff, Option.some.injEq,
            forall_eq', ne_eq, hshort, not_false_eq_true, true_and]
      · rw [if_neg hch]
        refine iff_of_true ?_ fun _ h => absurd h hch
        cases ver with
        | v10 =>
          obtain ⟨t, ht, -⟩ := exists_keepContext s hk adma
          simp [ht]
        | v20 => rfl
    · rw [if_neg hk]
      exact iff_of_true rfl fun h => absurd h hk

theorem step_size {e : ControlEvent ver} (h : s.step ver e = some t)
    (hs : s.assertContextSize ≤ ASSERT_CONTEXT_SIZE) :
    t.assertContextSize ≤ ASSERT_CONTEXT_SIZE := by
  cases e with
  | setCpState cpState =>
    obtain rfl := Option.some.inj h
    exact hs
  | packet k adma =>
    simp only [step] at h
    by_cases hk : k.Admitted
    · rw [if_pos hk] at h
      unfold handlePacket at h
      by_cases hch : k.channel = ver.loopcheckPort
      · rw [if_pos hch] at h
        obtain ⟨slot, -, hcmd⟩ := Option.bind_eq_some_iff.mp h
        exact command_size hcmd hs
      · rw [if_neg hch] at h
        cases ver with
        | v10 =>
          obtain ⟨u, hu, hsize⟩ := exists_keepContext s hk adma
          have htu : u = t := Option.some.inj (hu.symm.trans h)
          rw [← htu]
          exact hsize hs
        | v20 => rwa [← Option.some.inj h]
    · rw [if_neg hk] at h
      rwa [← Option.some.inj h]

end

/-- A run of packets stays inside its buffers, with a size that the array can have, exactly when
every event fits where it comes. -/
theorem exec_inside_iff (ver : CpVer) (es : List (ControlEvent ver)) :
    (∃ s, Lib.exec (step ver) init es = some s ∧ s.assertContextSize ≤ ASSERT_CONTEXT_SIZE) ↔
      ∀ pre e post, es = pre ++ e :: post → ∀ s, Lib.exec (step ver) init pre = some s →
        s.Fits e := by
  simp only [← isSome_step_iff]
  rw [← Lib.exists_exec_iff]
  constructor
  · rintro ⟨s, hs, -⟩
    exact ⟨s, hs⟩
  · rintro ⟨s, hs⟩
    have hempty : init.assertContextSize ≤ ASSERT_CONTEXT_SIZE := Nat.zero_le _
    exact ⟨s, hs, Lib.exec_invariant (I := fun s => s.assertContextSize ≤ ASSERT_CONTEXT_SIZE)
      (fun s e t hi ht => step_size ht hi) hempty hs⟩

/-- A crash message in a slot of the second version. -/
def crashSlot : Lib.Fixed (BitVec 8) CpVer.v20.maxPacSize where
  cells := List.replicate 16 0 ++ ascii "BSPASSERT" ++ List.replicate 1511 0x41
  length_cells := by
    rw [List.length_append, List.length_append, List.length_replicate, List.length_replicate]
    rfl

def crashPacket (len : ℕ) : ControlEvent .v20 :=
  .packet ⟨false, 1, len, crashSlot, [], true, false, true, 4096⟩ true

/-- The terminator of the longest message is behind its slot, and the sixth crash message in a row
runs over the version message. -/
theorem crash_messages_not_inside :
    (¬∃ s, Lib.exec (step .v20) init [crashPacket 1532] = some s ∧
      s.assertContextSize ≤ ASSERT_CONTEXT_SIZE) ∧
    ¬∃ s, Lib.exec (step .v20) init (List.replicate 6 (crashPacket 32)) = some s ∧
      s.assertContextSize ≤ ASSERT_CONTEXT_SIZE := by
  have hlong : Lib.exec (step .v20) init [crashPacket 1532] = none := by decide +kernel
  have hsixth : Lib.exec (step .v20) init (List.replicate 6 (crashPacket 32)) = none := by
    decide +kernel
  constructor
  · rintro ⟨s, hs, -⟩
    rw [hlong] at hs
    cases hs
  · rintro ⟨s, hs, -⟩
    rw [hsixth] at hs
    cases hs

end Control

end Skw
