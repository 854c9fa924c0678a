import Skw.Iw.KeepActive
import Skw.Lib.Machine
import Skw.Lib.Rotation
import Skw.Sdio.Port

/-! The recorder of the log of the chip, `skw_log_to_file.c`. A work of its own reads the log port
into a buffer and writes the buffer to files that it takes in turn. Around it the driver starts and
stops it, the notifier of the modem calls it, and others open the port as well. `Move` says once what
a step can do. -/
namespace Skw

abbrev SKW_LOG_READ_BUFFER_SIZE : ℕ := 8 * 1024

inductive BusLink
  | sdio
  | usb
  | pcie
deriving DecidableEq

/-- `skw_log_num`, `skw_log_size`, and of the port its bus and `max_buffer_size`. -/
structure LogConf where
  num : ℤ
  size : ℤ
  bus : BusLink
  maxBufferSize : ℕ

/-- The clamps of `skw_modem_log_init`. The product has 32 bits. -/
def modemLogInit (num size : BitVec 32) : BitVec 32 × BitVec 32 :=
  let size := if (200 * 1024 * 1024 : ℤ) < size.toInt then 200 * 1024 * 1024 else size
  let size := if size.toInt < 512 * 1024 then 512 * 1024 else size
  let num :=
    if (1024 * 1024 * 1024 : ℤ) < (size * num).toInt then
      (1024 * 1024 * 1024 : BitVec 32).sdiv size
    else num
  (if 99 < num.toInt then 99 else num, size)

/-- Where the work stands: in front of its files, of the test of its loop, of the read, of the test
of what is in the buffer, of the write, of the test of the file's size, of the change to the next
file, and behind the loop. -/
inductive RecPc
  | idle
  | opening
  | test
  | reading
  | check
  | writing
  | written
  | switching
  | closing
deriving DecidableEq

inductive ModemEvent
  | assert
  | bspReady
  | dumpDone
  | other
deriving DecidableEq

/-- How the tries to open `log_store` end. The later ones make a new file. -/
inductive StoreOpen
  | fails
  | opens
  | creates
deriving DecidableEq

/-- What the work meets in front of its loop. `rd_buff` holds `garbage` where nothing is read. -/
structure RecOpen where
  allocFile : Bool
  allocStore : Bool
  store : StoreOpen
  readOk : Bool
  garbage : BitVec 8
  storeWrite : Bool
  fileOpens : Bool
  allocBuf : Bool

/-- The files can be opened as far as `log_store`. -/
def RecOpen.ReachesStore (r : RecOpen) : Prop :=
  r.allocFile = true ∧ r.allocStore = true ∧ r.store ≠ .fails

/-- `log_store` is there, and is read and written. -/
def RecOpen.KeepsStore (r : RecOpen) : Prop :=
  r.store = .opens ∧ r.readOk = true ∧ r.storeWrite = true

/-- The recorder: `record_flag`, `cp_assert_status`, the port's `tx_busy` and `open`, the work with
its variables, the first octet of `log_store` and the files by the number in their name. With them
stand how many opens are by users, how many works have ended with the port counted as open, what
was read, each chunk that left the buffer with how much of it was written, and whether a read went
past the buffer. -/
structure Recorder where
  recordFlag : Bool
  cpAssertStatus : Bool
  txBusy : Bool
  opened : ℕ
  queued : Bool
  pc : RecPc
  index : BitVec 8
  offset : ℕ
  errorCnt : ℕ
  buf : List (BitVec 8)
  store : Option (BitVec 8)
  files : ℕ → List (BitVec 8)
  users : ℕ
  stuck : ℕ
  got : List (BitVec 8)
  out : List (List (BitVec 8) × ℕ)
  overrun : Bool

/-- The number of the next file. -/
def nextLog (num : ℤ) (b : BitVec 8) : BitVec 8 := if num < (b + 1).toNat then 0 else b + 1

/-- The two digits at the end of a file's name. -/
def logName (b : BitVec 8) : ℕ := 10 * (b.toNat / 10 % 10) + b.toNat % 10

inductive RecStep
  | startRec
  | stopRec
  | notify (e : ModemEvent)
  | setTxBusy (b : Bool)
  | userOpen
  | userRelease
  | enter
  | openFiles (r : RecOpen)
  | test
  | read (ret : ℤ) (data : List (BitVec 8))
  | check
  | write (ret : ℤ)
  | written
  | switch (storeWrite fileOpens : Bool)
  | close

namespace Recorder

/-- `skw_modem_log_start_rec`. -/
def startRec (s : Recorder) : Recorder :=
  if 1 < s.opened ∨ s.recordFlag then s
  else { s with cpAssertStatus := false, queued := true }

/-- `skw_modem_log_stop_rec`. -/
def stopRec (s : Recorder) : Recorder := { s with recordFlag := false }

/-- `modem_event_notifier`. -/
def notify (s : Recorder) : ModemEvent → Recorder
  | .assert =>
    let s := s.startRec
    if s.txBusy then s else { s with txBusy := true, cpAssertStatus := true }
  | .bspReady => s.startRec
  | .dumpDone => { s.stopRec with cpAssertStatus := false }
  | .other => s

/-- The two calls of the work when it gives up. -/
def giveUp (s : Recorder) : Recorder := { s with cpAssertStatus := false }.stopRec

/-- `skw_modem_log_to_file_work` in front of its loop. A return here leaves `record_flag` set. -/
def openFiles (c : LogConf) (s : Recorder) (r : RecOpen) : Recorder :=
  if ¬r.allocFile ∨ ¬r.allocStore ∨ r.store = .fails then { s with pc := .idle }
  else
    let found := if r.store = .creates ∨ ¬r.readOk then none else s.store
    let b := nextLog c.num (found.getD r.garbage)
    let store :=
      if r.storeWrite then some b else if r.store = .creates then none else s.store
    if ¬r.fileOpens then { s with pc := .idle, store }
    else
      let s := { s with store, files := Function.update s.files (logName b) [] }
      if ¬r.allocBuf then { s with pc := .idle, opened := s.opened + 1, stuck := s.stuck + 1 }
      else
        { s with
          pc := .test, opened := s.opened + 1, index := b, offset := 0, errorCnt := 0, buf := [] }

/-- A read of the port, of at most `max_buffer_size` octets behind those in the buffer. -/
def read (c : LogConf) (s : Recorder) (ret : ℤ) (data : List (BitVec 8)) : Recorder :=
  let s :=
    if 0 < ret then
      { s with
        buf := s.buf ++ data, got := s.got ++ data, errorCnt := 0
        overrun := s.overrun || decide (SKW_LOG_READ_BUFFER_SIZE < s.buf.length + data.length) }
    else
      let s := { s with errorCnt := s.errorCnt + 1 }
      if 5 < s.errorCnt then s.giveUp else s
  let s :=
    match c.bus with
    | .usb => if ret < 0 then s.giveUp else s
    | .sdio => if ret = -ENOTCONN then s.giveUp else s
    | .pcie => s
  { s with pc := .check }

/-- Whether the buffer goes to the file. -/
def isDue (c : LogConf) (s : Recorder) : Bool :=
  (0 < s.buf.length ∧ s.cpAssertStatus) ∨
    (SKW_LOG_READ_BUFFER_SIZE : ℤ) - s.buf.length ≤ c.maxBufferSize

/-- The write of the buffer, which is empty afterwards. -/
def write (s : Recorder) (ret : ℤ) : Recorder :=
  let k := ret.toNat
  let name := logName s.index
  let s :=
    { s with
      pc := .written, offset := s.offset + k, buf := [], out := s.out ++ [(s.buf, k)]
      files := Function.update s.files name (s.files name ++ s.buf.take k) }
  if ret = -ENOSPC then s.stopRec else s

/-- The change to the next file. The work returns when it does not open. -/
def switch (c : LogConf) (s : Recorder) (storeWrite fileOpens : Bool) : Recorder :=
  let b := nextLog c.num s.index
  let store := if storeWrite then some b else s.store
  if ¬fileOpens then { s with pc := .idle, store, stuck := s.stuck + 1 }
  else
    { s with
      pc := .test, store, index := b, offset := 0, files := Function.update s.files (logName b) [] }

/-- The end of the work, with what is in the buffer. -/
def close (s : Recorder) : Recorder :=
  { s with pc := .idle, opened := s.opened - 1, buf := [], out := s.out ++ [(s.buf, 0)] }

/-- A step of the work or of what runs beside it. -/
def step (c : LogConf) (s : Recorder) : RecStep → Option Recorder
  | .startRec => some s.startRec
  | .stopRec => some s.stopRec
  | .notify e => some (s.notify e)
  | .setTxBusy b => some { s with txBusy := b }
  | .userOpen =>
    if 1 < s.opened then none
    else
      some
        { s with
          opened := s.opened + 1, users := s.users + 1
          txBusy := if s.opened = 0 then false else s.txBusy }
  | .userRelease =>
    if s.users = 0 then none else some { s with opened := s.opened - 1, users := s.users - 1 }
  | .enter =>
    if s.pc ≠ .idle ∨ ¬s.queued then none
    else if s.recordFlag then some { s with queued := false }
    else some { s with queued := false, recordFlag := true, pc := .opening }
  | .openFiles r => if s.pc = .opening then some (s.openFiles c r) else none
  | .test =>
    if s.pc ≠ .test then none
    else if s.recordFlag ∨ s.cpAssertStatus then some { s with pc := .reading }
    else some { s with pc := .closing }
  | .read ret data =>
    if s.pc = .reading ∧ data.length = ret.toNat ∧ ret ≤ c.maxBufferSize then
      some (s.read c ret data)
    else none
  | .check =>
    if s.pc ≠ .check then none
    else if s.isDue c then some { s with pc := .writing }
    else some { s with pc := .test }
  | .write ret => if s.pc = .writing ∧ ret ≤ s.buf.length then some (s.write ret) else none
  | .written =>
    if s.pc ≠ .written then none
    else if c.size < s.offset ∧ ¬s.cpAssertStatus then some { s with pc := .switching }
    else some { s with pc := .test }
  | .switch storeWrite fileOpens =>
    if s.pc = .switching then some (s.switch c storeWrite fileOpens) else none
  | .close => if s.pc = .closing then some s.close else none

/-- The octets that left the buffer. -/
def left (s : Recorder) : List (BitVec 8) := s.out.flatMap (·.1)

/-- The octets that were written. -/
def recorded (s : Recorder) : List (BitVec 8) := s.out.flatMap fun x => x.1.take x.2

/-- The ring of the files, the one that `log_store` names being the newest. -/
def ring (s : Recorder) : Lib.Rotation (BitVec 8) := ⟨s.files, (s.store.getD 0).toNat⟩

/-- A recorder behind `skw_modem_log_init` that has not run yet. -/
structure Fresh (s : Recorder) : Prop where
  recordFlag : s.recordFlag = false
  opened : s.opened = s.users
  users : s.users ≤ 2
  pc : s.pc = .idle
  buf : s.buf = []
  stuck : s.stuck = 0
  got : s.got = []
  out : s.out = []
  overrun : s.overrun = false

/-- No work has run, and nobody has opened the port. -/
def init (store : Option (BitVec 8)) (files : ℕ → List (BitVec 8)) : Recorder where
  recordFlag := false
  cpAssertStatus := false
  txBusy := false
  opened := 0
  queued := false
  pc := .idle
  index := 0
  offset := 0
  errorCnt := 0
  buf := []
  store := store
  files := files
  users := 0
  stuck := 0
  got := []
  out := []
  overrun := false

theorem fresh_init (store : Option (BitVec 8)) (files : ℕ → List (BitVec 8)) :
    (init store files).Fresh := ⟨rfl, rfl, Nat.zero_le _, rfl, rfl, rfl, rfl, rfl, rfl⟩

end Recorder

/-- A start of the work that meets no obstacle. -/
def goodOpen : RecOpen := ⟨true, true, .opens, true, 0, true, true, true⟩

namespace Recorder
variable {c : LogConf} {s t : Recorder} {e : RecStep}

/-- Nothing but flags has changed. -/
def Flagged (s t : Recorder) : Prop :=
  t = { s with
    recordFlag := t.recordFlag, cpAssertStatus := t.cpAssertStatus, txBusy := t.txBusy
    queued := t.queued, errorCnt := t.errorCnt }

theorem Flagged.startRec (s : Recorder) : Flagged s s.startRec := by
  unfold Recorder.startRec
  split_ifs <;> rfl

theorem startRec_calm (h : s.cpAssertStatus = false) : s.startRec.cpAssertStatus = false := by
  unfold startRec
  split_ifs
  · exact h
  · rfl

theorem startRec_queued (h : s.startRec.queued = true) : s.queued = true ∨ s.opened ≤ 1 := by
  unfold startRec at h
  split_ifs at h with hno
  · exact Or.inl h
  · exact Or.inr (Nat.not_lt.mp fun hlt => hno (Or.inl hlt))

theorem Flagged.notify_assert (s : Recorder) : Flagged s (s.notify .assert) := by
  have hstart := Flagged.startRec s
  unfold Recorder.notify
  dsimp only
  split_ifs
  · exact hstart
  · rw [hstart]
    rfl

theorem notify_assert_queued (s : Recorder) : (s.notify .assert).queued = s.startRec.queued := by
  unfold notify
  dsimp only
  split_ifs <;> rfl

/-- A read puts the octets behind those in the buffer, if there are any. -/
def readData (s : Recorder) (ret : ℤ) (data : List (BitVec 8)) : Recorder :=
  if 0 < ret then
    { s with
      pc := .check, buf := s.buf ++ data, got := s.got ++ data
      overrun := s.overrun || decide (SKW_LOG_READ_BUFFER_SIZE < s.buf.length + data.length) }
  else { s with pc := .check }

/-- Besides, a read sets flags, and at most clears `cp_assert_status`. -/
theorem read_flagged (c : LogConf) (s : Recorder) (ret : ℤ) (data : List (BitVec 8)) :
    Flagged (s.readData ret data) (s.read c ret data) ∧
      (s.cpAssertStatus = false → (s.read c ret data).cpAssertStatus = false) := by
  unfold readData Recorder.read
  dsimp only
  by_cases hret : 0 < ret
  · rw [if_pos hret, if_pos hret]
    cases c.bus with
    | usb =>
      dsimp only
      split_ifs
      · exact ⟨rfl, fun _ => rfl⟩
      · exact ⟨rfl, id⟩
    | sdio =>
      dsimp only
      split_ifs
      · exact ⟨rfl, fun _ => rfl⟩
      · exact ⟨rfl, id⟩
    | pcie => exact ⟨rfl, id⟩
  · rw [if_neg hret, if_neg hret]
    generalize hcount : (if 5 < s.errorCnt + 1 then _ else _ : Recorder) = u
    have hu : Flagged s u ∧ (s.cpAssertStatus = false → u.cpAssertStatus = false) := by
      rw [← hcount]
      split_ifs
      · exact ⟨rfl, fun _ => rfl⟩
      · exact ⟨rfl, id⟩
    obtain ⟨hflag, hcalm⟩ := hu
    cases c.bus with
    | usb =>
      dsimp only
      split_ifs
      · exact ⟨by rw [hflag]; rfl, fun _ => rfl⟩
      · exact ⟨by rw [hflag]; rfl, hcalm⟩
    | sdio =>
      dsimp only
      split_ifs
      · exact ⟨by rw [hflag]; rfl, fun _ => rfl⟩
      · exact ⟨by rw [hflag]; rfl, hcalm⟩
    | pcie => exact ⟨by rw [hflag]; rfl, hcalm⟩

/-- A write puts what it takes behind the file, and empties the buffer. -/
def writeData (s : Recorder) (k : ℕ) : Recorder :=
  { s with
    pc := .written, offset := s.offset + k, buf := [], out := s.out ++ [(s.buf, k)]
    files := Function.update s.files (logName s.index) (s.files (logName s.index) ++ s.buf.take k) }

theorem write_flagged (s : Recorder) (ret : ℤ) :
    Flagged (s.writeData ret.toNat) (s.write ret) ∧
      (s.write ret).cpAssertStatus = s.cpAssertStatus := by
  unfold writeData Recorder.write
  dsimp only
  split_ifs
  · exact ⟨rfl, rfl⟩
  · exact ⟨rfl, rfl⟩

/-- The ways in which the work comes through `openFiles`. -/
inductive Opens (c : LogConf) (s : Recorder) (r : RecOpen) : Recorder → Prop
  | early : Opens c s r { s with pc := .idle }
  | noFile (store : Option (BitVec 8)) (hr : r.ReachesStore) (h : r.fileOpens = false) :
    Opens c s r { s with pc := .idle, store }
  | noBuf (store : Option (BitVec 8)) (b : BitVec 8) (hr : r.ReachesStore)
    (h : r.KeepsStore → ∀ b₀, s.store = some b₀ → b = nextLog c.num b₀ ∧ store = some b) :
    Opens c s r
      { s with
        store, files := Function.update s.files (logName b) []
        pc := .idle, opened := s.opened + 1, stuck := s.stuck + 1 }
  | runs (store : Option (BitVec 8)) (b : BitVec 8) (hr : r.ReachesStore)
    (h : r.KeepsStore → ∀ b₀, s.store = some b₀ → b = nextLog c.num b₀ ∧ store = some b) :
    Opens c s r
      { s with
        store, files := Function.update s.files (logName b) []
        pc := .test, opened := s.opened + 1, index := b, offset := 0, errorCnt := 0, buf := [] }

theorem opens_openFiles (c : LogConf) (s : Recorder) (r : RecOpen) :
    Opens c s r (s.openFiles c r) := by
  unfold Recorder.openFiles
  dsimp only
  by_cases hno : ¬r.allocFile = true ∨ ¬r.allocStore = true ∨ r.store = .fails
  · rw [if_pos hno]
    exact .early
  · have hr : r.ReachesStore := by
      rw [not_or, not_or, not_not, not_not] at hno
      exact hno
    rw [if_neg hno]
    generalize hb : nextLog c.num _ = b
    generalize hstore : (if r.storeWrite = true then _ else _ : Option (BitVec 8)) = store
    have hnext : r.KeepsStore → ∀ b₀, s.store = some b₀ → b = nextLog c.num b₀ ∧ store = some b := by
      rintro ⟨hopens, hread, hwrite⟩ b₀ hb₀
      have hfound : ¬(r.store = .creates ∨ ¬r.readOk = true) := by
        rw [hopens, hread]
        decide
      rw [if_neg hfound, hb₀] at hb
      rw [if_pos hwrite] at hstore
      exact ⟨hb.symm, hstore.symm⟩
    by_cases hfile : r.fileOpens = true
    · rw [if_neg (not_not.mpr hfile)]
      by_cases hbuf : r.allocBuf = true
      · rw [if_neg (not_not.mpr hbuf)]
        exact .runs store b hr hnext
      · rw [if_pos hbuf]
        exact .noBuf store b hr hnext
    · rw [if_pos hfile]
      exact .noFile store hr (Bool.eq_false_iff.mpr hfile)

/-- What a step does. -/
inductive Move (c : LogConf) (s : Recorder) : RecStep → Recorder → Prop
  | flags {e : RecStep} {t : Recorder} (h : Flagged s t)
      (hcalm : e ≠ .notify .assert → s.cpAssertStatus = false → t.cpAssertStatus = false)
      (hqueued : t.queued = true → s.queued = true ∨ s.opened ≤ 1) : Move c s e t
  | userOpen (txBusy : Bool) (h : s.opened ≤ 1) :
      Move c s .userOpen { s with opened := s.opened + 1, users := s.users + 1, txBusy }
  | userRelease (h : 0 < s.users) :
      Move c s .userRelease { s with opened := s.opened - 1, users := s.users - 1 }
  | enter (hpc : s.pc = .idle) (hqueued : s.queued = true) :
      Move c s .enter { s with queued := false, recordFlag := true, pc := .opening }
  | openFiles {r : RecOpen} {t : Recorder} (hpc : s.pc = .opening) (h : Opens c s r t) :
      Move c s (.openFiles r) t
  | reading (hpc : s.pc = .test) : Move c s .test { s with pc := .reading }
  | closing (hpc : s.pc = .test) : Move c s .test { s with pc := .closing }
  | read {ret : ℤ} {data : List (BitVec 8)} {t : Recorder} (hpc : s.pc = .reading)
      (hlen : data.length = ret.toNat) (hret : ret ≤ c.maxBufferSize)
      (h : Flagged (s.readData ret data) t)
      (hcalm : s.cpAssertStatus = false → t.cpAssertStatus = false) : Move c s (.read ret data) t
  | due (hpc : s.pc = .check) : Move c s .check { s with pc := .writing }
  | room (hpc : s.pc = .check)
      (h : s.buf.length + c.maxBufferSize ≤ SKW_LOG_READ_BUFFER_SIZE) :
      Move c s .check { s with pc := .test }
  | write {ret : ℤ} {t : Recorder} (hpc : s.pc = .writing) (hret : ret ≤ s.buf.length)
      (h : Flagged (s.writeData ret.toNat) t) (hcalm : t.cpAssertStatus = s.cpAssertStatus) :
      Move c s (.write ret) t
  | full (hpc : s.pc = .written) : Move c s .written { s with pc := .switching }
  | under (hpc : s.pc = .written) (h : s.cpAssertStatus = false → (s.offset : ℤ) ≤ c.size) :
      Move c s .written { s with pc := .test }
  | switch (storeWrite fileOpens : Bool) (hpc : s.pc = .switching) :
      Move c s (.switch storeWrite fileOpens) (s.switch c storeWrite fileOpens)
  | close (hpc : s.pc = .closing) : Move c s .close s.close

theorem move_of_step (h : s.step c e = some t) : Move c s e t := by
  unfold Recorder.step at h
  cases e with
  | startRec =>
    cases h
    exact .flags (Flagged.startRec s) (fun _ => startRec_calm) startRec_queued
  | stopRec =>
    cases h
    exact .flags rfl (fun _ => id) Or.inl
  | notify ev =>
    cases h
    cases ev with
    | assert =>
      refine .flags (Flagged.notify_assert s) (fun hne => absurd rfl hne) fun hq => ?_
      rw [notify_assert_queued] at hq
      exact startRec_queued hq
    | bspReady => exact .flags (Flagged.startRec s) (fun _ => startRec_calm) startRec_queued
    | dumpDone => exact .flags rfl (fun _ _ => rfl) Or.inl
    | other => exact .flags rfl (fun _ => id) Or.inl
  | setTxBusy b =>
    cases h
    exact .flags rfl (fun _ => id) Or.inl
  | userOpen =>
    dsimp only at h
    generalize (if s.opened = 0 then false else s.txBusy) = txBusy at h
    split_ifs at h with hno
    cases h
    exact .userOpen txBusy (Nat.not_lt.mp hno)
  | userRelease =>
    dsimp only at h
    split_ifs at h with hno
    cases h
    exact .userRelease (Nat.pos_of_ne_zero hno)
  | enter =>
    dsimp only at h
    split_ifs at h with hno hrec
    · cases h
      exact .flags rfl (fun _ => id) fun hq => absurd hq Bool.false_ne_true
    · cases h
      obtain ⟨hpc, hq⟩ := not_or.mp hno
      exact .enter (not_not.mp hpc) (not_not.mp hq)
  | openFiles r =>
    dsimp only at h
    split_ifs at h with hpc
    cases h
    exact .openFiles hpc (opens_openFiles c s r)
  | test =>
    dsimp only at h
    split_ifs at h with hpc hrun
    · cases h
      exact .reading (not_not.mp hpc)
    · cases h
      exact .closing (not_not.mp hpc)
  | read ret data =>
    dsimp only at h
    split_ifs at h with hread
    cases h
    obtain ⟨hflag, hcalm⟩ := read_flagged c s ret data
    exact .read hread.1 hread.2.1 hread.2.2 hflag hcalm
  | check =>
    dsimp only at h
    split_ifs at h with hpc hdue
    · cases h
      exact .due (not_not.mp hpc)
    · cases h
      refine .room (not_not.mp hpc) ?_
      have hfew : ¬(SKW_LOG_READ_BUFFER_SIZE : ℤ) - s.buf.length ≤ c.maxBufferSize :=
        fun hle => hdue (decide_eq_true (Or.inr hle))
      omega
  | write ret =>
    dsimp only at h
    split_ifs at h with hwrite
    cases h
    obtain ⟨hflag, hcalm⟩ := write_flagged s ret
    exact .write hwrite.1 hwrite.2 hflag hcalm
  | written =>
    dsimp only at h
    split_ifs at h with hpc hfull
    · cases h
      exact .full (not_not.mp hpc)
    · cases h
      refine .under (not_not.mp hpc) fun hcalm => ?_
      exact not_lt.mp fun hlt => hfull ⟨hlt, by rw [hcalm]; decide⟩
  | switch storeWrite fileOpens =>
    dsimp only at h
    split_ifs at h with hpc
    cases h
    exact .switch storeWrite fileOpens hpc
  | close =>
    dsimp only at h
    split_ifs at h with hpc
    cases h
    exact .close hpc

end Recorder
end Skw
