import Skw.Bt.Open

/-! The files open on a character device of `skw_user_com`. The device counts them in `open`; the
port below it is opened for the first one and closed on every release. -/
namespace Skw

/-- `strncmp(portName, word, strlen(word)) == 0`. -/
def nameStarts (portName : List Char) (word : String) : Bool := word.toList.isPrefixOf portName

/-- The parts of the platform data that opening and closing read, and `max_ch_num`. -/
structure UcomPort where
  portName : List Char
  portno : ℕ
  maxChNum : ℕ

/-- `open_sdio_port` without a callback, as a character device calls it. -/
def openPlainPort (maxChNum : ℕ) (ports : ℕ → BtPort) (id : ℕ) : ℤ × (ℕ → BtPort) :=
  if maxChNum ≤ id then (-EINVAL, ports)
  else if (ports id).state = .open ∨ (ports id).rxSubmit then (-EBUSY, ports)
  else (0, Function.update ports id ⟨.open, false⟩)

/-- A `ucom_dev` with the ports of the bus: the counter `open`, whether `ucoms` and the driver data
still hold the device, the files whose `private_data` is the device, and how often it was freed. -/
structure UcomDev where
  opens : ℕ
  listed : Bool
  ports : ℕ → BtPort
  files : List ℕ
  frees : ℕ

/-- A call of a file operation or of the driver, with `cp_exception_sts`, `log_start` and `rx_busy`
as the call finds them. -/
inductive UcomCall
  | open (fp : ℕ) (cpExceptionSts : Bool)
  | release (fp : ℕ) (logStart : Bool)
  | remove (rxBusy : Bool)

/-- `ucom_open`. -/
def ucomOpen (d : UcomPort) (s : UcomDev) (fp : ℕ) (cpExceptionSts : Bool) : ℤ × UcomDev :=
  if ¬s.listed then (- EIO, s)
  else if cpExceptionSts ∧ ¬nameStarts d.portName "LOG" then (- EIO, s)
  else if 1 < s.opens then (-EBUSY, s)
  else
    let opens := s.opens + 1
    -- the result of `open_port` is not looked at
    let ports := if opens = 1 then (openPlainPort d.maxChNum s.ports d.portno).2 else s.ports
    (0, { s with opens, ports, files := fp :: s.files })

/-- The port after a release: only those of the log and of the AT commands may stay open. -/
def releasedPorts (d : UcomPort) (s : UcomDev) (logStart : Bool) : ℕ → BtPort :=
  if ¬nameStarts d.portName "LOG" ∧ ¬nameStarts d.portName "ATC" then
    (closeSdioPort d.maxChNum s.ports d.portno).2
  else if ¬logStart ∧ nameStarts d.portName "LOG" then
    (closeSdioPort d.maxChNum s.ports d.portno).2
  else s.ports

/-- `ucom_release`. -/
def ucomRelease (d : UcomPort) (s : UcomDev) (fp : ℕ) (logStart : Bool) : UcomDev :=
  let s := { s with files := s.files.erase fp }
  if ¬s.listed then s
  else if s.opens ≠ 0 then { s with ports := releasedPorts d s logStart, opens := s.opens - 1 }
  else { s with frees := s.frees + 1 }

/-- The port after a removal: that of the Bluetooth commands is closed under a pending read. -/
def removedPorts (d : UcomPort) (s : UcomDev) (rxBusy : Bool) : ℕ → BtPort :=
  if nameStarts d.portName "BTCMD" ∧ rxBusy then (closeSdioPort d.maxChNum s.ports d.portno).2
  else s.ports

/-- `skw_ucom_remove`, after its wait for the last release. -/
def skwUcomRemove (d : UcomPort) (s : UcomDev) (rxBusy : Bool) : UcomDev :=
  if ¬s.listed then s
  else
    let s := { s with ports := removedPorts d s rxBusy, listed := false }
    if s.opens = 0 then { s with frees := s.frees + 1 } else { s with opens := 0 }

namespace UcomDev

/-- A file is opened once and released once. -/
def step (d : UcomPort) (s : UcomDev) : UcomCall → Option UcomDev
  | .open fp cpExceptionSts =>
    if fp ∈ s.files then none else some (ucomOpen d s fp cpExceptionSts).2
  | .release fp logStart => if fp ∈ s.files then some (ucomRelease d s fp logStart) else none
  | .remove rxBusy => some (skwUcomRemove d s rxBusy)

/-- The device as `skw_ucom_probe` registers it. -/
def probed (ports : ℕ → BtPort) : UcomDev := ⟨0, true, ports, [], 0⟩

/-- The port is open while some file is, up to the removal, and the device is freed once it is
removed and has no open file. -/
structure Shared (d : UcomPort) (s : UcomDev) : Prop where
  port : s.listed = true → ((s.ports d.portno).state = .open ↔ s.files ≠ [])
  freed : s.frees = if s.listed = false ∧ s.files = [] then 1 else 0

/-- What a release leaves right: that of the only open file before the removal, and that of any
but the last one after it. -/
def LeavesRight (s : UcomDev) : UcomCall → Prop
  | .release fp _ => s.listed = true ↔ s.files.erase fp = []
  | _ => True

/-- What holds beside `Shared` as long as that does. -/
structure Inv (d : UcomPort) (s : UcomDev) : Prop extends Shared d s where
  nodup : s.files.Nodup
  count : s.listed = true → s.opens = s.files.length
  plain : s.listed = true → (s.ports d.portno).rxSubmit = false

section
variable {d : UcomPort} {s t : UcomDev} {fp : ℕ}

theorem Inv.probed {ports : ℕ → BtPort} (h : CanOpen d.maxChNum ports d.portno) :
    Inv d (probed ports) where
  port _ := iff_of_false h.2.1 (not_not.mpr rfl)
  freed := rfl
  nodup := List.nodup_nil
  count _ := rfl
  plain _ := h.2.2

/-- The port layer opens the port of a device without open files. -/
theorem openPlainPort_of_canOpen {maxChNum : ℕ} {ports : ℕ → BtPort} {id : ℕ}
    (h : CanOpen maxChNum ports id) :
    openPlainPort maxChNum ports id = (0, Function.update ports id ⟨.open, false⟩) := by
  obtain ⟨hlt, hstate, hsubmit⟩ := h
  rw [openPlainPort, if_neg (not_le.mpr hlt), if_neg]
  simp [hstate, hsubmit]

/-- It closes the port of a device with one. -/
theorem closeSdioPort_of_open {maxChNum : ℕ} {ports : ℕ → BtPort} {id : ℕ} (hlt : id < maxChNum)
    (h : (ports id).state = .open) :
    closeSdioPort maxChNum ports id = (0, Function.update ports id ⟨.clse, false⟩) := by
  rw [closeSdioPort, if_neg (not_le.mpr hlt), if_neg]
  simp [h]

theorem Inv.open (h : Inv d s) (hlt : d.portno < d.maxChNum) (hfp : fp ∉ s.files) (cp : Bool) :
    Inv d (ucomOpen d s fp cp).2 := by
  unfold ucomOpen
  split_ifs with hl hcp hmany
  · exact h
  · exact h
  rotate_left
  · exact h
  have hcount := h.count hl
  -- the port is opened exactly when there was no file
  have hport : ∀ ports', ports' = (if s.opens + 1 = 1 then
      (openPlainPort d.maxChNum s.ports d.portno).2 else s.ports) →
      (ports' d.portno).state = .open ∧ (ports' d.portno).rxSubmit = false := by
    rintro _ rfl
    split_ifs with hone
    · have hnil : s.files = [] := List.eq_nil_of_length_eq_zero (by omega)
      have hcan : CanOpen d.maxChNum s.ports d.portno :=
        ⟨hlt, fun hs => (h.port hl).mp hs hnil, h.plain hl⟩
      rw [openPlainPort_of_canOpen hcan]
      simp
    · have hne : s.files ≠ [] := fun hs => hone (by rw [hcount, hs]; rfl)
      exact ⟨(h.port hl).mpr hne, h.plain hl⟩
  obtain ⟨hstate, hsubmit⟩ := hport _ rfl
  exact
    { port := fun _ => iff_of_true hstate (List.cons_ne_nil _ _)
      freed := by simpa [hl] using h.freed
      nodup := List.nodup_cons.mpr ⟨hfp, h.nodup⟩
      count := fun _ => congrArg (· + 1) hcount
      plain := fun _ => hsubmit }

theorem Inv.remove (h : Inv d s) (rxBusy : Bool) : Inv d (skwUcomRemove d s rxBusy) := by
  cases hl : s.listed with
  | false => simpa [skwUcomRemove, hl] using h
  | true =>
    have hcount := h.count hl
    have hfrees : s.frees = 0 := by simpa [hl] using h.freed
    by_cases hnil : s.files = []
    · have hopens : s.opens = 0 := by simpa [hnil] using hcount
      have hremove : skwUcomRemove d s rxBusy =
          { s with ports := removedPorts d s rxBusy, listed := false, frees := 1 } := by
        simp [skwUcomRemove, hl, hopens, hfrees]
      rw [hremove]
      exact ⟨⟨nofun, by simp [hnil]⟩, h.nodup, nofun, nofun⟩
    · have hopens : s.opens ≠ 0 := by simpa [hcount] using hnil
      have hremove : skwUcomRemove d s rxBusy =
          { s with ports := removedPorts d s rxBusy, listed := false, opens := 0 } := by
        simp [skwUcomRemove, hl, hopens]
      rw [hremove]
      exact ⟨⟨nofun, by simp [hnil, hfrees]⟩, h.nodup, nofun, nofun⟩

/-- A release before the removal closes the port, whether other files are open or not. -/
theorem ucomRelease_of_listed (h : Inv d s) (hlt : d.portno < d.maxChNum)
    (hlog : nameStarts d.portName "LOG" = false) (hatc : nameStarts d.portName "ATC" = false)
    (hl : s.listed = true) (hfp : fp ∈ s.files) (logStart : Bool) :
    ucomRelease d s fp logStart =
      { s with
        files := s.files.erase fp
        ports := Function.update s.ports d.portno ⟨.clse, false⟩
        opens := s.opens - 1 } := by
  have hne : s.files ≠ [] := List.ne_nil_of_mem hfp
  have hopens : s.opens ≠ 0 := by
    rw [h.count hl]
    exact fun hs => hne (List.eq_nil_of_length_eq_zero hs)
  have hclose := closeSdioPort_of_open hlt ((h.port hl).mpr hne)
  simp [ucomRelease, releasedPorts, hl, hopens, hlog, hatc, hclose]

/-- A release keeps the invariant exactly where `LeavesRight` allows it. -/
theorem Inv.release_iff (h : Inv d s) (hlt : d.portno < d.maxChNum)
    (hlog : nameStarts d.portName "LOG" = false) (hatc : nameStarts d.portName "ATC" = false)
    (hfp : fp ∈ s.files) (logStart : Bool) :
    (Shared d (ucomRelease d s fp logStart) ↔ s.LeavesRight (.release fp logStart)) ∧
      (s.LeavesRight (.release fp logStart) → Inv d (ucomRelease d s fp logStart)) := by
  cases hl : s.listed with
  | true =>
    have hfrees : s.frees = 0 := by simpa [hl] using h.freed
    have hkept : s.files.erase fp = [] → Inv d (ucomRelease d s fp logStart) := by
      intro hnil
      rw [ucomRelease_of_listed h hlt hlog hatc hl hfp]
      have hlength := List.length_erase_of_mem hfp
      constructor
      · constructor
        · simp [hnil]
        · simp [hfrees, hl]
      · exact h.nodup.erase fp
      · intro _
        rw [h.count hl]
        exact hlength.symm
      · simp
    have hport : Shared d (ucomRelease d s fp logStart) → s.files.erase fp = [] := by
      intro hs
      have hp := hs.port
      rw [ucomRelease_of_listed h hlt hlog hatc hl hfp] at hp
      have hclosed := (not_iff_not.mpr (hp hl)).mp (by simp)
      exact not_not.mp hclosed
    simp only [LeavesRight, hl, true_iff]
    exact ⟨⟨hport, fun hnil => (hkept hnil).toShared⟩, hkept⟩
  | false =>
    have hrelease : ucomRelease d s fp logStart = { s with files := s.files.erase fp } := by
      simp [ucomRelease, hl]
    have hfrees : s.frees = 0 := by
      simpa [hl, List.ne_nil_of_mem hfp] using h.freed
    have hkept : s.files.erase fp ≠ [] → Inv d (ucomRelease d s fp logStart) := by
      intro hne
      rw [hrelease]
      refine ⟨⟨?_, ?_⟩, h.nodup.erase fp, ?_, ?_⟩
      · simp [hl]
      · simp [hfrees, hne]
      · simp [hl]
      · simp [hl]
    have hlast : Shared d (ucomRelease d s fp logStart) → s.files.erase fp ≠ [] := by
      intro hs hnil
      have hf := hs.freed
      rw [hrelease] at hf
      simp [hl, hnil, hfrees] at hf
    simp only [LeavesRight, hl, Bool.false_eq_true, false_iff]
    exact ⟨⟨hlast, fun hne => (hkept hne).toShared⟩, hkept⟩

/-- The invariant is kept by the steps that leave the device right. -/
theorem Inv.step_iff (h : Inv d s) (hlt : d.portno < d.maxChNum)
    (hlog : nameStarts d.portName "LOG" = false) (hatc : nameStarts d.portName "ATC" = false)
    {e : UcomCall} (hs : s.step d e = some t) :
    (Shared d t ↔ s.LeavesRight e) ∧ (s.LeavesRight e → Inv d t) := by
  cases e with
  | «open» fp cp =>
    obtain ⟨hfp, rfl⟩ : fp ∉ s.files ∧ (ucomOpen d s fp cp).2 = t := by simpa [step] using hs
    have hi := h.open hlt hfp cp
    exact ⟨iff_of_true hi.toShared trivial, fun _ => hi⟩
  | release fp logStart =>
    obtain ⟨hfp, rfl⟩ : fp ∈ s.files ∧ ucomRelease d s fp logStart = t := by simpa [step] using hs
    exact h.release_iff hlt hlog hatc hfp logStart
  | remove rxBusy =>
    obtain rfl : skwUcomRemove d s rxBusy = t := by simpa [step] using hs
    have hi := h.remove rxBusy
    exact ⟨iff_of_true hi.toShared trivial, fun _ => hi⟩

end

/-- A device is shared as it should be throughout a run exactly when the run releases a file only
while no other one is open before the removal, and not the last one after it. -/
theorem shared_iff_leavesRight (d : UcomPort) (ports : ℕ → BtPort)
    (hlog : nameStarts d.portName "LOG" = false) (hatc : nameStarts d.portName "ATC" = false)
    (h : CanOpen d.maxChNum ports d.portno) (es : List UcomCall) :
    Lib.Along (step d) (fun _ _ t => Shared d t) (probed ports) es ↔
      Lib.Along (step d) (fun s e _ => s.LeavesRight e) (probed ports) es := by
  have hstep := fun s e t (hi : Inv d s) (ht : s.step d e = some t) =>
    hi.step_iff h.1 hlog hatc ht
  apply Lib.along_iff _ _ (Inv.probed h)
  · exact fun s e t hi ht hq => (hstep s e t hi ht).2 hq
  · exact fun s e t hi ht => (hstep s e t hi ht).1

/-- The data port of the Bluetooth, idle, on a bus with thirteen channels. -/
def btdata : UcomPort := ⟨"BTDATA".toList, 4, 13⟩

def idlePorts (_ : ℕ) : BtPort := ⟨.idle, false⟩

theorem one_user_shared_iff :
    Lib.Along (step btdata) (fun _ _ t => Shared btdata t) (probed idlePorts)
        [.open 0 false, .release 0 false] ↔
      Lib.Along (step btdata) (fun s e _ => s.LeavesRight e) (probed idlePorts)
        [.open 0 false, .release 0 false] :=
  shared_iff_leavesRight btdata idlePorts (by decide) (by decide)
    (by simp [CanOpen, btdata, idlePorts]) _

/-- The first of two users closes the port of the other, and a user who outlives the removal leaves
the device behind. -/
theorem second_user_closed_and_late_release_leaks :
    (¬Lib.Along (step btdata) (fun _ _ t => Shared btdata t) (probed idlePorts)
      [.open 0 false, .open 1 false, .release 0 false]) ∧
    ¬Lib.Along (step btdata) (fun _ _ t => Shared btdata t) (probed idlePorts)
      [.open 0 false, .remove false, .release 0 false] := by
  constructor
  · intro h
    have hclosed := ((h _ rfl).2 _ rfl).2 _ rfl
    exact absurd (hclosed.1.port rfl) (by decide)
  · intro h
    have hleak := ((h _ rfl).2 _ rfl).2 _ rfl
    exact absurd hleak.1.freed (by decide)

end UcomDev
end Skw
