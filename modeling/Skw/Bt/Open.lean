import Skw.Sdio.Port
import Mathlib.Data.List.Nodup
import Mathlib.Logic.Function.Basic

/-! Opening the Bluetooth device. `btseekwave_open` opens up to three ports of the bus, starts the
service and downloads the NV file, and only its last failure closes what was opened. -/
namespace Skw

/-- The fields of `sdio_port` by which `open_sdio_port` and `close_sdio_port` decide. -/
structure BtPort where
  state : PortState
  rxSubmit : Bool
deriving DecidableEq

/-- `open_sdio_port` with the number of channels `max_ch_num`. -/
def openSdioPort (maxChNum : ℕ) (ports : ℕ → BtPort) (id : ℕ) : ℤ × (ℕ → BtPort) :=
  if maxChNum ≤ id then (-EINVAL, ports)
  else if (ports id).state = .open ∨ (ports id).rxSubmit then (-EBUSY, ports)
  else (0, Function.update ports id ⟨.open, true⟩)

/-- `close_sdio_port`. -/
def closeSdioPort (maxChNum : ℕ) (ports : ℕ → BtPort) (id : ℕ) : ℤ × (ℕ → BtPort) :=
  if maxChNum ≤ id then (-EINVAL, ports)
  else if (ports id).state = .idle then (-ENODEV, ports)
  else (0, Function.update ports id ⟨.clse, false⟩)

/-- The fields of `sv6160_platform_data` here. For the functions the platform may lack it says
whether they are there, and for `service_start` what it returns. -/
structure BtOpenPlatform where
  cmdPort : ℕ
  dataPort : ℕ
  audioPort : ℕ
  openPort : Bool
  closePort : Bool
  serviceStart : Option ℤ
  modemUnregisterNotify : Bool
deriving DecidableEq

/-- The ports in the order in which they are opened and closed; the data and the audio port may be
missing. -/
def BtOpenPlatform.ports (d : BtOpenPlatform) : List ℕ :=
  d.cmdPort :: [d.dataPort, d.audioPort].filter (· ≠ 0)

/-- The ports and the fields of `btseekwave_data` that opening changes. -/
structure BtDevice where
  ports : ℕ → BtPort
  btIsOpen : Bool
  pltNotifierSet : Bool

/-- What a run of `btseekwave_open` meets: `cmd_reject`, what the wait for its end returns, and what
`btseekwave_download_nv` returns. -/
structure BtOpenEnv where
  cmdReject : Bool
  waitEvent : ℕ
  downloadNv : ℤ

/-- What a run returns and leaves behind, with the ports that it opened, whether the service was
started and whether the NV file was downloaded. -/
structure BtOpenResult where
  ret : ℤ
  device : BtDevice
  opened : List ℕ
  started : Bool
  downloaded : Bool

/-- Ports opened one after the other up to the first that cannot be. -/
def openPorts (maxChNum : ℕ) : List ℕ → (ℕ → BtPort) → ℤ × (ℕ → BtPort) × List ℕ
  | [], ports => (0, ports, [])
  | id :: ids, ports =>
    let (err, ports) := openSdioPort maxChNum ports id
    if err < 0 then (err, ports, [])
    else
      let (err, ports, opened) := openPorts maxChNum ids ports
      (err, ports, id :: opened)

/-- `btseekwave_port_close`. -/
def btseekwavePortClose (maxChNum : ℕ) (d : BtOpenPlatform) (s : BtDevice) : BtDevice where
  ports :=
    if d.closePort then d.ports.foldl (fun ports id => (closeSdioPort maxChNum ports id).2) s.ports
    else s.ports
  btIsOpen := false
  pltNotifierSet := if d.modemUnregisterNotify then false else s.pltNotifierSet

/-- `btseekwave_open` from the first port on. -/
def openDevice (maxChNum : ℕ) (d : BtOpenPlatform) (downloadNv : ℤ) (s : BtDevice) :
    BtOpenResult :=
  let (err, ports, opened) := openPorts maxChNum d.ports s.ports
  let s := { s with ports }
  if err < 0 then ⟨err, s, opened, false, false⟩
  else
    match d.serviceStart with
    | none => ⟨-1, s, opened, false, false⟩
    | some err =>
      if err ≠ 0 then ⟨err, s, opened, false, false⟩
      else if downloadNv = 0 then
        ⟨0, { s with btIsOpen := true, pltNotifierSet := true }, opened, true, true⟩
      else ⟨downloadNv, btseekwavePortClose maxChNum d s, opened, true, false⟩

/-- `btseekwave_open`. -/
def btseekwaveOpen (maxChNum : ℕ) (pdata : Option BtOpenPlatform) (env : BtOpenEnv)
    (s : BtDevice) : BtOpenResult :=
  if env.cmdReject ∧ env.waitEvent = 0 then ⟨0, s, [], false, false⟩
  else
    match pdata with
    | none => ⟨-1, s, [], false, false⟩
    | some d =>
      if ¬d.openPort then ⟨-1, s, [], false, false⟩ else openDevice maxChNum d env.downloadNv s

/-- Either the device is open in all its parts, or there is an error and none of the ports opened
on the way stands in the way of opening it again. -/
def BtOpenResult.AllOrNothing (r : BtOpenResult) (configured : List ℕ) : Prop :=
  (r.ret = 0 ∧ (∀ id ∈ configured, (r.device.ports id).state = .open) ∧ r.started = true ∧
    r.downloaded = true) ∨
  (r.ret ≠ 0 ∧ ∀ id ∈ r.opened, (r.device.ports id).state ≠ .open ∧
    (r.device.ports id).rxSubmit = false)

/-- The port is one of the bus, and nobody has it open. -/
def CanOpen (maxChNum : ℕ) (ports : ℕ → BtPort) (id : ℕ) : Prop :=
  id < maxChNum ∧ (ports id).state ≠ .open ∧ (ports id).rxSubmit = false

section
variable {maxChNum id : ℕ} {ids : List ℕ} {ports : ℕ → BtPort}

theorem openSdioPort_of_canOpen (h : CanOpen maxChNum ports id) :
    openSdioPort maxChNum ports id = (0, Function.update ports id ⟨.open, true⟩) := by
  obtain ⟨hlt, hstate, hsubmit⟩ := h
  rw [openSdioPort, if_neg (not_le.mpr hlt), if_neg]
  rintro (h | h)
  · exact hstate h
  · rw [hsubmit] at h
    cases h

theorem openSdioPort_of_not_canOpen (h : ¬CanOpen maxChNum ports id) :
    (openSdioPort maxChNum ports id).1 < 0 ∧ (openSdioPort maxChNum ports id).2 = ports := by
  unfold openSdioPort
  split_ifs with hlt hbusy
  · exact ⟨show -EINVAL < 0 by decide, rfl⟩
  · exact ⟨show -EBUSY < 0 by decide, rfl⟩
  · refine absurd ⟨not_le.mp hlt, fun hs => hbusy (.inl hs), ?_⟩ h
    exact Bool.eq_false_iff.mpr fun hs => hbusy (.inr hs)

/-- The ports after some were opened. -/
def opened (ports : ℕ → BtPort) (ids : List ℕ) (i : ℕ) : BtPort :=
  if i ∈ ids then ⟨.open, true⟩ else ports i

theorem opened_update (ports : ℕ → BtPort) (id : ℕ) (ids : List ℕ) :
    opened (Function.update ports id ⟨.open, true⟩) ids = opened ports (id :: ids) := by
  funext i
  by_cases hi : i ∈ ids
  · simp [opened, hi]
  · rcases eq_or_ne i id with rfl | hne
    · simp [opened, hi]
    · simp [opened, hi, hne]

theorem canOpen_update {i : ℕ} :
    CanOpen maxChNum (Function.update ports id ⟨.open, true⟩) i ↔
      i ≠ id ∧ CanOpen maxChNum ports i := by
  unfold CanOpen
  rcases eq_or_ne i id with rfl | hne
  · simp
  · simp [hne]

/-- Opening stops with an error, or all ports are different and can be opened. What was opened is
open. -/
theorem openPorts_spec (maxChNum : ℕ) (ids : List ℕ) (ports : ℕ → BtPort) :
    ∃ done, (openPorts maxChNum ids ports).2 = (opened ports done, done) ∧
      ((∀ id ∈ ids, CanOpen maxChNum ports id) ∧ ids.Nodup ∧
          (openPorts maxChNum ids ports).1 = 0 ∧ done = ids ∨
        ¬((∀ id ∈ ids, CanOpen maxChNum ports id) ∧ ids.Nodup) ∧
          (openPorts maxChNum ids ports).1 < 0 ∧
          ∀ id ∈ ids.head?, (CanOpen maxChNum ports id → id ∈ done) ∧
            (¬CanOpen maxChNum ports id → done = [])) := by
  induction ids generalizing ports with
  | nil =>
    refine ⟨[], ?_, .inl ⟨fun _ h => absurd h List.not_mem_nil, List.nodup_nil,
      rfl, rfl⟩⟩
    have hnil : opened ports [] = ports := funext fun i => if_neg List.not_mem_nil
    rw [hnil]
    rfl
  | cons id ids ih =>
    by_cases hid : CanOpen maxChNum ports id
    · obtain ⟨done, hres, hdone⟩ := ih (Function.update ports id ⟨.open, true⟩)
      have hall : ((∀ i ∈ ids, CanOpen maxChNum (Function.update ports id ⟨.open, true⟩) i) ∧
          ids.Nodup) ↔ (∀ i ∈ id :: ids, CanOpen maxChNum ports i) ∧ (id :: ids).Nodup := by
        simp only [canOpen_update, List.forall_mem_cons, List.nodup_cons]
        constructor
        · rintro ⟨hids, hnd⟩
          exact ⟨⟨hid, fun i hi => (hids i hi).2⟩, fun hmem => (hids id hmem).1 rfl, hnd⟩
        · rintro ⟨⟨-, hids⟩, hmem, hnd⟩
          exact ⟨fun i hi => ⟨fun he => hmem (he ▸ hi), hids i hi⟩, hnd⟩
      have hstep : openPorts maxChNum (id :: ids) ports =
          ((openPorts maxChNum ids (Function.update ports id ⟨.open, true⟩)).1,
            opened ports (id :: done), id :: done) := by
        rw [openPorts, openSdioPort_of_canOpen hid]
        dsimp only
        rw [if_neg (lt_irrefl 0), (Prod.ext_iff.mp hres).1, (Prod.ext_iff.mp hres).2, opened_update]
      refine ⟨id :: done, by rw [hstep], ?_⟩
      rw [hstep]
      rcases hdone with ⟨hids, hnd, hret, rfl⟩ | ⟨hnot, hret, -⟩
      · exact .inl ⟨(hall.mp ⟨hids, hnd⟩).1, (hall.mp ⟨hids, hnd⟩).2, hret, rfl⟩
      · refine .inr ⟨fun h => hnot (hall.mpr h), hret, fun i hi => ?_⟩
        obtain rfl : id = i := Option.some.inj hi
        exact ⟨fun _ => List.mem_cons_self .., fun h => absurd hid h⟩
    · obtain ⟨hret, hports⟩ := openSdioPort_of_not_canOpen hid
      have hstep : openPorts maxChNum (id :: ids) ports =
          ((openSdioPort maxChNum ports id).1, ports, []) := by
        rw [openPorts]
        dsimp only
        rw [if_pos hret, hports]
      have hnil : opened ports [] = ports := funext fun i => if_neg List.not_mem_nil
      refine ⟨[], by rw [hstep, hnil], .inr ⟨fun h => ?_, by rwa [hstep], fun i hi => ?_⟩⟩
      · exact hid (h.1 id (List.mem_cons_self ..))
      · obtain rfl : id = i := Option.some.inj hi
        exact ⟨fun h => absurd h hid, fun _ => rfl⟩

/-- Closing ports that were opened. -/
theorem closePorts_eq (hids : ∀ id ∈ ids, id < maxChNum ∧ (ports id).state ≠ .idle) :
    ids.foldl (fun ports id => (closeSdioPort maxChNum ports id).2) ports =
      fun i => if i ∈ ids then ⟨.clse, false⟩ else ports i := by
  induction ids generalizing ports with
  | nil => exact funext fun i => (if_neg List.not_mem_nil).symm
  | cons id ids ih =>
    obtain ⟨⟨hlt, hstate⟩, hids⟩ := List.forall_mem_cons.mp hids
    have hclose : (closeSdioPort maxChNum ports id).2 = Function.update ports id ⟨.clse, false⟩ := by
      rw [closeSdioPort, if_neg (not_le.mpr hlt), if_neg hstate]
    rw [List.foldl_cons, hclose, ih fun i hi => ⟨(hids i hi).1, ?_⟩]
    · funext i
      rcases eq_or_ne i id with rfl | hne
      · simp
      · simp [hne]
    · rcases eq_or_ne i id with rfl | hne
      · rw [Function.update_self]
        decide
      · rw [Function.update_of_ne hne]
        exact (hids i hi).2

end

theorem allOrNothing_of_opened_nil {ret : ℤ} (hret : ret ≠ 0) (device : BtDevice)
    (configured : List ℕ) :
    (BtOpenResult.mk ret device [] false false).AllOrNothing configured :=
  .inr ⟨hret, fun _ h => absurd h List.not_mem_nil⟩

theorem not_allOrNothing_of_open {r : BtOpenResult} {configured : List ℕ} (id : ℕ)
    (hret : r.ret ≠ 0) (hid : id ∈ r.opened) (hopen : (r.device.ports id).state = .open) :
    ¬r.AllOrNothing configured := by
  rintro (⟨h, -⟩ | ⟨-, h⟩)
  · exact hret h
  · exact (h id hid).1 hopen

section
variable {maxChNum : ℕ} {d : BtOpenPlatform} {s : BtDevice}

/-- Where all ports were opened. -/
theorem openDevice_of_opened (downloadNv : ℤ)
    (hcan : ∀ id ∈ d.ports, CanOpen maxChNum s.ports id)
    (h : openPorts maxChNum d.ports s.ports = (0, opened s.ports d.ports, d.ports)) :
    (openDevice maxChNum d downloadNv s).AllOrNothing d.ports ↔
      d.serviceStart = some 0 ∧ (downloadNv ≠ 0 → d.closePort = true) := by
  have hmem : d.cmdPort ∈ d.ports := List.mem_cons_self ..
  have hopen : ∀ id ∈ d.ports, opened s.ports d.ports id = ⟨.open, true⟩ := fun id h => if_pos h
  have hstate : (opened s.ports d.ports d.cmdPort).state = .open := by rw [hopen _ hmem]
  rw [openDevice, h]
  dsimp only
  rw [if_neg (lt_irrefl 0)]
  cases hstart : d.serviceStart with
  | none =>
    have hret : (-1 : ℤ) ≠ 0 := by decide
    refine iff_of_false (not_allOrNothing_of_open d.cmdPort hret hmem hstate) ?_
    rintro ⟨h, -⟩
    cases h
  | some err =>
    dsimp only
    rw [Option.some.injEq]
    split_ifs with herr hnv
    · refine iff_of_false (not_allOrNothing_of_open d.cmdPort herr hmem hstate) ?_
      exact fun h => herr h.1
    · refine iff_of_true (.inl ⟨rfl, fun id hid => ?_, rfl, rfl⟩)
        ⟨not_not.mp herr, fun h => absurd hnv h⟩
      exact congrArg BtPort.state (hopen id hid)
    · cases hclose : d.closePort with
      | true =>
        refine iff_of_true (.inr ⟨hnv, fun id hid => ?_⟩) ⟨not_not.mp herr, fun _ => rfl⟩
        have hbus : ∀ i ∈ d.ports, i < maxChNum ∧ (opened s.ports d.ports i).state ≠ .idle :=
          fun i hi => ⟨(hcan i hi).1, by rw [hopen i hi]; decide⟩
        have hclosed := closePorts_eq hbus
        have hid : (btseekwavePortClose maxChNum d { s with ports := opened s.ports d.ports }).ports
            id = ⟨.clse, false⟩ := by
          rw [btseekwavePortClose, if_pos hclose, hclosed]
          exact if_pos hid
        show (BtPort.state (BtDevice.ports _ id) ≠ _) ∧ BtPort.rxSubmit (BtDevice.ports _ id) = _
        rw [hid]
        exact ⟨by decide, rfl⟩
      | false =>
        refine iff_of_false (not_allOrNothing_of_open d.cmdPort hnv hmem ?_) ?_
        · simp only [btseekwavePortClose, hclose]
          exact hstate
        · exact fun h => Bool.false_ne_true (h.2 hnv)

theorem openDevice_allOrNothing_iff (downloadNv : ℤ) :
    (openDevice maxChNum d downloadNv s).AllOrNothing d.ports ↔
      (CanOpen maxChNum s.ports d.cmdPort → (∀ id ∈ d.ports, CanOpen maxChNum s.ports id) ∧
        d.ports.Nodup ∧ d.serviceStart = some 0 ∧ (downloadNv ≠ 0 → d.closePort = true)) := by
  have hmem : d.cmdPort ∈ d.ports := List.mem_cons_self ..
  obtain ⟨done, hres, ⟨hcan, hnd, herr, rfl⟩ | ⟨hnot, herr, hhead⟩⟩ :=
    openPorts_spec maxChNum d.ports s.ports
  · rw [openDevice_of_opened downloadNv hcan (Prod.ext herr hres)]
    exact ⟨fun h _ => ⟨hcan, hnd, h⟩, fun h => (h (hcan _ hmem)).2.2⟩
  · have hrun : openDevice maxChNum d downloadNv s =
        ⟨(openPorts maxChNum d.ports s.ports).1, { s with ports := opened s.ports done }, done, false,
          false⟩ := by
      rw [openDevice]
      dsimp only
      rw [if_pos herr, (Prod.ext_iff.mp hres).1, (Prod.ext_iff.mp hres).2]
    rw [hrun]
    by_cases hcmd : CanOpen maxChNum s.ports d.cmdPort
    · have hdone : d.cmdPort ∈ done := (hhead _ rfl).1 hcmd
      refine iff_of_false (not_allOrNothing_of_open d.cmdPort herr.ne hdone ?_)
        fun h => hnot ⟨(h hcmd).1, (h hcmd).2.1⟩
      show (opened s.ports done d.cmdPort).state = .open
      rw [opened, if_pos hdone]
    · rw [(hhead _ rfl).2 hcmd]
      exact iff_of_true (allOrNothing_of_opened_nil herr.ne _ _) fun h => absurd h hcmd

end

/-- Opening is all or nothing exactly where the wait for a recovery does not time out, and where,
if the first port can be opened, the others can be too, the service starts, and ports can be closed
again when the NV file cannot be downloaded. -/
theorem btseekwaveOpen_allOrNothing_iff (maxChNum : ℕ) (pdata : Option BtOpenPlatform)
    (env : BtOpenEnv) (s : BtDevice) :
    (btseekwaveOpen maxChNum pdata env s).AllOrNothing
        ((pdata.map BtOpenPlatform.ports).getD []) ↔
      ¬(env.cmdReject = true ∧ env.waitEvent = 0) ∧
        ∀ d, pdata = some d → d.openPort = true → CanOpen maxChNum s.ports d.cmdPort →
          (∀ id ∈ d.ports, CanOpen maxChNum s.ports id) ∧ d.ports.Nodup ∧
            d.serviceStart = some 0 ∧ (env.downloadNv ≠ 0 → d.closePort = true) := by
  by_cases hwait : env.cmdReject = true ∧ env.waitEvent = 0
  · have hrun : btseekwaveOpen maxChNum pdata env s = ⟨0, s, [], false, false⟩ := if_pos hwait
    rw [hrun]
    refine iff_of_false ?_ fun h => h.1 hwait
    rintro (⟨-, -, h, -⟩ | ⟨h, -⟩)
    · cases h
    · exact h rfl
  · cases pdata with
    | none =>
      have hrun : btseekwaveOpen maxChNum none env s = ⟨-1, s, [], false, false⟩ := if_neg hwait
      rw [hrun]
      exact iff_of_true (allOrNothing_of_opened_nil (by decide) _ _)
        ⟨hwait, fun d h => by cases h⟩
    | some d =>
      by_cases hop : d.openPort = true
      · have hrun : btseekwaveOpen maxChNum (some d) env s =
            openDevice maxChNum d env.downloadNv s := (if_neg hwait).trans (if_neg (not_not.mpr hop))
        rw [hrun]
        show (openDevice maxChNum d env.downloadNv s).AllOrNothing d.ports ↔ _
        rw [openDevice_allOrNothing_iff]
        constructor
        · rintro h
          refine ⟨hwait, fun d' hd' _ => ?_⟩
          obtain rfl := Option.some.inj hd'
          exact h
        · exact fun h => h.2 d rfl hop
      · have hrun : btseekwaveOpen maxChNum (some d) env s = ⟨-1, s, [], false, false⟩ :=
          (if_neg hwait).trans (if_pos hop)
        rw [hrun]
        refine iff_of_true (allOrNothing_of_opened_nil (by decide) _ _)
          ⟨hwait, fun d' hd' h => absurd h ?_⟩
        obtain rfl := Option.some.inj hd'
        exact hop

def btPlatform : BtOpenPlatform := ⟨2, 3, 4, true, true, some 0, true⟩

def BtDevice.fresh : BtDevice := ⟨fun _ => ⟨.idle, false⟩, false, false⟩

def BtOpenEnv.ok : BtOpenEnv := ⟨false, 0, 0⟩

/-- What a first open leaves behind whose service does not start. -/
def unstarted : BtOpenResult :=
  btseekwaveOpen 8 (some { btPlatform with serviceStart := some (-1) }) .ok .fresh

/-- A service that does not start leaves the ports open, and the next open is refused. A wait that
times out returns 0 with nothing open. -/
theorem failed_open_stays_open :
    ¬unstarted.AllOrNothing btPlatform.ports ∧
    (btseekwaveOpen 8 (some btPlatform) .ok unstarted.device).ret = -EBUSY ∧
    (btseekwaveOpen 8 (some btPlatform) ⟨true, 0, 0⟩ .fresh).ret = 0 ∧
    ¬(btseekwaveOpen 8 (some btPlatform) ⟨true, 0, 0⟩ .fresh).AllOrNothing btPlatform.ports := by
  refine ⟨?_, by decide, by decide, ?_⟩
  · exact not_allOrNothing_of_open 2 (by decide) (by decide) (by decide)
  · rintro (⟨-, -, h, -⟩ | ⟨h, -⟩)
    · cases h
    · exact h rfl

end Skw
