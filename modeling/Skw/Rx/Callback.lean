import Skw.Lib.Sequence
import Skw.Kernel.Words

/-! `skw_rx_cb`, which the platform calls with a list of received buffers: acknowledgements go to the
command, events in sequence to the work of their interface, data to the rx thread. What becomes of
the buffers, and which events get through when some are lost on the way. -/
namespace Skw

abbrev SKW_MSG_CMD_ACK : ℕ := 1
abbrev SKW_MSG_EVENT : ℕ := 2
abbrev SKW_EVENT_CREDIT_UPDATE : ℕ := 16
abbrev SKW_ADMA_BUFF_LEN : ℕ := 4096

/-- `skw_msg`, without the length that nothing here looks at. -/
structure RxMsg where
  instId : ℕ
  type : ℕ
  id : ℕ
  seq : BitVec 16
deriving DecidableEq

def RxMsg.read (b : List (BitVec 8)) : RxMsg where
  instId := (b.getD 0 0).toNat % 16
  type := (b.getD 0 0).toNat / 16
  id := (b.getD 1 0).toNat
  seq := BitVec.ofNat 16 (leNat ((b.drop 2).take 2))

/-- An entry of the list: its buffer, and whether `dev_alloc_skb` or `build_skb` finds memory. -/
structure RxSg where
  buf : Ptr
  bytes : List (BitVec 8)
  alloc : Bool

/-- What a call of `skw_rx_cb` reads of the driver; an interface or the core takes events when its
work is enabled. -/
structure RxCbEnv where
  sdma : Bool
  bus : SkwBus
  port : ℕ
  cmdPort : ℕ
  skbShareLen : ℕ
  pnReuse : Bool
  dport : List ℕ
  lport : List ℕ
  iface : IfaceId → Bool
  enabled : Option IfaceId → Bool

/-- What the calls change. `fwAssert` is `SKW_FLAG_FW_ASSERT`; `passed` is a record of the events that
were in sequence. -/
structure RxPort where
  eventSn : BitVec 16
  fwAssert : Bool
  acks : List (List (BitVec 8))
  credits : List (List (BitVec 8))
  events : List (Option IfaceId × Ptr × List (BitVec 8))
  data : List (ℕ × Ptr × List (BitVec 8))
  rxPackets : ℕ
  freed : List Ptr
  passed : List RxMsg

namespace RxPort

def init : RxPort := ⟨0, false, [], [], [], [], 0, [], []⟩

def free (s : RxPort) (buf : Ptr) : RxPort := { s with freed := s.freed ++ [buf] }

end RxPort

/-- `skb_pull`, which leaves a frame that is too short. -/
def skbPull (n : ℕ) (b : List (BitVec 8)) : List (BitVec 8) := if n ≤ b.length then b.drop n else b

namespace RxCbEnv
variable (c : RxCbEnv)

/-- `skw_port_to_lmacid`. -/
def skwPortToLmacid (port : ℕ) (multiDport : Bool) : Option ℕ :=
  (if multiDport then c.dport else c.lport).findIdx? (· = port)

/-- Whether the entry becomes a frame. -/
def taken (sg : RxSg) : Bool :=
  sg.alloc && (c.sdma || roundUp sg.bytes.length 64 + c.skbShareLen ≤ SKW_ADMA_BUFF_LEN)

/-- The message of a frame of the command port. -/
def msgBytes (sg : RxSg) : Option (List (BitVec 8)) :=
  let b := if c.bus = .sdio then skbPull 4 sg.bytes else sg.bytes
  if 12 ≤ b.length then some (b.drop 12) else none

/-- `to_skw_iface`, and the work of the core where there is none. -/
def target (instId : ℕ) : Option IfaceId :=
  if h : instId < SKW_NR_IFACE then
    if c.iface ⟨instId, h⟩ then some ⟨instId, h⟩ else none
  else none

/-- An event: the count goes on whether or not it is the number that the event has. -/
def event (s : RxPort) (buf : Ptr) (msg : RxMsg) (data : List (BitVec 8)) : RxPort :=
  let s := { s with eventSn := s.eventSn + 1 }
  if s.eventSn ≠ msg.seq then { s with fwAssert := true }.free buf
  else
    let s := { s with passed := s.passed ++ [msg] }
    if msg.id = SKW_EVENT_CREDIT_UPDATE then
      { s with credits := s.credits ++ [data.drop 8] }.free buf
    else if c.enabled (c.target msg.instId) then
      { s with events := s.events ++ [(c.target msg.instId, buf, data)] }
    else s.free buf

/-- A frame of the command port. -/
def command (s : RxPort) (sg : RxSg) : RxPort :=
  match c.msgBytes sg with
  | none => s.free sg.buf
  | some data =>
    let msg := RxMsg.read data
    if msg.type = SKW_MSG_CMD_ACK then { s with acks := s.acks ++ [data] }.free sg.buf
    else if msg.type = SKW_MSG_EVENT then c.event s sg.buf msg data
    else s.free sg.buf

/-- A frame of a data port; on USB the first entry tells which one. -/
def dataFrame (usbDataPort : ℕ) (s : RxPort) (sg : RxSg) : RxPort :=
  let lmac := if c.bus = .usb then c.skwPortToLmacid usbDataPort false
    else c.skwPortToLmacid c.port true
  let b := if c.bus = .sdio ∧ ¬ c.pnReuse then skbPull 4 sg.bytes else sg.bytes
  match lmac with
  | none => s.free sg.buf
  | some lmac => { s with data := s.data ++ [(lmac, sg.buf, b)], rxPackets := s.rxPackets + 1 }

/-- A turn of the loop; without memory for a copy there is nothing to free. -/
def entry (usbDataPort : ℕ) (s : RxPort) (sg : RxSg) : RxPort :=
  if c.taken sg then
    if c.port = c.cmdPort then c.command s sg else c.dataFrame usbDataPort s sg
  else if c.sdma then s
  else s.free sg.buf

/-- Only the first entry of a list has the port on USB. -/
def usbDataPort : List RxSg → ℕ
  | [] => 0
  | sg :: _ => if c.bus = .usb then (sg.bytes.getD 8 0).toNat % 2 else 0

/-- The entries before the first empty one, which ends the loop. -/
def seen (sgs : List RxSg) : List RxSg := sgs.takeWhile fun sg => sg.bytes ≠ []

/-- `skw_rx_cb`. -/
def skwRxCb (s : RxPort) (sgs : List RxSg) : RxPort :=
  (seen sgs).foldl (c.entry (c.usbDataPort sgs)) s

/-- The calls of a run, in the states that they find. -/
def run (s : RxPort) (calls : List (RxCbEnv × List RxSg)) : RxPort :=
  calls.foldl (fun s call => call.1.skwRxCb s call.2) s

/-- The buffers of an entry list that the callback has to dispose of: in the mode with scattered
buffers all, else the copies that it made. -/
def owns (sg : RxSg) : Bool := c.taken sg || !c.sdma

def owned (sgs : List RxSg) : List Ptr := ((seen sgs).filter c.owns).map (·.buf)

end RxCbEnv

namespace RxPort

/-- The buffers that were freed or handed on. -/
def disposed (s : RxPort) : List Ptr :=
  s.freed ++ (s.events.map (·.2.1) ++ s.data.map (·.2.1))

variable {s : RxPort}

theorem disposed_free (s : RxPort) (buf : Ptr) : (s.free buf).disposed.Perm (s.disposed ++ [buf]) := by
  have hcomm : ([buf] ++ (s.events.map (·.2.1) ++ s.data.map (·.2.1))).Perm
      (s.events.map (·.2.1) ++ s.data.map (·.2.1) ++ [buf]) := List.perm_append_comm
  have h := hcomm.append_left s.freed
  simp only [disposed, free, List.append_assoc] at h ⊢
  exact h

end RxPort

namespace RxCbEnv
variable {c : RxCbEnv}

theorem disposed_event (s : RxPort) (buf : Ptr) (msg : RxMsg) (data : List (BitVec 8)) :
    (c.event s buf msg data).disposed.Perm (s.disposed ++ [buf]) := by
  unfold event
  simp only
  split
  · exact RxPort.disposed_free _ _
  · split
    · exact RxPort.disposed_free _ _
    · split
      · have hcomm : ([buf] ++ s.data.map (·.2.1)).Perm (s.data.map (·.2.1) ++ [buf]) :=
          List.perm_append_comm
        have h := (hcomm.append_left (s.events.map (·.2.1))).append_left s.freed
        simp only [RxPort.disposed, List.map_append, List.append_assoc] at h ⊢
        exact h
      · exact RxPort.disposed_free _ _

theorem disposed_command (s : RxPort) (sg : RxSg) :
    (c.command s sg).disposed.Perm (s.disposed ++ [sg.buf]) := by
  unfold command
  split
  · exact RxPort.disposed_free _ _
  · simp only
    split
    · exact RxPort.disposed_free _ _
    · split
      · exact disposed_event _ _ _ _
      · exact RxPort.disposed_free _ _

theorem disposed_dataFrame (usb : ℕ) (s : RxPort) (sg : RxSg) :
    (c.dataFrame usb s sg).disposed.Perm (s.disposed ++ [sg.buf]) := by
  unfold dataFrame
  simp only
  split
  · exact RxPort.disposed_free _ _
  · simp [RxPort.disposed]

/-- Every entry that the loop gets to is disposed of once. -/
theorem disposed_entry (usb : ℕ) (s : RxPort) (sg : RxSg) :
    (c.entry usb s sg).disposed.Perm (s.disposed ++ ([sg].filter c.owns).map (·.buf)) := by
  unfold entry
  cases ht : c.taken sg with
  | true =>
    have howns : c.owns sg = true := by rw [owns, ht, Bool.true_or]
    rw [if_pos rfl, List.filter_cons_of_pos howns]
    split
    · exact disposed_command s sg
    · exact disposed_dataFrame usb s sg
  | false =>
    rw [if_neg Bool.false_ne_true]
    cases hd : c.sdma with
    | true =>
      have howns : ¬ c.owns sg = true := by simp [owns, ht, hd]
      rw [if_pos rfl, List.filter_cons_of_neg howns]
      simp
    | false =>
      have howns : c.owns sg = true := by simp [owns, hd]
      rw [if_neg Bool.false_ne_true, List.filter_cons_of_pos howns]
      exact RxPort.disposed_free _ _

theorem disposed_skwRxCb (s : RxPort) (sgs : List RxSg) :
    (c.skwRxCb s sgs).disposed.Perm (s.disposed ++ c.owned sgs) := by
  unfold skwRxCb owned
  generalize seen sgs = l
  generalize c.usbDataPort sgs = usb
  induction l generalizing s with
  | nil => simp
  | cons sg l ih =>
    have hhead := disposed_entry (c := c) usb s sg
    have hrest := ih (c.entry usb s sg)
    rw [List.foldl_cons, ← List.singleton_append, List.filter_append, List.map_append,
      ← List.append_assoc]
    exact hrest.trans (hhead.append_right _)

theorem disposed_run (s : RxPort) (calls : List (RxCbEnv × List RxSg)) :
    (run s calls).disposed.Perm
      (s.disposed ++ calls.flatMap fun call => call.1.owned call.2) := by
  induction calls generalizing s with
  | nil => simp [run]
  | cons call calls ih =>
    have hrest := ih (call.1.skwRxCb s call.2)
    rw [List.flatMap_cons, ← List.append_assoc]
    exact hrest.trans ((disposed_skwRxCb s call.2).append_right _)

theorem length_owned (h : c.sdma = false) (sgs : List RxSg) :
    (c.owned sgs).length = (seen sgs).length := by
  have howns : ∀ sg, c.owns sg = true := fun sg => by simp [owns, h]
  rw [owned, List.length_map, List.filter_eq_self.mpr fun sg _ => howns sg]

/-- The loop gets to the end of a list exactly when none of its entries is empty. -/
theorem length_seen (sgs : List RxSg) :
    (seen sgs).length ≤ sgs.length ∧
      ((seen sgs).length = sgs.length ↔ ∀ sg ∈ sgs, sg.bytes ≠ []) := by
  unfold seen
  induction sgs with
  | nil => simp
  | cons sg sgs ih =>
    by_cases he : sg.bytes = []
    · simp [he]
    · rw [List.takeWhile_cons_of_pos (by simpa using he), List.length_cons, List.length_cons]
      obtain ⟨hle, hiff⟩ := ih
      refine ⟨by omega, ?_⟩
      rw [Nat.add_right_cancel_iff, hiff, List.forall_mem_cons]
      exact ⟨fun h => ⟨he, h⟩, fun h => h.2⟩

theorem length_owned_calls (calls : List (RxCbEnv × List RxSg))
    (hadma : ∀ call ∈ calls, call.1.sdma = false) :
    (calls.flatMap fun call => call.1.owned call.2).length ≤
        (calls.flatMap fun call => call.2.map (·.buf)).length ∧
      ((calls.flatMap fun call => call.1.owned call.2).length =
          (calls.flatMap fun call => call.2.map (·.buf)).length ↔
        ∀ call ∈ calls, ∀ sg ∈ call.2, sg.bytes ≠ []) := by
  induction calls with
  | nil => simp
  | cons call calls ih =>
    obtain ⟨hle, hiff⟩ := ih fun x hx => hadma x (List.mem_cons_of_mem _ hx)
    have hlen := length_owned (hadma call List.mem_cons_self) call.2
    obtain ⟨hle', hiff'⟩ := length_seen call.2
    simp only [List.flatMap_cons, List.length_append, List.length_map, List.forall_mem_cons, hlen]
    refine ⟨by omega, ?_⟩
    rw [← hiff, ← hiff']
    omega

/-- Every buffer of a run with scattered buffers is freed or handed on once, whatever it holds and
whichever memory is missing, exactly when no entry is empty: the loop leaves that and those behind. -/
theorem disposed_iff (calls : List (RxCbEnv × List RxSg))
    (hadma : ∀ call ∈ calls, call.1.sdma = false) :
    (run .init calls).disposed.Perm (calls.flatMap fun call => call.2.map (·.buf)) ↔
      ∀ call ∈ calls, ∀ sg ∈ call.2, sg.bytes ≠ [] := by
  have hrun := disposed_run .init calls
  have hinit : RxPort.init.disposed = [] := rfl
  rw [hinit, List.nil_append] at hrun
  obtain ⟨-, hiff⟩ := length_owned_calls calls hadma
  constructor
  · intro h
    exact hiff.mp (hrun.length_eq.symm.trans h.length_eq)
  · intro h
    have heq : (calls.flatMap fun call => call.1.owned call.2) =
        calls.flatMap fun call => call.2.map (·.buf) := by
      refine List.flatMap_congr fun call hcall => ?_
      have howns : ∀ sg, call.1.owns sg = true := fun sg => by
        simp [owns, hadma call hcall]
      have hseen : seen call.2 = call.2 :=
        (List.takeWhile_prefix _).eq_of_length ((length_seen call.2).2.mpr (h call hcall))
      rw [owned, hseen, List.filter_eq_self.mpr fun sg _ => howns sg]
    rw [← heq]
    exact hrun

/-- An event in a buffer of the SDIO command port. -/
def eventSg (buf : Ptr) (seq : BitVec 8) (alloc : Bool) : RxSg :=
  ⟨buf, List.replicate 16 0 ++ [0x20, 1, seq, 0, 8, 0, 0, 0], alloc⟩

def sdioCommands : RxCbEnv where
  sdma := false
  bus := .sdio
  port := 0
  cmdPort := 0
  skbShareLen := 320
  pnReuse := false
  dport := []
  lport := []
  iface _ := true
  enabled _ := true

/-- Of an empty entry between two events the buffer stays, and that of the second event. -/
theorem disposed_iff_empty : ¬ (run .init [(sdioCommands,
    [eventSg 1 1 true, ⟨2, [], true⟩, eventSg 3 2 true])]).disposed.Perm [1, 2, 3] := by
  intro h
  have hadma : ∀ call ∈ [(sdioCommands, [eventSg 1 1 true, ⟨2, [], true⟩, eventSg 3 2 true])],
      call.1.sdma = false := by
    intro call hcall
    rw [List.mem_singleton.mp hcall]
    rfl
  exact (disposed_iff _ hadma).mp h _ List.mem_cons_self ⟨2, [], true⟩ (by simp) rfl

/-- The event that lies in an entry of the command port. -/
def eventIn (c : RxCbEnv) (sg : RxSg) : Option RxMsg :=
  if c.port = c.cmdPort then
    ((c.msgBytes sg).map RxMsg.read).filter fun msg => msg.type = SKW_MSG_EVENT
  else none

def eventsIn (c : RxCbEnv) (l : List RxSg) (here : RxSg → Bool) : List (Bool × RxMsg) :=
  l.filterMap fun sg => (c.eventIn sg).map fun msg => (here sg, msg)

/-- The events of a list, each with whether the loop gets to it and it becomes a frame. -/
def eventsOf (c : RxCbEnv) (sgs : List RxSg) : List (Bool × RxMsg) :=
  c.eventsIn (seen sgs) c.taken ++
    c.eventsIn (sgs.dropWhile fun sg => sg.bytes ≠ []) fun _ => false

/-- `n` events have been counted, and those of the numbers `as` come next. -/
def Counts (s t : RxPort) (n : ℕ) (as : List RxMsg) : Prop :=
  t.eventSn = BitVec.ofNat 16 (n + as.length) ∧
    t.passed = s.passed ++ Lib.receive (2 ^ 16) (fun msg => msg.seq.toNat) n as

theorem Counts.trans {s t u : RxPort} {n : ℕ} {as bs : List RxMsg} (h : Counts s t n as)
    (h' : Counts t u (n + as.length) bs) : Counts s u n (as ++ bs) := by
  obtain ⟨-, hp⟩ := h
  obtain ⟨hs', hp'⟩ := h'
  refine ⟨?_, ?_⟩
  · rw [hs', List.length_append, Nat.add_assoc]
  · rw [hp', hp, Lib.receive_append, List.append_assoc]

theorem Counts.none {s t : RxPort} {n : ℕ} (h : s.eventSn = BitVec.ofNat 16 n)
    (hs : t.eventSn = s.eventSn) (hp : t.passed = s.passed) : Counts s t n [] := by
  refine ⟨hs.trans h, ?_⟩
  rw [hp, Lib.receive, List.append_nil]

theorem counts_event {s : RxPort} {n : ℕ} (h : s.eventSn = BitVec.ofNat 16 n) (buf : Ptr)
    (msg : RxMsg) (data : List (BitVec 8)) : Counts s (c.event s buf msg data) n [msg] := by
  have hsn : s.eventSn + 1 = BitVec.ofNat 16 (n + 1) := by
    rw [h, BitVec.ofNat_add]
    rfl
  have hpass : s.eventSn + 1 = msg.seq ↔ (n + 1) % 2 ^ 16 = msg.seq.toNat % 2 ^ 16 := by
    rw [hsn, ← BitVec.toNat_inj, BitVec.toNat_ofNat, Nat.mod_eq_of_lt msg.seq.isLt]
  unfold event
  simp only
  by_cases hseq : s.eventSn + 1 = msg.seq
  · have hreceive : Lib.receive (2 ^ 16) (fun msg : RxMsg => msg.seq.toNat) n [msg] = [msg] := by
      rw [Lib.receive, if_pos (hpass.mp hseq)]
      rfl
    rw [if_neg (not_not.mpr hseq)]
    refine ⟨?_, ?_⟩
    · split
      · exact hsn
      · split <;> exact hsn
    · rw [hreceive]
      split
      · rfl
      · split <;> rfl
  · have hreceive : Lib.receive (2 ^ 16) (fun msg : RxMsg => msg.seq.toNat) n [msg] = [] := by
      rw [Lib.receive, if_neg fun h => hseq (hpass.mpr h)]
      rfl
    rw [if_pos hseq]
    refine ⟨hsn, ?_⟩
    rw [hreceive, List.append_nil]
    rfl

theorem counts_command {s : RxPort} {n : ℕ} (h : s.eventSn = BitVec.ofNat 16 n)
    (hport : c.port = c.cmdPort) (sg : RxSg) :
    Counts s (c.command s sg) n (c.eventIn sg).toList := by
  unfold command
  cases hb : c.msgBytes sg with
  | none =>
    have hnone : c.eventIn sg = none := by simp [eventIn, hb]
    rw [hnone]
    exact .none h rfl rfl
  | some data =>
    simp only
    split
    · next hack =>
      have hnone : c.eventIn sg = none := by simp [eventIn, hb, hack, Option.filter]
      rw [hnone]
      exact .none h rfl rfl
    · split
      · next hev =>
        have hsome : c.eventIn sg = some (RxMsg.read data) := by
          simp [eventIn, hport, hb, hev, Option.filter]
        rw [hsome]
        exact counts_event h _ _ _
      · next hev =>
        have hnone : c.eventIn sg = none := by simp [eventIn, hb, hev, Option.filter]
        rw [hnone]
        exact .none h rfl rfl

theorem counts_entry {s : RxPort} {n : ℕ} (h : s.eventSn = BitVec.ofNat 16 n) (usb : ℕ)
    (sg : RxSg) :
    Counts s (c.entry usb s sg) n (Lib.arrived (c.eventsIn [sg] c.taken)) := by
  unfold entry
  cases ht : c.taken sg with
  | true =>
    rw [if_pos rfl]
    by_cases hport : c.port = c.cmdPort
    · have harrived : Lib.arrived (c.eventsIn [sg] c.taken) = (c.eventIn sg).toList := by
        cases he : c.eventIn sg <;> simp [eventsIn, Lib.arrived, he, ht]
      rw [if_pos hport, harrived]
      exact counts_command h hport sg
    · have harrived : Lib.arrived (c.eventsIn [sg] c.taken) = [] := by
        simp [eventsIn, Lib.arrived, eventIn, hport]
      rw [if_neg hport, harrived]
      unfold dataFrame
      simp only
      split <;> exact .none h rfl rfl
  | false =>
    have harrived : Lib.arrived (c.eventsIn [sg] c.taken) = [] := by
      cases he : c.eventIn sg <;> simp [eventsIn, Lib.arrived, he, ht]
    rw [if_neg Bool.false_ne_true, harrived]
    split <;> exact .none h rfl rfl

theorem counts_skwRxCb {s : RxPort} {n : ℕ} (h : s.eventSn = BitVec.ofNat 16 n)
    (sgs : List RxSg) : Counts s (c.skwRxCb s sgs) n (Lib.arrived (c.eventsOf sgs)) := by
  have hlost : Lib.arrived (c.eventsIn (sgs.dropWhile fun sg => sg.bytes ≠ []) fun _ => false) =
      [] := by
    simp [Lib.arrived, eventsIn, List.filter_eq_nil_iff]
  rw [eventsOf, Lib.arrived_append, hlost, List.append_nil]
  unfold skwRxCb
  generalize seen sgs = l
  generalize c.usbDataPort sgs = usb
  induction l generalizing s n with
  | nil => exact .none h rfl rfl
  | cons sg l ih =>
    have hhead := counts_entry (c := c) h usb sg
    have hsplit : c.eventsIn (sg :: l) c.taken = c.eventsIn [sg] c.taken ++ c.eventsIn l c.taken :=
      List.filterMap_append (l := [sg])
    rw [hsplit, Lib.arrived_append]
    exact hhead.trans (ih hhead.1)

/-- The events of the lists of a run. -/
def allEvents (calls : List (RxCbEnv × List RxSg)) : List (Bool × RxMsg) :=
  calls.flatMap fun call => call.1.eventsOf call.2

theorem counts_run {s : RxPort} {n : ℕ} (h : s.eventSn = BitVec.ofNat 16 n)
    (calls : List (RxCbEnv × List RxSg)) :
    Counts s (run s calls) n (Lib.arrived (allEvents calls)) := by
  induction calls generalizing s n with
  | nil => exact .none h rfl rfl
  | cons call calls ih =>
    have hhead := counts_skwRxCb (c := call.1) h call.2
    rw [allEvents, List.flatMap_cons, Lib.arrived_append]
    exact hhead.trans (ih hhead.1)

/-- The firmware numbers its events from one. Of all that come in a run of calls, in whatever lists
and with whatever between them, an event passes exactly if it becomes a frame and a multiple of 65536
events before it did not: of one that was lost, be it that the driver found no memory for it, the
later ones are dropped too. -/
theorem passed_run (calls : List (RxCbEnv × List RxSg))
    (hnum : ∀ i (h : i < (allEvents calls).length),
      (allEvents calls)[i].2.seq = BitVec.ofNat 16 (i + 1)) :
    (run .init calls).passed = Lib.inStep (2 ^ 16) 0 (allEvents calls) ∧
      (((allEvents calls).filter (!·.1)).length < 2 ^ 16 →
        (run .init calls).passed = ((allEvents calls).takeWhile (·.1)).map (·.2)) := by
  have hcounts := counts_run (s := .init) (n := 0) rfl calls
  generalize allEvents calls = all at hnum hcounts ⊢
  have hreceive : Lib.receive (2 ^ 16) (fun msg : RxMsg => msg.seq.toNat) 0 (Lib.arrived all) =
      Lib.inStep (2 ^ 16) 0 all := by
    refine Lib.receive_arrived 0 0 fun i h => ?_
    rw [hnum i h, BitVec.toNat_ofNat, Nat.mod_mod]
    congr 1
    omega
  have hpassed : (run .init calls).passed = Lib.inStep (2 ^ 16) 0 all := by
    rw [hcounts.2, hreceive]
    rfl
  refine ⟨hpassed, fun hfew => ?_⟩
  rw [hpassed, Lib.inStep_of_lt hfew]

/-- The second of three finds no memory: the third is dropped. -/
theorem passed_run_second :
    (run .init [(sdioCommands, [eventSg 1 1 true, eventSg 2 2 false]),
      (sdioCommands, [eventSg 3 3 true])]).passed = [⟨0, 2, 1, 1⟩] :=
  ((passed_run _ (by decide)).2 (by decide)).trans (by decide)

end RxCbEnv
end Skw
