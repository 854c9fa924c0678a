import Skw.Sdio.Except
import Skw.Sdio.Port
import Mathlib.Logic.Function.Basic

/-! One round of the receive thread in ADMA mode: page fragments are allocated for the packets to
come, the chip fills them, and each is freed or stored in the scatter list of a port, whose owner
gets it when the packets are dispatched. -/
namespace Skw

abbrev MAX_SG_COUNT : ℕ := 100
abbrev MAX_PAC_COUNT : ℕ := 72

/-- `max_ch_num` and `max_pac_size` of a chip, and two of its ports. -/
def CpVer.maxChNum : CpVer → ℕ
  | v10 => 8
  | v20 => 12

def CpVer.maxPacSize : CpVer → ℕ
  | v10 => 0x700
  | v20 => 0x600

def CpVer.loopcheckPort : CpVer → ℕ
  | v10 => 7
  | v20 => 1

def CpVer.logPort : CpVer → ℕ
  | v10 => 1
  | v20 => 9

/-- A packet that the chip has written to a fragment; `data` are the `len` bytes after the header. -/
structure RxPacket where
  eof : Bool
  channel : ℕ
  data : List (BitVec 8)
deriving DecidableEq

/-- The text of a control message starts with a name. -/
def RxPacket.says (k : RxPacket) (name : String) : Bool :=
  (name.toList.map fun c => BitVec.ofNat 8 c.toNat).isPrefixOf (k.data.drop 12)

/-- The fields of `sdio_port`, those of its ring apart. The flags say that a pointer is not NULL. -/
structure FragPort where
  ring : SdioPort
  sgRx : Bool
  rxData : Bool
  rxSubmit : Bool
  sgIndex : ℕ

/-- A fragment in a slot of the scatter list of a port. -/
structure FragSlot where
  port : ℕ
  slot : ℕ
  frag : ℕ
deriving DecidableEq

/-- The receive thread with the fragments that were freed and stored in its round, and how often the
scatter list of the round was freed. Fragments are numbered as they are allocated. -/
structure FragSdio where
  cpVer : CpVer
  cpState : ℕ
  powerOff : Bool
  remainPacket : ℕ
  rxNsize : ℕ
  ports : ℕ → FragPort
  freed : List ℕ
  stored : List FragSlot
  sgsFreed : ℕ

/-- What a round meets: the results of its allocations and of the read, and what was read. -/
structure RxRound where
  kzalloc : Bool
  allocFrag : ℕ → Bool
  readRet : ℤ
  packet : ℕ → RxPacket
  rxNsize : ℕ

namespace FragSdio

/-- `skw_page_frag_free`. -/
def free (s : FragSdio) (f : ℕ) : FragSdio := { s with freed := s.freed ++ [f] }

def setPort (s : FragSdio) (p : ℕ) (t : FragPort) : FragSdio :=
  { s with ports := Function.update s.ports p t }

/-- `sg_set_buf` of the next slot of a port. -/
def store (s : FragSdio) (p f : ℕ) : FragSdio :=
  { s.setPort p { s.ports p with sgIndex := (s.ports p).sgIndex + 1 } with
    stored := s.stored ++ [⟨p, (s.ports p).sgIndex, f⟩] }

/-- The packet as the ring of its port sees it. -/
def portPacket (s : FragSdio) (k : RxPacket) : PortPacket :=
  ⟨s.cpVer, true, k.channel = s.cpVer.logPort, k.data⟩

def setRing (s : FragSdio) (p : ℕ) (r : SdioPort) : FragSdio :=
  s.setPort p { s.ports p with ring := r }

/-- `rx_packet` and `rx_count`. -/
def countPacket (s : FragSdio) (k : RxPacket) : FragSdio :=
  s.setRing k.channel ((s.ports k.channel).ring.countPacket (s.portPacket k))

/-- DUMPDONE marks the first five ports that are open. -/
def assertRing (ver : CpVer) (i : ℕ) (r : SdioPort) : SdioPort :=
  if r.state = .idle ∨ r.state = .clse then r
  else
    { r with
      state := .asst
      nextSeqno := if ver = .v10 ∧ i = 0 ∨ i = 1 then 1 else r.nextSeqno }

def assertPorts (s : FragSdio) : FragSdio :=
  { s with ports := fun i =>
      if i < 5 then { s.ports i with ring := assertRing s.cpVer i (s.ports i).ring } else s.ports i }

/-- The version message of a chip that has crashed opens the first port again. -/
def reopenRing (r : SdioPort) : SdioPort :=
  if r.state = .asst then { r with state := .open } else r

/-- What a control message does to `cp_state` and the ports; a recovery that it starts is not
followed. -/
def control (s : FragSdio) (k : RxPacket) : FragSdio :=
  if k.data.length = 19 ∧ k.says "BTREADY" ∨ k.data.length = 21 ∧ k.says "WIFIREADY" then s
  else if k.says "BSPASSERT" then
    if s.cpState = DEVICE_BLOCKED_EVENT then s else { s with cpState := 1 }
  else if k.data.length = 20 ∧ k.says "DUMPDONE" then
    if s.cpState = DEVICE_BLOCKED_EVENT then s
    else { s.assertPorts with cpState := DEVICE_DUMPDONE_EVENT }
  else if k.says "trunk_W" then
    if s.cpState = 0 then s
    else { s.setRing 0 (reopenRing (s.ports 0).ring) with cpState := 0 }
  else s

/-- A packet for a port without a scatter list goes to `rx_submit` or to the ring. -/
def handleRing (s : FragSdio) (k : RxPacket) : FragSdio :=
  let r := (s.ports k.channel).ring
  if (s.ports k.channel).rxSubmit ∧ (s.ports k.channel).sgRx = false then
    s.setRing k.channel
      (if r.dropsLost (s.portPacket k) then r.countPacket (s.portPacket k)
      else (r.countPacket (s.portPacket k)).countSeqno (s.portPacket k))
  else s.setRing k.channel (r.handlePacket (s.portPacket k))

/-- The slots are full: the fragment is neither stored nor freed. -/
def storeOrDrop (s : FragSdio) (p f : ℕ) : FragSdio :=
  if MAX_SG_COUNT ≤ (s.ports p).sgIndex then s else s.store p f

/-- Whether a port has a scatter list for its packets: `skw_sdio_handle_packet` asks for `rx_data`
too, `skw_sdio2_handle_packet` does not. -/
def takesSg (ver : CpVer) (p : FragPort) : Bool :=
  match ver with
  | .v10 => p.sgRx && p.rxData
  | .v20 => p.sgRx

/-- `skw_sdio_handle_packet` and `skw_sdio2_handle_packet` for fragment `f`. -/
def handlePacket (s : FragSdio) (f : ℕ) (k : RxPacket) : FragSdio :=
  if s.cpVer.maxChNum ≤ k.channel then s
  else if k.channel = s.cpVer.loopcheckPort then ((s.countPacket k).control k).free f
  else if (s.ports k.channel).ring.state = .idle then (s.countPacket k).free f
  else if takesSg s.cpVer (s.ports k.channel) then (s.countPacket k).storeOrDrop k.channel f
  else (s.handleRing k).free f

/-- What `skw_sdio_adma_parser` and `skw_sdio2_adma_parser` do with one fragment. -/
def parsePacket (s : FragSdio) (f : ℕ) (k : RxPacket) : FragSdio :=
  if k.eof = false ∧ k.channel < s.cpVer.maxChNum ∧ k.data.length ≠ 0 then
    if s.cpVer.maxPacSize - 4 < k.data.length then s.free f else s.handlePacket f k
  else s.free f

/-- The parsers after `i` of the fragments. -/
def admaParser (s : FragSdio) (packet : ℕ → RxPacket) : ℕ → FragSdio
  | 0 => s
  | i + 1 => (s.admaParser packet i).parsePacket i (packet i)

/-- The loop of `skw_sdio_prepare_adma_buffer` from fragment `i` on: where it ends. -/
def allocFrags (allocFrag : ℕ → Bool) (i : ℕ) : ℕ → ℕ
  | 0 => i
  | m + 1 => if allocFrag i then allocFrags allocFrag (i + 1) m else i

/-- How many fragments `skw_sdio_prepare_adma_buffer` allocates. -/
def fragments (s : FragSdio) (r : RxRound) : ℕ :=
  if r.kzalloc then allocFrags r.allocFrag 0 (min s.remainPacket MAX_PAC_COUNT) else 0

def freeSgs (s : FragSdio) : FragSdio := { s with sgsFreed := s.sgsFreed + 1 }

/-- `skw_sdio_dispatch_packets`. -/
def dispatchPort (p : FragPort) : FragPort :=
  if p.ring.state ≠ .idle ∧ p.rxSubmit then { p with sgIndex := 0 } else p

def dispatchPackets (s : FragSdio) : FragSdio :=
  { s with ports := fun i =>
      if i < s.cpVer.maxChNum then dispatchPort (s.ports i) else s.ports i }

/-- `skw_sdio_adma_set_packet_num`. -/
def setPacketNum (s : FragSdio) (num : ℕ) : FragSdio :=
  { s with remainPacket := min MAX_SG_COUNT (max num 1) }

/-- The round up to `submit_packets`. -/
def readPackets (s : FragSdio) (r : RxRound) : FragSdio :=
  if r.kzalloc = false then s
  else if s.fragments r = 0 then s.freeSgs
  else if s.powerOff then { s.freeSgs with rxNsize := 0 }
  else if r.readRet ≠ 0 then s.freeSgs
  else { (s.admaParser r.packet (s.fragments r)).freeSgs with rxNsize := r.rxNsize }

def start (s : FragSdio) : FragSdio := { s with freed := [], stored := [], sgsFreed := 0 }

/-- A round, from `receive_again` to its end. -/
def receive (s : FragSdio) (r : RxRound) : FragSdio :=
  let t := (s.start.readPackets r).dispatchPackets
  { t.setPacketNum t.rxNsize with rxNsize := if t.powerOff then 0 else t.rxNsize }

/-- The receive thread at its start, with all ports closed. -/
def init (ver : CpVer) : FragSdio :=
  ⟨ver, 0, false, 1, 0,
    fun _ => ⟨⟨0, fun _ => 0, 0, 0, false, 0, .idle, 0, 0, 0, [], [], []⟩, false, false, false, 0⟩,
    [], [], 0⟩

/-- How often a fragment was freed or stored. -/
def copies (s : FragSdio) (f : ℕ) : ℕ :=
  s.freed.count f + (s.stored.map fun e => e.frag).count f

end FragSdio
end Skw
