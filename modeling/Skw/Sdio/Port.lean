import Skw.Kernel.Types
import Skw.Lib.Machine
import Skw.Lib.Ring

/-! A port of the SDIO bus whose packets go to a ring that `sdio_read` empties. -/
namespace Skw

inductive PortState
  | idle
  | open
  | clse
  | asst
deriving DecidableEq

/-- The two packet formats, `SKW_SDIO_V10` and the other one. -/
inductive CpVer
  | v10
  | v20
deriving DecidableEq

/-- The fields of `sdio_port` for a port without `rx_submit` and `sg_rx`, with the payloads that
were stored, the bytes that were read and the pieces (offset and length) of `read_buffer` that
were accessed. -/
structure SdioPort where
  length : ℕ
  readBuffer : ℕ → BitVec 8
  rxRp : ℕ
  rxWp : ℕ
  rxFlowCtrl : Bool
  txFlowCtrl : ℤ
  state : PortState
  nextSeqno : ℕ
  rxPacket : ℕ
  rxCount : ℕ
  stored : List (BitVec 8)
  taken : List (BitVec 8)
  touched : List (ℕ × ℕ)

/-- A packet for the port, without its four header bytes. -/
structure PortPacket where
  ver : CpVer
  admaRxEnable : Bool
  isLogPort : Bool
  data : List (BitVec 8)

/-- How a `sdio_read` call ends. -/
inductive ReadExit
  | assertedBefore
  | emptyAndClosed
  | interrupted (ret : ℤ)
  | timedOut
  | closedWhileWaiting
  | assertedWhileWaiting
  | data
deriving DecidableEq

/-- A `sdio_read` call where it ends; `needsBt` says that the port is served by the Bluetooth
service, and `btService` that this runs. -/
structure ReadCall where
  size : ℕ
  size_pos : 0 < size
  isLogPort : Bool
  needsBt : Bool
  btService : Bool
  cpState : ℕ
  ends : ReadExit

/-- `setState` is what other functions do to `port->state`. -/
inductive PortCall
  | handlePacket (k : PortPacket)
  | read (c : ReadCall)
  | setState (st : PortState)

abbrev ENOTCONN : ℤ := 107

/-- `data[2] & 0xffff` of a packet. -/
def PortPacket.seqno (k : PortPacket) : ℕ := (k.data.getD 8 0).toNat + 256 * (k.data.getD 9 0).toNat

/-- What is left of a packet for the ring. -/
def PortPacket.payload (k : PortPacket) : List (BitVec 8) :=
  if 12 ≤ k.data.length then k.data.drop 12 else k.data

namespace SdioPort

def used (p : SdioPort) : ℕ := (p.length + p.rxWp - p.rxRp) % p.length

def bufSize (p : SdioPort) : ℕ := p.length - 1 - p.used

def touch (p : SdioPort) (l : List (ℕ × ℕ)) : SdioPort := { p with touched := p.touched ++ l }

/-- The bytes up to the end of the ring, for the writer and for the reader. -/
def wpToEnd (p : SdioPort) : ℕ := p.length - p.rxWp

def rpToEnd (p : SdioPort) : ℕ := p.length - p.rxRp

/-- The copies of a packet to the ring. -/
def writeRing (p : SdioPort) (addr : List (BitVec 8)) : SdioPort :=
  if addr.length < p.wpToEnd then
    { p.touch [(p.rxWp, addr.length)] with
      readBuffer := Lib.store p.readBuffer p.rxWp addr
      rxWp := p.rxWp + addr.length
      stored := p.stored ++ addr }
  else
    { p.touch [(p.rxWp, p.wpToEnd), (0, addr.length - p.wpToEnd)] with
      readBuffer :=
        Lib.store (Lib.store p.readBuffer p.rxWp (addr.take p.wpToEnd)) 0 (addr.drop p.wpToEnd)
      rxWp := addr.length - p.wpToEnd
      stored := p.stored ++ addr }

/-- The first version drops what does not carry the next number, the second one takes it over. -/
def dropsLost (p : SdioPort) (k : PortPacket) : Bool :=
  k.ver = .v10 && k.seqno != p.nextSeqno && decide (12 < k.data.length) && !k.isLogPort

def countSeqno (p : SdioPort) (k : PortPacket) : SdioPort :=
  if 12 < k.data.length then
    { p with nextSeqno := ((if k.ver = .v20 then k.seqno else p.nextSeqno) + 1) % 65536 }
  else if k.data.length = 12 then { p with txFlowCtrl := p.txFlowCtrl - 1 }
  else p

/-- The host tells the chip to pause when less than a third of the ring is left. -/
def pauseIfFull (p : SdioPort) (left : ℕ) : SdioPort :=
  if !p.rxFlowCtrl && decide (left < p.length / 3) then { p with rxFlowCtrl := true } else p

def countPacket (p : SdioPort) (k : PortPacket) : SdioPort :=
  { p with rxPacket := p.rxPacket + 1, rxCount := p.rxCount + k.data.length }

/-- What is left of a packet goes to the ring if it fits. -/
def storePayload (p : SdioPort) (addr : List (BitVec 8)) : SdioPort :=
  if p.bufSize < addr.length then p
  else if p.state ≠ .idle ∧ addr ≠ [] then
    (p.writeRing addr).pauseIfFull (p.bufSize - addr.length)
  else p

/-- `skw_sdio_handle_packet` and `skw_sdio2_handle_packet` behind the control channel. -/
def handlePacket (p : SdioPort) (k : PortPacket) : SdioPort :=
  if p.state = .idle ∧ k.admaRxEnable then p.countPacket k
  else if p.dropsLost k then p.countPacket k
  else ((p.countPacket k).countSeqno k).storePayload k.payload

/-- The copies from the ring to the reader's buffer. -/
def takeRing (p : SdioPort) (size : ℕ) : SdioPort :=
  if p.rpToEnd < size then
    { p.touch [(p.rxRp, p.rpToEnd), (0, size - p.rpToEnd)] with
      rxRp := size - p.rpToEnd
      taken := p.taken ++
        (Lib.load p.readBuffer p.rxRp p.rpToEnd ++ Lib.load p.readBuffer 0 (size - p.rpToEnd)) }
  else
    { p.touch [(p.rxRp, size)] with
      rxRp := p.rxRp + size
      taken := p.taken ++ Lib.load p.readBuffer p.rxRp size }

/-- The reader's index at the end of the ring is that of its start. -/
def wrapRp (p : SdioPort) : SdioPort := if p.rxRp = p.length then { p with rxRp := 0 } else p

/-- Both indices go back to the start of the ring when they meet. -/
def rewind (p : SdioPort) : SdioPort :=
  if p.rxRp = p.rxWp then { p with rxRp := 0, rxWp := 0 } else p

/-- The chip goes on when more than two thirds of the ring are left. -/
def resumeIfDrained (p : SdioPort) : SdioPort :=
  if p.rxFlowCtrl && decide (p.length * 2 / 3 < p.bufSize) then { p with rxFlowCtrl := false } else p

/-- `sdio_read` finds that the chip has crashed. -/
def readAsserted (p : SdioPort) (c : ReadCall) : Option (SdioPort × ℤ) :=
  if p.state = .asst ∧ c.cpState ≠ 0 then
    some ({ p with state := if c.isLogPort then .open else p.state }, -ENOTCONN)
  else none

/-- What `sdio_read` does with `rx_mutex` held. -/
def readData (p : SdioPort) (size : ℕ) : SdioPort × ℤ :=
  ((p.takeRing (min size p.used)).wrapRp.rewind.resumeIfDrained, min size p.used)

/-- `sdio_read` with the result that it returns; it waits where there is none. -/
def read (p : SdioPort) (c : ReadCall) : Option (SdioPort × ℤ) :=
  match c.ends with
  | .assertedBefore => p.readAsserted c
  | .emptyAndClosed =>
    if p.rxWp = p.rxRp ∧ (p.state = .clse ∨ c.needsBt ∧ !c.btService) then some (p, - EIO) else none
  | .interrupted ret => some (p, ret)
  | .timedOut => some (p, 0)
  | .closedWhileWaiting =>
    if p.state = .clse then some ({ p with state := .idle }, -EAGAIN) else none
  | .assertedWhileWaiting => p.readAsserted c
  | .data => if p.used = 0 then none else some (p.readData c.size)

def step (p : SdioPort) : PortCall → Option SdioPort
  | .handlePacket k => some (p.handlePacket k)
  | .read c => (p.read c).map Prod.fst
  | .setState st => some { p with state := st }

/-- The port after `open_sdio_port`. -/
def opened (length : ℕ) (readBuffer : ℕ → BitVec 8) (nextSeqno : ℕ) : SdioPort :=
  ⟨length, readBuffer, 0, 0, false, 0, .open, nextSeqno, 0, 0, [], [], []⟩

end SdioPort
end Skw
