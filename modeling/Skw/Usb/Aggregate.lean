import Skw.Kernel.Str
import Skw.Kernel.Words
import Skw.Lib.Fixed
import Skw.Lib.Layout
import Skw.Lib.Loop

/-! How `usb_handle` splits what a transfer brought into packets, and which port gets them. Each
packet tells its length, and a flag in the first one decides on the port for all of them. -/
namespace Skw
open Lib (Fixed Pass Span Laid layoutEnd spans)

/-- `wifi_pdata.cmd_port` and `wifi_pdata.data_port`, two different ports -/
inductive WifiPort
  | cmd
  | data
deriving DecidableEq

/-- What `usb_handle` finds apart from the transfer. What others change meanwhile may be another
one at each packet. -/
structure HandleEnv where
  skwChipid : Str
  maxPacketCount : BitVec 16
  clsRecoveryModeEn : Bool
  cpState : ℕ → BitVec 32
  jiffies : ℕ → BitVec 64
  rxSubmit : WifiPort → Bool

namespace HandleEnv

/-! What `usb_port_async_entry` makes of the packet count of the port -/

def mpc (env : HandleEnv) : ℕ := if env.maxPacketCount ≠ 0 then env.maxPacketCount.toNat else 2

def nrSgs (env : HandleEnv) : ℕ := env.mpc + 1

/-- The size of the buffers from `usb_port_alloc_recv_urbs` -/
def bufferSize (env : HandleEnv) : ℕ := if env.mpc ≤ 13 then 20 * 1024 else 24 * 1024

def dataFlag (env : HandleEnv) : BitVec 32 :=
  if (str "SV6316").isPrefixOf env.skwChipid ∨ env.skwChipid = [] ∨
      (str "SV6160LITE").isPrefixOf env.skwChipid then 2
  else 0x8000

end HandleEnv

/-- A URB whose transfer is done. -/
structure DoneUrb (env : HandleEnv) where
  transferBuffer : Fixed (BitVec 8) env.bufferSize
  actualLength : ℕ
  actualLength_le : actualLength ≤ env.bufferSize

/-- What is kept of the packets seen; the last two hold 12 octets each. -/
structure RxSeen where
  transferIndex : BitVec 16
  lastAckTime : BitVec 64
  lastRecvWifiAck : List (BitVec 8)
  lastRecvWifiEvt : List (BitVec 8)

/-- The packet loop. `touched` collects what is read of the buffer, each an offset and a size. -/
structure RxSplit where
  offset : ℕ
  sgCount : ℕ
  sgs : List Span
  isCmd : Bool
  asserted : Bool
  seen : RxSeen
  touched : List (ℕ × ℕ)

/-- `size` as the loop computes it from `data[2]` -/
def aggSize (w : BitVec 32) : BitVec 32 := (w.sshiftRight 16 + 3#32) &&& 0xfffffffc#32

namespace DoneUrb
variable {env : HandleEnv}

def octets (u : DoneUrb env) (i n : ℕ) : List (BitVec 8) := (u.transferBuffer.cells.drop i).take n

/-- The word at an offset. -/
def word (u : DoneUrb env) (i : ℕ) : BitVec 32 := BitVec.ofNat 32 (leNat (u.octets i 4))

def Flagged (u : DoneUrb env) (a : ℕ) : Prop := u.word (a + 8) &&& env.dataFlag ≠ 0

instance (u : DoneUrb env) (a : ℕ) : Decidable (u.Flagged a) := inferInstanceAs (Decidable (_ ≠ _))

/-- The copy of a command's header, for a report -/
def note (u : DoneUrb env) (s : RxSplit) (a : ℕ) : RxSplit :=
  if s.isCmd ∧ env.cpState s.sgCount = 0 then
    let seen :=
      if u.word (a + 12) &&& 0xff = 0x10 then
        { s.seen with
          lastAckTime := env.jiffies s.sgCount, lastRecvWifiAck := u.octets (a + 4) 12 }
      else { s.seen with lastRecvWifiEvt := u.octets (a + 4) 12 }
    { s with seen := seen, touched := (a + 12, 4) :: (a + 4, 12) :: s.touched }
  else s

/-- The report of a packet whose size is invalid -/
def report (_ : DoneUrb env) (s : RxSplit) : RxSplit :=
  if env.clsRecoveryModeEn then
    { s with asserted := true, touched := (s.offset + 12, 1) :: s.touched }
  else s

/-- The flag comes too late, behind a packet that has none. -/
def Late (u : DoneUrb env) (s : RxSplit) : Prop :=
  u.Flagged s.offset ∧ 1 < s.sgCount + 1 ∧ s.isCmd = false

instance (u : DoneUrb env) (s : RxSplit) : Decidable (u.Late s) :=
  inferInstanceAs (Decidable (_ ∧ _))

/-- The size of the next packet -/
def size (u : DoneUrb env) (s : RxSplit) : BitVec 32 :=
  if u.Late s then -1 else aggSize (u.word (s.offset + 8))

/-- `data[2]` is read, and with it the flag. -/
def readFlag (u : DoneUrb env) (s : RxSplit) : RxSplit :=
  { s with
    isCmd := s.isCmd || decide (u.Flagged s.offset ∧ ¬u.Late s)
    touched := (s.offset + 8, 4) :: s.touched }

/-- `sg_set_buf` -/
def setBuf (s : RxSplit) (size : ℕ) : RxSplit :=
  { s with
    sgCount := s.sgCount + 1
    sgs := s.sgs ++ [⟨s.offset, size⟩]
    offset := s.offset + size }

/-- One pass of the packet loop; where it leaves the loop, `sg_count` is what it was before. -/
def pass (u : DoneUrb env) (s : RxSplit) : Pass RxSplit :=
  if u.actualLength ≤ s.offset + 12 then .done s
  else if env.nrSgs < s.sgCount + 1 then .done s
  else
    let size := (u.size s).toInt
    if u.actualLength < size + s.offset ∨ 2048 < size ∨ size ≤ 12 then
      .done (u.report (u.readFlag s))
    else .next (u.note (setBuf (u.readFlag s) size.toNat) s.offset)

/-- The packet loop begins, `data[0]` being read. -/
def start (u : DoneUrb env) (seen : RxSeen) : RxSplit where
  offset := 0
  sgCount := 0
  sgs := []
  isCmd := false
  asserted := false
  seen :=
    if u.word 0 &&& 0x80000000 ≠ 0 then
      { seen with transferIndex := (u.word 0).setWidth 16 + 1 }
    else seen
  touched := [(0, 4)]

end DoneUrb

/-- What `usb_handle` has done about a transfer. -/
structure Handled where
  submitted : Option (WifiPort × List Span)
  rxPacketCount : WifiPort → BitVec 32
  asserted : Bool
  seen : RxSeen
  touched : List (ℕ × ℕ)

def RxSplit.port (s : RxSplit) : WifiPort := if s.isCmd then .cmd else .data

/-- The packets go to the port if that has a callback. -/
def RxSplit.submit (env : HandleEnv) (rxPacketCount : WifiPort → BitVec 32) (s : RxSplit) :
    Handled where
  submitted := if env.rxSubmit s.port then some (s.port, s.sgs.take s.sgCount) else none
  rxPacketCount := fun p =>
    if p = s.port then rxPacketCount p + BitVec.ofNat 32 s.sgCount else rxPacketCount p
  asserted := s.asserted
  seen := s.seen
  touched := s.touched

/-- `usb_handle` for one URB of a port that has `rx_submit`, if the packet loop ends within `fuel`
passes -/
def usbHandle {env : HandleEnv} (fuel : ℕ) (u : DoneUrb env) (seen : RxSeen)
    (rxPacketCount : WifiPort → BitVec 32) : Option Handled :=
  (Lib.loop u.pass fuel (u.start seen)).map (RxSplit.submit env rxPacketCount)

end Skw
