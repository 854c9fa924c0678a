import Skw.Kernel.Skb
import Skw.Kernel.Words
import Skw.Lib.Bitfield
import Skw.Tx.Room

/-! `skw_ndo_xmit`, from the frame that the stack hands over to a queue of the interface, to a
command or back to the stack. The frame is classified by its headers, gets the descriptor that the
firmware reads in front of it, and goes to a queue; what the firmware filters goes as a command. -/
namespace Skw

abbrev ETH_HLEN : ℕ := 14
abbrev ETH_P_IP : ℕ := 0x0800
abbrev ETH_P_ARP : ℕ := 0x0806
abbrev ETH_P_IPV6 : ℕ := 0x86DD
abbrev ETH_P_TDLS : ℕ := 0x890D
abbrev ETH_P_802_3_MIN : ℕ := 0x0600
abbrev SKW_MSDU_FILTER_WAPI : ℕ := 4
abbrev SKW_MSDU_FILTER_EAP : ℕ := 5
abbrev SKW_ETHER_FRAME : ℕ := 0
abbrev SKW_DATA_ALIGN_MASK : ℕ := 3
abbrev SKW_TXQ_HIGH_THRESHOLD : ℕ := 768

/-- `skw_tx_desc_hdr` with the values that are stored into its bit-fields. -/
structure TxDescHdr where
  paddingGap : ℕ
  inst : ℕ
  tid : ℕ
  peerLut : ℕ
  frameType : ℕ
  encryDis : ℕ
  rate : ℕ
  msduLen : ℕ
  lmacId : ℕ
  ethType : List (BitVec 8)

/-- `skw_tx_desc_conf`. -/
structure TxDescConf where
  l4HdrOffset : ℕ
  csum : ℕ
  ipProt : ℕ

/-- The bytes once the fields are stored; `rsv` keeps the bits that were there. -/
def TxDescHdr.bytes (h : TxDescHdr) (rsv : ℕ) : List (BitVec 8) :=
  le16 (BitVec.ofNat 16 (Lib.packBits [(2, h.paddingGap), (2, h.inst), (4, h.tid), (5, h.peerLut),
    (1, h.frameType), (1, h.encryDis), (1, h.rate)])) ++
  le16 (BitVec.ofNat 16 (Lib.packBits [(12, h.msduLen), (2, h.lmacId), (2, rsv)])) ++ h.ethType

def TxDescConf.bytes (c : TxDescConf) (rsv : ℕ) : List (BitVec 8) :=
  le16 (BitVec.ofNat 16 (Lib.packBits [(10, c.l4HdrOffset), (1, c.csum), (1, c.ipProt), (4, rsv)]))

/-- `SKW_EXPAND_SIZE`. -/
def expandSize (x y : ℕ) : ℕ := if x > y then x - y else 0

/-- `PTR_ALIGN`, with any alignment. -/
def ptrAlign (p a : ℕ) : ℕ := p + (a - 1) - ((p + (a - 1)) &&& (a - 1))

def WmmAc.next : WmmAc → WmmAc
  | vo => vi
  | vi => be
  | be => bk
  | bk => bk

/-- Three turns of the loop reach the last category. -/
def skwDowngradeAc (acm : WmmAc → Bool) (ac : WmmAc) : WmmAc :=
  (fun ac => if acm ac then ac.next else ac)^[3] ac

def skwUpToAc : Fin 8 → WmmAc := ![.be, .bk, .bk, .be, .vi, .vi, .vo, .vo]

def tidMap : WmmAc → ℕ
  | .vo => 6
  | .vi => 4
  | .be => 0
  | .bk => 1

/-- What the function reads of a bound peer context; `txba` is `bitmap | blacklist`. -/
structure CtxEntry where
  idx : ℕ
  completed : Bool
  txba : BitVec 8
  rxFilter : BitVec 32

/-- The queues of an interface; the last is `SKW_ACK_TXQ`. -/
inductive TxQid
  | ac (ac : WmmAc)
  | ack
deriving DecidableEq

/-- What the function finds: the driver's state, and what the allocators and the command return.
Frames come after `skb_linearize`, and `credit` is whether `skw_get_hw_credit` is not zero. -/
structure XmitEnv where
  bus : SkwBus
  hwAlign : ℕ
  dmaAddrAlign : ℕ
  iftype : Iftype
  ifaceId : ℕ
  lmacId : ℕ
  bridgePort : Bool
  repeater : Bool
  fwFilterArp : Bool
  acm : WmmAc → Bool
  entryOf : List (BitVec 8) → Option CtxEntry
  activedCtx : ℕ
  bssEntry : Option CtxEntry
  staCompleted : Bool
  defaultMulticast : BitVec 16
  linearizeFails : Bool
  arpCreate : Option SkBuff
  netdevAlloc : Option (KBuf × Ptr × ℕ)
  expandHead : Option KBuf
  trySend : ℤ
  credit : Bool
  queued : TxQid → ℕ
  cached : TxQid → ℕ
  timerPending : Bool
  stopped : TxQid → Bool

/-- What became of the frame with its descriptor. -/
inductive XmitTo
  | queue (q : TxQid)
  | command
  | work
deriving DecidableEq

/-- What a call did: what it returned, the buffers it made and freed, the frame with its descriptor
and where it went, the block acknowledgement it asked for, when it wakes the worker (in
milliseconds), whether it stops the queue and counts a drop. `back` is the frame as the stack has it
again. -/
structure XmitOut where
  busy : Bool
  made : List Ptr
  freed : List Ptr
  sent : Option (XmitTo × SkBuff)
  back : Option SkBuff
  dropped : Bool
  setupTxba : Option (ℕ × ℕ)
  arpOf : Option (List (BitVec 8) × List (BitVec 8))
  wake : Option ℕ
  stop : Bool

/-- The frame with what its headers say. -/
structure XmitClass where
  skb : SkBuff
  made : List Ptr
  freed : List Ptr
  msduLen : ℕ
  doCsum : Bool
  l4HdrOffset : ℕ
  prot : ℕ
  pureTcpAck : Bool
  fixedRate : Bool
  protFilter : Bool
  udpFilter : Bool
  frame8023 : Bool
  dataProtMap : BitVec 32

/-- What the look for the peer finds. -/
structure XmitPeer where
  entry : Option CtxEntry
  peerIndex : ℕ
  fixedRate : Bool
  completed : Bool

/-- The buffer that gets the descriptor, with the frame it is a copy of (`pre_skb`), and what is
missing in front of it and behind it. -/
structure XmitRoom where
  skb : SkBuff
  pre : Option SkBuff
  made : List Ptr
  freed : List Ptr
  padding : ℕ
  needDescHdr : Bool
  nhead : ℕ
  ntail : ℕ

/-- Whether the firmware gets the frame as a command. -/
def XmitClass.txFilter (c : XmitClass) : Bool := c.protFilter || c.udpFilter || c.frame8023

namespace SkBuff

/-- `ip_hdr(skb)->protocol` and the lengths of the headers. -/
def ipProtocol (s : SkBuff) : ℕ := s.octet (s.networkHeader + 9)

def ipHdrlen (s : SkBuff) : ℕ := 4 * (s.octet s.networkHeader % 16)

def tcpHdrlen (s : SkBuff) : ℕ := 4 * (s.octet (s.transportHeader + 12) / 16)

def isSkwTcpPureAck (s : SkBuff) : Bool :=
  Nat.testBit (s.octet (s.transportHeader + 13)) 4 &&
    s.be16 (s.networkHeader + 2) = s.ipHdrlen + s.tcpHdrlen

/-- `skw_udp_filter`; on a port of a bridge the server is asked to answer by broadcast. -/
def skwUdpFilter (bridgePort : Bool) (s : SkBuff) : Bool × SkBuff :=
  let dest := s.be16 (s.transportHeader + 2)
  if dest = 68 ∨ dest = 67 then
    (true,
      if bridgePort then
        ((s.poke (s.transportHeader + 18) 0x80).poke (s.transportHeader + 6) 0).poke
          (s.transportHeader + 7) 0
      else s)
  else (dest = 546 ∨ dest = 547, s)

end SkBuff

namespace XmitEnv
variable (e : XmitEnv)

def isStaMode : Bool := e.iftype = .station || e.iftype = .p2pClient

/-- A frame as it comes. -/
def unclassified (skb : SkBuff) : XmitClass where
  skb := skb
  made := []
  freed := []
  msduLen := skb.data.length
  doCsum := skb.csumStart.isSome
  l4HdrOffset := skb.csumStart.getD 0 - skb.front.length
  prot := 0
  pureTcpAck := false
  fixedRate := false
  protFilter := false
  udpFilter := false
  frame8023 := false
  dataProtMap := 0

/-- An ARP frame of a station behind a repeater, which is sent as the repeater's own. -/
def replaces (skb : SkBuff) : Bool :=
  skb.ethType = ETH_P_ARP && e.repeater && e.bridgePort && e.iftype = .station

/-- The peer whose address and `ip_addr` are learned from such a frame. -/
def arpOf (skb : SkBuff) : Option (List (BitVec 8) × List (BitVec 8)) :=
  let sha := (skb.data.drop 22).take 6
  if e.replaces skb then (e.entryOf sha).map fun _ => (sha, (skb.data.drop 28).take 4) else none

def arpFrame (skb : SkBuff) : Option XmitClass :=
  let c := { unclassified skb with protFilter := e.fwFilterArp, fixedRate := e.isStaMode }
  if e.replaces skb then
    e.arpCreate.map fun arp => { c with skb := arp, made := [arp.id], freed := [skb.id] }
  else some c

/-- The `switch` on `h_proto`; `none` when no ARP frame could be made. With it goes the offset of
the transport header. -/
def etherType (skb : SkBuff) : Option (XmitClass × ℕ) :=
  let c := unclassified skb
  if skb.ethType = ETH_P_IP then
    some ({ c with
      prot := skb.ipProtocol
      pureTcpAck := decide (skb.ipProtocol = IPPROTO_TCP.toNat) && skb.isSkwTcpPureAck },
      ETH_HLEN + skb.ipHdrlen)
  else if skb.ethType = ETH_P_IPV6 then
    some ({ c with prot := skb.octet (skb.networkHeader + 6) }, ETH_HLEN + 40)
  else if skb.ethType = ETH_P_ARP then (e.arpFrame skb).map fun c => (c, 0)
  else if skb.ethType = ETH_P_PAE then
    some ({ c with
      protFilter := true
      dataProtMap := BitVec.twoPow 32 SKW_MSDU_FILTER_EAP }, 0)
  else if skb.ethType = SKW_ETH_P_WAPI then
    some ({ c with
      protFilter := true
      dataProtMap := BitVec.twoPow 32 SKW_MSDU_FILTER_WAPI }, 0)
  else if skb.ethType = ETH_P_TDLS then some ({ c with protFilter := true }, 0)
  -- the type is compared in the order it has on the wire
  else
    let raw := (skb.data.getD 12 0).toNat + 256 * (skb.data.getD 13 0).toNat
    some ({ c with frame8023 := raw < ETH_P_802_3_MIN }, 0)

/-- `skb_set_transport_header`, unless the checksum already tells where it is. -/
def setTransportHeader (c : XmitClass) (resetL4Offset : ℕ) : SkBuff :=
  if !c.doCsum && (c.prot = IPPROTO_UDP || c.prot = IPPROTO_TCP.toNat) then
    { c.skb with transportHeader := c.skb.front.length + resetL4Offset }
  else c.skb

/-- The transport header and the filter of UDP frames. -/
def transport (r : XmitClass × ℕ) : XmitClass :=
  let c := { r.1 with skb := setTransportHeader r.1 r.2 }
  if c.prot = IPPROTO_UDP then
    let f := c.skb.skwUdpFilter e.bridgePort
    { c with
      skb := f.2
      udpFilter := f.1
      doCsum := c.doCsum && f.2.be16 (f.2.transportHeader + 6) ≠ 0 }
  else c

def classify (skb : SkBuff) : Option XmitClass := (e.etherType skb).map e.transport

/-- The `switch` on the type of the interface: the peer's context, its index, whether the rate is
fixed and whether the peer is set up. `none` drops a group frame of a station without a link. -/
def findPeer (dest : List (BitVec 8)) (multicast fixedRate : Bool) : Option XmitPeer :=
  let group := (e.defaultMulticast.setWidth 8).toNat
  match e.iftype with
  | .ap | .p2pGo =>
    if multicast then some ⟨none, group, true, true⟩
    else
      let entry := e.entryOf dest
      some ⟨entry, (entry.map (·.idx)).getD SKW_INVALID_ID, fixedRate,
        (entry.map (·.completed)).getD true⟩
  | .station | .p2pClient | .adhoc =>
    let entry := ((if e.activedCtx > 1 then e.entryOf dest else none)).or e.bssEntry
    let peerIndex := (entry.map (·.idx)).getD SKW_INVALID_ID
    if peerIndex ≠ SKW_INVALID_ID ∧ multicast then
      if e.staCompleted then some ⟨entry, group, fixedRate, true⟩ else none
    else some ⟨entry, peerIndex, fixedRate, e.staCompleted⟩
  | _ => some ⟨none, SKW_INVALID_ID, fixedRate, true⟩

/-- `skw_setup_txba`: the work it queues. -/
def skwSetupTxba (p : XmitPeer) (tid : ℕ) : Option (ℕ × ℕ) :=
  match p.entry with
  | some entry =>
    if p.completed ∧ tid < 8 ∧ ¬ entry.txba.getLsbD tid then some (entry.idx, tid) else none
  | none => none

/-- A peer that takes only the frames of its key exchange. -/
def rxFiltered (p : XmitPeer) (dataProtMap : BitVec 32) : Bool :=
  match p.entry with
  | some entry => entry.rxFilter ≠ 0 && entry.rxFilter &&& dataProtMap = 0
  | none => false

/-- The size of what goes in front of the frame with the header that SDIO and USB add. -/
def exterHdrSize : ℕ := 2 + (6 + SKW_EXTER_HDR_SIZE)

/-- On PCIe the descriptor header is only for the commands. -/
def roomPcie (c : XmitClass) : XmitRoom :=
  let hdrSize := if c.txFilter then 2 + 6 else 2
  ⟨c.skb, none, [], [], 0, c.txFilter, expandSize hdrSize c.skb.front.length, 0⟩

/-- The frame in a new buffer, in which the header starts at `dma_addr_align`; `none` when the end
of the frame leaves it. -/
def alignedCopy (skb : SkBuff) (buf : KBuf) (id : Ptr) (pad : ℕ) : Option SkBuff :=
  let totalLen := skb.data.length + exterHdrSize + e.dmaAddrAlign
  let pskb := SkBuff.alloc buf id pad (roundUp totalLen e.hwAlign)
  let ptr := ptrAlign pskb.addr e.dmaAddrAlign
  (pskb.reserve (ptr - pskb.addr + exterHdrSize)).put skb.data

/-- The gap that aligns the header, and what is missing for it and for the length of a transfer. -/
def roomInPlace (skb : SkBuff) : XmitRoom :=
  let padding := (skb.addr + exterHdrSize) &&& SKW_DATA_ALIGN_MASK
  let totalLen := exterHdrSize + skb.data.length + padding
  ⟨skb, none, [], [], padding, true, expandSize (exterHdrSize + padding) skb.front.length,
    expandSize (roundUp totalLen e.hwAlign - totalLen) skb.back.length⟩

/-- Room for the descriptor; outside `none` is a panic, inside it no buffer was there. The frame
that a command is made of stays until the command is sent. -/
def makeRoom (c : XmitClass) : Option (Option XmitRoom) :=
  if e.bus = .pcie then some (some (roomPcie c))
  else if e.dmaAddrAlign > 4 then
    match e.netdevAlloc with
    | none => some none
    | some (buf, id, pad) =>
      (e.alignedCopy c.skb buf id pad).map fun pskb =>
        some (if c.txFilter then ⟨pskb, some c.skb, [id], [], 0, true, 0, 0⟩
          else ⟨pskb, none, [id], [c.skb.id], 0, true, 0, 0⟩)
  else some (some (e.roomInPlace c.skb))

/-- `pskb_expand_head`, where it is called; `none` when it fails. -/
def expand (r : XmitRoom) : Option SkBuff :=
  if r.nhead ≠ 0 ∨ r.ntail ≠ 0 ∨ r.skb.cloned then
    e.expandHead.map fun buf => r.skb.expandHead buf r.nhead r.ntail
  else some r.skb

/-- The descriptors as they are asked for; `inst` has the two lowest bits of the interface's
number. -/
def descConf (c : XmitClass) : TxDescConf :=
  ⟨c.l4HdrOffset, c.doCsum.toNat, (decide (c.prot = IPPROTO_TCP.toNat)).toNat⟩

def descHdr (c : XmitClass) (p : XmitPeer) (tid padding : ℕ) (frame : SkBuff) : TxDescHdr :=
  ⟨padding, e.ifaceId &&& 3, tid, p.peerIndex, SKW_ETHER_FRAME, 0, p.fixedRate.toNat, c.msduLen,
    e.lmacId, frame.hProto⟩

/-- Each is pushed and its fields are stored, which leaves the bits of `rsv` as they lay there. -/
def putConf (c : TxDescConf) (skb : SkBuff) : Option SkBuff :=
  (skb.push 2).map fun s =>
    s.overwrite (c.bytes (Lib.readBits 12 4 (leNat (s.data.take 2))))

def putHdr (h : TxDescHdr) (skb : SkBuff) : Option SkBuff :=
  (skb.push 6).map fun s =>
    s.overwrite (h.bytes (Lib.readBits 14 2 (leNat ((s.data.drop 2).take 2))))

def putGap (padding : ℕ) (skb : SkBuff) : Option SkBuff :=
  if padding ≠ 0 then skb.push padding else some skb

/-- The descriptors in front of the frame; `none` when the buffer has no room for them. -/
def describe (c : XmitClass) (p : XmitPeer) (tid : ℕ) (r : XmitRoom) (skb : SkBuff) :
    Option SkBuff :=
  ((putConf (descConf c) skb).bind (putGap r.padding)).bind fun gap =>
    if r.needDescHdr then putHdr (e.descHdr c p tid r.padding skb) gap else some gap

/-- When the worker is woken for a frame that is now the last of `qlen`. -/
def wakeup (prot qlen : ℕ) : Option ℕ :=
  if !e.credit then none
  else if prot = IPPROTO_UDP ∨ prot = IPPROTO_TCP.toNat then
    if qlen < 15 then (if e.timerPending then none else some 1) else some 0
  else some 0

/-- A frame that is dropped at the label `free`. -/
def free (o : XmitOut) (skb : SkBuff) (pre : Option SkBuff) (dropped : Bool) : XmitOut :=
  { o with freed := o.freed ++ skb.id :: (pre.map (·.id)).toList, dropped := dropped }

/-- A command that could not be sent: the frame goes back, and its tries are counted. -/
def refused (c : XmitClass) (o : XmitOut) (pre : Option SkBuff) (skb : SkBuff) : XmitOut :=
  let skb' := { skb with txRetry := skb.txRetry + 1 }
  if 3 < skb.txRetry.toNat then free { o with sent := some (.work, skb') } skb pre true
  else
    match pre with
    | some pre => { o with busy := true, freed := o.freed ++ [skb.id], back := some pre }
    | none =>
      -- an ARP frame may be shorter than the one whose length this is
      { o with
        busy := true
        back := some (if c.msduLen ≤ skb.data.length then skb'.pull (skb.data.length - c.msduLen)
          else skb') }

/-- A frame for a queue. -/
def enqueue (c : XmitClass) (ac : WmmAc) (o : XmitOut) (pre : Option SkBuff) (skb : SkBuff) :
    XmitOut :=
  let q := if c.pureTcpAck then .ack else .ac ac
  let qlen := e.queued q + 1
  { o with
    sent := some (.queue q, skb)
    freed := o.freed ++ (pre.map (·.id)).toList
    wake := e.wakeup c.prot qlen
    stop := SKW_TXQ_HIGH_THRESHOLD ≤ qlen + e.cached q && !e.stopped q }

/-- What a frame with its descriptor comes to. -/
def deliver (c : XmitClass) (ac : WmmAc) (o : XmitOut) (pre : Option SkBuff) (skb : SkBuff) :
    XmitOut :=
  if c.txFilter then
    if e.trySend < 0 then refused c o pre skb
    else free { o with sent := some (.command, skb) } skb pre (e.trySend ≠ 0)
  else e.enqueue c ac o pre skb

/-- The part behind the look at the peer. -/
def send (c : XmitClass) (ac : WmmAc) (p : XmitPeer) (o : XmitOut) : Option XmitOut := do
  match ← e.makeRoom c with
  | none => some (free o c.skb none true)
  | some r =>
    let o := { o with made := o.made ++ r.made, freed := o.freed ++ r.freed }
    match e.expand r with
    | none => some (free o r.skb r.pre true)
    | some skb =>
      let skb ← e.describe c p (tidMap ac) r skb
      some (e.deliver c ac o r.pre skb)

/-- `skw_ndo_xmit`; `none` is a panic, when the end of a frame leaves its buffer. -/
def skwNdoXmit (skb : SkBuff) : Option XmitOut :=
  let o : XmitOut := ⟨false, [], [], none, none, false, none, none, none, false⟩
  if skb.data.length ≤ 16 ∨ e.linearizeFails then some (free o skb none true)
  else
    let o := { o with arpOf := e.arpOf skb }
    match e.classify skb with
    | none => some { o with freed := [skb.id] }
    | some c =>
      let o := { o with made := c.made, freed := c.freed }
      let ac := skwDowngradeAc e.acm (skwUpToAc c.skb.priority)
      match e.findPeer c.skb.hDest c.skb.isMulticast c.fixedRate with
      | none => some (free o c.skb none true)
      | some p =>
        let o := { o with setupTxba := skwSetupTxba p (tidMap ac) }
        if rxFiltered p c.dataProtMap ∨ p.peerIndex = SKW_INVALID_ID then
          some (free o c.skb none true)
        else e.send c ac p o

/-- What classifying a frame leaves as it is. -/
structure Keeps (skb s : SkBuff) : Prop where
  id : s.id = skb.id
  txRetry : s.txRetry = skb.txRetry
  length : s.data.length = skb.data.length

theorem Keeps.refl (s : SkBuff) : Keeps s s := ⟨rfl, rfl, rfl⟩

theorem Keeps.trans {s t u : SkBuff} (h : Keeps s t) (h' : Keeps t u) : Keeps s u :=
  ⟨h'.id.trans h.id, h'.txRetry.trans h.txRetry, h'.length.trans h.length⟩

theorem skwUdpFilter_keeps (b : Bool) (s : SkBuff) : Keeps s (s.skwUdpFilter b).2 := by
  unfold SkBuff.skwUdpFilter
  simp only
  by_cases hdhcp : s.be16 (s.transportHeader + 2) = 68 ∨ s.be16 (s.transportHeader + 2) = 67
  · rw [if_pos hdhcp]
    cases b with
    | false => exact ⟨rfl, rfl, rfl⟩
    | true => constructor <;> simp
  · rw [if_neg hdhcp]
    exact ⟨rfl, rfl, rfl⟩

variable {e} {skb : SkBuff}

theorem setTransportHeader_keeps (c : XmitClass) (n : ℕ) :
    Keeps c.skb (setTransportHeader c n) := by
  unfold setTransportHeader
  split_ifs <;> exact ⟨rfl, rfl, rfl⟩

theorem transport_keeps (r : XmitClass × ℕ) :
    Keeps r.1.skb (e.transport r).skb ∧ (e.transport r).made = r.1.made ∧
      (e.transport r).freed = r.1.freed ∧ (e.transport r).msduLen = r.1.msduLen := by
  have hset := setTransportHeader_keeps r.1 r.2
  unfold transport
  simp only
  split
  · exact ⟨hset.trans (skwUdpFilter_keeps e.bridgePort _), rfl, rfl, rfl⟩
  · exact ⟨hset, rfl, rfl, rfl⟩

/-- Whose frame a classified frame is: its own, or that of the ARP frame in its place. -/
inductive Stands (e : XmitEnv) (skb : SkBuff) (c : XmitClass) : Prop
  | own (hrep : e.replaces skb = false) (hkeeps : Keeps skb c.skb) (hmade : c.made = [])
    (hfreed : c.freed = []) : Stands e skb c
  | arp {arp : SkBuff} (hrep : e.replaces skb = true) (harp : e.arpCreate = some arp)
    (hkeeps : Keeps arp c.skb) (hmade : c.made = [arp.id]) (hfreed : c.freed = [skb.id]) :
    Stands e skb c

theorem stands_etherType {r : XmitClass × ℕ} (h : e.etherType skb = some r) :
    r.1.msduLen = skb.data.length ∧ e.Stands skb r.1 := by
  unfold etherType at h
  simp only at h
  by_cases harp : skb.ethType = ETH_P_ARP
  · rw [harp, if_neg (by decide), if_neg (by decide), if_pos rfl] at h
    obtain ⟨c, hc, rfl⟩ := Option.map_eq_some_iff.mp h
    unfold arpFrame at hc
    split at hc
    case isTrue hrep =>
      obtain ⟨arp, ha, rfl⟩ := Option.map_eq_some_iff.mp hc
      exact ⟨rfl, .arp hrep ha (.refl arp) rfl rfl⟩
    case isFalse hrep =>
      cases Option.some.inj hc
      exact ⟨rfl, .own (Bool.eq_false_iff.mpr hrep) (.refl skb) rfl rfl⟩
  · have hrep : e.replaces skb = false := by simp [replaces, harp]
    rw [if_neg harp] at h
    split_ifs at h <;>
    · cases Option.some.inj h
      exact ⟨rfl, .own hrep (.refl skb) rfl rfl⟩

theorem stands_classify {c : XmitClass} (h : e.classify skb = some c) :
    c.msduLen = skb.data.length ∧ e.Stands skb c := by
  obtain ⟨r, hr, rfl⟩ := Option.map_eq_some_iff.mp h
  obtain ⟨hkeeps, hmade, hfreed, hlen⟩ := transport_keeps (e := e) r
  obtain ⟨hmsdu, hstands⟩ := stands_etherType hr
  refine ⟨hlen.trans hmsdu, ?_⟩
  cases hstands with
  | own hrep hk hm hf => exact .own hrep (hk.trans hkeeps) (hmade.trans hm) (hfreed.trans hf)
  | arp hrep ha hk hm hf =>
    exact .arp hrep ha (hk.trans hkeeps) (hmade.trans hm) (hfreed.trans hf)

end XmitEnv

/-- Nothing was handed on. -/
structure XmitOut.Quiet (o : XmitOut) : Prop where
  busy : o.busy = false
  sent : o.sent = none
  back : o.back = none

/-- The ways through the function. -/
inductive XmitRun (e : XmitEnv) (skb : SkBuff) : XmitOut → Prop
  | gone {o : XmitOut} (hq : o.Quiet) (hmade : o.made = []) (hfreed : o.freed = [skb.id]) :
    XmitRun e skb o
  | drop {o : XmitOut} {c : XmitClass} (hc : e.classify skb = some c) (hq : o.Quiet)
    (hmade : o.made = c.made) (hfreed : o.freed = c.freed ++ [c.skb.id]) : XmitRun e skb o
  | noBuffer {o : XmitOut} {c : XmitClass} {r : XmitRoom} (hc : e.classify skb = some c)
    (hr : e.makeRoom c = some (some r)) (hq : o.Quiet) (hmade : o.made = c.made ++ r.made)
    (hfreed : o.freed = c.freed ++ r.freed ++ r.skb.id :: (r.pre.map (·.id)).toList) :
    XmitRun e skb o
  | sent {o : XmitOut} {c : XmitClass} {p : XmitPeer} {r : XmitRoom} {s t : SkBuff}
    (hc : e.classify skb = some c)
    (hp : e.findPeer c.skb.hDest c.skb.isMulticast c.fixedRate = some p)
    (hr : e.makeRoom c = some (some r)) (hs : e.expand r = some s)
    (ht : e.describe c p (tidMap (skwDowngradeAc e.acm (skwUpToAc c.skb.priority))) r s = some t)
    (hq : o.Quiet) (hmade : o.made = c.made ++ r.made) (hfreed : o.freed = c.freed ++ r.freed) :
    XmitRun e skb
      (e.deliver c (skwDowngradeAc e.acm (skwUpToAc c.skb.priority)) o r.pre t)

namespace XmitEnv
variable {e : XmitEnv} {skb : SkBuff} {o : XmitOut}

theorem xmitRun (h : e.skwNdoXmit skb = some o) : XmitRun e skb o := by
  unfold skwNdoXmit at h
  simp only at h
  split at h
  case isTrue =>
    cases Option.some.inj h
    exact .gone ⟨rfl, rfl, rfl⟩ rfl rfl
  case isFalse =>
    split at h
    case h_1 =>
      cases Option.some.inj h
      exact .gone ⟨rfl, rfl, rfl⟩ rfl rfl
    case h_2 c hc =>
      split at h
      case h_1 =>
        cases Option.some.inj h
        exact .drop hc ⟨rfl, rfl, rfl⟩ rfl rfl
      case h_2 p hp =>
        split at h
        case isTrue =>
          cases Option.some.inj h
          exact .drop hc ⟨rfl, rfl, rfl⟩ rfl rfl
        case isFalse =>
          unfold send at h
          obtain ⟨room, hroom, h⟩ := Option.bind_eq_some_iff.mp h
          cases room with
          | none =>
            cases Option.some.inj h
            exact .drop hc ⟨rfl, rfl, rfl⟩ rfl rfl
          | some r =>
            simp only at h
            split at h
            case h_1 =>
              cases Option.some.inj h
              exact .noBuffer hc hroom ⟨rfl, rfl, rfl⟩ rfl rfl
            case h_2 s hs =>
              obtain ⟨t, ht, h⟩ := Option.bind_eq_some_iff.mp h
              cases Option.some.inj h
              exact .sent hc hp hroom hs ht ⟨rfl, rfl, rfl⟩ rfl rfl

/-- What the end of the function makes of the frame `t` with its descriptor. -/
inductive Delivered (e : XmitEnv) (c : XmitClass) (o : XmitOut) (pre : Option SkBuff) (t : SkBuff)
    (x : XmitOut) : Prop
  | work (hfilter : c.txFilter = true) (hsend : e.trySend < 0) (hretry : 3 < t.txRetry.toNat)
    (hbusy : x.busy = false) (hsent : x.sent = some (.work, { t with txRetry := t.txRetry + 1 }))
    (hfreed : x.freed = o.freed ++ t.id :: (pre.map (·.id)).toList) : Delivered e c o pre t x
  | busyCopy {u : SkBuff} (hfilter : c.txFilter = true) (hpre : pre = some u)
    (hretry : t.txRetry.toNat ≤ 3) (hbusy : x.busy = true) (hsent : x.sent = none)
    (hfreed : x.freed = o.freed ++ [t.id]) (hback : x.back = some u) : Delivered e c o pre t x
  | busy (hfilter : c.txFilter = true) (hpre : pre = none) (hretry : t.txRetry.toNat ≤ 3)
    (hbusy : x.busy = true) (hsent : x.sent = none) (hfreed : x.freed = o.freed)
    (hback : x.back = some (if c.msduLen ≤ t.data.length then
      SkBuff.pull { t with txRetry := t.txRetry + 1 } (t.data.length - c.msduLen)
      else { t with txRetry := t.txRetry + 1 })) : Delivered e c o pre t x
  | command (hfilter : c.txFilter = true) (hbusy : x.busy = false)
    (hsent : x.sent = some (.command, t))
    (hfreed : x.freed = o.freed ++ t.id :: (pre.map (·.id)).toList) : Delivered e c o pre t x
  | queue (q : TxQid) (hfilter : c.txFilter = false) (hbusy : x.busy = false)
    (hsent : x.sent = some (.queue q, t))
    (hfreed : x.freed = o.freed ++ (pre.map (·.id)).toList) : Delivered e c o pre t x

theorem delivered (e : XmitEnv) (c : XmitClass) (ac : WmmAc) (pre : Option SkBuff) (t : SkBuff)
    (hq : o.Quiet) :
    (e.deliver c ac o pre t).made = o.made ∧ e.Delivered c o pre t (e.deliver c ac o pre t) := by
  unfold deliver
  cases hfilter : c.txFilter with
  | false =>
    rw [if_neg Bool.false_ne_true]
    exact ⟨rfl, .queue _ hfilter hq.busy rfl rfl⟩
  | true =>
    rw [if_pos rfl]
    by_cases hsend : e.trySend < 0
    · rw [if_pos hsend]
      unfold refused
      simp only
      by_cases hretry : 3 < t.txRetry.toNat
      · rw [if_pos hretry]
        exact ⟨rfl, .work hfilter hsend hretry hq.busy rfl rfl⟩
      · rw [if_neg hretry]
        cases pre with
        | some u => exact ⟨rfl, .busyCopy hfilter rfl (not_lt.mp hretry) rfl hq.sent rfl rfl⟩
        | none => exact ⟨rfl, .busy hfilter rfl (not_lt.mp hretry) rfl hq.sent rfl rfl⟩
    · rw [if_neg hsend]
      exact ⟨rfl, .command hfilter hq.busy rfl rfl⟩

end XmitEnv
end Skw
