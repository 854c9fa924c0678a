import Skw.Tx.Ndo

/-! Where `skw_ndo_xmit` puts the descriptor: whatever headroom, tailroom and alignment a frame
comes with, the end of the frame stays in its buffer, what the firmware reads of the descriptor is
what was decided about the frame, and the header that the bus adds starts where its transfers have
to. -/
namespace Skw

/-- The fields as they are read out of a descriptor. -/
def TxDescHdr.read (b : List (BitVec 8)) : TxDescHdr :=
  let w := leNat (b.take 2)
  let v := leNat ((b.drop 2).take 2)
  { paddingGap := Lib.readBits 0 2 w
    inst := Lib.readBits 2 2 w
    tid := Lib.readBits 4 4 w
    peerLut := Lib.readBits 8 5 w
    frameType := Lib.readBits 13 1 w
    encryDis := Lib.readBits 14 1 w
    rate := Lib.readBits 15 1 w
    msduLen := Lib.readBits 0 12 v
    lmacId := Lib.readBits 12 2 v
    ethType := (b.drop 4).take 2 }

def TxDescConf.read (b : List (BitVec 8)) : TxDescConf :=
  let w := leNat (b.take 2)
  ⟨Lib.readBits 0 10 w, Lib.readBits 10 1 w, Lib.readBits 11 1 w⟩

/-- The values cut to the widths of their fields. -/
def TxDescHdr.cut (h : TxDescHdr) : TxDescHdr :=
  { paddingGap := h.paddingGap % 2 ^ 2
    inst := h.inst % 2 ^ 2
    tid := h.tid % 2 ^ 4
    peerLut := h.peerLut % 2 ^ 5
    frameType := h.frameType % 2 ^ 1
    encryDis := h.encryDis % 2 ^ 1
    rate := h.rate % 2 ^ 1
    msduLen := h.msduLen % 2 ^ 12
    lmacId := h.lmacId % 2 ^ 2
    ethType := h.ethType }

def TxDescConf.cut (c : TxDescConf) : TxDescConf :=
  ⟨c.l4HdrOffset % 2 ^ 10, c.csum % 2 ^ 1, c.ipProt % 2 ^ 1⟩

theorem TxDescHdr.length_bytes {h : TxDescHdr} (he : h.ethType.length = 2) (rsv : ℕ) :
    (h.bytes rsv).length = 6 := by
  simp [bytes, he]

@[simp] theorem TxDescConf.length_bytes (c : TxDescConf) (rsv : ℕ) : (c.bytes rsv).length = 2 := by
  simp [bytes]

/-- A word of fields is read back as it was packed. -/
theorem leNat_le16_packBits {f : List (ℕ × ℕ)} (h : Lib.bitsWidth f = 16) :
    leNat (le16 (BitVec.ofNat 16 (Lib.packBits f))) = Lib.packBits f := by
  have hlt := Lib.packBits_lt f
  rw [h] at hlt
  rw [leNat_le16, BitVec.toNat_ofNat, Nat.mod_eq_of_lt hlt]

theorem TxDescHdr.read_bytes {h : TxDescHdr} (he : h.ethType.length = 2) (rsv : ℕ)
    (rest : List (BitVec 8)) : read (h.bytes rsv ++ rest) = h.cut := by
  have hw := leNat_le16_packBits (f := [(2, h.paddingGap), (2, h.inst), (4, h.tid),
    (5, h.peerLut), (1, h.frameType), (1, h.encryDis), (1, h.rate)]) rfl
  have hv := leNat_le16_packBits (f := [(12, h.msduLen), (2, h.lmacId), (2, rsv)]) rfl
  have htype : ((h.bytes rsv ++ rest).drop 4).take 2 = h.ethType := by
    rw [bytes, List.append_assoc (_ ++ _), List.drop_left' (by simp), List.take_left' he]
  have hfirst : (h.bytes rsv ++ rest).take 2 = (h.bytes rsv).take 2 := by
    simp [bytes, List.take_append]
  have hsecond : ((h.bytes rsv ++ rest).drop 2).take 2 = ((h.bytes rsv).drop 2).take 2 := by
    simp [bytes, List.take_append, List.drop_append]
  rw [read, hfirst, hsecond, htype, bytes, List.append_assoc, List.take_left' (length_le16 _),
    List.drop_left' (length_le16 _), List.take_left' (length_le16 _), hw, hv]
  simp only [cut, mk.injEq, and_true]
  refine ⟨Lib.readBits_packBits [] _ 2 _, Lib.readBits_packBits [(2, h.paddingGap)] _ 2 _,
    Lib.readBits_packBits [(2, h.paddingGap), (2, h.inst)] _ 4 _,
    Lib.readBits_packBits [(2, h.paddingGap), (2, h.inst), (4, h.tid)] _ 5 _, ?_, ?_, ?_,
    Lib.readBits_packBits [] _ 12 _, Lib.readBits_packBits [(12, h.msduLen)] _ 2 _⟩
  · exact Lib.readBits_packBits [(2, h.paddingGap), (2, h.inst), (4, h.tid), (5, h.peerLut)] _ 1 _
  · exact Lib.readBits_packBits
      [(2, h.paddingGap), (2, h.inst), (4, h.tid), (5, h.peerLut), (1, h.frameType)] _ 1 _
  · exact Lib.readBits_packBits [(2, h.paddingGap), (2, h.inst), (4, h.tid), (5, h.peerLut),
      (1, h.frameType), (1, h.encryDis)] _ 1 _

theorem TxDescConf.read_bytes (c : TxDescConf) (rsv : ℕ) (rest : List (BitVec 8)) :
    read (c.bytes rsv ++ rest) = c.cut := by
  have hw := leNat_le16_packBits
    (f := [(10, c.l4HdrOffset), (1, c.csum), (1, c.ipProt), (4, rsv)]) rfl
  rw [read, bytes, List.take_left' (length_le16 _), hw]
  simp only [cut, mk.injEq]
  exact ⟨Lib.readBits_packBits [] _ 10 _, Lib.readBits_packBits [(10, c.l4HdrOffset)] _ 1 _,
    Lib.readBits_packBits [(10, c.l4HdrOffset), (1, c.csum)] _ 1 _⟩

namespace XmitEnv
variable {e : XmitEnv} {c : XmitClass} {p : XmitPeer} {r : XmitRoom} {s t : SkBuff} {tid : ℕ}

theorem expand_eq (h : e.expand r = some s) :
    s.id = r.skb.id ∧ s.txRetry = r.skb.txRetry ∧ s.data = r.skb.data ∧
      s.front.length = r.skb.front.length + r.nhead ∧
      s.back.length = r.skb.back.length + r.ntail := by
  unfold expand at h
  split_ifs at h with hn
  · obtain ⟨buf, -, hs⟩ := Option.map_eq_some_iff.mp h
    subst hs
    refine ⟨rfl, rfl, rfl, ?_, ?_⟩
    · simp [SkBuff.expandHead, Nat.add_comm]
    · simp [SkBuff.expandHead]
  · cases Option.some.inj h
    simp only [not_or, ne_eq, not_not] at hn
    exact ⟨rfl, rfl, rfl, by omega, by omega⟩

theorem prefixed_putConf {d : TxDescConf} (h : putConf d s = some t) :
    ∃ rsv, SkBuff.Prefixed s t (d.bytes rsv) := by
  obtain ⟨u, hu, ht⟩ := Option.map_eq_some_iff.mp h
  subst ht
  exact ⟨_, SkBuff.prefixed_overwrite hu (TxDescConf.length_bytes _ _)⟩

theorem prefixed_putHdr {d : TxDescHdr} (hd : d.ethType.length = 2) (h : putHdr d s = some t) :
    ∃ rsv, SkBuff.Prefixed s t (d.bytes rsv) := by
  obtain ⟨u, hu, ht⟩ := Option.map_eq_some_iff.mp h
  subst ht
  exact ⟨_, SkBuff.prefixed_overwrite hu (TxDescHdr.length_bytes hd _)⟩

theorem prefixed_putGap {n : ℕ} (h : putGap n s = some t) :
    ∃ gap, gap.length = n ∧ SkBuff.Prefixed s t gap := by
  unfold putGap at h
  split_ifs at h with hn
  · exact SkBuff.prefixed_push h
  · cases Option.some.inj h
    rw [not_not] at hn
    exact ⟨[], hn.symm, .refl s⟩

/-- The two descriptors with the gap between them, in front of the frame. -/
theorem describe_eq (hr : r.needDescHdr = true) (h : e.describe c p tid r s = some t) :
    ∃ gap rsv rsv', gap.length = r.padding ∧
      SkBuff.Prefixed s t ((e.descHdr c p tid r.padding s).bytes rsv' ++
        (gap ++ (descConf c).bytes rsv)) := by
  obtain ⟨g, hg, ht⟩ := Option.bind_eq_some_iff.mp h
  obtain ⟨f, hf, hg⟩ := Option.bind_eq_some_iff.mp hg
  rw [if_pos hr] at ht
  obtain ⟨rsv, hconf⟩ := prefixed_putConf hf
  obtain ⟨gap, hgap, hmid⟩ := prefixed_putGap hg
  obtain ⟨rsv', hhdr⟩ := prefixed_putHdr rfl ht
  exact ⟨gap, rsv, rsv', hgap, (hconf.trans hmid).trans hhdr⟩

/-- Whatever the bus, the descriptors stand in front of the frame. -/
theorem prefixed_describe (h : e.describe c p tid r s = some t) : ∃ b, SkBuff.Prefixed s t b := by
  cases hr : r.needDescHdr with
  | true =>
    obtain ⟨gap, rsv, rsv', -, ht⟩ := describe_eq hr h
    exact ⟨_, ht⟩
  | false =>
    obtain ⟨g, hg, ht⟩ := Option.bind_eq_some_iff.mp h
    obtain ⟨f, hf, hg⟩ := Option.bind_eq_some_iff.mp hg
    rw [hr] at ht
    cases Option.some.inj ht
    obtain ⟨rsv, hconf⟩ := prefixed_putConf hf
    obtain ⟨gap, -, hmid⟩ := prefixed_putGap hg
    exact ⟨_, hconf.trans hmid⟩

/-- With room for what is needed no end leaves the buffer. -/
theorem describe_ne_none
    (h : 2 + r.padding ≤ s.front.length)
    (hhdr : r.needDescHdr = true → 8 + r.padding ≤ s.front.length) :
    e.describe c p tid r s ≠ none := by
  have hfront : ∀ {u v : SkBuff} {b : List (BitVec 8)}, SkBuff.Prefixed u v b →
      v.front.length = u.front.length - b.length := fun hu => by
    have := hu.front
    omega
  obtain ⟨f, hf⟩ : ∃ f, putConf (descConf c) s = some f := by
    obtain ⟨u, hu⟩ := SkBuff.push_of_le (s := s) (n := 2) (by omega)
    exact ⟨_, Option.map_eq_some_iff.mpr ⟨u, hu, rfl⟩⟩
  obtain ⟨rsv, hconf⟩ := prefixed_putConf hf
  have hlen := hfront hconf
  rw [TxDescConf.length_bytes] at hlen
  obtain ⟨g, hg⟩ : ∃ g, putGap r.padding f = some g := by
    unfold putGap
    split_ifs with hp
    · exact SkBuff.push_of_le (by omega)
    · exact ⟨f, rfl⟩
  obtain ⟨gap, hgap, hmid⟩ := prefixed_putGap hg
  have hlen' := hfront hmid
  unfold describe
  rw [hf, Option.bind_some, hg, Option.bind_some]
  split_ifs with hr
  · have := hhdr hr
    obtain ⟨u, hu⟩ := SkBuff.push_of_le (s := g) (n := 6) (by omega)
    rw [putHdr, hu]
    exact Option.some_ne_none _
  · exact Option.some_ne_none _

/-- What is made for the descriptor on a bus other than PCIe: room in front of the frame and behind
it, and a start that is aligned. -/
structure Fits (e : XmitEnv) (c : XmitClass) (r : XmitRoom) (s : SkBuff) : Prop where
  hdr : r.needDescHdr = true
  data : s.data = c.skb.data
  padding : r.padding < 4
  front : 12 + r.padding ≤ s.front.length
  aligned : ∀ k, max 4 e.dmaAddrAlign = 2 ^ k → 2 ^ k ∣ s.addr - (12 + r.padding)
  back : e.dmaAddrAlign ≤ 4 → roundUp (12 + r.padding + s.data.length) e.hwAlign ≤
    12 + r.padding + s.data.length + s.back.length

theorem le_ptrAlign {a : ℕ} (n : ℕ) : n ≤ ptrAlign n a ∧ ptrAlign n a ≤ n + (a - 1) := by
  have hand : (n + (a - 1)) &&& (a - 1) ≤ a - 1 := Nat.and_le_right
  unfold ptrAlign
  omega

theorem dvd_ptrAlign (n k : ℕ) : 2 ^ k ∣ ptrAlign n (2 ^ k) := by
  unfold ptrAlign
  rw [Nat.and_two_pow_sub_one_eq_mod]
  exact Nat.dvd_sub_mod _

theorem le_roundUp {n a : ℕ} (ha : 0 < a) : n ≤ roundUp n a := by
  have hdiv := Nat.lt_div_mul_add (a := n + (a - 1)) ha
  unfold roundUp
  omega

/-- The new buffer is large enough for the frame wherever the aligned address lies. -/
theorem alignedCopy_eq (halign : 0 < e.hwAlign) (skb : SkBuff) (buf : KBuf) (id : Ptr) (pad : ℕ) :
    ∃ s, e.alignedCopy skb buf id pad = some s ∧ s.id = id ∧ s.txRetry = 0 ∧ s.cloned = false ∧
      s.data = skb.data ∧ exterHdrSize ≤ s.front.length ∧
      s.addr = ptrAlign (buf.head + pad) e.dmaAddrAlign + exterHdrSize := by
  have hroom := le_roundUp (n := skb.data.length + exterHdrSize + e.dmaAddrAlign) halign
  obtain ⟨hle, hge⟩ := le_ptrAlign (a := e.dmaAddrAlign) (buf.head + pad)
  have haddr : ∀ len, (SkBuff.alloc buf id pad len).addr = buf.head + pad := by
    intro len
    simp [SkBuff.addr, SkBuff.alloc]
  unfold alignedCopy
  simp only [haddr]
  generalize ptrAlign (buf.head + pad) e.dmaAddrAlign = ptr at hle hge ⊢
  generalize roundUp _ e.hwAlign = size at hroom ⊢
  have hfront : ((SkBuff.alloc buf id pad size).reserve
      (ptr - (buf.head + pad) + exterHdrSize)).front.length =
      pad + (ptr - (buf.head + pad) + exterHdrSize) := by
    simp only [SkBuff.reserve, SkBuff.alloc, List.length_append, List.length_take,
      KBuf.length_bytes]
    omega
  refine ⟨_, if_pos ?_, rfl, rfl, rfl, List.nil_append _, ?_, ?_⟩
  · simp only [SkBuff.reserve, SkBuff.alloc, List.length_drop, KBuf.length_bytes]
    omega
  · rw [hfront]
    omega
  · change buf.head + List.length _ = _
    rw [hfront]
    omega

theorem makeRoom_inPlace (hb : e.bus ≠ .pcie) (hd : e.dmaAddrAlign ≤ 4) (c : XmitClass) :
    e.makeRoom c = some (some (e.roomInPlace c.skb)) := by
  rw [makeRoom, if_neg hb, if_neg (Nat.not_lt.mpr hd)]

/-- A new buffer is asked for, and then the frame is in it. -/
theorem makeRoom_copy (halign : 0 < e.hwAlign) (hb : e.bus ≠ .pcie) (hd : 4 < e.dmaAddrAlign)
    (c : XmitClass) :
    e.makeRoom c = some none ∨ ∃ s r, e.makeRoom c = some (some r) ∧ r.skb = s ∧ r.nhead = 0 ∧
      r.ntail = 0 ∧ r.padding = 0 ∧ r.needDescHdr = true ∧ s.txRetry = 0 ∧ s.cloned = false ∧
      r.made = [s.id] ∧ s.data = c.skb.data ∧ exterHdrSize ≤ s.front.length ∧
      (r.pre = if c.txFilter then some c.skb else none) ∧
      (r.freed = if c.txFilter then [] else [c.skb.id]) ∧
      ∃ n, s.addr = ptrAlign n e.dmaAddrAlign + exterHdrSize := by
  rw [makeRoom, if_neg hb, if_pos hd]
  cases hbuf : e.netdevAlloc with
  | none => exact .inl rfl
  | some b =>
    obtain ⟨buf, id, pad⟩ := b
    obtain ⟨s, hs, hid, hretry, hcloned, hdata, hfront, haddr⟩ :=
      alignedCopy_eq halign c.skb buf id pad
    right
    refine ⟨s, _, congrArg (Option.map _) hs, ?_⟩
    cases c.txFilter <;>
      exact ⟨rfl, rfl, rfl, rfl, rfl, hretry, hcloned, by rw [hid]; rfl, hdata, hfront, rfl, rfl, _,
        haddr⟩

theorem makeRoom_ne_none (halign : 0 < e.hwAlign) (c : XmitClass) : e.makeRoom c ≠ none := by
  by_cases hb : e.bus = .pcie
  · rw [makeRoom, if_pos hb]
    exact Option.some_ne_none _
  · rcases Nat.lt_or_ge 4 e.dmaAddrAlign with hd | hd
    · rcases makeRoom_copy halign hb hd c with h | ⟨s, r, h, -⟩
      · rw [h]
        exact Option.some_ne_none _
      · rw [h]
        exact Option.some_ne_none _
    · rw [makeRoom_inPlace hb hd]
      exact Option.some_ne_none _

/-- In its own buffer the frame has the room and the alignment, if need be after it moved. -/
theorem fits_inPlace (hd : e.dmaAddrAlign ≤ 4) (h : e.expand (e.roomInPlace c.skb) = some s) :
    e.Fits c (e.roomInPlace c.skb) s := by
  obtain ⟨-, -, hdata, hfront, hback⟩ := expand_eq h
  have hskb : (e.roomInPlace c.skb).skb = c.skb := rfl
  have hpad : (e.roomInPlace c.skb).padding = (c.skb.addr + exterHdrSize) % 2 ^ 2 :=
    Nat.and_two_pow_sub_one_eq_mod _ 2
  have hnhead : (e.roomInPlace c.skb).nhead =
      exterHdrSize + (e.roomInPlace c.skb).padding - c.skb.front.length := by
    simp only [roomInPlace, expandSize]
    split_ifs <;> omega
  have hntail : (e.roomInPlace c.skb).ntail =
      roundUp (exterHdrSize + c.skb.data.length + (e.roomInPlace c.skb).padding) e.hwAlign -
        (exterHdrSize + c.skb.data.length + (e.roomInPlace c.skb).padding) -
        c.skb.back.length := by
    simp only [roomInPlace, expandSize]
    split_ifs <;> omega
  have hmoved := s.aligned
  have hcame := c.skb.aligned
  have hsize : exterHdrSize = 12 := rfl
  rw [hskb] at hdata hfront hback
  unfold SkBuff.addr at hpad
  refine ⟨rfl, hdata, by omega, by omega, ?_, ?_⟩
  · intro k hk
    have hfour : 2 ^ k = 4 := by omega
    rw [hfour, SkBuff.addr]
    omega
  · intro _
    rw [hdata, show 12 + (e.roomInPlace c.skb).padding + c.skb.data.length =
      exterHdrSize + c.skb.data.length + (e.roomInPlace c.skb).padding by omega]
    omega

theorem makeRoom_fits (halign : 0 < e.hwAlign) (hb : e.bus ≠ .pcie)
    (hr : e.makeRoom c = some (some r)) (hs : e.expand r = some s) : e.Fits c r s := by
  rcases Nat.lt_or_ge 4 e.dmaAddrAlign with hd | hd
  · rcases makeRoom_copy halign hb hd c with h | ⟨u, r', h, rfl, hnhead, hntail, hpad, hhdr, -,
      hcloned, -, hdata, hfront, -, -, n, haddr⟩
    · rw [h] at hr
      cases hr
    · rw [h] at hr
      cases hr
      have hsame : e.expand r = some r.skb := by
        rw [expand, if_neg (by simp [hnhead, hntail, hcloned])]
      cases hsame.symm.trans hs
      have hsize : exterHdrSize = 12 := rfl
      refine ⟨hhdr, hdata, by omega, by omega, ?_, by omega⟩
      intro k hk
      have hpow : e.dmaAddrAlign = 2 ^ k := by omega
      rw [haddr, hpad, hsize, hpow, Nat.add_zero, Nat.add_sub_cancel]
      exact dvd_ptrAlign n k
  · rw [makeRoom_inPlace hb hd] at hr
    cases hr
    exact fits_inPlace hd hs

/-- How a frame lies in its buffer with `g` bytes between the descriptors: what is read of them, the
frame behind them, and what the bus still needs in front of them and behind the frame. -/
structure Placed (e : XmitEnv) (c : XmitClass) (p : XmitPeer) (g : ℕ) (t : SkBuff) : Prop where
  hdr : TxDescHdr.read t.data =
    { paddingGap := g
      inst := e.ifaceId % 4
      tid := tidMap (skwDowngradeAc e.acm (skwUpToAc c.skb.priority))
      peerLut := p.peerIndex % 32
      frameType := 0
      encryDis := 0
      rate := p.fixedRate.toNat
      msduLen := c.msduLen % 4096
      lmacId := e.lmacId % 4
      ethType := c.skb.hProto }
  conf : TxDescConf.read (t.data.drop (6 + g)) =
    ⟨c.l4HdrOffset % 1024, c.doCsum.toNat, (decide (c.prot = IPPROTO_TCP.toNat)).toNat⟩
  frame : t.data.drop (6 + g + 2) = c.skb.data
  headroom : SKW_EXTER_HDR_SIZE ≤ t.front.length
  aligned : ∀ k, max 4 e.dmaAddrAlign = 2 ^ k → 2 ^ k ∣ t.addr - SKW_EXTER_HDR_SIZE
  tailroom : e.dmaAddrAlign ≤ 4 →
    roundUp (SKW_EXTER_HDR_SIZE + t.data.length) e.hwAlign ≤
      SKW_EXTER_HDR_SIZE + t.data.length + t.back.length

theorem tidMap_lt (ac : WmmAc) : tidMap ac < 8 := by cases ac <;> decide

theorem toNat_lt_two (b : Bool) : b.toNat < 2 := by cases b <;> decide

theorem placed_describe (hf : e.Fits c r s)
    (ht : e.describe c p (tidMap (skwDowngradeAc e.acm (skwUpToAc c.skb.priority))) r s = some t) :
    e.Placed c p r.padding t := by
  obtain ⟨gap, rsv, rsv', hgap, hpre⟩ := describe_eq hf.hdr ht
  generalize htid : tidMap (skwDowngradeAc e.acm (skwUpToAc c.skb.priority)) = tid at hpre
  have htid' : tid < 8 := htid ▸ tidMap_lt _
  have hlenHdr := TxDescHdr.length_bytes (h := e.descHdr c p tid r.padding s) rfl rsv'
  have hlenConf := TxDescConf.length_bytes (descConf c) rsv
  have hpad := hf.padding
  have hfront := hf.front
  have hext : SKW_EXTER_HDR_SIZE = 4 := rfl
  have hdata : t.data = (e.descHdr c p tid r.padding s).bytes rsv' ++
      (gap ++ ((descConf c).bytes rsv ++ s.data)) := by
    rw [hpre.data]
    simp only [List.append_assoc]
  have haddr := hpre.addr
  have hroom := hpre.front
  simp only [List.length_append, hlenHdr, hlenConf, hgap] at haddr hroom
  have hproto : s.hProto = c.skb.hProto := by rw [SkBuff.hProto, SkBuff.hProto, hf.data]
  have hconf : t.data.drop (6 + r.padding) = (descConf c).bytes rsv ++ s.data := by
    rw [hdata, ← List.append_assoc, List.drop_left' (by simp [hlenHdr, hgap])]
  constructor
  case hdr =>
    rw [hdata, TxDescHdr.read_bytes rfl, htid]
    have hgap' : r.padding % 2 ^ 2 = r.padding := Nat.mod_eq_of_lt hpad
    have htid'' : tid % 2 ^ 4 = tid := Nat.mod_eq_of_lt (by omega)
    have hrate : p.fixedRate.toNat % 2 ^ 1 = p.fixedRate.toNat :=
      Nat.mod_eq_of_lt (toNat_lt_two _)
    have hinst : (e.ifaceId &&& 3) % 2 ^ 2 = e.ifaceId % 4 := by
      rw [show (3 : ℕ) = 2 ^ 2 - 1 from rfl, Nat.and_two_pow_sub_one_eq_mod, Nat.mod_mod]
    simp only [TxDescHdr.cut, descHdr, hgap', htid'', hrate, hinst, hproto]
    rfl
  case conf =>
    rw [hconf, TxDescConf.read_bytes]
    have hcsum : c.doCsum.toNat % 2 = c.doCsum.toNat := Nat.mod_eq_of_lt (toNat_lt_two _)
    have hprot := Nat.mod_eq_of_lt (toNat_lt_two (decide (c.prot = IPPROTO_TCP.toNat)))
    simp only [TxDescConf.cut, descConf, pow_one, hcsum, hprot]
    rfl
  case frame =>
    rw [← List.drop_drop, hconf, List.drop_left' hlenConf, hf.data]
  case headroom => omega
  case aligned =>
    intro k hk
    rw [show t.addr - SKW_EXTER_HDR_SIZE = s.addr - (12 + r.padding) by omega]
    exact hf.aligned k hk
  case tailroom =>
    intro hd
    have hback := hf.back hd
    have hlen : SKW_EXTER_HDR_SIZE + t.data.length = 12 + r.padding + s.data.length := by
      rw [hpre.data]
      simp only [List.length_append, hlenHdr, hlenConf, hgap]
      omega
    rw [hlen, hpre.back]
    exact hback

/-- What is handed on is the frame with its descriptor, up to the count of tries. -/
theorem sent_deliver {o : XmitOut} {ac : WmmAc} {pre : Option SkBuff} {dst : XmitTo} {u : SkBuff}
    (hq : o.Quiet) (h : (e.deliver c ac o pre t).sent = some (dst, u)) :
    ∃ n, u = { t with txRetry := n } := by
  cases (delivered e c ac pre t hq).2 with
  | work _ _ _ _ hsent _ =>
    cases hsent.symm.trans h
    exact ⟨_, rfl⟩
  | busyCopy _ _ _ _ hsent _ _ => cases hsent.symm.trans h
  | busy _ _ _ _ hsent _ _ => cases hsent.symm.trans h
  | command _ _ hsent _ =>
    cases hsent.symm.trans h
    exact ⟨_, rfl⟩
  | queue _ _ _ hsent _ =>
    cases hsent.symm.trans h
    exact ⟨_, rfl⟩

theorem describe_of_makeRoom (p : XmitPeer) (tid : ℕ) (halign : 0 < e.hwAlign)
    (hr : e.makeRoom c = some (some r)) (hs : e.expand r = some s) : e.describe c p tid r s ≠ none := by
  by_cases hb : e.bus = .pcie
  · rw [makeRoom, if_pos hb] at hr
    cases hr
    have hfront := (expand_eq hs).2.2.2.1
    have hexpand : ∀ x y : ℕ, x ≤ y + expandSize x y := by
      intro x y
      unfold expandSize
      split_ifs <;> omega
    have hroom : (if c.txFilter then 2 + 6 else 2) ≤ s.front.length :=
      (hexpand _ c.skb.front.length).trans_eq hfront.symm
    have hpad : (roomPcie c).padding = 0 := rfl
    refine describe_ne_none ?_ fun hf => ?_
    · split_ifs at hroom <;> omega
    · have hfilter : c.txFilter = true := hf
      rw [if_pos hfilter] at hroom
      omega
  · have hfits := makeRoom_fits halign hb hr hs
    have hfront := hfits.front
    exact describe_ne_none (by omega) fun _ => by omega

theorem send_ne_none (halign : 0 < e.hwAlign) (c : XmitClass) (ac : WmmAc) (p : XmitPeer)
    (o : XmitOut) : e.send c ac p o ≠ none := by
  obtain ⟨room, hroom⟩ := Option.ne_none_iff_exists'.mp (makeRoom_ne_none halign c)
  unfold send
  simp only [hroom, Option.bind_eq_bind, Option.bind_some]
  cases room with
  | none => exact Option.some_ne_none _
  | some r =>
    cases hs : e.expand r with
    | none =>
      simp only [hs]
      exact Option.some_ne_none _
    | some s =>
      obtain ⟨t, ht⟩ := Option.ne_none_iff_exists'.mp
        (describe_of_makeRoom p (tidMap ac) halign hroom hs)
      simp only [hs, ht, Option.bind_some]
      exact Option.some_ne_none _

/-- No end of a frame leaves its buffer. -/
theorem skwNdoXmit_ne_none (halign : 0 < e.hwAlign) (skb : SkBuff) : e.skwNdoXmit skb ≠ none := by
  unfold skwNdoXmit
  simp only
  split
  · exact Option.some_ne_none _
  · split
    · exact Option.some_ne_none _
    · split
      · exact Option.some_ne_none _
      · split
        · exact Option.some_ne_none _
        · exact send_ne_none halign _ _ _ _

/-- Every frame that leaves the function for a queue, a command or the work has its descriptor, on a
bus that transfers aligned lengths from aligned addresses. -/
theorem skwNdoXmit_placed (halign : 0 < e.hwAlign) (skb : SkBuff) :
    ∃ o, e.skwNdoXmit skb = some o ∧ ∀ dst t, o.sent = some (dst, t) → e.bus ≠ .pcie →
      ∃ c p g, e.classify skb = some c ∧
        e.findPeer c.skb.hDest c.skb.isMulticast c.fixedRate = some p ∧ g < 4 ∧
        e.Placed c p g t ∧ c.msduLen = skb.data.length ∧
        (e.replaces skb = false → c.skb.data.length = skb.data.length) := by
  obtain ⟨o, ho⟩ := Option.ne_none_iff_exists'.mp (skwNdoXmit_ne_none halign skb)
  refine ⟨o, ho, fun dst t hsent hbus => ?_⟩
  cases xmitRun ho with
  | gone hq _ _ => exact absurd (hq.sent.symm.trans hsent) (Option.some_ne_none _).symm
  | drop _ hq _ _ => exact absurd (hq.sent.symm.trans hsent) (Option.some_ne_none _).symm
  | noBuffer _ _ hq _ _ => exact absurd (hq.sent.symm.trans hsent) (Option.some_ne_none _).symm
  | sent hc hp hr hs ht hq _ _ =>
    obtain ⟨n, hn⟩ := sent_deliver hq hsent
    have hfits := makeRoom_fits halign hbus hr hs
    have hplaced := placed_describe hfits ht
    obtain ⟨hlen, hstands⟩ := stands_classify hc
    subst hn
    refine ⟨_, _, _, hc, hp, hfits.padding, ?_, hlen, ?_⟩
    · exact ⟨hplaced.hdr, hplaced.conf, hplaced.frame, hplaced.headroom, hplaced.aligned,
        hplaced.tailroom⟩
    · intro hrep
      cases hstands with
      | own _ hkeeps _ _ => exact hkeeps.length
      | arp hrep' _ _ _ _ => exact absurd (hrep.symm.trans hrep') Bool.false_ne_true

end XmitEnv

/-- A buffer of zeros at address 0. -/
def zeroBuf : KBuf := ⟨0, fun _ => 0, ⟨0, rfl⟩⟩

/-- An ARP frame with nothing but its type, in a buffer with room. -/
def arpSkb (id : Ptr) : SkBuff :=
  { SkBuff.alloc zeroBuf id 32 64 with
    data := List.replicate 12 0 ++ [8, 6] ++ List.replicate 28 0
    networkHeader := 46
    transportHeader := 46 }

/-- A repeater whose command slot is taken. -/
def busyRepeater : XmitEnv where
  bus := .sdio
  hwAlign := 4
  dmaAddrAlign := 4
  iftype := .station
  ifaceId := 0
  lmacId := 0
  bridgePort := true
  repeater := true
  fwFilterArp := true
  acm _ := false
  entryOf _ := none
  activedCtx := 1
  bssEntry := some ⟨3, true, 0, 0⟩
  staCompleted := true
  defaultMulticast := 31
  linearizeFails := false
  arpCreate := some (arpSkb 2)
  netdevAlloc := none
  expandHead := none
  trySend := -16
  credit := true
  queued _ := 0
  cached _ := 0
  timerPending := false
  stopped _ := false

/-- With a free command slot it sends its own ARP frame. -/
theorem skwNdoXmit_placed_arp :
    let e := { busyRepeater with trySend := 0 }
    ∃ o t c p g, e.skwNdoXmit (arpSkb 1) = some o ∧ o.sent = some (.command, t) ∧
      e.Placed c p g t := by
  intro e
  obtain ⟨o, ho, hplaced⟩ := XmitEnv.skwNdoXmit_placed (e := e) (by decide) (arpSkb 1)
  have hdst : ((e.skwNdoXmit (arpSkb 1)).bind (·.sent)).map Prod.fst = some .command := by
    decide +kernel
  rw [ho, Option.bind_some] at hdst
  obtain ⟨⟨dst, t⟩, ht, rfl⟩ := Option.map_eq_some_iff.mp hdst
  obtain ⟨c, p, g, -, -, -, h, -⟩ := hplaced _ t ht (by decide)
  exact ⟨o, t, c, p, g, ho, ht, h⟩

end Skw
