import Skw.Iw.KeepActive

/-! What the checksum code does to a keep-alive packet: where it has room, and that the checksums of
the host verify. -/
namespace Skw
open Lib (Fixed wordSum)

/-! Packets with checksums -/

/-- A packet with an Ethernet header, an IPv4 header of 20 octets and a UDP header; the fields that
have no checksum are left together. -/
structure UdpFrame where
  eth : List (BitVec 8)
  ip : List (BitVec 8)
  ipCheck : BitVec 16
  saddr : List (BitVec 8)
  daddr : List (BitVec 8)
  udp : List (BitVec 8)
  udpCheck : BitVec 16
  payload : List (BitVec 8)
  length_eth : eth.length = 14
  length_ip : ip.length = 10
  length_saddr : saddr.length = 4
  length_daddr : daddr.length = 4
  length_udp : udp.length = 6

namespace UdpFrame

def bytes (d : UdpFrame) : List (BitVec 8) :=
  d.eth ++ (d.ip ++ (le16 d.ipCheck ++ (d.saddr ++ (d.daddr ++ (d.udp ++ (le16 d.udpCheck ++
    d.payload))))))

def header (d : UdpFrame) : List (BitVec 8) := d.ip ++ (le16 d.ipCheck ++ (d.saddr ++ d.daddr))

def datagram (d : UdpFrame) : List (BitVec 8) := d.udp ++ (le16 d.udpCheck ++ d.payload)

/-- The headers say that this is IPv4 and UDP, and how long it is. -/
structure Valid (d : UdpFrame) : Prop where
  etherType : d.eth.drop 12 = [0x08, 0x00]
  version : d.ip.take 1 = [0x45]
  totalLength : (d.ip.drop 2).take 2 = (le16 (BitVec.ofNat 16 (28 + d.payload.length))).reverse
  protocol : d.ip.drop 9 = [BitVec.ofNat 8 IPPROTO_UDP]
  udpLength : d.udp.drop 4 = (le16 (BitVec.ofNat 16 (8 + d.payload.length))).reverse

/-- What a receiver adds up to check the header of a packet. -/
def IpVerifies (d : UdpFrame) : Prop := Lib.endAround (wordSum d.header) = 0xFFFF

/-- What it adds up to check the datagram: the pseudo header in front of it. -/
def UdpVerifies (d : UdpFrame) : Prop :=
  Lib.endAround (wordSum (d.saddr ++ (d.daddr ++ ([0, BitVec.ofNat 8 IPPROTO_UDP] ++
    (d.udp.drop 4 ++ d.datagram))))) = 0xFFFF

/-- The packet with the checksums that the host puts in. -/
def checked (d : UdpFrame) : UdpFrame :=
  { d with
    ipCheck := ipComputeCsum { d with ipCheck := 0 }.header
    udpCheck := csumTcpudpMagic d.saddr d.daddr (8 + d.payload.length) IPPROTO_UDP
      (csumPartial { d with udpCheck := 0 }.datagram 0) }

variable {d : UdpFrame} {n : ℕ} {rule : Fixed (BitVec 8) n} {pre : List (BitVec 8)}

theorem length_bytes (d : UdpFrame) : d.bytes.length = 42 + d.payload.length := by
  simp only [bytes, List.length_append, d.length_eth, d.length_ip, d.length_saddr, d.length_daddr,
    d.length_udp, length_le16]
  omega

theorem wordSum_le16 (x : BitVec 16) : wordSum (le16 x) = x.toNat := by
  rw [← leNat_le16]
  rfl

theorem wordSum_header (d : UdpFrame) :
    wordSum d.header = wordSum d.ip + (d.ipCheck.toNat + wordSum (d.saddr ++ d.daddr)) := by
  have hip : 2 ∣ d.ip.length := by
    rw [d.length_ip]
    decide
  rw [header, Lib.wordSum_append hip, Lib.wordSum_append (dvd_of_eq (length_le16 _).symm),
    wordSum_le16]

theorem wordSum_datagram (d : UdpFrame) :
    wordSum d.datagram = wordSum d.udp + (d.udpCheck.toNat + wordSum d.payload) := by
  have hudp : 2 ∣ d.udp.length := by
    rw [d.length_udp]
    decide
  rw [datagram, Lib.wordSum_append hudp, Lib.wordSum_append (dvd_of_eq (length_le16 _).symm),
    wordSum_le16]

/-- The header verifies with its checksum. -/
theorem checked_ipVerifies (d : UdpFrame) : d.checked.IpVerifies := by
  have hcheck : d.checked.ipCheck =
      Lib.complement (wordSum d.ip + wordSum (d.saddr ++ d.daddr)) := by
    have h0 : wordSum { d with ipCheck := 0 }.header =
        wordSum d.ip + wordSum (d.saddr ++ d.daddr) :=
      (wordSum_header _).trans (congrArg _ (Nat.zero_add _))
    rw [← h0]
    exact congrArg Lib.complement (Nat.zero_add _)
  have hsum : wordSum d.checked.header = wordSum d.ip + wordSum (d.saddr ++ d.daddr) +
      (Lib.complement (wordSum d.ip + wordSum (d.saddr ++ d.daddr))).toNat := by
    rw [wordSum_header, hcheck, Nat.add_comm (BitVec.toNat _), ← Nat.add_assoc]
    rfl
  rw [IpVerifies, hsum, Lib.endAround_add_complement]

/-- The datagram verifies with its checksum, for the length that the header says. -/
theorem checked_udpVerifies (hd : d.Valid) (hlen : 8 + d.payload.length < 2 ^ 8) :
    d.checked.UdpVerifies := by
  let sum := wordSum d.saddr + wordSum d.daddr + 2 ^ 8 * (IPPROTO_UDP + (8 + d.payload.length)) +
    (wordSum d.udp + wordSum d.payload)
  have hcheck : d.checked.udpCheck = Lib.complement sum := by
    have h0 : wordSum { d with udpCheck := 0 }.datagram = wordSum d.udp + wordSum d.payload :=
      (wordSum_datagram _).trans (congrArg _ (Nat.zero_add _))
    have hvalue : d.checked.udpCheck = csumTcpudpMagic d.saddr d.daddr (8 + d.payload.length)
        IPPROTO_UDP (csumPartial { d with udpCheck := 0 }.datagram 0) := rfl
    rw [hvalue, csumPartial, h0, csumTcpudpMagic, Nat.zero_add]
  have hsum : wordSum (d.checked.saddr ++ (d.checked.daddr ++ ([0, BitVec.ofNat 8 IPPROTO_UDP] ++
      (d.checked.udp.drop 4 ++ d.checked.datagram)))) = sum + (Lib.complement sum).toNat := by
    have hsaddr : 2 ∣ d.saddr.length := by
      rw [d.length_saddr]
      decide
    have hdaddr : 2 ∣ d.daddr.length := by
      rw [d.length_daddr]
      decide
    have hfield : wordSum (d.udp.drop 4) = 2 ^ 8 * (8 + d.payload.length) := by
      rw [hd.udpLength]
      simp only [le16, List.reverse_cons, List.reverse_nil, List.nil_append, List.singleton_append,
        wordSum, BitVec.toNat_setWidth, BitVec.toNat_ushiftRight, BitVec.toNat_ofNat,
        Nat.shiftRight_eq_div_pow]
      omega
    have hudp : 2 ∣ (d.udp.drop 4).length := by
      rw [List.length_drop, d.length_udp]
    rw [Lib.wordSum_append (s := d.checked.saddr) hsaddr,
      Lib.wordSum_append (s := d.checked.daddr) hdaddr, Lib.wordSum_append (by decide),
      Lib.wordSum_append (s := d.checked.udp.drop 4) hudp, wordSum_datagram, hcheck]
    have hproto : wordSum [0, BitVec.ofNat 8 IPPROTO_UDP] = 2 ^ 8 * IPPROTO_UDP := by decide
    have hsaddrs : d.checked.saddr = d.saddr := rfl
    have hdaddrs : d.checked.daddr = d.daddr := rfl
    have hudps : d.checked.udp = d.udp := rfl
    have hpayloads : d.checked.payload = d.payload := rfl
    rw [hproto, hsaddrs, hdaddrs, hudps, hpayloads, hfield]
    omega
  rw [UdpVerifies, hsum, Lib.endAround_add_complement]

section
variable (h : rule.cells = pre ++ d.bytes) (hpre : pre.length = payloadAt)
include h hpre

theorem size_of_cells : n = payloadAt + d.bytes.length := by
  rw [← rule.length_cells, h, List.length_append, hpre]

theorem write_ipCheck (x : BitVec 16) : ∃ c, rule.write (payloadAt + 14 + 10) (le16 x) = some c ∧
    c.cells = pre ++ { d with ipCheck := x }.bytes := by
  obtain ⟨c, hc, hcells⟩ := Fixed.write_at (b := rule) (s := pre ++ (d.eth ++ d.ip))
    (t := le16 d.ipCheck) (u := d.saddr ++ (d.daddr ++ (d.udp ++ (le16 d.udpCheck ++ d.payload))))
    (v := le16 x) (i := payloadAt + 14 + 10) (by simp only [h, bytes, List.append_assoc])
    (by simp only [List.length_append, hpre, d.length_eth, d.length_ip]) rfl
  exact ⟨c, hc, by simp only [hcells, bytes, List.append_assoc]⟩

theorem write_udpCheck (x : BitVec 16) :
    ∃ c, rule.write (payloadAt + 14 + 20 + 6) (le16 x) = some c ∧
      c.cells = pre ++ { d with udpCheck := x }.bytes := by
  obtain ⟨c, hc, hcells⟩ := Fixed.write_at (b := rule)
    (s := pre ++ (d.eth ++ (d.ip ++ (le16 d.ipCheck ++ (d.saddr ++ (d.daddr ++ d.udp))))))
    (t := le16 d.udpCheck) (u := d.payload) (v := le16 x) (i := payloadAt + 14 + 20 + 6)
    (by simp only [h, bytes, List.append_assoc])
    (by simp only [List.length_append, hpre, d.length_eth, d.length_ip, d.length_saddr,
      d.length_daddr, d.length_udp, length_le16]) rfl
  exact ⟨c, hc, by simp only [hcells, bytes, List.append_assoc]⟩

theorem read_header : rule.read (payloadAt + 14) 20 = some d.header := by
  refine Fixed.read_at (s := pre ++ d.eth) (u := d.udp ++ (le16 d.udpCheck ++ d.payload)) ?_ ?_ ?_
  · simp only [h, bytes, header, List.append_assoc]
  · rw [List.length_append, hpre, d.length_eth]
  · simp only [header, List.length_append, d.length_ip, d.length_saddr, d.length_daddr,
      length_le16]

theorem read_saddr : rule.read (payloadAt + 14 + 12) 4 = some d.saddr := by
  refine Fixed.read_at (s := pre ++ (d.eth ++ (d.ip ++ le16 d.ipCheck)))
    (u := d.daddr ++ (d.udp ++ (le16 d.udpCheck ++ d.payload))) ?_ ?_ d.length_saddr
  · simp only [h, bytes, List.append_assoc]
  · simp only [List.length_append, hpre, d.length_eth, d.length_ip, length_le16]

theorem read_daddr : rule.read (payloadAt + 14 + 16) 4 = some d.daddr := by
  refine Fixed.read_at (s := pre ++ (d.eth ++ (d.ip ++ (le16 d.ipCheck ++ d.saddr))))
    (u := d.udp ++ (le16 d.udpCheck ++ d.payload)) ?_ ?_ d.length_daddr
  · simp only [h, bytes, List.append_assoc]
  · simp only [List.length_append, hpre, d.length_eth, d.length_ip, d.length_saddr, length_le16]

theorem read_datagram :
    rule.read (payloadAt + 14 + 20) (8 + d.payload.length) = some d.datagram := by
  refine Fixed.read_at (s := pre ++ (d.eth ++ (d.ip ++ (le16 d.ipCheck ++ (d.saddr ++ d.daddr)))))
    (u := []) ?_ ?_ ?_
  · simp only [h, bytes, datagram, List.append_assoc, List.append_nil]
  · simp only [List.length_append, hpre, d.length_eth, d.length_ip, d.length_saddr, d.length_daddr,
      length_le16]
  · simp only [datagram, List.length_append, d.length_udp, length_le16]
    omega

end

theorem udpLen_bytes (d : UdpFrame) (hlen : d.payload.length < 2 ^ 16) :
    (BitVec.ofNat 32 d.bytes.length - 14 - 20).toNat = 8 + d.payload.length := by
  rw [length_bytes]
  change (BitVec.ofNat 32 (42 + d.payload.length) - 14#32 - 20#32).toNat = _
  simp only [BitVec.toNat_sub, BitVec.toNat_ofNat]
  omega

/-- With the host's checksums the packet differs in its checksum fields. -/
theorem keepAliveAddChecksum_host (h : rule.cells = pre ++ d.bytes)
    (hpre : pre.length = payloadAt) (hlen : d.payload.length < 2 ^ 16) :
    ∃ c, keepAliveAddChecksum rule (BitVec.ofNat 32 d.bytes.length) false = some c ∧
      c.cells = pre ++ d.checked.bytes := by
  obtain ⟨r₁, h₁, c₁⟩ := write_ipCheck h hpre 0
  obtain ⟨r₂, h₂, c₂⟩ := write_ipCheck c₁ hpre (ipComputeCsum { d with ipCheck := 0 }.header)
  obtain ⟨r₃, h₃, c₃⟩ := write_udpCheck c₂ hpre 0
  obtain ⟨r₄, h₄, c₄⟩ := write_udpCheck c₃ hpre d.checked.udpCheck
  refine ⟨r₄, ?_, c₄⟩
  simp only [keepAliveAddChecksum, h₁, read_header c₁ hpre, h₂, h₃, read_saddr c₃ hpre,
    read_daddr c₃ hpre, udpLen_bytes d hlen, Option.bind_eq_bind, Option.bind_some,
    Bool.false_eq_true, if_false]
  have hdatagram := read_datagram c₃ hpre
  simp only at hdatagram
  rw [hdatagram]
  exact h₄

/-- The checksums that the firmware completes fit too. -/
theorem keepAliveAddChecksum_firmware (h : rule.cells = pre ++ d.bytes)
    (hpre : pre.length = payloadAt) (len : BitVec 32) :
    ∃ c, keepAliveAddChecksum rule len true = some c := by
  obtain ⟨r₁, h₁, c₁⟩ := write_ipCheck h hpre 0
  obtain ⟨r₂, h₂, c₂⟩ := write_ipCheck c₁ hpre (ipComputeCsum { d with ipCheck := 0 }.header)
  obtain ⟨r₃, h₃, c₃⟩ := write_udpCheck c₂ hpre 0
  have hn := size_of_cells h hpre
  have hsize : keepRuleSize = 6 := rfl
  rw [length_bytes] at hn
  have hprotocol : r₃.read (payloadAt + 14 + 9) 1 = some _ := r₃.read_of_le (by omega)
  have hconf : r₃.read keepRuleSize 2 = some _ := r₃.read_of_le (by omega)
  obtain ⟨r₄, h₄⟩ := r₃.exists_write (i := keepRuleSize) (s := le16 (descConf (BitVec.ofNat 16
    (leNat ((r₃.cells.drop keepRuleSize).take 2)))
    ((r₃.cells.drop (payloadAt + 14 + 9)).take 1 = [IPPROTO_TCP]))) (by rw [length_le16]; omega)
  obtain ⟨r₅, h₅⟩ := r₄.exists_write (i := payloadAt + 14 + 20 + 6)
    (s := le16 (~~~csumTcpudpMagic d.saddr d.daddr (len - 14 - 20).toNat IPPROTO_UDP 0))
    (by rw [length_le16]; omega)
  refine ⟨r₅, ?_⟩
  simp only [keepAliveAddChecksum, h₁, read_header c₁ hpre, h₂, h₃, read_saddr c₃ hpre,
    read_daddr c₃ hpre, Option.bind_eq_bind, Option.bind_some, if_true, hprotocol, hconf, h₄, h₅]

/-- A packet without room for the headers is written behind its end. -/
theorem keepAliveAddChecksum_eq_none (rule : Fixed (BitVec 8) n) (len : BitVec 32) (hwFlag : Bool)
    (hn : n < payloadAt + 42) : keepAliveAddChecksum rule len hwFlag = none := by
  simp only [keepAliveAddChecksum, Option.bind_eq_bind, Option.bind_eq_none_iff]
  intro r₁ h₁ header hheader r₂ h₂ r₃ h₃
  exfalso
  have hfits := Fixed.isSome_write_iff.mp (Option.isSome_iff_exists.mpr ⟨r₃, h₃⟩)
  rw [length_le16] at hfits
  omega

theorem exists_split {l : List (BitVec 8)} {k : ℕ} (h : k ≤ l.length) :
    ∃ s t, l = s ++ t ∧ s.length = k := by
  refine ⟨l.take k, l.drop k, (List.take_append_drop k l).symm, ?_⟩
  rw [List.length_take, min_eq_left h]

theorem exists_le16 {s : List (BitVec 8)} (h : s.length = 2) : ∃ x, s = le16 x := by
  obtain ⟨a, b, rfl⟩ := List.length_eq_two.mp h
  have ha := a.isLt
  have hb := b.isLt
  refine ⟨BitVec.ofNat 16 (a.toNat + 2 ^ 8 * b.toNat), ?_⟩
  rw [le16, List.cons.injEq, List.cons.injEq]
  refine ⟨BitVec.eq_of_toNat_eq ?_, BitVec.eq_of_toNat_eq ?_, rfl⟩
  · simp only [BitVec.toNat_setWidth, BitVec.toNat_ofNat]
    omega
  · simp only [BitVec.toNat_setWidth, BitVec.toNat_ushiftRight, BitVec.toNat_ofNat,
      Nat.shiftRight_eq_div_pow]
    omega

/-- A packet with room for the headers has them. -/
theorem exists_bytes {p : List (BitVec 8)} (hp : 42 ≤ p.length) : ∃ d : UdpFrame, d.bytes = p := by
  obtain ⟨eth, p₁, rfl, heth⟩ := exists_split (show 14 ≤ p.length by omega)
  rw [List.length_append, heth] at hp
  obtain ⟨ip, p₂, rfl, hip⟩ := exists_split (show 10 ≤ p₁.length by omega)
  rw [List.length_append, hip] at hp
  obtain ⟨ipCheck, p₃, rfl, hipCheck⟩ := exists_split (show 2 ≤ p₂.length by omega)
  rw [List.length_append, hipCheck] at hp
  obtain ⟨saddr, p₄, rfl, hsaddr⟩ := exists_split (show 4 ≤ p₃.length by omega)
  rw [List.length_append, hsaddr] at hp
  obtain ⟨daddr, p₅, rfl, hdaddr⟩ := exists_split (show 4 ≤ p₄.length by omega)
  rw [List.length_append, hdaddr] at hp
  obtain ⟨udp, p₆, rfl, hudp⟩ := exists_split (show 6 ≤ p₅.length by omega)
  rw [List.length_append, hudp] at hp
  obtain ⟨udpCheck, payload, rfl, hudpCheck⟩ := exists_split (show 2 ≤ p₆.length by omega)
  obtain ⟨x, rfl⟩ := exists_le16 hipCheck
  obtain ⟨y, rfl⟩ := exists_le16 hudpCheck
  exact ⟨⟨eth, ip, x, saddr, daddr, udp, y, payload, heth, hip, hsaddr, hdaddr, hudp⟩, rfl⟩

end UdpFrame

/-! Rules with checksums -/

/-- The rule is stored: the index is one of the table, and an interval and a packet are given. -/
structure KeepFields.Stored (f : KeepFields) : Prop where
  idx : f.idx < SKW_KEEPACTIVE_RULE_MAX
  period : f.period ≠ 0
  packet : f.packet.length ≤ maxPacket

instance (f : KeepFields) : Decidable f.Stored :=
  decidable_of_iff
    (f.idx < SKW_KEEPACTIVE_RULE_MAX ∧ f.period ≠ 0 ∧ f.packet.length ≤ maxPacket)
    ⟨fun h => ⟨h.1, h.2.1, h.2.2⟩, fun h => ⟨h.idx, h.period, h.packet⟩⟩

section
variable {n : ℕ} {kp : Fixed (BitVec 8) SKW_KEEPACTIVE_LENGTH_MAX} {rule : Fixed (BitVec 8) n}
  {packet pre : List (BitVec 8)} {period : ℕ} {flags : BitVec 32}

theorem copyRule_of_packet (hkp : HasPacket kp period packet) (hfits : packet.length ≤ maxPacket)
    (flags : BitVec 32) : ∃ rule pre,
      copyRule true kp flags (packet.length + keepDataSize) = some rule ∧
      rule.cells = pre ++ packet ∧ pre.length = payloadAt := by
  have hsize : packet.length + keepDataSize + keepRuleSize = payloadAt + packet.length :=
    Nat.add_comm packet.length payloadAt
  have hroom : payloadAt + packet.length ≤ SKW_KEEPACTIVE_LENGTH_MAX :=
    Nat.add_le_of_le_sub' (by decide) hfits
  have hbytes := hkp.payload
  rw [Fixed.read_of_le _ hroom, Option.some.injEq] at hbytes
  have hread : kp.read 0 (packet.length + keepDataSize + keepRuleSize) = some _ :=
    kp.read_of_le (by rwa [hsize, Nat.zero_add])
  have hlen : ((kp.cells.drop 0).take (packet.length + keepDataSize + keepRuleSize)).length =
      packet.length + keepDataSize + keepRuleSize := by
    rw [List.drop_zero, List.length_take, kp.length_cells, hsize, min_eq_left hroom]
  obtain ⟨r₁, h₁, c₁⟩ := (Fixed.fill (packet.length + keepDataSize + keepRuleSize)
    (0 : BitVec 8)).write_zero hlen.le
  obtain ⟨r₂, h₂, hkept⟩ := exists_modify r₁ (i := 4) (Nat.lt_add_left _ (by decide)) fun b =>
    if flags &&& SKW_KEEPALIVE_ALWAYS_FLAG ≠ 0 then b ||| 0x80 else b &&& 0x7F
  have hpayload : r₂.read payloadAt packet.length = some packet := by
    rw [hkept _ _ (.inr (by decide)), Fixed.read_of_le _ hsize.ge, c₁, hlen,
      List.drop_of_length_le (l := (Fixed.fill _ _).cells) (Fixed.length_cells _).le,
      List.append_nil, List.drop_zero, List.drop_take, List.take_take, hsize,
      Nat.add_sub_cancel_left, min_self, hbytes]
  refine ⟨r₂, r₂.cells.take payloadAt, ?_, Fixed.cells_of_read hpayload hsize, ?_⟩
  · simp only [copyRule, hread, h₁, Option.bind_eq_bind, Option.bind_some, if_true]
    exact h₂
  · rw [List.length_take, r₂.length_cells, hsize, min_eq_left (Nat.le_add_right _ _)]

theorem payloadLen_eq (packet : List (BitVec 8)) :
    BitVec.ofNat 32 (packet.length + keepDataSize) - 2 = BitVec.ofNat 32 packet.length := by
  rw [BitVec.ofNat_add]
  exact BitVec.add_sub_cancel _ _

theorem ruleChecksum_none (rule : Fixed (BitVec 8) n) (h : needChksum flags = false)
    (hn : keepRuleSize + keepDataSize ≤ n) (payloadLen : ℕ) :
    ∃ c, ruleChecksum rule payloadLen flags = some c := by
  rw [ruleChecksum, if_neg (by simp [h])]
  exact rule.exists_write (by rwa [length_le16])

theorem ruleChecksum_short (rule : Fixed (BitVec 8) n) (h : needChksum flags = true)
    (hn : n < payloadAt + 42)
    (payloadLen : ℕ) : ruleChecksum rule payloadLen flags = none := by
  simp only [ruleChecksum, h, if_true, UdpFrame.keepAliveAddChecksum_eq_none rule _ _ hn,
    Option.bind_eq_bind, Option.bind_none, ite_self]

theorem ruleChecksum_firmware {d : UdpFrame} (h : rule.cells = pre ++ d.bytes)
    (hpre : pre.length = payloadAt) (hneed : needChksum flags = true)
    (hfw : fwChksum flags = true) (payloadLen : ℕ) :
    ∃ c, ruleChecksum rule payloadLen flags = some c := by
  obtain ⟨c, hc⟩ := UdpFrame.keepAliveAddChecksum_firmware h hpre (BitVec.ofNat 32 payloadLen - 2)
  exact ⟨c, by simp only [ruleChecksum, hneed, hfw, if_true, hc]⟩

/-- The flag of the firmware's checksums is cleared, the packet stays. -/
theorem ruleChecksum_host {d : UdpFrame} (h : rule.cells = pre ++ d.bytes)
    (hpre : pre.length = payloadAt) (hneed : needChksum flags = true)
    (hfw : fwChksum flags = false) (hlen : d.payload.length < 2 ^ 16) :
    ∃ c, ruleChecksum rule (d.bytes.length + keepDataSize) flags = some c ∧
      c.cells.drop payloadAt = d.checked.bytes := by
  obtain ⟨r, hr, hcells⟩ := UdpFrame.keepAliveAddChecksum_host h hpre hlen
  have hn := UdpFrame.size_of_cells h hpre
  obtain ⟨c, hc⟩ := r.exists_write (i := keepRuleSize) (s := le16 0)
    (by rw [hn, length_le16]; exact Nat.le_add_right _ _)
  refine ⟨c, ?_, ?_⟩
  · simp only [ruleChecksum, hneed, hfw, if_true, payloadLen_eq, hr, Option.bind_eq_bind,
      Option.bind_some, hc, Bool.false_eq_true, if_false]
  · rw [Fixed.drop_of_write hc (by rw [length_le16]), hcells, ← hpre, List.drop_left]

theorem storedRule_eq (hkp : HasPacket kp period packet) (hfits : packet.length ≤ maxPacket)
    (alloc : Bool) (flags : BitVec 32) : storedRule alloc kp flags =
      (copyRule alloc kp flags (packet.length + keepDataSize)).bind fun rule =>
        (ruleChecksum rule (packet.length + keepDataSize) flags).map Fixed.cells := by
  have hlt : packet.length + keepDataSize < 2 ^ 8 :=
    lt_of_le_of_lt (Nat.add_le_add_right hfits _) (by decide)
  have hlen : leNat [BitVec.ofNat 8 (packet.length + keepDataSize)] =
      packet.length + keepDataSize := by
    rw [leNat, List.foldr_cons, List.foldr_nil, BitVec.toNat_ofNat, Nat.mod_eq_of_lt hlt,
      Nat.mul_zero, Nat.add_zero]
  simp only [storedRule, hkp.payloadLen, Option.bind_eq_bind, Option.bind_some,
    Option.map_eq_bind, Function.comp_def]
  rw [hlen]

theorem payload_lt {d : UdpFrame} (hfits : d.bytes.length ≤ maxPacket) :
    d.payload.length < 2 ^ 8 - 8 := by
  have hle : d.bytes.length ≤ 127 := hfits
  rw [UdpFrame.length_bytes] at hle
  omega

/-- A rule with a packet is stored when there is memory, and room for the checksums. -/
theorem isSome_storedRule_iff (hkp : HasPacket kp period packet)
    (hfits : packet.length ≤ maxPacket) (alloc : Bool) (flags : BitVec 32) :
    (storedRule alloc kp flags).isSome ↔
      alloc = true ∧ (needChksum flags = true → 42 ≤ packet.length) := by
  rw [storedRule_eq hkp hfits]
  cases alloc with
  | false => simp [copyRule]
  | true =>
    obtain ⟨rule, pre, hcopy, hcells, hpre⟩ := copyRule_of_packet hkp hfits flags
    rw [hcopy, Option.bind_some, Option.isSome_map]
    cases hneed : needChksum flags with
    | false =>
      obtain ⟨c, hc⟩ := ruleChecksum_none rule hneed (by rw [Nat.add_assoc]; omega)
        (packet.length + keepDataSize)
      simp [hc]
    | true =>
      by_cases hroom : 42 ≤ packet.length
      · obtain ⟨d, rfl⟩ := UdpFrame.exists_bytes hroom
        cases hfw : fwChksum flags with
        | false =>
          have hlt := payload_lt hfits
          obtain ⟨c, hc, -⟩ := ruleChecksum_host hcells hpre hneed hfw (by omega)
          simp [hc, hroom]
        | true =>
          obtain ⟨c, hc⟩ := ruleChecksum_firmware hcells hpre hneed hfw
            (d.bytes.length + keepDataSize)
          simp [hc, hroom]
      · have hshort := ruleChecksum_short rule hneed (by unfold payloadAt; omega)
          (packet.length + keepDataSize)
        simp [hshort, hroom]

/-- A packet that is stored with the host's checksums. -/
theorem storedRule_host {d : UdpFrame} (hkp : HasPacket kp period d.bytes)
    (hfits : d.bytes.length ≤ maxPacket) (hneed : needChksum flags = true)
    (hfw : fwChksum flags = false) :
    ∃ rule, storedRule true kp flags = some rule ∧ rule.drop payloadAt = d.checked.bytes := by
  have hlt := payload_lt hfits
  obtain ⟨rule, pre, hcopy, hcells, hpre⟩ := copyRule_of_packet hkp hfits flags
  obtain ⟨c, hc, hbytes⟩ := ruleChecksum_host hcells hpre hneed hfw (by omega)
  refine ⟨c.cells, ?_, hbytes⟩
  rw [storedRule_eq hkp hfits, hcopy, Option.bind_some, hc, Option.map_some]

theorem field_lt {key : String} {bits v : ℕ} {hex : Str} {rest : Option Str}
    (h : field key bits hex = .value v rest) : v < 2 ^ bits := by
  unfold field at h
  cases hkey : strstr (str key) hex with
  | none => simp [hkey] at h
  | some hex =>
    simp only [hkey] at h
    split_ifs at h with htext
    cases hv : kstrtou bits 0 (strsep (ch ',') hex).1 with
    | none => simp [hv] at h
    | some w =>
      simp only [hv, Field.value.injEq] at h
      rw [← h.1]
      exact kstrtou_lt hv

/-- A text with a packet that fits is stored as a rule, or only enables one. -/
theorem keepActiveStore_of_packet (alloc : Bool) (s : KpSet) {param : Str} {f : KeepFields}
    {stack : Fixed (BitVec 8) SKW_KEEPACTIVE_LENGTH_MAX} (hf : KeepText param f)
    (hread : readKeepActive stack param =
      some (.ok ⟨kp, f.idx, f.en, BitVec.ofNat 32 f.flags, true⟩))
    (hkp : HasPacket kp f.period f.packet) (hfits : f.packet.length ≤ maxPacket) :
    keepActiveStore alloc stack s param =
      if f.Stored then (storedRule alloc kp (BitVec.ofNat 32 f.flags)).map fun rule =>
        (0, (s.store f.idx rule (BitVec.ofNat 32 f.flags)).enable f.idx (f.en ≠ 0))
      else if SKW_KEEPACTIVE_RULE_MAX ≤ f.idx then some (- EFAULT, s)
      else some (0, s.enable f.idx (f.en ≠ 0)) := by
  have hinterval : leNat (le32 (BitVec.ofNat 32 f.period)) = f.period := by
    obtain ⟨t₁, t₂, t₃, -, -, -, -, -, h₃, -⟩ := hf.reads
    rw [leNat_le32, BitVec.toNat_ofNat, Nat.mod_eq_of_lt (field_lt h₃)]
  simp only [keepActiveStore, hread, Option.bind_eq_bind, Option.bind_some, hkp.interval, hinterval,
    keepActiveRuleSave]
  by_cases hidx : SKW_KEEPACTIVE_RULE_MAX ≤ f.idx
  · have hnot : ¬f.Stored := fun h => not_lt.mpr hidx h.idx
    rw [if_pos hidx, if_neg hnot, if_pos hidx]
  · rw [if_neg hidx, if_neg hidx]
    by_cases hperiod : f.period = 0
    · have hnot : ¬f.Stored := fun h => h.period hperiod
      rw [if_neg hnot, if_neg (by simp [hperiod])]
    · have hstored : f.Stored := ⟨not_le.mp hidx, hperiod, hfits⟩
      rw [if_pos ⟨hperiod, trivial⟩, if_pos hstored]

end

/-- A text with a packet is stored inside the buffer on the stack and the rule's own memory, and an
UDP packet with valid checksums of the host, exactly when a rule that is stored finds memory and,
where it asks for checksums, its packet has room for the headers. -/
theorem keepActiveStore_iff (alloc : Bool) (stack : Fixed (BitVec 8) SKW_KEEPACTIVE_LENGTH_MAX)
    (s : KpSet) {param : Str} {f : KeepFields} (hf : KeepText param f) :
    (∃ ret t, keepActiveStore alloc stack s param = some (ret, t) ∧
      ∀ d : UdpFrame, d.bytes = f.packet → d.Valid → f.Stored →
        needChksum (BitVec.ofNat 32 f.flags) = true → fwChksum (BitVec.ofNat 32 f.flags) = false →
        ∃ rule x y, t.rule f.idx = some rule ∧
          rule.drop payloadAt = { d with ipCheck := x, udpCheck := y }.bytes ∧
          { d with ipCheck := x, udpCheck := y }.IpVerifies ∧
          { d with ipCheck := x, udpCheck := y }.UdpVerifies) ↔
    (f.Stored → alloc = true ∧
      (needChksum (BitVec.ofNat 32 f.flags) = true → 42 ≤ f.packet.length)) := by
  by_cases hfits : f.packet.length ≤ maxPacket
  · obtain ⟨kp, hread, hkp⟩ := readKeepActive_of_fits hf hfits stack
    have hstore := keepActiveStore_of_packet alloc s hf hread hkp hfits
    by_cases hstored : f.Stored
    · rw [hstore, if_pos hstored]
      cases hrule : storedRule alloc kp (BitVec.ofNat 32 f.flags) with
      | none =>
        have hnot := (isSome_storedRule_iff hkp hfits alloc (BitVec.ofNat 32 f.flags)).not.mp
          (by simp [hrule])
        constructor
        · rintro ⟨ret, t, h, -⟩
          contradiction
        · intro h
          exact absurd (h hstored) hnot
      | some rule =>
        have hsome := (isSome_storedRule_iff hkp hfits alloc (BitVec.ofNat 32 f.flags)).mp
          (by simp [hrule])
        constructor
        · intro _ _
          exact hsome
        · intro _
          refine ⟨0, _, rfl, fun d hd hvalid _ hneed hfw => ?_⟩
          rw [← hd] at hkp hfits
          obtain ⟨rule', hrule', hbytes⟩ := storedRule_host hkp hfits hneed hfw
          rw [← hsome.1, hrule, Option.some.injEq] at hrule'
          have hlt := payload_lt hfits
          refine ⟨rule, d.checked.ipCheck, d.checked.udpCheck, ?_, hrule' ▸ hbytes,
            d.checked_ipVerifies, UdpFrame.checked_udpVerifies hvalid (by omega)⟩
          simp [KpSet.enable, KpSet.store]
    · constructor
      · intro _ h
        exact absurd h hstored
      · intro _
        obtain ⟨ret, t, ht⟩ : ∃ ret t, keepActiveStore alloc stack s param = some (ret, t) := by
          rw [hstore, if_neg hstored]
          split_ifs
          · exact ⟨_, _, rfl⟩
          · exact ⟨_, _, rfl⟩
        exact ⟨ret, t, ht, fun d _ _ h => absurd h hstored⟩
  · have hnot : ¬f.Stored := fun h => hfits h.packet
    have herr : keepActiveStore alloc stack s param = some (- ENOSPC, s) := by
      simp only [keepActiveStore, readKeepActive_of_not_fits hf (not_le.mp hfits),
        Option.bind_eq_bind, Option.bind_some]
    constructor
    · intro _ h
      exact absurd h hnot
    · intro _
      exact ⟨_, _, herr, fun d _ _ h => absurd h hnot⟩

/-- Checksums for a packet of one octet are written behind the rule. -/
theorem short_packet_overruns :
    keepActiveStore true (Fixed.fill _ 0) KpSet.init
      (str "idx=0,en=1,period=1000,flags=2,pkt=7c") = none := by
  decide +kernel

/-- A datagram without payload. -/
def emptyDatagram : UdpFrame where
  eth := [0x00, 0x0B, 0x00, 0x00, 0x00, 0x01, 0x00, 0x0B, 0x00, 0x00, 0x00, 0x02, 0x08, 0x00]
  ip := [0x45, 0x00, 0x00, 0x1C, 0x00, 0x00, 0x00, 0x00, 0x40, 0x11]
  ipCheck := 0
  saddr := [0xC0, 0xA8, 0x01, 0x02]
  daddr := [0xC0, 0xA8, 0x01, 0x01]
  udp := [0x10, 0x00, 0x20, 0x00, 0x00, 0x08]
  udpCheck := 0
  payload := []
  length_eth := rfl
  length_ip := rfl
  length_saddr := rfl
  length_daddr := rfl
  length_udp := rfl

theorem emptyDatagram_valid : emptyDatagram.Valid := by
  constructor
  · decide
  · decide
  · decide
  · decide
  · decide

def emptyDatagramText : Str :=
  str "idx=0,en=1,period=1000,flags=2,pkt=00:0b:00:00:00:01:00:0b:00:00:00:02:08:00" ++
    str ":45:00:00:1c:00:00:00:00:40:11:00:00:c0:a8:01:02:c0:a8:01:01" ++
    str ":10:00:20:00:00:08:00:00"

theorem emptyDatagramText_reads :
    KeepText emptyDatagramText ⟨0, 1, 1000, 2, emptyDatagram.bytes⟩ := by
  have hreads : field "idx=" 8 emptyDatagramText = .value 0 (some (emptyDatagramText.drop 6)) ∧
      field "en=" 8 (emptyDatagramText.drop 6) = .value 1 (some (emptyDatagramText.drop 11)) ∧
      field "period=" 32 (emptyDatagramText.drop 11) =
        .value 1000 (some (emptyDatagramText.drop 23)) ∧
      field "send_cnt=" 8 (emptyDatagramText.drop 23) = .absent ∧
      field "flags=" 32 (emptyDatagramText.drop 23) =
        .value 2 (some (emptyDatagramText.drop 31)) ∧
      strstr (str "pkt=") (emptyDatagramText.drop 31) = some (emptyDatagramText.drop 35) ∧
      ((emptyDatagramText.drop 35).splitOn (ch ':')).map (kstrtou 8 16) =
        emptyDatagram.bytes.map fun b => some b.toNat := by
    decide +kernel
  obtain ⟨hidx, hen, hperiod, hcnt, hflags, hpkt, hoctets⟩ := hreads
  exact ⟨_, _, _, _, _, _, hidx, hen, hperiod, .inl ⟨hcnt, rfl⟩, hflags, hpkt, hoctets⟩

theorem emptyDatagram_stored :
    ∃ ret t, keepActiveStore true (Fixed.fill _ 0) KpSet.init emptyDatagramText = some (ret, t) ∧
      ∃ rule x y, t.rule 0 = some rule ∧
        rule.drop payloadAt = { emptyDatagram with ipCheck := x, udpCheck := y }.bytes ∧
        { emptyDatagram with ipCheck := x, udpCheck := y }.IpVerifies ∧
        { emptyDatagram with ipCheck := x, udpCheck := y }.UdpVerifies := by
  have hstored : KeepFields.Stored ⟨0, 1, 1000, 2, emptyDatagram.bytes⟩ := by decide
  have hroom : 42 ≤ emptyDatagram.bytes.length := by decide
  obtain ⟨ret, t, h, hudp⟩ :=
    (keepActiveStore_iff true (Fixed.fill _ 0) KpSet.init emptyDatagramText_reads).mpr
      fun _ => ⟨rfl, fun _ => hroom⟩
  exact ⟨ret, t, h, hudp emptyDatagram rfl emptyDatagram_valid hstored (by decide) (by decide)⟩

end Skw
