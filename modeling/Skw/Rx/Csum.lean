import Skw.Iw.KeepActive
import Skw.Tx.Ndo
import Mathlib.Data.List.GetD

/-! `skw_csum_verify`: the transport checksum of a received packet is checked by the sum that the chip
has added up, or by one of the host where the frame is padded behind the packet. -/
namespace Skw
open Lib (wordSum endAround)

/-- `sizeof(struct ipv6hdr)` -/
abbrev IPV6_HLEN : ℕ := 40

/-- A buffer that begins with the IP header. `unnecessary` tells that `ip_summed` is
`CHECKSUM_UNNECESSARY`. -/
structure CsumSkb where
  hProto : ℕ
  data : List (BitVec 8)
  csum : ℕ
  unnecessary : Bool

/-- With the pseudo header of IPv6, whose length and protocol have 32 bits. -/
def csumIpv6Magic (saddr daddr : List (BitVec 8)) (len proto sum : ℕ) : BitVec 16 :=
  Lib.complement (wordSum saddr + wordSum daddr + wordSum (le32 (BitVec.ofNat 32 len)).reverse +
    wordSum (le32 (BitVec.ofNat 32 proto)).reverse + sum)

namespace CsumSkb

/-- The octet `i` of the header, which is there. -/
def octet (skb : CsumSkb) (i : ℕ) : ℕ := (skb.data.getD i 0).toNat

def ntohs (skb : CsumSkb) (i : ℕ) : ℕ := 2 ^ 8 * skb.octet i + skb.octet (i + 1)

/-- `csum_partial` from `off` on, which reads nothing for a length that is not positive. -/
def partialSum (skb : CsumSkb) (off : ℕ) (len : ℤ) : Option ℕ :=
  if len ≤ 0 then some 0
  else if off + len.toNat ≤ skb.data.length then
    some (csumPartial ((skb.data.drop off).take len.toNat) 0)
  else none

/-- The sum over what a packet of `total` octets has behind its header, and the buffer without what
is behind the packet, where the buffer has another length. `none` is a read past its end. -/
def resum (skb : CsumSkb) (off total : ℕ) : Option CsumSkb :=
  if skb.data.length ≠ total then
    (skb.partialSum off (total - off)).map fun csum =>
      { skb with csum, data := skb.data.take total }
  else some skb

end CsumSkb

def csumVerify (skb : CsumSkb) : Option CsumSkb :=
  if skb.csum = 0 then some skb
  else if skb.hProto = ETH_P_IPV6 then do
    let dataLen := skb.ntohs 4
    let t ← skb.resum IPV6_HLEN (dataLen + IPV6_HLEN)
    let csum := csumIpv6Magic ((skb.data.drop 8).take 16) ((skb.data.drop 24).take 16) dataLen
      (skb.octet 6) t.csum
    some { t with unnecessary := if csum = 0 then true else t.unnecessary }
  else if skb.hProto = ETH_P_IP then
    -- The checksum is computed and nothing is made of it.
    skb.resum (4 * (skb.octet 0 % 16)) (skb.ntohs 2)
  else some skb

/-- A frame with an IPv6 header, and what it has behind the header. -/
structure Ip6Frame where
  flow : List (BitVec 8)
  payloadLen : BitVec 16
  nexthdr : BitVec 8
  hopLimit : BitVec 8
  saddr : List (BitVec 8)
  daddr : List (BitVec 8)
  body : List (BitVec 8)
  length_flow : flow.length = 4
  length_saddr : saddr.length = 16
  length_daddr : daddr.length = 16

/-- The piece of a frame behind `i` octets. -/
theorem slice_eq {a b : List (BitVec 8)} {i n : ℕ} (ha : a.length = i) (hb : b.length = n)
    (c : List (BitVec 8)) : ((a ++ (b ++ c)).drop i).take n = b := by
  subst ha hb
  rw [List.drop_left, List.take_left]

namespace Ip6Frame
variable (f : Ip6Frame)

def header : List (BitVec 8) :=
  f.flow ++ ((le16 f.payloadLen).reverse ++ ([f.nexthdr, f.hopLimit] ++ (f.saddr ++ f.daddr)))

def bytes : List (BitVec 8) := f.header ++ f.body

/-- What the header says that the packet has behind it. -/
def payload : List (BitVec 8) := f.body.take f.payloadLen.toNat

/-- What a receiver adds up: the pseudo header and the payload. -/
def Verifies : Prop :=
  endAround (wordSum (f.saddr ++ (f.daddr ++ ((le32 (BitVec.ofNat 32 f.payloadLen.toNat)).reverse ++
    ((le32 (BitVec.ofNat 32 f.nexthdr.toNat)).reverse ++ f.payload))))) = 0xFFFF

theorem length_header : f.header.length = IPV6_HLEN := by
  simp only [header, List.length_append, List.length_reverse, length_le16, f.length_flow,
    f.length_saddr, f.length_daddr, List.length_cons, List.length_nil]

variable (csum : ℕ) (u : Bool)

def skb : CsumSkb := ⟨ETH_P_IPV6, f.bytes, csum, u⟩

theorem getD_header {i : ℕ} (hi : i < IPV6_HLEN) : f.bytes.getD i 0 = f.header.getD i 0 := by
  rw [bytes, List.getD_append _ _ _ _ (hi.trans_eq f.length_header.symm)]

theorem ntohs_payloadLen : (f.skb csum u).ntohs 4 = f.payloadLen.toNat := by
  have hlt := f.payloadLen.isLt
  have hflow := f.length_flow
  have h4 : f.header.getD 4 0 = (f.payloadLen >>> 8).setWidth 8 := by
    rw [header, List.getD_append_right _ _ _ _ hflow.le, hflow]
    rfl
  have h5 : f.header.getD 5 0 = f.payloadLen.setWidth 8 := by
    rw [header, List.getD_append_right _ _ _ _ (hflow.le.trans (by decide)), hflow]
    rfl
  have hoct (i : ℕ) : (f.skb csum u).octet i = (f.bytes.getD i 0).toNat := rfl
  rw [CsumSkb.ntohs, hoct, hoct, f.getD_header (by decide), f.getD_header (by decide), h4, h5]
  simp only [BitVec.toNat_setWidth, BitVec.toNat_ushiftRight, Nat.shiftRight_eq_div_pow]
  omega

theorem octet_nexthdr : (f.skb csum u).octet 6 = f.nexthdr.toNat := by
  have hflow := f.length_flow
  have h6 : f.header.getD 6 0 = f.nexthdr := by
    rw [header, List.getD_append_right _ _ _ _ (hflow.le.trans (by decide)), hflow]
    rfl
  have hoct : (f.skb csum u).octet 6 = (f.bytes.getD 6 0).toNat := rfl
  rw [hoct, f.getD_header (by decide), h6]

theorem saddr_eq : (f.bytes.drop 8).take 16 = f.saddr := by
  have hpre : (f.flow ++ ((le16 f.payloadLen).reverse ++ [f.nexthdr, f.hopLimit])).length = 8 := by
    simp only [List.length_append, List.length_reverse, length_le16, f.length_flow, List.length_cons,
      List.length_nil]
  have hbytes : f.bytes = (f.flow ++ ((le16 f.payloadLen).reverse ++ [f.nexthdr, f.hopLimit])) ++
      (f.saddr ++ (f.daddr ++ f.body)) := by
    simp only [bytes, header, List.append_assoc]
  rw [hbytes, slice_eq hpre f.length_saddr]

theorem daddr_eq : (f.bytes.drop 24).take 16 = f.daddr := by
  have hpre : (f.flow ++ ((le16 f.payloadLen).reverse ++
      ([f.nexthdr, f.hopLimit] ++ f.saddr))).length = 24 := by
    simp only [List.length_append, List.length_reverse, length_le16, f.length_flow, f.length_saddr,
      List.length_cons, List.length_nil]
  have hbytes : f.bytes = (f.flow ++ ((le16 f.payloadLen).reverse ++
      ([f.nexthdr, f.hopLimit] ++ f.saddr))) ++ (f.daddr ++ f.body) := by
    simp only [bytes, header, List.append_assoc]
  rw [hbytes, slice_eq hpre f.length_daddr]

theorem length_bytes : f.bytes.length = f.body.length + IPV6_HLEN := by
  rw [bytes, List.length_append, f.length_header, Nat.add_comm]

theorem drop_bytes : f.bytes.drop IPV6_HLEN = f.body := by
  rw [bytes, ← f.length_header, List.drop_left]

theorem partialSum_eq : (f.skb csum u).partialSum IPV6_HLEN f.payloadLen.toNat =
    if f.payloadLen.toNat ≤ f.body.length then some (wordSum f.payload) else none := by
  have hdata : (f.skb csum u).data = f.bytes := rfl
  have hiff : IPV6_HLEN + f.payloadLen.toNat ≤ f.bytes.length ↔
      f.payloadLen.toNat ≤ f.body.length := by
    rw [f.length_bytes, Nat.add_comm]
    exact Nat.add_le_add_iff_right
  unfold CsumSkb.partialSum
  by_cases hzero : (f.payloadLen.toNat : ℤ) ≤ 0
  · have hlen : f.payloadLen.toNat = 0 := by omega
    rw [if_pos hzero, payload, hlen, if_pos (Nat.zero_le _)]
    rfl
  · rw [if_neg hzero, Int.toNat_natCast, hdata, f.drop_bytes, csumPartial, Nat.zero_add]
    exact if_congr hiff rfl rfl

/-- The sum that is used is that of the payload. -/
theorem resum_eq {csum : ℕ} (hchip : endAround csum = endAround (wordSum f.body)) :
    ((f.skb csum u).resum IPV6_HLEN (f.payloadLen.toNat + IPV6_HLEN) = none ∧
      f.body.length < f.payloadLen.toNat) ∨
      ∃ t, (f.skb csum u).resum IPV6_HLEN (f.payloadLen.toNat + IPV6_HLEN) = some t ∧
        f.payloadLen.toNat ≤ f.body.length ∧ t.data = f.header ++ f.payload ∧ t.unnecessary = u ∧
          endAround t.csum = endAround (wordSum f.payload) := by
  have hdata : (f.skb csum u).data = f.bytes := rfl
  have hdiff : ((f.payloadLen.toNat + IPV6_HLEN : ℕ) : ℤ) - (IPV6_HLEN : ℕ) =
      f.payloadLen.toNat := by
    omega
  unfold CsumSkb.resum
  rw [hdata, f.length_bytes, hdiff, f.partialSum_eq]
  by_cases heq : f.body.length = f.payloadLen.toNat
  · have hpayload : f.payload = f.body := List.take_of_length_le heq.le
    rw [if_neg (not_not.mpr (congrArg (· + IPV6_HLEN) heq))]
    refine Or.inr ⟨_, rfl, heq.ge, ?_, rfl, ?_⟩
    · rw [hpayload]
      rfl
    · rw [hpayload]
      exact hchip
  · rw [if_pos fun h => heq (Nat.add_right_cancel h)]
    by_cases hle : f.payloadLen.toNat ≤ f.body.length
    · rw [if_pos hle]
      refine Or.inr ⟨_, rfl, hle, ?_, rfl, rfl⟩
      change f.bytes.take _ = _
      rw [bytes, Nat.add_comm, ← f.length_header, List.take_length_add_append]
      rfl
    · rw [if_neg hle]
      exact Or.inl ⟨rfl, not_le.mp hle⟩

end Ip6Frame

/-- Of an IPv6 frame whose octets behind the header the chip has added up, the check reads past the
end exactly if the header states a longer payload than there is. Else the padding is taken away, and
the frame is marked exactly if the checksum of the packet verifies. -/
theorem csumVerify_ipv6 (f : Ip6Frame) {csum : ℕ} (hcsum : csum ≠ 0)
    (hchip : endAround csum = endAround (wordSum f.body)) :
    (csumVerify (f.skb csum false) = none ↔ f.body.length < f.payloadLen.toNat) ∧
      ∀ t, csumVerify (f.skb csum false) = some t →
        t.data = f.header ++ f.payload ∧ (t.unnecessary = true ↔ f.Verifies) := by
  have hne : (f.skb csum false).csum ≠ 0 := hcsum
  have hhdr : (f.skb csum false).hProto = ETH_P_IPV6 := rfl
  have hbytes : (f.skb csum false).data = f.bytes := rfl
  rw [csumVerify, if_neg hne, if_pos hhdr, f.ntohs_payloadLen, f.octet_nexthdr, hbytes, f.saddr_eq,
    f.daddr_eq]
  dsimp only
  obtain ⟨hend, hlt⟩ | ⟨t, ht, hle, hdata, hu, hsum⟩ := f.resum_eq false hchip
  · rw [hend]
    exact ⟨iff_of_true rfl hlt, nofun⟩
  · have hverifies : f.Verifies ↔ csumIpv6Magic f.saddr f.daddr f.payloadLen.toNat f.nexthdr.toNat
        t.csum = 0 := by
      have hs : 2 ∣ f.saddr.length := f.length_saddr ▸ by decide
      have hd : 2 ∣ f.daddr.length := f.length_daddr ▸ by decide
      have hword (x : BitVec 32) : 2 ∣ (le32 x).reverse.length := ⟨2, rfl⟩
      rw [csumIpv6Magic, Lib.complement_eq_zero_iff, Lib.endAround_add_congr hsum, Ip6Frame.Verifies,
        Lib.wordSum_append hs, Lib.wordSum_append hd, Lib.wordSum_append (hword _),
        Lib.wordSum_append (hword _)]
      simp only [Nat.add_assoc]
    rw [ht, hverifies]
    refine ⟨iff_of_false nofun (not_lt.mpr hle), ?_⟩
    rintro _ ⟨⟩
    refine ⟨hdata, ?_⟩
    dsimp only
    by_cases hzero : csumIpv6Magic f.saddr f.daddr f.payloadLen.toNat f.nexthdr.toNat t.csum = 0
    · exact iff_of_true (if_pos hzero) hzero
    · rw [if_neg hzero, hu]
      exact iff_of_false Bool.false_ne_true hzero

/-- A header that states 8 octets in front of 4. -/
theorem csumVerify_ipv6_past : ∃ f : Ip6Frame, f.body.length = 4 ∧
    csumVerify (f.skb 0x604 false) = none := by
  let f : Ip6Frame :=
    { flow := [0x60, 0, 0, 0], payloadLen := 8, nexthdr := 17, hopLimit := 64
      saddr := List.replicate 16 1, daddr := List.replicate 16 2, body := [1, 2, 3, 4]
      length_flow := rfl, length_saddr := rfl, length_daddr := rfl }
  exact ⟨f, rfl, (csumVerify_ipv6 f (show 0x604 ≠ 0 by decide) (by decide)).1.mpr (by decide)⟩

end Skw
