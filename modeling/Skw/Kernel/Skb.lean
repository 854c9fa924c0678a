import Skw.Kernel.Types

/-! Socket buffers: the frame lies in a buffer with room in front of it and behind it, and the
operations of `linux/skbuff.h` move its ends. An end that leaves the buffer is a panic. -/
namespace Skw

/-- What an allocator returns; buffers start at multiples of four. -/
structure KBuf where
  head : ℕ
  byte : ℕ → BitVec 8
  aligned : 4 ∣ head

def KBuf.bytes (b : KBuf) (i n : ℕ) : List (BitVec 8) := (List.range n).map fun k => b.byte (i + k)

@[simp] theorem KBuf.length_bytes (b : KBuf) (i n : ℕ) : (b.bytes i n).length = n := by
  simp [bytes]

/-- A linear `struct sk_buff`: the bytes of the buffer before `data`, the frame and the bytes behind
it. The header offsets count from `head`, and `csumStart` is `csum_start` with
`CHECKSUM_PARTIAL`. -/
structure SkBuff where
  id : Ptr
  head : ℕ
  front : List (BitVec 8)
  data : List (BitVec 8)
  back : List (BitVec 8)
  networkHeader : ℕ
  transportHeader : ℕ
  csumStart : Option ℕ
  priority : Fin 8
  txRetry : BitVec 8
  cloned : Bool
  aligned : 4 ∣ head

namespace SkBuff

/-- The address of `data`. -/
def addr (s : SkBuff) : ℕ := s.head + s.front.length

/-- The octet of the buffer at an offset from `head`. -/
def octet (s : SkBuff) (i : ℕ) : ℕ := ((s.front ++ s.data ++ s.back).getD i 0).toNat

def be16 (s : SkBuff) (i : ℕ) : ℕ := 256 * s.octet i + s.octet (i + 1)

def poke (s : SkBuff) (i : ℕ) (b : BitVec 8) : SkBuff :=
  if i < s.front.length then { s with front := s.front.set i b }
  else if i < s.front.length + s.data.length then
    { s with data := s.data.set (i - s.front.length) b }
  else { s with back := s.back.set (i - s.front.length - s.data.length) b }

/-- `skb_push`. -/
def push (s : SkBuff) (n : ℕ) : Option SkBuff :=
  if n ≤ s.front.length then
    some { s with
      front := s.front.take (s.front.length - n)
      data := s.front.drop (s.front.length - n) ++ s.data }
  else none

/-- `skb_pull`, of more than there is a pointer that is not looked at. -/
def pull (s : SkBuff) (n : ℕ) : SkBuff :=
  if n ≤ s.data.length then
    { s with front := s.front ++ s.data.take n, data := s.data.drop n }
  else s

/-- `skb_reserve` of an empty buffer. -/
def reserve (s : SkBuff) (n : ℕ) : SkBuff :=
  { s with front := s.front ++ s.back.take n, back := s.back.drop n }

/-- `skb_put_data`. -/
def put (s : SkBuff) (bytes : List (BitVec 8)) : Option SkBuff :=
  if bytes.length ≤ s.back.length then
    some { s with data := s.data ++ bytes, back := s.back.drop bytes.length }
  else none

/-- The first bytes of the frame are written over. -/
def overwrite (s : SkBuff) (bytes : List (BitVec 8)) : SkBuff :=
  { s with data := bytes ++ s.data.drop bytes.length }

/-- `pskb_expand_head` into the buffer `b`: what is in front of the end of the frame moves with it.
-/
def expandHead (s : SkBuff) (b : KBuf) (nhead ntail : ℕ) : SkBuff :=
  { s with
    head := b.head
    front := b.bytes 0 nhead ++ s.front
    back := b.bytes (nhead + s.front.length + s.data.length) (s.back.length + ntail)
    networkHeader := s.networkHeader + nhead
    transportHeader := s.transportHeader + nhead
    csumStart := s.csumStart.map (· + nhead)
    cloned := false
    aligned := b.aligned }

/-- `netdev_alloc_skb`, which leaves `pad` bytes in front. -/
def alloc (b : KBuf) (id : Ptr) (pad len : ℕ) : SkBuff where
  id := id
  head := b.head
  front := b.bytes 0 pad
  data := []
  back := b.bytes pad len
  networkHeader := 0
  transportHeader := 0
  csumStart := none
  priority := 0
  txRetry := 0
  cloned := false
  aligned := b.aligned

/-- The ethernet addresses and type, read at `data`. -/
def hDest (s : SkBuff) : List (BitVec 8) := s.data.take 6

def isMulticast (s : SkBuff) : Bool := (s.data.getD 0 0).getLsbD 0

/-- The octets of `h_proto`, and the number they are in network order. -/
def hProto (s : SkBuff) : List (BitVec 8) := [s.data.getD 12 0, s.data.getD 13 0]

def ethType (s : SkBuff) : ℕ := 256 * (s.data.getD 12 0).toNat + (s.data.getD 13 0).toNat

variable {s t : SkBuff} {n : ℕ}

theorem push_of_le (h : n ≤ s.front.length) : ∃ t, s.push n = some t :=
  ⟨_, if_pos h⟩

/-- `t` is `s` with `b` in front of the frame, in the same buffer. -/
structure Prefixed (s t : SkBuff) (b : List (BitVec 8)) : Prop where
  id : t.id = s.id
  txRetry : t.txRetry = s.txRetry
  head : t.head = s.head
  back : t.back = s.back
  front : t.front.length + b.length = s.front.length
  data : t.data = b ++ s.data

theorem Prefixed.refl (s : SkBuff) : Prefixed s s [] := ⟨rfl, rfl, rfl, rfl, rfl, rfl⟩

theorem Prefixed.trans {u : SkBuff} {a b : List (BitVec 8)} (h : Prefixed s t a)
    (h' : Prefixed t u b) : Prefixed s u (b ++ a) where
  id := h'.id.trans h.id
  txRetry := h'.txRetry.trans h.txRetry
  head := h'.head.trans h.head
  back := h'.back.trans h.back
  front := by
    have hs := h.front
    have ht := h'.front
    rw [List.length_append]
    omega
  data := by rw [h'.data, h.data, List.append_assoc]

theorem Prefixed.addr {b : List (BitVec 8)} (h : Prefixed s t b) :
    t.addr + b.length = s.addr := by
  have hf := h.front
  unfold SkBuff.addr
  rw [h.head]
  omega

/-- `skb_push` puts what lay in front of the frame in front of it. -/
theorem prefixed_push (h : s.push n = some t) : ∃ b, b.length = n ∧ Prefixed s t b := by
  unfold push at h
  split_ifs at h with hn
  cases Option.some.inj h
  have hb : (s.front.drop (s.front.length - n)).length = n := by
    rw [List.length_drop]
    omega
  refine ⟨_, hb, rfl, rfl, rfl, rfl, ?_, rfl⟩
  rw [hb]
  simp only [List.length_take]
  omega

/-- What is pushed and written over. -/
theorem prefixed_overwrite {b : List (BitVec 8)} (h : s.push n = some t) (hb : b.length = n) :
    Prefixed s (t.overwrite b) b := by
  obtain ⟨old, hold, ht⟩ := prefixed_push h
  have hf := ht.front
  refine ⟨ht.id, ht.txRetry, ht.head, ht.back, ?_, ?_⟩
  · change t.front.length + _ = _
    omega
  · change b ++ t.data.drop b.length = _
    rw [ht.data, List.drop_left' (hold.trans hb.symm)]

/-- Pulling what was pushed gives the frame back. -/
theorem Prefixed.pull {b : List (BitVec 8)} (h : Prefixed s t b) :
    (t.pull b.length).data = s.data := by
  have hle : b.length ≤ t.data.length := by
    rw [h.data, List.length_append]
    omega
  unfold SkBuff.pull
  rw [if_pos hle, h.data]
  exact List.drop_left

@[simp] theorem pull_id (s : SkBuff) (n : ℕ) : (s.pull n).id = s.id := by
  unfold pull
  split_ifs <;> rfl

@[simp] theorem pull_txRetry (s : SkBuff) (n : ℕ) : (s.pull n).txRetry = s.txRetry := by
  unfold pull
  split_ifs <;> rfl

theorem put_eq {bytes : List (BitVec 8)} (h : s.put bytes = some t) :
    bytes.length ≤ s.back.length ∧
      t = { s with data := s.data ++ bytes, back := s.back.drop bytes.length } := by
  unfold put at h
  split_ifs at h with hb
  exact ⟨hb, (Option.some.inj h).symm⟩

@[simp] theorem poke_id (s : SkBuff) (i : ℕ) (b : BitVec 8) : (s.poke i b).id = s.id := by
  unfold poke
  split_ifs <;> rfl

@[simp] theorem poke_txRetry (s : SkBuff) (i : ℕ) (b : BitVec 8) :
    (s.poke i b).txRetry = s.txRetry := by
  unfold poke
  split_ifs <;> rfl

@[simp] theorem poke_cloned (s : SkBuff) (i : ℕ) (b : BitVec 8) :
    (s.poke i b).cloned = s.cloned := by
  unfold poke
  split_ifs <;> rfl

@[simp] theorem poke_length (s : SkBuff) (i : ℕ) (b : BitVec 8) :
    (s.poke i b).data.length = s.data.length := by
  unfold poke
  split_ifs <;> simp

end SkBuff
end Skw
