import Skw.Lib.Cursor
import Skw.Lib.Buffer
import Skw.Kernel.Words
import Skw.Sdio.Control

/-! The dump of the chip's memory after a crash: a table of segments, each in packets that carry a
sequence number and the sum of their words. -/
namespace Skw
open Lib (Fixed Filling load)
open Lib.Filling (put bind pure Appends)

def SKW_DUMP_BUFFER_SIZE : ℕ := 1200 * 1024

/-- `packet_len` -/
abbrev packetLen : ℕ := 0x800

structure MemorySegment where
  name : Fixed (BitVec 8) 5
  address : BitVec 32
  size : BitVec 32
deriving DecidableEq

/-- What a dump finds: `skw_dump_mem` is there, `kmalloc` succeeds, the memory, and which of the
reads fail. -/
structure DumpEnv where
  present : Bool
  kmalloc : Bool
  mem : BitVec 32 → BitVec 8
  fails : ℕ → Bool

/-- `len` octets of the chip's memory. -/
def DumpEnv.read (env : DumpEnv) (address : BitVec 32) (len : ℕ) : List (BitVec 8) :=
  load (fun i => env.mem (address + BitVec.ofNat 32 i)) 0 len

/-- `skw_checksum`: the sum of the words, without an incomplete one at the end. -/
def checksum : List (BitVec 8) → BitVec 32
  | a :: b :: c :: d :: l => BitVec.ofNat 32 (leNat [a, b, c, d]) + checksum l
  | _ => 0

/-- The inner loop of `skw_dump_memory_into_buffer`, from read number `k` on. Returns whether all
reads succeeded, and the number of the next one. -/
def dumpPackets {n : ℕ} (env : DumpEnv) (sourceAddr : BitVec 32) (sgSize : ℕ) (seq : BitVec 16)
    (k : ℕ) : Filling (BitVec 8) n (Bool × ℕ) :=
  bind (put (le16 seq)) fun _ =>
    if env.fails k then pure (false, k + 1)
    else
      let readLen := if packetLen < sgSize then packetLen else sgSize
      let readBuf := env.read sourceAddr readLen
      bind (put readBuf) fun _ =>
      bind (put (le32 (checksum readBuf))) fun _ =>
        if sgSize - readLen = 0 then pure (true, k + 1)
        else dumpPackets env (sourceAddr + BitVec.ofNat 32 readLen) (sgSize - readLen) (seq + 1)
          (k + 1)
termination_by sgSize
decreasing_by
  have : packetLen = 0x800 := rfl
  split_ifs at * <;> omega

def segmentHeader (sg : MemorySegment) : List (BitVec 8) :=
  sg.name.cells ++ le32 sg.address ++ le32 sg.size ++ le16 (BitVec.ofNat 16 packetLen)

/-- The outer loop of `skw_dump_memory_into_buffer`, which ends after a failed read. -/
def dumpSegments {n : ℕ} (env : DumpEnv) : ℕ → List MemorySegment → Filling (BitVec 8) n Unit
  | _, [] => pure ()
  | k, sg :: rest =>
    bind (put (segmentHeader sg)) fun _ =>
    bind (dumpPackets env sg.address sg.size.toNat 0 k) fun r =>
      if r.1 then dumpSegments env r.2 rest else pure ()

/-- `sg_count`, an octet -/
def sgCount (table : List MemorySegment) : ℕ := table.length % 2 ^ 8

/-- `skw_dump_memory_into_buffer` with the table `cp_mem_seg`: the offset that it returns and the
buffer. -/
def dumpMemoryIntoBuffer {length : ℕ} (env : DumpEnv) (table : List MemorySegment)
    (buffer : Fixed (BitVec 8) length) : Option (ℕ × Fixed (BitVec 8) length) :=
  if !env.present || sgCount table = 0 || !env.kmalloc then some (0, buffer)
  else
    let dump := bind (put [BitVec.ofNat 8 (sgCount table)]) fun _ =>
      dumpSegments env 0 (table.take (sgCount table))
    (dump ⟨buffer, 0⟩).map fun r => (r.2.pos, r.2.buf)

/-- Names of four letters carry their terminator. -/
def segment (name : String) (address size : BitVec 32)
    (h : (ascii name ++ List.replicate (5 - name.length) 0).length = 5) : MemorySegment :=
  ⟨⟨ascii name ++ List.replicate (5 - name.length) 0, h⟩, address, size⟩

/-- `cp_mem_seg` -/
def cpMemSeg : List MemorySegment :=
  [segment "CODE" 0x100000 0x7A000 rfl, segment "DATA" 0x20200000 0x40000 rfl,
   segment "AHBR" 0x40000000 0x400 rfl, segment "PPBM" 0x401E0000 0xC000 rfl,
   segment "SMEM" 0x40A00000 0x58000 rfl, segment "WFRF" 0x40140000 0x4000 rfl,
   segment "CSCB" 0xE000E000 0x1000 rfl, segment "WREG" 0x40820000 0xC000 rfl,
   segment "PHYR" 0x40830000 0x4000 rfl, segment "SDIO" 0x401D0000 0x800 rfl,
   segment "BTRG" 0x41000000 0xC00 rfl, segment "BTEM" 0x41010000 0xC000 rfl,
   segment "BTGB" 0x41022000 0x40 rfl, segment "BTRF" 0x41024000 0x510 rfl,
   segment "RFTOP" 0x40148000 0xC20 rfl, segment "RCLK" 0x40150000 0x200 rfl,
   segment "BBPLL" 0x40150400 0x200 rfl]

/-! What a dump says -/

/-- A segment and the octets found in it. -/
abbrev Dumped := MemorySegment × List (BitVec 8)

/-- The first `k` octets, and the others. -/
def takeBytes (k : ℕ) (l : List (BitVec 8)) : Option (List (BitVec 8) × List (BitVec 8)) :=
  if k ≤ l.length then some (l.take k, l.drop k) else none

/-- The packets of a segment with `size` octets, of which each has at most `len`. -/
def decodePackets (len : ℕ) (size seq : ℕ) (l : List (BitVec 8)) :
    Option (List (BitVec 8) × List (BitVec 8)) := do
  let (number, l) ← takeBytes 2 l
  let (payload, l) ← takeBytes (min size len) l
  let (sum, l) ← takeBytes 4 l
  if leNat number = seq % 2 ^ 16 ∧ leNat sum = (checksum payload).toNat then
    if size ≤ len then some (payload, l)
    else if len = 0 then none
    else do
      let (more, l) ← decodePackets len (size - len) (seq + 1) l
      some (payload ++ more, l)
  else none
termination_by size
decreasing_by omega

/-- A segment of a dump. -/
def decodeSegment (l : List (BitVec 8)) : Option (Dumped × List (BitVec 8)) := do
  let (name, l) ← takeBytes 5 l
  let (address, l) ← takeBytes 4 l
  let (size, l) ← takeBytes 4 l
  let (len, l) ← takeBytes 2 l
  let (mem, l) ← decodePackets (leNat len) (leNat size) 0 l
  if h : name.length = 5 then
    some ((⟨⟨name, h⟩, BitVec.ofNat 32 (leNat address), BitVec.ofNat 32 (leNat size)⟩, mem), l)
  else none

def decodeSegments : ℕ → List (BitVec 8) → Option (List Dumped × List (BitVec 8))
  | 0, l => some ([], l)
  | count + 1, l => do
    let (sg, l) ← decodeSegment l
    let (rest, l) ← decodeSegments count l
    some (sg :: rest, l)

/-- A dump as a whole: the count of segments and the segments, with nothing left. -/
def decodeDump : List (BitVec 8) → Option (List Dumped)
  | [] => none
  | count :: l => match decodeSegments count.toNat l with
    | some (segs, []) => some segs
    | _ => none

/-- The memory of the segments. -/
def DumpEnv.contents (env : DumpEnv) (table : List MemorySegment) : List Dumped :=
  table.map fun sg => (sg, env.read sg.address sg.size.toNat)

/-! The size of a dump -/

/-- How many packets a segment takes; an empty one takes one. -/
def packetsFor (size : ℕ) : ℕ := max 1 ((size + packetLen - 1) / packetLen)

/-- The first of `m` reads that fails, counted from read number `k` on. -/
def firstFailed (fails : ℕ → Bool) : ℕ → ℕ → Option ℕ
  | _, 0 => none
  | k, m + 1 => if fails k then some 0 else (firstFailed fails (k + 1) m).map (· + 1)

/-- The size of the segments from read number `k` on: a header of 15 octets and 6 octets for each
packet, and where a read fails nothing behind its sequence number. -/
def segmentsSize (fails : ℕ → Bool) : ℕ → List MemorySegment → ℕ
  | _, [] => 0
  | k, sg :: rest => match firstFailed fails k (packetsFor sg.size.toNat) with
    | some j => 15 + j * (packetLen + 6) + 2
    | none => 15 + sg.size.toNat + 6 * packetsFor sg.size.toNat +
        segmentsSize fails (k + packetsFor sg.size.toNat) rest

/-- How many octets a dump takes. -/
def dumpSize (fails : ℕ → Bool) (table : List MemorySegment) : ℕ :=
  if sgCount table = 0 then 0 else 1 + segmentsSize fails 0 (table.take (sgCount table))

/-- How many reads a dump of the segments takes. -/
def dumpReads (segs : List MemorySegment) : ℕ :=
  (segs.map fun sg => packetsFor sg.size.toNat).sum

/-- None of the reads of a dump fails. -/
def DumpEnv.AllRead (env : DumpEnv) (table : List MemorySegment) : Prop :=
  ∀ k < dumpReads (table.take (sgCount table)), env.fails k = false

section
variable {n : ℕ} {env : DumpEnv} {fails : ℕ → Bool} {k m size len : ℕ} {l r s : List (BitVec 8)}

theorem takeBytes_append (h : s.length = k) (r : List (BitVec 8)) :
    takeBytes k (s ++ r) = some (s, r) := by
  subst h
  rw [takeBytes, if_pos (by simp), List.take_left, List.drop_left]

@[simp] theorem length_read (env : DumpEnv) (a : BitVec 32) (len : ℕ) :
    (env.read a len).length = len :=
  Lib.length_load _ _ _

/-- Memory is read in pieces. -/
theorem read_add (env : DumpEnv) (a : BitVec 32) (i j : ℕ) :
    env.read a (i + j) = env.read a i ++ env.read (a + BitVec.ofNat 32 i) j := by
  rw [DumpEnv.read, Lib.load_add, DumpEnv.read, DumpEnv.read]
  congr 1
  refine List.map_congr_left fun x _ => ?_
  simp only [Nat.zero_add, BitVec.ofNat_add, BitVec.add_assoc]

theorem packetsFor_of_le (h : size ≤ packetLen) : packetsFor size = 1 := by
  unfold packetsFor packetLen at *
  omega

theorem packetsFor_of_lt (h : packetLen < size) :
    packetsFor size = packetsFor (size - packetLen) + 1 := by
  unfold packetsFor packetLen at *
  omega

theorem firstFailed_eq_none_iff :
    firstFailed fails k m = none ↔ ∀ j < m, fails (k + j) = false := by
  induction m generalizing k with
  | zero => simp [firstFailed]
  | succ m ih =>
    rw [firstFailed]
    split_ifs with h
    · have hk : ¬ ∀ j < m + 1, fails (k + j) = false := by
        intro hall
        have h0 := hall 0 (Nat.succ_pos m)
        rw [Nat.add_zero, h] at h0
        contradiction
      exact iff_of_false (by simp) hk
    · rw [Option.map_eq_none_iff, ih]
      constructor
      · intro hall j hj
        cases j with
        | zero => simpa using h
        | succ j =>
          rw [Nat.add_comm j, ← Nat.add_assoc]
          exact hall j (by omega)
      · intro hall j hj
        rw [Nat.add_assoc, Nat.add_comm 1]
        exact hall (j + 1) (by omega)

/-- A packet is read back. -/
theorem decodePackets_packet (seq : ℕ) (hs : s.length = min size len) (r : List (BitVec 8)) :
    decodePackets len size seq
        (le16 (BitVec.ofNat 16 seq) ++ (s ++ (le32 (checksum s) ++ r))) =
      if size ≤ len then some (s, r)
      else if len = 0 then none
      else (decodePackets len (size - len) (seq + 1) r).bind fun x => some (s ++ x.1, x.2) := by
  rw [decodePackets, takeBytes_append (length_le16 _)]
  simp only [Option.bind_eq_bind, Option.bind_some, takeBytes_append hs,
    takeBytes_append (length_le32 _), leNat_le16, leNat_le32, BitVec.toNat_ofNat, and_self,
    if_true]

/-- A packet as it is written. -/
def packetBytes (seq : BitVec 16) (s : List (BitVec 8)) : List (BitVec 8) :=
  le16 seq ++ (s ++ le32 (checksum s))

theorem length_packetBytes (seq : BitVec 16) (s : List (BitVec 8)) :
    (packetBytes seq s).length = s.length + 6 := by
  simp only [packetBytes, List.length_append, length_le16, length_le32]
  omega

theorem dumpPackets_failed (a : BitVec 32) (size : ℕ) (seq : BitVec 16)
    (hk : env.fails k = true) :
    Appends (dumpPackets (n := n) env a size seq k) (le16 seq) (false, k + 1) := by
  rw [dumpPackets, ← List.append_nil (le16 seq)]
  refine .bind (.put _) ?_
  rw [if_pos hk]
  exact .pure _

theorem dumpPackets_last (a : BitVec 32) (seq : BitVec 16) (hk : env.fails k = false)
    (hsize : size ≤ packetLen) :
    Appends (dumpPackets (n := n) env a size seq k) (packetBytes seq (env.read a size))
      (true, k + 1) := by
  rw [dumpPackets, packetBytes, ← List.append_nil (le32 _)]
  refine .bind (.put _) ?_
  rw [if_neg (by simp [hk])]
  simp only [if_neg (not_lt.mpr hsize), Nat.sub_self, if_true]
  exact .bind (.put _) (.bind (.put _) (.pure _))

theorem dumpPackets_more {a : BitVec 32} {seq : BitVec 16} {b : Bool × ℕ}
    (hk : env.fails k = false) (hsize : packetLen < size)
    (hmore : Appends (dumpPackets (n := n) env (a + BitVec.ofNat 32 packetLen)
      (size - packetLen) (seq + 1) (k + 1)) l b) :
    Appends (dumpPackets (n := n) env a size seq k)
      (packetBytes seq (env.read a packetLen) ++ l) b := by
  have hrest : size - packetLen ≠ 0 := by omega
  rw [dumpPackets, packetBytes, List.append_assoc, List.append_assoc]
  refine .bind (.put _) ?_
  rw [if_neg (by simp [hk])]
  simp only [if_pos hsize, if_neg hrest]
  exact .bind (.put _) (.bind (.put _) hmore)

/-- Where a read fails the dump ends behind the sequence number of its packet. -/
theorem exists_dumpPackets_failed (a : BitVec 32) (seq : BitVec 16) (j : ℕ)
    (h : firstFailed env.fails k (packetsFor size) = some j) :
    ∃ out, Appends (dumpPackets (n := n) env a size seq k) out (false, k + j + 1) ∧
      out.length = j * (packetLen + 6) + 2 := by
  induction size using Nat.strong_induction_on generalizing a seq k j with
  | _ size ih =>
    obtain ⟨m, hm⟩ : ∃ m, packetsFor size = m + 1 := ⟨packetsFor size - 1, by
      unfold packetsFor
      omega⟩
    rw [hm, firstFailed] at h
    split_ifs at h with hk
    · rw [← Option.some.inj h]
      exact ⟨_, dumpPackets_failed a size seq hk, by simp⟩
    · rw [Bool.not_eq_true] at hk
      obtain ⟨i, hi, rfl⟩ := Option.map_eq_some_iff.mp h
      rcases Nat.lt_or_ge packetLen size with hsize | hsize
      · rw [packetsFor_of_lt hsize, Nat.add_right_cancel_iff] at hm
        rw [← hm] at hi
        obtain ⟨out, hout, hlen⟩ := ih (size - packetLen) (by unfold packetLen at *; omega)
          (a + BitVec.ofNat 32 packetLen) (seq + 1) i hi
        refine ⟨packetBytes seq (env.read a packetLen) ++ out, ?_, ?_⟩
        · rw [show k + (i + 1) + 1 = k + 1 + i + 1 by omega]
          exact dumpPackets_more hk hsize hout
        · rw [List.length_append, length_packetBytes, length_read, hlen, Nat.add_mul, Nat.one_mul]
          omega
      · rw [packetsFor_of_le hsize] at hm
        rw [show m = 0 by omega] at hi
        contradiction

/-- Where no read fails the packets say what the memory is. -/
theorem exists_dumpPackets (a : BitVec 32) (seq : ℕ)
    (h : firstFailed env.fails k (packetsFor size) = none) :
    ∃ out, Appends (dumpPackets (n := n) env a size (BitVec.ofNat 16 seq) k) out
        (true, k + packetsFor size) ∧
      out.length = size + 6 * packetsFor size ∧
      ∀ r, decodePackets packetLen size seq (out ++ r) = some (env.read a size, r) := by
  induction size using Nat.strong_induction_on generalizing a seq k with
  | _ size ih =>
    rw [firstFailed_eq_none_iff] at h
    have hk : env.fails k = false := h 0 (by unfold packetsFor; omega)
    rcases Nat.lt_or_ge packetLen size with hsize | hsize
    · have hlater : firstFailed env.fails (k + 1) (packetsFor (size - packetLen)) = none := by
        rw [firstFailed_eq_none_iff]
        intro j hj
        rw [Nat.add_assoc, Nat.add_comm 1]
        exact h (j + 1) (by rw [packetsFor_of_lt hsize]; omega)
      obtain ⟨out, hout, hlen, hdec⟩ := ih (size - packetLen) (by unfold packetLen at *; omega)
        (a + BitVec.ofNat 32 packetLen) (seq + 1) hlater
      refine ⟨packetBytes (BitVec.ofNat 16 seq) (env.read a packetLen) ++ out, ?_, ?_,
        fun r => ?_⟩
      · rw [packetsFor_of_lt hsize, show k + (packetsFor (size - packetLen) + 1) =
          k + 1 + packetsFor (size - packetLen) by omega]
        rw [BitVec.ofNat_add] at hout
        exact dumpPackets_more hk hsize hout
      · rw [List.length_append, length_packetBytes, length_read, hlen, packetsFor_of_lt hsize]
        omega
      · have hread : (env.read a packetLen).length = min size packetLen := by
          rw [length_read, min_eq_right hsize.le]
        rw [packetBytes, List.append_assoc, List.append_assoc, List.append_assoc,
          decodePackets_packet seq hread, if_neg (not_le.mpr hsize), if_neg (by decide), hdec,
          Option.bind_some, ← read_add, Nat.add_sub_cancel' hsize.le]
    · refine ⟨packetBytes (BitVec.ofNat 16 seq) (env.read a size), ?_, ?_, fun r => ?_⟩
      · rw [packetsFor_of_le hsize]
        exact dumpPackets_last a _ hk hsize
      · rw [length_packetBytes, length_read, packetsFor_of_le hsize]
      · have hread : (env.read a size).length = min size packetLen := by
          rw [length_read, min_eq_left hsize]
        rw [packetBytes, List.append_assoc, List.append_assoc, decodePackets_packet seq hread,
          if_pos hsize]

theorem length_segmentHeader (sg : MemorySegment) : (segmentHeader sg).length = 15 := by
  simp only [segmentHeader, List.length_append, sg.name.length_cells, length_le32, length_le16]

/-- A segment is read back from its header and its packets. -/
theorem decodeSegment_of_packets {sg : MemorySegment} {mem : List (BitVec 8)}
    (h : decodePackets packetLen sg.size.toNat 0 l = some (mem, r)) :
    decodeSegment (segmentHeader sg ++ l) = some ((sg, mem), r) := by
  have hlen : leNat (le16 (BitVec.ofNat 16 packetLen)) = packetLen := by decide
  simp only [decodeSegment, segmentHeader, List.append_assoc, Option.bind_eq_bind,
    takeBytes_append sg.name.length_cells, takeBytes_append (length_le32 _),
    takeBytes_append (length_le16 _), Option.bind_some, leNat_le32, hlen, h,
    sg.name.length_cells, dif_pos, BitVec.ofNat_toNat, BitVec.setWidth_eq]

/-- The segments that are written, up to a failed read. -/
theorem exists_dumpSegments (env : DumpEnv) (k : ℕ) (segs : List MemorySegment) :
    ∃ out, Appends (dumpSegments (n := n) env k segs) out () ∧
      out.length = segmentsSize env.fails k segs ∧
      ((∀ j < dumpReads segs, env.fails (k + j) = false) →
        ∀ r, decodeSegments segs.length (out ++ r) = some (env.contents segs, r)) := by
  induction segs generalizing k with
  | nil => exact ⟨[], .pure (), rfl, fun _ r => rfl⟩
  | cons sg rest ih =>
    rw [dumpSegments, segmentsSize]
    cases hf : firstFailed env.fails k (packetsFor sg.size.toNat) with
    | some j =>
      obtain ⟨out, hout, hlen⟩ := exists_dumpPackets_failed (n := n) sg.address 0 j hf
      refine ⟨segmentHeader sg ++ (out ++ []), .bind (.put _) (.bind hout (.pure ())), ?_, ?_⟩
      · simp only [List.length_append, length_segmentHeader, hlen, List.length_nil]
        omega
      · intro hall
        have hnone : firstFailed env.fails k (packetsFor sg.size.toNat) = none := by
          rw [firstFailed_eq_none_iff]
          intro i hi
          refine hall i ?_
          rw [dumpReads, List.map_cons, List.sum_cons]
          omega
        rw [hnone] at hf
        contradiction
    | none =>
      obtain ⟨out, hout, hlen, hdec⟩ := exists_dumpPackets (n := n) sg.address 0 hf
      obtain ⟨later, hlater, hlength, hlaterDec⟩ := ih (k + packetsFor sg.size.toNat)
      refine ⟨segmentHeader sg ++ (out ++ later), .bind (.put _) (.bind hout hlater), ?_, ?_⟩
      · simp only [List.length_append, length_segmentHeader, hlen, hlength]
        omega
      · intro hall r
        have hrest : ∀ j < dumpReads rest,
            env.fails (k + packetsFor sg.size.toNat + j) = false := by
          intro j hj
          rw [Nat.add_assoc]
          refine hall _ ?_
          rw [dumpReads, List.map_cons, List.sum_cons]
          exact Nat.add_lt_add_left hj _
        have hseg := decodeSegment_of_packets (hdec (later ++ r))
        simp only [List.length_cons, decodeSegments, List.append_assoc, hseg, Option.bind_eq_bind,
          Option.bind_some, hlaterDec hrest r]
        rfl

variable {length : ℕ} {table : List MemorySegment}

theorem sgCount_lt (table : List MemorySegment) : sgCount table < 2 ^ 8 :=
  Nat.mod_lt _ (by decide)

theorem length_take_sgCount (table : List MemorySegment) :
    (table.take (sgCount table)).length = sgCount table := by
  rw [List.length_take]
  exact min_eq_left (Nat.mod_le _ _)

/-- Without a segment, the reader or its buffer nothing is written. -/
theorem dumpMemoryIntoBuffer_of_not (buffer : Fixed (BitVec 8) length)
    (h : ¬(env.present = true ∧ sgCount table ≠ 0 ∧ env.kmalloc = true)) :
    dumpMemoryIntoBuffer env table buffer = some (0, buffer) := by
  rw [dumpMemoryIntoBuffer, if_pos]
  simp only [Bool.or_eq_true, Bool.not_eq_true', decide_eq_true_eq]
  by_contra hno
  refine h ⟨?_, fun h0 => hno (.inl (.inr h0)), ?_⟩
  · by_contra hp
    exact hno (.inl (.inl (Bool.eq_false_of_not_eq_true hp)))
  · by_contra hm
    exact hno (.inr (Bool.eq_false_of_not_eq_true hm))

/-- A dump is written as a whole, or leaves the buffer where it is larger. -/
theorem dumpMemoryIntoBuffer_run (env : DumpEnv) (table : List MemorySegment)
    (buffer : Fixed (BitVec 8) length) (hpresent : env.present = true)
    (hcount : sgCount table ≠ 0) (hkmalloc : env.kmalloc = true) :
    ∃ out, out.length = dumpSize env.fails table ∧
      (env.AllRead table →
        decodeDump out = some (env.contents (table.take (sgCount table)))) ∧
      ((∃ c, dumpMemoryIntoBuffer env table buffer = some (out.length, c) ∧
          c.cells = out ++ buffer.cells.drop out.length) ∧ out.length ≤ length ∨
        dumpMemoryIntoBuffer env table buffer = none ∧ length < out.length) := by
  obtain ⟨out, hout, hlen, hdec⟩ :=
    exists_dumpSegments (n := length) env 0 (table.take (sgCount table))
  refine ⟨[BitVec.ofNat 8 (sgCount table)] ++ out, ?_, fun hall => ?_, ?_⟩
  · rw [List.length_append, List.length_singleton, hlen, dumpSize, if_neg hcount]
  · have hread : ∀ j < dumpReads (table.take (sgCount table)), env.fails (0 + j) = false := by
      intro j hj
      rw [Nat.zero_add]
      exact hall j hj
    have hseg := hdec hread []
    rw [length_take_sgCount, List.append_nil] at hseg
    have hmod : sgCount table % 2 ^ 8 = sgCount table := Nat.mod_eq_of_lt (sgCount_lt table)
    simp only [List.singleton_append, decodeDump, BitVec.toNat_ofNat, hmod, hseg]
  · have happends : Appends (bind (put [BitVec.ofNat 8 (sgCount table)]) fun _ =>
        dumpSegments (n := length) env 0 (table.take (sgCount table)))
        ([BitVec.ofNat 8 (sgCount table)] ++ out) () := .bind (.put _) hout
    have hdump : dumpMemoryIntoBuffer env table buffer =
        ((bind (put [BitVec.ofNat 8 (sgCount table)]) fun _ =>
          dumpSegments env 0 (table.take (sgCount table))) ⟨buffer, 0⟩).map
            fun r => (r.2.pos, r.2.buf) := by
      rw [dumpMemoryIntoBuffer, if_neg (by simp [hpresent, hcount, hkmalloc])]
    rcases happends.run buffer with ⟨⟨c, hc, hholds⟩, hle⟩ | ⟨hnone, hlt⟩
    · refine .inl ⟨⟨c.buf, ?_, hholds.cells⟩, hle⟩
      rw [hdump, hc, Option.map_some, hholds.pos]
    · refine .inr ⟨?_, hlt⟩
      rw [hdump, hnone, Option.map_none]

/-- The count tells all segments when it is their number. -/
theorem contents_take_iff :
    env.contents (table.take (sgCount table)) = env.contents table ↔ table.length ≤ 255 := by
  constructor
  · intro h
    have hlen := congrArg List.length h
    rw [DumpEnv.contents, DumpEnv.contents, List.length_map, List.length_map,
      length_take_sgCount] at hlen
    have hlt := sgCount_lt table
    omega
  · intro h
    have hmod : sgCount table = table.length := Nat.mod_eq_of_lt (by omega)
    rw [hmod, List.take_length]

/-- A dump stays inside its buffer, returns how much it wrote and says what the memory of all
segments is exactly when its size is at most that of the buffer and the table has one to 255
segments. -/
theorem dumpMemoryIntoBuffer_iff (env : DumpEnv) (table : List MemorySegment)
    (buffer : Fixed (BitVec 8) length) :
    (∃ out c, dumpMemoryIntoBuffer env table buffer = some (out.length, c) ∧
      c.cells = out ++ buffer.cells.drop out.length ∧
      (env.present = true → env.kmalloc = true → env.AllRead table →
        decodeDump out = some (env.contents table))) ↔
    (env.present = true → env.kmalloc = true → dumpSize env.fails table ≤ length ∧
      (env.AllRead table → 1 ≤ table.length ∧ table.length ≤ 255)) := by
  by_cases hrun : env.present = true ∧ sgCount table ≠ 0 ∧ env.kmalloc = true
  · obtain ⟨hpresent, hcount, hkmalloc⟩ := hrun
    have hpos : 1 ≤ table.length := by
      unfold sgCount at hcount
      omega
    obtain ⟨out, hlen, hdec, ⟨⟨c, hc, hcells⟩, hle⟩ | ⟨hnone, hlt⟩⟩ :=
      dumpMemoryIntoBuffer_run env table buffer hpresent hcount hkmalloc
    · constructor
      · rintro ⟨out', c', hc', hcells', hdec'⟩ _ _
        refine ⟨hlen ▸ hle, fun hall => ⟨hpos, ?_⟩⟩
        rw [hc, Option.some.injEq, Prod.mk.injEq] at hc'
        obtain ⟨hsame, rfl⟩ := hc'
        have hout : out = out' := List.append_inj_left (hcells.symm.trans hcells') hsame
        have hboth := (hdec hall).symm.trans (hout ▸ hdec' hpresent hkmalloc hall)
        exact contents_take_iff.mp (Option.some.inj hboth)
      · intro hcond
        obtain ⟨-, htable⟩ := hcond hpresent hkmalloc
        refine ⟨out, c, hc, hcells, fun _ _ hall => ?_⟩
        rw [hdec hall, contents_take_iff.mpr (htable hall).2]
    · constructor
      · rintro ⟨out', c', hc', -⟩
        rw [hnone] at hc'
        contradiction
      · intro hcond
        have hfits := (hcond hpresent hkmalloc).1
        omega
  · have hdump := dumpMemoryIntoBuffer_of_not buffer hrun
    by_cases hboth : env.present = true ∧ env.kmalloc = true
    · have hcount : sgCount table = 0 := by
        by_contra h
        exact hrun ⟨hboth.1, h, hboth.2⟩
      have hall : env.AllRead table := by
        intro k hk
        rw [hcount, List.take_zero] at hk
        contradiction
      constructor
      · rintro ⟨out, c, hc, -, hdec⟩
        rw [hdump, Option.some.injEq, Prod.mk.injEq] at hc
        rw [List.eq_nil_of_length_eq_zero hc.1.symm] at hdec
        have hnone := hdec hboth.1 hboth.2 hall
        contradiction
      · intro hcond
        have htable := (hcond hboth.1 hboth.2).2 hall
        unfold sgCount at hcount
        omega
    · constructor
      · intro _ hp hm
        exact absurd ⟨hp, hm⟩ hboth
      · intro _
        refine ⟨[], buffer, hdump, rfl, fun hp hm => ?_⟩
        exact absurd ⟨hp, hm⟩ hboth

end

/-- The table of the driver needs more than its buffer. -/
theorem cpMemSeg_overruns :
    dumpMemoryIntoBuffer ⟨true, true, fun _ => 0, fun _ => false⟩ cpMemSeg
      (Fixed.fill SKW_DUMP_BUFFER_SIZE 0) = none := by
  obtain ⟨out, hlen, -, ⟨-, hle⟩ | ⟨hnone, -⟩⟩ :=
    dumpMemoryIntoBuffer_run ⟨true, true, fun _ => 0, fun _ => false⟩ cpMemSeg
      (Fixed.fill SKW_DUMP_BUFFER_SIZE 0) rfl (by decide) rfl
  · have hsize : dumpSize (fun _ => false) cpMemSeg = 1322400 := by decide +kernel
    rw [hlen, hsize] at hle
    exact absurd hle (by decide)
  · exact hnone

end Skw
