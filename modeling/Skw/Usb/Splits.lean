import Skw.Usb.Aggregate

/-! What `usb_handle` passes on are the packets that the transfer begins with, and they lie inside
what was received. They carry the flag of their port unless a packet without it stands behind one
that has it. -/
namespace Skw
open Lib (Fixed Pass Span Laid layoutEnd spans)

namespace DoneUrb
variable {env : HandleEnv}

/-- The length of the packet at an offset, as the packet tells it. -/
def lengthField (u : DoneUrb env) (a : ℕ) : ℕ := (u.word (a + 8)).toNat / 2 ^ 16

def packetSize (u : DoneUrb env) (a : ℕ) : ℕ := roundUp (u.lengthField a) 4

def LengthValid (u : DoneUrb env) (a : ℕ) : Prop :=
  12 < u.packetSize a ∧ u.packetSize a ≤ 2048 ∧ a + u.packetSize a ≤ u.actualLength

instance (u : DoneUrb env) (a : ℕ) : Decidable (u.LengthValid a) :=
  inferInstanceAs (Decidable (_ ∧ _))

/-- The size of the packet at an offset, if one is there. -/
def packetAt (u : DoneUrb env) (a : ℕ) : Option ℕ :=
  if a + 12 < u.actualLength ∧ u.LengthValid a then some (u.packetSize a) else none

/-- The packets that the transfer begins with, as many as there are entries for. -/
def packets (u : DoneUrb env) : List Span := spans u.packetAt env.nrSgs 0

/-- The ranges `l` are packets of the transfer from its start on. They go on up to where no valid
packet is, the entries are used up, or the flag comes behind a packet without it. -/
structure Prefix (u : DoneUrb env) (l : List Span) : Prop where
  laid : Laid 0 l
  few : l.length ≤ env.nrSgs
  received : ∀ e ∈ l, e.stop ≤ u.actualLength
  lengths : ∀ e ∈ l, e.size = roundUp (u.lengthField e.start) 4
  valid : ∀ e ∈ l, u.LengthValid e.start
  ends : l.length < env.nrSgs → u.packetAt (layoutEnd 0 l) = none ∨
    (l ≠ [] ∧ ¬u.Flagged 0 ∧ u.Flagged (layoutEnd 0 l))

/-- A transfer is split as it should be. -/
structure Splits (u : DoneUrb env) (r : Handled) : Prop where
  inside : ∀ a ∈ r.touched, a.1 + a.2 ≤ env.bufferSize
  entries : ∀ p l, r.submitted = some (p, l) → u.Prefix l
  cmd : ∀ l, r.submitted = some (.cmd, l) → ∀ e ∈ l, u.Flagged e.start
  data : ∀ l, r.submitted = some (.data, l) → ∀ e ∈ l, ¬u.Flagged e.start

/-- Behind a packet with the flag that is passed on there is none without it. -/
def OneKind (u : DoneUrb env) : Prop :=
  env.rxSubmit .cmd → u.Flagged 0 → ∀ e ∈ u.packets, u.Flagged e.start

/-- What holds before each pass of the packet loop. -/
structure Splitting (u : DoneUrb env) (s : RxSplit) : Prop where
  laid : Laid 0 s.sgs
  offset : s.offset = layoutEnd 0 s.sgs
  count : s.sgCount = s.sgs.length
  few : s.sgs.length ≤ env.nrSgs
  packets : ∀ e ∈ s.sgs, u.packetAt e.start = some e.size
  cmd : s.isCmd → u.Flagged 0
  first : s.sgs ≠ [] → u.Flagged 0 → s.isCmd
  data : ¬u.Flagged 0 → ∀ e ∈ s.sgs, ¬u.Flagged e.start
  inside : ∀ a ∈ s.touched, a.1 + a.2 ≤ env.bufferSize

/-- What holds behind the loop. -/
structure Split (u : DoneUrb env) (s : RxSplit) : Prop extends Splitting u s where
  ends : s.sgs.length < env.nrSgs → u.packetAt (layoutEnd 0 s.sgs) = none ∨
    (s.sgs ≠ [] ∧ ¬u.Flagged 0 ∧ u.Flagged (layoutEnd 0 s.sgs))

end DoneUrb

/-! The size, an arithmetic shift with a mask -/

theorem toNat_and_mask (v : BitVec 32) : (v &&& 0xfffffffc#32).toNat = v.toNat / 4 * 4 := by
  have h : v &&& 0xfffffffc#32 = v >>> 2 <<< 2 := by
    have hmask : 0xfffffffc#32 = BitVec.allOnes 32 <<< 2 := by decide
    rw [hmask]
    apply BitVec.eq_of_getLsbD_eq
    intro i hi
    rw [BitVec.getLsbD_and, BitVec.getLsbD_shiftLeft, BitVec.getLsbD_shiftLeft,
      BitVec.getLsbD_ushiftRight, BitVec.getLsbD_allOnes]
    by_cases h2 : i < 2
    · simp [h2]
    · simp [h2, hi, show 2 + (i - 2) = i by omega, show i - 2 < 32 by omega]
  have hlt := v.isLt
  rw [h, BitVec.toNat_shiftLeft, BitVec.toNat_ushiftRight, Nat.shiftRight_eq_div_pow,
    Nat.shiftLeft_eq]
  omega

/-- A length of less than `2 ^ 15` is rounded up. -/
theorem toInt_aggSize (w : BitVec 32) (h : w.toNat / 2 ^ 16 < 2 ^ 15) :
    (aggSize w).toInt = roundUp (w.toNat / 2 ^ 16) 4 := by
  have hmsb : w.msb = false := by
    rw [BitVec.msb_eq_false_iff_two_mul_lt]
    omega
  have hnat : (aggSize w).toNat = roundUp (w.toNat / 2 ^ 16) 4 := by
    unfold aggSize
    rw [toNat_and_mask, BitVec.sshiftRight_eq_of_msb_false hmsb, BitVec.toNat_add,
      BitVec.toNat_ushiftRight, Nat.shiftRight_eq_div_pow]
    show (w.toNat / 2 ^ 16 + 3) % 2 ^ 32 / 4 * 4 = (w.toNat / 2 ^ 16 + (4 - 1)) / 4 * 4
    omega
  have hlt : roundUp (w.toNat / 2 ^ 16) 4 < 2 ^ 16 := by
    unfold roundUp
    omega
  rw [BitVec.toInt_eq_toNat_of_lt (by omega), hnat]

/-- A longer one is negative, or zero. -/
theorem toInt_aggSize_of_ge (w : BitVec 32) (h : 2 ^ 15 ≤ w.toNat / 2 ^ 16) :
    (aggSize w).toInt ≤ 0 := by
  have hlt := w.isLt
  have hmsb : w.msb = true := by
    rw [BitVec.msb_eq_true_iff_two_mul_ge]
    omega
  have hnat : (aggSize w).toNat = 0 ∨ 2 ^ 31 ≤ (aggSize w).toNat := by
    unfold aggSize
    rw [toNat_and_mask, BitVec.sshiftRight_eq_of_msb_true hmsb, BitVec.toNat_add,
      BitVec.toNat_not, BitVec.toNat_ushiftRight, BitVec.toNat_not, Nat.shiftRight_eq_div_pow]
    show (2 ^ 32 - 1 - (2 ^ 32 - 1 - w.toNat) / 2 ^ 16 + 3) % 2 ^ 32 / 4 * 4 = 0 ∨
      2 ^ 31 ≤ (2 ^ 32 - 1 - (2 ^ 32 - 1 - w.toNat) / 2 ^ 16 + 3) % 2 ^ 32 / 4 * 4
    omega
  rw [BitVec.toInt_eq_toNat_cond]
  rcases hnat with hz | hge
  · rw [hz]
    decide
  · rw [if_neg (by omega)]
    omega

namespace DoneUrb
variable {env : HandleEnv} {u : DoneUrb env} {s t : RxSplit} {a k : ℕ}

theorem toInt_aggSize_word (h : u.lengthField a < 2 ^ 15) :
    (aggSize (u.word (a + 8))).toInt = u.packetSize a :=
  toInt_aggSize (u.word (a + 8)) h

/-- The checks of the loop refuse the packets whose length is not valid. -/
theorem valid_iff : ¬(u.actualLength < (aggSize (u.word (a + 8))).toInt + a ∨
      2048 < (aggSize (u.word (a + 8))).toInt ∨ (aggSize (u.word (a + 8))).toInt ≤ 12) ↔
    u.LengthValid a := by
  unfold LengthValid
  by_cases h : u.lengthField a < 2 ^ 15
  · rw [toInt_aggSize_word h]
    omega
  · have hle := toInt_aggSize_of_ge (u.word (a + 8)) (Nat.not_lt.1 h)
    have hbig : 2048 < u.packetSize a := by
      unfold packetSize roundUp
      omega
    omega

theorem toInt_toNat_aggSize (h : u.LengthValid a) :
    (aggSize (u.word (a + 8))).toInt.toNat = u.packetSize a := by
  have hlt : u.lengthField a < 2 ^ 15 := by
    have := h.2.1
    unfold packetSize roundUp at this
    omega
  rw [toInt_aggSize_word hlt, Int.toNat_natCast]

theorem packetAt_eq_some {k : ℕ} : u.packetAt a = some k ↔
    (a + 12 < u.actualLength ∧ u.LengthValid a) ∧ u.packetSize a = k := by
  unfold packetAt
  split_ifs with h
  · rw [Option.some.injEq]
    exact (and_iff_right h).symm
  · exact ⟨False.elim, fun he => absurd he.1 h⟩

theorem packetAt_eq_none :
    u.packetAt a = none ↔ ¬(a + 12 < u.actualLength ∧ u.LengthValid a) := by
  unfold packetAt
  split_ifs with h
  · exact ⟨False.elim, fun he => absurd h he⟩
  · exact iff_of_true rfl h

/-- The fields of a state that a report or a note leaves alone. -/
structure SameSplit (s t : RxSplit) : Prop where
  offset : t.offset = s.offset
  sgCount : t.sgCount = s.sgCount
  sgs : t.sgs = s.sgs
  isCmd : t.isCmd = s.isCmd

theorem sameSplit_report (u : DoneUrb env) (s : RxSplit) : SameSplit s (u.report s) := by
  unfold report
  split_ifs <;> exact ⟨rfl, rfl, rfl, rfl⟩

theorem sameSplit_note (u : DoneUrb env) (s : RxSplit) (a : ℕ) : SameSplit s (u.note s a) := by
  unfold note
  split_ifs <;> exact ⟨rfl, rfl, rfl, rfl⟩

/-- Only what the entries are matters. -/
theorem Splitting.congr (h : u.Splitting s) (hs : SameSplit s t)
    (hi : ∀ a ∈ t.touched, a.1 + a.2 ≤ env.bufferSize) : u.Splitting t where
  laid := hs.sgs ▸ h.laid
  offset := by
    rw [hs.offset, hs.sgs]
    exact h.offset
  count := by
    rw [hs.sgCount, hs.sgs]
    exact h.count
  few := hs.sgs ▸ h.few
  packets := hs.sgs ▸ h.packets
  cmd := by
    rw [hs.isCmd]
    exact h.cmd
  first := by
    rw [hs.sgs, hs.isCmd]
    exact h.first
  data := hs.sgs ▸ h.data
  inside := hi

theorem inside_report (h : ∀ a ∈ s.touched, a.1 + a.2 ≤ env.bufferSize)
    (hlt : s.offset + 12 < u.actualLength) :
    ∀ a ∈ (u.report s).touched, a.1 + a.2 ≤ env.bufferSize := by
  have hle := u.actualLength_le
  unfold report
  split_ifs
  · intro a ha
    rcases List.mem_cons.1 ha with rfl | ha
    · show s.offset + 12 + 1 ≤ _
      omega
    · exact h a ha
  · exact h

theorem inside_note (h : ∀ a ∈ s.touched, a.1 + a.2 ≤ env.bufferSize)
    (hlt : a + 16 ≤ u.actualLength) :
    ∀ b ∈ (u.note s a).touched, b.1 + b.2 ≤ env.bufferSize := by
  have hle := u.actualLength_le
  unfold note
  by_cases hcopy : s.isCmd ∧ env.cpState s.sgCount = 0
  · rw [if_pos hcopy]
    intro b hb
    rcases List.mem_cons.1 hb with rfl | hb
    · show a + 12 + 4 ≤ _
      omega
    rcases List.mem_cons.1 hb with rfl | hb
    · show a + 4 + 12 ≤ _
      omega
    · exact h b hb
  · rw [if_neg hcopy]
    exact h

theorem Splitting.sgCount_eq_zero_iff (h : u.Splitting s) : s.sgCount = 0 ↔ s.sgs = [] := by
  rw [h.count, List.length_eq_zero_iff]

theorem Splitting.offset_eq_zero (h : u.Splitting s) (hnil : s.sgs = []) : s.offset = 0 := by
  rw [h.offset, hnil]
  rfl

/-- The flag comes too late exactly behind a first packet that has none. -/
theorem Splitting.late_iff (h : u.Splitting s) :
    u.Late s ↔ s.sgs ≠ [] ∧ ¬u.Flagged 0 ∧ u.Flagged s.offset := by
  have hz := h.sgCount_eq_zero_iff
  constructor
  · rintro ⟨hflag, hcount, hcmd⟩
    have hne : s.sgs ≠ [] := fun hnil => by
      have := hz.2 hnil
      omega
    refine ⟨hne, fun h0 => ?_, hflag⟩
    rw [h.first hne h0] at hcmd
    cases hcmd
  · rintro ⟨hne, h0, hflag⟩
    have hpos : s.sgCount ≠ 0 := fun he => hne (hz.1 he)
    exact ⟨hflag, by omega, Bool.eq_false_iff.2 fun hc => h0 (h.cmd hc)⟩

/-- A packet with the flag that does not come too late is not behind one without it. -/
theorem Splitting.flagged_zero (h : u.Splitting s) (hflag : u.Flagged s.offset)
    (hlate : ¬u.Late s) : u.Flagged 0 := by
  by_contra h0
  by_cases hnil : s.sgs = []
  · rw [h.offset_eq_zero hnil] at hflag
    exact h0 hflag
  · exact hlate (h.late_iff.2 ⟨hnil, h0, hflag⟩)

theorem Splitting.readFlag_isCmd (h : u.Splitting s) : (u.readFlag s).isCmd ↔ u.Flagged 0 := by
  have hor : (u.readFlag s).isCmd ↔ s.isCmd ∨ (u.Flagged s.offset ∧ ¬u.Late s) := by
    simp [readFlag]
  rw [hor]
  constructor
  · rintro (hc | ⟨hflag, hlate⟩)
    · exact h.cmd hc
    · exact h.flagged_zero hflag hlate
  · intro h0
    by_cases hnil : s.sgs = []
    · right
      rw [h.offset_eq_zero hnil]
      exact ⟨h0, fun hl => (h.late_iff.1 hl).1 hnil⟩
    · exact .inl (h.first hnil h0)

theorem Splitting.readFlag (h : u.Splitting s) (hlt : s.offset + 12 < u.actualLength) :
    u.Splitting (u.readFlag s) where
  laid := h.laid
  offset := h.offset
  count := h.count
  few := h.few
  packets := h.packets
  cmd := h.readFlag_isCmd.1
  first := fun _ => h.readFlag_isCmd.2
  data := h.data
  inside := by
    have hle := u.actualLength_le
    intro a ha
    rcases List.mem_cons.1 ha with rfl | ha
    · show s.offset + 8 + 4 ≤ _
      omega
    · exact h.inside a ha

/-- A valid packet gets an entry. -/
theorem Splitting.setBuf (h : u.Splitting s) (hflag : u.Flagged 0 → s.isCmd)
    (hk : u.packetAt s.offset = some k) (hroom : s.sgCount < env.nrSgs)
    (hdata : ¬u.Flagged 0 → ¬u.Flagged s.offset) : u.Splitting (setBuf s k) where
  laid := h.laid.concat h.offset
  offset := by
    show s.offset + k = layoutEnd 0 (s.sgs ++ [⟨s.offset, k⟩])
    rw [Lib.layoutEnd_append, ← h.offset]
    rfl
  count := by
    show s.sgCount + 1 = (s.sgs ++ [_]).length
    rw [List.length_append, h.count]
    rfl
  few := by
    show (s.sgs ++ [_]).length ≤ _
    rw [List.length_append, ← h.count]
    exact hroom
  packets := by
    intro e he
    rcases List.mem_append.1 he with he | he
    · exact h.packets e he
    · rw [List.mem_singleton.1 he]
      exact hk
  cmd := h.cmd
  first := fun _ => hflag
  data := by
    intro h0 e he
    rcases List.mem_append.1 he with he | he
    · exact h.data h0 e he
    · rw [List.mem_singleton.1 he]
      exact hdata h0
  inside := h.inside

theorem size_of_late (h : u.Late s) : (u.size s).toInt = -1 := by
  unfold size
  rw [if_pos h]
  decide

theorem size_of_not_late (h : ¬u.Late s) : u.size s = aggSize (u.word (s.offset + 8)) := if_neg h

/-- A pass ends the loop where the transfer or the entries are used up, reports a packet that it
refuses, and takes any other one. -/
theorem pass_cases (u : DoneUrb env) (s : RxSplit) :
    (u.actualLength ≤ s.offset + 12 ∨ env.nrSgs ≤ s.sgCount) ∧ u.pass s = .done s ∨
    s.offset + 12 < u.actualLength ∧ (u.Late s ∨ ¬u.LengthValid s.offset) ∧
      u.pass s = .done (u.report (u.readFlag s)) ∨
    s.offset + 12 < u.actualLength ∧ s.sgCount < env.nrSgs ∧ ¬u.Late s ∧
      u.LengthValid s.offset ∧
      u.pass s = .next (u.note (setBuf (u.readFlag s) (u.packetSize s.offset)) s.offset) := by
  unfold pass
  by_cases hlen : u.actualLength ≤ s.offset + 12
  · exact .inl ⟨.inl hlen, if_pos hlen⟩
  have hlt := Nat.not_le.1 hlen
  by_cases hroom : env.nrSgs < s.sgCount + 1
  · exact .inl ⟨.inr (Nat.le_of_lt_succ hroom), by rw [if_neg hlen, if_pos hroom]⟩
  right
  rw [if_neg hlen, if_neg hroom]
  dsimp only
  by_cases hlate : u.Late s
  · refine .inl ⟨hlt, .inl hlate, if_pos ?_⟩
    rw [size_of_late hlate]
    omega
  rw [size_of_not_late hlate]
  by_cases hvalid : u.LengthValid s.offset
  · refine .inr ⟨hlt, Nat.not_lt.1 hroom, hlate, hvalid, ?_⟩
    rw [if_neg (valid_iff.2 hvalid), toInt_toNat_aggSize hvalid]
  · exact .inl ⟨hlt, .inr hvalid, if_pos (not_not.1 (mt valid_iff.1 hvalid))⟩

theorem Splitting.next (h : u.Splitting s) (hp : u.pass s = .next t) : u.Splitting t := by
  obtain ⟨-, he⟩ | ⟨-, -, he⟩ | ⟨hlt, hroom, hlate, hvalid, he⟩ := u.pass_cases s
  · cases he.symm.trans hp
  · cases he.symm.trans hp
  · cases he.symm.trans hp
    have hk : u.packetAt s.offset = some (u.packetSize s.offset) :=
      packetAt_eq_some.2 ⟨⟨hlt, hvalid⟩, rfl⟩
    have hset := (h.readFlag hlt).setBuf h.readFlag_isCmd.2 hk hroom
      fun h0 hflag => h0 (h.flagged_zero hflag hlate)
    refine hset.congr (sameSplit_note u _ _) (inside_note hset.inside ?_)
    have h12 := hvalid.1
    have hstop := hvalid.2.2
    have hdvd : 4 ∣ u.packetSize s.offset := Dvd.intro_left _ rfl
    omega

theorem Splitting.done (h : u.Splitting s) (hp : u.pass s = .done t) : u.Split t := by
  obtain ⟨hend, he⟩ | ⟨hlt, hbad, he⟩ | ⟨-, -, -, -, he⟩ := u.pass_cases s
  · cases he.symm.trans hp
    refine ⟨h, fun hl => .inl (packetAt_eq_none.2 ?_)⟩
    rw [← h.count] at hl
    rw [← h.offset]
    omega
  · cases he.symm.trans hp
    have hsame := sameSplit_report u (u.readFlag s)
    have hread := h.readFlag hlt
    refine ⟨hread.congr hsame (inside_report hread.inside hlt), fun _ => ?_⟩
    rw [hsame.sgs]
    show u.packetAt (layoutEnd 0 s.sgs) = none ∨
      (s.sgs ≠ [] ∧ ¬u.Flagged 0 ∧ u.Flagged (layoutEnd 0 s.sgs))
    rw [← h.offset]
    rcases hbad with hlate | hinv
    · exact .inr (h.late_iff.1 hlate)
    · exact .inl (packetAt_eq_none.2 fun hp => hinv hp.2)
  · cases he.symm.trans hp

theorem splitting_start (u : DoneUrb env) (seen : RxSeen) : u.Splitting (u.start seen) where
  laid := trivial
  offset := rfl
  count := rfl
  few := Nat.zero_le _
  packets := fun _ he => by cases he
  cmd := fun h => by cases h
  first := fun h => absurd rfl h
  data := fun _ _ he => by cases he
  inside := by
    intro a ha
    rw [List.mem_singleton.1 ha]
    unfold HandleEnv.bufferSize
    split_ifs <;> decide

/-- Each pass that goes on takes a packet, which is not empty. -/
theorem offset_lt_of_next (hp : u.pass s = .next t) :
    u.actualLength - t.offset < u.actualLength - s.offset := by
  obtain ⟨-, he⟩ | ⟨-, -, he⟩ | ⟨hlt, -, -, hvalid, he⟩ := u.pass_cases s
  · cases he.symm.trans hp
  · cases he.symm.trans hp
  · cases he.symm.trans hp
    have hpos := hvalid.1
    rw [(sameSplit_note u _ _).offset]
    show _ - (s.offset + u.packetSize s.offset) < _
    omega

theorem exists_loop (u : DoneUrb env) (seen : RxSeen) :
    ∃ fuel t, Lib.loop u.pass fuel (u.start seen) = some t :=
  ⟨_, Lib.exists_loop_eq (fun s => u.actualLength - s.offset)
    (fun _ _ => offset_lt_of_next) (Nat.lt_succ_self _)⟩

theorem Split.of_loop {seen : RxSeen} {fuel : ℕ}
    (h : Lib.loop u.pass fuel (u.start seen) = some t) : u.Split t :=
  Lib.of_loop_eq (fun _ _ => Splitting.next) (fun _ _ => Splitting.done) (u.splitting_start seen) h

theorem Split.take_sgs (h : u.Split s) : s.sgs.take s.sgCount = s.sgs := by
  rw [h.count, List.take_length]

theorem Split.prefix (h : u.Split s) : u.Prefix s.sgs where
  laid := h.laid
  few := h.few
  received := fun e he => by
    obtain ⟨⟨-, hvalid⟩, hsize⟩ := packetAt_eq_some.1 (h.packets e he)
    unfold Span.stop
    rw [← hsize]
    exact hvalid.2.2
  lengths := fun e he => (packetAt_eq_some.1 (h.packets e he)).2.symm
  valid := fun e he => (packetAt_eq_some.1 (h.packets e he)).1.2
  ends := h.ends

theorem Prefix.pairwise_disjoint {l : List Span} (h : u.Prefix l) : l.Pairwise Span.Disjoint :=
  h.laid.pairwise.imp .inl

/-- All packets go to the command port where the first one has the flag. -/
theorem Split.eq_packets (h : u.Split s) (h0 : u.Flagged 0) : s.sgs = u.packets := by
  apply h.laid.eq_spans h.packets h.few
  intro hlt
  rcases h.ends hlt with hnone | ⟨-, hne, -⟩
  · exact hnone
  · exact absurd h0 hne

theorem Split.splits_iff (h : u.Split s) (rxPacketCount : WifiPort → BitVec 32) :
    u.Splits (s.submit env rxPacketCount) ↔ u.OneKind := by
  have hsub : (s.submit env rxPacketCount).submitted =
      if env.rxSubmit s.port then some (s.port, s.sgs) else none := by
    unfold RxSplit.submit
    rw [h.take_sgs]
  constructor
  · intro hs hrx h0 e he
    rw [← h.eq_packets h0] at he
    have hcmd : s.isCmd := h.first (List.ne_nil_of_mem he) h0
    have hport : s.port = .cmd := if_pos hcmd
    rw [hport, if_pos hrx] at hsub
    exact hs.cmd s.sgs hsub e he
  · intro hk
    refine ⟨h.inside, fun p l hl => ?_, fun l hl e he => ?_, fun l hl e he => ?_⟩
    all_goals
      rw [hsub] at hl
      split_ifs at hl with hrx
      obtain ⟨hport, rfl⟩ := Prod.mk.inj (Option.some.inj hl)
    · exact h.prefix
    · have hcmd : s.isCmd := by
        by_contra hc
        have : s.port = .data := if_neg hc
        rw [this] at hport
        cases hport
      have h0 := h.cmd hcmd
      rw [hport] at hrx
      rw [h.eq_packets h0] at he
      exact hk hrx h0 e he
    · have hcmd : ¬s.isCmd := by
        intro hc
        have : s.port = .cmd := if_pos hc
        rw [this] at hport
        cases hport
      exact h.data (fun h0 => hcmd (h.first (List.ne_nil_of_mem he) h0)) e he

theorem exists_usbHandle (u : DoneUrb env) (seen : RxSeen)
    (rxPacketCount : WifiPort → BitVec 32) :
    ∃ fuel r, usbHandle fuel u seen rxPacketCount = some r := by
  obtain ⟨fuel, s, hloop⟩ := u.exists_loop seen
  exact ⟨fuel, _, Option.map_eq_some_iff.2 ⟨s, hloop, rfl⟩⟩

theorem splits_iff_of_usbHandle {seen : RxSeen} {rxPacketCount : WifiPort → BitVec 32} {fuel : ℕ}
    {r : Handled} (h : usbHandle fuel u seen rxPacketCount = some r) :
    u.Splits r ↔ u.OneKind := by
  obtain ⟨s, hloop, rfl⟩ := Option.map_eq_some_iff.1 h
  exact (Split.of_loop hloop).splits_iff rxPacketCount

/-- The packet loop of `usb_handle` ends and splits the transfer as it should be exactly if there is
no packet without the flag behind a first one that has it. -/
theorem usbHandle_splits_iff (env : HandleEnv) (u : DoneUrb env) (seen : RxSeen)
    (rxPacketCount : WifiPort → BitVec 32) :
    (∃ fuel r, usbHandle fuel u seen rxPacketCount = some r ∧ u.Splits r) ↔ u.OneKind := by
  constructor
  · rintro ⟨fuel, r, hr, hs⟩
    exact (splits_iff_of_usbHandle hr).1 hs
  · intro hk
    obtain ⟨fuel, r, hr⟩ := u.exists_usbHandle seen rxPacketCount
    exact ⟨fuel, r, hr, (splits_iff_of_usbHandle hr).2 hk⟩

end DoneUrb

/-- A command of 16 octets, and a data packet of 16 octets behind it. -/
def commandThenData : List (BitVec 8) :=
  [0, 0, 0, 0, 0, 0, 0, 0, 0, 0x80, 16, 0, 0x10, 0, 0, 0,
    0, 0, 0, 0, 0, 0, 0, 0, 0, 0, 16, 0, 0, 0, 0, 0]

def swt6621sEnv : HandleEnv where
  skwChipid := str "SWT6621S"
  maxPacketCount := 13
  clsRecoveryModeEn := false
  cpState := fun _ => 0
  jiffies := fun _ => 0
  rxSubmit := fun _ => true

def mixedUrb : DoneUrb swt6621sEnv where
  transferBuffer := ⟨commandThenData ++ List.replicate (20 * 1024 - 32) 0, by
    rw [List.length_append, List.length_replicate]
    rfl⟩
  actualLength := 32
  actualLength_le := by decide

theorem mixedUrb_not_splits :
    ¬∃ fuel r, usbHandle fuel mixedUrb ⟨0, 0, [], []⟩ (fun _ => 0) = some r ∧
      mixedUrb.Splits r := by
  rintro ⟨fuel, r, hr, hs⟩
  have h := (DoneUrb.splits_iff_of_usbHandle hr).1 hs
  have hpackets : mixedUrb.packets = [⟨0, 16⟩, ⟨16, 16⟩] := by decide
  have hflag := h rfl (by decide) ⟨16, 16⟩ (by rw [hpackets]; decide)
  exact absurd hflag (by decide)

end Skw
