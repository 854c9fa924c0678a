import Skw.Kernel.Words
import Skw.Lib.Machine
import Skw.Lib.Tally

/-! The port on which the Bluetooth driver shows its traffic. `skwbt_log_port_data_write` puts each
packet into a queue as one record, and a reader takes the queue as a stream of octets, waiting where
it is empty. Writers, the reader, `flush` and `release` run side by side. -/
namespace Skw
variable {P : Type*}

/-- `skwbt_log_pkt_st`. -/
structure LogPkt where
  dataLen : BitVec 16
  dataLen1 : BitVec 16
  isFromCp : BitVec 8
  isFromCp1 : BitVec 8
  reserved : BitVec 16
  timeH : BitVec 32
  timeL : BitVec 32
  data : List (BitVec 8)
deriving DecidableEq

def LogPkt.bytes (k : LogPkt) : List (BitVec 8) :=
  le16 k.dataLen ++ le16 k.dataLen1 ++ [k.isFromCp, k.isFromCp1] ++ le16 k.reserved ++
    le32 k.timeH ++ le32 k.timeL ++ k.data

/-- A record says in both places how long its data is and where it comes from. -/
structure LogPkt.Sound (k : LogPkt) : Prop where
  dataLen : k.dataLen.toNat = k.data.length
  dataLen1 : k.dataLen1 = k.dataLen
  isFromCp1 : k.isFromCp1 = k.isFromCp
  reserved : k.reserved = 0xAABB
  min : 4 ≤ k.data.length

/-- The record of `skwbt_log_port_data_write`, `none` when its buffer is too small: `total_len` has
16 bits. The callers cast the length of the packet to `uint16_t`. -/
def logPkt (isFromCp : BitVec 8) (data : List (BitVec 8)) (ktime : BitVec 64) : Option LogPkt :=
  let dataLen := BitVec.ofNat 16 data.length
  let totalLen := dataLen + 16
  let timestamp := ktime / 1000
  if totalLen.toNat < 16 + dataLen.toNat then none
  else
    some
      { dataLen, dataLen1 := dataLen, isFromCp, isFromCp1 := isFromCp, reserved := 0xAABB
        timeH := (timestamp >>> 32).setWidth 32, timeL := timestamp.setWidth 32
        data := data.take dataLen.toNat }

theorem logPkt_eq_none_iff {isFromCp : BitVec 8} {data : List (BitVec 8)} {ktime : BitVec 64} :
    logPkt isFromCp data ktime = none ↔ 65520 ≤ data.length % 65536 := by
  have hsum : (BitVec.ofNat 16 data.length + 16).toNat <
      16 + (BitVec.ofNat 16 data.length).toNat ↔ 65520 ≤ data.length % 65536 := by
    have h16 : (16 : BitVec 16).toNat = 16 := rfl
    rw [BitVec.toNat_add, BitVec.toNat_ofNat, h16]
    omega
  unfold logPkt
  dsimp only
  split_ifs with h
  · exact iff_of_true rfl (hsum.mp h)
  · have hlt : ¬65520 ≤ data.length % 65536 := fun hle => h (hsum.mpr hle)
    simp [hlt]

theorem sound_of_logPkt {isFromCp : BitVec 8} {data : List (BitVec 8)} {ktime : BitVec 64}
    {k : LogPkt} (hmin : 4 ≤ (BitVec.ofNat 16 data.length).toNat)
    (h : logPkt isFromCp data ktime = some k) : k.Sound := by
  have hle : (BitVec.ofNat 16 data.length).toNat ≤ data.length := by
    rw [BitVec.toNat_ofNat]
    exact Nat.mod_le ..
  have hlen : (data.take (BitVec.ofNat 16 data.length).toNat).length =
      (BitVec.ofNat 16 data.length).toNat := by
    rw [List.length_take, min_eq_left hle]
  unfold logPkt at h
  dsimp only at h
  split_ifs at h
  cases h
  exact ⟨hlen.symm, rfl, rfl, rfl, hmin.trans hlen.ge⟩

/-- The records of a stream, cut where their first word says. -/
def cutLog : ℕ → List (BitVec 8) → List (List (BitVec 8))
  | 0, _ => []
  | fuel + 1, xs =>
    if xs = [] then []
    else xs.take (16 + leNat (xs.take 2)) :: cutLog fuel (xs.drop (16 + leNat (xs.take 2)))

theorem LogPkt.take_bytes (k : LogPkt) (rest : List (BitVec 8)) :
    (k.bytes ++ rest).take 2 = le16 k.dataLen := rfl

theorem LogPkt.Sound.length_bytes {k : LogPkt} (h : k.Sound) :
    k.bytes.length = 16 + leNat (le16 k.dataLen) := by
  rw [leNat_le16, h.dataLen]
  simp [LogPkt.bytes]
  omega

/-- A stream of records is cut into them. -/
theorem cutLog_bytes {l : List LogPkt} (h : ∀ k ∈ l, k.Sound) {fuel : ℕ} (hf : l.length ≤ fuel) :
    cutLog fuel (l.map LogPkt.bytes).flatten = l.map LogPkt.bytes := by
  induction l generalizing fuel with
  | nil => cases fuel <;> rfl
  | cons k l ih =>
    have hk := (h k List.mem_cons_self).length_bytes
    cases fuel with
    | zero => cases hf
    | succ fuel =>
      have hne : k.bytes ++ (l.map LogPkt.bytes).flatten ≠ [] := by
        rw [ne_eq, List.append_eq_nil_iff, ← List.length_eq_zero_iff, hk]
        omega
      rw [List.map_cons, List.flatten_cons, cutLog, if_neg hne, k.take_bytes, ← hk,
        List.take_left, List.drop_left, ih (fun k' hk' => h k' (List.mem_cons_of_mem _ hk'))
          (Nat.le_of_succ_le_succ hf)]

/-- A call of `skwbt_log_port_data_write`: it has seen room in the queue, or its record is in the
queue and not counted yet. -/
inductive LogWriter
  | idle
  | checked (k : LogPkt)
  | queued
deriving DecidableEq

/-- A call of `skwbt_log_port_read` for `n` octets: it has seen the queue empty, or it waits. -/
inductive LogReader
  | idle
  | empty (n : ℕ)
  | waiting (n : ℕ)
deriving DecidableEq

/-- How octets left the queue; `copy_to_user` has refused those that are faulted. -/
inductive LogFate
  | read
  | faulted
  | purged
deriving DecidableEq

/-- `skwbt_log_port_info` with the calls under way, the records that were queued, and the octets
that have left the queue. -/
structure LogPort (P : Type*) where
  isOpen : Bool
  rxQ : List (List (BitVec 8))
  rxRecv : ℕ
  writer : P → LogWriter
  reader : LogReader
  overrun : Bool
  accepted : List LogPkt
  gone : List (LogFate × List (BitVec 8))

inductive LogStep (P : Type*)
  | write (p : P) (isFromCp : BitVec 8) (data : List (BitVec 8)) (ktime : BitVec 64) (alloc : Bool)
  | tail (p : P)
  | inc (p : P)
  | look (n : ℕ) (fault : Bool)
  | reset
  | wake (fault : Bool)
  | interrupt (fault : Bool)
  | opens
  | flushOne
  | release

namespace LogPort

def init : LogPort P := ⟨false, [], 0, fun _ => .idle, .idle, false, [], []⟩

/-- `skwbt_log_port_data_dequeue`. -/
def dataDequeue (s : LogPort P) (readLen : ℕ) (fault : Bool) : LogPort P :=
  let fate := if fault then LogFate.faulted else .read
  match s.rxQ with
  | [] => s
  | skb :: q =>
    if skb.length ≤ readLen then { s with rxQ := q, gone := s.gone ++ [(fate, skb)] }
    else { s with rxQ := skb.drop readLen :: q, gone := s.gone ++ [(fate, skb.take readLen)] }

/-- Whether a call has seen room in the queue. -/
def isChecked (s : LogPort P) (p : P) : Bool :=
  match s.writer p with
  | .checked _ => true
  | _ => false

variable {s t : LogPort P} {p : P}

/-- What left the queue and what is in it are the records that went in. -/
def Streams (s : LogPort P) : Prop :=
  (s.gone.map Prod.snd).flatten ++ s.rxQ.flatten = (s.accepted.map LogPkt.bytes).flatten

/-- The queue, with the records on their way into it, has at most one record for each writer above
the limit that the writers look at. -/
structure Kept [Fintype P] (s : LogPort P) : Prop where
  streams : s.Streams
  sound : ∀ k ∈ s.accepted, k.Sound
  checked : ∀ p k, s.writer p = .checked k → k.Sound
  room : s.rxQ.length + Lib.tally s.isChecked ≤ 40 + Fintype.card P

theorem kept_init [Fintype P] : (init : LogPort P).Kept where
  streams := rfl
  sound k hk := by cases hk
  checked p k hk := by cases hk
  room := by
    have hnone : Lib.tally (init : LogPort P).isChecked = 0 := Lib.tally_eq_zero.mpr fun _ => rfl
    rw [hnone]
    exact Nat.zero_le _

/-- What a dequeue leaves. -/
theorem dataDequeue_spec (s : LogPort P) (n : ℕ) (fault : Bool) :
    (s.Streams → (s.dataDequeue n fault).Streams) ∧
      (s.dataDequeue n fault).rxQ.length ≤ s.rxQ.length ∧
      (s.dataDequeue n fault).accepted = s.accepted ∧
      (s.dataDequeue n fault).writer = s.writer ∧
      (s.dataDequeue n fault).isOpen = s.isOpen := by
  unfold dataDequeue Streams
  cases hq : s.rxQ with
  | nil => simp [hq]
  | cons skb q =>
    dsimp only
    by_cases hn : skb.length ≤ n
    · rw [if_pos hn]
      refine ⟨fun h => ?_, Nat.le_succ _, rfl, rfl, rfl⟩
      rw [← h]
      simp
    · rw [if_neg hn]
      refine ⟨fun h => ?_, le_refl _, rfl, rfl, rfl⟩
      rw [← h, List.map_append, List.flatten_append, List.flatten_cons, List.flatten_cons,
        ← List.append_assoc, List.append_assoc _ _ (skb.drop n)]
      simp

/-- A step that leaves the writers alone and adds nothing to the queue. -/
theorem Kept.of_writer [Fintype P] (h : s.Kept) (hs : t.Streams)
    (hq : t.rxQ.length ≤ s.rxQ.length) (ha : t.accepted = s.accepted) (hw : t.writer = s.writer) :
    t.Kept := by
  have hc : t.isChecked = s.isChecked := by
    funext p
    unfold isChecked
    rw [hw]
  have hroom := h.room
  refine ⟨hs, ha ▸ h.sound, hw ▸ h.checked, ?_⟩
  rw [hc]
  omega

/-- A reader waits beside octets, and nothing that is under way will wake it. -/
structure Stuck (s : LogPort P) : Prop where
  waiting : ∃ n, s.reader = .waiting n
  data : s.rxQ ≠ []
  rxRecv : s.rxRecv = 0
  writers : ∀ p, s.writer p ≠ .queued

/-- A record goes into the queue between a reader's look at it and its wait. -/
def InGap (s : LogPort P) (e : LogStep P) : Prop :=
  (∃ n, s.reader = .empty n) ∧ ∃ p, e = .tail p

/-- A reader that has found nothing still finds nothing, and one that waits beside octets is
about to be woken. -/
structure Awake (s : LogPort P) : Prop where
  opened : s.reader ≠ .idle → s.isOpen = true
  empty : ∀ n, s.reader = .empty n → s.rxQ = []
  waiting : ∀ n, s.reader = .waiting n → s.rxQ ≠ [] → s.rxRecv ≠ 0 ∨ ∃ p, s.writer p = .queued

theorem awake_of_idle (h : s.reader = .idle) : s.Awake where
  opened hne := absurd h hne
  empty n hn := by cases h.symm.trans hn
  waiting n hn := by cases h.symm.trans hn

theorem reader_dataDequeue (s : LogPort P) (n : ℕ) (fault : Bool) :
    (s.dataDequeue n fault).reader = s.reader := by
  unfold dataDequeue
  cases s.rxQ with
  | nil => rfl
  | cons skb q =>
    dsimp only
    split_ifs <;> rfl

theorem Awake.not_stuck (h : s.Awake) : ¬s.Stuck := by
  rintro ⟨⟨n, hn⟩, hq, hr, hw⟩
  rcases h.waiting n hn hq with hne | ⟨p, hp⟩
  · exact hne hr
  · exact hw p hp

variable [DecidableEq P]

def setWriter (s : LogPort P) (p : P) (x : LogWriter) : LogPort P :=
  { s with writer := Function.update s.writer p x }

def step (s : LogPort P) : LogStep P → Option (LogPort P)
  | .write p isFromCp data ktime alloc =>
    match s.writer p with
    | .idle =>
      some <|
        if s.isOpen ∧ 4 ≤ (BitVec.ofNat 16 data.length).toNat ∧ s.rxQ.length ≤ 40 ∧ alloc then
          match logPkt isFromCp data ktime with
          | some k => s.setWriter p (.checked k)
          | none => { s with overrun := true }
        else s
    | _ => none
  | .tail p =>
    match s.writer p with
    | .checked k =>
      some ({ s with rxQ := s.rxQ ++ [k.bytes], accepted := s.accepted ++ [k] }.setWriter p .queued)
    | _ => none
  | .inc p =>
    match s.writer p with
    | .queued => some ({ s with rxRecv := s.rxRecv + 1 }.setWriter p .idle)
    | _ => none
  | .look n fault =>
    if s.reader = .idle ∧ s.isOpen then
      some (if s.rxQ ≠ [] then s.dataDequeue n fault else { s with reader := .empty n })
    else none
  | .reset =>
    match s.reader with
    | .empty n => some { s with rxRecv := 0, reader := .waiting n }
    | _ => none
  | .wake fault =>
    match s.reader with
    | .waiting n =>
      if s.rxRecv ≠ 0 then some { s.dataDequeue n fault with reader := .idle } else none
    | _ => none
  -- a signal ends the wait, and the read goes on as if it had been woken
  | .interrupt fault =>
    match s.reader with
    | .waiting n => some { s.dataDequeue n fault with reader := .idle }
    | _ => none
  | .opens => if s.isOpen then none else some { s with isOpen := true, rxRecv := 0 }
  | .flushOne =>
    match s.rxQ with
    | [] => none
    | skb :: q => some { s with rxQ := q, gone := s.gone ++ [(.purged, skb)] }
  | .release =>
    if s.isOpen ∧ s.reader = .idle then some { s with isOpen := false, rxRecv := s.rxRecv + 1 }
    else none

/-- A step of a writer that leaves the queue alone, and sees room in it when it is checked. -/
theorem Kept.setWriter [Fintype P] (h : s.Kept) {x : LogWriter}
    (hx : ∀ k, x = .checked k → k.Sound ∧ s.rxQ.length ≤ 40) : (s.setWriter p x).Kept := by
  have hoff : ∀ q, q ≠ p → (s.setWriter p x).isChecked q = s.isChecked q := by
    intro q hq
    unfold isChecked LogPort.setWriter
    dsimp only
    rw [Function.update_of_ne hq]
  have htally := Lib.tally_of_eq_off p hoff
  have hroom := h.room
  refine ⟨h.streams, h.sound, ?_, ?_⟩
  · intro q k hk
    by_cases hq : q = p
    · subst hq
      exact (hx k ((Function.update_self ..).symm.trans hk)).1
    · exact h.checked q k ((Function.update_of_ne hq ..).symm.trans hk)
  · change s.rxQ.length + _ ≤ _
    cases hc : (s.setWriter p x).isChecked p with
    | false =>
      rw [hc, Bool.toNat_false] at htally
      omega
    | true =>
      have hle : Lib.tally (s.setWriter p x).isChecked ≤ Fintype.card P := by
        unfold Lib.tally
        exact Finset.card_le_univ _
      unfold isChecked LogPort.setWriter at hc
      dsimp only at hc
      rw [Function.update_self] at hc
      cases x with
      | idle => cases hc
      | queued => cases hc
      | checked k =>
        have := (hx k rfl).2
        omega

/-- The record that a writer has checked goes into the queue. -/
theorem Kept.tail [Fintype P] (h : s.Kept) {k : LogPkt} (hk : s.writer p = .checked k) :
    ({ s with rxQ := s.rxQ ++ [k.bytes], accepted := s.accepted ++ [k] }.setWriter p
      .queued).Kept := by
  have hoff : ∀ q, q ≠ p → ({ s with
      rxQ := s.rxQ ++ [k.bytes]
      accepted := s.accepted ++ [k] }.setWriter p .queued).isChecked q = s.isChecked q := by
    intro q hq
    unfold isChecked LogPort.setWriter
    dsimp only
    rw [Function.update_of_ne hq]
  have hself : s.isChecked p = true := by
    unfold isChecked
    rw [hk]
  have hqueued : ({ s with
      rxQ := s.rxQ ++ [k.bytes]
      accepted := s.accepted ++ [k] }.setWriter p .queued).isChecked p = false := by
    unfold isChecked LogPort.setWriter
    dsimp only
    rw [Function.update_self]
  have htally := Lib.tally_of_eq_off p hoff
  rw [hself, hqueued] at htally
  refine ⟨?_, ?_, ?_, ?_⟩
  · have hs := h.streams
    unfold Streams at hs ⊢
    change (s.gone.map Prod.snd).flatten ++ (s.rxQ ++ [k.bytes]).flatten =
      ((s.accepted ++ [k]).map LogPkt.bytes).flatten
    rw [List.map_append, List.flatten_append, List.flatten_append, ← List.append_assoc, hs]
    rfl
  · intro k' hk'
    rcases List.mem_append.mp hk' with hk' | hk'
    · exact h.sound k' hk'
    · rw [List.mem_singleton.mp hk']
      exact h.checked p k hk
  · intro q k' hq
    by_cases hqp : q = p
    · subst hqp
      cases (Function.update_self ..).symm.trans hq
    · exact h.checked q k' ((Function.update_of_ne hqp ..).symm.trans hq)
  · have hroom := h.room
    change (s.rxQ ++ [k.bytes]).length + _ ≤ _
    rw [List.length_append, List.length_singleton]
    rw [Bool.toNat_true, Bool.toNat_false] at htally
    omega

theorem Kept.step [Fintype P] (h : s.Kept) {e : LogStep P} (ht : s.step e = some t) :
    t.Kept := by
  cases e with
  | write p isFromCp data ktime alloc =>
    simp only [LogPort.step] at ht
    split at ht
    · cases ht
      split_ifs with hc
      · cases hk : logPkt isFromCp data ktime with
        | some k =>
          refine h.setWriter fun k' hk' => ?_
          cases hk'
          exact ⟨sound_of_logPkt hc.2.1 hk, hc.2.2.1⟩
        | none => exact h.of_writer h.streams (le_refl _) rfl rfl
      · exact h
    · cases ht
  | tail p =>
    simp only [LogPort.step] at ht
    split at ht
    · next k hk =>
      cases ht
      exact h.tail hk
    · cases ht
  | inc p =>
    simp only [LogPort.step] at ht
    split at ht
    · next hp =>
      cases ht
      have hrecv := h.of_writer (t := { s with rxRecv := s.rxRecv + 1 }) h.streams (le_refl _) rfl rfl
      exact hrecv.setWriter fun k hk => by cases hk
    · cases ht
  | look n fault =>
    simp only [LogPort.step] at ht
    split_ifs at ht with hi hq
    · cases ht
      obtain ⟨hs, hlen, ha, hw, -⟩ := s.dataDequeue_spec n fault
      exact h.of_writer (hs h.streams) hlen ha hw
    · cases ht
      exact h.of_writer h.streams (le_refl _) rfl rfl
  | reset =>
    simp only [LogPort.step] at ht
    split at ht
    · cases ht
      exact h.of_writer h.streams (le_refl _) rfl rfl
    · cases ht
  | wake fault =>
    simp only [LogPort.step] at ht
    split at ht
    · next n hn =>
      split_ifs at ht
      cases ht
      obtain ⟨hs, hlen, ha, hw, -⟩ := s.dataDequeue_spec n fault
      exact h.of_writer (hs h.streams) hlen ha hw
    · cases ht
  | interrupt fault =>
    simp only [LogPort.step] at ht
    split at ht
    · next n hn =>
      cases ht
      obtain ⟨hs, hlen, ha, hw, -⟩ := s.dataDequeue_spec n fault
      exact h.of_writer (hs h.streams) hlen ha hw
    · cases ht
  | opens =>
    simp only [LogPort.step] at ht
    split_ifs at ht
    cases ht
    exact h.of_writer h.streams (le_refl _) rfl rfl
  | flushOne =>
    simp only [LogPort.step] at ht
    split at ht
    · cases ht
    · next skb q hq =>
      cases ht
      have hlen : q.length ≤ s.rxQ.length := by
        rw [hq]
        exact Nat.le_succ _
      refine h.of_writer ?_ hlen rfl rfl
      have hs := h.streams
      unfold Streams at hs ⊢
      rw [← hs, hq]
      simp
  | release =>
    simp only [LogPort.step] at ht
    split_ifs at ht
    cases ht
    exact h.of_writer h.streams (le_refl _) rfl rfl

theorem Awake.setWriter (h : s.Awake) (hp : s.writer p ≠ .queued) (x : LogWriter) :
    (s.setWriter p x).Awake := by
  refine ⟨h.opened, h.empty, fun n hn hq => ?_⟩
  rcases h.waiting n hn hq with hr | ⟨q, hw⟩
  · exact .inl hr
  · have hne : q ≠ p := by
      rintro rfl
      exact hp hw
    exact .inr ⟨q, (Function.update_of_ne hne ..).trans hw⟩

theorem Awake.step (h : s.Awake) {e : LogStep P} (hgap : ¬s.InGap e) (ht : s.step e = some t) :
    t.Awake := by
  cases e with
  | write p isFromCp data ktime alloc =>
    simp only [LogPort.step] at ht
    split at ht
    · next hp =>
      cases ht
      split_ifs with hc
      · cases hk : logPkt isFromCp data ktime with
        | some k => exact h.setWriter (by rw [hp]; exact LogWriter.noConfusion) _
        | none => exact ⟨h.opened, h.empty, h.waiting⟩
      · exact h
    · cases ht
  | tail p =>
    simp only [LogPort.step] at ht
    split at ht
    · next k hk =>
      cases ht
      refine ⟨h.opened, fun n hn => ?_, fun n hn hq => .inr ⟨p, Function.update_self ..⟩⟩
      exact absurd ⟨⟨n, hn⟩, p, rfl⟩ hgap
    · cases ht
  | inc p =>
    simp only [LogPort.step] at ht
    split at ht
    · cases ht
      exact ⟨h.opened, h.empty, fun n hn hq => .inl (Nat.succ_ne_zero _)⟩
    · cases ht
  | look n fault =>
    simp only [LogPort.step] at ht
    split_ifs at ht with hi hq
    · cases ht
      exact awake_of_idle ((s.reader_dataDequeue n fault).trans hi.1)
    · cases ht
      refine ⟨fun _ => hi.2, fun _ _ => not_not.mp hq, fun m hm => ?_⟩
      cases hm
  | reset =>
    simp only [LogPort.step] at ht
    split at ht
    · next n hn =>
      cases ht
      refine ⟨fun _ => h.opened (by rw [hn]; exact LogReader.noConfusion), fun m hm => ?_,
        fun m _ hq => absurd (h.empty n hn) hq⟩
      cases hm
    · cases ht
  | wake fault =>
    simp only [LogPort.step] at ht
    split at ht
    · split_ifs at ht
      cases ht
      exact awake_of_idle rfl
    · cases ht
  | interrupt fault =>
    simp only [LogPort.step] at ht
    split at ht
    · cases ht
      exact awake_of_idle rfl
    · cases ht
  | opens =>
    simp only [LogPort.step] at ht
    split_ifs at ht with ho
    cases ht
    have hidle : s.reader = .idle := by
      by_contra hne
      exact ho (h.opened hne)
    exact awake_of_idle hidle
  | flushOne =>
    simp only [LogPort.step] at ht
    split at ht
    · cases ht
    · next skb q hq =>
      cases ht
      have hne : s.rxQ ≠ [] := by
        rw [hq]
        exact List.cons_ne_nil _ _
      exact ⟨h.opened, fun n hn => absurd (h.empty n hn) hne, fun n hn _ => h.waiting n hn hne⟩
  | release =>
    simp only [LogPort.step] at ht
    split_ifs at ht with hi
    cases ht
    exact awake_of_idle hi.2

/-- A record comes between the look of a reader and its wait. -/
def overslept (p : P) (isFromCp : BitVec 8) (data : List (BitVec 8)) (ktime : BitVec 64) :
    List (LogStep P) :=
  [.opens, .look 20 false, .write p isFromCp data ktime true, .tail p, .inc p, .reset]

theorem exec_overslept (p : P) {isFromCp : BitVec 8} {data : List (BitVec 8)} {ktime : BitVec 64}
    {k : LogPkt} (hlen : 4 ≤ data.length % 65536) (hk : logPkt isFromCp data ktime = some k) :
    ∃ t, Lib.exec step init (overslept p isFromCp data ktime) = some t ∧ t.Stuck := by
  refine ⟨⟨true, [k.bytes], 0, fun _ => .idle, .waiting 20, false, [k], []⟩, ?_, ⟨20, rfl⟩, ?_, rfl,
    ?_⟩
  · simp [overslept, Lib.exec, step, init, setWriter, hk, hlen]
  · exact List.cons_ne_nil _ _
  · exact fun q => LogWriter.noConfusion

/-- No reader of any run sleeps beside octets with nothing under way that will wake it, exactly
when no record may come into the queue between a reader's look and its wait. -/
theorem not_stuck_iff [Nonempty P] (gap : Prop) :
    (∀ s : LogPort P, Lib.Reach step (fun s e => s.InGap e → gap) init s → ¬s.Stuck) ↔ ¬gap := by
  constructor
  · intro h hg
    obtain ⟨p⟩ := ‹Nonempty P›
    have hk : logPkt 1 [4, 5, 6, 7] 0 = some ⟨4, 4, 1, 1, 0xAABB, 0, 0, [4, 5, 6, 7]⟩ := by decide
    obtain ⟨t, ht, hstuck⟩ := exec_overslept p (by decide) hk
    exact h t (Lib.Reach.of_exec_forall (fun _ _ _ _ => hg) ht) hstuck
  · intro hg s hs
    refine (hs.invariant (I := Awake) (awake_of_idle rfl) ?_).not_stuck
    intro s e t hi hG ht
    exact hi.step (fun hin => hg (hG hin)) ht

theorem not_stuck_iff_true : ¬∀ s : LogPort Bool,
    Lib.Reach step (fun s e => s.InGap e → True) init s → ¬s.Stuck :=
  fun h => (not_stuck_iff True).mp h trivial

end LogPort
end Skw
