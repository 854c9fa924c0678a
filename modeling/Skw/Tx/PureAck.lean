import Skw.Kernel.Types
import Mathlib.Data.List.Basic

/-! Merging of the TCP acknowledgements that wait in the ack queue of an interface. The last frame
of the queue is taken and the others are looked at from the front, but the bound of that loop
shrinks with the queue, so that it ends before frames it has not looked at. -/
namespace Skw

/-- `__constant_cpu_to_be32(0x00100000)` of `linux/tcp.h`. -/
abbrev TCP_FLAG_ACK : BitVec 32 := 0x00100000

/-- A queued frame, told from others by the address of its buffer. `peerIdx` is of its control
block, `hDest` the destination of the Ethernet header, the other headers are those of a TCP frame
with `words3` for the fourth word (data offset, flags and window), and `data` is what can be read
from `skb->data` on. -/
structure TxqSkb where
  buf : ℕ
  peerIdx : BitVec 8 := 0
  hDest : BitVec 48 := 0
  saddr : BitVec 32 := 0
  daddr : BitVec 32 := 0
  source : BitVec 16 := 0
  dest : BitVec 16 := 0
  words3 : BitVec 32 := 0
  len : ℕ := 0
  data : List (BitVec 8) := []
deriving DecidableEq

namespace TxqSkb

def doff (skb : TxqSkb) : BitVec 32 := skb.words3 >>> 28

/-- The kernel's `tcp_optlen`. -/
def tcpOptlen (skb : TxqSkb) : BitVec 32 := (skb.doff - 5) * 4

/-- The kernel's `tcp_flag_word`, which is the whole word. -/
def tcpFlagWord (skb : TxqSkb) : BitVec 32 := skb.words3

/-- The flags alone. -/
def flags (skb : TxqSkb) : BitVec 8 := (skb.words3 >>> 16).setWidth 8

def isSkwSameTcpStream (skb next : TxqSkb) : Bool :=
  skb.saddr = next.saddr ∧ skb.daddr = next.daddr ∧ skb.source = next.source ∧
    skb.dest = next.dest

/-- What `skw_merge_pure_ack` takes for a frame that a later one makes superfluous. -/
def isPureAck (skb : TxqSkb) : Bool := skb.tcpOptlen = 0 ∧ skb.tcpFlagWord = TCP_FLAG_ACK

/-- A frame with TCP options or with flags other than ACK. -/
def Carries (skb : TxqSkb) : Prop := skb.tcpOptlen ≠ 0 ∨ skb.flags ≠ 0x10

/-- Without options the data offset is 5, which is part of the word that is compared. -/
theorem isPureAck_eq_false (skb : TxqSkb) : skb.isPureAck = false := by
  apply decide_eq_false
  intro h
  obtain ⟨hlen, hword⟩ := h
  unfold tcpFlagWord at hword
  unfold tcpOptlen doff at hlen
  rw [hword] at hlen
  exact absurd hlen (by decide)

variable {a b c : TxqSkb}

theorem same_refl (a : TxqSkb) : a.isSkwSameTcpStream a = true := by
  simp [isSkwSameTcpStream]

theorem same_symm (h : a.isSkwSameTcpStream b = true) : b.isSkwSameTcpStream a = true := by
  simp only [isSkwSameTcpStream, decide_eq_true_eq] at h ⊢
  exact ⟨h.1.symm, h.2.1.symm, h.2.2.1.symm, h.2.2.2.symm⟩

theorem same_trans (h : a.isSkwSameTcpStream b = true) (h' : b.isSkwSameTcpStream c = true) :
    a.isSkwSameTcpStream c = true := by
  simp only [isSkwSameTcpStream, decide_eq_true_eq] at h h' ⊢
  exact ⟨h.1.trans h'.1, h.2.1.trans h'.2.1, h.2.2.1.trans h'.2.2.1, h.2.2.2.trans h'.2.2.2⟩

/-- Frames of one stream have the same stream. -/
theorem same_congr (h : a.isSkwSameTcpStream b = true) :
    a.isSkwSameTcpStream = b.isSkwSameTcpStream := by
  funext f
  rw [Bool.eq_iff_iff]
  exact ⟨same_trans (same_symm h), same_trans h⟩

end TxqSkb

/-- The two queues of `skw_merge_pure_ack` and the frames given to `skw_skb_kfree`. -/
structure AckMerge where
  ackq : List TxqSkb
  txq : List TxqSkb
  freed : List TxqSkb
deriving DecidableEq

namespace AckMerge

/-- The body of the inner loop, for a frame `tmp` that was at the front of `ackq`. -/
def sort (m : AckMerge) (skb tmp : TxqSkb) : AckMerge :=
  if skb.isSkwSameTcpStream tmp then
    if tmp.isPureAck then { m with freed := m.freed ++ [tmp] }
    else { m with txq := m.txq ++ [tmp] }
  else { m with ackq := m.ackq ++ [tmp] }

theorem length_sort (m : AckMerge) (skb tmp : TxqSkb) :
    (m.sort skb tmp).ackq.length ≤ m.ackq.length + 1 := by
  unfold sort
  split_ifs <;> simp

/-- The inner loop from `i` on, whose bound is the length that the queue has by then. -/
def sortLoop (skb : TxqSkb) : ℕ → AckMerge → AckMerge
  | _, ⟨[], txq, freed⟩ => ⟨[], txq, freed⟩
  | i, ⟨tmp :: rest, txq, freed⟩ =>
    if i < (tmp :: rest).length then sortLoop skb (i + 1) (sort ⟨rest, txq, freed⟩ skb tmp)
    else ⟨tmp :: rest, txq, freed⟩
termination_by i m => m.ackq.length - i
decreasing_by
  have := length_sort ⟨rest, txq, freed⟩ skb tmp
  simp only [List.length_cons] at *
  omega

theorem length_sortLoop (skb : TxqSkb) (i : ℕ) (m : AckMerge) :
    (sortLoop skb i m).ackq.length ≤ m.ackq.length := by
  induction i, m using sortLoop.induct skb with
  | case1 i txq freed =>
    rw [sortLoop]
  | case2 i tmp rest txq freed hlt ih =>
    have hs := length_sort ⟨rest, txq, freed⟩ skb tmp
    rw [sortLoop, if_pos hlt]
    simp only [List.length_cons] at hs ⊢
    omega
  | case3 i tmp rest txq freed hlt =>
    rw [sortLoop, if_neg hlt]

/-- `skw_merge_pure_ack`. -/
def mergePureAck (m : AckMerge) : AckMerge :=
  if h : m.ackq = [] then m
  else
    let skb := m.ackq.getLast h
    let y := sortLoop skb 0 { m with ackq := m.ackq.dropLast }
    mergePureAck { y with txq := y.txq ++ [skb] }
termination_by m.ackq.length
decreasing_by
  have hle := length_sortLoop (m.ackq.getLast h) 0 { m with ackq := m.ackq.dropLast }
  have hpos := List.length_pos_of_ne_nil h
  simp only [List.length_dropLast] at hle
  omega

/-- How many frames of queue `q` the inner loop looks at for the frame `skb` behind them. A frame
of the same stream takes two off the `bound` that is left, any other one takes one. -/
def lookedAt (skb : TxqSkb) : ℕ → List TxqSkb → ℕ
  | 0, _ => 0
  | _ + 1, [] => 0
  | bound + 1, tmp :: q =>
    lookedAt skb (if skb.isSkwSameTcpStream tmp then bound - 1 else bound) q + 1

/-- The frames that the loop looks at. -/
def seen (skb : TxqSkb) (q : List TxqSkb) : List TxqSkb := q.take (lookedAt skb q.length q)

/-- The frames that are left at the front of the queue. -/
def unseen (skb : TxqSkb) (q : List TxqSkb) : List TxqSkb := q.drop (lookedAt skb q.length q)

/-- The queue after a pass: the frames that were looked at and stay are behind the others. -/
def rest (skb : TxqSkb) (q : List TxqSkb) : List TxqSkb :=
  unseen skb q ++ (seen skb q).filter fun tmp => !skb.isSkwSameTcpStream tmp

/-- No pass divides a stream: the frames which its inner loop leaves unseen are of streams of which
it has taken or seen no frame. -/
inductive Undivided : List TxqSkb → Prop
  | nil : Undivided []
  | pass {q : List TxqSkb} {skb : TxqSkb} :
    (∀ f ∈ unseen skb q, ∀ g ∈ skb :: seen skb q, g.isSkwSameTcpStream f = false) →
      Undivided (rest skb q) → Undivided (q ++ [skb])

/-- What `skw_merge_pure_ack` promises of the queues it is given and those it leaves. -/
structure Merged (m y : AckMerge) : Prop where
  empty : y.ackq = []
  streams : ∃ out freed, y.txq = m.txq ++ out ∧ y.freed = m.freed ++ freed ∧
    (out ++ freed).Perm m.ackq ∧ (∀ f, f.Carries → out.count f = m.ackq.count f) ∧
      ∀ a : TxqSkb, (out.filter a.isSkwSameTcpStream).Sublist (m.ackq.filter a.isSkwSameTcpStream) ∧
        ∀ f ∈ (m.ackq.filter a.isSkwSameTcpStream).getLast?, f ∈ out

variable {m y : AckMerge} {skb a : TxqSkb} {q out : List TxqSkb} {i bound : ℕ}

theorem sort_eq (m : AckMerge) (skb tmp : TxqSkb) : m.sort skb tmp =
    if skb.isSkwSameTcpStream tmp then { m with txq := m.txq ++ [tmp] }
    else { m with ackq := m.ackq ++ [tmp] } := by
  unfold sort
  rw [tmp.isPureAck_eq_false]
  rfl

/-- The inner loop with frames `r` put back behind those it has not looked at. -/
theorem sortLoop_eq (skb : TxqSkb) (q r txq freed : List TxqSkb) (i bound : ℕ)
    (hb : bound ≤ q.length) (hi : (q ++ r).length - i = bound) :
    sortLoop skb i ⟨q ++ r, txq, freed⟩ =
      ⟨q.drop (lookedAt skb bound q) ++ (r ++ (q.take (lookedAt skb bound q)).filter fun tmp =>
          !skb.isSkwSameTcpStream tmp),
        txq ++ (q.take (lookedAt skb bound q)).filter skb.isSkwSameTcpStream, freed⟩ := by
  induction q generalizing r txq i bound with
  | nil =>
    have hb0 : bound = 0 := Nat.le_zero.mp hb
    subst hb0
    cases r with
    | nil =>
      rw [List.nil_append, sortLoop]
      simp [lookedAt]
    | cons tmp r =>
      have hlen : ¬i < (tmp :: r).length := by
        simp only [List.nil_append] at hi
        omega
      rw [List.nil_append, sortLoop, if_neg hlen]
      simp [lookedAt]
  | cons tmp q ih =>
    simp only [List.cons_append, List.length_cons] at hb hi ⊢
    cases bound with
    | zero =>
      have hlen : ¬i < (tmp :: (q ++ r)).length := by
        simp only [List.length_cons]
        omega
      rw [sortLoop, if_neg hlen]
      simp [lookedAt]
    | succ bound =>
      have hlen : i < (tmp :: (q ++ r)).length := by
        simp only [List.length_cons]
        omega
      simp only [List.length_append] at hi
      rw [sortLoop, if_pos hlen, sort_eq, lookedAt]
      cases hs : skb.isSkwSameTcpStream tmp with
      | true =>
        simp only [if_true]
        rw [ih r (txq ++ [tmp]) (i + 1) (bound - 1) (by omega)
          (by simp only [List.length_append]; omega)]
        simp [hs, List.append_assoc]
      | false =>
        simp only [Bool.false_eq_true, if_false]
        rw [List.append_assoc, ih (r ++ [tmp]) txq (i + 1) bound (by omega)
          (by simp only [List.length_append, List.length_singleton]; omega)]
        simp [hs, List.append_assoc]

/-- One pass of the outer loop. -/
theorem mergePureAck_concat (q txq freed : List TxqSkb) (skb : TxqSkb) :
    mergePureAck ⟨q ++ [skb], txq, freed⟩ = mergePureAck
      ⟨rest skb q, txq ++ (seen skb q).filter skb.isSkwSameTcpStream ++ [skb], freed⟩ := by
  have hne : q ++ [skb] ≠ [] := List.concat_ne_nil skb q
  rw [mergePureAck, dif_neg hne]
  simp only [List.getLast_append_singleton, List.dropLast_concat]
  have hloop := sortLoop_eq skb q [] txq freed 0 q.length le_rfl (by simp)
  rw [List.append_nil] at hloop
  rw [hloop, List.nil_append]
  rfl

theorem filter_seen_append (skb a : TxqSkb) (q : List TxqSkb) :
    (seen skb q).filter a.isSkwSameTcpStream ++ (unseen skb q).filter a.isSkwSameTcpStream =
      q.filter a.isSkwSameTcpStream := by
  rw [← List.filter_append]
  exact congrArg (List.filter _) (List.take_append_drop _ q)

theorem filter_other_self (skb : TxqSkb) (l : List TxqSkb) :
    (l.filter fun tmp => !skb.isSkwSameTcpStream tmp).filter skb.isSkwSameTcpStream = [] := by
  simp

theorem filter_same_other (ha : ¬a.isSkwSameTcpStream skb = true) (l : List TxqSkb) :
    (l.filter skb.isSkwSameTcpStream).filter a.isSkwSameTcpStream = [] := by
  apply List.filter_eq_nil_iff.mpr
  intro f hf haf
  exact ha (TxqSkb.same_trans haf (TxqSkb.same_symm (List.mem_filter.mp hf).2))

theorem filter_other_other (ha : ¬a.isSkwSameTcpStream skb = true) (l : List TxqSkb) :
    (l.filter fun tmp => !skb.isSkwSameTcpStream tmp).filter a.isSkwSameTcpStream =
      l.filter a.isSkwSameTcpStream := by
  rw [List.filter_filter]
  apply List.filter_congr
  intro f _
  cases hf : a.isSkwSameTcpStream f with
  | false => rfl
  | true =>
    have hskb : skb.isSkwSameTcpStream f = false := by
      apply Bool.eq_false_of_not_eq_true
      intro hs
      exact ha (TxqSkb.same_trans hf (TxqSkb.same_symm hs))
    rw [hskb]
    rfl

/-- A pass that divides no stream takes the frames of each stream in their order. -/
theorem filter_pass (h : ∀ f ∈ unseen skb q, ∀ g ∈ skb :: seen skb q,
    g.isSkwSameTcpStream f = false) (a : TxqSkb) :
    ((seen skb q).filter skb.isSkwSameTcpStream ++ [skb]).filter a.isSkwSameTcpStream ++
        (rest skb q).filter a.isSkwSameTcpStream = (q ++ [skb]).filter a.isSkwSameTcpStream := by
  unfold rest
  simp only [List.filter_append]
  rw [← filter_seen_append skb a q]
  by_cases ha : a.isSkwSameTcpStream skb = true
  · -- The stream of the frame behind the queue: none of it is unseen.
    have hnone : (unseen skb q).filter skb.isSkwSameTcpStream = [] := by
      apply List.filter_eq_nil_iff.mpr
      intro f hf
      rw [h f hf skb List.mem_cons_self]
      exact Bool.false_ne_true
    rw [TxqSkb.same_congr ha, hnone, filter_other_self]
    simp
  · have hself : [skb].filter a.isSkwSameTcpStream = [] := by simp [ha]
    rw [hself, filter_same_other ha, filter_other_other ha]
    by_cases hseen : ∃ g ∈ seen skb q, a.isSkwSameTcpStream g = true
    swap
    · have hnone : (seen skb q).filter a.isSkwSameTcpStream = [] :=
        List.filter_eq_nil_iff.mpr fun g hg hag => hseen ⟨g, hg, hag⟩
      simp [hnone]
    · -- A stream of which a frame was seen.
      obtain ⟨g, hg, hag⟩ := hseen
      have hnone : (unseen skb q).filter a.isSkwSameTcpStream = [] := by
        apply List.filter_eq_nil_iff.mpr
        intro f hf haf
        have hgf := h f hf g (List.mem_cons_of_mem skb hg)
        rw [TxqSkb.same_trans (TxqSkb.same_symm hag) haf] at hgf
        cases hgf
      simp [hnone]

/-- Where no pass divides a stream, the frames of each stream leave the queue in their order and
none is freed. -/
theorem Undivided.streams (h : Undivided q) (txq freed : List TxqSkb) :
    ∃ out, mergePureAck ⟨q, txq, freed⟩ = ⟨[], txq ++ out, freed⟩ ∧
      ∀ a : TxqSkb, out.filter a.isSkwSameTcpStream = q.filter a.isSkwSameTcpStream := by
  induction h generalizing txq with
  | nil =>
    refine ⟨[], ?_, fun a => rfl⟩
    rw [mergePureAck, dif_pos rfl, List.append_nil]
  | @pass q skb hdiv _ ih =>
    obtain ⟨out, hout, hstreams⟩ := ih (txq ++ (seen skb q).filter skb.isSkwSameTcpStream ++ [skb])
    refine ⟨(seen skb q).filter skb.isSkwSameTcpStream ++ [skb] ++ out, ?_, fun a => ?_⟩
    · rw [mergePureAck_concat, hout]
      simp [List.append_assoc]
    · rw [List.filter_append, hstreams, filter_pass hdiv]

/-- A pass frees nothing and loses nothing. -/
theorem perm_pass (skb : TxqSkb) (q : List TxqSkb) :
    ((seen skb q).filter skb.isSkwSameTcpStream ++ [skb] ++ rest skb q).Perm (q ++ [skb]) := by
  have hsplit := List.filter_append_perm skb.isSkwSameTcpStream (seen skb q)
  have hq : (seen skb q ++ unseen skb q).Perm q := .of_eq (List.take_append_drop _ q)
  apply List.perm_iff_count.mpr
  intro f
  have hseen := hsplit.count_eq f
  have hall := hq.count_eq f
  unfold rest
  simp only [List.count_append] at hseen hall ⊢
  omega

/-- The queue is emptied whatever it holds, and every frame of it is passed on. -/
theorem mergePureAck_perm (q txq freed : List TxqSkb) :
    ∃ out, mergePureAck ⟨q, txq, freed⟩ = ⟨[], txq ++ out, freed⟩ ∧ out.Perm q := by
  induction hn : q.length using Nat.strong_induction_on generalizing q txq with
  | _ n ih =>
    rcases List.eq_nil_or_concat' q with rfl | ⟨q, skb, rfl⟩
    · refine ⟨[], ?_, .nil⟩
      rw [mergePureAck, dif_pos rfl, List.append_nil]
    · have hpass := perm_pass skb q
      have hlen := hpass.length_eq
      simp only [List.length_append, List.length_singleton] at hlen hn
      obtain ⟨out, hout, hperm⟩ := ih (rest skb q).length (by omega) (rest skb q)
        (txq ++ (seen skb q).filter skb.isSkwSameTcpStream ++ [skb]) rfl
      refine ⟨(seen skb q).filter skb.isSkwSameTcpStream ++ [skb] ++ out, ?_, ?_⟩
      · rw [mergePureAck_concat, hout]
        simp [List.append_assoc]
      · exact (hperm.append_left _).trans hpass

/-- An acknowledgement sent to the port `dest`. -/
def pureAckTo (dest : BitVec 16) (buf : ℕ) : TxqSkb where
  buf := buf
  source := 0x5000
  dest := dest
  words3 := 0x50100000

end AckMerge
end Skw
