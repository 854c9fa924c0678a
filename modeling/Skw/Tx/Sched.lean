import Skw.Lib.RoundRobin
import Skw.Tx.Prepare
import Mathlib.Algebra.Order.BigOperators.Group.Finset
import Mathlib.Data.Fintype.Basic

/-! The scheduling loop of `skw_tx_worker` for one lmac: it goes round the places of `tx` whose bit
is set in the map and takes a frame from each, while there is credit, quota and room in the ring. -/
namespace Skw

abbrev SKW_PEER_FLAG_DEAUTHED : BitVec 32 := 0x10

/-- What the loop uses of `skw->hw`. -/
structure TxHw where
  bus : SkwBus
  nrLmac : ℕ

/-- An entry of a peer context; `peer` are the flags of its peer. -/
structure TxEntry where
  peer : Option (BitVec 32)

/-- What a turn of the loop finds in the rest of the driver: the free descriptors of the ring of
the lmac, and the entries of the peers by lmac and index. -/
structure TxView where
  available : ℕ
  entry : ℕ → ℕ → Option TxEntry

def isUnicastEtherAddr (a : BitVec 48) : Bool := !a.getLsbD 40

/-- The entry of the peer of a frame forbids to send it. -/
def TxEntry.invalid (e : TxEntry) (skb : TxqSkb) : Bool :=
  match e.peer with
  | some flags => flags &&& SKW_PEER_FLAG_DEAUTHED != 0
  | none => isUnicastEtherAddr skb.hDest

/-- `is_skw_peer_data_valid`: the index of the peer is looked up in each lmac. -/
def isSkwPeerDataValid (hw : TxHw) (v : TxView) (skb : TxqSkb) : Bool :=
  (List.range hw.nrLmac).all fun mac => (v.entry mac skb.peerIdx.toNat).all fun e => !e.invalid skb

/-- `skw_vring_check`. -/
def skwVringCheck (hw : TxHw) (v : TxView) (txList : List TxqSkb) : Bool :=
  (hw.bus = .sdio ∨ hw.bus = .sdio2) ∧ v.available ≤ txList.length + 1

/-- The quota of a place is topped up once. -/
def TxInfo.topUp (x : TxInfo) (base : CInt) : TxInfo :=
  if x.reset then
    let quota := x.quota + base
    { x with quota := if quota.slt 0 then 0 else quota, reset := false }
  else x

namespace TxLmac

def topUp (l : TxLmac) (base : CInt) (i : ℕ) : TxLmac :=
  { l with tx := Function.update l.tx i ((l.tx i).topUp base) }

/-- `txq_map ^= BIT(i)`. -/
def flip (l : TxLmac) (i : ℕ) : TxLmac := { l with txqMap := l.txqMap ^^^ BitVec.twoPow 16 i }

/-- A frame is paid for: the quota of its place and the credit go down. -/
def pay (l : TxLmac) (i : ℕ) : TxLmac :=
  { l with
    tx := Function.update l.tx i { l.tx i with quota := (l.tx i).quota - 1 }
    cred := l.cred - 1 }

end TxLmac

/-- The loop at the test of its condition, with the queues of the access category; `left` is set
by a `break`. -/
structure TxSched where
  i : ℕ
  lmac : TxLmac
  cache : IfaceId → List TxqSkb
  txList : List TxqSkb
  freed : List TxqSkb
  left : Bool

namespace TxSched

/-- `__skb_unlink` of the first frame of queue `n`. -/
def unlink (s : TxSched) (n : IfaceId) : TxSched :=
  { s with cache := Function.update s.cache n (s.cache n).tail }

def done (s : TxSched) : Bool := s.left || s.lmac.txqMap == 0

/-- The body of the loop from the look at the queue of place `s.i` on. -/
def serve (hw : TxHw) (v : TxView) (s : TxSched) : TxSched :=
  let n := (s.lmac.tx s.i).list
  match s.cache n with
  | [] => { s with lmac := s.lmac.flip s.i, i := s.i + 1 }
  | skb :: _ =>
    if isSkwPeerDataValid hw v skb = false then
      { s.unlink n with freed := s.freed ++ [skb], i := s.i + 1 }
    else
      let lmac := { s.lmac with txCountLimit := s.lmac.txCountLimit - 1 }
      if s.lmac.txCountLimit = 0 then { s with lmac, left := true }
      else if (s.lmac.tx s.i).quota = 0 then { s with lmac := lmac.flip s.i, i := s.i + 1 }
      else { s.unlink n with lmac := lmac.pay s.i, txList := s.txList ++ [skb], i := s.i + 1 }

/-- One turn of the loop. -/
def turn (hw : TxHw) (base : CInt) (s : TxSched) (v : TxView) : TxSched :=
  if s.done then s
  else
    let i := s.i % s.lmac.nrTxq
    if s.lmac.txqMap.getLsbD i = false then { s with i := i + 1 }
    else if skwVringCheck hw v s.txList then { s with i, left := true }
    else if s.lmac.cred = 0 then { s with i, left := true }
    else serve hw v { s with i, lmac := s.lmac.topUp base i }

/-- The loop after `k` turns, where turn `j` finds `env j`. -/
def turns (hw : TxHw) (base : CInt) (env : ℕ → TxView) (s : TxSched) : ℕ → TxSched
  | 0 => s
  | k + 1 => turn hw base (turns hw base env s k) (env k)

/-- The loop as it is entered. -/
def enter (l : TxLmac) (cache : IfaceId → List TxqSkb) : TxSched := ⟨0, l, cache, [], [], false⟩

end TxSched

/-- A frame taken from a queue, either to be sent or because its peer is invalid. -/
structure TxTaken where
  queue : IfaceId
  skb : TxqSkb
  sent : Bool

namespace TxSched

def sent (log : List TxTaken) : List TxqSkb := (log.filter (·.sent)).map (·.skb)

def dropped (log : List TxTaken) : List TxqSkb := (log.filter (!·.sent)).map (·.skb)

def takenFrom (n : IfaceId) (log : List TxTaken) : List TxqSkb :=
  (log.filter (·.queue = n)).map (·.skb)

/-- The frames taken so far, in their order, are the first of their queues. -/
structure Takes (hw : TxHw) (env : ℕ → TxView) (s t : TxSched) (log : List TxTaken) : Prop where
  txList : t.txList = s.txList ++ sent log
  freed : t.freed = s.freed ++ dropped log
  order : ∀ n, takenFrom n log ++ t.cache n = s.cache n
  valid : ∀ f ∈ log, ∃ k, isSkwPeerDataValid hw (env k) f.skb = f.sent

/-- What holds in every state `t` of the loop that was entered as `s`. -/
structure Sound (hw : TxHw) (env : ℕ → TxView) (s t : TxSched) (log : List TxTaken) : Prop
    extends Takes hw env s t log where
  bound : ((sent log).length : ℤ) ≤ min s.lmac.cred.toInt s.lmac.txCountLimit.toInt
  cred : 0 ≤ t.lmac.cred.toInt
  quota : ∀ k, 0 ≤ (t.lmac.tx k).quota.toInt ∨ (t.lmac.tx k).quota = (s.lmac.tx k).quota

/-- What the loop promises, whatever its turns find. -/
structure Scheduled (hw : TxHw) (base : CInt) (s : TxSched) : Prop where
  terminates : ∃ k, ∀ env, (turns hw base env s k).done = true
  sound : ∀ env k, ∃ log, Sound hw env s (turns hw base env s k) log

/-- What a turn can do: nothing at a place whose bit is not set, a `break`, an empty queue or a
spent quota taken out of the map, and a frame dropped or sent. -/
inductive Turned (hw : TxHw) (base : CInt) (v : TxView) (s : TxSched) (i : ℕ) (l : TxLmac)
    (n : IfaceId) : TxSched → Prop
  | skip : s.lmac.txqMap.getLsbD i = false → Turned hw base v s i l n { s with i := i + 1 }
  | leave : skwVringCheck hw v s.txList = true ∨ s.lmac.cred = 0 →
      Turned hw base v s i l n { s with i, left := true }
  | empty : s.lmac.txqMap.getLsbD i = true → s.cache n = [] →
      Turned hw base v s i l n { s with lmac := l.flip i, i := i + 1 }
  | drop (skb : TxqSkb) (rest : List TxqSkb) : s.lmac.txqMap.getLsbD i = true →
      s.cache n = skb :: rest → isSkwPeerDataValid hw v skb = false →
      Turned hw base v s i l n
        { s with
          lmac := l, cache := Function.update s.cache n rest
          freed := s.freed ++ [skb], i := i + 1 }
  | limit : s.lmac.txqMap.getLsbD i = true → l.txCountLimit = 0 →
      Turned hw base v s i l n
        { s with lmac := { l with txCountLimit := l.txCountLimit - 1 }, i, left := true }
  | spent : s.lmac.txqMap.getLsbD i = true → l.txCountLimit ≠ 0 → (l.tx i).quota = 0 →
      Turned hw base v s i l n
        { s with lmac := { l with txCountLimit := l.txCountLimit - 1 }.flip i, i := i + 1 }
  | send (skb : TxqSkb) (rest : List TxqSkb) : s.lmac.txqMap.getLsbD i = true →
      s.cache n = skb :: rest → isSkwPeerDataValid hw v skb = true →
      skwVringCheck hw v s.txList = false → l.cred ≠ 0 → l.txCountLimit ≠ 0 →
      (l.tx i).quota ≠ 0 →
      Turned hw base v s i l n
        { s with
          lmac := { l with txCountLimit := l.txCountLimit - 1 }.pay i
          cache := Function.update s.cache n rest
          txList := s.txList ++ [skb], i := i + 1 }

end TxSched

namespace TxLmac
variable (l : TxLmac) (base : CInt) (i : ℕ)

@[simp] theorem topUp_txqMap : (l.topUp base i).txqMap = l.txqMap := rfl

@[simp] theorem topUp_cred : (l.topUp base i).cred = l.cred := rfl

@[simp] theorem topUp_txCountLimit : (l.topUp base i).txCountLimit = l.txCountLimit := rfl

@[simp] theorem topUp_nrTxq : (l.topUp base i).nrTxq = l.nrTxq := rfl

@[simp] theorem topUp_tx_self : (l.topUp base i).tx i = (l.tx i).topUp base := by
  simp [topUp]

theorem topUp_tx_of_ne {k : ℕ} (h : k ≠ i) : (l.topUp base i).tx k = l.tx k := by
  simp [topUp, Function.update_of_ne h]

theorem getLsbD_flip (k : ℕ) :
    (l.flip i).txqMap.getLsbD k = (l.txqMap.getLsbD k ^^ (decide (i < 16) && decide (i = k))) := by
  rw [flip, BitVec.getLsbD_xor, BitVec.getLsbD_twoPow]

end TxLmac

namespace TxSched
variable {hw : TxHw} {base : CInt} {env : ℕ → TxView} {v : TxView} {s t : TxSched}
  {log : List TxTaken}

theorem turned (hw : TxHw) (base : CInt) (v : TxView) (hs : s.done = false) :
    Turned hw base v s (s.i % s.lmac.nrTxq) (s.lmac.topUp base (s.i % s.lmac.nrTxq))
      ((s.lmac.topUp base (s.i % s.lmac.nrTxq)).tx (s.i % s.lmac.nrTxq)).list
      (turn hw base s v) := by
  unfold turn
  rw [hs, if_neg Bool.false_ne_true]
  dsimp only
  split_ifs with hbit hfull hcred
  · exact .skip hbit
  · exact .leave (.inl hfull)
  · exact .leave (.inr hcred)
  · have hset := Bool.eq_true_of_not_eq_false hbit
    unfold serve
    dsimp only
    split
    · next hnil => exact .empty hset hnil
    · next skb rest hcons =>
      split_ifs with hvalid hlimit hquota
      · simp only [unlink, hcons, List.tail_cons]
        exact .drop skb rest hset hcons hvalid
      · exact .limit hset hlimit
      · exact .spent hset hlimit hquota
      · simp only [unlink, hcons, List.tail_cons]
        exact .send skb rest hset hcons (Bool.eq_true_of_not_eq_false hvalid)
          (Bool.eq_false_of_not_eq_true hfull) (by simpa using hcred) hlimit hquota

end TxSched

theorem toInt_sub_one {x : CInt} (h : 0 ≤ x.toInt) (hx : x ≠ 0) : (x - 1).toInt = x.toInt - 1 := by
  have hpos : x.toNat ≠ 0 := fun h0 => hx (BitVec.eq_of_toNat_eq h0)
  simp only [BitVec.toInt_eq_toNat_cond] at h ⊢
  split_ifs at h ⊢ <;> bv_omega

theorem toInt_pos {x : CInt} (h : 0 ≤ x.toInt) (hx : x ≠ 0) : 0 < x.toInt := by
  have hne : x.toInt ≠ 0 := fun h0 => hx (BitVec.eq_of_toInt_eq h0)
  omega

namespace TxLmac

/-- Credit, limit and quotas after `m` frames were sent on those of `l₀`. -/
structure Funds (l₀ l : TxLmac) (m : ℕ) : Prop where
  cred : l.cred.toInt + m = l₀.cred.toInt
  credNonneg : 0 ≤ l.cred.toInt
  limit : l.txCountLimit.toInt + m ≤ l₀.txCountLimit.toInt
  limitNonneg : 0 ≤ l.txCountLimit.toInt
  queued : ∀ k, l.txqMap.getLsbD k = true → (l.tx k).reset = true ∨ 0 ≤ (l.tx k).quota.toInt
  quota : ∀ k, 0 ≤ (l.tx k).quota.toInt ∨ (l.tx k).quota = (l₀.tx k).quota

namespace Funds
variable {l₀ l : TxLmac} {m i : ℕ}

/-- At the place of the turn the quota is not negative from the top-up on. -/
theorem topUp (h : Funds l₀ l m) (base : CInt) (hi : l.txqMap.getLsbD i = true) :
    Funds l₀ (l.topUp base i) m ∧ 0 ≤ ((l.topUp base i).tx i).quota.toInt := by
  have hat : 0 ≤ ((l.topUp base i).tx i).quota.toInt := by
    rw [topUp_tx_self]
    unfold TxInfo.topUp
    split_ifs with hreset
    · dsimp only
      split_ifs with hneg
      · exact le_rfl
      · simpa [BitVec.slt] using hneg
    · exact (h.queued i hi).resolve_left hreset
  refine ⟨⟨?_, ?_, ?_, ?_, fun k hk => ?_, fun k => ?_⟩, hat⟩
  · simpa using h.cred
  · simpa using h.credNonneg
  · simpa using h.limit
  · simpa using h.limitNonneg
  · by_cases hki : k = i
    · exact .inr (hki ▸ hat)
    · rw [topUp_tx_of_ne l base i hki]
      exact h.queued k (by simpa using hk)
  · by_cases hki : k = i
    · exact .inl (hki ▸ hat)
    · rw [topUp_tx_of_ne l base i hki]
      exact h.quota k

theorem flip (h : Funds l₀ l m) (hi : l.txqMap.getLsbD i = true) : Funds l₀ (l.flip i) m := by
  refine ⟨h.cred, h.credNonneg, h.limit, h.limitNonneg, fun k hk => ?_, h.quota⟩
  rw [getLsbD_flip] at hk
  by_cases hik : i = k
  · exact h.queued k (hik ▸ hi)
  · have hset : l.txqMap.getLsbD k = true := by simpa [hik] using hk
    exact h.queued k hset

/-- The limit is counted down before the quota is looked at. -/
theorem count (h : Funds l₀ l m) (hl : l.txCountLimit ≠ 0) :
    Funds l₀ { l with txCountLimit := l.txCountLimit - 1 } m := by
  have hsub := toInt_sub_one h.limitNonneg hl
  have hpos := toInt_pos h.limitNonneg hl
  have hlimit := h.limit
  refine ⟨h.cred, h.credNonneg, ?_, ?_, h.queued, h.quota⟩
  · show (l.txCountLimit - 1).toInt + m ≤ _
    omega
  · show 0 ≤ (l.txCountLimit - 1).toInt
    omega

theorem pay (h : Funds l₀ l m) (hc : l.cred ≠ 0) (hl : l.txCountLimit ≠ 0)
    (hq : 0 ≤ (l.tx i).quota.toInt) (hq0 : (l.tx i).quota ≠ 0) :
    Funds l₀ ({ l with txCountLimit := l.txCountLimit - 1 }.pay i) (m + 1) := by
  have hcred := h.cred
  have hlimit := h.limit
  have hsubc := toInt_sub_one h.credNonneg hc
  have hposc := toInt_pos h.credNonneg hc
  have hsubl := toInt_sub_one h.limitNonneg hl
  have hposl := toInt_pos h.limitNonneg hl
  have hsubq := toInt_sub_one hq hq0
  have hposq := toInt_pos hq hq0
  have hat : 0 ≤ ((l.tx i).quota - 1).toInt := by omega
  constructor
  · show (l.cred - 1).toInt + ((m + 1 : ℕ) : ℤ) = _
    omega
  · show 0 ≤ (l.cred - 1).toInt
    omega
  · show (l.txCountLimit - 1).toInt + ((m + 1 : ℕ) : ℤ) ≤ _
    omega
  · show 0 ≤ (l.txCountLimit - 1).toInt
    omega
  · intro k hk
    simp only [TxLmac.pay, Function.update_apply]
    split_ifs with hki
    · exact .inr hat
    · exact h.queued k hk
  · intro k
    simp only [TxLmac.pay, Function.update_apply]
    split_ifs with hki
    · exact .inl hat
    · exact h.quota k

end Funds
end TxLmac

namespace TxSched
open TxLmac
variable {hw : TxHw} {base : CInt} {env : ℕ → TxView} {v : TxView} {s t : TxSched}
  {log : List TxTaken}

theorem length_sent_drop (log : List TxTaken) (n : IfaceId) (skb : TxqSkb) :
    (sent (log ++ [⟨n, skb, false⟩])).length = (sent log).length := by
  simp [sent]

theorem length_sent_send (log : List TxTaken) (n : IfaceId) (skb : TxqSkb) :
    (sent (log ++ [⟨n, skb, true⟩])).length = (sent log).length + 1 := by
  simp [sent]

theorem Takes.at (h : Takes hw env s t log) (i : ℕ) (l : TxLmac) (left : Bool) :
    Takes hw env s { t with i, lmac := l, left } log :=
  ⟨h.txList, h.freed, h.order, h.valid⟩

/-- The first frame of a queue is taken, to be sent or freed. -/
theorem Takes.concat (h : Takes hw env s t log) {skb : TxqSkb} {rest : List TxqSkb} {n : IfaceId}
    (hc : t.cache n = skb :: rest) {k : ℕ} {b : Bool} (hv : isSkwPeerDataValid hw (env k) skb = b) :
    Takes hw env s
      { t with
        cache := Function.update t.cache n rest
        txList := t.txList ++ if b then [skb] else []
        freed := t.freed ++ if b then [] else [skb] } (log ++ [⟨n, skb, b⟩]) := by
  constructor
  · rw [h.txList]
    cases b <;> simp [sent]
  · rw [h.freed]
    cases b <;> simp [dropped]
  · intro m
    rw [← h.order m]
    by_cases hnm : n = m
    · subst hnm
      simp [takenFrom, hc]
    · simp [takenFrom, hnm, Function.update_of_ne (Ne.symm hnm)]
  · intro f hf
    rcases List.mem_append.mp hf with hf | hf
    · exact h.valid f hf
    · rw [List.mem_singleton.mp hf]
      exact ⟨k, hv⟩

/-- The promises hold on the funds of the state itself or of one that differs in the limit. -/
theorem Takes.sound (h : Takes hw env s t log) {l : TxLmac} (hf : Funds s.lmac l (sent log).length)
    (hc : t.lmac.cred = l.cred) (hq : t.lmac.tx = l.tx) : Sound hw env s t log := by
  have hcred := hf.cred
  have hlimit := hf.limit
  have hcn := hf.credNonneg
  have hln := hf.limitNonneg
  refine ⟨h, ?_, ?_, fun k => ?_⟩
  · omega
  · rw [hc]
    exact hcn
  · rw [hq]
    exact hf.quota k

/-- The funds of a loop that goes on; a `break` may leave the limit below zero. -/
def Inv (hw : TxHw) (env : ℕ → TxView) (s t : TxSched) (log : List TxTaken) : Prop :=
  Sound hw env s t log ∧ (t.left = false → Funds s.lmac t.lmac (sent log).length)

theorem Takes.inv (h : Takes hw env s t log) (hf : Funds s.lmac t.lmac (sent log).length) :
    Inv hw env s t log :=
  ⟨h.sound hf rfl rfl, fun _ => hf⟩

theorem Inv.turn (h : Inv hw env s t log) (base : CInt) (k : ℕ) :
    ∃ log, Inv hw env s (turn hw base t (env k)) log := by
  cases hd : t.done with
  | true =>
    refine ⟨log, ?_⟩
    unfold TxSched.turn
    rwa [hd, if_pos rfl]
  | false =>
    have hf := h.2 (Bool.or_eq_false_iff.mp hd).1
    have ht := h.1.toTakes
    have hturn := turned hw base (env k) hd
    generalize t.i % t.lmac.nrTxq = i at hturn
    generalize TxSched.turn hw base t (env k) = u at hturn ⊢
    cases hturn with
    | skip _ => exact ⟨log, (ht.at (i + 1) t.lmac t.left).inv hf⟩
    | leave _ => exact ⟨log, (ht.at i t.lmac true).inv hf⟩
    | empty hi _ =>
      have hf := (hf.topUp base hi).1.flip (i := i) (by simpa using hi)
      exact ⟨log, (ht.at (i + 1) _ t.left).inv hf⟩
    | drop skb rest hi hcons hv =>
      have hf := (hf.topUp base hi).1
      have htake := (ht.concat hcons hv).at (i + 1) (t.lmac.topUp base i) t.left
      simp only [Bool.false_eq_true, if_false, List.append_nil] at htake
      refine ⟨_, htake.inv ?_⟩
      rw [length_sent_drop]
      exact hf
    | limit hi hl =>
      have hf := (hf.topUp base hi).1
      exact ⟨log, (ht.at i _ true).sound hf rfl rfl, fun h => Bool.noConfusion h⟩
    | spent hi hl _ =>
      have hf := ((hf.topUp base hi).1.count hl).flip (i := i) (by simpa using hi)
      exact ⟨log, (ht.at (i + 1) _ t.left).inv hf⟩
    | send skb rest hi hcons hv _ hc hl hq =>
      obtain ⟨hf, hquota⟩ := hf.topUp base hi
      have hf := hf.pay hc hl hquota hq
      have htake := (ht.concat hcons hv).at (i + 1)
        ({ t.lmac.topUp base i with
          txCountLimit := (t.lmac.topUp base i).txCountLimit - 1 }.pay i) t.left
      simp only [if_true, List.append_nil] at htake
      refine ⟨_, htake.inv ?_⟩
      rw [length_sent_send]
      exact hf

/-- The frames that wait and the places in the map. -/
def work (s : TxSched) : ℕ :=
  ∑ n, (s.cache n).length + ((Finset.range 16).filter fun k => s.lmac.txqMap.getLsbD k = true).card

theorem getLsbD_of_flip {l : TxLmac} {i k : ℕ} (hi : l.txqMap.getLsbD i = true)
    (hk : (l.flip i).txqMap.getLsbD k = true) : l.txqMap.getLsbD k = true := by
  rw [getLsbD_flip] at hk
  by_cases hik : i = k
  · exact hik ▸ hi
  · simpa [hik] using hk

theorem work_flip {l : TxLmac} {i j : ℕ} (hl : l.txqMap = s.lmac.txqMap)
    (hi : s.lmac.txqMap.getLsbD i = true) :
    work { s with lmac := l.flip i, i := j } < s.work := by
  unfold work
  apply Nat.add_lt_add_left
  apply Finset.card_lt_card
  rw [← hl] at hi ⊢
  have hlt : i < 16 := BitVec.lt_of_getLsbD hi
  refine Finset.ssubset_iff_of_subset (fun k hk => ?_) |>.mpr ⟨i, ?_, ?_⟩
  · simp only [Finset.mem_filter] at hk ⊢
    exact ⟨hk.1, getLsbD_of_flip hi hk.2⟩
  · simp [hi, hlt]
  · simp [getLsbD_flip, hi, hlt]

theorem work_unlink {l : TxLmac} {txList freed : List TxqSkb} {j : ℕ} {n : IfaceId} {skb : TxqSkb}
    {rest : List TxqSkb} (hl : l.txqMap = s.lmac.txqMap) (hc : s.cache n = skb :: rest) :
    work ⟨j, l, Function.update s.cache n rest, txList, freed, s.left⟩ < s.work := by
  unfold work
  rw [hl]
  apply Nat.add_lt_add_right
  apply Finset.sum_lt_sum
  · intro m _
    simp only [Function.update_apply]
    split_ifs with hm
    · rw [hm, hc]
      exact Nat.le_succ _
    · exact le_rfl
  · refine ⟨n, Finset.mem_univ n, ?_⟩
    simp only [Function.update_self, hc]
    exact Nat.lt_succ_self _

/-- The turns that a loop may take until it is done. -/
noncomputable def turnsLeft (s : TxSched) : ℕ :=
  if s.done then 0
  else Lib.turnsLeft (fun k => s.lmac.txqMap.getLsbD k = true) s.work s.lmac.nrTxq s.i + 1

/-- The places in the map are in use. -/
def Placed (l : TxLmac) : Prop := ∀ k, l.txqMap.getLsbD k = true → k < l.nrTxq

theorem exists_place {l : TxLmac} (h : l.txqMap ≠ 0) : ∃ k, l.txqMap.getLsbD k = true := by
  by_contra hne
  apply h
  apply BitVec.eq_of_getLsbD_eq
  intro k _
  rw [show (0 : BitVec 16).getLsbD k = false from BitVec.getLsbD_zero]
  exact Bool.eq_false_of_not_eq_true fun hk => hne ⟨k, hk⟩

theorem turnsLeft_lt {u : TxSched} (hd : s.done = false)
    (h : Lib.turnsLeft (fun k => u.lmac.txqMap.getLsbD k = true) u.work u.lmac.nrTxq u.i <
      Lib.turnsLeft (fun k => s.lmac.txqMap.getLsbD k = true) s.work s.lmac.nrTxq s.i) :
    u.turnsLeft < s.turnsLeft := by
  unfold turnsLeft
  rw [hd, if_neg Bool.false_ne_true]
  split_ifs <;> omega

theorem Placed.of_le {l l' : TxLmac} (h : Placed l) (hn : l'.nrTxq = l.nrTxq)
    (hb : ∀ k, l'.txqMap.getLsbD k = true → l.txqMap.getLsbD k = true) : Placed l' := by
  intro k hk
  rw [hn]
  exact h k (hb k hk)

theorem turnsLeft_of_work {u : TxSched} (hd : s.done = false) (hn : 0 < s.lmac.nrTxq)
    (hu : Placed u.lmac) (hnr : u.lmac.nrTxq = s.lmac.nrTxq) (hw : u.work < s.work) :
    u.turnsLeft < s.turnsLeft ∧ Placed u.lmac := by
  refine ⟨turnsLeft_lt hd ?_, hu⟩
  unfold Placed at hu
  rw [hnr] at hu ⊢
  exact Lib.turnsLeft_work hn hu hw u.i

theorem turnsLeft_of_left {u : TxSched} (hd : s.done = false) (hu : u.left = true) :
    u.turnsLeft < s.turnsLeft := by
  unfold turnsLeft
  rw [hd, done, hu]
  simp

/-- A turn either ends the loop, goes on to the next place or does a piece of work. -/
theorem turnsLeft_turn (hw : TxHw) (base : CInt) (hp : Placed s.lmac) (hd : s.done = false)
    (v : TxView) :
    (turn hw base s v).turnsLeft < s.turnsLeft ∧ Placed (turn hw base s v).lmac := by
  have hmap : s.lmac.txqMap ≠ 0 := by
    have := (Bool.or_eq_false_iff.mp hd).2
    simpa using this
  obtain ⟨b, hb⟩ := exists_place hmap
  have hn : 0 < s.lmac.nrTxq := (Nat.zero_le b).trans_lt (hp b hb)
  have hturn := turned hw base v hd
  generalize hi : s.i % s.lmac.nrTxq = i at hturn
  generalize turn hw base s v = u at hturn ⊢
  have hbits : (s.lmac.topUp base i).txqMap = s.lmac.txqMap := topUp_txqMap s.lmac base i
  have htop : Placed (s.lmac.topUp base i) :=
    hp.of_le (topUp_nrTxq s.lmac base i) fun k hk => hbits ▸ hk
  cases hturn with
  | skip hbit =>
    have hskip := Lib.turnsLeft_skip (w := s.work) (p := fun k => s.lmac.txqMap.getLsbD k = true)
      ⟨b, hp b hb, hb⟩ (i := s.i) (by simp [hi, hbit])
    rw [hi] at hskip
    exact ⟨turnsLeft_lt hd hskip, hp⟩
  | leave _ => exact ⟨turnsLeft_of_left hd rfl, hp⟩
  | empty hset _ =>
    exact turnsLeft_of_work hd hn (htop.of_le rfl fun k hk => getLsbD_of_flip (hbits ▸ hset) hk)
      (topUp_nrTxq s.lmac base i) (work_flip hbits hset)
  | drop skb rest hset hcons hv =>
    exact turnsLeft_of_work hd hn htop (topUp_nrTxq s.lmac base i) (work_unlink hbits hcons)
  | limit hset hl => exact ⟨turnsLeft_of_left hd rfl, htop⟩
  | spent hset hl _ =>
    exact turnsLeft_of_work hd hn (htop.of_le rfl fun k hk => getLsbD_of_flip (hbits ▸ hset) hk)
      (topUp_nrTxq s.lmac base i) (work_flip hbits hset)
  | send skb rest hset hcons hv _ hc hl hq =>
    exact turnsLeft_of_work hd hn htop (topUp_nrTxq s.lmac base i) (work_unlink hbits hcons)

theorem turn_of_done (hd : s.done = true) (v : TxView) : turn hw base s v = s := by
  unfold turn
  rw [hd, if_pos rfl]

theorem turnsLeft_turns (hw : TxHw) (base : CInt) (hp : Placed s.lmac) (env : ℕ → TxView)
    (k : ℕ) :
    (turns hw base env s k).turnsLeft ≤ s.turnsLeft - k ∧ Placed (turns hw base env s k).lmac := by
  induction k with
  | zero => exact ⟨le_rfl, hp⟩
  | succ k ih =>
    obtain ⟨hle, hp⟩ := ih
    rw [turns]
    cases hd : (turns hw base env s k).done with
    | true =>
      rw [turn_of_done hd]
      refine ⟨?_, hp⟩
      unfold turnsLeft
      rw [hd, if_pos rfl]
      exact Nat.zero_le _
    | false =>
      obtain ⟨hlt, hp⟩ := turnsLeft_turn hw base hp hd (env k)
      exact ⟨by omega, hp⟩

/-- Whatever its turns find, the loop ends within `turnsLeft` of them. -/
theorem done_turns (hp : Placed s.lmac) (env : ℕ → TxView) :
    (turns hw base env s s.turnsLeft).done = true := by
  have hle := (turnsLeft_turns hw base hp env s.turnsLeft).1
  rw [Nat.sub_self, Nat.le_zero] at hle
  generalize turns hw base env s s.turnsLeft = t at hle ⊢
  unfold turnsLeft at hle
  by_contra hd
  rw [if_neg hd] at hle
  exact Nat.succ_ne_zero _ hle

theorem Inv.turns (h : ∃ log, Inv hw env s s log) (base : CInt) (k : ℕ) :
    ∃ log, Inv hw env s (turns hw base env s k) log := by
  induction k with
  | zero => exact h
  | succ k ih =>
    obtain ⟨log, hi⟩ := ih
    exact hi.turn base k

/-- The loop keeps its promises where credit and limit are not negative when it is entered. -/
theorem scheduled_iff (hw : TxHw) (base : CInt) (l : TxLmac) (cache : IfaceId → List TxqSkb)
    (h : l.Entered) :
    Scheduled hw base (enter l cache) ↔ 0 ≤ l.cred.toInt ∧ 0 ≤ l.txCountLimit.toInt := by
  constructor
  · intro hs
    obtain ⟨log, hsound⟩ := hs.sound (fun _ => ⟨0, fun _ _ => none⟩) 0
    have hb := hsound.bound
    simp only [enter] at hb
    omega
  · rintro ⟨hc, hl⟩
    refine ⟨⟨_, done_turns fun k hk => (h.queued k hk).1⟩, fun env k => ?_⟩
    have hfunds : Funds l l 0 :=
      ⟨by omega, hc, by omega, hl, fun k hk => .inl (h.queued k hk).2, fun _ => .inr rfl⟩
    have htakes : Takes hw env (enter l cache) (enter l cache) [] := by
      constructor <;> simp [sent, dropped, takenFrom]
    obtain ⟨log, hi⟩ := Inv.turns ⟨[], htakes.inv hfunds⟩ base k
    exact ⟨log, hi.1⟩

/-- An lmac with the queue of interface 0 in its first place. -/
def oneQueue (cred : CInt) : TxLmac :=
  { TxLmac.zero with
    reset := false, cred, txqMap := 1, nrTxq := 1, currentQlen := 3, txCountLimit := 83
    tx := fun _ => ⟨0, true, 0⟩ }

def threeFrames (n : IfaceId) : List TxqSkb :=
  if n = 0 then [{ buf := 1 }, { buf := 2 }, { buf := 3 }] else []

theorem entered_oneQueue (cred : CInt) : (oneQueue cred).Entered where
  places := Nat.succ_le_succ (Nat.zero_le 3)
  queued k hk := by
    have hk : (1#16).getLsbD k = true := hk
    rw [BitVec.getLsbD_one] at hk
    simp only [Bool.and_eq_true, decide_eq_true_eq] at hk
    exact ⟨hk.2 ▸ Nat.one_pos, rfl⟩

/-- With two credits two of the three frames are sent. -/
theorem scheduled_iff_oneQueue : Scheduled ⟨.sdio, 1⟩ 16 (enter (oneQueue 2) threeFrames) ∧
    (turns ⟨.sdio, 1⟩ 16 (fun _ => ⟨128, fun _ _ => none⟩) (enter (oneQueue 2) threeFrames)
      4).txList = [{ buf := 1 }, { buf := 2 }] :=
  ⟨(scheduled_iff ⟨.sdio, 1⟩ 16 (oneQueue 2) threeFrames (entered_oneQueue 2)).mpr (by decide),
    by decide +kernel⟩

/-- A credit below zero is not 0, and stops no frame. -/
theorem negativeCredit_not_scheduled :
    (turns ⟨.sdio, 1⟩ 16 (fun _ => ⟨128, fun _ _ => none⟩) (enter (oneQueue (-1)) threeFrames)
      4).txList = [{ buf := 1 }, { buf := 2 }, { buf := 3 }] ∧
    ¬∀ hw base l cache, TxLmac.Entered l → Scheduled hw base (enter l cache) := by
  refine ⟨by decide +kernel, fun h => ?_⟩
  obtain ⟨log, hsound⟩ := (h ⟨.sdio, 1⟩ 16 (oneQueue (-1)) threeFrames (entered_oneQueue _)).sound
    (fun _ => ⟨128, fun _ _ => none⟩) 0
  exact absurd hsound.cred (by decide)

end TxSched
end Skw
