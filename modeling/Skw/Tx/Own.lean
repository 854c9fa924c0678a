import Skw.Tx.Sched

/-! What the scheduling loop of an lmac depends on: the queues in its map and the views of its turns,
as far as these are about its own frames. A loop with credit and room sends a frame that waits. -/
namespace Skw
namespace TxLmac
variable (l : TxLmac) (base : CInt) (i k : ℕ)

@[simp] theorem topUp_list : ((l.topUp base i).tx k).list = (l.tx k).list := by
  by_cases hk : k = i
  · subst hk
    rw [topUp_tx_self, TxInfo.topUp]
    split_ifs <;> rfl
  · rw [topUp_tx_of_ne l base i hk]

@[simp] theorem pay_list : ((l.pay i).tx k).list = (l.tx k).list := by
  simp only [pay, Function.update_apply]
  split_ifs with hk
  · rw [hk]
  · rfl

/-- The queues in the map are among the `own` ones. -/
def Owns (own : IfaceId → Prop) (l : TxLmac) : Prop :=
  ∀ k, l.txqMap.getLsbD k = true → own (l.tx k).list

end TxLmac

namespace TxSched
open TxLmac
variable {hw : TxHw} {base : CInt} {env env' : ℕ → TxView} {v v' : TxView} {s t u : TxSched}
  {own : IfaceId → Prop}

/-- The loop `loop` runs until it is done. -/
def fuel (s : TxSched) : ℕ := (s.work + 1) * s.lmac.nrTxq

def loop (hw : TxHw) (base : CInt) (env : ℕ → TxView) (s : TxSched) : TxSched :=
  turns hw base env s s.fuel

theorem turnsLeft_le_fuel (hp : Placed s.lmac) : s.turnsLeft ≤ s.fuel := by
  unfold turnsLeft fuel
  split_ifs with hd
  · exact Nat.zero_le _
  · have hmap : s.lmac.txqMap ≠ 0 := by
      intro h0
      apply hd
      simp [done, h0]
    obtain ⟨b, hb⟩ := exists_place hmap
    have hn : 0 < s.lmac.nrTxq := (Nat.zero_le b).trans_lt (hp b hb)
    have hahead := Lib.ahead_lt hn hp s.i
    unfold Lib.turnsLeft
    rw [Nat.succ_mul]
    omega

theorem done_loop (hw : TxHw) (base : CInt) (hp : Placed s.lmac) (env : ℕ → TxView) :
    (loop hw base env s).done = true := by
  have hle := (turnsLeft_turns hw base hp env s.fuel).1
  have hfuel := turnsLeft_le_fuel hp
  have hzero : (loop hw base env s).turnsLeft = 0 := by
    unfold loop
    omega
  unfold turnsLeft at hzero
  by_contra hd
  rw [if_neg hd] at hzero
  exact Nat.succ_ne_zero _ hzero

/-- A turn leaves the places where they are and puts none into the map. -/
theorem turn_places (hw : TxHw) (base : CInt) (s : TxSched) (v : TxView) (k : ℕ) :
    ((turn hw base s v).lmac.tx k).list = (s.lmac.tx k).list ∧
      ((turn hw base s v).lmac.txqMap.getLsbD k = true → s.lmac.txqMap.getLsbD k = true) := by
  cases hd : s.done with
  | true =>
    rw [turn_of_done hd]
    exact ⟨rfl, id⟩
  | false =>
    have hturn := turned hw base v hd
    generalize s.i % s.lmac.nrTxq = i at hturn
    generalize turn hw base s v = u at hturn ⊢
    have hbits : (s.lmac.topUp base i).txqMap = s.lmac.txqMap := topUp_txqMap s.lmac base i
    have htop := topUp_list s.lmac base i k
    cases hturn with
    | skip _ => exact ⟨rfl, id⟩
    | leave _ => exact ⟨rfl, id⟩
    | empty hset _ => exact ⟨htop, fun hk => hbits ▸ getLsbD_of_flip (hbits ▸ hset) hk⟩
    | drop skb rest hset hcons hv => exact ⟨htop, fun hk => hbits ▸ hk⟩
    | limit hset hl => exact ⟨htop, fun hk => hbits ▸ hk⟩
    | spent hset hl _ => exact ⟨htop, fun hk => hbits ▸ getLsbD_of_flip (hbits ▸ hset) hk⟩
    | send skb rest hset hcons hv _ hc hl hq =>
      exact ⟨(pay_list _ i k).trans htop, fun hk => hbits ▸ hk⟩

theorem owns_turn (h : s.lmac.Owns own) (v : TxView) : (turn hw base s v).lmac.Owns own := by
  intro k hk
  obtain ⟨hlist, hbit⟩ := turn_places hw base s v k
  rw [hlist]
  exact h k (hbit hk)

/-- Each queue loses at most its first frame, and only the loop's own ones lose any. -/
theorem cache_turn (hw : TxHw) (base : CInt) (h : s.lmac.Owns own) (v : TxView) (n : IfaceId) :
    (turn hw base s v).cache n = s.cache n ∨
      own n ∧ (turn hw base s v).cache n = (s.cache n).tail := by
  cases hd : s.done with
  | true =>
    rw [turn_of_done hd]
    exact .inl rfl
  | false =>
    have hturn := turned hw base v hd
    generalize s.i % s.lmac.nrTxq = i at hturn
    generalize turn hw base s v = u at hturn ⊢
    have hown : ∀ skb rest, s.lmac.txqMap.getLsbD i = true →
        s.cache ((s.lmac.topUp base i).tx i).list = skb :: rest →
        ∀ c, c = Function.update s.cache ((s.lmac.topUp base i).tx i).list rest →
        c n = s.cache n ∨ own n ∧ c n = (s.cache n).tail := by
      intro skb rest hset hcons c hc
      rw [hc, Function.update_apply]
      split_ifs with hn
      · right
        rw [hn, hcons]
        exact ⟨topUp_list s.lmac base i i ▸ h i hset, rfl⟩
      · exact .inl rfl
    cases hturn with
    | skip _ => exact .inl rfl
    | leave _ => exact .inl rfl
    | empty _ _ => exact .inl rfl
    | drop skb rest hset hcons hv => exact hown skb rest hset hcons _ rfl
    | limit _ _ => exact .inl rfl
    | spent _ _ _ => exact .inl rfl
    | send skb rest hset hcons hv _ hc hl hq => exact hown skb rest hset hcons _ rfl

theorem owns_turns (h : s.lmac.Owns own) (env : ℕ → TxView) (k : ℕ) :
    (turns hw base env s k).lmac.Owns own := by
  induction k with
  | zero => exact h
  | succ k ih => exact owns_turn ih (env k)

theorem cache_turns_of_not_own (h : s.lmac.Owns own) (env : ℕ → TxView) (k : ℕ) {n : IfaceId}
    (hn : ¬own n) : (turns hw base env s k).cache n = s.cache n := by
  induction k with
  | zero => rfl
  | succ k ih =>
    rcases cache_turn hw base (owns_turns h env k) (env k) n with hc | ⟨ho, -⟩
    · exact hc.trans ih
    · exact absurd ho hn

/-- No frame comes into a queue. -/
theorem mem_cache_turns (h : s.lmac.Owns own) (env : ℕ → TxView) (k : ℕ) {n : IfaceId}
    {f : TxqSkb} (hf : f ∈ (turns hw base env s k).cache n) : f ∈ s.cache n := by
  induction k with
  | zero => exact hf
  | succ k ih =>
    rcases cache_turn hw base (owns_turns h env k) (env k) n with hc | ⟨-, hc⟩
    · exact ih (hc ▸ hf)
    · exact ih (List.mem_of_mem_tail (hc ▸ hf))

/-- The loops differ at most in queues that are not their own. -/
def Agrees (own : IfaceId → Prop) (s t : TxSched) : Prop :=
  ∃ c : IfaceId → List TxqSkb, (∀ n, own n → c n = s.cache n) ∧ t = { s with cache := c }

theorem Agrees.serve (ho : s.lmac.Owns own) (hset : s.lmac.txqMap.getLsbD s.i = true)
    {c : IfaceId → List TxqSkb} (hc : ∀ n, own n → c n = s.cache n)
    (hf : ∀ n, own n → ∀ f ∈ s.cache n, isSkwPeerDataValid hw v' f = isSkwPeerDataValid hw v f) :
    Agrees own (serve hw v s) (serve hw v' { s with cache := c }) := by
  have hn := ho _ hset
  have htail : ∀ n, own n → Function.update c (s.lmac.tx s.i).list
      (c (s.lmac.tx s.i).list).tail n = Function.update s.cache (s.lmac.tx s.i).list
        (s.cache (s.lmac.tx s.i).list).tail n := by
    intro n hown
    rw [hc _ hn, Function.update_apply, Function.update_apply, hc n hown]
  unfold TxSched.serve
  simp only [hc _ hn]
  cases hq : s.cache (s.lmac.tx s.i).list with
  | nil => exact ⟨c, hc, rfl⟩
  | cons skb rest =>
    dsimp only
    rw [hf _ hn skb (hq ▸ List.mem_cons_self)]
    split_ifs
    · exact ⟨_, htail, rfl⟩
    · exact ⟨c, hc, rfl⟩
    · exact ⟨c, hc, rfl⟩
    · exact ⟨_, htail, rfl⟩

/-- Views that agree on the room in the ring and on the loop's own frames lead to the same turn. -/
theorem Agrees.turn (h : Agrees own s t) (ho : s.lmac.Owns own) (hv : v'.available = v.available)
    (hf : ∀ n, own n → ∀ f ∈ s.cache n, isSkwPeerDataValid hw v' f = isSkwPeerDataValid hw v f) :
    Agrees own (turn hw base s v) (turn hw base t v') := by
  obtain ⟨c, hc, rfl⟩ := h
  unfold TxSched.turn
  have hdone : done { s with cache := c } = s.done := rfl
  have hcheck : skwVringCheck hw v' s.txList = skwVringCheck hw v s.txList := by
    unfold skwVringCheck
    rw [hv]
  rw [hdone]
  dsimp only
  rw [hcheck]
  split_ifs with hd hbit hfull hcred
  · exact ⟨c, hc, rfl⟩
  · exact ⟨c, hc, rfl⟩
  · exact ⟨c, hc, rfl⟩
  · exact ⟨c, hc, rfl⟩
  · have hset := Bool.eq_true_of_not_eq_false hbit
    refine Agrees.serve (s := { s with i := _, lmac := _ }) (fun k hk => ?_) ?_ hc hf
    · rw [topUp_list]
      exact ho k (topUp_txqMap s.lmac base _ ▸ hk)
    · simpa using hset

theorem Agrees.turns (base : CInt) {c : IfaceId → List TxqSkb} (hc : ∀ n, own n → c n = s.cache n)
    (ho : s.lmac.Owns own) (hv : ∀ k, (env' k).available = (env k).available)
    (hf : ∀ k n, own n → ∀ f ∈ s.cache n,
      isSkwPeerDataValid hw (env' k) f = isSkwPeerDataValid hw (env k) f) (k : ℕ) :
    Agrees own (turns hw base env s k) (turns hw base env' { s with cache := c } k) := by
  induction k with
  | zero => exact ⟨c, hc, rfl⟩
  | succ k ih =>
    exact ih.turn (owns_turns ho env k) (hv k) fun n hn f hmem =>
      hf k n hn f (mem_cache_turns ho env k hmem)

@[simp] theorem topUp_topUp (x : TxInfo) (base : CInt) :
    (x.topUp base).topUp base = x.topUp base := by
  by_cases hreset : x.reset = true <;> simp [TxInfo.topUp, hreset]

/-- Frame `f` waits at place `b` of a loop that has spent nothing. -/
structure Waits (base : CInt) (s t : TxSched) (b : ℕ) (f : TxqSkb) : Prop where
  left : t.left = false
  cred : t.lmac.cred = s.lmac.cred
  limit : t.lmac.txCountLimit = s.lmac.txCountLimit
  place : t.lmac.txqMap.getLsbD b = true
  mem : f ∈ t.cache (t.lmac.tx b).list
  quota : ∀ k, t.lmac.txqMap.getLsbD k = true → ((t.lmac.tx k).topUp base).quota ≠ 0

variable {b : ℕ} {f : TxqSkb}

theorem Waits.not_done (h : Waits base s t b f) : t.done = false := by
  unfold done
  rw [h.left, Bool.false_or]
  apply beq_false_of_ne
  intro h0
  have hplace := h.place
  rw [h0] at hplace
  exact absurd hplace (by simp)

theorem Waits.turn (h : Waits base s t b f) (hc : s.lmac.cred ≠ 0) (hl : s.lmac.txCountLimit ≠ 0)
    (hroom : skwVringCheck hw v [] = false) (hf : isSkwPeerDataValid hw v f = true)
    (ht : t.txList = []) :
    (turn hw base t v).txList ≠ [] ∨ Waits base s (turn hw base t v) b f := by
  have hd := h.not_done
  have hturn := turned hw base v hd
  generalize t.i % t.lmac.nrTxq = i at hturn
  generalize TxSched.turn hw base t v = u at hturn ⊢
  have hquota : ∀ k, t.lmac.txqMap.getLsbD k = true →
      (((t.lmac.topUp base i).tx k).topUp base).quota ≠ 0 := by
    intro k hk
    by_cases hki : k = i
    · subst hki
      rw [topUp_tx_self, topUp_topUp]
      exact h.quota k hk
    · rw [topUp_tx_of_ne t.lmac base i hki]
      exact h.quota k hk
  have hmem : f ∈ t.cache ((t.lmac.topUp base i).tx b).list := by
    rw [topUp_list]
    exact h.mem
  have hflip : i ≠ b → ∀ l : TxLmac, l.txqMap = t.lmac.txqMap →
      (l.flip i).txqMap.getLsbD b = true := by
    intro hib l hl
    rw [getLsbD_flip, hl, h.place]
    simp [hib]
  cases hturn with
  | skip _ => exact .inr ⟨h.left, h.cred, h.limit, h.place, h.mem, h.quota⟩
  | leave hcheck =>
    rw [ht, hroom, h.cred] at hcheck
    exact (hcheck.resolve_left Bool.false_ne_true |> hc).elim
  | empty hset hnil =>
    have hib : i ≠ b := by
      intro hib
      rw [hib, topUp_list] at hnil
      have hmem := h.mem
      rw [hnil] at hmem
      exact List.not_mem_nil hmem
    exact .inr ⟨h.left, h.cred, h.limit, hflip hib _ rfl, hmem,
      fun k hk => hquota k (getLsbD_of_flip (l := t.lmac.topUp base i) hset hk)⟩
  | drop skb rest hset hcons hv =>
    refine .inr ⟨h.left, h.cred, h.limit, h.place, ?_, hquota⟩
    show f ∈ Function.update t.cache _ rest _
    rw [Function.update_apply]
    split_ifs with hn
    · rw [hn, hcons] at hmem
      refine (List.mem_cons.mp hmem).resolve_left fun hskb => ?_
      rw [hskb, hv] at hf
      cases hf
    · exact hmem
  | limit hset hl0 => exact absurd (h.limit ▸ hl0) hl
  | spent hset hl0 hq =>
    rw [topUp_tx_self] at hq
    exact absurd hq (h.quota i hset)
  | send skb rest _ _ _ _ _ _ _ =>
    exact .inl (List.append_ne_nil_of_right_ne_nil _ (List.cons_ne_nil _ _))

theorem prefix_turn (hw : TxHw) (base : CInt) (t : TxSched) (v : TxView) :
    t.txList <+: (turn hw base t v).txList := by
  cases hd : t.done with
  | true => rw [turn_of_done hd]
  | false =>
    have hturn := turned hw base v hd
    generalize TxSched.turn hw base t v = u at hturn ⊢
    cases hturn with
    | send skb rest _ _ _ _ _ _ _ => exact List.prefix_append _ _
    | skip _ => exact List.prefix_rfl
    | leave _ => exact List.prefix_rfl
    | empty _ _ => exact List.prefix_rfl
    | drop skb rest _ _ _ => exact List.prefix_rfl
    | limit _ _ => exact List.prefix_rfl
    | spent _ _ _ => exact List.prefix_rfl

/-- A loop with credit, limit and quotas sends a frame where one waits that stays valid and there
is always room for one. -/
theorem txList_loop_ne_nil (hp : Placed s.lmac) (h : Waits base s s b f) (hc : s.lmac.cred ≠ 0)
    (hl : s.lmac.txCountLimit ≠ 0) (hroom : ∀ k, skwVringCheck hw (env k) [] = false)
    (hf : ∀ k, isSkwPeerDataValid hw (env k) f = true) : (loop hw base env s).txList ≠ [] := by
  have hrun : ∀ k, (turns hw base env s k).txList ≠ [] ∨
      Waits base s (turns hw base env s k) b f := by
    intro k
    induction k with
    | zero => exact .inr h
    | succ k ih =>
      by_cases ht : (turns hw base env s k).txList = []
      · exact (ih.resolve_left fun hne => hne ht).turn hc hl (hroom k) (hf k) ht
      · left
        intro hnil
        have hpre := prefix_turn hw base (turns hw base env s k) (env k)
        rw [turns] at hnil
        rw [hnil] at hpre
        exact ht (List.prefix_nil.mp hpre)
  refine (hrun s.fuel).resolve_right fun hwaits => ?_
  have hdone := done_loop hw base hp env
  have hnot := hwaits.not_done
  unfold loop at hdone
  rw [hdone] at hnot
  cases hnot

theorem turns_of_done (hd : s.done = true) (env : ℕ → TxView) (k : ℕ) :
    turns hw base env s k = s := by
  induction k with
  | zero => rfl
  | succ k ih => rw [turns, ih, turn_of_done hd]

/-- The first look decides. -/
theorem turns_succ (hw : TxHw) (base : CInt) (env : ℕ → TxView) (s : TxSched) (k : ℕ) :
    turns hw base env s (k + 1) =
      turns hw base (fun j => env (j + 1)) (turn hw base s (env 0)) k := by
  induction k with
  | zero => rfl
  | succ k ih => rw [turns, ih, turns]

theorem txList_loop_of_full (hset : s.lmac.txqMap.getLsbD (s.i % s.lmac.nrTxq) = true)
    (hfull : skwVringCheck hw (env 0) s.txList = true) : (loop hw base env s).txList = s.txList := by
  unfold loop
  cases s.fuel with
  | zero => rfl
  | succ k =>
    rw [turns_succ]
    by_cases hd : s.done = true
    · rw [turn_of_done hd, turns_of_done hd]
    · have hturn : turn hw base s (env 0) = { s with i := s.i % s.lmac.nrTxq, left := true } := by
        unfold TxSched.turn
        rw [if_neg hd]
        simp only [hset, hfull, Bool.true_eq_false, if_false, if_true]
      rw [hturn]
      rw [turns_of_done (by rfl)]

/-- More turns change nothing. -/
theorem turns_of_fuel_le (hw : TxHw) (base : CInt) (hp : Placed s.lmac) (env : ℕ → TxView) {k : ℕ}
    (hk : s.fuel ≤ k) : turns hw base env s k = loop hw base env s := by
  induction k, hk using Nat.le_induction with
  | base => rfl
  | succ k _ ih => rw [turns, ih, turn_of_done (done_loop hw base hp env)]

/-- Views that agree on the room in the ring and on the loop's own frames lead to the same end. -/
theorem agrees_loop {c : IfaceId → List TxqSkb} (hp : Placed s.lmac)
    (hc : ∀ n, own n → c n = s.cache n) (ho : s.lmac.Owns own)
    (hv : ∀ k, (env' k).available = (env k).available)
    (hf : ∀ k n, own n → ∀ f ∈ s.cache n,
      isSkwPeerDataValid hw (env' k) f = isSkwPeerDataValid hw (env k) f) :
    Agrees own (loop hw base env s) (loop hw base env' { s with cache := c }) := by
  have hturns := Agrees.turns base hc ho hv hf (max s.fuel (fuel { s with cache := c }))
  rw [turns_of_fuel_le hw base hp env (le_max_left _ _)] at hturns
  rwa [turns_of_fuel_le (s := { s with cache := c }) hw base hp env' (le_max_right _ _)] at hturns

end TxSched
end Skw
