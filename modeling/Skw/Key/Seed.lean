import Skw.Key.Conf

/-! The starting counter of a key. `skw_set_key` writes it for the TIDs from 1 on, and
`skw_replay_detect` compares with what stands at the TID of a frame. -/
namespace Skw

/-- The frames that a counter of `seq` is to keep out are rejected after every run. -/
def Channel.Enforces (c : Channel) (m : PnMode) (s : PeerCtxs) (seq : BitVec 48) : Prop :=
  ∀ ds d, c.carries d = true → d.skb.desc.isAmsdu = false → d.skb.desc.pn ≠ 0 →
    d.skb.desc.pn ≤ seq → (replayDetect m (replayRun m s ds) d.lmacId d.skb).1 ≠ 0

/-- When the counter is enforced: there is nothing to keep out, or the key is one of those that
are looked for, the TID is not 0 and the counter is not cut down. -/
def seedEnforced (m : PnMode) (keyIdx : Fin 6) (tid : Fin 16) (seq : BitVec 48) : Prop :=
  seq = 0 ∨ (keyIdx.val < 4 ∧ tid ≠ 0 ∧
    (m.read seq = seq.toNat ∨ seq.setWidth 32 = BitVec.allOnes 32))

/-- The ciphers that number their frames by TID. -/
def replayCiphers : List CipherType := [.ccmp, .ccmp256, .gcmp, .gcmp256, .tkip]

section
variable {m : PnMode} {c : Channel} {s : PeerCtxs} {key : Key} {d : Delivery} {i keyIdx : Fin 6}
  {seq pn : BitVec 48}

theorem PnMode.read_le (m : PnMode) (pn : BitVec 48) : m.read pn ≤ pn.toNat := by
  unfold PnMode.read
  split
  · rw [BitVec.toNat_setWidth]
    exact Nat.mod_le ..
  · exact le_rfl

/-- The reading of a number is the number or its lowest 32 bits. -/
theorem PnMode.read_cases (m : PnMode) :
    (∀ pn, m.read pn = pn.toNat) ∨ ∀ pn, m.read pn = (pn.setWidth 32).toNat := by
  unfold PnMode.read
  by_cases h : (m.busSdio && m.fwPnReuse) = true
  · right
    intro pn
    rw [if_pos h]
  · left
    intro pn
    rw [if_neg h]

/-- A bitmap with one bit set names its key if it is among the lowest four. -/
theorem skwKeyIdx_of_only {b : BitVec 8} (h : ∀ j : Fin 6, b.getLsbD j = decide (j = i)) :
    skwKeyIdx b = if i.val < 4 then some i else none := by
  have hb : b &&& 0xf = keyBit i &&& 0xf := by
    apply BitVec.eq_of_getLsbD_eq
    intro k hk
    have hf : ∀ k : Fin 8, (0xf : BitVec 8).getLsbD k = decide (k.val < 4) := by decide
    rw [BitVec.getLsbD_and, BitVec.getLsbD_and, hf ⟨k, hk⟩, getLsbD_keyBit]
    by_cases hk4 : k < 4
    · have hj := h ⟨k, by omega⟩
      simp only [Fin.ext_iff] at hj
      rw [hj]
    · simp [hk4]
  unfold skwKeyIdx
  rw [hb]
  clear h hb
  revert i
  decide

/-- A key keeps out what it had counted when it was installed. -/
theorem Channel.enforces_of_key (h : c.key s = some key)
    (hle : ∀ pn : BitVec 48, pn ≠ 0 → pn ≤ seq →
      m.read pn ≤ m.read (key.rxPn c.tid) ∧ (m.read pn = 0 → m.read (key.rxPn c.tid) ≠ 0)) :
    c.Enforces m s seq := by
  intro ds d hd hamsdu hpn hseq hzero
  obtain ⟨hread, hloose⟩ := hle _ hpn hseq
  obtain ⟨key', hkey', hrun⟩ := Channel.rxPn_run (m := m) h ds
  rw [Channel.rxPn_eq m h] at hrun
  obtain ⟨hret, -⟩ := Channel.replayDetect_of_carries (m := m) hkey' hd
  have hallows := hret.mp hzero
  by_cases hz : m.read d.skb.desc.pn = 0
  · have hlow : c.rxPn m (replayRun m s ds) ≤ m.read d.skb.desc.pn := Lib.Gate.le_of_allows hallows
    exact hloose hz (by omega)
  · have hstrict : (pnGate m).loose d.skb = false := by simp [pnGate, hamsdu, hz]
    have hlow : c.rxPn m (replayRun m s ds) < m.read d.skb.desc.pn :=
      Lib.Gate.lt_of_allows hallows hstrict
    omega

/-- A frame of the channel. -/
def Channel.frame (c : Channel) (pn : BitVec 48) : Delivery where
  lmacId := c.lmacId
  skb :=
    { desc :=
        { (pnFrame pn false).skb.desc with
          peerIdx := c.peerIdx
          tid := c.tid }
      cb := (pnFrame pn false).skb.cb
      data := []
      tailroom := 0 }

theorem Channel.carries_frame (c : Channel) (pn : BitVec 48) : c.carries (c.frame pn) = true := by
  simp [Channel.carries, Channel.frame, pnFrame]

/-- An enforced counter rejects a frame that comes first. -/
theorem Channel.Enforces.frame (h : c.Enforces m s seq) (pn : BitVec 48) (hpn : pn ≠ 0)
    (hle : pn ≤ seq) :
    (replayDetect m s c.lmacId (c.frame pn).skb).1 ≠ 0 :=
  h [] (c.frame pn) (c.carries_frame pn) rfl hpn hle

/-- A frame with a higher number than the one kept passes. -/
theorem Channel.replayDetect_frame (h : c.key s = some key)
    (hlt : m.read (key.rxPn c.tid) < m.read pn) :
    (replayDetect m s c.lmacId (c.frame pn).skb).1 = 0 := by
  obtain ⟨hret, -⟩ := Channel.replayDetect_of_carries (m := m) h (c.carries_frame pn)
  apply hret.mpr
  rw [Channel.rxPn_eq m h, Lib.Gate.allows, Bool.or_eq_true]
  exact .inl (decide_eq_true hlt)

theorem newSkwKey_rxPn {params : KeyParams} (h : params.seq = some seq) (i : Fin 16) :
    (newSkwKey params).rxPn i = if i = 0 then 0 else seq := by
  simp only [newSkwKey, h]
  by_cases hi : i = 0
  · simp [hi]
  · have hi' : 1 ≤ i.val := Nat.one_le_iff_ne_zero.mpr fun h0 => hi (Fin.ext h0)
    rw [if_pos hi', if_neg hi]

/-- A cut counter lets the number of 32 ones pass. -/
theorem PnMode.exists_passes (hread : m.read seq ≠ seq.toNat)
    (hones : seq.setWidth 32 ≠ BitVec.allOnes 32) :
    ∃ pn : BitVec 48, pn ≠ 0 ∧ pn ≤ seq ∧ m.read seq < m.read pn := by
  rcases m.read_cases with hfull | hcut
  · exact absurd (hfull seq) hread
  · have hbig : 2 ^ 32 ≤ seq.toNat := by
      by_contra hlt
      apply hread
      rw [hcut, BitVec.toNat_setWidth, Nat.mod_eq_of_lt (by omega)]
    have hne : (seq.setWidth 32).toNat ≠ (BitVec.allOnes 32).toNat :=
      fun h => hones (BitVec.eq_of_toNat_eq h)
    have hlt := (seq.setWidth 32).isLt
    refine ⟨0xffffffff, by decide, ?_, ?_⟩
    · rw [BitVec.le_def]
      change 4294967295 ≤ _
      omega
    · rw [hcut, hcut]
      change _ < 4294967295
      change _ ≠ 4294967295 at hne
      omega

/-- What is kept out when the counter stands at the TID. -/
theorem PnMode.read_seeded
    (hseq : m.read seq = seq.toNat ∨ seq.setWidth 32 = BitVec.allOnes 32) (hpn : pn ≠ 0)
    (hle : pn ≤ seq) : m.read pn ≤ m.read seq ∧ (m.read pn = 0 → m.read seq ≠ 0) := by
  have hpos : pn.toNat ≠ 0 := fun h => hpn (BitVec.eq_of_toNat_eq h)
  rw [BitVec.le_def] at hle
  rcases hseq with hfull | hones
  · rw [hfull]
    have := m.read_le pn
    omega
  · rcases m.read_cases with hread | hread
    · rw [hread, hread]
      omega
    · rw [hread, hread, hones]
      change _ ≤ 4294967295 ∧ (_ → 4294967295 ≠ 0)
      have := (pn.setWidth 32).isLt
      omega

theorem one_le_of_ne_zero (h : seq ≠ 0) : 1 ≤ seq := by
  have hne : seq.toNat ≠ 0 := fun h₀ => h (BitVec.eq_of_toNat_eq h₀)
  rw [BitVec.le_def]
  exact Nat.one_le_iff_ne_zero.mpr hne

theorem PnMode.read_zero_lt_read_one (m : PnMode) : m.read 0 < m.read 1 := by
  rcases m.read_cases with hread | hread
  · simp [hread]
  · simp [hread]

/-- When a key that counts from 0 in TID 0 and from `seq` in the others enforces it. -/
theorem Channel.enforces_seeded_iff (h : c.key s = some key)
    (hrx : ∀ i, key.rxPn i = if i = 0 then 0 else seq) (hseq : seq ≠ 0) :
    c.Enforces m s seq ↔
      c.tid ≠ 0 ∧ (m.read seq = seq.toNat ∨ seq.setWidth 32 = BitVec.allOnes 32) := by
  constructor
  · intro henf
    have htid : c.tid ≠ 0 := by
      intro htid
      apply henf.frame 1 (by decide) (one_le_of_ne_zero hseq)
      apply Channel.replayDetect_frame h
      rw [hrx, if_pos htid]
      exact m.read_zero_lt_read_one
    refine ⟨htid, ?_⟩
    by_contra hcut
    rw [not_or] at hcut
    obtain ⟨pn, hpn, hle, hlt⟩ := PnMode.exists_passes hcut.1 hcut.2
    apply henf.frame pn hpn hle
    apply Channel.replayDetect_frame h
    rwa [hrx, if_neg htid]
  · rintro ⟨htid, hwhole⟩
    apply Channel.enforces_of_key h
    intro pn hpn hle
    rw [hrx, if_neg htid]
    exact PnMode.read_seeded hwhole hpn hle

/-- The key that frames are checked with once a key is the only one of its table. -/
theorem Channel.key_of_put (conf : SkwKeyConf) {params : KeyParams}
    (hc : conf.skwCipher ∈ replayCiphers)
    (honly : ∀ i, i ≠ keyIdx → conf.installed i = false)
    (hs : s c.lmacId c.peerIdx = some ⟨(conf.put keyIdx (newSkwKey params)).toKeyConf⟩) :
    skwKeyIdx (conf.put keyIdx (newSkwKey params)).installedBitmap =
        (if keyIdx.val < 4 then some keyIdx else none) ∧
      c.key s = if keyIdx.val < 4 then some (newSkwKey params).toKey else none := by
  have hidx : skwKeyIdx (conf.put keyIdx (newSkwKey params)).installedBitmap =
      if keyIdx.val < 4 then some keyIdx else none := by
    apply skwKeyIdx_of_only
    intro j
    have hj := conf.installed_put keyIdx (newSkwKey params) j
    by_cases hjk : j = keyIdx
    · simpa [hjk, SkwKeyConf.installed] using hj
    · rw [honly j hjk] at hj
      simpa [hjk, SkwKeyConf.installed] using hj
  refine ⟨hidx, ?_⟩
  unfold Channel.key RxPeer.checkKey
  rw [hs, Option.bind_some]
  have hcipher : (conf.put keyIdx (newSkwKey params)).toKeyConf.skwCipher ∈ replayCiphers := hc
  simp only [SkwKeyConf.toKeyConf, hidx] at hcipher ⊢
  rw [if_pos (by exact hcipher)]
  split
  · simp [SkwKeyConf.put]
  · rfl

end

/-- The starting counter of a key that `skw_set_key` installs as the only one of its peer is
enforced in one TID exactly under `seedEnforced`. -/
theorem skwSetKey_enforces_iff (m : PnMode) (c : Channel) (s : PeerCtxs) (iface : KeyIface)
    (conf : SkwKeyConf) (keyIdx : Fin 6) (keyType : KeyType) (addr : Option MacAddr)
    (params : KeyParams) (seq : BitVec 48) (alloc : Bool) (ret : ℤ)
    (hseq : params.seq = some seq) (hc : toSkwCipherType params.cipher ∈ replayCiphers)
    (honly : ∀ i, i ≠ keyIdx → conf.installed i = false)
    (hret : (skwSetKey iface conf keyIdx keyType addr params alloc ret).1 = 0)
    (hs : s c.lmacId c.peerIdx =
      some ⟨(skwSetKey iface conf keyIdx keyType addr params alloc ret).2.1.toKeyConf⟩) :
    c.Enforces m s seq ↔ seedEnforced m keyIdx c.tid seq := by
  rw [toKeyConf_skwSetKey hret] at hs
  obtain ⟨hidx, hkey⟩ :=
    Channel.key_of_put { conf with skwCipher := toSkwCipherType params.cipher } hc honly hs
  by_cases hzero : seq = 0
  · refine iff_of_true ?_ (.inl hzero)
    intro ds d _ _ hpn hle
    rw [hzero] at hle
    exact absurd (BitVec.le_zero_iff.mp hle) hpn
  by_cases hlow : keyIdx.val < 4
  · rw [if_pos hlow] at hkey
    rw [Channel.enforces_seeded_iff hkey (newSkwKey_rxPn hseq) hzero, seedEnforced]
    simp only [hzero, hlow, true_and, false_or]
  · rw [if_neg hlow] at hidx
    constructor
    · intro h
      -- The key is not looked for, so the first frame passes.
      refine absurd ?_ (h.frame 1 (by decide) (one_le_of_ne_zero hzero))
      unfold replayDetect
      simp [hs, Channel.frame, pnFrame, SkwKeyConf.toKeyConf, hidx]
    · rintro (h | ⟨h, -⟩)
      · exact absurd h hzero
      · exact absurd h hlow

/-- Every peer has just got a CCMP key with the counter 5. -/
def seededPeers : PeerCtxs := fun _ _ =>
  some ⟨(skwSetKey staKeyIface emptyKeyConf 0 .ptk (some 5) (ccmpParams 1 5) true 0).2.1.toKeyConf⟩

theorem skwSetKey_enforces_tid_five :
    (Channel.mk 0 1 5).Enforces ⟨false, false⟩ seededPeers 5 :=
  (skwSetKey_enforces_iff ⟨false, false⟩ ⟨0, 1, 5⟩ seededPeers staKeyIface emptyKeyConf 0 .ptk
    (some 5) (ccmpParams 1 5) 5 true 0 rfl (by decide) (fun i _ => by revert i; decide) (by decide)
    rfl).mpr (.inr ⟨by decide, by decide, .inl rfl⟩)

/-- A frame with number 3 of TID 0 passes although the key starts at 5. -/
theorem seed_skips_tid_zero : ¬ (Channel.mk 0 1 0).Enforces ⟨false, false⟩ seededPeers 5 := by
  intro h
  exact h.frame 3 (by decide) (by decide) (by decide)

end Skw
