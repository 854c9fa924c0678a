import Skw.Bt.Nv

/-! When a download of the NV file returns, stays inside the file and its buffer, and reports a
command that failed. -/
namespace Skw

/-- The length that a record of the file states. -/
def Firmware.recordLen (fw : Firmware) (p : ℕ) : ℕ := (fw.data (p + 2)).toNat + 3

/-- Nothing goes wrong from the record at `p` on, with `n` bytes in the page and `k` commands
sent: every record whose header is read has it in the file, every record taken is in the file, and
no command fails but one that makes room for a record. -/
inductive RecordsClean (env : NvEnv) (fw : Firmware) : ℕ → ℕ → ℕ → Prop
  | done {p n k : ℕ} (hend : fw.size ≤ p)
      (hans : ∀ i < (if 0 < n then 1 else 0) + env.trailer.length, env.answer (k + i) = true) :
      RecordsClean env fw p n k
  | take {p n k : ℕ} (hrec : p + fw.recordLen p ≤ fw.size)
      (htag : fw.data p = NV_TAG_DSP_LOG_SETTING → p + 4 ≤ fw.size)
      (hfits : fw.recordLen p + n < NV_FILE_RD_BLOCK_SIZE)
      (next : RecordsClean env fw (p + fw.recordLen p) (n + fw.recordLen p) k) :
      RecordsClean env fw p n k
  | flush {p n k : ℕ} (hhead : p + 3 ≤ fw.size)
      (hfull : NV_FILE_RD_BLOCK_SIZE ≤ fw.recordLen p + n) (hans : env.answer k = true)
      (next : RecordsClean env fw p 0 (k + 1)) : RecordsClean env fw p n k
  | refused {p n k : ℕ} (hhead : p + 3 ≤ fw.size)
      (hfull : NV_FILE_RD_BLOCK_SIZE ≤ fw.recordLen p + n) (hans : env.answer k = false) :
      RecordsClean env fw p n k

/-- The condition on the path of a chip. -/
def NvClean (env : NvEnv) (fw : Firmware) : Prop :=
  if env.Lite then RecordsClean env fw 4 0 1
  else 0x131 < fw.size ∧
    ∀ k < 1 + (fw.size + 251) / NV_FILE_RD_BLOCK_SIZE + env.trailer.length, env.answer k = true

/-- No access is outside, and where a command failed an error is returned. -/
structure NvRun.Sound (r : NvRun) (env : NvEnv) (size : ℕ) : Prop where
  inside : ∀ x ∈ r.log, x.Inside size
  reported : (∃ k < r.cmds.length, env.answer k = false) → r.ret ≠ 0

/-- The end of a run. -/
def nvRun (env : NvEnv) (s : NvState) : NvRun :=
  ⟨(sendTrailer env s).err, (sendTrailer env s).cmds, (sendTrailer env s).log⟩

section
variable {env : NvEnv} {fw : Firmware} {s t : NvState}

theorem length_cmds_nvRun (h : s.err = 0) :
    (nvRun env s).cmds.length = s.cmds.length + env.trailer.length := by
  show (sendTrailer env s).cmds.length = _
  rw [cmds_sendTrailer h, List.length_append]

/-- A run without an error is sound when all its commands were answered. -/
theorem sound_nvRun_iff {size : ℕ} (h : s.err = 0) : (nvRun env s).Sound env size ↔
    (∀ x ∈ s.log, x.Inside size) ∧
      ∀ k < s.cmds.length + env.trailer.length, env.answer k = true := by
  have herr : (nvRun env s).ret = 0 := (err_sendTrailer env s).trans h
  have hlog : (nvRun env s).log = s.log := log_sendTrailer env s
  constructor
  · rintro ⟨hin, hrep⟩
    refine ⟨hlog ▸ hin, fun k hk => ?_⟩
    by_contra hno
    exact hrep ⟨k, (length_cmds_nvRun h).symm ▸ hk, Bool.eq_false_iff.mpr hno⟩ herr
  · rintro ⟨hin, hans⟩
    refine ⟨hlog.symm ▸ hin, ?_⟩
    rintro ⟨k, hk, hno⟩
    rw [length_cmds_nvRun h] at hk
    exact absurd (hans k hk) (by rw [hno]; exact Bool.false_ne_true)

theorem sound_nvRun_of_err {size : ℕ} (h : s.err ≠ 0) (hin : ∀ x ∈ s.log, x.Inside size) :
    (nvRun env s).Sound env size where
  inside := by
    show ∀ x ∈ (sendTrailer env s).log, _
    rwa [log_sendTrailer]
  reported _ := (err_sendTrailer env s).trans_ne h

@[simp] theorem err_lastPage (s : NvState) : (lastPage s).err = s.err := by
  unfold lastPage
  split_ifs <;> rfl

theorem length_cmds_lastPage (s : NvState) :
    (lastPage s).cmds.length = s.cmds.length + if 0 < s.totalLen then 1 else 0 := by
  unfold lastPage
  split_ifs with h
  · rw [cmds_sendNvds_header, List.length_append, List.length_singleton]
  · rfl

theorem inside_log_lastPage {size : ℕ} (hsmall : s.totalLen ≤ 251) :
    (∀ x ∈ (lastPage s).log, x.Inside size) ↔ ∀ x ∈ s.log, x.Inside size := by
  unfold lastPage
  split_ifs with h
  · show (∀ x ∈ (s.log ++ [.cmdPld 0 2]) ++ [.cmdPld 0 (s.totalLen + 2)], x.Inside size) ↔ _
    simp only [List.forall_mem_append, List.forall_mem_singleton, NvAccess.Inside]
    have hroom : 0 + (s.totalLen + 2) ≤ CMD_PLD_SIZE := by
      show 0 + (s.totalLen + 2) ≤ 512
      omega
    exact ⟨fun h => h.1.1, fun h => ⟨⟨h, by decide⟩, hroom⟩⟩
  · rfl

/-- What a sound run from the last page on says of the log before. -/
theorem NvRun.Sound.inside_log {size : ℕ} (h : (nvRun env (lastPage s)).Sound env size) :
    ∀ x ∈ s.log, x.Inside size := by
  intro x hx
  refine h.inside x ?_
  show x ∈ (sendTrailer env (lastPage s)).log
  rw [log_sendTrailer, lastPage]
  split_ifs
  · exact List.mem_append_left _ (List.mem_append_left _ hx)
  · exact hx

/-- What is known before a pass of the record loop. -/
structure NvState.Filling (s : NvState) (env : NvEnv) : Prop where
  small : s.totalLen ≤ 251
  err : s.err = 0
  answered : ∀ k < s.cmds.length, env.answer k = true

theorem NvState.init_filling (h : env.answer 0 = true) : (NvState.init 4).Filling env where
  small := Nat.zero_le _
  err := rfl
  answered k hk := by
    rwa [Nat.lt_one_iff.mp hk]

/-- A page that is sent leaves an empty one. -/
theorem NvState.Filling.flush (h : s.Filling env) (hlt : s.count < fw.size)
    (hfull : 252 ≤ fw.recordLen s.count + s.totalLen) (hans : env.answer s.cmds.length = true) :
    ∃ t, recordPass env fw s = .next t ∧ t.Filling env ∧ t.count = s.count ∧ t.totalLen = 0 ∧
      t.cmds.length = s.cmds.length + 1 ∧
      t.log = s.log ++ [.file s.count 1, .file (s.count + 2) 1, .cmdPld 0 2,
        .cmdPld 0 (s.totalLen + 2)] := by
  obtain ⟨t, hpass, hcount, htotal, -, herr, hcmds, hlog⟩ :=
    recordPass_of_full env hlt hfull
  rw [if_pos hans] at hpass
  have hlen : t.cmds.length = s.cmds.length + 1 := by
    rw [hcmds, List.length_append, List.length_singleton]
  refine ⟨_, hpass, ⟨htotal.trans_le (Nat.zero_le _), herr.trans h.err, fun k hk => ?_⟩, hcount,
    htotal, hlen, hlog⟩
  rcases Nat.lt_succ_iff_lt_or_eq.mp (hk.trans_eq hlen) with hk | rfl
  · exact h.answered k hk
  · exact hans

/-- A page that is refused ends the loop with an error. -/
theorem recordPass_of_refused (hlt : s.count < fw.size)
    (hfull : 252 ≤ fw.recordLen s.count + s.totalLen) (hans : env.answer s.cmds.length = false) :
    ∃ t, recordPass env fw s = .done t ∧ t.err = -1 ∧ t.totalLen = 0 ∧
      t.log = s.log ++ [.file s.count 1, .file (s.count + 2) 1, .cmdPld 0 2,
        .cmdPld 0 (s.totalLen + 2)] := by
  obtain ⟨t, hpass, -, htotal, -, -, -, hlog⟩ := recordPass_of_full env hlt hfull
  rw [hans, if_neg Bool.false_ne_true] at hpass
  exact ⟨_, hpass, rfl, htotal, hlog⟩

theorem NvState.Filling.take (h : s.Filling env) (hlt : s.count < fw.size)
    (hfits : fw.recordLen s.count + s.totalLen < 252) :
    ∃ t, recordPass env fw s = .next t ∧ t.Filling env ∧
      t.count = s.count + fw.recordLen s.count ∧
      t.totalLen = s.totalLen + fw.recordLen s.count ∧ t.cmds.length = s.cmds.length ∧
      t.log = s.log ++ [.file s.count 1, .file (s.count + 2) 1,
        .file s.count (fw.recordLen s.count),
        .cmdPld (2 + s.totalLen) (fw.recordLen s.count)] ++
          (if fw.data s.count = NV_TAG_DSP_LOG_SETTING then
            [.file (s.count + 3) 1, .cmdPld (2 + s.totalLen + 3) 1] else []) := by
  obtain ⟨t, hpass, hcount, htotal, -, herr, hcmds, hlog, -⟩ :=
    recordPass_of_fits env hlt hfits
  refine ⟨t, hpass, ⟨htotal.trans_le ?_, herr.trans h.err, hcmds ▸ h.answered⟩, hcount, htotal,
    by rw [hcmds], hlog⟩
  rw [Firmware.recordLen] at hfits
  omega

/-- Every access of a pass stays in the log. -/
theorem log_subset_recordPass (env : NvEnv) (fw : Firmware) (s : NvState) :
    s.log ⊆ (recordPass env fw s).state.log := by
  rcases Nat.lt_or_ge s.count fw.size with hlt | hge
  · rcases Nat.lt_or_ge (fw.recordLen s.count + s.totalLen) 252 with hfits | hfull
    · obtain ⟨t, hpass, -, -, -, -, -, hlog, -⟩ := recordPass_of_fits env hlt hfits
      rw [hpass]
      show s.log ⊆ t.log
      rw [hlog, List.append_assoc]
      exact List.subset_append_left ..
    · obtain ⟨t, hpass, -, -, -, -, -, hlog⟩ := recordPass_of_full env hlt hfull
      have hsub : s.log ⊆ t.log := hlog ▸ List.subset_append_left ..
      rw [hpass]
      split_ifs
      · exact hsub
      · exact hsub
  · rw [recordPass_of_ge hge]
    exact List.Subset.refl _

theorem log_subset_loop {fuel : ℕ} (h : Lib.loop (recordPass env fw) fuel s = some t) :
    s.log ⊆ t.log := by
  intro x hx
  refine Lib.of_loop_eq (I := fun u => x ∈ u.log) (Q := fun u => x ∈ u.log) ?_ ?_ hx h
  · intro u v hu hp
    have := log_subset_recordPass env fw u hu
    rwa [hp] at this
  · intro u v hu hp
    have := log_subset_recordPass env fw u hu
    rwa [hp] at this

/-- The accesses of a pass that sends a page. -/
theorem inside_log_of_full (hsmall : s.totalLen ≤ 251) (hhead : s.count + 3 ≤ fw.size)
    (hin : ∀ x ∈ s.log, x.Inside fw.size) :
    ∀ x ∈ s.log ++ [.file s.count 1, .file (s.count + 2) 1, .cmdPld 0 2,
      .cmdPld 0 (s.totalLen + 2)], x.Inside fw.size := by
  have hroom : 0 + (s.totalLen + 2) ≤ 512 := by omega
  simp only [List.forall_mem_append, List.forall_mem_cons, NvAccess.Inside]
  exact ⟨hin, by omega, hhead, by decide, hroom, fun x hx => by cases hx⟩

/-- The record loop where nothing goes wrong. -/
theorem RecordsClean.sound {p n k : ℕ} (h : RecordsClean env fw p n k) (hs : s.Filling env)
    (hp : s.count = p) (hn : s.totalLen = n) (hk : s.cmds.length = k)
    (hin : ∀ x ∈ s.log, x.Inside fw.size) :
    ∃ fuel t, Lib.loop (recordPass env fw) fuel s = some t ∧
      (nvRun env (lastPage t)).Sound env fw.size := by
  induction h generalizing s with
  | done hend hans =>
    subst hp hn hk
    refine ⟨1, s, by rw [Lib.loop, recordPass_of_ge hend], ?_⟩
    rw [sound_nvRun_iff ((err_lastPage s).trans hs.err), inside_log_lastPage hs.small,
      length_cmds_lastPage]
    refine ⟨hin, fun k hk => ?_⟩
    rcases Nat.lt_or_ge k s.cmds.length with hlt | hge
    · exact hs.answered k hlt
    · obtain ⟨i, rfl⟩ := Nat.exists_eq_add_of_le hge
      exact hans i (by omega)
  | take hrec htag hfits next ih =>
    subst hp hn hk
    have hlen : 3 ≤ fw.recordLen s.count := Nat.le_add_left ..
    obtain ⟨t, hpass, ht, hcount, htotal, hcmds, hlog⟩ := hs.take (by omega) hfits
    obtain ⟨fuel, u, hl, hu⟩ := ih ht hcount htotal hcmds (by
      have hfits : fw.recordLen s.count + s.totalLen < 252 := hfits
      have hcopy : 2 + s.totalLen + fw.recordLen s.count ≤ 512 := by omega
      rw [hlog]
      simp only [List.forall_mem_append, List.forall_mem_cons, NvAccess.Inside]
      refine ⟨⟨hin, by omega, by omega, hrec, hcopy, fun x hx => by cases hx⟩, ?_⟩
      split_ifs with h
      · have hforce : 2 + s.totalLen + 3 + 1 ≤ 512 := by omega
        simp only [List.forall_mem_cons]
        exact ⟨htag h, hforce, fun x hx => by cases hx⟩
      · exact fun x hx => by cases hx)
    exact ⟨fuel + 1, u, by rw [Lib.loop, hpass]; exact hl, hu⟩
  | flush hhead hfull hans next ih =>
    subst hp hn hk
    obtain ⟨t, hpass, ht, hcount, htotal, hcmds, hlog⟩ := hs.flush (by omega) hfull hans
    obtain ⟨fuel, u, hl, hu⟩ := ih ht hcount htotal hcmds
      (hlog ▸ inside_log_of_full hs.small hhead hin)
    exact ⟨fuel + 1, u, by rw [Lib.loop, hpass]; exact hl, hu⟩
  | refused hhead hfull hans =>
    subst hp hn hk
    obtain ⟨t, hpass, herr, htotal, hlog⟩ := recordPass_of_refused (by omega) hfull hans
    refine ⟨1, t, by rw [Lib.loop, hpass], ?_⟩
    refine sound_nvRun_of_err (by rw [err_lastPage, herr]; decide) ?_
    rw [inside_log_lastPage (htotal.trans_le (Nat.zero_le _)), hlog]
    exact inside_log_of_full hs.small hhead hin

/-- From a sound run back. -/
theorem RecordsClean.of_loop {fuel : ℕ} (h : Lib.loop (recordPass env fw) fuel s = some t)
    (hs : s.Filling env) (hsound : (nvRun env (lastPage t)).Sound env fw.size) :
    RecordsClean env fw s.count s.totalLen s.cmds.length := by
  have hin := hsound.inside_log
  induction fuel generalizing s with
  | zero => cases h
  | succ fuel ih =>
    rw [Lib.loop] at h
    rcases Nat.lt_or_ge s.count fw.size with hlt | hge
    · rcases Nat.lt_or_ge (fw.recordLen s.count + s.totalLen) 252 with hfits | hfull
      · obtain ⟨u, hpass, hu, hcount, htotal, hcmds, hlog⟩ := hs.take hlt hfits
        rw [hpass] at h
        have hinu : ∀ x ∈ u.log, x.Inside fw.size := fun x hx => hin x (log_subset_loop h hx)
        rw [hlog] at hinu
        simp only [List.forall_mem_append, List.forall_mem_cons, NvAccess.Inside] at hinu
        obtain ⟨⟨-, -, -, hrec, -⟩, htag⟩ := hinu
        have hnext := ih h hu
        rw [hcount, htotal, hcmds] at hnext
        refine .take hrec (fun h => ?_) hfits hnext
        rw [if_pos h] at htag
        exact htag _ (List.mem_cons_self ..)
      · cases hans : env.answer s.cmds.length with
        | true =>
          obtain ⟨u, hpass, hu, hcount, htotal, hcmds, hlog⟩ := hs.flush hlt hfull hans
          rw [hpass] at h
          have hhead : (NvAccess.file (s.count + 2) 1).Inside fw.size :=
            hin _ (log_subset_loop h (by rw [hlog]; simp))
          have hnext := ih h hu
          rw [hcount, htotal, hcmds] at hnext
          exact .flush hhead hfull hans hnext
        | false =>
          obtain ⟨u, hpass, -, -, hlog⟩ := recordPass_of_refused hlt hfull hans
          rw [hpass] at h
          cases h
          have hhead : (NvAccess.file (s.count + 2) 1).Inside fw.size :=
            hin _ (by rw [hlog]; simp)
          exact .refused hhead hfull hans
    · rw [recordPass_of_ge hge] at h
      obtain rfl := Option.some.inj h
      have hans := ((sound_nvRun_iff ((err_lastPage _).trans hs.err)).mp hsound).2
      rw [length_cmds_lastPage] at hans
      exact .done hge fun i hi => hans _ (by omega)

/-! ### The blocks -/

/-- The buffer of a block of `len` bytes, before it is sent. -/
theorem exists_log_block (s : NvState) {len : ℕ} (hfile : s.count + len ≤ fw.size)
    (hle : len ≤ 252) :
    let u := (s.header len).copy fw 2 len
    let v := if s.pageOffset = 1 then u.force (2 + 53) (logDisable (fw.data 0x131)) else u
    v.cmds = s.cmds ∧ v.err = s.err ∧ ∃ l, v.log = s.log ++ l ∧ ∀ x ∈ l, x.Inside fw.size := by
  have hin : ∀ x ∈ [NvAccess.cmdPld 0 2, .file s.count len, .cmdPld 2 len], x.Inside fw.size := by
    have hroom : 2 + len ≤ 512 := by omega
    simp only [List.forall_mem_cons, NvAccess.Inside]
    exact ⟨by decide, hfile, hroom, fun x hx => by cases hx⟩
  dsimp only
  split_ifs with h
  · refine ⟨rfl, rfl, [.cmdPld 0 2, .file s.count len, .cmdPld 2 len] ++ [.cmdPld (2 + 53) 1],
      ?_, List.forall_mem_append.mpr ⟨hin, List.forall_mem_singleton.mpr ?_⟩⟩
    · show ((s.log ++ _) ++ _) ++ _ = _
      simp only [List.append_assoc, List.cons_append, List.nil_append]
      rfl
    · show 2 + 53 + 1 ≤ 512
      decide
  · refine ⟨rfl, rfl, _, ?_, hin⟩
    show (s.log ++ _) ++ _ = _
    rw [List.append_assoc]
    rfl

variable (env) in
/-- A pass that sends the block at `count`. -/
theorem blockPass_of_lt (hlt : s.count < fw.size) :
    ∃ t : NvState, blockPass env fw s =
        (if env.answer s.cmds.length then .next { t with pageOffset := s.pageOffset + 1 }
          else .done t) ∧
      t.count = s.count + min (fw.size - s.count) 252 ∧ t.err = s.err ∧
      t.cmds.length = s.cmds.length + 1 ∧ s.log ⊆ t.log ∧
      ∀ x ∈ t.log, x ∈ s.log ∨ x.Inside fw.size := by
  let len := if fw.size - s.count < NV_FILE_RD_BLOCK_SIZE then fw.size - s.count
    else NV_FILE_RD_BLOCK_SIZE
  have hlen : len = min (fw.size - s.count) 252 := by
    rw [min_def]
    simp only [len, NV_FILE_RD_BLOCK_SIZE]
    split_ifs <;> omega
  let u := (s.header len).copy fw 2 len
  let v := if s.pageOffset = 1 then u.force (2 + 53) (logDisable (fw.data 0x131)) else u
  have hv : v.cmds = s.cmds ∧ v.err = s.err ∧ ∃ l, v.log = s.log ++ l ∧
      ∀ x ∈ l, x.Inside fw.size := exists_log_block s (by omega) (by omega)
  obtain ⟨hcmds, herr, l, hlog, hin⟩ := hv
  refine ⟨{ v.sendNvds len with count := s.count + len }, if_pos hlt, by rw [← hlen], herr, ?_, ?_,
    ?_⟩
  · show (v.cmds ++ [_]).length = _
    rw [List.length_append, List.length_singleton, hcmds]
  · show s.log ⊆ v.log ++ _
    rw [hlog, List.append_assoc]
    exact List.subset_append_left ..
  · have hroom : 0 + (len + 2) ≤ 512 := by omega
    show ∀ x ∈ v.log ++ [.cmdPld 0 (len + 2)], _
    rw [hlog]
    intro x hx
    rcases List.mem_append.mp hx with hx | hx
    · exact (List.mem_append.mp hx).imp_right (hin x)
    · rw [List.mem_singleton.mp hx]
      exact .inr hroom

/-- What is known before a pass over the blocks. -/
structure NvState.Blocks (s : NvState) (fw : Firmware) : Prop where
  err : s.err = 0
  le : s.count ≤ fw.size
  whole : s.count % 252 = 0 ∨ s.count = fw.size
  length : s.cmds.length = 1 + (s.count + 251) / 252
  read : .file 0x131 1 ∈ s.log
  inside : ∀ x ∈ s.log, x = .file 0x131 1 ∨ x.Inside fw.size

variable (env) in
/-- A pass that goes on or ends, by the answer to its block. -/
theorem NvState.Blocks.pass (h : s.Blocks fw) (hlt : s.count < fw.size) :
    ∃ t : NvState, t.Blocks fw ∧ t.cmds.length = s.cmds.length + 1 ∧ s.count < t.count ∧
      blockPass env fw s = if env.answer s.cmds.length then .next t else .done t := by
  obtain ⟨t, hpass, hcount, herr, hcmds, hsub, hin⟩ := blockPass_of_lt env hlt
  have hwhole : s.count % 252 = 0 := h.whole.resolve_right hlt.ne
  have hlen := h.length
  have ht : t.Blocks fw := {
    err := herr.trans h.err
    le := by omega
    whole := by omega
    length := by omega
    read := hsub h.read
    inside := fun x hx => (hin x hx).elim (h.inside x) .inr }
  have hnext : s.count < t.count := by omega
  rw [hpass]
  cases env.answer s.cmds.length with
  | true => exact ⟨{ t with pageOffset := s.pageOffset + 1 }, ⟨ht.err, ht.le, ht.whole, ht.length,
      ht.read, ht.inside⟩, hcmds, hnext, rfl⟩
  | false => exact ⟨t, ht, hcmds, hnext, rfl⟩

theorem blockPass_of_ge (h : fw.size ≤ s.count) : blockPass env fw s = .done s :=
  if_neg (not_lt.mpr h)

theorem NvState.init_blocks (fw : Firmware) : ((NvState.init 0).read 0x131 1).Blocks fw where
  err := rfl
  le := Nat.zero_le _
  whole := .inl rfl
  length := rfl
  read := List.mem_singleton_self _
  inside _ hx := .inl (List.mem_singleton.mp hx)

/-- The loop over the blocks is left; with a command that failed, or behind the last block. -/
theorem NvState.Blocks.exists_loop (h : s.Blocks fw)
    (hans : ∀ k < s.cmds.length, env.answer k = true) :
    ∃ fuel t, Lib.loop (blockPass env fw) fuel s = some t ∧ t.Blocks fw ∧
      ((∀ k < t.cmds.length, env.answer k = true) ∧ t.count = fw.size ∨
        ∃ k < t.cmds.length, env.answer k = false) := by
  obtain ⟨n, hn⟩ : ∃ n, fw.size - s.count = n := ⟨_, rfl⟩
  induction n using Nat.strong_induction_on generalizing s with
  | h n ih =>
    rcases Nat.lt_or_ge s.count fw.size with hlt | hge
    · obtain ⟨t, ht, hcmds, hcount, hpass⟩ := h.pass env hlt
      cases hk : env.answer s.cmds.length with
      | true =>
        rw [hk, if_pos rfl] at hpass
        have hanst : ∀ k < t.cmds.length, env.answer k = true := fun k hk' =>
          (Nat.lt_succ_iff_lt_or_eq.mp (hk'.trans_eq hcmds)).elim (hans k) fun he => he ▸ hk
        obtain ⟨fuel, u, hl, hu⟩ := ih (fw.size - t.count) (by omega) ht hanst rfl
        exact ⟨fuel + 1, u, by rw [Lib.loop, hpass]; exact hl, hu⟩
      | false =>
        rw [hk, if_neg Bool.false_ne_true] at hpass
        exact ⟨1, t, by rw [Lib.loop, hpass], ht, .inr ⟨s.cmds.length, by omega, hk⟩⟩
    · exact ⟨1, s, by rw [Lib.loop, blockPass_of_ge hge], h, .inl ⟨hans, le_antisymm h.le hge⟩⟩

/-- Every run over the blocks returns without an error. -/
theorem sound_blocks_iff (hans : env.answer 0 = true) :
    (∃ fuel t, Lib.loop (blockPass env fw) fuel ((NvState.init 0).read 0x131 1) = some t ∧
      (nvRun env t).Sound env fw.size) ↔
    0x131 < fw.size ∧
      ∀ k < 1 + (fw.size + 251) / NV_FILE_RD_BLOCK_SIZE + env.trailer.length,
        env.answer k = true := by
  obtain ⟨fuel, t, hl, ht, hend⟩ := (NvState.init_blocks fw).exists_loop
    fun k hk => (Nat.lt_one_iff.mp hk).symm ▸ hans
  have hlen := ht.length
  constructor
  · rintro ⟨fuel', u, hl', hu⟩
    obtain rfl : t = u := Lib.loop_unique hl hl'
    obtain ⟨hin, hall⟩ := (sound_nvRun_iff ht.err).mp hu
    have hcount : t.count = fw.size := by
      rcases hend with hend | ⟨k, hk, hno⟩
      · exact hend.2
      · exact absurd (hall k (by omega)) (by rw [hno]; exact Bool.false_ne_true)
    rw [hcount] at hlen
    exact ⟨hin _ ht.read, fun k hk => hall k (by rw [hlen]; exact hk)⟩
  · rintro ⟨hsize, hall⟩
    have hle : (t.count + 251) / 252 ≤ (fw.size + 251) / 252 :=
      Nat.div_le_div_right (Nat.add_le_add_right ht.le 251)
    refine ⟨fuel, t, hl, (sound_nvRun_iff ht.err).mpr ⟨fun x hx => ?_, fun k hk => hall k ?_⟩⟩
    · rcases ht.inside x hx with rfl | hx
      · exact hsize
      · exact hx
    · show k < 1 + (fw.size + 251) / 252 + _
      omega

end

def NvEnv.fileSize (env : NvEnv) : ℕ :=
  match env.file with
  | .ok fw => fw.size
  | .error _ => 0

/-- A run that ends before the first page. -/
theorem sound_of_no_page (env : NvEnv) {ret : ℤ} (h : env.answer 0 = false → ret ≠ 0) (size : ℕ) :
    (NvRun.mk ret [versionCommand] []).Sound env size where
  inside x hx := by cases hx
  reported := by
    rintro ⟨k, hk, hno⟩
    rw [Nat.lt_one_iff.mp hk] at hno
    exact h hno

/-- A header of four bytes, and behind it the start of a record that states `len` bytes. -/
def Firmware.ofLen (len : BitVec 8) (size : ℕ) (h : size < 2 ^ 31) : Firmware where
  data i := if i = 6 then len else 0
  size := size
  size_lt := h

end Skw
