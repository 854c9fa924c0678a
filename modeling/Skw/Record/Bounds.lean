import Skw.Record.Files

/-! How much room the files of the recorder take, and when a start still records. -/
namespace Skw
namespace Recorder
variable {c : LogConf} {s t : Recorder} {e : RecStep}

/-- The chip does not crash. -/
def Calm (_ : Recorder) : RecStep → Prop
  | .notify .assert => False
  | _ => True

/-- The work is in front of the write that could fill the file. -/
def isUnder : RecPc → Bool
  | .test | .reading | .check | .writing => true
  | _ => false

/-- A file gets its next octets only as long as it is not over `skw_log_size`. -/
structure Sized (c : LogConf) (s : Recorder) : Prop where
  calm : s.cpAssertStatus = false
  length : ∀ k, (s.files k).length ≤ c.size.toNat + SKW_LOG_READ_BUFFER_SIZE
  offset : isActive s.pc = true → s.offset = (s.files (logName s.index)).length
  under : isUnder s.pc = true → (s.offset : ℤ) ≤ c.size

theorem Sized.flagged (hz : Sized c s) (h : Flagged s t) (hcalm : t.cpAssertStatus = false) :
    Sized c t := by
  rw [h]
  exact ⟨hcalm, hz.length, hz.offset, hz.under⟩

/-- The files stay, and the work does not come nearer to a write. -/
theorem Sized.goto (hz : Sized c s) (hcalm : t.cpAssertStatus = false) (hfiles : t.files = s.files)
    (hoffset : t.offset = s.offset) (hindex : t.index = s.index)
    (hact : isActive t.pc = true → isActive s.pc = true)
    (hunder : isUnder t.pc = true → isUnder s.pc = true) : Sized c t where
  calm := hcalm
  length := hfiles ▸ hz.length
  offset h := by
    rw [hoffset, hfiles, hindex]
    exact hz.offset (hact h)
  under h := by
    rw [hoffset]
    exact hz.under (hunder h)

theorem length_update_le {files : ℕ → List (BitVec 8)} {n : ℕ} (h : ∀ k, (files k).length ≤ n)
    {name : ℕ} {x : List (BitVec 8)} (hx : x.length ≤ n) (k : ℕ) :
    (Function.update files name x k).length ≤ n := by
  by_cases hk : k = name
  · rw [hk, Function.update_self]
    exact hx
  · rw [Function.update_of_ne hk]
    exact h k

/-- A file that has just been opened. -/
theorem Sized.opened (hz : Sized c s) (h₀ : 0 ≤ c.size) {b : BitVec 8}
    (hcalm : t.cpAssertStatus = false) (hfiles : t.files = Function.update s.files (logName b) [])
    (hoffset : isActive t.pc = true → t.index = b ∧ t.offset = 0) : Sized c t where
  calm := hcalm
  length := hfiles ▸ length_update_le hz.length (Nat.zero_le _)
  offset h := by
    obtain ⟨hindex, hzero⟩ := hoffset h
    rw [hzero, hfiles, hindex, Function.update_self]
    rfl
  under h := by
    have hact : isActive t.pc = true := by
      generalize t.pc = pc at h ⊢
      cases pc <;> first | rfl | cases h
    rw [(hoffset hact).2]
    exact h₀

theorem Sized.writeData (hz : Sized c s) (hk : Kept c s) (hpc : s.pc = .writing) {k : ℕ}
    (hle : k ≤ s.buf.length) : Sized c (s.writeData k) := by
  have hroom := hk.room
  rw [hpc] at hroom
  have hbuf : s.buf.length ≤ SKW_LOG_READ_BUFFER_SIZE := hroom
  have hoffset : s.offset = (s.files (logName s.index)).length := hz.offset (by rw [hpc]; rfl)
  have hunder : (s.offset : ℤ) ≤ c.size := hz.under (by rw [hpc]; rfl)
  have htake : (s.buf.take k).length = k := by
    rw [List.length_take]
    omega
  refine ⟨hz.calm, length_update_le hz.length ?_, fun _ => ?_, fun h => absurd h Bool.false_ne_true⟩
  · rw [List.length_append, htake]
    omega
  · have hfile : (s.writeData k).files (logName s.index) =
        s.files (logName s.index) ++ s.buf.take k := Function.update_self ..
    change s.offset + k = ((s.writeData k).files (logName s.index)).length
    rw [hfile, List.length_append, htake, hoffset]

theorem Sized.openFiles (hz : Sized c s) (h₀ : 0 ≤ c.size) {r : RecOpen} (h : Opens c s r t) :
    Sized c t := by
  cases h with
  | early =>
    exact hz.goto hz.calm rfl rfl rfl (fun h => absurd h Bool.false_ne_true)
      fun h => absurd h Bool.false_ne_true
  | noFile =>
    exact hz.goto hz.calm rfl rfl rfl (fun h => absurd h Bool.false_ne_true)
      fun h => absurd h Bool.false_ne_true
  | noBuf store b => exact hz.opened h₀ hz.calm rfl fun h => absurd h Bool.false_ne_true
  | runs store b => exact hz.opened h₀ hz.calm rfl fun _ => ⟨rfl, rfl⟩

theorem Sized.switch (hz : Sized c s) (h₀ : 0 ≤ c.size) (storeWrite fileOpens : Bool) :
    Sized c (s.switch c storeWrite fileOpens) := by
  unfold Recorder.switch
  dsimp only
  generalize (if storeWrite = true then _ else _ : Option (BitVec 8)) = store
  split_ifs
  · exact hz.opened h₀ hz.calm rfl fun _ => ⟨rfl, rfl⟩
  · exact hz.goto hz.calm rfl rfl rfl (fun h => absurd h Bool.false_ne_true)
      fun h => absurd h Bool.false_ne_true

theorem Sized.step (hz : Sized c s) (hk : Kept c s) (h₀ : 0 ≤ c.size) (hg : Calm s e)
    (h : s.step c e = some t) : Sized c t := by
  have hin {pc pc' : RecPc} (hpc : s.pc = pc) (hact : isActive pc = true)
      (hunder : isUnder pc' = true → isUnder pc = true) : Sized c { s with pc := pc' } := by
    refine hz.goto hz.calm rfl rfl rfl (fun _ => ?_) fun h => ?_
    · rw [hpc]
      exact hact
    · rw [hpc]
      exact hunder h
  cases move_of_step h with
  | flags hf hcalm =>
    refine hz.flagged hf (hcalm (fun he => ?_) hz.calm)
    rw [he] at hg
    exact hg
  | userOpen => exact hz.goto hz.calm rfl rfl rfl id id
  | userRelease => exact hz.goto hz.calm rfl rfl rfl id id
  | enter =>
    exact hz.goto hz.calm rfl rfl rfl (fun h => absurd h Bool.false_ne_true)
      fun h => absurd h Bool.false_ne_true
  | openFiles _ hopens => exact hz.openFiles h₀ hopens
  | reading hpc => exact hin hpc rfl fun _ => rfl
  | closing hpc => exact hin hpc rfl fun _ => rfl
  | read hpc _ _ hf hcalm =>
    refine Sized.flagged ?_ hf (hcalm hz.calm)
    unfold readData
    split_ifs
    · refine hz.goto hz.calm rfl rfl rfl (fun _ => ?_) fun _ => ?_
      · rw [hpc]
        rfl
      · rw [hpc]
        rfl
    · exact hin hpc rfl fun _ => rfl
  | due hpc => exact hin hpc rfl fun _ => rfl
  | room hpc => exact hin hpc rfl fun _ => rfl
  | write hpc hret hf hcalm =>
    exact (hz.writeData hk hpc (by omega)).flagged hf (hcalm.trans hz.calm)
  | full hpc => exact hin hpc rfl fun h => absurd h Bool.false_ne_true
  | under hpc hle =>
    refine ⟨hz.calm, hz.length, fun _ => hz.offset ?_, fun _ => hle hz.calm⟩
    rw [hpc]
    rfl
  | switch storeWrite fileOpens => exact hz.switch h₀ storeWrite fileOpens
  | close =>
    exact hz.goto hz.calm rfl rfl rfl (fun h => absurd h Bool.false_ne_true)
      fun h => absurd h Bool.false_ne_true

end Recorder

theorem modemLogInit_size (num size : BitVec 32) :
    512 * 1024 ≤ (modemLogInit num size).2.toInt ∧
      (modemLogInit num size).2.toInt ≤ 200 * 1024 * 1024 := by
  unfold modemLogInit
  dsimp only
  generalize hbig : (if (200 * 1024 * 1024 : ℤ) < size.toInt then _ else _ : BitVec 32) = big
  have hle : big.toInt ≤ 200 * 1024 * 1024 := by
    rw [← hbig]
    split_ifs with h
    · decide
    · exact not_lt.mp h
  split_ifs with h
  · decide
  · exact ⟨not_lt.mp h, hle⟩

/-- The number of files is cut to what the product of 32 bits allows. -/
theorem modemLogInit_num (num size : BitVec 32) :
    (modemLogInit num size).1.toInt =
      min 99
        (if (1024 * 1024 * 1024 : ℤ) < ((modemLogInit num size).2 * num).toInt then
          (1024 * 1024 * 1024 : ℤ) / (modemLogInit num size).2.toInt
        else num.toInt) := by
  have hdiv : ((1024 * 1024 * 1024 : BitVec 32).sdiv (modemLogInit num size).2).toInt =
      (1024 * 1024 * 1024 : ℤ) / (modemLogInit num size).2.toInt := by
    rw [BitVec.toInt_sdiv_of_ne_or_ne _ _ (Or.inl (by decide))]
    exact Int.tdiv_eq_ediv_of_nonneg (by decide)
  have hcut (x : BitVec 32) : (if 99 < x.toInt then 99 else x).toInt = min 99 x.toInt := by
    split_ifs with h
    · exact (min_eq_left h.le).symm
    · exact (min_eq_right (not_lt.mp h)).symm
  have hnum : (modemLogInit num size).1.toInt = min 99
      (if (1024 * 1024 * 1024 : ℤ) < ((modemLogInit num size).2 * num).toInt then
        (1024 * 1024 * 1024 : BitVec 32).sdiv (modemLogInit num size).2
      else num).toInt := hcut _
  rw [hnum]
  congr 1
  split_ifs
  · exact hdiv
  · rfl

namespace Recorder
variable {c : LogConf} {s t : Recorder} {e : RecStep}

/-- Two works have ended with the port counted as open. -/
structure Dead (s : Recorder) : Prop where
  pc : s.pc = .idle
  queued : s.queued = false
  opened : 2 ≤ s.opened - s.users ∧ s.users ≤ s.opened

theorem Dead.step (hd : s.Dead) (h : s.step c e = some t) : t.Dead := by
  have hopened := hd.opened
  have hno {pc : RecPc} (hpc : s.pc = pc) (hne : RecPc.idle ≠ pc) : t.Dead :=
    absurd (hd.pc.symm.trans hpc) hne
  cases move_of_step h with
  | flags hf _ hqueued =>
    have hq : t.queued = false := by
      by_contra hq
      rcases hqueued (Bool.not_eq_false _ ▸ hq) with hq | hle
      · rw [hd.queued] at hq
        cases hq
      · omega
    rw [hf]
    exact ⟨hd.pc, hq, hd.opened⟩
  | userOpen txBusy hle => exact absurd hle (by omega)
  | userRelease =>
    refine ⟨hd.pc, hd.queued, ?_⟩
    change 2 ≤ s.opened - 1 - (s.users - 1) ∧ s.users - 1 ≤ s.opened - 1
    omega
  | enter _ hq =>
    rw [hd.queued] at hq
    cases hq
  | openFiles hpc => exact hno hpc nofun
  | reading hpc => exact hno hpc nofun
  | closing hpc => exact hno hpc nofun
  | read hpc => exact hno hpc nofun
  | due hpc => exact hno hpc nofun
  | room hpc => exact hno hpc nofun
  | write hpc => exact hno hpc nofun
  | full hpc => exact hno hpc nofun
  | under hpc => exact hno hpc nofun
  | switch storeWrite fileOpens hpc => exact hno hpc nofun
  | close hpc => exact hno hpc nofun

/-- The users can all release the port. -/
theorem exists_released (s : Recorder) (hopened : s.opened = s.users + s.stuck) :
    ∃ t, Lib.Reach (step c) Lib.Free s t ∧ t.users = 0 ∧ t.opened = t.stuck ∧ t.stuck = s.stuck ∧
      t.pc = s.pc := by
  induction hn : s.users generalizing s with
  | zero => exact ⟨s, .init, hn, by omega, rfl, rfl⟩
  | succ n ih =>
    obtain ⟨t, ht, husers, heq, hstuck, hpc⟩ :=
      ih { s with opened := s.opened - 1, users := s.users - 1 }
        (by change s.opened - 1 = s.users - 1 + s.stuck; omega)
        (by change s.users - 1 = n; omega)
    have hstep : s.step c .userRelease = some { s with opened := s.opened - 1, users := s.users - 1 } :=
      if_neg (by omega)
    exact ⟨t, (Lib.Reach.next .init trivial hstep).trans ht, husers, heq, hstuck, hpc⟩

/-- A start of a stopped recorder leads to a read. -/
theorem exists_reading (c : LogConf) (hpc : s.pc = .idle) (hopened : s.opened ≤ 1) :
    ∃ t, Lib.Reach (step c) Lib.Free s t ∧ t.pc = .reading := by
  have hstart : s.stopRec.startRec =
      { s with recordFlag := false, cpAssertStatus := false, queued := true } :=
    if_neg fun hno => hno.elim (fun hlt => by change 1 < s.opened at hlt; omega) Bool.false_ne_true
  have hrun : (Lib.exec (step c) s
      [.stopRec, .startRec, .enter, .openFiles goodOpen, .test]).any (·.pc = .reading) = true := by
    change (Lib.exec (step c) s.stopRec.startRec [.enter, .openFiles goodOpen, .test]).any _ = true
    rw [hstart]
    simp [Lib.exec, step, openFiles, goodOpen, hpc]
  obtain ⟨t, ht, hp⟩ := Option.any_eq_true .. |>.mp hrun
  exact ⟨t, Lib.Reach.of_exec_forall (fun _ _ _ => trivial) ht, of_decide_eq_true hp⟩

end Recorder
end Skw
