import Skw.Record.Work

/-! What the recorder keeps in every interleaving. The octets it reads leave its buffer in their
order, and the buffer is never too small. The files are a ring that it turns by the number in
`log_store`, and hold the last part of what was written. -/
namespace Skw

/-- The number of files. -/
def LogConf.files (c : LogConf) : ℕ := c.num.toNat + 1

theorem logName_eq {b : BitVec 8} (h : b.toNat < 100) : logName b = b.toNat := by
  unfold logName
  omega

theorem toNat_nextLog {c : LogConf} {b : BitVec 8} (h₀ : 0 ≤ c.num) (h : c.num ≤ 99)
    (hb : b.toNat < c.files) : (nextLog c.num b).toNat = (b.toNat + 1) % c.files := by
  unfold LogConf.files at hb ⊢
  have hsucc : (b + 1).toNat = b.toNat + 1 := by
    rw [BitVec.toNat_add]
    exact Nat.mod_eq_of_lt (show b.toNat + 1 < 2 ^ 8 by omega)
  unfold nextLog
  rw [hsucc]
  split_ifs with hlast
  · have hwrap : b.toNat + 1 = c.num.toNat + 1 := by omega
    rw [hwrap, Nat.mod_self]
    rfl
  · rw [hsucc, Nat.mod_eq_of_lt (by omega)]

namespace Recorder
variable {c : LogConf} {s t : Recorder} {e : RecStep} {log : List (BitVec 8)}

/-- The work has counted the port as open. -/
def isActive : RecPc → Bool
  | .idle | .opening => false
  | _ => true

/-- What may be in the buffer: in front of a read there is room for the longest one. -/
def Room (c : LogConf) (pc : RecPc) (buf : List (BitVec 8)) : Prop :=
  match pc with
  | .test | .reading | .closing => buf.length + c.maxBufferSize ≤ SKW_LOG_READ_BUFFER_SIZE
  | .check | .writing => buf.length ≤ SKW_LOG_READ_BUFFER_SIZE
  | _ => buf = []

/-- A chunk fits the buffer, and no more of it was written than it has. -/
def Chunk (x : List (BitVec 8) × ℕ) : Prop :=
  x.1.length ≤ SKW_LOG_READ_BUFFER_SIZE ∧ x.2 ≤ x.1.length

structure Kept (c : LogConf) (s : Recorder) : Prop where
  got : s.got = s.left ++ s.buf
  chunk : ∀ x ∈ s.out, Chunk x
  room : Room c s.pc s.buf
  overrun : s.overrun = false
  opened : s.opened = s.users + s.stuck + (isActive s.pc).toNat

theorem Flagged.kept (h : Flagged s t) (hk : Kept c s) : Kept c t := by
  rw [h]
  exact ⟨hk.got, hk.chunk, hk.room, hk.overrun, hk.opened⟩

theorem Kept.goto (hk : Kept c s) {pc : RecPc} (hact : isActive pc = isActive s.pc)
    (hroom : Room c pc s.buf) : Kept c { s with pc } :=
  ⟨hk.got, hk.chunk, hroom, hk.overrun, hact ▸ hk.opened⟩

theorem room_nil (hmax : c.maxBufferSize ≤ SKW_LOG_READ_BUFFER_SIZE) : Room c .test [] := by
  change 0 + c.maxBufferSize ≤ _
  rw [Nat.zero_add]
  exact hmax

theorem left_concat (s : Recorder) (k : ℕ) :
    (s.out ++ [(s.buf, k)]).flatMap (·.1) = s.left ++ s.buf := by
  rw [List.flatMap_append, List.flatMap_singleton]
  rfl

theorem Kept.readData (hk : Kept c s) (hpc : s.pc = .reading) {ret : ℤ} {data : List (BitVec 8)}
    (hlen : data.length = ret.toNat) (hret : ret ≤ c.maxBufferSize) :
    Kept c (s.readData ret data) := by
  have hroom := hk.room
  have hopened := hk.opened
  rw [hpc] at hroom hopened
  have hfit : s.buf.length + data.length ≤ SKW_LOG_READ_BUFFER_SIZE := by
    change s.buf.length + c.maxBufferSize ≤ _ at hroom
    omega
  unfold Recorder.readData
  split_ifs with hpos
  · exact
      { got := by
          change s.got ++ data = s.left ++ (s.buf ++ data)
          rw [hk.got, List.append_assoc]
        chunk := hk.chunk
        room := by
          change (s.buf ++ data).length ≤ _
          rw [List.length_append]
          exact hfit
        overrun := by
          change (s.overrun || decide _) = false
          rw [hk.overrun, Bool.false_or, decide_eq_false (Nat.not_lt.mpr hfit)]
        opened := hopened }
  · exact ⟨hk.got, hk.chunk, (Nat.le_add_right ..).trans hroom, hk.overrun, hopened⟩

theorem Kept.chunk_concat (hk : Kept c s) {k : ℕ} (hbuf : s.buf.length ≤ SKW_LOG_READ_BUFFER_SIZE)
    (hle : k ≤ s.buf.length) : ∀ x ∈ s.out ++ [(s.buf, k)], Chunk x := by
  intro x hx
  rcases List.mem_append.mp hx with hx | hx
  · exact hk.chunk x hx
  · rw [List.mem_singleton.mp hx]
    exact ⟨hbuf, hle⟩

/-- What is in the buffer leaves it, and `k` octets of it are written. -/
theorem Kept.got_concat (hk : Kept c s) (k : ℕ) :
    s.got = (s.out ++ [(s.buf, k)]).flatMap Prod.fst ++ [] := by
  rw [left_concat, List.append_nil]
  exact hk.got

theorem Kept.writeData (hk : Kept c s) (hpc : s.pc = .writing) {k : ℕ} (hle : k ≤ s.buf.length) :
    Kept c (s.writeData k) := by
  have hroom := hk.room
  have hopened := hk.opened
  rw [hpc] at hroom hopened
  exact ⟨hk.got_concat k, hk.chunk_concat hroom hle, rfl, hk.overrun, hopened⟩

theorem Kept.close (hk : Kept c s) (hpc : s.pc = .closing) : Kept c s.close := by
  have hroom := hk.room
  have hopened := hk.opened
  rw [hpc] at hroom hopened
  have hbuf : s.buf.length ≤ SKW_LOG_READ_BUFFER_SIZE := (Nat.le_add_right ..).trans hroom
  refine ⟨hk.got_concat 0, hk.chunk_concat hbuf (Nat.zero_le _), rfl, hk.overrun, ?_⟩
  change s.opened - 1 = s.users + s.stuck + 0
  rw [hopened]
  rfl

theorem Kept.switch (hk : Kept c s) (hmax : c.maxBufferSize ≤ SKW_LOG_READ_BUFFER_SIZE)
    (hpc : s.pc = .switching) (storeWrite fileOpens : Bool) :
    Kept c (s.switch c storeWrite fileOpens) := by
  have hroom := hk.room
  have hopened := hk.opened
  rw [hpc] at hroom hopened
  have hbuf : s.buf = [] := hroom
  unfold Recorder.switch
  dsimp only
  generalize (if storeWrite = true then _ else _ : Option (BitVec 8)) = store
  split_ifs
  · exact ⟨hk.got, hk.chunk, hbuf ▸ room_nil hmax, hk.overrun, hopened⟩
  · exact ⟨hk.got, hk.chunk, hbuf, hk.overrun, hopened⟩

theorem Kept.openFiles (hk : Kept c s) (hmax : c.maxBufferSize ≤ SKW_LOG_READ_BUFFER_SIZE)
    (hpc : s.pc = .opening) {r : RecOpen} (h : Opens c s r t) : Kept c t := by
  have hroom := hk.room
  have hopened := hk.opened
  have hgot := hk.got
  rw [hpc] at hroom hopened
  have hbuf : s.buf = [] := hroom
  rw [hbuf] at hgot
  cases h with
  | early => exact ⟨hk.got, hk.chunk, hbuf, hk.overrun, hopened⟩
  | noFile => exact ⟨hk.got, hk.chunk, hbuf, hk.overrun, hopened⟩
  | noBuf => exact ⟨hk.got, hk.chunk, hbuf, hk.overrun, congrArg (· + 1) hopened⟩
  | runs => exact ⟨hgot, hk.chunk, room_nil hmax, hk.overrun, congrArg (· + 1) hopened⟩

theorem Kept.step (hk : Kept c s) (hmax : c.maxBufferSize ≤ SKW_LOG_READ_BUFFER_SIZE)
    (h : s.step c e = some t) : Kept c t := by
  have hroom := hk.room
  have hopened := hk.opened
  cases move_of_step h with
  | flags hf => exact hf.kept hk
  | userOpen txBusy =>
    refine ⟨hk.got, hk.chunk, hroom, hk.overrun, ?_⟩
    change s.opened + 1 = s.users + 1 + s.stuck + (isActive s.pc).toNat
    omega
  | userRelease hpos =>
    refine ⟨hk.got, hk.chunk, hroom, hk.overrun, ?_⟩
    change s.opened - 1 = s.users - 1 + s.stuck + (isActive s.pc).toNat
    omega
  | enter hpc =>
    rw [hpc] at hroom
    exact ⟨hk.got, hk.chunk, hroom, hk.overrun, by rw [hopened, hpc]; rfl⟩
  | openFiles hpc ho => exact hk.openFiles hmax hpc ho
  | reading hpc =>
    rw [hpc] at hroom
    exact hk.goto (by rw [hpc]; rfl) hroom
  | closing hpc =>
    rw [hpc] at hroom
    exact hk.goto (by rw [hpc]; rfl) hroom
  | read hpc hlen hret hf => exact hf.kept (hk.readData hpc hlen hret)
  | due hpc =>
    rw [hpc] at hroom
    exact hk.goto (by rw [hpc]; rfl) hroom
  | room hpc hfew => exact hk.goto (by rw [hpc]; rfl) hfew
  | write hpc hret hf => exact hf.kept (hk.writeData hpc (by omega))
  | full hpc =>
    rw [hpc] at hroom
    exact hk.goto (by rw [hpc]; rfl) hroom
  | under hpc =>
    rw [hpc] at hroom
    have hbuf : s.buf = [] := hroom
    exact hk.goto (by rw [hpc]; rfl) (hbuf ▸ room_nil hmax)
  | switch storeWrite fileOpens hpc => exact hk.switch hmax hpc storeWrite fileOpens
  | close hpc => exact hk.close hpc

theorem Fresh.kept (h : s.Fresh) (c : LogConf) : Kept c s where
  got := by
    rw [left, h.got, h.out, h.buf]
    rfl
  chunk := by
    rw [h.out]
    exact fun x hx => absurd hx List.not_mem_nil
  room := by
    rw [h.pc]
    exact h.buf
  overrun := h.overrun
  opened := by
    rw [h.opened, h.stuck, h.pc]
    rfl

/-- No file fails to open, and the number of the newest one is never lost. -/
def Smooth (_ : Recorder) : RecStep → Prop
  | .openFiles r => r.ReachesStore → r.KeepsStore ∧ r.fileOpens = true
  | .switch storeWrite fileOpens => storeWrite = true ∧ fileOpens = true
  | _ => True

/-- The files hold the last part of what was written, the one that `log_store` names being the
newest. -/
structure Ordered (c : LogConf) (log : List (BitVec 8)) (s : Recorder) : Prop where
  store : ∃ b, s.store = some b ∧ b.toNat < c.files ∧ (isActive s.pc = true → s.index = b)
  content : s.ring.content c.files <:+ log ++ s.recorded

theorem Ordered.flagged (ho : Ordered c log s) (h : Flagged s t) : Ordered c log t := by
  rw [h]
  exact ⟨ho.store, ho.content⟩

/-- A step of the work that leaves the files alone. -/
theorem Ordered.goto (ho : Ordered c log s) (hstore : t.store = s.store) (hfiles : t.files = s.files)
    (hout : t.out = s.out) (hindex : isActive t.pc = true → isActive s.pc = true ∧ t.index = s.index) :
    Ordered c log t := by
  obtain ⟨b, hb, hlt, hidx⟩ := ho.store
  refine ⟨⟨b, hstore.trans hb, hlt, fun hact => ?_⟩, ?_⟩
  · obtain ⟨hact, heq⟩ := hindex hact
    exact heq.trans (hidx hact)
  · rw [ring, recorded, hstore, hfiles, hout]
    exact ho.content

theorem recorded_concat (s : Recorder) (k : ℕ) :
    ((s.out ++ [(s.buf, k)]).flatMap fun x => x.1.take x.2) = s.recorded ++ s.buf.take k := by
  rw [List.flatMap_append, List.flatMap_singleton]
  rfl

theorem Ordered.writeData (ho : Ordered c log s) (h : c.num ≤ 99) (hpc : s.pc = .writing) (k : ℕ) :
    Ordered c log (s.writeData k) := by
  obtain ⟨b, hb, hlt, hidx⟩ := ho.store
  have hindex : s.index = b := hidx (by rw [hpc]; rfl)
  have hname : logName s.index = s.ring.newest := by
    have hsmall : b.toNat < 100 := by
      unfold LogConf.files at hlt
      omega
    rw [hindex, logName_eq hsmall, ring, hb]
    rfl
  refine ⟨⟨b, hb, hlt, fun _ => hindex⟩, ?_⟩
  have hring : (s.ring.append (s.buf.take k)).content c.files <:+
      log ++ s.recorded ++ s.buf.take k := by
    refine Lib.Rotation.content_append_suffix ?_ ho.content _
    rw [ring, hb]
    exact hlt
  unfold recorded Recorder.writeData
  rw [recorded_concat, ← List.append_assoc, hname]
  exact hring

theorem Ordered.close (ho : Ordered c log s) : Ordered c log s.close := by
  obtain ⟨b, hb, hlt, -⟩ := ho.store
  refine ⟨⟨b, hb, hlt, fun hact => absurd hact Bool.false_ne_true⟩, ?_⟩
  change s.ring.content c.files <:+
    log ++ (s.out ++ [(s.buf, 0)]).flatMap fun x : List (BitVec 8) × ℕ => x.1.take x.2
  rw [recorded_concat, List.take_zero, List.append_nil]
  exact ho.content

/-- The next file is emptied, and named in `log_store`. -/
theorem Ordered.turn (ho : Ordered c log s) (h₀ : 0 ≤ c.num) (h : c.num ≤ 99) {b b' : BitVec 8}
    (hb : s.store = some b) (hb' : b' = nextLog c.num b) (hstore : t.store = some b')
    (hfiles : t.files = Function.update s.files (logName b') []) (hout : t.out = s.out)
    (hindex : isActive t.pc = true → t.index = b') : Ordered c log t := by
  obtain ⟨b₁, hb₁, hlt, -⟩ := ho.store
  cases hb.symm.trans hb₁
  have hnext := toNat_nextLog h₀ h hlt
  have hlt' : b'.toNat < c.files := by
    rw [hb', hnext]
    exact Nat.mod_lt _ (Nat.succ_pos _)
  have hname : logName b' = (b.toNat + 1) % c.files := by
    have hsmall : b'.toNat < 100 := by
      unfold LogConf.files at hlt'
      omega
    rw [logName_eq hsmall, hb', hnext]
  have hring : t.ring = s.ring.turn c.files := by
    rw [ring, ring, hstore, hfiles, hb, hname]
    change (⟨_, b'.toNat⟩ : Lib.Rotation (BitVec 8)) = ⟨_, _⟩
    rw [hb', hnext]
    rfl
  refine ⟨⟨b', hstore, hlt', hindex⟩, ?_⟩
  rw [hring, recorded, hout]
  refine Lib.Rotation.content_turn_suffix ?_ ho.content
  rw [ring, hb]
  exact hlt

theorem Ordered.openFiles (ho : Ordered c log s) (h₀ : 0 ≤ c.num) (h : c.num ≤ 99) {r : RecOpen}
    (hr : Smooth s (.openFiles r)) (hopens : Opens c s r t) : Ordered c log t := by
  obtain ⟨b, hb, -, -⟩ := ho.store
  cases hopens with
  | early => exact ho.goto rfl rfl rfl fun hact => absurd hact Bool.false_ne_true
  | noFile store hreach hno =>
    have hyes := (hr hreach).2
    rw [hno] at hyes
    cases hyes
  | noBuf store b' hreach hnext =>
    obtain ⟨hb', hstore⟩ := hnext (hr hreach).1 b hb
    exact ho.turn h₀ h hb hb' hstore rfl rfl fun hact => absurd hact Bool.false_ne_true
  | runs store b' hreach hnext =>
    obtain ⟨hb', hstore⟩ := hnext (hr hreach).1 b hb
    exact ho.turn h₀ h hb hb' hstore rfl rfl fun _ => rfl

theorem Ordered.switch (ho : Ordered c log s) (h₀ : 0 ≤ c.num) (h : c.num ≤ 99)
    (hpc : s.pc = .switching) : Ordered c log (s.switch c true true) := by
  obtain ⟨b, hb, -, hidx⟩ := ho.store
  have hindex : s.index = b := hidx (by rw [hpc]; rfl)
  exact ho.turn h₀ h hb (congrArg (nextLog c.num) hindex) rfl rfl rfl fun _ => rfl

theorem Ordered.step (ho : Ordered c log s) (h₀ : 0 ≤ c.num) (h₉₉ : c.num ≤ 99) (hg : Smooth s e)
    (h : s.step c e = some t) : Ordered c log t := by
  have hin {pc pc' : RecPc} (hpc : s.pc = pc) (hact : isActive pc = true) :
      Ordered c log { s with pc := pc' } := by
    refine ho.goto rfl rfl rfl fun _ => ⟨?_, rfl⟩
    rw [hpc]
    exact hact
  cases move_of_step h with
  | flags hf => exact ho.flagged hf
  | userOpen => exact ho.goto rfl rfl rfl fun hact => ⟨hact, rfl⟩
  | userRelease => exact ho.goto rfl rfl rfl fun hact => ⟨hact, rfl⟩
  | enter => exact ho.goto rfl rfl rfl fun hact => absurd hact Bool.false_ne_true
  | openFiles _ hopens => exact ho.openFiles h₀ h₉₉ hg hopens
  | reading hpc => exact hin hpc rfl
  | closing hpc => exact hin hpc rfl
  | @read ret data _ hpc _ _ hf =>
    refine Ordered.flagged ?_ hf
    unfold readData
    split_ifs
    · exact ho.goto rfl rfl rfl fun _ => ⟨by rw [hpc]; rfl, rfl⟩
    · exact hin hpc rfl
  | due hpc => exact hin hpc rfl
  | room hpc => exact hin hpc rfl
  | write hpc _ hf => exact (ho.writeData h₉₉ hpc _).flagged hf
  | full hpc => exact hin hpc rfl
  | under hpc => exact hin hpc rfl
  | switch storeWrite fileOpens hpc =>
    rw [hg.1, hg.2]
    exact ho.switch h₀ h₉₉ hpc
  | close => exact ho.close

end Recorder
end Skw
