import Skw.Lib.Machine
import Skw.Tx.Vring

/-! The transmit ring as a queue of frames: `skw_vring_set` by the tx worker in any order with
the sections of `skw_sdio_write`, which holds no lock while the hardware reads the frames. -/
namespace Skw
open TxVring

/-- Where a call of `skw_sdio_write` stands: past the check for pending descriptors, with its
scatter list before the transfer, and after it. -/
inductive SdioWrite
  | idle
  | pending (limit : ℕ)
  | collected (sgl : List Sg) (usedIdx : U16)
  | submitted (sgl : List Sg) (usedIdx : U16) (ret : ℤ)

/-- The scatter entries of a transfer that is not finished. -/
def SdioWrite.sgl : SdioWrite → List Sg
  | collected sgl _ | submitted sgl _ _ => sgl
  | _ => []

/-- `accepted` are the frames that `skw_vring_set` took, `handed` those that the hardware was
given, as it found them in memory. -/
structure FifoSys where
  vr : TxVring
  writer : SdioWrite
  accepted : List (List Byte)
  handed : List (List Byte)

inductive FifoStep
  | vringSet (len : ℕ) (data : List Byte)
  | sdioWrite (limit : ℕ)
  | collect
  | hwAdmaTx (ret : ℤ)
  | publish

namespace FifoSys

def init (page : ℕ → Byte) : FifoSys := ⟨txVringInit page, .idle, [], []⟩

section
variable (align : ℕ)

/-- The sections of the ring, without a bound on the limit of `skw_sdio_write`. -/
def ringStep (s : FifoSys) : FifoStep → Option FifoSys
  | .vringSet len data =>
    if Readable align len data then
      let r := s.vr.vringSet align len data
      some { s with
        vr := r.2
        accepted := if r.1 = 0 then s.accepted ++ [data.take (roundUp len align)] else s.accepted }
    else none
  | .sdioWrite limit =>
    match s.writer with
    | .idle => some { s with writer := if s.vr.vringHasPending then .pending limit else .idle }
    | _ => none
  | .collect =>
    match s.writer with
    | .pending limit =>
      let g := s.vr.sdioCollect limit
      some { s with vr := g.vr, writer := .collected g.sgl g.usedIdx }
    | _ => none
  | .hwAdmaTx ret =>
    match s.writer with
    | .collected sgl usedIdx =>
      some { s with
        writer := .submitted sgl usedIdx ret
        handed := s.handed ++ sgl.map s.vr.frameAt }
    | _ => none
  | .publish =>
    match s.writer with
    | .submitted _ usedIdx _ =>
      some { s with vr := { s.vr with usedIdx := usedIdx }, writer := .idle }
    | _ => none

/-- The ring under the limits its caller passes. -/
def step (s : FifoSys) : FifoStep → Option FifoSys
  | .sdioWrite limit =>
    if 1 ≤ limit ∧ limit ≤ SKW_TX_VRING_SIZE - 1 then s.ringStep align (.sdioWrite limit) else none
  | e => s.ringStep align e

end

/-- The descriptors in use leave one free. -/
def Bounded (s : FifoSys) : Prop := (s.vr.availIdx - s.vr.usedIdx).toNat ≤ SKW_TX_VRING_SIZE - 1

/-- What the hardware was given is what was accepted first, and between transfers the rest is
in the ring. -/
def Fifo (s : FifoSys) : Prop :=
  s.handed <+: s.accepted ∧
    (s.writer = .idle → s.accepted.length = s.handed.length + s.vr.vringPendingCount)

/-- The frames given to `skw_vring_set` fit their slots. -/
def FrameFits (align : ℕ) (_ : FifoSys) : FifoStep → Prop
  | .vringSet len _ => Fits align len
  | _ => True

instance (align : ℕ) (s : FifoSys) (e : FifoStep) : Decidable (s.FrameFits align e) := by
  cases e <;> unfold FrameFits <;> infer_instance

/-- A frame that fits is not written over one of the transfer under way. -/
def Apart (align : ℕ) (s : FifoSys) : Prop :=
  ∀ len, Fits align len → s.vr.txVringIsFull = false → ∀ e ∈ s.writer.sgl,
    let dest := (s.vr.desc (masked s.vr.availIdx)).addr
    e.addr + e.len ≤ dest ∨ dest + roundUp len align ≤ e.addr


/-- `used` frames are done with and the transfer under way has the `taken` after them. -/
structure Inv (s : FifoSys) (used taken : ℕ) : Prop where
  holds : s.vr.Holds s.accepted used taken
  writer : match s.writer with
    | .idle | .pending _ => taken = 0 ∧ s.handed = s.accepted.take used
    | .collected sgl usedIdx => sgl = entries s.accepted used taken ∧
      usedIdx = BitVec.ofNat 16 (used + taken) ∧ s.handed = s.accepted.take used
    | .submitted sgl usedIdx _ => sgl = entries s.accepted used taken ∧
      usedIdx = BitVec.ofNat 16 (used + taken) ∧ s.handed = s.accepted.take (used + taken)

theorem init_inv (page : ℕ → Byte) : (init page).Inv 0 0 where
  holds := by constructor <;> simp [init, txVringInit]
  writer := ⟨rfl, rfl⟩

variable {align : ℕ} {s t : FifoSys} {used taken : ℕ}

private theorem Inv.vringSet (h : s.Inv used taken) {len : ℕ} {data : List Byte}
    (hfit : Fits align len) (hr : Readable align len data) (hf : s.vr.txVringIsFull = false) :
    Inv { s with
      vr := (s.vr.vringSet align len data).2
      accepted := s.accepted ++ [data.take (roundUp len align)] } used taken where
  holds := h.holds.vringSet hfit hr.2 hf
  writer := by
    have hw := h.writer
    have hle := h.holds.le
    have ht : ∀ n, n ≤ s.accepted.length →
        (s.accepted ++ [data.take (roundUp len align)]).take n = s.accepted.take n :=
      fun n hn => List.take_append_of_le_length hn
    cases hpc : s.writer <;> simp only [hpc] at hw ⊢
    case idle | pending => rwa [ht _ (by omega)]
    case collected => rwa [entries_concat hle, ht _ (by omega)]
    case submitted => rwa [entries_concat hle, ht _ hle]

/-- Every section keeps the invariant, whatever limit the transfer was called with. -/
theorem Inv.step (h : s.Inv used taken) {e : FifoStep} (hg : s.FrameFits align e)
    (hs : s.ringStep align e = some t) :
    ∃ used' taken', t.Inv used' taken' := by
  have hw := h.writer
  cases e with
  | vringSet len data =>
    simp only [ringStep] at hs
    split_ifs at hs with hr hret
    · cases hs
      exact ⟨used, taken, h.vringSet hg hr (vringSet_eq_zero.mp hret)⟩
    · cases hs
      have hf := mt vringSet_eq_zero.mpr hret
      rw [vringSet_of_full (by simpa using hf)]
      exact ⟨used, taken, h⟩
  | sdioWrite limit =>
    simp only [ringStep] at hs
    split at hs
    · next hpc =>
      cases hs
      rw [hpc] at hw
      refine ⟨used, taken, h.holds, ?_⟩
      show match (if s.vr.vringHasPending = true then SdioWrite.pending limit else .idle) with
        | .idle | .pending _ => _ | .collected _ _ => _ | .submitted _ _ _ => _
      split_ifs <;> exact hw
    · cases hs
  | collect =>
    simp only [ringStep] at hs
    split at hs
    · next limit hpc =>
      cases hs
      rw [hpc] at hw
      obtain ⟨rfl, hh⟩ := hw
      obtain ⟨hv, hu, hsgl⟩ := h.holds.sdioCollect limit
      exact ⟨used, _, hv, hsgl, hu, hh⟩
    · cases hs
  | hwAdmaTx ret =>
    simp only [ringStep] at hs
    split at hs
    · next sgl usedIdx hpc =>
      cases hs
      rw [hpc] at hw
      obtain ⟨hsgl, hu, hh⟩ := hw
      refine ⟨used, taken, h.holds, hsgl, hu, ?_⟩
      show s.handed ++ sgl.map s.vr.frameAt = s.accepted.take (used + taken)
      rw [hh, hsgl, h.holds.frameAt_entries, List.take_add]
    · cases hs
  | publish =>
    simp only [ringStep] at hs
    split at hs
    · next sgl usedIdx ret hpc =>
      cases hs
      rw [hpc] at hw
      obtain ⟨-, rfl, hh⟩ := hw
      exact ⟨used + taken, 0, h.holds.publish, rfl, hh⟩
    · cases hs

theorem Inv.fifo (h : s.Inv used taken) : s.Fifo := by
  have hw := h.writer
  refine ⟨?_, fun hidle => ?_⟩
  · cases hpc : s.writer <;> simp only [hpc] at hw
    case idle | pending => exact hw.2 ▸ List.take_prefix _ _
    case collected | submitted => exact hw.2.2 ▸ List.take_prefix _ _
  · rw [hidle] at hw
    have := h.holds.le
    rw [vringPendingCount, h.holds.pending_eq, hw.2, List.length_take]
    omega

theorem Inv.apart (h : s.Inv used taken) (align : ℕ) : s.Apart align := by
  intro len hfit hf e he
  have hw := h.writer
  have hsgl : s.writer.sgl = [] ∨ s.writer.sgl = entries s.accepted used taken := by
    cases hpc : s.writer <;> simp only [hpc] at hw
    case idle | pending => exact .inl rfl
    case collected | submitted => exact .inr hw.1
  rcases hsgl with hsgl | hsgl
  · simp [hsgl] at he
  · rw [hsgl] at he
    obtain ⟨i, hi, rfl⟩ := List.mem_map.mp he
    have hi := List.mem_range.mp hi
    have hle := h.holds.le
    exact h.holds.apart hf (by omega) (by omega) hfit

/-- With frames that fit, the ring is a lossless queue: it never has more than its bound in use,
hands out the frames in the order and with the content they were accepted, and writes over none
that is on its way. -/
theorem fifo_of_frameFits (align : ℕ) (page : ℕ → Byte) (s : FifoSys)
    (h : Lib.Reach (step align) (FrameFits align) (init page) s) :
    s.Bounded ∧ s.Fifo ∧ s.Apart align := by
  obtain ⟨used, taken, hi⟩ := h.invariant (I := fun s => ∃ u n, s.Inv u n)
    ⟨0, 0, init_inv page⟩ fun s e t ⟨u, n, hi⟩ hg hs => by
      unfold step at hs
      split at hs
      · split_ifs at hs
        exact hi.step hg hs
      · exact hi.step hg hs
  exact ⟨hi.holds.bounded, hi.fifo, hi.apart align⟩

/-- A frame is accepted while another is on its way to the hardware. -/
def sendTwo : List FifoStep :=
  [.vringSet 3 [1, 2, 3, 4], .sdioWrite 5, .collect, .vringSet 4 [5, 6, 7, 8], .hwAdmaTx 0, .publish,
    .sdioWrite 127, .collect, .hwAdmaTx 0, .publish]

theorem fifo_of_frameFits_sendTwo :
    ∃ s, Lib.Reach (step 4) (FrameFits 4) (init fun _ => 0) s ∧
      s.handed = [[1, 2, 3, 4], [5, 6, 7, 8]] ∧ s.Bounded ∧ s.Fifo ∧ s.Apart 4 := by
  obtain ⟨s, hs, hp⟩ := Lib.exists_reach_of_exec (step 4) (FrameFits 4) (init fun _ => 0) sendTwo
    (fun s => s.handed == [[1, 2, 3, 4], [5, 6, 7, 8]]) (by decide)
  exact ⟨s, hs, by simpa using hp, fifo_of_frameFits 4 _ s hs⟩

/-- A frame of 1600 bytes runs into the next slot, which the frame after it overwrites. -/
def sendOversize : List FifoStep :=
  [.vringSet 1600 (List.replicate 1792 1), .vringSet 100 (List.replicate 256 2), .sdioWrite 2,
    .collect, .hwAdmaTx 0]

theorem sendOversize_not_fifo :
    ¬ ∀ s, Lib.Reach (step 256) Lib.Free (init fun _ => 0) s → s.Fifo := by
  intro h
  obtain ⟨s, hs, hp⟩ := Lib.exists_reach_of_exec (step 256) Lib.Free (init fun _ => 0) sendOversize
    (fun s => (s.handed.head?.bind (·[1536]?)) == some 2 &&
      (s.accepted.head?.bind (·[1536]?)) == some 1) (by decide +kernel)
  simp only [Bool.and_eq_true, beq_iff_eq] at hp
  obtain ⟨⟨r, hr⟩, -⟩ := h s hs
  rw [← hr] at hp
  cases hh : s.handed with
  | nil => simp [hh] at hp
  | cons f l =>
    simp only [hh, List.cons_append, List.head?_cons] at hp
    rw [hp.1] at hp
    simp at hp

end FifoSys
end Skw
