import Mathlib.Data.List.Induction
import Mathlib.Logic.Function.Basic

/-! A log of writes that is carried out on a table later. Of several writes to one place the last
counts. -/
namespace Lib
variable {ι α : Type*} [DecidableEq ι]

/-- The table after the writes of a log, the oldest first. -/
def replay (m : ι → Option α) (log : List (ι × α)) : ι → Option α :=
  log.foldl (fun m e => Function.update m e.1 (some e.2)) m

/-- What a log alone leaves at a place. -/
def lastWrite (log : List (ι × α)) : ι → Option α := replay (fun _ => none) log

variable {m h : ι → Option α} {log : List (ι × α)} {i : ι}

@[simp] theorem lastWrite_nil : lastWrite ([] : List (ι × α)) i = none := rfl

theorem replay_concat (m : ι → Option α) (log : List (ι × α)) (e : ι × α) :
    replay m (log ++ [e]) = Function.update (replay m log) e.1 (some e.2) := by
  simp [replay]

theorem lastWrite_concat (log : List (ι × α)) (e : ι × α) (i : ι) :
    lastWrite (log ++ [e]) i = if i = e.1 then some e.2 else lastWrite log i := by
  rw [lastWrite, replay_concat, Function.update_apply]
  rfl

theorem replay_apply (m : ι → Option α) (log : List (ι × α)) (i : ι) :
    replay m log i = (lastWrite log i).or (m i) := by
  induction log using List.reverseRecOn with
  | nil => rfl
  | append_singleton log e ih =>
    rw [replay_concat, lastWrite_concat, Function.update_apply]
    split
    · rfl
    · exact ih

/-- Where table and target agree outside the log, the log leads to the target exactly if it ends
with what the target holds. -/
theorem replay_eq_iff (hagree : ∀ i, lastWrite log i = none → m i = h i) :
    replay m log = h ↔ ∀ i a, lastWrite log i = some a → h i = some a := by
  constructor
  · intro heq i a hi
    rw [← heq, replay_apply, hi]
    rfl
  · intro hlast
    funext i
    rw [replay_apply]
    cases hi : lastWrite log i with
    | none => exact hagree i hi
    | some a => exact (hlast i a hi).symm

end Lib
