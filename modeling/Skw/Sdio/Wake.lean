import Skw.Kernel.Types
import Mathlib.Data.List.Basic

/-! Waking the modem over its two GPIO lines. While a port has something to send, its bit of
`tx_req_map` makes `host_gpio_in_routine` wake a modem that falls asleep. -/
namespace Skw

/-- `tx_req_map`, a `char`, with the values it took since a call began. -/
structure ReqMap where
  bits : BitVec 8
  past : List (BitVec 8)
deriving DecidableEq

namespace ReqMap

def put (m : ReqMap) (bits : BitVec 8) : ReqMap := ⟨bits, m.past ++ [bits]⟩

/-- `tx_req_map |= 1<<portno`. -/
def request (m : ReqMap) (portno : ℕ) : ReqMap := m.put (m.bits ||| BitVec.twoPow 8 portno)

/-- `tx_req_map &= ~(1<<portno)`. -/
def release (m : ReqMap) (portno : ℕ) : ReqMap := m.put (m.bits &&& ~~~BitVec.twoPow 8 portno)

/-- The bit of a port is set. Ports from eight on have none. -/
def Pending (m : ReqMap) (portno : ℕ) : Prop := m.bits.getLsbD portno = true

instance (m : ReqMap) (portno : ℕ) : Decidable (m.Pending portno) :=
  inferInstanceAs (Decidable (_ = _))

/-- No other bit than that of the port is set, now and since the call began. -/
def Only (portno : ℕ) (m : ReqMap) : Prop :=
  (∀ v ∈ m.past, ∀ q, v.getLsbD q = true → q = portno) ∧ ∀ q, m.Pending q → q = portno

variable {m : ReqMap} {portno q : ℕ}

@[simp] theorem pending_request_self : (m.request portno).Pending portno ↔ portno < 8 := by
  simp only [Pending, request, put, BitVec.getLsbD_or, BitVec.getLsbD_twoPow, Bool.or_eq_true,
    Bool.and_eq_true, decide_eq_true_eq, and_true]
  constructor
  · rintro (h | h)
    · exact BitVec.lt_of_getLsbD h
    · exact h
  · exact .inr

@[simp] theorem not_pending_release_self : ¬(m.release portno).Pending portno := by
  simp only [Pending, release, put, BitVec.getLsbD_and, BitVec.getLsbD_not, BitVec.getLsbD_twoPow,
    Bool.and_eq_true]
  simp

theorem Only.put {bits : BitVec 8} (h : m.Only portno)
    (hb : ∀ q, bits.getLsbD q = true → m.Pending q ∨ q = portno) : (m.put bits).Only portno := by
  have hput : ∀ q, bits.getLsbD q = true → q = portno := fun q hq =>
    (hb q hq).elim (h.2 q) id
  constructor
  · intro v hv
    rcases List.mem_append.mp hv with hv | hv
    · exact h.1 v hv
    · rw [List.mem_singleton.mp hv]
      exact hput
  · exact hput

theorem Only.request (h : m.Only portno) : (m.request portno).Only portno := by
  apply h.put
  intro q hq
  simp only [BitVec.getLsbD_or, BitVec.getLsbD_twoPow, Bool.or_eq_true, Bool.and_eq_true,
    decide_eq_true_eq] at hq
  exact hq.imp id fun hq => hq.2.symm

theorem Only.release (h : m.Only portno) : (m.release portno).Only portno := by
  apply h.put
  intro q hq
  rw [BitVec.getLsbD_and, Bool.and_eq_true] at hq
  exact .inl hq.1

/-- With no other bit set the map is empty once the port has no request. -/
theorem Only.bits_eq_zero_iff (h : m.Only portno) : m.bits = 0 ↔ ¬m.Pending portno := by
  constructor
  · intro hz
    simp [Pending, hz]
  · intro hp
    apply BitVec.eq_of_getLsbD_eq
    intro q hq
    have hfalse : ¬m.Pending q := fun hs => hp (h.2 q hs ▸ hs)
    rw [Bool.eq_false_iff.mpr hfalse]
    exact BitVec.getLsbD_zero.symm

/-- A call begins with an empty map. -/
theorem Only.empty (portno : ℕ) : Only portno ⟨0, []⟩ := by
  constructor
  · exact fun v hv => nomatch hv
  · intro q hq
    simp [Pending] at hq

end ReqMap

/-- The lines `gpio_out` and `gpio_in`, negative where there is none. -/
structure GpioPins where
  gpioOut : ℤ
  gpioIn : ℤ
deriving DecidableEq

/-- Without two different lines the modem never sleeps. -/
def GpioPins.Unused (g : GpioPins) : Prop := g.gpioOut < 0 ∨ g.gpioIn < 0 ∨ g.gpioOut = g.gpioIn

instance (g : GpioPins) : Decidable g.Unused := inferInstanceAs (Decidable (_ ∨ _))

/-- What a wakeup meets: the line at the start, `device_active` when it is tested, the first wait
and the line after it, the second wait and the line after it, and what
`skw_sdio_enable_async_irq` returns where the interrupt is still to be enabled. -/
structure Wakeup where
  gpioVal : Bool
  deviceActive : Bool
  wait : ℤ
  val : Bool
  waitAgain : ℤ
  valAgain : Bool
  enableAsyncIrq : Option ℤ
deriving DecidableEq

/-- `try_to_wakeup_modem`. -/
def tryToWakeupModem (g : GpioPins) (w : Wakeup) (portno : ℕ) (m : ReqMap) : ℤ × ReqMap :=
  if g.Unused then (0, m)
  else if w.gpioVal then (0, m)
  else
    let m := m.request portno
    if ¬w.deviceActive ∧ w.wait < 0 then (-ETIMEDOUT, m.release portno)
    else if ¬w.val ∧ w.waitAgain < 0 then (-ETIMEDOUT, m.release portno)
    else
      let ret := if ¬w.val then w.waitAgain else if w.deviceActive then 0 else w.wait
      match w.enableAsyncIrq with
      | some err => (if w.val ∨ w.valAgain then err else ret, m)
      | none => (ret, m)

/-- The bit that a wakeup leaves, `none` where it does not touch it. -/
def Wakeup.effect (g : GpioPins) (w : Wakeup) : Option Bool :=
  if g.Unused ∨ w.gpioVal then none
  else if (¬w.deviceActive ∧ w.wait < 0) ∨ (¬w.val ∧ w.waitAgain < 0) then some false
  else some true

section
variable {g : GpioPins} {w : Wakeup} {portno : ℕ} {m : ReqMap}

theorem tryToWakeupModem_snd (g : GpioPins) (w : Wakeup) (portno : ℕ) (m : ReqMap) :
    (tryToWakeupModem g w portno m).2 =
      match w.effect g with
      | none => m
      | some false => (m.request portno).release portno
      | some true => m.request portno := by
  unfold tryToWakeupModem Wakeup.effect
  by_cases hidle : g.Unused ∨ w.gpioVal = true
  · rw [if_pos hidle]
    rcases hidle with hu | hv
    · rw [if_pos hu]
    · rw [if_pos hv, ite_self]
  have hbusy := not_or.mp hidle
  rw [if_neg hidle, if_neg hbusy.1, if_neg hbusy.2]
  by_cases hwait : ¬w.deviceActive ∧ w.wait < 0
  · rw [if_pos hwait, if_pos (.inl hwait)]
  by_cases hagain : ¬w.val ∧ w.waitAgain < 0
  · rw [if_neg hwait, if_pos hagain, if_pos (.inr hagain)]
  rw [if_neg hwait, if_neg hagain, if_neg (not_or.mpr ⟨hwait, hagain⟩)]
  cases w.enableAsyncIrq with
  | none => rfl
  | some err => rfl

theorem only_tryToWakeupModem (h : m.Only portno) :
    (tryToWakeupModem g w portno m).2.Only portno := by
  rw [tryToWakeupModem_snd]
  split
  · exact h
  · exact h.request.release
  · exact h.request

/-- A wakeup requests for a port, gives the request up, or leaves it to the one before. -/
theorem pending_tryToWakeupModem_iff :
    (tryToWakeupModem g w portno m).2.Pending portno ↔
      w.effect g = some true ∧ portno < 8 ∨ w.effect g = none ∧ m.Pending portno := by
  rw [tryToWakeupModem_snd]
  split
  · next he => simp [he]
  · next he => simp [he]
  · next he => simp [he]

end

/-- `host_gpio_in_routine` up to its answer to the line: whether it sends a wakeup signal. -/
def hostGpioInRoutine (g : GpioPins) (deviceActive value hostActive : Bool) (m : ReqMap) : Bool :=
  ¬g.gpioOut < 0 ∧ deviceActive ∧ ¬value ∧ m.bits ≠ 0 ∧ hostActive

/-- Without requests the modem is let sleep. -/
theorem hostGpioInRoutine_of_empty {g : GpioPins} {deviceActive value hostActive : Bool}
    {m : ReqMap} (h : m.bits = 0) :
    hostGpioInRoutine g deviceActive value hostActive m = false := by
  simp [hostGpioInRoutine, h]

end Skw
