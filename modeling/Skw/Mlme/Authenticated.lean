import Skw.Lib.Machine
import Skw.Mlme.Watch

/-! Whom the access point answers an association request with success. The run is watched from
outside: a station's authentication is finished by the last reply of its exchange, or by user
space for SAE, and undone when its client is removed, set back or leaves. -/
namespace Skw

/-- What an observer knows of each station. `done` says that an exchange ended with success
since the client was last removed, set back or left; `confirm` that user space has a confirm to
accept; `stale` that the client came out of `SKW_STATE_NONE` in another way, or stayed when its
station left, since when no exchange ended. -/
structure ApWatch (α : Type*) where
  done : α → Bool
  confirm : α → Bool
  stale : α → Bool

namespace ApWatch
variable {α : Type*} [DecidableEq α]

/-- The exchange of `a` ends with success in event `e`, which led to `t`. -/
def finishes (w : ApWatch α) (e : ApEvent α) (t : ApIface α) (a : α) : Bool :=
  (e.authFrom a && t.lastReply a) || (e.accepts a && w.confirm a)

/-- The client of `a` comes out of `SKW_STATE_NONE` in event `e`, whose exchange is open. -/
def slips (s : ApIface α) (e : ApEvent α) (a : α) : Bool :=
  !s.live a && (e.opens a || e.associates a)

def after (w : ApWatch α) (s : ApIface α) (e : ApEvent α) (t : ApIface α) : ApWatch α where
  done a := t.live a && !e.leaves a && (w.finishes e t a || w.done a)
  confirm a := t.live a && !e.leaves a && (t.confirmed a || (!e.accepts a && w.confirm a))
  stale a := t.live a && !w.finishes e t a && (e.leaves a || slips s e a || w.stale a)

end ApWatch

/-- `answered` lists the stations answered with success, and whether their authentication was
done. -/
structure ApSys (α : Type*) where
  iface : ApIface α
  watch : ApWatch α
  answered : List (α × Bool)

namespace ApSys
variable {α : Type*} [DecidableEq α]

def step (msecsToJiffies : ℕ → Jiffies) (v : ApSys α) (e : ApEvent α) : Option (ApSys α) :=
  (v.iface.step msecsToJiffies e).map fun t =>
    { iface := t
      watch := v.watch.after v.iface e t
      answered := v.answered ++ t.answered.map fun a => (a, v.watch.done a) }

/-- An access point without clients, with any configuration. -/
def init (bssid : α) (maxStaAllowed : ℕ) (acl : Option (AclData α)) (nAkmSuites : ℕ)
    (skwCookie : BitVec 64) (now : Jiffies) : ApSys α where
  iface :=
    { bssid, maxStaAllowed, acl, nAkmSuites, clients := fun _ => none, peerCtx := fun _ => none
      aidMap := 0, skwCookie, jiffies := now, authTimeout := fun _ => false, localEvents := []
      out := [] }
  watch := { done := fun _ => false, confirm := fun _ => false, stale := fun _ => false }
  answered := []

/-- Every station answered with success had its authentication done. -/
def Authenticated (v : ApSys α) : Prop := ∀ p ∈ v.answered, p.2 = true

/-- No association request is taken from a station while it is stale. -/
def Settled (v : ApSys α) : ApEvent α → Prop
  | .rxAssoc f _ => v.watch.stale f.sa = false
  | _ => True

instance (v : ApSys α) (e : ApEvent α) : Decidable (Settled v e) := by
  cases e <;> unfold Settled <;> infer_instance

/-- A client out of `SKW_STATE_NONE` is either done or stale, and no other station is done. -/
structure Inv (v : ApSys α) : Prop where
  live : ∀ a, v.watch.done a = true → v.iface.live a = true
  stale : ∀ a, v.iface.live a = true → v.watch.done a = !v.watch.stale a

variable {msecsToJiffies : ℕ → Jiffies} {v v' : ApSys α} {e : ApEvent α}

private theorem not_finishes_of_leaves {w : ApWatch α} {t : ApIface α} {a : α}
    (h : e.leaves a = true) : w.finishes e t a = false := by
  cases e with
  | rxLeave sa ret => simp [ApWatch.finishes, ApEvent.authFrom, ApEvent.accepts]
  | eventDelSta b => simp [ApWatch.finishes, ApEvent.authFrom, ApEvent.accepts]
  | _ => cases h

theorem Inv.step (h : v.Inv) (hs : step msecsToJiffies v e = some v') : v'.Inv := by
  obtain ⟨t, ht, rfl⟩ := Option.map_eq_some_iff.mp hs
  constructor
  · intro a ha
    simp only [ApWatch.after, Bool.and_eq_true] at ha
    exact ha.1.1
  · intro a ha
    have hlive : t.live a = true := ha
    simp only [ApWatch.after, hlive, Bool.true_and]
    by_cases hl : e.leaves a = true
    · simp [hl, not_finishes_of_leaves hl]
    by_cases hf : v.watch.finishes e t a = true
    · simp [hl, hf]
    by_cases hv : v.iface.live a = true
    · simp [hl, hf, ApWatch.slips, hv, h.stale a hv]
    · -- the client has come out of `SKW_STATE_NONE`
      have hd : v.watch.done a = false := by
        by_contra hd
        exact hv (h.live a (by simpa using hd))
      have hx : ApWatch.slips v.iface e a = true := by
        rcases ApIface.step_live ht hlive with h₁ | h₁ | h₁ | ⟨h₁, h₂⟩
        · exact absurd h₁ hv
        · simp [ApWatch.slips, hv, h₁]
        · simp [ApWatch.slips, hv, h₁]
        · exact absurd (by simp [ApWatch.finishes, h₁, h₂]) hf
      simp [hl, hf, hd, hx]

variable {bssid : α} {maxStaAllowed : ℕ} {acl : Option (AclData α)} {nAkmSuites : ℕ}
  {skwCookie : BitVec 64} {now : Jiffies}

omit [DecidableEq α] in
theorem init_inv : (init bssid maxStaAllowed acl nAkmSuites skwCookie now).Inv :=
  ⟨fun _ h => by simp [init] at h, fun _ h => by simp [init, ApIface.live] at h⟩

/-- In every run: an exchange of the station has ended with success since its client was last
removed, set back or left, exactly if it is not stale. -/
theorem done_iff_not_stale {a : α}
    (h : Lib.Reach (step msecsToJiffies) Lib.Free
      (init bssid maxStaAllowed acl nAkmSuites skwCookie now) v)
    (ha : v.iface.live a = true) : v.watch.done a = true ↔ v.watch.stale a = false := by
  have hi := h.invariant init_inv fun _ _ _ hi _ hs => Inv.step hi hs
  rw [hi.stale a ha, Bool.not_eq_true']

/-- A station that is answered while it is stale is not authenticated. -/
theorem not_authenticated_of_stale {a : α}
    (h : Lib.Reach (step msecsToJiffies) Lib.Free
      (init bssid maxStaAllowed acl nAkmSuites skwCookie now) v)
    (hs : step msecsToJiffies v e = some v') (ha : a ∈ v'.iface.answered)
    (hw : v.watch.stale a = true) : ¬ v'.Authenticated := by
  obtain ⟨t, ht, rfl⟩ := Option.map_eq_some_iff.mp hs
  obtain ⟨f, r, rfl, rfl, hl⟩ := ApIface.step_answered ht ha
  intro hv
  have hd := hv _ (List.mem_append_right _ (List.mem_map_of_mem ha))
  rw [(done_iff_not_stale h hl).mp hd] at hw
  cases hw

/-- Everything a frame needs is there; the challenge is 5. -/
def ready : AuthEnv := ⟨true, ⟨true, 0, 0⟩, some 5, .xmit 0, 0⟩

/-- An authentication frame of station 1 to the access point 100. -/
def authFrame (seq alg transaction : BitVec 16) (text : Challenge) : ApEvent ℕ :=
  .rxAuth ⟨1, 100, false, seq, alg, transaction, 0, text⟩ ready

/-- An association request of station 1. -/
def assocFrame (seq : BitVec 16) : ApEvent ℕ :=
  .rxAssoc ⟨1, false, false, seq, 0x11, []⟩ ⟨.xmit 0, true⟩

end ApSys

end Skw
