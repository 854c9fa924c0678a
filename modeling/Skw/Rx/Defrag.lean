import Skw.Lib.Machine
import Skw.Rx.Replay
import Mathlib.Data.List.Chain

/-! Defragmentation. The four entries of an interface are found by TID and sequence number;
whatever station a fragment came from is not compared. -/
namespace Skw

/-- A received fragment with the station it came from and the cipher that protected it. -/
structure Fragment (α : Type*) where
  skb : Mpdu
  peer : α
  cipher : CipherType
deriving DecidableEq

def CipherType.isAead : CipherType → Bool
  | .ccmp | .ccmp256 | .gcmp | .gcmp256 => true
  | _ => false

/-- `active` and `chkPn` are the bits of `status`; `frags` are the fragments whose buffers are
in `skbList`. -/
structure FragEntry (α : Type*) where
  active : Bool
  chkPn : Bool
  pendingLen : BitVec 16
  tid : ℕ
  fragNum : ℕ
  sn : ℕ
  start : Jiffies
  skbList : List Mpdu
  lastPn : BitVec 48
  frags : List (Fragment α)

/-- `skwCipher` is that of the `key_conf` of the interface. -/
structure Defrag (α : Type*) where
  pnMode : PnMode
  skwCipher : CipherType
  jiffies : Jiffies
  frag : Fin 4 → FragEntry α

/-- `skb_pull`, which leaves a buffer that is too short. -/
def Mpdu.pull (n : ℕ) (skb : Mpdu) : Mpdu :=
  if n ≤ skb.data.length then { skb with data := skb.data.drop n } else skb

/-- `pskb_expand_head` where the tail room is less than `n`. -/
def Mpdu.grow (n : ℕ) (skb : Mpdu) : Mpdu :=
  if skb.tailroom < n then { skb with tailroom := skb.tailroom + n } else skb

/-- `skb_put` of the data of other buffers. -/
def Mpdu.put (skb : Mpdu) (l : List Mpdu) : Mpdu :=
  { skb with
    data := skb.data ++ l.flatMap (·.data)
    tailroom := skb.tailroom - (l.flatMap (·.data)).length }

/-- `skb_trim` by the length of the MIC of TKIP. -/
def trimMic (data : List (BitVec 8)) : List (BitVec 8) :=
  if 8 ≤ data.length then data.take (data.length - 8) else data

namespace Defrag
variable {α : Type*}

/-- The loop of `skw_frag_get_entry` over the entries that are left. -/
def getEntryLoop (frag : Fin 4 → FragEntry α) (tid sn : ℕ) (active : Bool) :
    List (Fin 4) → Option (Fin 4) → Option (Fin 4) → Option (Fin 4)
  | [], inactive, oldest => if active then none else inactive.or oldest
  | i :: l, inactive, oldest =>
    if (frag i).sn = sn ∧ (frag i).tid = tid then some i
    else if active then getEntryLoop frag tid sn active l inactive oldest
    else if !(frag i).active then getEntryLoop frag tid sn active l (some i) oldest
    else
      match oldest with
      | none => getEntryLoop frag tid sn active l inactive (some i)
      | some o =>
        if timeAfter (frag o).start (frag i).start then
          getEntryLoop frag tid sn active l inactive (some i)
        else getEntryLoop frag tid sn active l inactive (some o)

def getEntry (s : Defrag α) (tid sn : ℕ) (active : Bool) : Option (Fin 4) :=
  getEntryLoop s.frag tid sn active [0, 1, 2, 3] none none

def setEntry (s : Defrag α) (i : Fin 4) (e : FragEntry α) : Defrag α :=
  { s with frag := Function.update s.frag i e }

/-- What `skw_frag_init_entry` leaves in the entry it takes for fragment 0. -/
def firstEntry (s : Defrag α) (e : FragEntry α) (f : Fragment α) : FragEntry α where
  active := true
  chkPn := s.skwCipher.isAead
  pendingLen := 0
  tid := f.skb.desc.tid
  fragNum := 0
  sn := f.skb.desc.sn
  start := s.jiffies
  skbList := [f.skb]
  lastPn := if s.skwCipher.isAead then f.skb.desc.pn else e.lastPn
  frags := [f]

def initEntry (s : Defrag α) (f : Fragment α) : Defrag α :=
  match s.getEntry f.skb.desc.tid f.skb.desc.sn false with
  | some i => s.setEntry i (s.firstEntry (s.frag i) f)
  | none => s

/-- A later fragment has the next number, and the next packet number where that is checked. -/
def fragAllowed (s : Defrag α) (e : FragEntry α) (desc : MpduDesc) : Bool :=
  e.fragNum + 1 = desc.fragNum &&
    (!e.chkPn || s.pnMode.read e.lastPn + 1 = s.pnMode.read desc.pn)

/-- The entry that a later fragment is added to. -/
def continued (s : Defrag α) (f : Fragment α) : Option (Fin 4) :=
  (s.getEntry f.skb.desc.tid f.skb.desc.sn true).filter fun i => s.fragAllowed (s.frag i) f.skb.desc

def addFragment (e : FragEntry α) (f : Fragment α) : FragEntry α :=
  { e with
    lastPn := if e.chkPn then f.skb.desc.pn else e.lastPn
    fragNum := e.fragNum + 1
    pendingLen := e.pendingLen + (f.skb.pull 12).data.length
    skbList := e.skbList ++ [f.skb.pull 12]
    frags := e.frags ++ [f] }

/-- The entry after its MSDU is complete. -/
def finished (e : FragEntry α) : FragEntry α :=
  { e with active := false, chkPn := false, tid := SKW_INVALID_ID, skbList := [], frags := [] }

/-- The buffers of a complete entry are joined; `expandHead` is whether `pskb_expand_head`
succeeds. -/
def join (s : Defrag α) (e : FragEntry α) (expandHead : Bool) : Option Mpdu :=
  match e.skbList with
  | [] => none
  | pskb :: l =>
    if pskb.tailroom < e.pendingLen.toNat && !expandHead then none
    else
      let msdu := (pskb.grow e.pendingLen.toNat).put l
      if s.skwCipher = .tkip then some { msdu with data := trimMic msdu.data } else some msdu

/-- What `skw_rx_defragment` returns and the entries it leaves. -/
def defragment (s : Defrag α) (f : Fragment α) (expandHead : Bool) : Option Mpdu × Defrag α :=
  if !f.skb.desc.moreFrag && f.skb.desc.fragNum = 0 then (some f.skb, s)
  else if f.skb.desc.fragNum = 0 then (none, s.initEntry f)
  else
    match s.continued f with
    | none => (none, s)
    | some i =>
      let e := addFragment (s.frag i) f
      if f.skb.desc.moreFrag then (none, s.setEntry i e)
      else (s.join e expandHead, s.setEntry i (finished e))

/-- The entries of a leaving interface or connection: `skb_queue_purge` and an invalid TID. -/
def flush (s : Defrag α) : Defrag α :=
  { s with frag := fun i => { s.frag i with tid := SKW_INVALID_ID, skbList := [], frags := [] } }

end Defrag

/-- What happens to the entries of an interface; its `key_conf` may change at any time. -/
inductive DefragEvent (α : Type*)
  | frame (f : Fragment α) (expandHead : Bool)
  | setCipher (c : CipherType)
  | flush
  | tick (n : Jiffies)

/-- The entries with the frames received so far and the MSDUs returned for fragments. -/
structure DefragSys (α : Type*) where
  defrag : Defrag α
  received : List (Fragment α)
  returned : List Mpdu

/-- `g` follows `f` in one MSDU. -/
structure Follows {α : Type*} (f g : Fragment α) : Prop where
  peer : g.peer = f.peer
  tid : g.skb.desc.tid = f.skb.desc.tid
  sn : g.skb.desc.sn = f.skb.desc.sn
  fragNum : g.skb.desc.fragNum.val = f.skb.desc.fragNum.val + 1

/-- Fragments 0, 1, … of one MSDU from one station. -/
structure Assembled {α : Type*} (m : PnMode) (fs : List (Fragment α)) : Prop where
  first : ∀ f ∈ fs.head?, f.skb.desc.fragNum = 0
  follows : fs.IsChain Follows
  pn : (∀ f ∈ fs.head?, f.cipher.isAead = true) →
    fs.IsChain fun f g => m.read g.skb.desc.pn = m.read f.skb.desc.pn + 1

/-- The data of fragments, the later ones without the addresses. -/
def joined {α : Type*} : List (Fragment α) → List (BitVec 8)
  | [] => []
  | f :: l => f.skb.data ++ l.flatMap fun g => (g.skb.pull 12).data

namespace DefragSys
variable {α : Type*}

def step (s : DefragSys α) : DefragEvent α → Option (DefragSys α)
  | .frame f expandHead =>
    let r := s.defrag.defragment f expandHead
    some
      { defrag := r.2
        received := s.received ++ [f]
        returned :=
          if f.skb.desc.moreFrag || f.skb.desc.fragNum ≠ 0 then s.returned ++ r.1.toList
          else s.returned }
  | .setCipher c => some { s with defrag := { s.defrag with skwCipher := c } }
  | .flush => some { s with defrag := s.defrag.flush }
  | .tick n => some { s with defrag := { s.defrag with jiffies := s.defrag.jiffies + n } }

/-- The MSDU is put together from fragments of one station, the last one without its MIC
under TKIP. -/
def Sound (m : PnMode) (received : List (Fragment α)) (msdu : Mpdu) : Prop :=
  ∃ fs last, (fs ++ [last]).Sublist received ∧ Assembled m (fs ++ [last]) ∧
    (∀ f ∈ fs, f.skb.desc.moreFrag = true) ∧ last.skb.desc.moreFrag = false ∧
    msdu.data = if last.cipher = .tkip then trimMic (joined (fs ++ [last]))
      else joined (fs ++ [last])

/-- Every MSDU returned for a fragment is sound. -/
def Defragmented (s : DefragSys α) : Prop :=
  ∀ msdu ∈ s.returned, Sound s.defrag.pnMode s.received msdu

/-- A new interface. -/
def init (pnMode : PnMode) (skwCipher : CipherType) (now : Jiffies) : DefragSys α where
  defrag :=
    { pnMode, skwCipher, jiffies := now
      frag := fun _ =>
        { active := false, chkPn := false, pendingLen := 0, tid := SKW_INVALID_ID, fragNum := 0
          sn := 0, start := 0, skbList := [], lastPn := 0, frags := [] } }
  received := []
  returned := []

/-- A fragment that is kept comes from the station whose fragments it is put to, and the
interface's cipher stands for that of the fragment: it is one of CCMP and GCMP for a first
fragment under these, and TKIP for a last fragment exactly under TKIP. -/
def OwnPeer (s : DefragSys α) : DefragEvent α → Prop
  | .frame f _ =>
    if f.skb.desc.fragNum = 0 then f.skb.desc.moreFrag = true → f.cipher.isAead = true →
      s.defrag.skwCipher.isAead = true
    else ∀ i ∈ s.defrag.continued f, (∀ g ∈ (s.defrag.frag i).frags.head?, g.peer = f.peer) ∧
      (f.skb.desc.moreFrag = false → (s.defrag.skwCipher = .tkip ↔ f.cipher = .tkip))
  | _ => True

end DefragSys

/-- The buffers of fragments, as they are queued. -/
def keptBuffers {α : Type*} : List (Fragment α) → List Mpdu
  | [] => []
  | f :: l => f.skb :: l.map fun g => g.skb.pull 12

/-- What an entry holds: the fragments of one station that it joined so far. -/
structure FragEntry.Inv {α : Type*} (m : PnMode) (received : List (Fragment α))
    (e : FragEntry α) : Prop where
  skbs : e.skbList = keptBuffers e.frags
  used : e.tid ≠ SKW_INVALID_ID → e.frags ≠ []
  sub : e.frags.Sublist received
  first : ∀ f ∈ e.frags.head?, f.skb.desc.fragNum = 0
  follows : e.frags.IsChain Follows
  key : ∀ f ∈ e.frags, f.skb.desc.tid.val = e.tid ∧ f.skb.desc.sn.val = e.sn
  num : ∀ f ∈ e.frags.getLast?, f.skb.desc.fragNum.val = e.fragNum
  aead : e.frags ≠ [] → (∀ f ∈ e.frags.head?, f.cipher.isAead = true) → e.chkPn = true
  pn : e.chkPn = true →
    e.frags.IsChain fun f g => m.read g.skb.desc.pn = m.read f.skb.desc.pn + 1
  last : e.chkPn = true → ∀ f ∈ e.frags.getLast?, f.skb.desc.pn = e.lastPn

namespace FragEntry
variable {α : Type*} {m : PnMode} {received : List (Fragment α)} {e : FragEntry α}
  {f : Fragment α}

theorem Inv.mono (h : e.Inv m received) (l : List (Fragment α)) : e.Inv m (received ++ l) :=
  { h with sub := h.sub.trans (List.sublist_append_left ..) }

/-- An entry without fragments. -/
theorem inv_empty (hf : e.frags = []) (hs : e.skbList = []) (ht : e.tid = SKW_INVALID_ID) :
    e.Inv m received where
  skbs := by rw [hf, hs]; rfl
  used h := absurd ht h
  sub := hf ▸ List.nil_sublist _
  first := by simp [hf]
  follows := hf ▸ .nil
  key := by simp [hf]
  num := by simp [hf]
  aead h := absurd hf h
  pn _ := hf ▸ .nil
  last _ := by simp [hf]

end FragEntry

/-- The fragments of a chain come from one station. -/
theorem peer_eq_of_follows {α : Type*} {f g : Fragment α} {l : List (Fragment α)}
    (h : (g :: l).IsChain Follows) (hf : f ∈ g :: l) : f.peer = g.peer := by
  induction l generalizing g with
  | nil => rw [List.mem_singleton.mp hf]
  | cons x l ih =>
    obtain ⟨hx, hl⟩ := List.isChain_cons_cons.mp h
    rcases List.mem_cons.mp hf with rfl | hf
    · rfl
    · exact (ih hl hf).trans hx.peer

theorem keptBuffers_append {α : Type*} {fs : List (Fragment α)} (h : fs ≠ []) (f : Fragment α) :
    keptBuffers (fs ++ [f]) = keptBuffers fs ++ [f.skb.pull 12] := by
  cases fs with
  | nil => exact absurd rfl h
  | cons g l => simp [keptBuffers]

namespace Defrag
variable {α : Type*} {s : Defrag α} {f : Fragment α} {i : Fin 4} {received : List (Fragment α)}

theorem getEntryLoop_true {frag : Fin 4 → FragEntry α} {tid sn : ℕ} {l : List (Fin 4)}
    {inactive oldest : Option (Fin 4)}
    (h : getEntryLoop frag tid sn true l inactive oldest = some i) :
    (frag i).sn = sn ∧ (frag i).tid = tid := by
  induction l generalizing inactive oldest with
  | nil => cases h
  | cons j l ih =>
    unfold getEntryLoop at h
    by_cases hj : (frag j).sn = sn ∧ (frag j).tid = tid
    · rw [if_pos hj] at h
      cases h
      exact hj
    · rw [if_neg hj, if_pos rfl] at h
      exact ih h

theorem of_continued (h : s.continued f = some i) :
    (s.frag i).sn = f.skb.desc.sn ∧ (s.frag i).tid = f.skb.desc.tid ∧
      (s.frag i).fragNum + 1 = f.skb.desc.fragNum ∧
      ((s.frag i).chkPn = true →
        s.pnMode.read (s.frag i).lastPn + 1 = s.pnMode.read f.skb.desc.pn) := by
  obtain ⟨hi, ha⟩ := Option.filter_eq_some_iff.mp h
  obtain ⟨hsn, htid⟩ := getEntryLoop_true hi
  simp only [fragAllowed, Bool.and_eq_true, Bool.or_eq_true, Bool.not_eq_true',
    decide_eq_true_eq] at ha
  refine ⟨hsn, htid, ha.1, fun hc => ?_⟩
  rcases ha.2 with hp | hp
  · rw [hc] at hp
    cases hp
  · exact hp

/-- A fragment of the station that the entry belongs to is added. -/
theorem addFragment_inv (h : (s.frag i).Inv s.pnMode received) (hi : s.continued f = some i)
    (hp : ∀ g ∈ (s.frag i).frags.head?, g.peer = f.peer) :
    (addFragment (s.frag i) f).Inv s.pnMode (received ++ [f]) := by
  obtain ⟨hsn, htid, hnum, hpn⟩ := of_continued hi
  have hne : (s.frag i).frags ≠ [] := by
    apply h.used
    have := f.skb.desc.tid.isLt
    unfold SKW_INVALID_ID
    omega
  have hhead : ((s.frag i).frags ++ [f]).head? = (s.frag i).frags.head? :=
    List.head?_append_of_ne_nil _ hne
  have hlast : ((s.frag i).frags ++ [f]).getLast? = some f := List.getLast?_concat
  have hfollows : ∀ x ∈ (s.frag i).frags.getLast?, ∀ y ∈ [f].head?, Follows x y := by
    intro x hx y hy
    cases hy
    have hmem := List.mem_of_getLast? hx
    obtain ⟨ht, hs⟩ := h.key x hmem
    obtain ⟨g, l, hl⟩ := List.exists_cons_of_ne_nil hne
    have hc := h.follows
    rw [hl] at hc hmem hp
    refine ⟨?_, ?_, ?_, ?_⟩
    · rw [peer_eq_of_follows hc hmem]
      exact (hp g rfl).symm
    · exact Fin.ext (by omega)
    · exact Fin.ext (by omega)
    · rw [h.num x hx, hnum]
  constructor
  · exact (congrArg (· ++ [f.skb.pull 12]) h.skbs).trans (keptBuffers_append hne f).symm
  · intro _
    simp [addFragment]
  · exact h.sub.append (List.Sublist.refl _)
  · intro g hg
    exact h.first g (hhead ▸ hg)
  · exact h.follows.append (.singleton f) hfollows
  · intro g hg
    rcases List.mem_append.mp hg with hg | hg
    · exact h.key g hg
    · cases List.mem_singleton.mp hg
      exact ⟨htid.symm, hsn.symm⟩
  · intro g hg
    cases hlast.symm.trans hg
    exact hnum.symm
  · intro _ ha
    exact h.aead hne fun g hg => ha g (hhead.symm ▸ hg)
  · intro hc
    refine (h.pn hc).append (.singleton f) fun x hx y hy => ?_
    cases hy
    rw [h.last hc x hx]
    exact (hpn hc).symm
  · intro hc g hg
    cases hlast.symm.trans hg
    exact (if_pos hc).symm

theorem firstEntry_inv (e : FragEntry α) (h0 : f.skb.desc.fragNum = 0)
    (ha : f.cipher.isAead = true → s.skwCipher.isAead = true) :
    (s.firstEntry e f).Inv s.pnMode (received ++ [f]) where
  skbs := rfl
  used _ := by simp [firstEntry]
  sub := List.sublist_append_right ..
  first g hg := by cases hg; exact h0
  follows := .singleton f
  key g hg := by cases List.mem_singleton.mp hg; exact ⟨rfl, rfl⟩
  num g hg := by cases hg; exact congrArg Fin.val h0
  aead _ h := ha (h f rfl)
  pn _ := .singleton f
  last hc g hg := by cases hg; exact (if_pos hc).symm

theorem finished_inv (e : FragEntry α) : (finished e).Inv s.pnMode received :=
  FragEntry.inv_empty rfl rfl rfl

end Defrag

namespace Defrag
variable {α : Type*} {s : Defrag α} {f : Fragment α} {i : Fin 4} {received : List (Fragment α)}

theorem getEntryLoop_false {frag : Fin 4 → FragEntry α} {tid sn : ℕ} {l : List (Fin 4)}
    {inactive oldest : Option (Fin 4)} (h : l ≠ [] ∨ inactive.isSome ∨ oldest.isSome) :
    (getEntryLoop frag tid sn false l inactive oldest).isSome = true := by
  induction l generalizing inactive oldest with
  | nil =>
    rcases h with h | h | h
    · exact absurd rfl h
    · simp [getEntryLoop, h]
    · simp [getEntryLoop, h]
  | cons j l ih =>
    unfold getEntryLoop
    simp only [Bool.false_eq_true, if_false]
    split
    · rfl
    · split
      · exact ih (by simp)
      · split
        · exact ih (by simp)
        · split <;> exact ih (by simp)

/-- Fragment 0 always finds an entry to start from. -/
theorem initEntry_eq (s : Defrag α) (f : Fragment α) :
    ∃ i, s.initEntry f = s.setEntry i (s.firstEntry (s.frag i) f) := by
  have h : (s.getEntry f.skb.desc.tid f.skb.desc.sn false).isSome = true :=
    getEntryLoop_false (.inl (by simp))
  obtain ⟨i, hi⟩ := Option.isSome_iff_exists.mp h
  exact ⟨i, by rw [initEntry, hi]⟩

/-- What a frame does: it is no fragment, it starts an entry, it is dropped, or it continues an
entry, which stays open or is finished. -/
theorem defragment_cases (s : Defrag α) (f : Fragment α) (b : Bool) :
    (f.skb.desc.moreFrag = false ∧ f.skb.desc.fragNum = 0 ∧
      s.defragment f b = (some f.skb, s)) ∨
    (f.skb.desc.moreFrag = true ∧ f.skb.desc.fragNum = 0 ∧
      ∃ i, s.defragment f b = (none, s.setEntry i (s.firstEntry (s.frag i) f))) ∨
    (f.skb.desc.fragNum ≠ 0 ∧ s.defragment f b = (none, s)) ∨
    (f.skb.desc.fragNum ≠ 0 ∧ ∃ i ∈ s.continued f,
      (f.skb.desc.moreFrag = true ∧
        s.defragment f b = (none, s.setEntry i (addFragment (s.frag i) f))) ∨
      (f.skb.desc.moreFrag = false ∧ s.defragment f b =
        (s.join (addFragment (s.frag i) f) b,
          s.setEntry i (finished (addFragment (s.frag i) f))))) := by
  by_cases h0 : f.skb.desc.fragNum = 0
  · cases hm : f.skb.desc.moreFrag with
    | false => exact .inl ⟨rfl, h0, by simp [defragment, h0, hm]⟩
    | true =>
      obtain ⟨i, hi⟩ := s.initEntry_eq f
      exact .inr (.inl ⟨rfl, h0, i, by simp [defragment, h0, hm, hi]⟩)
  · cases hc : s.continued f with
    | none => exact .inr (.inr (.inl ⟨h0, by simp [defragment, h0, hc]⟩))
    | some i =>
      refine .inr (.inr (.inr ⟨h0, i, rfl, ?_⟩))
      cases hm : f.skb.desc.moreFrag with
      | false => exact .inr ⟨rfl, by simp [defragment, h0, hc, hm]⟩
      | true => exact .inl ⟨rfl, by simp [defragment, h0, hc, hm]⟩

@[simp] theorem data_grow (n : ℕ) (skb : Mpdu) : (skb.grow n).data = skb.data := by
  unfold Mpdu.grow
  split <;> rfl

theorem data_put_keptBuffers (n : ℕ) (g : Fragment α) (l : List (Fragment α)) :
    ((g.skb.grow n).put (l.map fun x => x.skb.pull 12)).data = joined (g :: l) := by
  simp [Mpdu.put, joined, List.flatMap_map]

/-- The data of a joined MSDU. -/
theorem data_of_join {e : FragEntry α} {b : Bool} {msdu : Mpdu}
    (hq : e.skbList = keptBuffers e.frags)
    (h : s.join e b = some msdu) :
    msdu.data = if s.skwCipher = .tkip then trimMic (joined e.frags) else joined e.frags := by
  unfold join at h
  rw [hq] at h
  cases hf : e.frags with
  | nil =>
    rw [hf] at h
    cases h
  | cons g l =>
    rw [hf] at h
    simp only [keptBuffers] at h
    have hd := data_put_keptBuffers e.pendingLen.toNat g l
    by_cases hc : s.skwCipher = .tkip
    · rw [if_pos hc] at h ⊢
      split_ifs at h
      cases h
      exact congrArg trimMic hd
    · rw [if_neg hc] at h ⊢
      split_ifs at h
      cases h
      exact hd

end Defrag

namespace DefragSys
variable {α : Type*} {s t : DefragSys α} {e : DefragEvent α}

structure Inv (s : DefragSys α) : Prop where
  entry : ∀ i, (s.defrag.frag i).Inv s.defrag.pnMode s.received
  more : ∀ i, ∀ f ∈ (s.defrag.frag i).frags, f.skb.desc.moreFrag = true
  sound : s.Defragmented

theorem Sound.mono {m : PnMode} {received : List (Fragment α)} {msdu : Mpdu}
    (h : Sound m received msdu) (l : List (Fragment α)) : Sound m (received ++ l) msdu := by
  obtain ⟨fs, last, hs, h⟩ := h
  exact ⟨fs, last, hs.trans (List.sublist_append_left ..), h⟩

/-- An entry is replaced while a frame is received that returns nothing. -/
theorem Inv.set (h : s.Inv) (f : Fragment α) {i : Fin 4} {x : FragEntry α}
    (hx : x.Inv s.defrag.pnMode (s.received ++ [f]))
    (hm : ∀ g ∈ x.frags, g.skb.desc.moreFrag = true) :
    Inv { s with defrag := s.defrag.setEntry i x, received := s.received ++ [f] } where
  entry j := by
    simp only [Defrag.setEntry]
    rcases eq_or_ne j i with rfl | hne
    · rwa [Function.update_self]
    · rw [Function.update_of_ne hne]
      exact (h.entry j).mono [f]
  more j := by
    simp only [Defrag.setEntry]
    rcases eq_or_ne j i with rfl | hne
    · rwa [Function.update_self]
    · rw [Function.update_of_ne hne]
      exact h.more j
  sound msdu hm := (h.sound msdu hm).mono [f]

theorem Inv.receive (h : s.Inv) (f : Fragment α) :
    Inv { s with received := s.received ++ [f] } where
  entry j := (h.entry j).mono [f]
  more := h.more
  sound msdu hm := (h.sound msdu hm).mono [f]

/-- The MSDU that the last fragment of an entry completes. -/
theorem Inv.sound_join (h : s.Inv) {f : Fragment α} {i : Fin 4} {b : Bool} {msdu : Mpdu}
    (hi : s.defrag.continued f = some i)
    (hp : ∀ g ∈ (s.defrag.frag i).frags.head?, g.peer = f.peer)
    (hm : f.skb.desc.moreFrag = false) (hc : s.defrag.skwCipher = .tkip ↔ f.cipher = .tkip)
    (hj : s.defrag.join (Defrag.addFragment (s.defrag.frag i) f) b = some msdu) :
    Sound s.defrag.pnMode (s.received ++ [f]) msdu := by
  have hx := Defrag.addFragment_inv (h.entry i) hi hp
  have hd := Defrag.data_of_join hx.skbs hj
  refine ⟨(s.defrag.frag i).frags, f, hx.sub, ⟨hx.first, hx.follows, fun ha => ?_⟩,
    h.more i, hm, ?_⟩
  · exact hx.pn (hx.aead (by simp [Defrag.addFragment]) ha)
  · simp only [hc] at hd
    exact hd

theorem Inv.step (h : s.Inv) (hg : OwnPeer s e) (hs : step s e = some t) : t.Inv := by
  cases e with
  | frame f b =>
    cases Option.some.inj hs
    simp only [OwnPeer] at hg
    rcases s.defrag.defragment_cases f b with ⟨hm, h0, hr⟩ | ⟨hm, h0, i, hr⟩ | ⟨h0, hr⟩ |
      ⟨h0, i, hi, hr⟩
    · -- a frame that is no fragment
      simp only [hr, hm, h0, ne_eq, not_true_eq_false, decide_false, Bool.or_false,
        Bool.false_eq_true, if_false]
      exact h.receive f
    · rw [if_pos h0] at hg
      simp only [hr, Option.toList_none, List.append_nil, ite_self]
      refine h.set f (Defrag.firstEntry_inv _ h0 (hg hm)) fun g hg => ?_
      cases List.mem_singleton.mp hg
      exact hm
    · simp only [hr, Option.toList_none, List.append_nil, ite_self]
      exact h.receive f
    · rw [if_neg h0] at hg
      obtain ⟨hp, hc⟩ := hg i hi
      rcases hr with ⟨hm, hr⟩ | ⟨hm, hr⟩
      · simp only [hr, Option.toList_none, List.append_nil, ite_self]
        refine h.set f (Defrag.addFragment_inv (h.entry i) hi hp) fun g hg => ?_
        rcases List.mem_append.mp hg with hg | hg
        · exact h.more i g hg
        · cases List.mem_singleton.mp hg
          exact hm
      · have hset := h.set f (i := i)
          (Defrag.finished_inv (Defrag.addFragment (s.defrag.frag i) f)) (by
            intro g hg
            cases hg)
        simp only [hr, hm, h0, ne_eq, not_false_eq_true, decide_true, Bool.or_true, if_true]
        refine ⟨hset.entry, hset.more, fun msdu hmem => ?_⟩
        rcases List.mem_append.mp hmem with hmem | hmem
        · exact hset.sound msdu hmem
        · exact h.sound_join hi hp hm (hc hm) (Option.mem_toList.mp hmem)
  | setCipher c =>
    cases Option.some.inj hs
    exact ⟨h.entry, h.more, h.sound⟩
  | flush =>
    cases Option.some.inj hs
    refine ⟨fun i => FragEntry.inv_empty rfl rfl rfl, fun i f hf => ?_, h.sound⟩
    cases hf
  | tick n =>
    cases Option.some.inj hs
    exact ⟨h.entry, h.more, h.sound⟩

theorem init_inv (pnMode : PnMode) (skwCipher : CipherType) (now : Jiffies) :
    (init pnMode skwCipher now : DefragSys α).Inv where
  entry _ := FragEntry.inv_empty rfl rfl rfl
  more _ _ hf := by cases hf
  sound _ hm := by cases hm

/-- Runs in which every kept fragment is put to those of its own station, under its own cipher,
return only MSDUs that are put together from fragments of one station. -/
theorem defragmented_of_ownPeer (pnMode : PnMode) (skwCipher : CipherType) (now : Jiffies)
    (s : DefragSys α) (h : Lib.Reach step OwnPeer (init pnMode skwCipher now) s) :
    s.Defragmented :=
  (h.invariant (init_inv pnMode skwCipher now) fun _ _ _ hi hg hs => hi.step hg hs).sound

instance [DecidableEq α] (s : DefragSys α) (e : DefragEvent α) : Decidable (OwnPeer s e) := by
  cases e <;> unfold OwnPeer <;> infer_instance

/-- A fragment of TID 5 and sequence number 3 under CCMP. -/
def ccmpFragment (peer : ℕ) (fragNum : Fin 16) (moreFrag : Bool) (pn : BitVec 48)
    (data : List (BitVec 8)) : Fragment ℕ where
  skb :=
    { desc :=
        { sn := (3#12).toFin, msduFilter := (0#8).toFin, fragNum, amsduIdx := (0#6).toFin
          isAmsdu := false, isQosData := true, isMcAddr := false, moreFrag
          amsduFirstIdx := false, amsduLastIdx := false
          peerIdx := (1#5).toFin, tid := (5#4).toFin, pn }
      cb := ⟨0, 0, 0, false, false, false⟩
      data, tailroom := 64 }
  peer := peer
  cipher := .ccmp

/-- A fragment that skips a packet number is dropped. -/
theorem defragmented_of_ownPeer_ccmp :
    ∃ s : DefragSys ℕ, Lib.Reach step OwnPeer (init ⟨false, false⟩ .ccmp 0) s ∧
      s.returned.map (·.data) = [[1, 2, 4]] ∧ s.Defragmented := by
  obtain ⟨s, hs, hp⟩ := Lib.exists_reach_of_exec step OwnPeer
    (init ⟨false, false⟩ .ccmp 0 : DefragSys ℕ)
    [.frame (ccmpFragment 1 0 true 7 [1, 2]) true, .frame (ccmpFragment 2 1 false 9 [3]) true,
      .frame (ccmpFragment 1 1 false 8 (List.replicate 12 0 ++ [4])) true]
    (fun s => s.returned.map (·.data) == [[1, 2, 4]]) (by decide +kernel)
  exact ⟨s, hs, beq_iff_eq.mp hp, defragmented_of_ownPeer ⟨false, false⟩ .ccmp 0 s hs⟩

/-- The last fragment of another station completes the MSDU. -/
theorem otherPeer_not_defragmented :
    ¬ ∀ s : DefragSys ℕ, Lib.Reach step Lib.Free (init ⟨false, false⟩ .ccmp 0) s →
      s.Defragmented := by
  intro h
  let f := ccmpFragment 1 0 true 7 [1, 2]
  let g := ccmpFragment 2 1 false 8 (List.replicate 12 0 ++ [4])
  obtain ⟨s, hs, hp⟩ := Lib.exists_reach_of_exec step Lib.Free
    (init ⟨false, false⟩ .ccmp 0 : DefragSys ℕ) [.frame f true, .frame g true]
    (fun s => s.returned.length == 1 && s.received == [f, g]) (by decide +kernel)
  simp only [Bool.and_eq_true, beq_iff_eq] at hp
  obtain ⟨msdu, hm⟩ := List.length_eq_one_iff.mp hp.1
  obtain ⟨fs, last, hsub, ha, -, hlast, -⟩ := h s hs msdu (by simp [hm])
  rw [hp.2] at hsub
  have hmem : ∀ x ∈ fs ++ [last], x = f ∨ x = g := fun x hx => by simpa using hsub.subset hx
  have hg : last = g := (hmem last (by simp)).resolve_left fun he => by
    rw [he] at hlast
    cases hlast
  cases fs with
  | nil =>
    have h0 := ha.first last rfl
    rw [hg] at h0
    cases h0
  | cons a l =>
    have hf : a = f := (hmem a (by simp)).resolve_right fun he => by
      have h0 := ha.first a rfl
      rw [he] at h0
      cases h0
    have hpeer := peer_eq_of_follows ha.follows (f := last) (by simp)
    rw [hf, hg] at hpeer
    cases hpeer

end DefragSys
end Skw
