import Skw.Kernel.Elements
import Skw.Kernel.Types
import Skw.Lib.Packing

/-! `__skw_cfg80211_mgmt_tx`: a management frame that does not fit a command is sent in parts, a
radio measurement report between its elements and any other frame wherever a part is full. -/
namespace Skw

/-- `extraHdr` is `SKW_HW_FLAG_EXTRA_HDR`. -/
structure CmdHw where
  bus : SkwBus
  extraHdr : Bool
  hdrLen : ℕ
  align : ℕ

/-- `skw_cmd_len_in_limit`. -/
def cmdLenInLimit (hw : CmdHw) (totalLen : ℕ) : Bool :=
  match hw.bus with
  | .usb => totalLen ≤ 1536
  | .sdio => totalLen ≤ 1588
  | .pcie => totalLen ≤ 1600
  | .sdio2 | .usb2 => true

/-- `skw_cmd_data_len_in_limit`; a `struct skw_msg` has eight octets. -/
def cmdDataLenInLimit (hw : CmdHw) (dataLen : ℕ) : Bool :=
  let totalLen := dataLen + 8
  cmdLenInLimit hw <|
    if hw.extraHdr then
      if hw.bus = .usb then totalLen + hw.hdrLen else roundUp (totalLen + hw.hdrLen) hw.align
    else totalLen

abbrev SKW_MGMT_TX_LEN : ℕ := 1500

/-- The octets of a `struct skw_mgmt_tx_param` before the frame. -/
abbrev mgmtTxParamSize : ℕ := 17

/-- The offset of the first element of a measurement report. -/
abbrev headOffset : ℕ := 27

/-- `is_skw_rrm_report`: an action frame of category 5 and action 1 that has room for the fixed
fields and an element. -/
def isRrmReport (frame : List (BitVec 8)) : Bool :=
  frame.getD 0 0 &&& 0xfc = 0xd0 && 32 ≤ frame.length && frame.getD 24 0 = 5 &&
    frame.getD 25 0 = 1

/-- The loop over the elements of a report: the parts that are sent, and whether an octet behind
the frame is read. `elems` lies from `pos` up to `next` and `rest` from there on; when an element
goes on behind the frame, `left` passes zero and the next turn reads its length there. A `char` has
no sign on the target. -/
def rrmLoop (head elems rest : List (BitVec 8)) : List (List (BitVec 8)) × Bool :=
  match rest with
  | [] => ([], false)
  | [_] => ([], true)
  | id :: len :: tail =>
    let nextLen := len.toNat + 2
    if elems.length + headOffset + nextLen < SKW_MGMT_TX_LEN then
      if (id :: len :: tail).length < nextLen then ([], true)
      else if (id :: len :: tail).length = nextLen then
        ([head ++ (elems ++ id :: len :: tail)], false)
      else
        rrmLoop head (elems ++ (id :: len :: tail).take nextLen)
          ((id :: len :: tail).drop nextLen)
    else
      let r := rrmLoop head [] (id :: len :: tail)
      ((head ++ elems) :: r.1, r.2)
termination_by (rest.length, elems.length)
decreasing_by
  · apply Prod.Lex.left
    simp only [List.length_drop, List.length_cons]
    omega
  · apply Prod.Lex.right
    have := len.isLt
    simp only [List.length_nil, headOffset, SKW_MGMT_TX_LEN] at *
    omega

/-- The loop over a frame of another kind. `send k` is the result of the part with number `k`; the
first one that is not zero ends the loop. -/
def partLoop (send : ℕ → ℤ) (k : ℕ) (data : List (BitVec 8)) : ℤ × List (List (BitVec 8)) :=
  if data = [] then (0, [])
  else if send k ≠ 0 then (send k, [data.take SKW_MGMT_TX_LEN])
  else
    let r := partLoop send (k + 1) (data.drop SKW_MGMT_TX_LEN)
    (r.1, data.take SKW_MGMT_TX_LEN :: r.2)
termination_by data.length
decreasing_by
  have := List.length_pos_of_ne_nil ‹¬data = []›
  simp only [List.length_drop, SKW_MGMT_TX_LEN]
  omega

/-- What a call sends and reads: `parts` are the frames given to `skw_mgmt_tx` in their order, and
`outside` says that an octet behind the frame was read. -/
structure MgmtTxRun where
  ret : ℤ
  parts : List (List (BitVec 8))
  outside : Bool

/-- `send` is what `skw_mgmt_tx` returns for each part; `alloc` and `allocStatus` say whether the
buffer for the parts of a report and the one for the status are allocated. -/
structure MgmtTxEnv where
  send : ℕ → ℤ
  alloc : Bool
  allocStatus : Bool

/-- In the branch for reports the results stay in a variable of their own, which hides the one that
is returned. -/
def cfg80211MgmtTx (hw : CmdHw) (x : MgmtTxEnv) (dontWaitForAck : Bool)
    (frame : List (BitVec 8)) : MgmtTxRun :=
  if cmdDataLenInLimit hw (frame.length + mgmtTxParamSize) then ⟨x.send 0, [frame], false⟩
  else if isRrmReport frame then
    if x.alloc = false then ⟨0, [], false⟩
    else
      let r := rrmLoop (frame.take headOffset) [] (frame.drop headOffset)
      ⟨0, r.1, r.2⟩
  else
    let r := partLoop x.send 0 frame
    let ret :=
      if r.1 = 0 ∧ dontWaitForAck = false ∧ x.allocStatus = false then - ENOMEM else r.1
    ⟨ret, r.2, false⟩

/-- The octets that the elements of one part stay below. -/
abbrev elementRoom : ℕ := SKW_MGMT_TX_LEN - headOffset

section
variable {e : Lib.Tlv} {es cur : List Lib.Tlv} {head rest elems : List (BitVec 8)}

theorem size_lt_elementRoom (e : Lib.Tlv) : e.size < elementRoom := by
  have := e.length_lt
  simp only [Lib.Tlv.size, elementRoom, SKW_MGMT_TX_LEN, headOffset]
  omega

/-- One turn of the loop over a list that begins with an element. -/
theorem rrmLoop_element (head elems : List (BitVec 8)) (e : Lib.Tlv) (rest : List (BitVec 8)) :
    rrmLoop head elems (e.bytes ++ rest) =
      if elems.length + e.size < elementRoom then
        if rest = [] then ([head ++ (elems ++ e.bytes)], false)
        else rrmLoop head (elems ++ e.bytes) rest
      else
        ((head ++ elems) :: (rrmLoop head [] (e.bytes ++ rest)).1,
          (rrmLoop head [] (e.bytes ++ rest)).2) := by
  have hfold : e.bytes ++ rest =
      e.id :: BitVec.ofNat 8 e.data.length :: (e.data ++ rest) := rfl
  have hroom : elems.length + headOffset + (e.data.length + 2) < SKW_MGMT_TX_LEN ↔
      elems.length + e.size < elementRoom := by
    simp only [Lib.Tlv.size, elementRoom, SKW_MGMT_TX_LEN, headOffset]
    omega
  have hlength : (e.bytes ++ rest).length = e.data.length + 2 + rest.length := by
    simp [Lib.Tlv.size]
  have htake : (e.bytes ++ rest).take (e.data.length + 2) = e.bytes :=
    List.take_left' (Lib.Tlv.length_bytes e)
  have hdrop : (e.bytes ++ rest).drop (e.data.length + 2) = rest :=
    List.drop_left' (Lib.Tlv.length_bytes e)
  conv_lhs => rw [hfold, rrmLoop]
  simp only [toNat_length, hroom, ← hfold, hlength, htake, hdrop]
  split
  · rw [if_neg (by omega)]
    by_cases hrest : rest = []
    · simp [hrest]
    · have hpos := List.length_pos_of_ne_nil hrest
      rw [if_neg (by omega), if_neg hrest]
  · rfl

/-- The parts of a well-formed report are the elements packed behind the fixed fields. -/
theorem rrmLoop_elementBytes (head : List (BitVec 8)) (cur : List Lib.Tlv) (e : Lib.Tlv)
    (es : List Lib.Tlv) :
    rrmLoop head (elementBytes cur) (elementBytes (e :: es)) =
      ((Lib.packFrom Lib.Tlv.size elementRoom cur (e :: es)).map
        fun p => head ++ elementBytes p, false) := by
  induction es generalizing cur e with
  | nil =>
    have htake (cur : List Lib.Tlv) (h : Lib.totalSize Lib.Tlv.size cur + e.size < elementRoom) :
        rrmLoop head (elementBytes cur) (elementBytes [e]) =
          ([head ++ elementBytes (cur ++ [e])], false) := by
      rw [elementBytes_cons, rrmLoop_element, length_elementBytes, if_pos h, elementBytes_append]
      simp [elementBytes]
    by_cases h : Lib.totalSize Lib.Tlv.size cur + e.size < elementRoom
    · rw [htake cur h, Lib.packFrom_fits h]
      rfl
    · have hfirst := htake [] (by simpa using size_lt_elementRoom e)
      rw [elementBytes_cons] at hfirst ⊢
      rw [rrmLoop_element, length_elementBytes, if_neg h, Lib.packFrom_closes h]
      change rrmLoop head [] _ = _ at hfirst
      rw [hfirst]
      rfl
  | cons e' es ih =>
    have htake (cur : List Lib.Tlv) (h : Lib.totalSize Lib.Tlv.size cur + e.size < elementRoom) :
        rrmLoop head (elementBytes cur) (elementBytes (e :: e' :: es)) =
          ((Lib.packFrom Lib.Tlv.size elementRoom (cur ++ [e]) (e' :: es)).map
            fun p => head ++ elementBytes p, false) := by
      rw [elementBytes_cons, rrmLoop_element, length_elementBytes, if_pos h,
        if_neg (by rw [elementBytes_eq_nil_iff]; simp), ← ih, elementBytes_append]
      simp [elementBytes]
    by_cases h : Lib.totalSize Lib.Tlv.size cur + e.size < elementRoom
    · rw [htake cur h, Lib.packFrom_fits h]
    · have hfirst := htake [] (by simpa using size_lt_elementRoom e)
      rw [elementBytes_cons] at hfirst ⊢
      rw [rrmLoop_element, length_elementBytes, if_neg h, Lib.packFrom_closes h]
      change rrmLoop head [] _ = _ at hfirst
      rw [hfirst]
      rfl

/-- The first element of a list that is long enough for it. -/
theorem exists_element (id len : BitVec 8) (tail : List (BitVec 8))
    (h : len.toNat + 2 ≤ (id :: len :: tail).length) :
    ∃ e : Lib.Tlv, id :: len :: tail = e.bytes ++ (id :: len :: tail).drop (len.toNat + 2) := by
  simp only [List.length_cons] at h
  have hlen : (tail.take len.toNat).length = len.toNat := by
    rw [List.length_take]
    omega
  refine ⟨⟨id, tail.take len.toNat, by rw [hlen]; exact len.isLt⟩, ?_⟩
  simp [Lib.Tlv.bytes, hlen]

/-- A list of elements that is not well formed is read beyond its end. -/
theorem exists_elements_of_inside (h : (rrmLoop head elems rest).2 = false) :
    ∃ es, rest = elementBytes es := by
  induction elems, rest using rrmLoop.induct head with
  | case1 elems => exact ⟨[], rfl⟩
  | case2 elems a =>
    rw [rrmLoop] at h
    cases h
  | case3 elems id len tail nextLen hroom hshort =>
    rw [rrmLoop] at h
    simp only [nextLen] at hroom hshort
    rw [if_pos hroom, if_pos hshort] at h
    cases h
  | case4 elems id len tail nextLen hroom hlong hend =>
    simp only [nextLen] at hend
    obtain ⟨e, he⟩ := exists_element id len tail hend.ge
    refine ⟨[e], ?_⟩
    rw [he, List.drop_of_length_le hend.le]
    simp [elementBytes]
  | case5 elems id len tail nextLen hroom hlong hmore ih =>
    rw [rrmLoop] at h
    simp only [nextLen] at hroom hlong hmore ih
    rw [if_pos hroom, if_neg hlong, if_neg hmore] at h
    obtain ⟨es, hes⟩ := ih h
    obtain ⟨e, he⟩ := exists_element id len tail (Nat.not_lt.mp hlong)
    exact ⟨e :: es, by rw [elementBytes_cons, ← hes, ← he]⟩
  | case6 elems id len tail nextLen hroom ih =>
    rw [rrmLoop] at h
    simp only [nextLen] at hroom
    rw [if_neg hroom] at h
    exact ih h

/-- How many parts a frame of another kind has. -/
def partCount (n : ℕ) : ℕ := (n + SKW_MGMT_TX_LEN - 1) / SKW_MGMT_TX_LEN

theorem partCount_pos {n : ℕ} (h : 0 < n) :
    partCount n = partCount (n - SKW_MGMT_TX_LEN) + 1 := by
  simp only [partCount, SKW_MGMT_TX_LEN]
  omega

variable {send : ℕ → ℤ} {k : ℕ} {data : List (BitVec 8)}

theorem length_le_of_mem_partLoop {p : List (BitVec 8)} (h : p ∈ (partLoop send k data).2) :
    p.length ≤ SKW_MGMT_TX_LEN := by
  have htake (d : List (BitVec 8)) : (d.take SKW_MGMT_TX_LEN).length ≤ SKW_MGMT_TX_LEN := by
    rw [List.length_take]
    exact Nat.min_le_left ..
  induction k, data using partLoop.induct send with
  | case1 k =>
    rw [partLoop, if_pos rfl] at h
    cases h
  | case2 k data hne hfail =>
    rw [partLoop, if_neg hne, if_pos hfail] at h
    rw [List.mem_singleton.mp h]
    exact htake data
  | case3 k data hne hok ih =>
    rw [partLoop, if_neg hne, if_neg hok] at h
    rcases List.mem_cons.mp h with rfl | h
    · exact htake data
    · exact ih h

/-- The loop returns zero only if every part was accepted. -/
theorem send_eq_zero_of_partLoop (h : (partLoop send k data).1 = 0) :
    ∀ j < (partLoop send k data).2.length, send (k + j) = 0 := by
  induction k, data using partLoop.induct send with
  | case1 k =>
    rw [partLoop, if_pos rfl]
    intro j hj
    cases hj
  | case2 k data hne hfail =>
    rw [partLoop, if_neg hne, if_pos hfail] at h
    exact absurd h hfail
  | case3 k data hne hok ih =>
    rw [partLoop, if_neg hne, if_neg hok] at h ⊢
    intro j hj
    cases j with
    | zero => exact not_not.mp hok
    | succ j =>
      have := ih h j (by simpa using hj)
      rwa [Nat.add_right_comm] at this

/-- The whole frame is sent exactly if no part but the last is refused. -/
theorem flatten_partLoop_iff :
    (partLoop send k data).2.flatten = data ↔
      ∀ j, j + 1 < partCount data.length → send (k + j) = 0 := by
  induction k, data using partLoop.induct send with
  | case1 k =>
    rw [partLoop, if_pos rfl]
    simp [partCount, SKW_MGMT_TX_LEN]
  | case2 k data hne hfail =>
    rw [partLoop, if_neg hne, if_pos hfail, List.flatten_singleton, List.take_eq_self_iff]
    constructor
    · intro hle j hj
      simp only [partCount, SKW_MGMT_TX_LEN] at hj hle
      omega
    · intro hall
      by_contra hlong
      apply hfail
      apply hall 0
      simp only [partCount, SKW_MGMT_TX_LEN] at hlong ⊢
      omega
  | case3 k data hne hok ih =>
    have hcount := partCount_pos (List.length_pos_of_ne_nil hne)
    have hrest : data.take SKW_MGMT_TX_LEN ++
        (partLoop send (k + 1) (data.drop SKW_MGMT_TX_LEN)).2.flatten = data ↔
        (partLoop send (k + 1) (data.drop SKW_MGMT_TX_LEN)).2.flatten =
          data.drop SKW_MGMT_TX_LEN := by
      conv_lhs => rhs; rw [← List.take_append_drop SKW_MGMT_TX_LEN data]
      exact List.append_cancel_left_eq .. |>.to_iff
    rw [partLoop, if_neg hne, if_neg hok, List.flatten_cons, hrest, ih, List.length_drop, hcount]
    constructor
    · intro hall j hj
      cases j with
      | zero => exact not_not.mp hok
      | succ j =>
        have := hall j (by omega)
        rwa [Nat.add_right_comm] at this
    · intro hall j hj
      have := hall (j + 1) (by omega)
      rwa [← Nat.add_assoc, Nat.add_right_comm] at this

end

/-- A long frame is split without loss. -/
structure SplitsFrame (x : MgmtTxEnv) (frame : List (BitVec 8)) (r : MgmtTxRun) : Prop where
  inside : r.outside = false
  room : ∀ p ∈ r.parts, p.length ≤ SKW_MGMT_TX_LEN
  accepted : r.ret = 0 → ∀ k < r.parts.length, x.send k = 0
  report : isRrmReport frame = true → ∀ es, frame.drop headOffset = elementBytes es →
    ∃ ess : List (List Lib.Tlv),
      r.parts = ess.map (fun e => frame.take headOffset ++ elementBytes e) ∧
      (∀ e ∈ ess, e ≠ []) ∧ ess.flatten = es
  other : isRrmReport frame = false → r.parts.flatten = frame

/-- When a long frame is split without loss: a report has a list of elements that is well formed,
and every part is accepted; no part of another frame but the last is refused. Without the buffer
for its parts nothing is sent of a report. -/
def Splittable (x : MgmtTxEnv) (frame : List (BitVec 8)) : Prop :=
  if isRrmReport frame then
    if x.alloc then
      ∃ es, frame.drop headOffset = elementBytes es ∧
        ∀ k < (Lib.pack Lib.Tlv.size elementRoom es).length, x.send k = 0
    else ∀ es, frame.drop headOffset ≠ elementBytes es
  else ∀ k, k + 1 < partCount frame.length → x.send k = 0

section
variable {x : MgmtTxEnv} {frame : List (BitVec 8)} {es : List Lib.Tlv}

theorem elements_ne_nil (h : isRrmReport frame = true)
    (hes : frame.drop headOffset = elementBytes es) : es ≠ [] := by
  rintro rfl
  simp only [isRrmReport, Bool.and_eq_true, decide_eq_true_eq] at h
  have hlen := congrArg List.length hes
  simp only [List.length_drop, length_elementBytes, Lib.totalSize_nil, headOffset] at hlen
  omega

/-- The parts of a report with a well-formed list. -/
theorem rrmLoop_report (h : isRrmReport frame = true)
    (hes : frame.drop headOffset = elementBytes es) :
    rrmLoop (frame.take headOffset) [] (frame.drop headOffset) =
      ((Lib.pack Lib.Tlv.size elementRoom es).map
        fun p => frame.take headOffset ++ elementBytes p, false) := by
  obtain ⟨e, es, rfl⟩ := List.exists_cons_of_ne_nil (elements_ne_nil h hes)
  rw [hes]
  exact rrmLoop_elementBytes (frame.take headOffset) [] e es

theorem length_part_le {p : List Lib.Tlv} (hp : p ∈ Lib.pack Lib.Tlv.size elementRoom es) :
    (frame.take headOffset ++ elementBytes p).length ≤ SKW_MGMT_TX_LEN := by
  have hroom : 0 < elementRoom := by decide
  have hsize := Lib.totalSize_lt_of_mem_pack hroom (fun e _ => size_lt_elementRoom e) hp
  rw [List.length_append, length_elementBytes, List.length_take]
  simp only [elementRoom, SKW_MGMT_TX_LEN, headOffset] at hsize ⊢
  omega

theorem splitsFrame_report (h : isRrmReport frame = true)
    (hes : frame.drop headOffset = elementBytes es)
    (hsend : ∀ k < (Lib.pack Lib.Tlv.size elementRoom es).length, x.send k = 0) :
    SplitsFrame x frame ⟨0, (rrmLoop (frame.take headOffset) [] (frame.drop headOffset)).1,
      (rrmLoop (frame.take headOffset) [] (frame.drop headOffset)).2⟩ where
  inside := by rw [rrmLoop_report h hes]
  room := by
    intro p hp
    rw [rrmLoop_report h hes] at hp
    obtain ⟨q, hq, rfl⟩ := List.mem_map.mp hp
    exact length_part_le hq
  accepted := by
    intro _ k hk
    rw [rrmLoop_report h hes, List.length_map] at hk
    exact hsend k hk
  report := by
    intro _ es' hes'
    rw [rrmLoop_report h hes']
    refine ⟨_, rfl, ?_, Lib.flatten_pack es'⟩
    intro p hp
    exact Lib.ne_nil_of_mem_pack (elements_ne_nil h hes') (fun e _ => size_lt_elementRoom e) hp
  other hfalse := by
    rw [h] at hfalse
    cases hfalse

/-- Without the buffer for its parts a report is only treated right if its list is not well
formed. -/
theorem splitsFrame_nothing_iff (h : isRrmReport frame = true) :
    SplitsFrame x frame ⟨0, [], false⟩ ↔ ∀ es, frame.drop headOffset ≠ elementBytes es := by
  constructor
  · intro hs es hes
    obtain ⟨ess, hparts, -, hflat⟩ := hs.report h es hes
    have hess : ess = [] := List.map_eq_nil_iff.mp hparts.symm
    subst hess
    exact elements_ne_nil h hes hflat.symm
  · intro hno
    constructor
    · rfl
    · intro p hp
      cases hp
    · intro _ k hk
      cases hk
    · intro _ es hes
      exact absurd hes (hno es)
    · intro hother
      rw [h] at hother
      cases hother

/-- A frame of another kind, where zero is returned only if the loop did so. -/
theorem splitsFrame_other_iff (h : isRrmReport frame = false) {ret : ℤ}
    (hret : ret = 0 → (partLoop x.send 0 frame).1 = 0) :
    SplitsFrame x frame ⟨ret, (partLoop x.send 0 frame).2, false⟩ ↔
      ∀ k, k + 1 < partCount frame.length → x.send k = 0 := by
  have hflat := @flatten_partLoop_iff x.send 0 frame
  simp only [Nat.zero_add] at hflat
  rw [← hflat]
  constructor
  · intro hs
    exact hs.other h
  · intro hs
    constructor
    · rfl
    · intro p hp
      exact length_le_of_mem_partLoop hp
    · intro hzero
      simpa using send_eq_zero_of_partLoop (hret hzero)
    · intro htrue
      rw [h] at htrue
      cases htrue
    · intro _
      exact hs

end

/-- A frame longer than the command limit is split without loss exactly under `Splittable`. -/
theorem cfg80211MgmtTx_splits_iff (hw : CmdHw) (x : MgmtTxEnv) (dontWaitForAck : Bool)
    (frame : List (BitVec 8))
    (hlong : cmdDataLenInLimit hw (frame.length + mgmtTxParamSize) = false) :
    SplitsFrame x frame (cfg80211MgmtTx hw x dontWaitForAck frame) ↔ Splittable x frame := by
  unfold cfg80211MgmtTx Splittable
  rw [hlong, if_neg Bool.false_ne_true]
  by_cases hreport : isRrmReport frame = true
  · rw [if_pos hreport, if_pos hreport]
    cases halloc : x.alloc with
    | false =>
      rw [if_pos rfl, if_neg Bool.false_ne_true]
      exact splitsFrame_nothing_iff hreport
    | true =>
      rw [if_neg (by decide), if_pos rfl]
      constructor
      · intro h
        obtain ⟨es, hes⟩ := exists_elements_of_inside h.inside
        refine ⟨es, hes, ?_⟩
        intro k hk
        apply h.accepted rfl
        rwa [rrmLoop_report hreport hes, List.length_map]
      · rintro ⟨es, hes, hsend⟩
        exact splitsFrame_report hreport hes hsend
  · rw [if_neg hreport, if_neg hreport]
    apply splitsFrame_other_iff (Bool.eq_false_of_not_eq_true hreport)
    intro hret
    by_contra hne
    rw [if_neg fun hand => hne hand.1] at hret
    exact hne hret

/-- The fixed fields of a measurement report. -/
def reportHead : List (BitVec 8) :=
  0xd0 :: List.replicate 23 0 ++ [5, 1, 0]

def longElement : Lib.Tlv := ⟨39, List.replicate 255 0, by rw [List.length_replicate]; decide⟩

/-- A report with seven of the longest elements. -/
def longReport : List (BitVec 8) := reportHead ++ elementBytes (List.replicate 7 longElement)

def usbHw : CmdHw := ⟨.usb, false, 0, 4⟩

theorem size_longElement : longElement.size = 257 := by
  rw [Lib.Tlv.size, longElement, List.length_replicate]

theorem length_longReport : longReport.length = 27 + 7 * 257 := by
  rw [longReport, List.length_append, length_elementBytes, Lib.totalSize, List.map_replicate,
    List.sum_replicate, size_longElement]
  rfl

theorem isRrmReport_longReport : isRrmReport longReport = true := by
  have hlen := length_longReport
  unfold isRrmReport
  rw [hlen]
  rfl

theorem longReport_long :
    cmdDataLenInLimit usbHw (longReport.length + mgmtTxParamSize) = false := by
  rw [length_longReport]
  rfl

theorem longReport_splits :
    SplitsFrame ⟨fun _ => 0, true, true⟩ longReport
      (cfg80211MgmtTx usbHw ⟨fun _ => 0, true, true⟩ false longReport) := by
  apply (cfg80211MgmtTx_splits_iff usbHw ⟨fun _ => 0, true, true⟩ false longReport
    longReport_long).mpr
  rw [Splittable, if_pos isRrmReport_longReport]
  exact ⟨_, rfl, fun _ _ => rfl⟩

/-- A report of which every part is refused is reported as sent. -/
theorem refused_report_returns_zero :
    ¬ SplitsFrame ⟨fun _ => - EIO, true, true⟩ longReport
      (cfg80211MgmtTx usbHw ⟨fun _ => - EIO, true, true⟩ false longReport) := by
  intro h
  obtain ⟨ess, hparts, -, hflat⟩ := h.report isRrmReport_longReport _ rfl
  have hret : (cfg80211MgmtTx usbHw ⟨fun _ => - EIO, true, true⟩ false longReport).ret = 0 := by
    rw [cfg80211MgmtTx, longReport_long, if_neg Bool.false_ne_true,
      if_pos isRrmReport_longReport, if_neg (by decide)]
  have hpos : ess ≠ [] := by
    rintro rfl
    cases hflat
  have hfirst := h.accepted hret 0
  rw [hparts, List.length_map, List.length_pos_iff] at hfirst
  have hzero := hfirst hpos
  revert hzero
  decide

end Skw
