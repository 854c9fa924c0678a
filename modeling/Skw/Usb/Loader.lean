import Skw.Kernel.Words
import Skw.Lib.Buffer
import Skw.Lib.Crc
import Skw.Lib.Transfer
import Mathlib.Algebra.BigOperators.Group.List.Basic

/-! The start of the chip over USB. `dloader_work` sends two images to the boot loader, each behind
a command and in packets, and lets it run them. What the boot loader makes of the packets that reach
it is a machine of its own. The check of a packet is `crc16_calculate` of `usb_boot.c`, of which
`crc_16_l_calc` of `skw_boot.c` and of `skw_sdio_rx.c` are copies. -/
namespace Skw

abbrev PACKET_HEADER_SIZE : ℕ := 12

/-- The two exclusive ors of a pass of the inner loop. -/
def crc16Bit (crc : BitVec 16) (bit : Bool) : BitVec 16 :=
  let crc := if crc &&& 0x8000 ≠ 0 then crc <<< 1 ^^^ 0x1021 else crc <<< 1
  if bit then crc ^^^ 0x1021 else crc

/-- The inner loop of `crc16_calculate`, with `i` from `0x80` down. -/
def crc16Octet (crc : BitVec 16) (octet : BitVec 8) : BitVec 16 :=
  (List.range 8).foldl (fun crc k => crc16Bit crc (octet &&& (0x80 : BitVec 8) >>> k != 0)) crc

def crc16Calculate (buf : List (BitVec 8)) : BitVec 16 := buf.foldl crc16Octet 0

/-- The bits of a body in the order in which the check takes them. -/
def bitsOf (buf : List (BitVec 8)) : List Bool :=
  buf.flatMap fun octet => (List.range 8).map fun k => octet &&& (0x80 : BitVec 8) >>> k != 0

theorem crc16Bit_eq_crcStep (crc : BitVec 16) (bit : Bool) :
    crc16Bit crc bit = Lib.crcStep 0x1021 crc bit := by
  have htop : crc &&& 0x8000 = if crc.getLsbD 15 then 0x8000 else 0 := BitVec.and_twoPow crc 15
  have hmsb : crc.msb = crc.getLsbD 15 := BitVec.msb_eq_getLsbD_last crc
  unfold crc16Bit Lib.crcStep
  rw [htop, hmsb]
  cases crc.getLsbD 15 <;> cases bit <;> simp [BitVec.xor_assoc]

theorem crc16Calculate_eq (buf : List (BitVec 8)) :
    crc16Calculate buf = Lib.crc 0x1021 0 (bitsOf buf) := by
  unfold crc16Calculate
  generalize (0 : BitVec 16) = crc
  induction buf generalizing crc with
  | nil => rfl
  | cons octet buf ih =>
    have hoctet : crc16Octet crc octet =
        Lib.crc 0x1021 crc
          ((List.range 8).map fun k => octet &&& (0x80 : BitVec 8) >>> k != 0) := by
      unfold crc16Octet Lib.crc
      rw [List.foldl_map]
      simp only [crc16Bit_eq_crcStep]
    rw [List.foldl_cons, ih, hoctet, ← Lib.crc_append]
    rfl

/-- Bodies that differ in at most 16 bits in a row, or in an odd number of bits, have different
checks. -/
theorem crc16Calculate_ne {xs ys : List (BitVec 8)}
    (h : Lib.Burst 16 (bitsOf xs) (bitsOf ys) ∨
      (bitsOf xs).count true % 2 ≠ (bitsOf ys).count true % 2) :
    crc16Calculate xs ≠ crc16Calculate ys := by
  rw [crc16Calculate_eq, crc16Calculate_eq]
  rcases h with h | h
  · exact Lib.crc_ne_of_burst (by decide) h
  · exact Lib.crc_ne_of_count (by decide) h

theorem crc16Calculate_ne_flip : crc16Calculate [0x10, 0x20] ≠ crc16Calculate [0x10, 0x21] :=
  crc16Calculate_ne (Or.inr (by decide))

abbrev PACKET_MAGIC : BitVec 32 := 0x7E7E7E7E

/-- `cpu_to_be16`, as it lies in memory. -/
def be16 (x : BitVec 16) : List (BitVec 8) := [(x >>> 8).setWidth 8, x.setWidth 8]

/-- The command of `dloader_command_start_download`. -/
def startDownload (addr len : BitVec 32) : List (BitVec 8) :=
  le32 PACKET_MAGIC ++ [0x08, 0, 0, 0] ++ [0x01, 0] ++
    be16 (crc16Calculate (le32 addr ++ le32 len)) ++ le32 addr ++ le32 len

/-- The command of `dloader_command_exec`. Its check has the other order of octets. -/
def commandExec (addr : BitVec 32) : List (BitVec 8) :=
  le32 PACKET_MAGIC ++ [0x04, 0, 0, 0] ++ [0x04, 0] ++ le16 (crc16Calculate (le32 addr)) ++
    le32 addr

/-- `dloader_send_pdata` in the buffer of the port. The check goes over `command_len` octets from
the body on, and so over what lies behind it. -/
def sendPdata (buf : ℕ → BitVec 8) (pdata : List (BitVec 8)) : ℕ → BitVec 8 :=
  let len := BitVec.ofNat 32 pdata.length
  let buf := Lib.store buf 0 (le32 PACKET_MAGIC ++ le32 len ++ [0x02, 0] ++ [0, 0])
  let buf := Lib.store buf PACKET_HEADER_SIZE pdata
  let body := Lib.load buf PACKET_HEADER_SIZE (pdata.length + PACKET_HEADER_SIZE)
  Lib.store buf 10 (be16 (crc16Calculate body))

/-- The packet in the buffer. -/
def pdataPacket (buf : ℕ → BitVec 8) (pdata : List (BitVec 8)) : List (BitVec 8) :=
  Lib.load (sendPdata buf pdata) 0 (pdata.length + PACKET_HEADER_SIZE)

/-- What the boot loader is told. -/
inductive LoaderMsg
  | start (addr size : BitVec 32)
  | data (body : List (BitVec 8))
  | exec (addr : BitVec 32)
deriving DecidableEq

/-- A packet by its magic, its length and its type. -/
def decodePacket (p : List (BitVec 8)) : Option LoaderMsg :=
  let word l := BitVec.ofNat 32 (leNat l)
  let body := p.drop PACKET_HEADER_SIZE
  if p.take 4 = le32 PACKET_MAGIC ∧ leNat ((p.drop 4).take 4) = body.length then
    match leNat ((p.drop 8).take 2) with
    | 1 => some (.start (word (body.take 4)) (word (body.drop 4)))
    | 2 => some (.data body)
    | 4 => some (.exec (word body))
    | _ => none
  else none

theorem decodePacket_startDownload (addr len : BitVec 32) :
    decodePacket (startDownload addr len) = some (.start addr len) := by
  have haddr : BitVec.ofNat 32 (leNat (le32 addr)) = addr := by
    rw [leNat_le32, BitVec.ofNat_toNat, BitVec.setWidth_eq]
  have hlen : BitVec.ofNat 32 (leNat (le32 len)) = len := by
    rw [leNat_le32, BitVec.ofNat_toNat, BitVec.setWidth_eq]
  change some (LoaderMsg.start (BitVec.ofNat 32 (leNat (le32 addr)))
    (BitVec.ofNat 32 (leNat (le32 len)))) = _
  rw [haddr, hlen]

theorem decodePacket_commandExec (addr : BitVec 32) :
    decodePacket (commandExec addr) = some (.exec addr) := by
  have haddr : BitVec.ofNat 32 (leNat (le32 addr)) = addr := by
    rw [leNat_le32, BitVec.ofNat_toNat, BitVec.setWidth_eq]
  change some (LoaderMsg.exec (BitVec.ofNat 32 (leNat (le32 addr)))) = _
  rw [haddr]

theorem pdataPacket_eq (buf : ℕ → BitVec 8) (pdata : List (BitVec 8)) :
    ∃ crc : BitVec 16, pdataPacket buf pdata =
      le32 PACKET_MAGIC ++ le32 (BitVec.ofNat 32 pdata.length) ++ [0x02, 0] ++ be16 crc ++
        pdata := by
  unfold pdataPacket sendPdata PACKET_HEADER_SIZE
  dsimp only
  generalize crc16Calculate _ = crc
  refine ⟨crc, ?_⟩
  generalize hhdr : le32 PACKET_MAGIC ++ le32 (BitVec.ofNat 32 pdata.length) ++ [0x02, 0] = hdr
  have hlen : hdr.length = 10 := by
    rw [← hhdr]
    rfl
  have hfront : Lib.load (Lib.store buf 0 (hdr ++ [0, 0])) 0 10 = hdr := by
    have hself := Lib.load_store_self buf 0 (hdr ++ [0, 0])
    rw [List.length_append, hlen, Lib.load_add] at hself
    exact (List.append_inj hself (by simp [hlen])).1
  have hsplit : pdata.length + 12 = 10 + (2 + pdata.length) := by omega
  rw [hsplit, Lib.load_add, Lib.load_add, Nat.zero_add, List.append_assoc,
    Lib.load_store_disjoint (Or.inl (show 0 + 10 ≤ 10 by omega)),
    Lib.load_store_disjoint (Or.inl (show 0 + 10 ≤ 12 by omega)), hfront]
  congr 1
  rw [Lib.load_store_disjoint (Or.inr (show 10 + (be16 crc).length ≤ 10 + 2 from Nat.le_refl _))]
  exact congrArg₂ (· ++ ·) (Lib.load_store_self _ 10 (be16 crc)) (Lib.load_store_self _ 12 pdata)

theorem decodePacket_pdataPacket (buf : ℕ → BitVec 8) {pdata : List (BitVec 8)}
    (h : pdata.length < 2 ^ 32) : decodePacket (pdataPacket buf pdata) = some (.data pdata) := by
  obtain ⟨crc, hp⟩ := pdataPacket_eq buf pdata
  have hsize : leNat (le32 (BitVec.ofNat 32 pdata.length)) = pdata.length := by
    rw [leNat_le32, BitVec.toNat_ofNat, Nat.mod_eq_of_lt h]
  rw [hp]
  unfold decodePacket
  exact if_pos ⟨rfl, hsize⟩

theorem length_pdataPacket (buf : ℕ → BitVec 8) (pdata : List (BitVec 8)) :
    (pdataPacket buf pdata).length = pdata.length + 12 := Lib.length_load ..

abbrev START_ADDR : BitVec 32 := 0x100000

/-- The size of `port->read_buffer`. -/
abbrev READ_BUFFER_SIZE : ℕ := 5120

/-- What a message meets: whether `kzalloc` finds memory, what `usb_bulk_msg` says for the message
and for its answer, how much of the message went out, and the octets of the answer. -/
structure BulkReply where
  alloc : Bool
  writeErr : ℤ
  written : ℕ
  readErr : ℤ
  answer : List (BitVec 8)

def commonAck : List (BitVec 8) := [0x7E, 0x7E, 0x7E, 0x7E, 0, 0, 0, 0, 0x80, 0, 0, 0]

namespace BulkReply

/-- `bulkout_write_timeout`. -/
def writeRet (r : BulkReply) : ℤ := if r.writeErr ≠ 0 then r.writeErr else r.written

/-- `bulkin_read_timeout`. -/
def readRet (r : BulkReply) : ℤ := if r.readErr ≠ 0 then r.readErr else r.answer.length

/-- `dloader_send_command`. The answer is not compared. -/
def sendCommand (r : BulkReply) (len : ℕ) : ℤ :=
  if r.alloc = false then -ENOMEM
  else if r.writeRet < 0 ∨ r.written ≠ len then r.writeRet
  else r.readRet

/-- `dloader_send_data` with `common_ack`. -/
def sendData (r : BulkReply) (len : ℕ) : ℤ :=
  if r.alloc = false then -ENOMEM
  else if r.writeRet < 0 ∨ r.written ≠ len then r.writeRet
  else if r.readRet < 0 ∨ r.answer.length < 12 ∨ r.answer.take 12 ≠ commonAck then - EIO
  else r.readRet

/-- The message has gone out as a whole. -/
def Sent (r : BulkReply) (len : ℕ) : Prop := r.alloc = true ∧ 0 ≤ r.writeRet ∧ r.written = len

instance (r : BulkReply) (len : ℕ) : Decidable (r.Sent len) := inferInstanceAs (Decidable (_ ∧ _))

/-- The result of the function that sends a message. -/
def ret (r : BulkReply) : LoaderMsg → ℤ
  | .start .. => r.sendCommand 20
  | .data body => r.sendData (body.length + PACKET_HEADER_SIZE)
  | .exec _ => r.sendCommand 16

end BulkReply

/-- The length of the packet. -/
def LoaderMsg.len : LoaderMsg → ℕ
  | .start .. => 20
  | .data body => body.length + PACKET_HEADER_SIZE
  | .exec _ => 16

/-- An image of `struct seekwave_device`. -/
structure BootImage where
  addr : BitVec 32
  data : List (BitVec 8)

/-- The number of messages so far, the buffer of the port, the packets that have gone out as a
whole, and whether the buffer was too small for one. -/
structure LoaderRun where
  n : ℕ
  buf : ℕ → BitVec 8
  got : List (List (BitVec 8))
  overrun : Bool

/-- The variables of `usb_download_image`. -/
structure DlImage where
  offset : ℕ
  ret : ℤ
  run : LoaderRun

variable (replies : ℕ → BulkReply) (dlMps : ℤ)

/-- A packet goes out, and is there if all of it does. -/
def LoaderRun.send (s : LoaderRun) (packet : List (BitVec 8)) : LoaderRun :=
  { s with
    n := s.n + 1
    got := if (replies s.n).Sent packet.length then s.got ++ [packet] else s.got }

/-- A pass of the loop of `usb_download_image`. A packet that fills the last transfer of 512 octets
and is not of full length is made again with half of the data. -/
def DlImage.pass (img : List (BitVec 8)) (s : DlImage) : Lib.Pass DlImage :=
  let imgSize := (BitVec.ofNat 32 img.length).toInt
  if imgSize ≤ 0 then .done s
  else
    let tempSize := min dlMps (imgSize - s.offset)
    if tempSize = 0 then .done s
    else if tempSize < 0 ∨ (READ_BUFFER_SIZE : ℤ) < tempSize + 2 * PACKET_HEADER_SIZE then
      .done { s with run := { s.run with overrun := true } }
    else
      let rest := img.drop s.offset
      let k := tempSize.toNat
      let again := (k + PACKET_HEADER_SIZE) % 512 = 0 ∧ tempSize < dlMps
      let buf := if again then sendPdata s.run.buf (rest.take k) else s.run.buf
      let k := if again then k / 2 else k
      let packet := pdataPacket buf (rest.take k)
      let ret := (replies s.run.n).sendData packet.length
      let run := { s.run with buf := sendPdata buf (rest.take k) }.send replies packet
      if ret < 0 then .done ⟨s.offset, ret, run⟩ else .next ⟨s.offset + k, 0, run⟩

/-- `usb_download_image`. -/
def usbDownloadImage (img : BootImage) (fuel : ℕ) (s : LoaderRun) : Option (ℤ × LoaderRun) :=
  let ret := (replies s.n).sendCommand 20
  let s := s.send replies (startDownload img.addr (BitVec.ofNat 32 img.data.length))
  if ret < 0 then some (ret, s)
  else (Lib.loop (DlImage.pass replies dlMps img.data) fuel ⟨0, 0, s⟩).map fun t => (t.ret, t.run)

/-- `dloader_execute_image`. -/
def dloaderExecuteImage (addr : BitVec 32) (s : LoaderRun) : ℤ × LoaderRun :=
  let ret := (replies s.n).sendCommand 16
  (if ret < 0 then ret else 0, s.send replies (commandExec addr))

/-- `dloader_work` behind the connection, with `ret` at its end. -/
def dloaderWork (dram iram : BootImage) (fuel : ℕ) (s : LoaderRun) : Option (ℤ × LoaderRun) := do
  let (ret, s) ←
    if 0 < (BitVec.ofNat 32 dram.data.length).toNat then usbDownloadImage replies dlMps dram fuel s
    else some (0, s)
  let (ret, s) ←
    if ret = 0 ∧ 0 < (BitVec.ofNat 32 iram.data.length).toNat then
      usbDownloadImage replies dlMps iram fuel s
    else some (ret, s)
  if ret = 0 then some (dloaderExecuteImage replies START_ADDR s) else some (ret, s)

/-- What the boot loader has of an image. -/
structure RomSegment where
  addr : BitVec 32
  size : BitVec 32
  data : List (BitVec 8)
deriving DecidableEq

/-- The boot loader: its images, the last one first, and where it has begun to run. -/
structure Rom where
  segments : List RomSegment
  running : Option (BitVec 32)
deriving DecidableEq

namespace Rom

def empty : Rom := ⟨[], none⟩

def receive (rom : Rom) : LoaderMsg → Rom
  | .start addr size => { rom with segments := ⟨addr, size, []⟩ :: rom.segments }
  | .data body =>
    match rom.segments with
    | [] => rom
    | x :: xs => { rom with segments := { x with data := x.data ++ body } :: xs }
  | .exec addr => { rom with running := some addr }

/-- Both images are there, and run. -/
def loaded (dram iram : BootImage) : Rom where
  segments :=
    [⟨iram.addr, BitVec.ofNat 32 iram.data.length, iram.data⟩,
      ⟨dram.addr, BitVec.ofNat 32 dram.data.length, dram.data⟩]
  running := some START_ADDR

end Rom

/-- What the packets that went out make of the boot loader. -/
def LoaderRun.rom (s : LoaderRun) : Rom := (s.got.filterMap decodePacket).foldl Rom.receive .empty

/-- The length of the next piece when `n` octets are left. -/
def pieceLen (mps n : ℕ) : ℕ :=
  let k := min n mps
  if (k + PACKET_HEADER_SIZE) % 512 = 0 ∧ k < mps then k / 2 else k

/-- The messages of an image. -/
def imageMsgs (mps : ℕ) (img : BootImage) : List LoaderMsg :=
  .start img.addr (BitVec.ofNat 32 img.data.length) ::
    (Lib.pieces (pieceLen mps) img.data).map .data

/-- The messages of a start. -/
def loaderMsgs (mps : ℕ) (dram iram : BootImage) : List LoaderMsg :=
  imageMsgs mps dram ++ imageMsgs mps iram ++ [.exec START_ADDR]

/-- Messages that are sent one after the other up to the first one that fails: whether one does,
how many there were before, and those that have gone out. -/
structure MsgRun where
  failed : Bool
  n : ℕ
  out : List LoaderMsg

def runMsgs (n : ℕ) : List LoaderMsg → MsgRun
  | [] => ⟨false, n, []⟩
  | m :: ms =>
    let here := if (replies n).Sent m.len then [m] else []
    if (replies n).ret m < 0 then ⟨true, n + 1, here⟩
    else
      let r := runMsgs (n + 1) ms
      { r with out := here ++ r.out }

variable {replies : ℕ → BulkReply} {dlMps : ℤ}

theorem cuts_pieceLen {mps : ℕ} (h : 0 < mps) : Lib.Cuts (pieceLen mps) := by
  intro n hn
  unfold pieceLen PACKET_HEADER_SIZE
  dsimp only
  split_ifs with hc <;> omega

theorem runMsgs_append (replies : ℕ → BulkReply) (n : ℕ) (ms ms' : List LoaderMsg) :
    runMsgs replies n (ms ++ ms') =
      let r := runMsgs replies n ms
      if r.failed then r
      else { runMsgs replies r.n ms' with out := r.out ++ (runMsgs replies r.n ms').out } := by
  induction ms generalizing n with
  | nil => rfl
  | cons m ms ih =>
    rw [List.cons_append, runMsgs, runMsgs]
    dsimp only
    by_cases hr : (replies n).ret m < 0
    · rw [if_pos hr, if_pos hr, if_pos rfl]
    · rw [if_neg hr, if_neg hr, ih]
      dsimp only
      by_cases hf : (runMsgs replies (n + 1) ms).failed = true
      · rw [if_pos hf, if_pos hf]
      · rw [if_neg hf, if_neg hf, List.append_assoc]

/-- A call has sent these messages, and its result says whether one of them failed. -/
structure LoaderRun.Follows (replies : ℕ → BulkReply) (s t : LoaderRun) (ret : ℤ)
    (ms : List LoaderMsg) : Prop where
  n : t.n = (runMsgs replies s.n ms).n
  got : ∃ ps, t.got = s.got ++ ps ∧
    ps.map decodePacket = (runMsgs replies s.n ms).out.map some
  ret : ret ≤ 0 ∧ (ret < 0 ↔ (runMsgs replies s.n ms).failed = true)
  overrun : t.overrun = s.overrun

namespace LoaderRun
variable {s t u : LoaderRun} {r r' : ℤ} {m : LoaderMsg} {ms ms' : List LoaderMsg}
  {packet : List (BitVec 8)}

theorem follows_nil (s : LoaderRun) : s.Follows replies s 0 [] where
  n := rfl
  got := ⟨[], (List.append_nil _).symm, rfl⟩
  ret := ⟨le_refl _, by simp [runMsgs]⟩
  overrun := rfl

/-- A packet that carries a message, sent from a state that has the same history. -/
theorem follows_send (replies : ℕ → BulkReply) (hd : decodePacket packet = some m)
    (hl : packet.length = m.len) (hn : t.n = s.n) (hg : t.got = s.got)
    (ho : t.overrun = s.overrun) (hret : r ≤ 0) (hneg : r < 0 ↔ (replies s.n).ret m < 0) :
    s.Follows replies (t.send replies packet) r [m] := by
  have hrun : runMsgs replies s.n [m] =
      ⟨decide ((replies s.n).ret m < 0), s.n + 1,
        if (replies s.n).Sent m.len then [m] else []⟩ := by
    rw [runMsgs]
    dsimp only
    by_cases hr : (replies s.n).ret m < 0
    · rw [if_pos hr, decide_eq_true hr]
    · rw [if_neg hr, decide_eq_false hr, runMsgs, List.append_nil]
  refine ⟨?_, ?_, ⟨hret, ?_⟩, ho⟩
  · rw [hrun, send, hn]
  · rw [hrun, send, hn, hg, hl]
    dsimp only
    by_cases hs : (replies s.n).Sent m.len
    · rw [if_pos hs, if_pos hs]
      exact ⟨[packet], rfl, by rw [List.map_singleton, hd, List.map_singleton]⟩
    · rw [if_neg hs, if_neg hs]
      exact ⟨[], (List.append_nil _).symm, rfl⟩
  · rw [hrun, hneg, decide_eq_true_iff]

theorem Follows.trans (h : s.Follows replies t r ms) (hret : ¬r < 0)
    (h' : t.Follows replies u r' ms') : s.Follows replies u r' (ms ++ ms') := by
  obtain ⟨ps, hps, hmap⟩ := h.got
  obtain ⟨ps', hps', hmap'⟩ := h'.got
  have hok : ¬(runMsgs replies s.n ms).failed = true := mt h.ret.2.mpr hret
  have hrun := runMsgs_append replies s.n ms ms'
  rw [if_neg hok, ← h.n] at hrun
  refine ⟨?_, ⟨ps ++ ps', ?_, ?_⟩, ⟨h'.ret.1, ?_⟩, h'.overrun.trans h.overrun⟩
  · rw [hrun, h'.n]
  · rw [hps', hps, List.append_assoc]
  · rw [hrun, List.map_append, List.map_append, hmap, hmap']
  · rw [hrun, h'.ret.2]

/-- After a message that fails no more are sent. -/
theorem Follows.stop (h : s.Follows replies t r ms) (hret : r < 0) :
    s.Follows replies t r (ms ++ ms') := by
  have hrun := runMsgs_append replies s.n ms ms'
  rw [if_pos (h.ret.2.mp hret)] at hrun
  refine ⟨?_, ?_, ⟨h.ret.1, ?_⟩, h.overrun⟩
  · rw [hrun, h.n]
  · rw [hrun]
    exact h.got
  · rw [hrun]
    exact h.ret.2

end LoaderRun

theorem toInt_length {img : List (BitVec 8)} (h : img.length < 2 ^ 31) :
    (BitVec.ofNat 32 img.length).toInt = img.length := by
  have hn : (BitVec.ofNat 32 img.length).toNat = img.length := by
    rw [BitVec.toNat_ofNat]
    omega
  rw [BitVec.toInt_eq_toNat_of_lt (by omega), hn]

namespace DlImage
variable {mps : ℕ} {img : List (BitVec 8)} {s : DlImage}

/-- The messages that are left behind an offset. -/
def left (mps : ℕ) (img : List (BitVec 8)) (offset : ℕ) : List LoaderMsg :=
  (Lib.pieces (pieceLen mps) (img.drop offset)).map .data

/-- A pass with something left sends the next piece. -/
theorem pass_of_lt (replies : ℕ → BulkReply) (hmps : 0 < mps) (hfit : mps + 24 ≤ 5120)
    (himg : img.length < 2 ^ 31) (hs : s.offset < img.length) :
    ∃ buf, s.pass replies mps img =
      let body := (img.drop s.offset).take (pieceLen mps (img.length - s.offset))
      let ret := (replies s.run.n).ret (.data body)
      let run := { s.run with buf := sendPdata buf body }.send replies (pdataPacket buf body)
      if ret < 0 then .done ⟨s.offset, ret, run⟩
      else .next ⟨s.offset + pieceLen mps (img.length - s.offset), 0, run⟩ := by
  have htemp : min (mps : ℤ) (img.length - s.offset) = (min (img.length - s.offset) mps : ℕ) := by
    omega
  have hagain : ((min (img.length - s.offset) mps + 12) % 512 = 0 ∧
      ((min (img.length - s.offset) mps : ℕ) : ℤ) < mps) ↔
      (min (img.length - s.offset) mps + 12) % 512 = 0 ∧
        min (img.length - s.offset) mps < mps := by
    rw [Int.ofNat_lt]
  unfold pass READ_BUFFER_SIZE pieceLen BulkReply.ret PACKET_HEADER_SIZE
  rw [toInt_length himg]
  dsimp only
  rw [htemp, if_neg (by omega), if_neg (by omega), if_neg (by omega), Int.toNat_natCast]
  simp only [hagain, length_pdataPacket]
  exact ⟨_, rfl⟩

theorem pass_of_eq (himg : img.length < 2 ^ 31) (hs : s.offset = img.length) :
    s.pass replies mps img = .done s := by
  unfold pass
  rw [toInt_length himg]
  dsimp only
  by_cases hz : (img.length : ℤ) ≤ 0
  · rw [if_pos hz]
  · rw [if_neg hz, if_pos (by omega)]

/-- The loop is left, and has sent the pieces of what was left of the image. -/
theorem loop_follows (replies : ℕ → BulkReply) (hmps : 0 < mps)
    (hfit : mps + 24 ≤ 5120) (himg : img.length < 2 ^ 31) (s : DlImage) {fuel : ℕ}
    (hs : s.offset ≤ img.length) (hret : s.ret = 0) (hfuel : img.length - s.offset < fuel) :
    ∃ t, Lib.loop (DlImage.pass replies mps img) fuel s = some t ∧
      s.run.Follows replies t.run t.ret (left mps img s.offset) := by
  induction fuel generalizing s with
  | zero => omega
  | succ fuel ih =>
    rw [Lib.loop]
    rcases Nat.lt_or_eq_of_le hs with hlt | heq
    · obtain ⟨buf, hp⟩ := pass_of_lt replies hmps hfit himg hlt
      have hrest : (img.drop s.offset).length = img.length - s.offset := List.length_drop
      have hne : img.drop s.offset ≠ [] := by
        rw [← List.length_pos_iff]
        omega
      have hcut := cuts_pieceLen hmps (img.length - s.offset) (by omega)
      have hpieces := Lib.pieces_of_ne_nil (cuts_pieceLen hmps) hne
      rw [hrest, List.drop_drop] at hpieces
      rw [hp]
      dsimp only
      generalize hbody : (img.drop s.offset).take (pieceLen mps (img.length - s.offset)) = body
        at hpieces
      have hlen : body.length < 2 ^ 32 := by
        rw [← hbody, List.length_take]
        omega
      have hleft : left mps img s.offset =
          [.data body] ++ left mps img (s.offset + pieceLen mps (img.length - s.offset)) := by
        unfold left
        rw [hpieces]
        rfl
      have hsend (ret : ℤ) := LoaderRun.follows_send replies (s := s.run)
        (t := { s.run with buf := sendPdata buf body }) (r := ret)
        (decodePacket_pdataPacket buf hlen) (length_pdataPacket buf body) rfl rfl rfl
      rw [hleft]
      by_cases hr : (replies s.run.n).ret (.data body) < 0
      · rw [if_pos hr]
        exact ⟨_, rfl, (hsend _ hr.le Iff.rfl).stop hr⟩
      · rw [if_neg hr]
        have hfirst := hsend 0 (le_refl _) (iff_of_false (lt_irrefl _) hr)
        obtain ⟨t, ht, hfollows⟩ := ih
          ⟨s.offset + pieceLen mps (img.length - s.offset), 0,
            { s.run with buf := sendPdata buf body }.send replies (pdataPacket buf body)⟩
          (by dsimp only; omega) rfl (by dsimp only; omega)
        exact ⟨t, ht, hfirst.trans (lt_irrefl _) hfollows⟩
    · rw [pass_of_eq himg heq]
      have hnil : left mps img s.offset = [] := by
        unfold left
        rw [heq, List.drop_length]
        rfl
      rw [hnil]
      exact ⟨s, rfl, hret ▸ s.run.follows_nil⟩

end DlImage

theorem usbDownloadImage_follows (replies : ℕ → BulkReply) {mps : ℕ} (hmps : 0 < mps)
    (hfit : mps + 24 ≤ 5120) {img : BootImage} (himg : img.data.length < 2 ^ 31) {fuel : ℕ}
    (hfuel : img.data.length < fuel) (s : LoaderRun) :
    ∃ ret t, usbDownloadImage replies mps img fuel s = some (ret, t) ∧
      s.Follows replies t ret (imageMsgs mps img) := by
  have hstart (ret : ℤ) := LoaderRun.follows_send replies (s := s) (t := s) (r := ret)
    (decodePacket_startDownload img.addr (BitVec.ofNat 32 img.data.length)) rfl rfl rfl rfl
  unfold usbDownloadImage
  dsimp only
  by_cases hr : (replies s.n).sendCommand 20 < 0
  · rw [if_pos hr]
    exact ⟨_, _, rfl, (hstart _ hr.le Iff.rfl).stop hr⟩
  · rw [if_neg hr]
    obtain ⟨t, ht, hfollows⟩ := DlImage.loop_follows replies hmps hfit himg
      ⟨0, 0, s.send replies (startDownload img.addr (BitVec.ofNat 32 img.data.length))⟩
      (Nat.zero_le _) rfl hfuel
    rw [ht]
    have hfirst := hstart 0 (le_refl _) (iff_of_false (lt_irrefl _) hr)
    exact ⟨_, _, rfl, hfirst.trans (lt_irrefl _) hfollows⟩

theorem dloaderExecuteImage_follows (replies : ℕ → BulkReply) (addr : BitVec 32) (s : LoaderRun) :
    s.Follows replies (dloaderExecuteImage replies addr s).2 (dloaderExecuteImage replies addr s).1
      [.exec addr] := by
  apply LoaderRun.follows_send replies (decodePacket_commandExec addr) rfl rfl rfl rfl
  · unfold dloaderExecuteImage
    dsimp only
    split_ifs <;> omega
  · unfold dloaderExecuteImage
    change _ ↔ (replies s.n).sendCommand 16 < 0
    dsimp only
    split_ifs with hneg
    · exact Iff.rfl
    · exact iff_of_false (lt_irrefl _) hneg

theorem BootImage.size_pos {img : BootImage} (hlt : img.data.length < 2 ^ 31)
    (hne : img.data ≠ []) : 0 < (BitVec.ofNat 32 img.data.length).toNat := by
  have := List.length_pos_iff.mpr hne
  rw [BitVec.toNat_ofNat]
  omega

/-- The whole start is one row of messages. -/
theorem dloaderWork_follows (replies : ℕ → BulkReply) {mps : ℕ} (hmps : 0 < mps)
    (hfit : mps + 24 ≤ 5120) {dram iram : BootImage} (hdram : dram.data.length < 2 ^ 31)
    (hiram : iram.data.length < 2 ^ 31) (hd : dram.data ≠ []) (hi : iram.data ≠ []) {fuel : ℕ}
    (hdf : dram.data.length < fuel) (hif : iram.data.length < fuel) (s : LoaderRun) :
    ∃ ret t, dloaderWork replies mps dram iram fuel s = some (ret, t) ∧
      s.Follows replies t ret (loaderMsgs mps dram iram) := by
  obtain ⟨r₁, t₁, h₁, hf₁⟩ := usbDownloadImage_follows replies hmps hfit hdram hdf s
  obtain ⟨r₂, t₂, h₂, hf₂⟩ := usbDownloadImage_follows replies hmps hfit hiram hif t₁
  have hle₁ := hf₁.ret.1
  have hle₂ := hf₂.ret.1
  unfold dloaderWork loaderMsgs
  rw [if_pos (BootImage.size_pos hdram hd), h₁, Option.bind_eq_bind, Option.bind_some]
  dsimp only
  by_cases hr₁ : r₁ = 0
  · rw [if_pos ⟨hr₁, BootImage.size_pos hiram hi⟩, h₂, Option.bind_some]
    dsimp only
    have hboth := hf₁.trans (by omega) hf₂
    by_cases hr₂ : r₂ = 0
    · rw [if_pos hr₂]
      exact ⟨_, _, rfl, hboth.trans (by omega) (dloaderExecuteImage_follows replies START_ADDR t₂)⟩
    · rw [if_neg hr₂]
      exact ⟨_, _, rfl, hboth.stop (by omega)⟩
  · rw [if_neg (fun h => hr₁ h.1), Option.bind_some]
    dsimp only
    rw [if_neg hr₁, List.append_assoc]
    exact ⟨_, _, rfl, hf₁.stop (by omega)⟩

end Skw
