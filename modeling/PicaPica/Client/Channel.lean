import PicaPica.Proto
import PicaPica.Lib.Area

/-!
# A client-to-client channel (`PICA_client.c`)

The buffers of `struct PICA_c2c` and the functions that move bytes through them.
Messages are appended to one growing write buffer, which `PICA_write_c2c` hands to
`SSL_write`.  A write that must be retried is repeated with the same number of
bytes (`write_sslbytestowrite`), whatever has been appended since.

When a direct connection to the peer is up, `PICA_send_directc2c_switch` appends the
last message for the connection through the node and remembers its end as a
barrier in the same buffer.  The part in front of the barrier still goes through
the node, the part behind it goes over the direct connection.

Positions and lengths are `unsigned int`; `SSL_write` takes an `int`.
-/

namespace PicaPica
namespace Client

open Area

/-- `PICA_CHANREADBUFSIZE`, `PICA_CHANWRITEBUFSIZE`. -/
def chanReadBufSize : Nat := 65536
def chanWriteBufSize : Nat := 4096

/-- Number of values an `int` has from 0 on. -/
def intMod : Nat := 2147483648

/-- `enum PICA_c2c_state`. -/
inductive C2cState
  | new
  | connecting
  | waitingAnonTls
  | connid
  | waitingAnonTlsShutdown
  | waitingTls
  | waitingRep
  | waitingC2cProtoVer
  | active
deriving DecidableEq

/-- `enum PICA_directc2c_state`. -/
inductive DirectState
  | inactive
  | connecting
  | failedToConnect
  | waitingIncoming
  | active
deriving DecidableEq

/-- `enum PICA_directc2c_config`. -/
inductive DirectConfig
  | disabled
  | connectOnly
  | allowIncoming
deriving DecidableEq

/-- Return values of the client library that occur below. -/
inductive Code
  | ok
  | errMsgSize
  | errNoMem
  | errSsl
  | errServ
deriving DecidableEq

/-- The part of `struct PICA_c2c` that carries messages.  `write_buflen` is the
length of `writeBuf`. -/
structure C2c where
  state : C2cState
  directState : DirectState
  /-- `conn->directc2c_config` -/
  config : DirectConfig
  readBuf : List UInt8
  readPos : Nat
  writeBuf : Option (List UInt8)
  writePos : Nat
  /-- `write_sslbytestowrite` -/
  btw : Nat
  /-- `directc2c_write_barrier_pos` -/
  barrier : Nat
  /-- `directc2c_write_before_barrier_pos` -/
  before : Nat
  switchedWrite : Bool
  switchedRead : Bool
  disconnectOnEmptyWriteBuf : Bool
deriving DecidableEq

/-- What the allocator answers during one call. -/
structure Memory where
  calloc : Bool
  realloc : Bool
deriving DecidableEq

def Memory.enough : Memory := ⟨true, true⟩

namespace C2c

/-- The buffer behind `write_buf`, which is allocated on first use. -/
def writeBuffer (chn : C2c) (mem : Memory) : Option (List UInt8) :=
  match chn.writeBuf with
  | some b => some b
  | none => if mem.calloc then some (List.replicate chanWriteBufSize 0) else none

/-- Append a message to the buffer `b`, which has room for it. -/
def append (chn : C2c) (b : List UInt8) (f : Frame) : C2c :=
  { chn with
    writeBuf := some (writeAt b chn.writePos f)
    writePos := uadd chn.writePos f.length }

end C2c

/-- `c2c_writebuf_push` together with the caller filling in the message: the
channel, and whether a message could be placed.  There is no result when the
message does not lie within the buffer: `size + write_pos` has wrapped around and
`realloc` has made the buffer smaller (or freed it). -/
def c2cWritebufPush (mem : Memory) (chn : C2c) (f : Frame) : Option (C2c × Bool) :=
  match chn.writeBuffer mem with
  | none => some (chn, false)
  | some b =>
      if usub b.length chn.writePos < f.length then
        let n := uadd f.length chn.writePos
        if mem.realloc then
          if n < chn.writePos + f.length then none
          else some (chn.append (b ++ List.replicate (n - b.length) 0) f, true)
        else some ({ chn with writeBuf := some b }, false)
      else if b.length < chn.writePos + f.length then none
      else some (chn.append b f, true)

/-- A text message as `PICA_send_msg` writes it. -/
def msgFrame (m : List UInt8) : Frame :=
  head Proto.MSGUTF8 ++ le16 m.length ++ m

/-- `PICA_send_msg`. -/
def sendMsg (mem : Memory) (chn : C2c) (m : List UInt8) : Option (C2c × Code) :=
  if Proto.C2CMSG_MAXDATASIZE < m.length then some (chn, .errMsgSize)
  else
    (c2cWritebufPush mem chn (msgFrame m)).map fun r =>
      (r.1, if r.2 then .ok else .errNoMem)

/-- A message that consists of its header and two random bytes. -/
def shortFrame (msgid : Nat) (r₀ r₁ : UInt8) : Frame :=
  head msgid ++ [r₀, r₁]

/-- `PICA_send_directc2c_switch`. -/
def sendDirectc2cSwitch (mem : Memory) (chn : C2c) (r₀ r₁ : UInt8) : Option (C2c × Code) :=
  (c2cWritebufPush mem chn (shortFrame Proto.DIRECTC2C_SWITCH r₀ r₁)).map fun r =>
    if r.2 then ({ r.1 with barrier := r.1.writePos }, .ok) else (r.1, .errNoMem)

/-- What `SSL_write` does.  Partial writes are not enabled: it takes everything, or
asks to be called again with the same arguments, or fails. -/
inductive SslWrite
  | all
  | retry
  | closed
  | error
deriving DecidableEq

/-- `SSL_write` for `n` bytes: its argument is an `int`, and a negative one is an
error. -/
def SslWrite.on (r : SslWrite) (n : Nat) : SslWrite :=
  if n < intMod then r else .error

/-- Buffer and positions after `PICA_write_ssl`, its result, and the bytes that
`SSL_write` took. -/
structure SslWritten where
  buf : List UInt8
  pos : Nat
  btw : Nat
  ret : Code
  took : List UInt8

/-- `PICA_write_ssl`. -/
def writeSsl (r : SslWrite) (buf : List UInt8) (pos btw : Nat) : SslWritten :=
  if pos = 0 then ⟨buf, pos, btw, .ok, []⟩
  else
    let n := if btw = 0 then pos else btw
    match r.on n with
    | .all =>
        ⟨if n < pos then moveDown buf n (pos - n) else buf, usub pos n, 0, .ok, buf.take n⟩
    | .retry => ⟨buf, pos, n, .ok, []⟩
    | .closed => ⟨buf, pos, n, .errServ, []⟩
    | .error => ⟨buf, pos, n, .errSsl, []⟩

/-- The channel after `PICA_write_c2c`, its result, the bytes given to the
connection through the node and to the direct connection, and whether the channel
has been closed. -/
structure C2cWritten where
  chn : C2c
  ret : Code
  node : List UInt8
  direct : List UInt8
  closed : Bool

/-- The write of `PICA_write_c2c` while the switch message is in the buffer. -/
def writeBeforeBarrier (r : SslWrite) (chn : C2c) : C2c × Code × List UInt8 :=
  let before := if chn.before = 0 then chn.barrier else chn.before
  let w := writeSsl r (chn.writeBuf.getD []) before chn.btw
  if w.ret = .ok ∧ w.pos = 0 then
    let rest := usub chn.writePos chn.barrier
    ({ chn with
        writeBuf := chn.writeBuf.map fun _ => moveDown w.buf chn.barrier rest
        writePos := rest
        btw := w.btw
        before := 0
        barrier := 0
        switchedWrite := true }, w.ret, w.took)
  else
    ({ chn with
        writeBuf := chn.writeBuf.map fun _ => w.buf
        btw := w.btw
        before := w.pos }, w.ret, w.took)

/-- The write of `PICA_write_c2c` without a barrier. -/
def writePlain (r : SslWrite) (chn : C2c) : C2c × Code × List UInt8 :=
  let w := writeSsl r (chn.writeBuf.getD []) chn.writePos chn.btw
  ({ chn with
      writeBuf := chn.writeBuf.map fun _ => w.buf
      writePos := w.pos
      btw := w.btw }, w.ret, w.took)

/-- `PICA_write_c2c`; in other states the program exits. -/
def writeC2c (r : SslWrite) (chn : C2c) : Option C2cWritten :=
  if chn.state = .active ∨ chn.state = .connid ∨ chn.state = .waitingRep then
    let w := if chn.barrier ≠ 0 then writeBeforeBarrier r chn else writePlain r chn
    let overNode := chn.barrier ≠ 0 ∨ chn.switchedWrite = false
    some {
      chn := w.1
      ret := w.2.1
      node := if overNode then w.2.2 else []
      direct := if overNode then [] else w.2.2
      closed := w.1.disconnectOnEmptyWriteBuf && w.1.writePos == 0 }
  else none

/-- What `SSL_read` finds: bytes, nothing yet, or the end of the connection. -/
inductive SslRead
  | data (bytes : List UInt8)
  | retry
  | closed
  | error
deriving DecidableEq

/-- `PICA_read_ssl`: buffer, position and result.  A read of no bytes at all, also
because the buffer is full, is an error. -/
def readSsl (r : SslRead) (buf : List UInt8) (pos size : Nat) : List UInt8 × Nat × Code :=
  if size ≤ pos then (buf, pos, .errSsl)
  else
    match r with
    | .data bytes =>
        let got := bytes.take (size - pos)
        if got = [] then (buf, pos, .errSsl)
        else (writeAt buf pos got, pos + got.length, .ok)
    | .retry => (buf, pos, .ok)
    | .closed => (buf, pos, .errSsl)
    | .error => (buf, pos, .errSsl)

namespace C2c

/-- An open channel: nothing buffered, no direct connection yet. -/
def opened (directState : DirectState) (config : DirectConfig) : C2c where
  state := .active
  directState := directState
  config := config
  readBuf := List.replicate chanReadBufSize 0
  readPos := 0
  writeBuf := none
  writePos := 0
  btw := 0
  barrier := 0
  before := 0
  switchedWrite := false
  switchedRead := false
  disconnectOnEmptyWriteBuf := false

/-- The bytes waiting in the write buffer. -/
def queued (chn : C2c) : List UInt8 :=
  (chn.writeBuf.getD []).take chn.writePos

/-- How many of them are for the connection through the node. -/
def nodeEnd (chn : C2c) : Nat :=
  if chn.barrier ≠ 0 then (if chn.before = 0 then chn.barrier else chn.before)
  else if chn.switchedWrite then 0
  else chn.writePos

/-- Where those for the direct connection start. -/
def directStart (chn : C2c) : Nat :=
  if chn.barrier ≠ 0 then chn.barrier
  else if chn.switchedWrite then 0
  else chn.writePos

/-- The bytes still to be written through the node. -/
def toNode (chn : C2c) : List UInt8 :=
  (chn.writeBuf.getD []).take chn.nodeEnd

/-- The bytes still to be written over the direct connection. -/
def toDirect (chn : C2c) : List UInt8 :=
  chn.queued.drop chn.directStart

/-- How many bytes the next `SSL_write` is offered. -/
def offered (chn : C2c) : Nat :=
  if chn.btw = 0 then (if chn.barrier ≠ 0 then chn.nodeEnd else chn.writePos) else chn.btw

/-- Messages pushed from now on go over the direct connection. -/
def Diverted (chn : C2c) : Prop :=
  chn.barrier ≠ 0 ∨ chn.switchedWrite = true

instance (chn : C2c) : Decidable chn.Diverted :=
  inferInstanceAs (Decidable (_ ∨ _))

/-- The positions of the write buffer fit together. -/
structure WriteOk (chn : C2c) : Prop where
  pos_le : chn.writePos ≤ (chn.writeBuf.getD []).length
  len_lt : (chn.writeBuf.getD []).length < uintMod
  barrier_le : chn.barrier ≤ chn.writePos
  before_le : chn.before ≤ chn.barrier
  no_barrier : chn.switchedWrite = true → chn.barrier = 0
  btw_le : chn.btw ≤ if chn.barrier ≠ 0 then chn.nodeEnd else chn.writePos
  btw_lt : chn.btw < intMod

/-- The fields a write or a push does not touch. -/
structure Kept (chn t : C2c) : Prop where
  state : t.state = chn.state
  directState : t.directState = chn.directState
  config : t.config = chn.config
  readBuf : t.readBuf = chn.readBuf
  readPos : t.readPos = chn.readPos
  switchedRead : t.switchedRead = chn.switchedRead
  disconnect : t.disconnectOnEmptyWriteBuf = chn.disconnectOnEmptyWriteBuf

theorem opened_writeOk (d : DirectState) (c : DirectConfig) : (opened d c).WriteOk where
  pos_le := Nat.le_refl _
  len_lt := show 0 < uintMod by decide
  barrier_le := Nat.le_refl _
  before_le := Nat.le_refl _
  no_barrier := fun h => by cases h
  btw_le := Nat.le_refl _
  btw_lt := show 0 < intMod by decide

theorem WriteOk.length_queued {chn : C2c} (h : chn.WriteOk) :
    chn.queued.length = chn.writePos := by
  rw [queued, List.length_take, Nat.min_eq_left h.pos_le]

theorem WriteOk.drop_queued {chn : C2c} (h : chn.WriteOk) :
    chn.queued.drop chn.writePos = [] :=
  List.drop_eq_nil_of_le (Nat.le_of_eq h.length_queued)

end C2c

section Push

variable {chn t : C2c} {f : Frame}

/-- A message that fits into an `unsigned int` is appended to the waiting bytes. -/
theorem c2cWritebufPush_eq
    (h : chn.WriteOk) (hroom : chn.writePos + f.length < uintMod) :
    ∃ b, c2cWritebufPush .enough chn f =
        some ({ chn with writeBuf := some b, writePos := chn.writePos + f.length }, true) ∧
      b.take (chn.writePos + f.length) = chn.queued ++ f ∧
      chn.writePos + f.length ≤ b.length ∧ b.length < uintMod := by
  obtain ⟨b, hb, hqueued, hpos, hlen⟩ :
      ∃ b, chn.writeBuffer .enough = some b ∧ b.take chn.writePos = chn.queued ∧
        chn.writePos ≤ b.length ∧ b.length < uintMod := by
    have hpos := h.pos_le
    have hlen := h.len_lt
    rw [C2c.writeBuffer, C2c.queued]
    cases hbuf : chn.writeBuf with
    | none =>
        rw [hbuf] at hpos
        have hzero : chn.writePos = 0 := Nat.le_zero.mp hpos
        refine ⟨_, rfl, ?_, ?_, ?_⟩
        · simp [hzero]
        · rw [hzero]
          exact Nat.zero_le _
        · rw [List.length_replicate]
          decide
    | some b =>
        rw [hbuf] at hpos hlen
        exact ⟨b, rfl, rfl, hpos, hlen⟩
  rw [c2cWritebufPush, hb]
  simp only [usub_eq hpos, uadd_eq (show f.length + chn.writePos < uintMod by omega),
    Memory.enough, if_true]
  by_cases hgrow : b.length - chn.writePos < f.length
  · rw [if_pos hgrow, if_neg (by omega)]
    have hlong : chn.writePos + f.length ≤
        (b ++ List.replicate (f.length + chn.writePos - b.length) (0 : UInt8)).length := by
      rw [List.length_append, List.length_replicate]
      omega
    refine ⟨_, by rw [C2c.append, uadd_eq hroom], ?_, ?_, ?_⟩
    · rw [take_writeAt f hlong, List.take_append_of_le_length hpos, hqueued]
    · rw [length_writeAt] <;> simp only [List.length_append, List.length_replicate] <;> omega
    · rw [length_writeAt] <;> simp only [List.length_append, List.length_replicate] <;> omega
  · rw [if_neg hgrow, if_neg (by omega)]
    refine ⟨_, by rw [C2c.append, uadd_eq hroom], ?_, ?_, ?_⟩
    · rw [take_writeAt f (by omega), hqueued]
    · rw [length_writeAt]
      omega
    · rw [length_writeAt]
      exact hlen

/-- A message whose end is beyond the range of `unsigned int` is written outside
the buffer. -/
theorem c2cWritebufPush_overflow
    (h : chn.WriteOk) (hbuf : chn.writeBuf ≠ none)
    (hover : uintMod ≤ chn.writePos + f.length) :
    c2cWritebufPush .enough chn f = none := by
  obtain ⟨b, hb⟩ := Option.ne_none_iff_exists'.mp hbuf
  have hpos := h.pos_le
  have hlen := h.len_lt
  rw [hb] at hpos hlen
  simp only [Option.getD_some] at hpos hlen
  have hwrap : uadd f.length chn.writePos = f.length + chn.writePos - uintMod :=
    if_neg (by omega)
  have hmod : 0 < uintMod := by decide
  rw [c2cWritebufPush, C2c.writeBuffer, hb]
  simp only [usub_eq hpos, hwrap, Memory.enough, if_true]
  rw [if_pos (by omega), if_pos (by omega)]

/-- What a successful push does to the two parts of the write buffer. -/
structure Pushed (chn : C2c) (f : Frame) (t : C2c) : Prop where
  writeOk : t.WriteOk
  kept : C2c.Kept chn t
  diverted : t.Diverted ↔ chn.Diverted
  writePos : t.writePos = chn.writePos + f.length
  writeBuf : t.writeBuf ≠ none
  toNode : t.toNode = if chn.Diverted then chn.toNode else chn.toNode ++ f
  toDirect : t.toDirect = if chn.Diverted then chn.toDirect ++ f else []

theorem c2cWritebufPush_spec
    (h : chn.WriteOk) (hroom : chn.writePos + f.length < uintMod) :
    ∃ t, c2cWritebufPush .enough chn f = some (t, true) ∧ Pushed chn f t ∧
      t.barrier = chn.barrier := by
  obtain ⟨b, heq, htake, hlong, hlen⟩ := c2cWritebufPush_eq h hroom
  refine ⟨_, heq, ⟨?_, ⟨rfl, rfl, rfl, rfl, rfl, rfl, rfl⟩, Iff.rfl, rfl, nofun, ?_, ?_⟩, rfl⟩
  · refine ⟨hlong, hlen, Nat.le_trans h.barrier_le (Nat.le_add_right _ _), h.before_le,
      h.no_barrier, ?_, h.btw_lt⟩
    have hbtw := h.btw_le
    simp only [C2c.nodeEnd] at hbtw ⊢
    split_ifs at hbtw ⊢ <;> omega
  · -- the part in front of the barrier keeps its bytes
    have hfront : ∀ k ≤ chn.writePos, b.take k = (chn.writeBuf.getD []).take k := by
      intro k hk
      have hqueued : (b.take (chn.writePos + f.length)).take k = (chn.queued ++ f).take k := by
        rw [htake]
      have hlenq := h.length_queued
      rw [List.take_take, Nat.min_eq_left (by omega),
        List.take_append_of_le_length (by omega), C2c.queued, List.take_take,
        Nat.min_eq_left hk] at hqueued
      exact hqueued
    have hbar := h.barrier_le
    have hbef := h.before_le
    simp only [C2c.toNode, C2c.nodeEnd, C2c.Diverted, Option.getD_some]
    by_cases hb : chn.barrier ≠ 0
    · simp only [hb, ne_eq, not_false_eq_true, true_or, if_true]
      split_ifs <;> exact hfront _ (by omega)
    · simp only [hb, false_or]
      cases chn.switchedWrite with
      | true => simp
      | false =>
          simp only [Bool.false_eq_true, if_false, htake]
          rfl
  · have hlenq := h.length_queued
    have hbar := h.barrier_le
    simp only [C2c.toDirect, C2c.directStart, C2c.Diverted]
    rw [C2c.queued, Option.getD_some, htake]
    by_cases hb : chn.barrier ≠ 0
    · simp only [hb, ne_eq, not_false_eq_true, true_or, if_true]
      exact List.drop_append_of_le_length (by rw [← hlenq] at hbar; exact hbar)
    · simp only [hb, false_or]
      cases chn.switchedWrite with
      | true => simp
      | false =>
          simp only [Bool.false_eq_true, if_false]
          exact List.drop_eq_nil_of_le (by simp [hlenq])

/-- Queueing the switch message closes the part for the node. -/
theorem sendDirectc2cSwitch_spec
    (r₀ r₁ : UInt8)
    (h : chn.WriteOk) (hplain : ¬ chn.Diverted)
    (hroom : chn.writePos + 4 < uintMod) :
    ∃ t, sendDirectc2cSwitch .enough chn r₀ r₁ = some (t, .ok) ∧ t.WriteOk ∧
      C2c.Kept chn t ∧ t.Diverted ∧ t.writePos = chn.writePos + 4 ∧
      t.toNode = chn.toNode ++ shortFrame Proto.DIRECTC2C_SWITCH r₀ r₁ ∧ t.toDirect = [] := by
  obtain ⟨hbar, hsw⟩ := not_or.mp hplain
  rw [not_not] at hbar
  have hbef : chn.before = 0 := Nat.le_zero.mp (hbar ▸ h.before_le)
  obtain ⟨b, heq, htake, hlong, hlen⟩ := c2cWritebufPush_eq
    (f := shortFrame Proto.DIRECTC2C_SWITCH r₀ r₁) h hroom
  have hfour : (shortFrame Proto.DIRECTC2C_SWITCH r₀ r₁).length = 4 := rfl
  rw [hfour] at heq htake hlong
  have hnode : chn.toNode = chn.queued := by
    simp [C2c.toNode, C2c.nodeEnd, C2c.queued, hbar, hsw]
  refine ⟨{ chn with
      writeBuf := some b
      writePos := chn.writePos + 4
      barrier := chn.writePos + 4 }, by rw [sendDirectc2cSwitch, heq]; rfl, ?_,
    ⟨rfl, rfl, rfl, rfl, rfl, rfl, rfl⟩, Or.inl (Nat.succ_ne_zero _), rfl, ?_, ?_⟩
  · refine ⟨hlong, hlen, Nat.le_refl _, ?_, fun hs => absurd hs hsw, ?_, h.btw_lt⟩
    · exact hbef ▸ Nat.zero_le _
    · have hbtw := h.btw_le
      simp only [hbar, ne_eq, not_true_eq_false, if_false] at hbtw
      have hne : chn.writePos + 4 ≠ 0 := Nat.succ_ne_zero _
      simp only [C2c.nodeEnd, hbef, if_pos hne, if_true]
      omega
  · rw [hnode, ← htake]
    simp [C2c.toNode, C2c.nodeEnd, hbef]
  · simp only [C2c.toDirect, C2c.directStart, C2c.queued, Option.getD_some]
    exact List.drop_eq_nil_of_le (List.length_take_le _ _)

end Push

section Write

variable {chn : C2c} {r : SslWrite}

/-- `SSL_write` takes what it is offered or asks for a retry. -/
def SslWrite.Proper (r : SslWrite) : Prop :=
  r = .all ∨ r = .retry

/-- The bytes taken followed by the bytes left are the bytes there were. -/
theorem writeSsl_spec
    (buf : List UInt8) {pos btw : Nat}
    (hr : r.Proper) (hbtw : btw ≤ pos) (hpos : pos ≤ buf.length)
    (hint : (if btw = 0 then pos else btw) < intMod) :
    let w := writeSsl r buf pos btw
    w.ret = .ok ∧ w.took ++ w.buf.take w.pos = buf.take pos ∧ w.pos ≤ pos ∧
      w.btw ≤ w.pos ∧ w.btw < intMod ∧ w.buf.length = buf.length ∧
      ∀ k, pos ≤ k → w.buf.drop k = buf.drop k := by
  intro w
  by_cases hzero : pos = 0
  · have hw : w = ⟨buf, pos, btw, .ok, []⟩ := if_pos hzero
    have hb : btw = 0 := by omega
    rw [hw, hb]
    exact ⟨rfl, rfl, Nat.le_refl _, Nat.zero_le _, show 0 < intMod by decide, rfl,
      fun _ _ => rfl⟩
  generalize hn : (if btw = 0 then pos else btw) = n at hint
  have hle : n ≤ pos := by
    rw [← hn]
    split_ifs <;> omega
  have hon : r.on n = r := if_pos hint
  rcases hr with rfl | rfl
  · have hw : w = ⟨if n < pos then moveDown buf n (pos - n) else buf, usub pos n, 0, .ok,
        buf.take n⟩ := by
      simp only [w, writeSsl, hn, hon, if_neg hzero]
    rw [hw, usub_eq hle]
    refine ⟨rfl, ?_, Nat.sub_le _ _, Nat.zero_le _, show 0 < intMod by decide, ?_, ?_⟩
    · by_cases hlt : n < pos
      · have hfront : buf.take n = (buf.take pos).take n := by
          rw [List.take_take, Nat.min_eq_left hle]
        simp only [if_pos hlt]
        rw [take_moveDown (by omega), show n + (pos - n) = pos by omega, hfront,
          List.take_append_drop]
      · have : n = pos := by omega
        simp [this]
    · split_ifs
      · exact length_moveDown
      · rfl
    · intro k hk
      simp only
      split_ifs
      · exact drop_moveDown (by omega) (by omega)
      · rfl
  · have hw : w = ⟨buf, pos, n, .ok, []⟩ := by
      simp only [w, writeSsl, hn, hon, if_neg hzero]
    rw [hw]
    exact ⟨rfl, rfl, Nat.le_refl _, hle, hint, rfl, fun _ _ => rfl⟩

/-- What a successful write does: bytes move from the write buffer to the two
connections, each in its order. -/
structure Written (chn : C2c) (w : C2cWritten) : Prop where
  ret : w.ret = .ok
  closed : w.closed = false
  writeOk : w.chn.WriteOk
  kept : C2c.Kept chn w.chn
  diverted : w.chn.Diverted ↔ chn.Diverted
  node : w.node ++ w.chn.toNode = chn.toNode
  direct : w.direct ++ w.chn.toDirect = chn.toDirect

/-- A write in front of the barrier, which may reach it. -/
theorem writeBeforeBarrier_spec
    (h : chn.WriteOk) (hr : r.Proper) (hbar : chn.barrier ≠ 0) (hint : chn.offered < intMod) :
    let w := writeBeforeBarrier r chn
    w.2.1 = .ok ∧ w.1.WriteOk ∧ C2c.Kept chn w.1 ∧ w.1.Diverted ∧
      w.2.2 ++ w.1.toNode = chn.toNode ∧ w.1.toDirect = chn.toDirect := by
  intro w
  obtain ⟨b, hb⟩ : ∃ b, chn.writeBuf = some b := by
    cases hbuf : chn.writeBuf with
    | none =>
        have hpos := h.pos_le
        rw [hbuf] at hpos
        exact absurd (Nat.le_trans h.barrier_le hpos) (by simpa using hbar)
    | some b => exact ⟨b, rfl⟩
  have hpos := h.pos_le
  have hlen := h.len_lt
  have hbtw := h.btw_le
  have hble := h.barrier_le
  have hbefle := h.before_le
  rw [hb] at hpos hlen
  simp only [Option.getD_some] at hpos hlen
  rw [if_pos hbar] at hbtw
  have hend : chn.nodeEnd = if chn.before = 0 then chn.barrier else chn.before := if_pos hbar
  have hendle : chn.nodeEnd ≤ chn.barrier := by
    rw [hend]
    split_ifs <;> omega
  rw [C2c.offered, if_pos hbar] at hint
  obtain ⟨hret, htook, hposle, hbtwle, hbtwlt, hwlen, hdrop⟩ :=
    writeSsl_spec b hr hbtw (by omega) hint
  have hdirect : chn.toDirect = (b.drop chn.barrier).take (chn.writePos - chn.barrier) := by
    rw [C2c.toDirect, C2c.directStart, if_pos hbar, C2c.queued, hb, Option.getD_some,
      List.drop_take]
  have hnode : chn.toNode = b.take chn.nodeEnd := by rw [C2c.toNode, hb, Option.getD_some]
  have hw : w = writeBeforeBarrier r chn := rfl
  simp only [writeBeforeBarrier, hb, Option.getD_some, ← hend] at hw
  generalize writeSsl r b chn.nodeEnd chn.btw = ssl at *
  rw [usub_eq hble] at hw
  by_cases hdone : ssl.pos = 0
  · rw [if_pos ⟨hret, hdone⟩] at hw
    have hbtw0 : ssl.btw = 0 := by omega
    have hmove : chn.barrier + (chn.writePos - chn.barrier) ≤ ssl.buf.length := by omega
    rw [hw]
    refine ⟨hret, ⟨?_, ?_, Nat.zero_le _, Nat.le_refl _, fun _ => rfl, ?_, hbtwlt⟩,
      ⟨rfl, rfl, rfl, rfl, rfl, rfl, rfl⟩, Or.inr rfl, ?_, ?_⟩
    · simp only [Option.map_some, Option.getD_some, length_moveDown]
      omega
    · simp only [Option.map_some, Option.getD_some, length_moveDown]
      omega
    · simp [hbtw0]
    · rw [hdone] at htook
      simpa [C2c.toNode, C2c.nodeEnd, hb] using htook
    · rw [hdirect, ← hdrop chn.barrier hendle]
      simp only [C2c.toDirect, C2c.directStart, C2c.queued, Option.map_some, Option.getD_some,
        ne_eq, not_true_eq_false, if_false, if_true, List.drop_zero]
      rw [take_moveDown hmove, List.drop_take]
      congr 1
      omega
  · rw [if_neg (fun hc => hdone hc.2)] at hw
    have hnewEnd : w.1.nodeEnd = ssl.pos := by
      rw [hw]
      simp [C2c.nodeEnd, hbar, hdone]
    rw [hw] at hnewEnd ⊢
    refine ⟨hret, ⟨?_, ?_, hble, ?_, h.no_barrier, ?_, hbtwlt⟩,
      ⟨rfl, rfl, rfl, rfl, rfl, rfl, rfl⟩, Or.inl hbar, ?_, ?_⟩
    · simp only [Option.map_some, Option.getD_some]
      omega
    · simp only [Option.map_some, Option.getD_some]
      omega
    · simp only
      omega
    · rw [if_pos hbar, hnewEnd]
      exact hbtwle
    · rw [C2c.toNode, hnewEnd, hnode]
      exact htook
    · rw [hdirect, ← hdrop chn.barrier hendle]
      simp only [C2c.toDirect, C2c.directStart, C2c.queued, Option.map_some, Option.getD_some,
        if_pos hbar]
      rw [List.drop_take]

/-- A write without a barrier takes from the only part there is. -/
theorem writePlain_spec
    (h : chn.WriteOk) (hr : r.Proper) (hbar : chn.barrier = 0) (hint : chn.offered < intMod) :
    let w := writePlain r chn
    w.2.1 = .ok ∧ w.1.WriteOk ∧ C2c.Kept chn w.1 ∧ w.1.barrier = 0 ∧
      w.1.switchedWrite = chn.switchedWrite ∧ w.2.2 ++ w.1.queued = chn.queued := by
  intro w
  have hbtw := h.btw_le
  have hint' : (if chn.btw = 0 then chn.writePos else chn.btw) < intMod := by
    simpa [C2c.offered, hbar] using hint
  simp only [hbar, ne_eq, not_true_eq_false, if_false] at hbtw
  obtain ⟨hret, htook, hposle, hbtwle, hbtwlt, hwlen, -⟩ :=
    writeSsl_spec (chn.writeBuf.getD []) hr hbtw h.pos_le hint'
  have hw : w = writePlain r chn := rfl
  simp only [writePlain] at hw
  generalize writeSsl r (chn.writeBuf.getD []) chn.writePos chn.btw = ssl at *
  have hgetD : (chn.writeBuf.map fun _ => ssl.buf).getD [] = ssl.buf := by
    cases hbuf : chn.writeBuf with
    | some b => rfl
    | none =>
        rw [hbuf] at hwlen
        exact (List.length_eq_zero_iff.mp hwlen).symm
  have hbef : chn.before = 0 := Nat.le_zero.mp (hbar ▸ h.before_le)
  have hpos := h.pos_le
  have hlen := h.len_lt
  rw [hw]
  refine ⟨hret, ⟨?_, ?_, ?_, ?_, fun _ => hbar, ?_, hbtwlt⟩,
    ⟨rfl, rfl, rfl, rfl, rfl, rfl, rfl⟩, hbar, rfl, ?_⟩
  · simp only [hgetD]
    omega
  · simp only [hgetD]
    omega
  · simp [hbar]
  · simp [hbef]
  · simpa [hbar] using hbtwle
  · simpa [C2c.queued, hgetD] using htook

/-- **A write moves bytes in order.** -/
theorem writeC2c_spec
    (h : chn.WriteOk) (hstate : chn.state = .active)
    (hdis : chn.disconnectOnEmptyWriteBuf = false)
    (hr : r.Proper) (hint : chn.offered < intMod) :
    ∃ w, writeC2c r chn = some w ∧ Written chn w := by
  refine ⟨_, if_pos (Or.inl hstate), ?_⟩
  by_cases hbar : chn.barrier = 0
  · obtain ⟨hret, hok, hkept, hbar', hsw, hq⟩ := writePlain_spec h hr hbar hint
    have hdiv : (writePlain r chn).1.Diverted ↔ chn.Diverted := by
      simp [C2c.Diverted, hbar, hbar', hsw]
    have hdis' := hkept.disconnect
    simp only [hbar, ne_eq, not_true_eq_false, if_false, false_or]
    refine ⟨hret, by simp [hdis', hdis], hok, hkept, hdiv, ?_, ?_⟩
    · cases hs : chn.switchedWrite with
      | true =>
          rw [hs] at hsw
          simp [C2c.toNode, C2c.nodeEnd, hbar, hbar', hs, hsw]
      | false =>
          rw [hs] at hsw
          simpa [C2c.toNode, C2c.nodeEnd, C2c.queued, hbar, hbar', hs, hsw] using hq
    · cases hs : chn.switchedWrite with
      | true =>
          rw [hs] at hsw
          simpa [C2c.toDirect, C2c.directStart, hbar, hbar', hs, hsw] using hq
      | false =>
          rw [hs] at hsw
          simp [C2c.toDirect, C2c.directStart, hbar, hbar', hs, hsw, h.drop_queued,
            hok.drop_queued]
  · obtain ⟨hret, hok, hkept, hdiv, hnode, hdirect⟩ := writeBeforeBarrier_spec h hr hbar hint
    have hdis' := hkept.disconnect
    simp only [hbar, ne_eq, not_false_eq_true, if_true, true_or]
    exact ⟨hret, by simp [hdis', hdis], hok, hkept, iff_of_true hdiv (Or.inl hbar), hnode,
      hdirect⟩

end Write

end Client
end PicaPica
