import PicaPica.Client.Channel

/-!
# File transfer over a channel (`PICA_client.c`)

A channel can send one file and receive one file at a time.  Each direction has a
state, a size, a position and a stream.  The functions of the user interface and the
handlers of the five messages move these, open and close the streams, and push
messages.

The answers of the surroundings are arguments: whether a message can be placed in the
write buffer, whether a file can be opened, what `fread` returns, whether `fwrite`
succeeds, and what the user decides about an offered file.  The copies of the file name
are taken to be allocated.  Using a stream that is `NULL`, or reading outside the
message, has no result.
-/

namespace PicaPica

namespace Proto

/-- `PICA_PROTO_FILECONTROL_*`. -/
def CTL_VOID : UInt8 := 0
def CTL_PAUSE : UInt8 := 1
def CTL_RESUME : UInt8 := 2
def CTL_CANCEL : UInt8 := 3
def CTL_IOERROR : UInt8 := 4

/-- `PICA_PROTO_C2CMSG_MAXFILENAMESIZE`. -/
def MAXFILENAMESIZE : Nat := 255

end Proto

namespace Client

/-- `sendfilestate`. -/
inductive SendState
  | idle
  | sentReq
  | sending
  | paused
deriving DecidableEq

/-- `recvfilestate`. -/
inductive RecvState
  | idle
  | waitAccept
  | receiving
  | paused
deriving DecidableEq

/-- Return values of the functions below. -/
inductive FileCode
  | ok
  | errInvArg
  | errNoMem
  | errInvFileName
  | errFileTransferInProgress
  | errFileTransferNotInProgress
  | errFileFragmentCrossedSize
  | errFileOpen
  | errFileIo
deriving DecidableEq

/-- What ends the program. -/
inductive FileFault
  /-- `fclose`, `fread` or `fwrite` of a `NULL` stream -/
  | nullStream
  /-- a read outside the message -/
  | outside
deriving DecidableEq

/-- `PICA_FILEFRAGMENTSIZE - 4`, the most a fragment carries. -/
def maxFragment : Nat := 3 * 16384 - 4

/-- `a + b` on `uint64_t`. -/
def add64 (a b : Nat) : Nat := (a + b) % 18446744073709551616

/-- `*(uint64_t*)p = n`. -/
def le64 (n : Nat) : List UInt8 :=
  (List.range 8).map fun i => UInt8.ofNat (n / 256 ^ i)

/-- `*(uint64_t*)(buf + off)`. -/
def load64 (buf : List UInt8) (off : Nat) : Nat :=
  leNat ((buf.drop off).take 8)

/-- The part of `struct PICA_c2c` that belongs to file transfer. -/
structure FileChan where
  sendState : SendState
  sendOpen : Bool
  sendSize : Nat
  sendPos : Nat
  recvState : RecvState
  recvOpen : Bool
  recvSize : Nat
  recvPos : Nat
  /-- what has been written to the file being received -/
  recvData : List UInt8
  /-- messages pushed so far -/
  out : List Frame
  /-- calls of `file_finished_cb` for sending and for receiving -/
  finishedSend : Nat
  finishedRecv : Nat
deriving DecidableEq

/-- A channel without file transfer. -/
def FileChan.fresh : FileChan :=
  ⟨.idle, false, 0, 0, .idle, false, 0, 0, [], [], 0, 0⟩

namespace FileChan

variable (c : FileChan)

/-- `fclose(sendfile_stream); sendfile_stream = NULL`. -/
def closeSend : Except FileFault FileChan :=
  if c.sendOpen then .ok { c with sendOpen := false } else .error .nullStream

/-- `fclose(recvfile_stream); recvfile_stream = NULL`. -/
def closeRecv : Except FileFault FileChan :=
  if c.recvOpen then .ok { c with recvOpen := false } else .error .nullStream

/-- `c2c_writebuf_push`, which returns `NULL` without memory. -/
def push (mem : Bool) (f : Frame) : FileChan × Bool :=
  if mem then ({ c with out := c.out ++ [f] }, true) else (c, false)

end FileChan

def ctlFrame (senderctl receiverctl : UInt8) : Frame :=
  head Proto.FILECONTROL ++ [senderctl, receiverctl]

/-- `PICA_send_filecontrol`. -/
def sendFilecontrol (mem : Bool) (c : FileChan) (senderctl receiverctl : UInt8) :
    FileChan × FileCode :=
  let r := c.push mem (ctlFrame senderctl receiverctl)
  (r.1, if r.2 then .ok else .errNoMem)

section Interface

/-- `PICA_sendfile_open_read`: the file cannot be opened, or its size cannot be found
out although it is open, or it has this size. -/
inductive OpenRead
  | failed
  | unsized
  | sized (n : Nat)
deriving DecidableEq

/-- `strrchr(filepath, '/')`: the name behind the last slash. -/
def fileName (path : List UInt8) : List UInt8 :=
  (path.reverse.takeWhile (· ≠ 0x2F)).reverse

def requestFrame (size : Nat) (name : List UInt8) : Frame :=
  head Proto.SENDFILEREQUEST ++ le16 (name.length + 8) ++ le64 size ++ name

/-- `PICA_send_file`. -/
def sendFile (mem : Bool) (file : OpenRead) (path : Option (List UInt8)) (c : FileChan) :
    FileChan × FileCode :=
  if c.sendState ≠ .idle then (c, .errFileTransferInProgress)
  else
    match path with
    | none => (c, .errInvFileName)
    | some path =>
        let name := fileName path
        if name.length = 0 ∨ Proto.MAXFILENAMESIZE < name.length then (c, .errInvFileName)
        else
          match file with
          | .failed => ({ c with sendOpen := false }, .errFileOpen)
          | .unsized => ({ c with sendOpen := true }, .errFileOpen)
          | .sized n =>
              let r := { c with sendOpen := true }.push mem (requestFrame n name)
              if r.2 then
                ({ r.1 with sendState := .sentReq, sendSize := n, sendPos := 0 }, .ok)
              else (r.1, .errNoMem)

/-- `PICA_deny_file`. -/
def denyFile (mem : Bool) (r₀ r₁ : UInt8) (c : FileChan) : FileChan × FileCode :=
  if c.recvState ≠ .waitAccept then (c, .errInvArg)
  else
    let r := { c with recvState := .idle }.push mem (shortFrame Proto.DENIEDFILE r₀ r₁)
    (r.1, if r.2 then .ok else .errNoMem)

/-- `PICA_accept_file`; `opened` is the result of `PICA_recvfile_open_write`. -/
def acceptFile (mem opened : Bool) (r₀ r₁ : UInt8) (c : FileChan) : FileChan × FileCode :=
  if c.recvState ≠ .waitAccept then (c, .errInvArg)
  else if opened then
    let r := { c with recvOpen := true, recvData := [] }.push mem
      (shortFrame Proto.ACCEPTEDFILE r₀ r₁)
    if r.2 then ({ r.1 with recvState := .receiving }, .ok) else (r.1, .errNoMem)
  else ({ c with recvOpen := false }, .errFileOpen)

/-- `PICA_pause_file`. -/
def pauseFile (mem sending : Bool) (c : FileChan) : FileChan × FileCode :=
  if sending then
    if c.sendState ≠ .sending then (c, .errInvArg)
    else sendFilecontrol mem { c with sendState := .paused } Proto.CTL_PAUSE Proto.CTL_VOID
  else
    if c.recvState ≠ .receiving then (c, .errInvArg)
    else sendFilecontrol mem { c with recvState := .paused } Proto.CTL_VOID Proto.CTL_PAUSE

/-- `PICA_resume_file`. -/
def resumeFile (mem sending : Bool) (c : FileChan) : FileChan × FileCode :=
  if sending then
    if c.sendState ≠ .paused then (c, .errInvArg)
    else sendFilecontrol mem { c with sendState := .sending } Proto.CTL_RESUME Proto.CTL_VOID
  else
    if c.recvState ≠ .paused then (c, .errInvArg)
    else sendFilecontrol mem { c with recvState := .receiving } Proto.CTL_VOID Proto.CTL_RESUME

/-- `PICA_cancel_file`. -/
def cancelFile (mem sending : Bool) (c : FileChan) : Except FileFault (FileChan × FileCode) :=
  if sending then
    if c.sendState ≠ .sending ∧ c.sendState ≠ .paused then .ok (c, .errInvArg)
    else
      c.closeSend.map fun c =>
        sendFilecontrol mem { c with sendState := .idle } Proto.CTL_CANCEL Proto.CTL_VOID
  else
    if c.recvState ≠ .receiving ∧ c.recvState ≠ .paused then .ok (c, .errInvArg)
    else
      c.closeRecv.map fun c =>
        sendFilecontrol mem { c with recvState := .idle } Proto.CTL_VOID Proto.CTL_CANCEL

def fragmentFrame (data : List UInt8) : Frame :=
  head Proto.FILEFRAGMENT ++ le16 data.length ++ data

/-- `PICA_send_file_fragment`; `got` is what `fread` would return without a limit. -/
def sendFileFragment (mem : Bool) (got : List UInt8) (c : FileChan) :
    Except FileFault (FileChan × FileCode) :=
  if c.sendState ≠ .sending then .ok (c, .errFileTransferNotInProgress)
  else if c.sendOpen = false then .error .nullStream
  else
    let data := got.take maxFragment
    if data = [] then
      c.closeSend.map fun c =>
        ((sendFilecontrol mem { c with sendState := .idle } Proto.CTL_IOERROR Proto.CTL_VOID).1,
          .errFileIo)
    else
      let r := c.push mem (fragmentFrame data)
      if r.2 then
        let moved : FileChan := { r.1 with sendPos := add64 r.1.sendPos data.length }
        if moved.sendSize ≤ moved.sendPos then
          moved.closeSend.map fun c =>
            ({ c with sendState := .idle, finishedSend := c.finishedSend + 1 },
              if c.sendSize < c.sendPos then .errFileFragmentCrossedSize else .ok)
        else .ok (moved, .ok)
      else .ok (r.1, .errNoMem)

end Interface

section Handlers

/-- `validate_file_name`: the name up to a zero byte holds none of `* : /` and no two
dots in a row. -/
def validateFileName (name : List UInt8) : Bool :=
  let str := name.takeWhile (· ≠ 0)
  !(str.contains 0x2A || str.contains 0x3A || str.contains 0x2F ||
    (str.zip str.tail).contains (0x2E, 0x2E))

/-- What `accept_file_cb` answers: accept at once, decide later, or refuse. -/
inductive Answer
  | accept
  | later
  | refuse
deriving DecidableEq

/-- What the surroundings answer while a message is handled. -/
structure FileEnv where
  answer : Answer
  opened : Bool
  fwrite : Bool
  /-- for the first and for the second message pushed -/
  mem : Bool
  memDeny : Bool
  r₀ : UInt8
  r₁ : UInt8
deriving DecidableEq

/-- Surroundings in which everything succeeds and the user answers as given. -/
def FileEnv.fine (answer : Answer) : FileEnv :=
  ⟨answer, true, true, true, true, 7, 7⟩

/-- `procmsg_SENDFILEREQUEST`.  The length of the name is the length of the message
minus 8, without a check that there are 8 bytes. -/
def procmsgSENDFILEREQUEST (env : FileEnv) (c : FileChan) (buf : Frame) :
    Except FileFault (FileChan × Nat) :=
  if c.recvState ≠ .idle then .ok (c, 0)
  else if load16 buf 2 < 8 then .error .outside
  else if validateFileName ((buf.drop 12).take (load16 buf 2 - 8)) = false then .ok (c, 0)
  else
    let asked := { c with recvState := .waitAccept, recvSize := load64 buf 4, recvPos := 0 }
    match env.answer with
    | .accept =>
        let r := acceptFile env.mem env.opened env.r₀ env.r₁ asked
        if r.2 = .ok then .ok (r.1, 1)
        else
          let d := denyFile env.memDeny env.r₀ env.r₁ r.1
          .ok (d.1, if d.2 = .ok then 1 else 0)
    | .later => .ok (asked, 1)
    | .refuse =>
        let d := denyFile env.memDeny env.r₀ env.r₁ asked
        .ok (d.1, if d.2 = .ok then 1 else 0)

/-- `procmsg_ACCEPTEDFILE`. -/
def procmsgACCEPTEDFILE (c : FileChan) : FileChan × Nat :=
  if c.sendState ≠ .sentReq then (c, 0)
  else ({ c with sendState := .sending }, 1)

/-- `procmsg_DENIEDFILE`. -/
def procmsgDENIEDFILE (c : FileChan) : Except FileFault (FileChan × Nat) :=
  if c.sendState ≠ .sentReq then .ok (c, 0)
  else { c with sendState := .idle }.closeSend.map fun c => (c, 1)

/-- The end of `procmsg_FILEFRAGMENT`: the position moves, also after a failed
`fwrite`, and the file is finished when it reaches the size. -/
def fragmentReceived (c : FileChan) (n : Nat) : Except FileFault (FileChan × Nat) :=
  let moved : FileChan := { c with recvPos := add64 c.recvPos n }
  if moved.recvSize < moved.recvPos then .ok (moved, 0)
  else if moved.recvPos = moved.recvSize then
    (FileChan.closeRecv { moved with recvState := .idle }).map fun c =>
      ({ c with finishedRecv := c.finishedRecv + 1 }, 1)
  else .ok (moved, 1)

/-- `procmsg_FILEFRAGMENT`.  `fwrite` of an empty block counts as failed. -/
def procmsgFILEFRAGMENT (env : FileEnv) (c : FileChan) (buf : Frame) :
    Except FileFault (FileChan × Nat) :=
  if c.recvState ≠ .receiving ∧ c.recvState ≠ .paused then .ok (c, 0)
  else if buf.length - 4 ≠ load16 buf 2 then .ok (c, 0)
  else if c.recvOpen = false then .error .nullStream
  else
    let data := buf.drop 4
    if env.fwrite ∧ data ≠ [] then
      fragmentReceived { c with recvData := c.recvData ++ data } data.length
    else
      let r := sendFilecontrol env.mem { c with recvOpen := false, recvState := .idle }
        Proto.CTL_VOID Proto.CTL_IOERROR
      if r.2 = .ok then fragmentReceived r.1 data.length else .ok (r.1, 0)

/-- The sender's command in `procmsg_FILECONTROL`; `false` when it is refused. -/
def senderCommand (c : FileChan) (cmd : UInt8) : Except FileFault (FileChan × Bool) :=
  if cmd = Proto.CTL_PAUSE then
    if c.recvState = .receiving then .ok ({ c with recvState := .paused }, true)
    else .ok (c, false)
  else if cmd = Proto.CTL_RESUME then
    if c.recvState = .paused then .ok ({ c with recvState := .receiving }, true)
    else .ok (c, false)
  else if cmd = Proto.CTL_CANCEL ∨ cmd = Proto.CTL_IOERROR then
    { c with recvState := .idle }.closeRecv.map fun c => (c, true)
  else .ok (c, cmd = Proto.CTL_VOID)

/-- The receiver's command. -/
def receiverCommand (c : FileChan) (cmd : UInt8) : Except FileFault (FileChan × Bool) :=
  if cmd = Proto.CTL_PAUSE then
    if c.sendState = .sending then .ok ({ c with sendState := .paused }, true)
    else .ok (c, false)
  else if cmd = Proto.CTL_RESUME then
    if c.sendState = .paused then .ok ({ c with sendState := .sending }, true)
    else .ok (c, false)
  else if cmd = Proto.CTL_CANCEL ∨ cmd = Proto.CTL_IOERROR then
    { c with sendState := .idle }.closeSend.map fun c => (c, true)
  else .ok (c, cmd = Proto.CTL_VOID)

/-- `procmsg_FILECONTROL`. -/
def procmsgFILECONTROL (c : FileChan) (buf : Frame) : Except FileFault (FileChan × Nat) :=
  let senderCmd := buf.getD 2 0
  let receiverCmd := buf.getD 3 0
  if (c.sendState = .idle ∨ c.sendState = .sentReq) ∧ receiverCmd ≠ Proto.CTL_VOID then
    .ok (c, 0)
  else if c.recvState = .idle ∧ senderCmd ≠ Proto.CTL_VOID then .ok (c, 0)
  else
    (senderCommand c senderCmd).bind fun r =>
      if r.2 then (receiverCommand r.1 receiverCmd).map fun r => (r.1, if r.2 then 1 else 0)
      else .ok (r.1, 0)

/-- The handlers of the file messages in `c2c_messages`. -/
def procmsgFile (env : FileEnv) (c : FileChan) (buf : Frame) :
    Except FileFault (FileChan × Nat) :=
  if byteAt buf 0 = Proto.SENDFILEREQUEST then procmsgSENDFILEREQUEST env c buf
  else if byteAt buf 0 = Proto.ACCEPTEDFILE then .ok (procmsgACCEPTEDFILE c)
  else if byteAt buf 0 = Proto.DENIEDFILE then procmsgDENIEDFILE c
  else if byteAt buf 0 = Proto.FILEFRAGMENT then procmsgFILEFRAGMENT env c buf
  else if byteAt buf 0 = Proto.FILECONTROL then procmsgFILECONTROL c buf
  else .ok (c, 0)

end Handlers

end Client
end PicaPica
