import PicaPica.Client.DirectC2c
import PicaPica.Client.Duplex

/-!
# The life of a channel (`PICA_client.c`)

A channel from `c2n_alloc_c2c` to `PICA_close_c2c`: the stages of its set-up, the handlers
of all messages in `c2c_messages`, its direct connection, and the calls that drive it.

`process_c2c` is split where `PICA_read_c2c` begins to handle messages: `pollC2c` is the part
in front, each complete message is a call of its own, and `finishC2c` is the part behind.
`processdatastream_refines` is the reason for this.  The bytes in the read buffer are
not part of the state.  What the surroundings decide comes with the call.

The node sends one `FOUND` for a channel.  The application uses an established channel;
before that it may only answer the offer of a file.
-/

namespace PicaPica

namespace Proto

/-- `PICA_C2CPROTO_VER_HIGH`, `PICA_C2CPROTO_VER_LOW`. -/
def C2C_VER_HIGH : Nat := 0
def C2C_VER_LOW : Nat := 1

end Proto

namespace Client

/-- The callbacks for one channel. -/
inductive Callback
  | newmsg
  | msgok
  | c2cEstablished
  | c2cFailed
  | c2cClosed
  | peerCertVerify
  | acceptFile
  | acceptedFile
  | deniedFile
  | fileProgress
  | fileControl
  | fileFinished
  | directC2cEstablished
deriving DecidableEq

/-- `struct PICA_c2c`, with the listener of its `struct PICA_c2n`. -/
structure Session where
  chn : C2c
  /-- `out` is empty between calls -/
  file : FileChan
  outgoing : Bool
  /-- `acc->id` -/
  accId : Id
  peerId : Id
  direct : Option Direct
  /-- public address and port of `directc2c_listener` -/
  listener : Option (Nat × Nat)
  /-- `directc2c_listener->accepted_connections` -/
  accepted : List Direct
  /-- callbacks called so far, the oldest first -/
  calls : List Callback
  /-- `PICA_read_c2c` is handling messages -/
  reading : Bool
  /-- `PICA_close_c2c` has freed the channel -/
  closed : Bool
deriving DecidableEq

namespace Session

variable (s : Session)

/-- `c2n_alloc_c2c`. -/
def init (outgoing : Bool) (accId peerId : Id) (config : DirectConfig)
    (listener : Option (Nat × Nat)) : Session where
  chn := { C2c.opened .inactive config with state := .new }
  file := .fresh
  outgoing := outgoing
  accId := accId
  peerId := peerId
  direct := none
  listener := listener
  accepted := []
  calls := []
  reading := false
  closed := false

def called (c : Callback) : Session :=
  { s with calls := s.calls ++ [c] }

def setState (st : C2cState) : Session :=
  { s with chn := { s.chn with state := st } }

def setDirectState (st : DirectState) : Session :=
  { s with chn := { s.chn with directState := st } }

/-- `c2c_writebuf_push`. -/
def push (mem : Memory) (f : Frame) : Except SessionFault (Session × Bool) :=
  match c2cWritebufPush mem s.chn f with
  | none => .error .outside
  | some (chn, mp) => .ok ({ s with chn := chn }, mp)

/-- The messages that functions of the file transfer have placed in the write buffer. -/
def pushAll : List Frame → Session → Except SessionFault Session
  | [], s => pure s
  | f :: fs, s => do
      let r ← s.push .enough f
      pushAll fs r.1

def withFile (c : FileChan) : Except SessionFault Session :=
  pushAll c.out { s with file := { c with out := [] } }

/-- `PICA_close_c2c`. -/
def closeC2c : Except SessionFault Session :=
  if s.direct.any (·.freed) then .error .freedDirect
  else pure { s with direct := none, reading := false, closed := true }

/-! ## Messages of the peer -/

/-- What the surroundings answer while a message is handled. -/
structure FrameEnv where
  file : FileEnv
  /-- memory for the answer, and for the list of addresses -/
  mem : Memory
  memList : Memory
  /-- `calloc` and `malloc` in the handler of `DIRECTC2C_ADDRLIST` -/
  calloc : Bool
  malloc : Bool
  /-- `connect` succeeds or is in progress -/
  connect : Bool

/-- The message of `PICA_send_directc2caddrlist`. -/
def addrlistFrame (addr port : Nat) : Frame :=
  head Proto.DIRECTC2C_ADDRLIST ++ le16 Proto.DIRECTC2C_ADDRLIST_ITEM_IPV4_SIZE ++
    UInt8.ofNat Proto.DIRECTC2C_IPV4 :: (le16 addr ++ le16 (addr / 65536) ++ (le16 port).reverse)

/-- `PICA_send_directc2caddrlist`. -/
def sendDirectc2caddrlist (mem : Memory) : Except SessionFault Session :=
  match s.chn.config, s.listener with
  | .allowIncoming, some (addr, port) => do
      let (s, mp) ← s.push mem (addrlistFrame addr port)
      pure (if mp then s.setDirectState .waitingIncoming else s)
  | _, _ => pure s

/-- The state becomes `ACTIVE`, and the listener is announced. -/
def established (mem : Memory) : Except SessionFault Session :=
  ((s.setState .active).called .c2cEstablished).sendDirectc2caddrlist mem

def procmsgC2CCONNREQ (env : FrameEnv) (buf : Frame) : Except SessionFault (Session × Nat) :=
  if s.chn.state ≠ .waitingC2cProtoVer then pure (s, 0)
  else if byteAt buf 2 = Proto.C2C_VER_HIGH ∧ byteAt buf 3 = Proto.C2C_VER_LOW then do
    let (s, mp) ← s.push env.mem (head Proto.INITRESPOK ++ [79, 75])
    if mp then
      let s ← s.established env.memList
      pure (s, 1)
    else pure (s, 0)
  else do
    let (s, mp) ← s.push env.mem (head Proto.VERDIFFER ++
      [UInt8.ofNat Proto.C2C_VER_HIGH, UInt8.ofNat Proto.C2C_VER_LOW])
    if mp then
      pure ({ s with chn := { s.chn with disconnectOnEmptyWriteBuf := true } }, 1)
    else pure (s, 0)

def procmsgINITRESPC2c (env : FrameEnv) (buf : Frame) : Except SessionFault (Session × Nat) :=
  if s.chn.state ≠ .waitingRep then pure (s, 0)
  else if s.outgoing = false then pure (s, 0)
  else if byteAt buf 0 = Proto.INITRESPOK then do
    let s ← s.established env.memList
    pure (s, 1)
  else pure (s, 0)

/-- The record of the direct connection for the list in the message, when it is connected
later or at once. -/
def directListed (env : FrameEnv) (buf : Frame) : Except SessionFault (Session × Nat) :=
  let d := { Direct.fresh with addrlist := some (buf.drop 2) }
  if s.outgoing = false ∧ s.chn.config = .allowIncoming then
    pure ({ s with direct := some d }, 1)
  else do
    let (d, found) ← d.connectNext env.connect
    let s := { s with direct := some d }
    pure (if found then s else s.setDirectState .failedToConnect, 1)

/-- `procmsg_PICA_PROTO_DIRECTC2C_ADDRLIST`. -/
def procmsgDIRECTC2CADDRLIST (env : FrameEnv) (buf : Frame) :
    Except SessionFault (Session × Nat) :=
  if s.chn.config = .disabled then pure (s, 1)
  else if s.chn.directState ≠ .inactive ∧ s.chn.directState ≠ .waitingIncoming then pure (s, 0)
  else
    let s := if s.outgoing ∨ s.chn.config = .connectOnly then s.setDirectState .connecting else s
    if env.calloc = false then pure ({ s with direct := none }, 1)
    else if env.malloc = false then pure ({ s with direct := some .fresh }, 1)
    else s.directListed env buf

/-- `procmsg_PICA_PROTO_DIRECTC2C_FAILED`; `FAILEDTOCONNECT` is overwritten at once. -/
def procmsgDIRECTC2CFAILED (env : FrameEnv) (_buf : Frame) :
    Except SessionFault (Session × Nat) :=
  if s.chn.directState ≠ .waitingIncoming then pure (s, 0)
  else if s.chn.config = .disabled then pure (s, 0)
  else if s.outgoing then pure (s, 0)
  else
    match s.direct with
    | none => .error .nullPtr
    | some d => do
        let (d, _) ← d.connectNext env.connect
        pure ({ s with direct := some d }.setDirectState .connecting, 1)

/-- `procmsg_PICA_PROTO_DIRECTC2C_SWITCH`. -/
def procmsgDIRECTC2CSWITCH (_buf : Frame) : Except SessionFault (Session × Nat) :=
  if s.chn.SwitchAllowed then pure ({ s with chn := { s.chn with switchedRead := true } }, 1)
  else pure (s, 0)

def procmsgMSGUTF8 (env : FrameEnv) (_buf : Frame) : Except SessionFault (Session × Nat) :=
  if s.chn.state ≠ .active then pure (s, 0)
  else do
    let (s, mp) ← (s.called .newmsg).push env.mem
      (shortFrame Proto.MSGOK env.file.r₀ env.file.r₁)
    pure (s, if mp then 1 else 0)

def procmsgMSGOK (_buf : Frame) : Except SessionFault (Session × Nat) :=
  pure (s.called .msgok, 1)

/-- The callbacks of a handler of the file transfer that turns `c` into `c'` and returns
`ret`. -/
def fileCallbacks (c : FileChan) (buf : Frame) (c' : FileChan) (ret : Nat) : List Callback :=
  if byteAt buf 0 = Proto.SENDFILEREQUEST then
    if c.recvState = .idle ∧ validateFileName ((buf.drop 12).take (load16 buf 2 - 8)) then
      [.acceptFile]
    else []
  else if ret = 0 then []
  else if byteAt buf 0 = Proto.ACCEPTEDFILE then [.acceptedFile]
  else if byteAt buf 0 = Proto.DENIEDFILE then [.deniedFile]
  else if byteAt buf 0 = Proto.FILEFRAGMENT then
    .fileProgress :: if c'.finishedRecv ≠ c.finishedRecv then [.fileFinished] else []
  else if byteAt buf 0 = Proto.FILECONTROL then [.fileControl]
  else []

/-- The handlers of `Client/FileTransfer.lean`. -/
def procmsgFile (env : FrameEnv) (buf : Frame) : Except SessionFault (Session × Nat) :=
  match Client.procmsgFile env.file s.file buf with
  | .error e => .error (.file e)
  | .ok (c, ret) => do
      let s ← { s with calls := s.calls ++ fileCallbacks s.file buf c ret }.withFile c
      pure (s, ret)

end Session

/-- A handler as `PICA_processmsg` calls it. -/
def sessionFn (h : Session → Frame → Except SessionFault (Session × Nat)) :
    Except SessionFault Session → Frame → Except SessionFault Session × Nat
  | .error e, _ => (.error e, 0)
  | .ok s, buf =>
      match h s buf with
      | .error e => (.error e, 0)
      | .ok (s, r) => (.ok s, r)

namespace Session

/-- `c2c_messages`. -/
def c2cMessages (env : FrameEnv) : List (MsgInfo (Except SessionFault Session)) :=
  [⟨Proto.MSGUTF8, .varSize, 2, sessionFn (·.procmsgMSGUTF8 env), sz_int16⟩,
   ⟨Proto.MSGOK, .fixedSize, 4, sessionFn procmsgMSGOK, sz_four⟩,
   ⟨Proto.SENDFILEREQUEST, .varSize, 2, sessionFn (·.procmsgFile env), sz_int16⟩,
   ⟨Proto.ACCEPTEDFILE, .fixedSize, 4, sessionFn (·.procmsgFile env), sz_four⟩,
   ⟨Proto.DENIEDFILE, .fixedSize, 4, sessionFn (·.procmsgFile env), sz_four⟩,
   ⟨Proto.FILEFRAGMENT, .varSize, 2, sessionFn (·.procmsgFile env), sz_int16⟩,
   ⟨Proto.FILECONTROL, .fixedSize, 4, sessionFn (·.procmsgFile env), sz_four⟩,
   ⟨Proto.DIRECTC2C_ADDRLIST, .varSize, 2, sessionFn (·.procmsgDIRECTC2CADDRLIST env), sz_int16⟩,
   ⟨Proto.DIRECTC2C_FAILED, .fixedSize, 4, sessionFn (·.procmsgDIRECTC2CFAILED env), sz_four⟩,
   ⟨Proto.DIRECTC2C_SWITCH, .fixedSize, 4, sessionFn procmsgDIRECTC2CSWITCH, sz_four⟩,
   ⟨Proto.C2CCONNREQ, .fixedSize, 4, sessionFn (·.procmsgC2CCONNREQ env), sz_four⟩,
   ⟨Proto.INITRESPOK, .fixedSize, 4, sessionFn (·.procmsgINITRESPC2c env), sz_four⟩,
   ⟨Proto.VERDIFFER, .fixedSize, 4, sessionFn (·.procmsgINITRESPC2c env), sz_four⟩]

end Session

end Client
end PicaPica
