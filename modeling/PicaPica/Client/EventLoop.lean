import PicaPica.Client.Session

/-!
# Calls for a channel (`PICA_event_loop`)

A pass of the event loop calls `process_c2c` and `process_directc2c` for the channel, and
the listener accepts connections meanwhile.  `SessionEvent` lists the calls, and
`SessionEvent.enabled` says when the loop makes them: a socket is only reported writable if
the loop has asked for it.
-/

namespace PicaPica
namespace Client

open Machine

namespace Session

variable (s : Session)

/-! ## Writing and reading -/

/-- The result of `PICA_write_ssl`. -/
def writeRet : Code → Ret
  | .ok => .ok
  | .errServ => .errServ
  | _ => .errSsl

/-- `PICA_write_c2c`; a channel it has closed is marked. -/
def writeC2c (r : SslWrite) : Except SessionFault (Session × Ret) :=
  match Client.writeC2c r s.chn with
  | none => .error .exited
  | some w =>
      if s.chn.switchedWrite ∧ s.direct = none then .error .nullPtr
      else if s.chn.switchedWrite ∧ s.direct.any (·.freed) then .error .freedDirect
      else if w.closed then do
        let s ← { s with chn := w.chn }.closeC2c
        pure (s, writeRet w.ret)
      else pure ({ s with chn := w.chn }, writeRet w.ret)

/-- `ssl_to_read` of `PICA_read_c2c`: the session of the direct connection after the
switch, and otherwise none. -/
def sslToRead : Except SessionFault (Option Tls) :=
  if s.chn.switchedRead then
    match s.direct with
    | none => .error .nullPtr
    | some d =>
        if d.freed then .error .freedDirect
        else
          match d.ssl with
          | none => .error .nullPtr
          | some t => pure (some t)
  else pure none

/-- `PICA_read_c2c` in front of `PICA_processdatastream`; `got` tells whether `SSL_read` has
returned bytes or asks for a repetition. -/
def readC2c (got : Bool) : Except SessionFault (Session × Ret) :=
  if s.chn.state = .waitingRep ∨ s.chn.state = .waitingC2cProtoVer ∨ s.chn.state = .active then do
    let _ ← s.sslToRead
    pure (if got then ({ s with reading := true }, .ok) else (s, .errSsl))
  else .error .exited

/-! ## `process_c2c` -/

/-- What a call of `process_c2c` finds. -/
structure PollIo where
  /-- the socket of the channel and that of the direct connection are ready -/
  rfds : Bool
  wfds : Bool
  directRfds : Bool
  directWfds : Bool
  /-- `check_async_connect_result` -/
  connected : Bool
  /-- the call on the present session, and the first one in the next stage -/
  ssl : SslCall
  next : SslCall
  /-- `SSL_new` and `SSL_set_fd` -/
  sslNew : Bool
  cert : Option PeerCert
  /-- `peer_cert_verify_cb` -/
  answer : Bool
  mem : Memory
  write : SslWrite
  got : Bool
  /-- memory for the fragment, and what `fread` returns -/
  memFile : Bool
  fread : List UInt8
  /-- `PICA_C2C_ACTIVATE_TIMEOUT` has passed -/
  late : Bool

/-- `c2c_stage2_startanontls`. -/
def stage2Startanontls (io : PollIo) : Session × Ret :=
  if io.sslNew = false then (s, .errSsl)
  else if processAsyncSslErrors io.next = .ok then (s.setState .waitingAnonTls, .ok)
  else (s, processAsyncSslErrors io.next)

/-- `c2c_stage3_connid`. -/
def stage3Connid (io : PollIo) : Except SessionFault (Session × Ret) := do
  let ids := if s.outgoing then s.accId.1 ++ s.peerId.1 else s.peerId.1 ++ s.accId.1
  let (s, mp) ← s.push io.mem (head Proto.CONNID ++ ids)
  pure (if mp then (s.setState .connid, .ok) else (s, .errNoMem))

/-- `c2c_stage4_shutdownanontls`; `SSL_shutdown` must not return 1 here. -/
def stage4Shutdownanontls (io : PollIo) : Session × Ret :=
  match io.next with
  | .done => (s, .one)
  | .error => (s, .errSsl)
  | _ => (s.setState .waitingAnonTlsShutdown, .ok)

/-- `c2c_stage5_starttls`. -/
def stage5Starttls (io : PollIo) : Session × Ret :=
  if io.sslNew = false ∨ io.next = .closed ∨ io.next = .error then (s, .errSsl)
  else (s.setState .waitingTls, .ok)

/-- `c2c_stage6_sendc2cconnreq`. -/
def stage6Sendc2cconnreq (io : PollIo) : Except SessionFault (Session × Ret) := do
  let (s, mp) ← s.push io.mem (head Proto.C2CCONNREQ ++
    [UInt8.ofNat Proto.C2C_VER_HIGH, UInt8.ofNat Proto.C2C_VER_LOW])
  pure (if mp then (s.setState .waitingRep, .ok) else (s, .errNoMem))

/-- `c2c_verify_peer_cert` and what follows it. -/
def tlsDone (io : PollIo) : Except SessionFault (Session × Ret) :=
  let v := verifyPeerCertCommon io.cert s.peerId io.answer
  let s := if v.2 then s.called .peerCertVerify else s
  if v.1 ≠ .ok then pure (s, v.1)
  else if s.outgoing then s.stage6Sendc2cconnreq io
  else pure (s.setState .waitingC2cProtoVer, .ok)

/-- The case `PICA_C2C_STATE_WAITINGTLS`. -/
def pollTls (io : PollIo) : Except SessionFault (Session × Ret) :=
  match io.ssl with
  | .done => s.tlsDone io
  | .closed => pure (s, .errSsl)
  | .error => pure (s, .errSsl)
  | _ => pure (s, .ok)

/-- The channel is used, which `PICA_close_c2c` may have freed. -/
def use : Except SessionFault Session :=
  if s.closed then .error .closedChannel else pure s

/-- The write when the socket is writable. -/
def pollWrite (io : PollIo) : Except SessionFault (Session × Ret) :=
  if io.wfds then s.writeC2c io.write else pure (s, .ok)

/-- The case `PICA_C2C_STATE_CONNID`: the result of the write is overwritten when nothing is
left to write. -/
def pollConnid (io : PollIo) : Except SessionFault (Session × Ret) := do
  let (s, ret) ← s.pollWrite io
  let s ← s.use
  pure (if s.chn.writePos = 0 then s.stage4Shutdownanontls io else (s, ret))

/-- `PICA_send_file_fragment`. -/
def sendFileFragment (io : PollIo) : Except SessionFault (Session × Ret) :=
  match Client.sendFileFragment io.memFile io.fread s.file with
  | .error e => .error (.file e)
  | .ok (c, code) => do
      let cbs := (if c.sendPos ≠ s.file.sendPos then [.fileProgress] else []) ++
        if c.finishedSend ≠ s.file.finishedSend then [.fileFinished] else []
      let s ← { s with calls := s.calls ++ cbs }.withFile c
      pure (s, if code = .ok then .ok else .errFile)

/-- A fragment of the file is queued when nothing else is. -/
def pollFragment (io : PollIo) : Except SessionFault (Session × Ret) :=
  if s.file.sendState = .sending ∧ s.chn.writePos = 0 then s.sendFileFragment io
  else pure (s, .ok)

/-- The write of the case `PICA_C2C_STATE_ACTIVE`. -/
def pollActiveWrite (io : PollIo) : Except SessionFault (Session × Ret) :=
  if io.wfds ∨ s.chn.directState = .active ∧ io.directWfds then do
    let (s, ret) ← s.pollFragment io
    if 0 < s.chn.writePos then s.writeC2c io.write else pure (s, ret)
  else pure (s, .ok)

/-- What follows the write: the channel is used in any case, and read from if nothing has
failed. -/
def pollRead (io : PollIo) (ready : Bool) (ret : Ret) : Except SessionFault (Session × Ret) := do
  let s ← s.use
  if ret = .ok ∧ ready then s.readC2c io.got else pure (s, ret)

/-- The `switch` of `process_c2c`, without the handling of messages. -/
def pollSwitch (io : PollIo) : Except SessionFault (Session × Ret) :=
  match s.chn.state with
  | .new => pure (s, .ok)
  | .connecting =>
      if io.wfds = false then pure (s, .ok)
      else if io.connected then pure (s.stage2Startanontls io)
      else pure (s, .errSock)
  | .waitingAnonTls =>
      if io.wfds = false ∧ io.rfds = false then pure (s, .ok)
      else if io.ssl = .done then s.stage3Connid io
      else pure (s, processAsyncSslErrors io.ssl)
  | .connid => s.pollConnid io
  | .waitingAnonTlsShutdown =>
      if io.wfds = false ∧ io.rfds = false then pure (s, .ok)
      else
        match io.ssl with
        | .done => pure (s.stage5Starttls io)
        | .closed => pure (s, .ok)
        | r => pure (s, processAsyncSslErrors r)
  | .waitingTls =>
      if io.wfds = false ∧ io.rfds = false then pure (s, .ok) else s.pollTls io
  | .waitingRep => do
      let (s, ret) ← s.pollWrite io
      s.pollRead io io.rfds ret
  | .waitingC2cProtoVer => do
      let (s, ret) ← s.pollWrite io
      s.pollRead io io.rfds ret
  | .active => do
      let (s, ret) ← s.pollActiveWrite io
      s.pollRead io (io.rfds || (s.chn.directState = .active && io.directRfds)) ret

/-- The end of `process_c2c`; the event loop closes the channel after an error. -/
def finishC2c (ret : Ret) (late : Bool) : Except SessionFault Session :=
  let ret := if s.chn.state ≠ .active ∧ late then .errTimedOut else ret
  if ret = .ok then pure { s with reading := false }
  else
    let failed := s.chn.state ≠ .new ∧ s.chn.state ≠ .active
    (s.called (if failed then .c2cFailed else .c2cClosed)).closeC2c

/-- `process_c2c` up to the first message. -/
def pollC2c (io : PollIo) : Except SessionFault Session := do
  let (s, ret) ← s.pollSwitch io
  if s.reading then pure s else s.finishC2c ret io.late

/-- A complete message in `PICA_read_c2c`. -/
def frameC2c (env : FrameEnv) (f : Frame) : Except SessionFault Session := do
  let r := processmsg f f.length (.ok s) (c2cMessages env)
  let s ← r.1
  if r.2 = 0 then s.finishC2c .errServ false else pure s

/-! ## `process_directc2c` -/

/-- What a call of `process_directc2c` finds. -/
structure DirectIo where
  rfds : Bool
  wfds : Bool
  connected : Bool
  ssl : SslCall
  cert : Option PeerCert
  answer : Bool
  /-- `find_matching_c2c` returns a channel in front of this one -/
  elsewhere : Bool
  mem : Memory
  memFailed : Memory
  connect : Bool
  r₀ : UInt8
  r₁ : UInt8

/-- `PICA_send_directc2c_switch`. -/
def sendDirectc2cSwitch (io : DirectIo) : Except SessionFault (Session × Bool) :=
  match Client.sendDirectc2cSwitch io.mem s.chn io.r₀ io.r₁ with
  | none => .error .outside
  | some (chn, code) => pure ({ s with chn := chn }, code = .ok)

/-- An accepted connection becomes the direct connection of the channel. -/
def takeAccepted (io : DirectIo) (d : Direct) : Except SessionFault Session :=
  if s.direct.any (·.freed) then .error .freedDirect
  else do
    let (s, sent) ← { s with direct := some (d.verifiedFor s.peerId) }.sendDirectc2cSwitch io
    -- otherwise `next` is read after `PICA_close_directc2c`
    if sent then pure ((s.called .directC2cEstablished).setDirectState .active)
    else .error .freedDirect

/-- The loop over the accepted connections.  The first active one is removed, and the loop
ends behind it, because `next` has been cleared; if no channel takes the connection, it is
closed and `next` is read afterwards. -/
def processAccepted (io : DirectIo) : Except SessionFault Session :=
  match s.accepted.find? (·.state = .active) with
  | none => pure s
  | some d =>
      let s := { s with accepted := s.accepted.eraseP (·.state = .active) }
      if io.elsewhere then pure s
      else if s.chn.directState ≠ .waitingIncoming ∨
          d.peerCert.bind PeerCert.id ≠ some s.peerId then .error .freedDirect
      else
        let v := verifyPeerCertCommon d.peerCert s.peerId io.answer
        let s := if v.2 then s.called .peerCertVerify else s
        if v.1 = .ok then s.takeAccepted io d else .error .freedDirect

/-- `FAILEDTOCONNECT` is told to the peer, who may then connect. -/
def processFailedtoconnect (io : DirectIo) : Except SessionFault Session :=
  if s.chn.directState ≠ .failedToConnect then pure s
  else if s.outgoing ∧ s.chn.config = .allowIncoming then do
    let (s, mp) ← s.push io.memFailed (shortFrame Proto.DIRECTC2C_FAILED io.r₀ io.r₁)
    pure (s.setDirectState (if mp then .waitingIncoming else .inactive))
  else pure (s.setDirectState .inactive)

/-- The case `WAITINGTLS` after `SSL_connect` has returned 1. -/
def directTlsDone (io : DirectIo) (d : Direct) : Except SessionFault Session :=
  let d := d.shaken
  let v := verifyPeerCertCommon io.cert s.peerId io.answer
  let s := if v.2 then s.called .peerCertVerify else s
  if v.1 ≠ .ok then pure { s with direct := some { d with state := .failed } }
  else do
    let d := d.verifiedFor s.peerId
    let (s, sent) ← s.sendDirectc2cSwitch io
    pure { s with direct := some { d with state := if sent then .active else .failed } }

/-- The `switch` of `process_directc2c` over the state of the connection. -/
def directSwitch (io : DirectIo) (d : Direct) : Except SessionFault Session :=
  match d.state with
  | .new => pure s
  | .connecting =>
      if io.wfds = false then pure s
      else if io.connected then pure { s with direct := some (d.startTls io.ssl) }
      else pure { s with direct := some { d with state := .failed } }
  | .waitingTls =>
      if io.wfds = false ∧ io.rfds = false then pure s
      else if io.ssl = .done then s.directTlsDone io d
      else if io.ssl.again then pure s
      else pure { s with direct := some { d with state := .failed } }
  | .failed => do
      let (d, found) ← d.connectNext io.connect
      pure (if found then { s with direct := some d }
        else { s with direct := none }.setDirectState .failedToConnect)
  | .active => pure ((s.setDirectState .active).called .directC2cEstablished)

def processConnecting (io : DirectIo) : Except SessionFault Session :=
  if s.chn.directState ≠ .connecting then pure s
  else
    match s.direct with
    | none => .error .nullPtr
    | some d => if d.freed then .error .freedDirect else s.directSwitch io d

/-- `process_directc2c`. -/
def processDirectc2c (io : DirectIo) : Except SessionFault Session := do
  let s ← s.processAccepted io
  let s ← s.processFailedtoconnect io
  s.processConnecting io

/-! ## Calls of the application -/

/-- The functions of the user interface for a channel. -/
inductive AppCall
  | sendMsg (mem : Memory) (m : List UInt8)
  | sendFile (mem : Bool) (file : OpenRead) (path : Option (List UInt8))
  | acceptFile (mem opened : Bool) (r₀ r₁ : UInt8)
  | denyFile (mem : Bool) (r₀ r₁ : UInt8)
  | pauseFile (mem sending : Bool)
  | resumeFile (mem sending : Bool)
  | cancelFile (mem sending : Bool)

def app : AppCall → Except SessionFault Session
  | .sendMsg mem m =>
      match sendMsg mem s.chn m with
      | none => .error .outside
      | some r => pure { s with chn := r.1 }
  | .sendFile mem file path => s.withFile (sendFile mem file path s.file).1
  | .acceptFile mem opened r₀ r₁ => s.withFile (acceptFile mem opened r₀ r₁ s.file).1
  | .denyFile mem r₀ r₁ => s.withFile (denyFile mem r₀ r₁ s.file).1
  | .pauseFile mem sending => s.withFile (pauseFile mem sending s.file).1
  | .resumeFile mem sending => s.withFile (resumeFile mem sending s.file).1
  | .cancelFile mem sending =>
      match cancelFile mem sending s.file with
      | .error e => .error (.file e)
      | .ok r => s.withFile r.1

/-- The call answers the offer of a file. -/
def AppCall.answers : AppCall → Bool
  | .acceptFile _ _ _ _ => true
  | .denyFile _ _ _ => true
  | _ => false

/-! ## Runs -/

/-- `PICA_event_loop` asks whether the socket of the channel is writable.  In `WAITINGTLS`
it depends on `want_write`, which is taken to be set. -/
def wantsWrite : Bool :=
  s.chn.state ≠ .new ∧ s.chn.directState ≠ .active ∧
    (s.chn.writePos ≠ 0 ∨ s.chn.state = .connecting ∨ s.chn.state = .waitingTls ∨
      s.file.sendState = .sending)

/-- `PICA_event_loop` asks for the socket of the direct connection. -/
def watchesDirect : Bool :=
  s.chn.state = .active ∧ (s.chn.directState = .connecting ∨ s.chn.directState = .active) ∧
    s.direct.any (·.state ≠ .new)

end Session

/-- What happens to a channel. -/
inductive SessionEvent
  /-- `c2c_start`: the connection to the node is made at once or in progress, or fails -/
  | start (connected : Option Bool) (io : Session.PollIo)
  | poll (io : Session.PollIo)
  | frame (env : Session.FrameEnv) (f : Frame)
  /-- the bytes read do not begin with a message -/
  | garbage
  | finish (late : Bool)
  /-- `listener_add_connection` -/
  | listenerAdd (r : SslCall)
  /-- `process_listener_conn` for the accepted connection at a position -/
  | listenerConn (i : Nat) (r : SslCall) (cert : Option PeerCert)
  | direct (io : Session.DirectIo)
  | app (a : Session.AppCall)
  | close

namespace Session

/-- `c2c_start`. -/
def c2cStart (s : Session) (connected : Option Bool) (io : PollIo) :
    Except SessionFault Session :=
  let s := s.setState .connecting
  match connected with
  | none => (s.called .c2cFailed).closeC2c
  | some false => pure s
  | some true =>
      let r := s.stage2Startanontls io
      if r.2 = .ok then pure r.1 else (r.1.called .c2cFailed).closeC2c

/-- The call for an event. -/
def react (s : Session) : SessionEvent → Except SessionFault Session
  | .start connected io => s.c2cStart connected io
  | .poll io => s.pollC2c io
  | .frame env f => s.frameC2c env f
  | .garbage => s.finishC2c .errServ false
  | .finish late => s.finishC2c .ok late
  | .listenerAdd r => pure { s with accepted := (Direct.accepted r).toList ++ s.accepted }
  | .listenerConn i r cert => pure { s with
      accepted := s.accepted.take i ++
        (s.accepted[i]?.bind fun d => d.processListenerConn r cert).toList ++
        s.accepted.drop (i + 1) }
  | .direct io => s.processDirectc2c io
  | .app a => s.app a
  | .close => s.closeC2c

end Session

/-- When the event loop or the application makes the call. -/
def SessionEvent.enabled (s : Session) (e : SessionEvent) : Bool :=
  !s.closed &&
    match e with
    | .start _ _ => s.chn.state = .new
    | .poll io => !s.reading && (!io.wfds || s.wantsWrite) &&
        (!(io.directRfds || io.directWfds) || s.watchesDirect)
    | .frame env f => s.reading && msggetsize f f.length (Session.c2cMessages env) = f.length
    | .garbage => s.reading
    | .finish _ => s.reading
    | .listenerAdd _ => s.listener.isSome
    | .listenerConn _ _ _ => s.listener.isSome
    | .direct io => !s.reading && s.chn.config ≠ .disabled &&
        (!(io.rfds || io.wfds) || s.watchesDirect)
    | .app a => s.chn.state = .active || a.answers
    | .close => true

/-- One event; there is no successor when it cannot happen or does not return. -/
def sessionStep (s : Session) (e : SessionEvent) : Option Session :=
  if e.enabled s then (s.react e).toOption else none

end Client
end PicaPica
