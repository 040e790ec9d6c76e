import PicaPica.Client.ChannelList
import PicaPica.Client.Clnodelist
import PicaPica.Client.LoginNotices
import PicaPica.Client.SkyNet
import PicaPica.Lib.Stages

/-!
# The connection of a client to a node (`struct PICA_c2n`)

`process_c2n` takes a connection through the login: an anonymous TLS session, `INITREQ` and its
answer, the end of that session, and a second session in which the node is the TLS client and
this client shows its certificate.  `PICA_event_loop` reports with `c2n_established_cb`,
`c2n_failed_cb` and `c2n_closed_cb` what becomes of it, and `SkyNet` believes these reports.

A pass of the event loop is one event.  The messages that `PICA_processdatastream` finds in the
bytes of a read come with it, and so does what the surroundings answer.  The bytes in the two
buffers are not part of the state.
-/

namespace PicaPica
namespace Client

open Machine

/-- `enum PICA_c2n_state`, without `PICA_C2N_STATE_NEW`. -/
inductive C2nStage
  | connecting
  | waitingAnonTls
  | waitingRep
  | waitingAnonTlsShutdown
  | waitingTls
  | connected
deriving DecidableEq

/-- The callbacks for a connection. -/
inductive C2nReport
  | established
  | failed (error : Int)
  | closed (error : Int)
deriving DecidableEq

/-- The number of a result. -/
def Ret.code : Ret → Int
  | .ok => 0
  | .errNoMem => -2
  | .errSsl => -3
  | .errSock => -4
  | .errServ => -5
  | .errNoPeerCert => -8
  | .errInvPeerCert => -9
  | .errDisconnect => -10
  | .errFile => -21
  | .errTimedOut => -24
  | .one => 1

/-- `struct PICA_c2n`. -/
structure NodeConn where
  srvAddr : SockAddr
  /-- `multilogin_policy` is not `PICA_MULTILOGIN_PROHIBIT` -/
  multilogin : Bool
  state : C2nStage
  initRespOk : Int
  nodeVerMajor : Nat
  nodeVerMinor : Nat
  /-- the list of channels, and the messages placed in the write buffer -/
  chans : ChannelList
  /-- `acc->id` and `multilogin_last_timestamp` -/
  notices : Notices
  nodelistCalls : List NodelistCall
  multiloginCalls : List MultiloginCb
  reports : List C2nReport
  /-- `PICA_close_c2n` was called -/
  freed : Bool

/-- What the surroundings answer while a message is handled. -/
structure C2nMsgEnv (Pub : Type) where
  call : ChannelList.CallIo
  start : StartIo
  mem : Bool
  rand : UInt8 × UInt8
  notice : NoticeEnv Pub

/-- What a pass of the event loop finds. -/
structure C2nIo (Pub Priv : Type) where
  rfds : Bool
  wfds : Bool
  /-- `check_async_connect_result` -/
  connected : Bool
  /-- `SSL_new` and `SSL_set_fd` -/
  sslNew : Bool
  /-- the call on the present session, and the first one in the next stage -/
  ssl : SslCall
  next : SslCall
  mem : Bool
  rand : UInt8 × UInt8
  write : Code
  /-- `PICA_read_ssl` -/
  got : Bool
  /-- the complete messages in the read buffer -/
  msgs : List (C2nMsgEnv Pub × Frame)
  /-- the bytes behind them are no message -/
  wrong : Bool
  notice : StageEnv Priv

namespace NodeConn

variable {Pub Priv : Type}

section Handlers

variable (ntop6 : List UInt8 → List Char) (final : Pub → List UInt8 → List UInt8 → Int)
  (c : NodeConn)

/-- `c2n_writebuf_push` of a complete message. -/
def push (f : Frame) : NodeConn :=
  { c with chans := { c.chans with out := c.chans.out ++ [f] } }

def procmsgINITRESP (buf : Frame) : Option (NodeConn × Nat) :=
  if c.state ≠ .waitingRep then some (c, 0)
  else if byteAt buf 0 = Proto.INITRESPOK then some ({ c with initRespOk := 1 }, 1)
  else if byteAt buf 0 = Proto.VERDIFFER then
    some ({ c with
      initRespOk := -1
      nodeVerMajor := byteAt buf 2
      nodeVerMinor := byteAt buf 3 }, 1)
  else some (c, 0)

def procmsgCONNREQINC (env : C2nMsgEnv Pub) (buf : Frame) : Option (NodeConn × Nat) :=
  (c.chans.procmsgCONNREQINC env.call buf).map fun r => ({ c with chans := r.1 }, r.2)

/-- `procmsg_FOUND` and `procmsg_NOTFOUND`. -/
def procmsgReply (env : C2nMsgEnv Pub) (buf : Frame) : Option (NodeConn × Nat) :=
  let r := c.chans.procmsgReply env.start buf
  some ({ c with chans := r.list }, r.ret)

def procmsgCLNODELIST (buf : Frame) : Option (NodeConn × Nat) :=
  match Client.procmsgCLNODELIST ntop6 buf with
  | .error _ => none
  | .ok (calls, ret) => some ({ c with nodelistCalls := c.nodelistCalls ++ calls }, ret)

def procmsgPINGREQ (env : C2nMsgEnv Pub) (_buf : Frame) : Option (NodeConn × Nat) :=
  if env.mem then some (c.push (head Proto.PINGREP ++ [env.rand.1, env.rand.2]), 1)
  else some (c, 0)

def procmsgMULTILOGIN (env : C2nMsgEnv Pub) (buf : Frame) : Option (NodeConn × Nat) :=
  match c.notices.procmsgMULTILOGIN final env.notice buf with
  | .error _ => none
  | .ok (notices, cb, ret) =>
      some ({ c with
        notices := notices
        multiloginCalls := c.multiloginCalls ++ cb.toList }, ret)

end Handlers

/-- A handler as `PICA_processmsg` calls it. -/
def c2nFn (h : NodeConn → Frame → Option (NodeConn × Nat)) :
    Option NodeConn → Frame → Option NodeConn × Nat
  | none, _ => (none, 0)
  | some c, buf =>
      match h c buf with
      | none => (none, 0)
      | some (c, r) => (some c, r)

section Loop

variable (ntop6 : List UInt8 → List Char) (final : Pub → List UInt8 → List UInt8 → Int)

/-- `c2n_messages`. -/
def c2nMessages (env : C2nMsgEnv Pub) : List (MsgInfo (Option NodeConn)) :=
  [⟨Proto.CONNREQINC, .fixedSize, 30, c2nFn (·.procmsgCONNREQINC env), sz_thirty⟩,
   ⟨Proto.NOTFOUND, .fixedSize, 30, c2nFn (·.procmsgReply env), sz_thirty⟩,
   ⟨Proto.FOUND, .fixedSize, 30, c2nFn (·.procmsgReply env), sz_thirty⟩,
   ⟨Proto.CLNODELIST, .varSize, 2, c2nFn (·.procmsgCLNODELIST ntop6), sz_int16⟩,
   ⟨Proto.PINGREQ, .fixedSize, 4, c2nFn (·.procmsgPINGREQ env), sz_four⟩,
   ⟨Proto.INITRESPOK, .fixedSize, 4, c2nFn procmsgINITRESP, sz_four⟩,
   ⟨Proto.VERDIFFER, .fixedSize, 4, c2nFn procmsgINITRESP, sz_four⟩,
   ⟨Proto.MULTILOGIN, .varSize, 2, c2nFn (·.procmsgMULTILOGIN final env), sz_int16⟩]

variable (c : NodeConn)

/-- The calls of `PICA_processmsg` for the messages of a read, up to the first one that is
refused; the second result tells whether there is none. -/
def handleMsgs : NodeConn → List (C2nMsgEnv Pub × Frame) → Option (NodeConn × Bool)
  | c, [] => some (c, true)
  | c, (env, f) :: msgs =>
      let r := processmsg f f.length (some c) (c2nMessages ntop6 final env)
      r.1.bind fun c => if r.2 = 0 then some (c, false) else handleMsgs c msgs

/-- `PICA_read_c2n`. -/
def readC2n (io : C2nIo Pub Priv) : Option (NodeConn × Int) :=
  if io.got = false then some (c, Ret.errSsl.code)
  else
    (c.handleMsgs ntop6 final io.msgs).map fun r =>
      (r.1, if r.2 = false ∨ io.wrong then Ret.errServ.code else 0)

/-- `c2n_stage2_startanontls`. -/
def stage2Startanontls (io : C2nIo Pub Priv) : NodeConn × Int :=
  if io.sslNew = false then (c, Ret.errSsl.code)
  else if processAsyncSslErrors io.next = .ok then ({ c with state := .waitingAnonTls }, 0)
  else (c, (processAsyncSslErrors io.next).code)

/-- `c2n_stage3_sendreq`. -/
def stage3Sendreq (io : C2nIo Pub Priv) : NodeConn × Int :=
  if io.mem then
    ({ c.push (head Proto.INITREQ ++ [UInt8.ofNat Proto.VER_HIGH, UInt8.ofNat Proto.VER_LOW]) with
      state := .waitingRep }, 0)
  else (c, Ret.errNoMem.code)

/-- `c2n_stage4_shutdownanontls`; `SSL_shutdown` must not return 1 here. -/
def stage4Shutdownanontls (io : C2nIo Pub Priv) : NodeConn × Int :=
  match io.next with
  | .done => (c, Ret.one.code)
  | .error => (c, Ret.errSsl.code)
  | _ => ({ c with state := .waitingAnonTlsShutdown }, 0)

/-- `c2n_stage5_starttls`; `SSL_accept` must not return 1 here. -/
def stage5Starttls (io : C2nIo Pub Priv) : NodeConn × Int :=
  if io.sslNew = false then (c, Ret.errSsl.code)
  else
    match io.next with
    | .done => (c, Ret.one.code)
    | .closed => (c, Ret.errSsl.code)
    | .error => (c, Ret.errSsl.code)
    | _ => ({ c with state := .waitingTls }, 0)

/-- `c2n_stage6_nodelistrequest` with `c2n_optstage7_multilogin`. -/
def stage6Nodelistrequest (sign : Priv → List UInt8 → List UInt8) (io : C2nIo Pub Priv) :
    NodeConn × Int :=
  if io.mem then
    let c := c.push (head Proto.CLNODELISTREQ ++ [io.rand.1, io.rand.2])
    let c := { c with
      state := .connected
      chans := { c.chans with connected := true }
      reports := c.reports ++ [C2nReport.established] }
    if c.multilogin then
      match c2nOptstage7Multilogin sign c.notices.id c.srvAddr io.notice with
      | (ret, some f) => (c.push f, ret)
      | (ret, none) => (c, ret)
    else (c, 0)
  else (c, Ret.errNoMem.code)

/-- What follows from the answer to `INITREQ`. -/
def answered (io : C2nIo Pub Priv) (ret : Int) : NodeConn × Int :=
  if ret = 0 ∧ c.initRespOk ≠ 0 then
    if c.initRespOk = 1 then c.stage4Shutdownanontls io
    else if Proto.VER_HIGH < c.nodeVerMajor ∨
        c.nodeVerMajor = Proto.VER_HIGH ∧ Proto.VER_LOW < c.nodeVerMinor then (c, errProtoNew)
    else (c, errProtoOld)
  else (c, ret)

/-- `PICA_write_c2n` and `PICA_read_c2n`, where the result of the former is forgotten if there is
something to read. -/
def transfer (io : C2nIo Pub Priv) : Option (NodeConn × Int) :=
  let ret := if io.wfds then (Session.writeRet io.write).code else 0
  if io.rfds then c.readC2n ntop6 final io else some (c, ret)

/-- `process_c2n`. -/
def processC2n (sign : Priv → List UInt8 → List UInt8) (io : C2nIo Pub Priv) :
    Option (NodeConn × Int) :=
  match c.state with
  | .connecting =>
      if io.wfds then
        some (if io.connected then c.stage2Startanontls io else (c, Ret.errSock.code))
      else some (c, 0)
  | .waitingAnonTls =>
      if io.wfds ∨ io.rfds then
        some (if io.ssl = .done then c.stage3Sendreq io
          else (c, (processAsyncSslErrors io.ssl).code))
      else some (c, 0)
  | .waitingRep =>
      (c.transfer ntop6 final io).map fun r => r.1.answered io r.2
  | .waitingAnonTlsShutdown =>
      if io.wfds ∨ io.rfds then
        some (match io.ssl with
          | .closed => (c, 0)
          | .done => c.stage5Starttls io
          | r => (c, (processAsyncSslErrors r).code))
      else some (c, 0)
  | .waitingTls =>
      if io.wfds ∨ io.rfds then
        some (match io.ssl with
          | .done => c.stage6Nodelistrequest sign io
          | .closed => (c, Ret.errSsl.code)
          | r => (c, (processAsyncSslErrors r).code))
      else some (c, 0)
  | .connected => c.transfer ntop6 final io

/-- The part of `PICA_event_loop` for a connection. -/
def eventLoop (sign : Priv → List UInt8 → List UInt8) (io : C2nIo Pub Priv) : Option NodeConn :=
  (c.processC2n ntop6 final sign io).map fun (c, ret) =>
    if ret = 0 then c
    else
      { c with
        reports := c.reports ++
          [if c.state = .connected then C2nReport.closed ret else C2nReport.failed ret]
        freed := true }

/-- `PICA_new_c2n` behind `socket`: `connect` is done at once, or is in progress. -/
def newC2n (srvAddr : SockAddr) (accId : Id) (multilogin done : Bool) (io : C2nIo Pub Priv) :
    NodeConn × Int :=
  let c : NodeConn :=
    { srvAddr := srvAddr
      multilogin := multilogin
      state := .connecting
      initRespOk := 0
      nodeVerMajor := 0
      nodeVerMinor := 0
      chans := { ChannelList.init with connected := false }
      notices := .fresh accId
      nodelistCalls := []
      multiloginCalls := []
      reports := []
      freed := false }
  if done then c.stage2Startanontls io else (c, 0)

end Loop

end NodeConn

/-- What happens to a connection. -/
inductive C2nEvent (Pub Priv : Type)
  | pass (io : C2nIo Pub Priv)
  /-- `PICA_new_c2c` -/
  | newC2c (peerId : Id) (calloc mem : Bool)
  /-- `process_c2c` brings a channel to another stage, or it is closed -/
  | proceed (p : Ptr) (st : C2cState)
  | closeC2c (p : Ptr)
  /-- `PICA_close_c2n` of the application -/
  | close

section Step

variable {Pub Priv : Type} (ntop6 : List UInt8 → List Char)
  (final : Pub → List UInt8 → List UInt8 → Int) (sign : Priv → List UInt8 → List UInt8)

/-- The connection after an event; nothing happens to one that is closed. -/
def c2nStep (c : NodeConn) (e : C2nEvent Pub Priv) : Option NodeConn :=
  if c.freed then none
  else
    match e with
    | .pass io =>
        if io.msgs.all fun m =>
            msggetsize m.2 m.2.length (NodeConn.c2nMessages ntop6 final m.1) = m.2.length then
          c.eventLoop ntop6 final sign io
        else none
    | .newC2c peerId calloc mem =>
        (c.chans.newC2c peerId calloc mem).map fun r => { c with chans := r.1 }
    | .proceed p st => (channelStep c.chans (.proceed p st)).map fun l => { c with chans := l }
    | .closeC2c p => (channelStep c.chans (.close p)).map fun l => { c with chans := l }
    | .close => some { c with freed := true }

end Step

/-- The number of the state. -/
def C2nStage.number : C2nStage → Nat
  | .connecting => 0
  | .waitingAnonTls => 1
  | .waitingRep => 2
  | .waitingAnonTlsShutdown => 3
  | .waitingTls => 4
  | .connected => 5

namespace NodeConn

variable {Pub Priv : Type} {ntop6 : List UInt8 → List Char}
  {final : Pub → List UInt8 → List UInt8 → Int} {sign : Priv → List UInt8 → List UInt8}
  {c c' d : NodeConn} {io : C2nIo Pub Priv} {env : C2nMsgEnv Pub} {f : Frame}

/-! ## Messages -/

/-- The login is where it was. -/
structure Kept (c c' : NodeConn) : Prop where
  state : c'.state = c.state
  reports : c'.reports = c.reports
  freed : c'.freed = c.freed
  connected : c'.chans.connected = c.chans.connected

theorem Kept.refl : Kept c c :=
  ⟨rfl, rfl, rfl, rfl⟩

theorem Kept.trans (h : Kept c c') (h' : Kept c' d) : Kept c d :=
  ⟨h'.state.trans h.state, h'.reports.trans h.reports, h'.freed.trans h.freed,
    h'.connected.trans h.connected⟩

theorem closeC2c_connected {l : ChannelList} {p : Ptr} :
    (l.closeC2c p).connected = l.connected := by
  rw [ChannelList.closeC2c]
  split <;> rfl

theorem c2cStart_connected {l : ChannelList} {p : Ptr} {start : StartIo} :
    (l.c2cStart p start).1.connected = l.connected := by
  have hstage : ∀ l : ChannelList, (l.stage2Startanontls p start).1.connected = l.connected := by
    intro l
    rw [ChannelList.stage2Startanontls]
    split_ifs <;> rfl
  rw [ChannelList.c2cStart]
  cases start.connect with
  | none => exact closeC2c_connected
  | some now =>
      cases now with
      | false => rfl
      | true =>
          dsimp only
          split_ifs
          · exact hstage _
          · exact closeC2c_connected.trans (hstage _)

theorem newC2c_connected
    {l : ChannelList} {r : ChannelList × NewRet} {peerId : Id} {calloc mem : Bool}
    (h : l.newC2c peerId calloc mem = some r) :
    r.1.connected = l.connected := by
  rw [ChannelList.newC2c] at h
  by_cases hconn : l.connected = false
  · rw [if_pos hconn] at h
    cases h
    rfl
  rw [if_neg hconn] at h
  by_cases hcalloc : calloc = false
  · rw [if_pos hcalloc] at h
    cases h
    rfl
  rw [if_neg hcalloc] at h
  obtain ⟨⟨l', p⟩, halloc, hr⟩ := Option.bind_eq_some_iff.mp h
  obtain ⟨links, -, hl⟩ := Option.map_eq_some_iff.mp halloc
  cases hl
  cases mem <;> cases hr <;> rfl

theorem procmsgCONNREQINC_connected
    {l : ChannelList} {r : ChannelList × Nat} {call : ChannelList.CallIo}
    (h : l.procmsgCONNREQINC call f = some r) :
    r.1.connected = l.connected := by
  rw [ChannelList.procmsgCONNREQINC] at h
  dsimp only at h
  by_cases hmem : call.mem = false
  · rw [if_pos hmem] at h
    cases h
    rfl
  rw [if_neg hmem] at h
  by_cases haccept : call.accept = false
  · rw [if_pos haccept] at h
    cases h
    rfl
  rw [if_neg haccept] at h
  by_cases hcalloc : call.calloc = false
  · rw [if_pos hcalloc] at h
    cases h
    rfl
  rw [if_neg hcalloc] at h
  obtain ⟨⟨l', p⟩, halloc, hr⟩ := Option.bind_eq_some_iff.mp h
  obtain ⟨links, -, hl⟩ := Option.map_eq_some_iff.mp halloc
  cases hl
  by_cases hwritten : call.written = false
  · rw [if_pos hwritten] at hr
    cases hr
    rfl
  · rw [if_neg hwritten] at hr
    cases hr
    exact c2cStart_connected

theorem procmsgReply_connected {l : ChannelList} {start : StartIo} :
    (l.procmsgReply start f).list.connected = l.connected := by
  rw [ChannelList.procmsgReply]
  split_ifs
  · rw [ChannelList.procmsgFOUND]
    cases l.findPeer (idAt f 2) with
    | none => rfl
    | some rq => exact c2cStart_connected
  · rw [ChannelList.procmsgNOTFOUND]
    dsimp only
    cases l.findPeer (idAt f 2) with
    | none => rfl
    | some rq => exact closeC2c_connected

/-- What a message does to the answer of the node. -/
structure Took (c c' : NodeConn) (f : Frame) : Prop where
  kept : Kept c c'
  answer : c.state = .waitingRep → c'.initRespOk = 1 →
    byteAt f 0 = Proto.INITRESPOK ∨ c.initRespOk = 1 ∧ byteAt f 0 ≠ Proto.VERDIFFER
  unasked : c.state ≠ .waitingRep → c'.initRespOk = c.initRespOk

/-- A message that is no answer. -/
theorem Took.other
    (hk : byteAt f 0 ≠ Proto.VERDIFFER) (hkept : Kept c c')
    (hsame : c'.initRespOk = c.initRespOk) :
    Took c c' f :=
  ⟨hkept, fun _ h => .inr ⟨hsame ▸ h, hk⟩, fun _ => hsame⟩

theorem procmsgINITRESP_took {r : Nat} (h : c.procmsgINITRESP f = some (c', r))
    (hk : byteAt f 0 = Proto.INITRESPOK ∨ byteAt f 0 = Proto.VERDIFFER) :
    Took c c' f := by
  rw [procmsgINITRESP] at h
  split_ifs at h with hst hok hver
  · cases h
    exact ⟨.refl, fun hst' => absurd hst' hst, fun _ => rfl⟩
  · cases h
    exact ⟨⟨rfl, rfl, rfl, rfl⟩, fun _ _ => .inl hok, fun hst' => absurd hst' (by simpa using hst)⟩
  · cases h
    refine ⟨⟨rfl, rfl, rfl, rfl⟩, fun _ hone => ?_, fun hst' => absurd hst' (by simpa using hst)⟩
    exact absurd (show (-1 : Int) = 1 from hone) (by decide)
  · exact absurd hk (by simp [hok, hver])

/-- What a handler has done when it has not failed. -/
theorem c2nFn_some
    {h : NodeConn → Frame → Option (NodeConn × Nat)} {r : Nat}
    (hfn : c2nFn h (some c) f = (some c', r)) :
    h c f = some (c', r) := by
  rw [c2nFn] at hfn
  cases hr : h c f with
  | none =>
      rw [hr] at hfn
      cases hfn
  | some v =>
      rw [hr] at hfn
      cases hfn
      rfl

/-- **A complete message does not move the login.** -/
theorem processmsg_took
    {r : Nat}
    (hsize : msggetsize f f.length (c2nMessages ntop6 final env) = f.length)
    (h : processmsg f f.length (some c) (c2nMessages ntop6 final env) = (some c', r)) :
    Took c c' f := by
  obtain ⟨m, hm, hk, hcall⟩ := processmsg_entry hsize
  rw [hcall] at h
  simp only [c2nMessages, List.mem_cons, List.not_mem_nil, or_false] at hm
  rcases hm with rfl | rfl | rfl | rfl | rfl | rfl | rfl | rfl <;> dsimp only at h hk <;>
    have hfn := c2nFn_some h
  · rw [procmsgCONNREQINC] at hfn
    obtain ⟨v, hv, hc⟩ := Option.map_eq_some_iff.mp hfn
    cases hc
    exact .other (by rw [hk]; decide) ⟨rfl, rfl, rfl, procmsgCONNREQINC_connected hv⟩ rfl
  · cases hfn
    exact .other (by rw [hk]; decide) ⟨rfl, rfl, rfl, procmsgReply_connected⟩ rfl
  · cases hfn
    exact .other (by rw [hk]; decide) ⟨rfl, rfl, rfl, procmsgReply_connected⟩ rfl
  · rw [procmsgCLNODELIST] at hfn
    split at hfn
    · cases hfn
    · cases hfn
      exact .other (by rw [hk]; decide) ⟨rfl, rfl, rfl, rfl⟩ rfl
  · rw [procmsgPINGREQ] at hfn
    split_ifs at hfn
    · cases hfn
      exact .other (by rw [hk]; decide) ⟨rfl, rfl, rfl, rfl⟩ rfl
    · cases hfn
      exact .other (by rw [hk]; decide) .refl rfl
  · exact procmsgINITRESP_took hfn (.inl hk)
  · exact procmsgINITRESP_took hfn (.inr hk)
  · rw [procmsgMULTILOGIN] at hfn
    split at hfn
    · cases hfn
    · cases hfn
      exact .other (by rw [hk]; decide) ⟨rfl, rfl, rfl, rfl⟩ rfl

/-- The table is the one that the messages of a node are measured by. -/
theorem c2nMessages_table : ∃ h, c2nMessages ntop6 final env = c2nTable h := by
  refine ⟨fun k =>
    if k = Proto.CONNREQINC then c2nFn (·.procmsgCONNREQINC env)
    else if k = Proto.NOTFOUND ∨ k = Proto.FOUND then c2nFn (·.procmsgReply env)
    else if k = Proto.CLNODELIST then c2nFn (·.procmsgCLNODELIST ntop6)
    else if k = Proto.PINGREQ then c2nFn (·.procmsgPINGREQ env)
    else if k = Proto.INITRESPOK ∨ k = Proto.VERDIFFER then c2nFn procmsgINITRESP
    else c2nFn (·.procmsgMULTILOGIN final env), ?_⟩
  rfl

/-- The last answer to `INITREQ` among the messages is `INITRESPOK`. -/
def AnsweredOk (msgs : List (C2nMsgEnv Pub × Frame)) : Prop :=
  ∃ before m after, msgs = before ++ m :: after ∧ byteAt m.2 0 = Proto.INITRESPOK ∧
    ∀ m' ∈ after, byteAt m'.2 0 ≠ Proto.VERDIFFER

/-- The messages of a read do not move the login, and the answer is the last one. -/
theorem handleMsgs_took
    {msgs : List (C2nMsgEnv Pub × Frame)} {b : Bool}
    (hsize : ∀ m ∈ msgs, msggetsize m.2 m.2.length (c2nMessages ntop6 final m.1) = m.2.length)
    (h : c.handleMsgs ntop6 final msgs = some (c', b)) :
    Kept c c' ∧
      (c.state = .waitingRep → b = true → c'.initRespOk = 1 →
        AnsweredOk msgs ∨ c.initRespOk = 1 ∧ ∀ m ∈ msgs, byteAt m.2 0 ≠ Proto.VERDIFFER) ∧
      (c.state ≠ .waitingRep → c'.initRespOk = c.initRespOk) := by
  induction msgs generalizing c with
  | nil =>
      cases h
      exact ⟨.refl, fun _ _ hok => .inr ⟨hok, fun m hm => nomatch hm⟩, fun _ => rfl⟩
  | cons m msgs ih =>
      obtain ⟨env, f⟩ := m
      rw [handleMsgs] at h
      obtain ⟨u, hu, hrest⟩ := Option.bind_eq_some_iff.mp h
      have htook : Took c u f := processmsg_took (hsize _ List.mem_cons_self) (Prod.ext hu rfl)
      split_ifs at hrest with hret
      · cases hrest
        exact ⟨htook.kept, fun _ hb => absurd hb (by decide), htook.unasked⟩
      · obtain ⟨hkept, hans, hun⟩ := ih (fun m hm => hsize m (List.mem_cons_of_mem _ hm)) hrest
        have hst := htook.kept.state
        refine ⟨htook.kept.trans hkept, fun hrep hb hok => ?_, fun hne => ?_⟩
        · rcases hans (hst.trans hrep) hb hok with ⟨before, m, after, rfl, hm⟩ | ⟨hold, hno⟩
          · exact .inl ⟨(env, f) :: before, m, after, rfl, hm⟩
          · rcases htook.answer hrep hold with hk | ⟨hfirst, hk⟩
            · exact .inl ⟨[], (env, f), msgs, rfl, hk, hno⟩
            · refine .inr ⟨hfirst, fun m hm => ?_⟩
              rcases List.mem_cons.mp hm with rfl | hm
              · exact hk
              · exact hno m hm
        · exact (hun (fun heq => hne (hst.symm.trans heq))).trans (htook.unasked hne)

/-! ## A pass -/

/-- What takes the login to the next stage. -/
def LoginPass : Nat → C2nEvent Pub Priv → Prop
  | 0, .pass io => io.wfds ∧ io.connected
  | 1, .pass io => io.ssl = .done
  | 2, .pass io => io.rfds ∧ AnsweredOk io.msgs
  | 3, .pass io => io.ssl = .done
  | 4, .pass io => io.ssl = .done
  | _, _ => False

/-- What `process_c2n` does to a connection. -/
structure Moved (c c' : NodeConn) (io : C2nIo Pub Priv) (ret : Int) : Prop where
  freed : c'.freed = c.freed
  stage : c'.state = c.state ∨
    c'.state.number = c.state.number + 1 ∧ LoginPass c.state.number (.pass io)
  reports : c'.reports =
    c.reports ++ if c.state ≠ c'.state ∧ c'.state = .connected then [.established] else []
  connected : c.chans.connected = decide (c.state = .connected) →
    c'.chans.connected = decide (c'.state = .connected)
  answer : ret = 0 → c'.state.number ≤ 2 → c'.initRespOk = 0

theorem Moved.stay
    {ret : Int} (hkept : Kept c c') (hans : ret = 0 → c.state.number ≤ 2 → c'.initRespOk = 0) :
    Moved c c' io ret where
  freed := hkept.freed
  stage := .inl hkept.state
  reports := by
    rw [hkept.state, hkept.reports, if_neg (fun h => h.1 rfl), List.append_nil]
  connected h := by rw [hkept.connected, hkept.state, h]
  answer hret hnum := hans hret (hkept.state ▸ hnum)

/-- The state is the next one, which is not the last one. -/
theorem Moved.next
    {ret : Int} {st : C2nStage} (hkept : Kept c c') (hst : st.number = c.state.number + 1)
    (hlast : st.number ≤ 4) (hpass : LoginPass c.state.number (.pass io))
    (hans : st.number ≤ 2 → c'.initRespOk = 0) :
    Moved c { c' with state := st } io ret where
  freed := hkept.freed
  stage := .inr ⟨hst, hpass⟩
  reports := by
    have hne : st ≠ .connected := by
      rintro rfl
      exact absurd hlast (by decide)
    rw [if_neg (fun h => hne h.2), List.append_nil]
    exact hkept.reports
  connected h := by
    have hne : st ≠ .connected := by
      rintro rfl
      exact absurd hlast (by decide)
    have hold : c.state ≠ .connected := by
      intro heq
      rw [heq] at hst
      rw [hst] at hlast
      exact absurd hlast (by decide)
    rw [decide_eq_false hne]
    exact hkept.connected.trans (h.trans (decide_eq_false hold))
  answer _ hnum := hans hnum

theorem transfer_took
    {ret : Int}
    (hsize : ∀ m ∈ io.msgs, msggetsize m.2 m.2.length (c2nMessages ntop6 final m.1) = m.2.length)
    (h : c.transfer ntop6 final io = some (c', ret)) :
    Kept c c' ∧
      (c.state = .waitingRep → c.initRespOk = 0 → ret = 0 → c'.initRespOk = 1 →
        io.rfds ∧ AnsweredOk io.msgs) ∧
      (c.state ≠ .waitingRep → c'.initRespOk = c.initRespOk) := by
  rw [transfer] at h
  by_cases hr : io.rfds = true
  · rw [if_pos hr, readC2n] at h
    split_ifs at h with hgot
    · cases h
      exact ⟨.refl, fun _ _ hret => absurd hret (by decide), fun _ => rfl⟩
    · obtain ⟨⟨u, b⟩, hu, hres⟩ := Option.map_eq_some_iff.mp h
      cases hres
      obtain ⟨hkept, hans, hun⟩ := handleMsgs_took hsize hu
      refine ⟨hkept, fun hst hzero hret hone => ⟨hr, ?_⟩, hun⟩
      have hb : b = true := by
        cases b with
        | true => rfl
        | false =>
            rw [if_pos (.inl rfl)] at hret
            exact absurd hret (by decide)
      rcases hans hst hb hone with hok | ⟨hold, -⟩
      · exact hok
      · exact absurd (hzero.symm.trans hold) (by decide)
  · rw [if_neg hr] at h
    cases h
    refine ⟨.refl, fun _ hzero _ hone => ?_, fun _ => rfl⟩
    exact absurd (hzero.symm.trans hone) (by decide)

/-- The answer ends the stage, or the connection. -/
theorem answered_moved
    {u : NodeConn} {ret : Int}
    (hst : c.state = .waitingRep) (hkept : Kept c u)
    (hans : ret = 0 → u.initRespOk = 1 → LoginPass 2 (.pass io)) :
    Moved c (u.answered io ret).1 io (u.answered io ret).2 := by
  have hstay : ∀ r : Int, r ≠ 0 → Moved c u io r :=
    fun r hr => .stay hkept fun h => absurd h hr
  rw [answered]
  by_cases hzero : ret = 0 ∧ u.initRespOk ≠ 0
  · rw [if_pos hzero]
    by_cases hok : u.initRespOk = 1
    · rw [if_pos hok, stage4Shutdownanontls]
      have hnum : C2nStage.waitingAnonTlsShutdown.number = c.state.number + 1 := by rw [hst]; rfl
      have hpass : LoginPass c.state.number (.pass io) := by
        rw [hst]
        exact hans hzero.1 hok
      cases io.next with
      | done => exact hstay Ret.one.code (by decide)
      | error => exact hstay Ret.errSsl.code (by decide)
      | closed => exact .next hkept hnum (by decide) hpass fun h => absurd h (by decide)
      | wantRead => exact .next hkept hnum (by decide) hpass fun h => absurd h (by decide)
      | wantWrite => exact .next hkept hnum (by decide) hpass fun h => absurd h (by decide)
    · rw [if_neg hok]
      split_ifs
      · exact hstay errProtoNew (by decide)
      · exact hstay errProtoOld (by decide)
  · rw [if_neg hzero]
    refine .stay hkept fun hret _ => ?_
    by_contra hne
    exact hzero ⟨hret, hne⟩

/-- The notice of the login is behind everything else. -/
theorem stage6_moved
    (hst : c.state = .waitingTls) (hssl : io.ssl = .done) :
    Moved c (c.stage6Nodelistrequest sign io).1 io (c.stage6Nodelistrequest sign io).2 := by
  have hpass : LoginPass c.state.number (.pass io) := by
    rw [hst]
    exact hssl
  have hmoved : ∀ (u : NodeConn) (ret : Int), u.freed = c.freed → u.state = .connected →
      u.reports = c.reports ++ [.established] → u.chans.connected = true → Moved c u io ret := by
    intro u ret hfreed hstate hreports hconn
    refine ⟨hfreed, .inr ⟨by rw [hstate, hst]; rfl, hpass⟩, ?_, fun _ => ?_, fun _ hnum => ?_⟩
    · rw [hreports, hstate, hst]
      rfl
    · rw [hconn, hstate]
      rfl
    · rw [hstate] at hnum
      exact absurd hnum (by decide)
  rw [stage6Nodelistrequest]
  by_cases hmem : io.mem = true
  · rw [if_pos hmem]
    dsimp only
    split_ifs
    · split
      · exact hmoved _ _ rfl rfl rfl rfl
      · exact hmoved _ _ rfl rfl rfl rfl
    · exact hmoved _ _ rfl rfl rfl rfl
  · rw [if_neg hmem]
    refine .stay .refl fun _ hnum => ?_
    rw [hst] at hnum
    exact absurd hnum (by decide)

/-- **What `process_c2n` does.** -/
theorem processC2n_moved
    {ret : Int}
    (hans : c.state.number ≤ 2 → c.initRespOk = 0)
    (hsize : ∀ m ∈ io.msgs, msggetsize m.2 m.2.length (c2nMessages ntop6 final m.1) = m.2.length)
    (h : c.processC2n ntop6 final sign io = some (c', ret)) :
    Moved c c' io ret := by
  have hsame : ∀ r : Int, Moved c c io r := fun r => .stay .refl fun _ => hans
  rw [processC2n] at h
  split at h
  case h_1 hst =>
    split_ifs at h with hw hconn
    · rw [stage2Startanontls] at h
      split_ifs at h with hnew hssl
      · cases h
        exact hsame _
      · cases h
        refine .next .refl (by rw [hst]; rfl) (by decide) ?_ fun _ => hans (by rw [hst]; decide)
        rw [hst]
        exact ⟨hw, hconn⟩
      · cases h
        exact hsame _
    · cases h
      exact hsame _
    · cases h
      exact hsame _
  case h_2 hst =>
    split_ifs at h with hr hssl
    · rw [stage3Sendreq] at h
      split_ifs at h with hmem
      · cases h
        refine @Moved.next _ _ c (c.push _) io _ .waitingRep ⟨rfl, rfl, rfl, rfl⟩ (by rw [hst]; rfl)
          (by decide) ?_ fun _ => hans (by rw [hst]; decide)
        rw [hst]
        exact hssl
      · cases h
        exact hsame _
    · cases h
      exact hsame _
    · cases h
      exact hsame _
  case h_3 hst =>
    obtain ⟨⟨u, r⟩, hu, hres⟩ := Option.map_eq_some_iff.mp h
    obtain ⟨hkept, hok, -⟩ := transfer_took hsize hu
    have hmoved := answered_moved hst hkept fun hret hone =>
      hok hst (hans (by rw [hst]; decide)) hret hone
    rw [hres] at hmoved
    exact hmoved
  case h_4 hst =>
    split_ifs at h with hr
    · split at h
      case h_1 => cases h; exact hsame _
      case h_2 hssl =>
        rw [stage5Starttls] at h
        have hnum : C2nStage.waitingTls.number = c.state.number + 1 := by rw [hst]; rfl
        have hpass : LoginPass c.state.number (.pass io) := by rw [hst]; exact hssl
        split_ifs at h with hnew
        · cases h
          exact hsame _
        · split at h
          case h_1 => cases h; exact hsame _
          case h_2 => cases h; exact hsame _
          case h_3 => cases h; exact hsame _
          case h_4 =>
            cases h
            exact .next .refl hnum (by decide) hpass fun h => absurd h (by decide)
      case h_3 => cases h; exact hsame _
    · cases h
      exact hsame _
  case h_5 hst =>
    split_ifs at h with hr
    · split at h
      case h_1 hssl =>
        have hmoved := @stage6_moved _ _ sign c io hst hssl
        rw [Option.some.inj h] at hmoved
        exact hmoved
      case h_2 => cases h; exact hsame _
      case h_3 => cases h; exact hsame _
    · cases h
      exact hsame _
  case h_6 hst =>
    obtain ⟨hkept, -, hun⟩ := transfer_took hsize h
    refine .stay hkept fun _ hnum => ?_
    rw [hst] at hnum
    exact absurd hnum (by decide)

end NodeConn

end Client
end PicaPica
