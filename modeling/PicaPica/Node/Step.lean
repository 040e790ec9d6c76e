import PicaPica.Node.Handlers
import PicaPica.Lib.Run

/-!
# The node as a state machine

One event is one call of the event loop: a connection is accepted, a callback
runs for a slot, a client, a link or another node, a message that is complete in
a read buffer is handled, a record is looked at by `process_timeouts`.  Several
messages in one read, and the records in one pass of `process_timeouts`, are
several events; `processdatastream_refines` is the reason for the former.
-/

namespace PicaPica

open Table

/-- Result of an SSL call: done, to be repeated later, or failed. -/
inductive SslResult
  | done
  | retry
  | fail
deriving DecidableEq

/-- Results of the SSL calls in one run of `process_newconn_read`. -/
structure NewconnResults where
  accept : SslResult
  /-- the bytes of `SSL_read`; none for a failure -/
  read : List UInt8
  readRetry : Bool
  shutdown : SslResult
  write : SslResult

namespace Node

variable (n : Node)

/-! ## New connections -/

/-- One pass of the loop of `process_listen_read`. -/
def processListenRead (s : Socket) (addr : SockAddr) (ssl : Bool) : Except Fault Node := do
  let (n, i) ← n.newconnAdd
  if ssl then
    pure (n.setSlot i fun nc => { nc with sck := s, addr := addr, state := .waitAnonTlsAccept })
  else pure n

/-- `process_newconn_write`. -/
def processNewconnWrite (i : Nat) (write : SslResult) : Except Fault Node :=
  let nc := n.slot i
  match nc.state, write with
  | .sendingOk, .retry => pure n
  | .sendingOk, .fail => n.newconnClose i
  | .sendingOk, .done =>
      if nc.type = .n2n then do
        let (n, nl) ← n.nodelinkListAddnew nc.sck nc.addr
        match nl with
        | some _ => pure (n.newconnFree i)
        | none =>
            -- `newconn_free` uses the event that `newconn_close` has set to `NULL`
            let _ ← n.newconnClose i
            .error .null
      else pure (n.setSlot i fun nc => { nc with state := .waitAnonTlsShutdown })
  | .sendingReject, .retry => pure n
  | .sendingReject, .fail => n.newconnClose i
  | .sendingReject, .done => n.newconnClose i
  | _, _ => pure n

/-- `PICA_processdatastream` on the bytes of a new connection. -/
def newconnReceived (i : Nat) (buf : List UInt8) : Except Fault Node := do
  let r := processdatastream (msginfoNewconn i) buf.length buf buf.length (.ok n)
  let n ← r.arg
  let n := n.setSlot i fun nc => { nc with buf := r.leftover }
  if r.ret = 0 then n.newconnClose i else pure n

/-- The case `PICA_NEWCONN_WAITREQUEST` of `process_newconn_read`. -/
def newconnRequest (i : Nat) (io : NewconnResults) : Except Fault Node :=
  if io.readRetry then pure n
  else
    let buf := (n.slot i).buf
    let xs := io.read.take (newconnBufsize - buf.length)
    if xs = [] then n.newconnClose i else n.newconnReceived i (buf ++ xs)

/-- `cclink_sendcleconnected`. -/
def cclinkSendcleconnected (l : CCLink) : Except Fault (Node × Bool) :=
  match l.state with
  | .localWaitConnCleAnonTlsShutdown =>
      n.clientWbufPush l.p1 (head Proto.FOUND ++ l.calleeId.1)
  | .n2nCleWaitConnCleAnonTlsShutdown =>
      n.nodelinkWbufPush l.callerNode (head Proto.N2NALLOW ++ l.callerId.1 ++ l.calleeId.1)
  | _ => pure (n, true)

/-- `cclink_sendcleconnected` followed by `cclink_activate`; a link that the
former has deleted is used by the latter. -/
def cclinkConnected (l : CCLink) : Except Fault Node := do
  let (n, mp) ← n.cclinkSendcleconnected l
  if mp then pure (n.modifyLink l.ptr CCLink.activate) else .error .freed

/-- The case `PICA_NEWCONN_WAITANONTLSSHUTDOWN` of `process_newconn_read`. -/
def newconnShutdown (i : Nat) (shutdown : SslResult) : Except Fault Node :=
  match shutdown with
  | .retry => pure n
  | .fail => n.newconnClose i
  | .done =>
      let nc := n.slot i
      if nc.iconn ≠ none ∧ nc.type = .c2n then do
        let c ← n.derefClient nc.iconn
        let n := (n.logged (.negotiate c.ptr)).modifyClient c.ptr fun c =>
          { c with state := .tlsNegotiation }
        pure (n.newconnFree i)
      else if nc.iconn ≠ none ∧ nc.type = .c2c then do
        let l ← n.derefLink nc.iconn
        let n ← n.cclinkConnected l
        pure (n.newconnFree i)
      else pure n

/-- The `switch` of `process_newconn_read`. -/
def newconnSwitch (i : Nat) (io : NewconnResults) : Except Fault Node :=
  match (n.slot i).state with
  | .waitAnonTlsAccept =>
      match io.accept with
      | .retry => pure n
      | .fail => n.newconnClose i
      | .done => (n.setSlot i fun nc => { nc with state := .waitRequest }).newconnRequest i io
  | .waitRequest => n.newconnRequest i io
  | .waitAnonTlsShutdown => n.newconnShutdown i io.shutdown
  | _ => pure n

/-- `process_newconn_read`. -/
def processNewconnRead (i : Nat) (io : NewconnResults) : Except Fault Node := do
  let n ← n.newconnSwitch i io
  if (n.slot i).sck ≠ -1 then n.processNewconnWrite i io.write else pure n

/-! ## Timeouts -/

/-- Distance of two time stamps. -/
def elapsed (a b : Nat) : Nat :=
  if a < b then b - a else a - b

/-- The body of `process_timeouts_newconn`, `NEWCONN_TIMEOUT` being 10. -/
def timeoutNewconn (i : Nat) : Except Fault Node :=
  if (n.slot i).sck ≠ -1 ∧ 10 < elapsed (n.slot i).tmst n.now then n.newconnClose i
  else pure n

/-- A link that is not active in time is deleted by `process_timeouts_c2c`. -/
def linkExpired (l : CCLink) : Bool :=
  l.state ≠ .localActive ∧ l.state ≠ .n2nClrActive ∧ l.state ≠ .n2nCleActive ∧
    l.tmst + 15 < n.now

def timeoutC2c (l : Ptr) : Except Fault Node := do
  let l ← n.derefLink (some l)
  if n.linkExpired l then n.cclinkListDelete (some l.ptr) else pure n

/-- The body of `process_timeouts_c2n`, `NOREPLY_TIMEOUT` being 15 and
`KEEPALIVE_TIMEOUT` 60. -/
def timeoutC2n (ci : Ptr) : Except Fault Node := do
  let c ← n.derefClient (some ci)
  if c.disconnectTicking then
    if 15 < elapsed c.tmst n.now then n.clientListDelete (some ci) else pure n
  else if c.tmst + 60 < n.now then
    let (n, mp) ← n.clientWbufPush (some ci) (n.randomMsg Proto.PINGREQ)
    if mp then
      pure (n.modifyClient ci fun c => { c with tmst := n.now, disconnectTicking := true })
    else n.clientListDelete (some ci)
  else pure n

/-- The body of `process_timeouts_n2n`. -/
def timeoutN2n (nl : Ptr) : Except Fault Node := do
  let l ← n.derefNodelink (some nl)
  if l.disconnectTicking then
    if 15 < elapsed l.tmst n.now then n.nodelinkListDelete (some nl) else pure n
  else if l.tmst + 60 < n.now then
    let (n, mp) ← n.nodelinkWbufPush (some nl) (n.randomMsg Proto.PINGREQ)
    if mp then
      pure (n.modifyNodelink nl fun l => { l with tmst := n.now, disconnectTicking := true })
    else n.nodelinkListDelete (some nl)
  else pure n

/-! ## Established connections -/

/-- The message table `process_c2n_read` uses for a client. -/
def msginfoClient (c : Client) : List (MsgInfo (Except Fault Node)) :=
  if c.state = .multiloginSecondary then msginfoMulti c.ptr else msginfoComm c.ptr

/-- A complete message of a client. -/
def processC2nFrame (ci : Ptr) (f : Frame) : Except Fault Node := do
  let c ← n.derefClient (some ci)
  let r := processmsg f f.length (.ok n) (msginfoClient c)
  let n ← r.1
  if r.2 = 0 then n.clientListDelete (some ci) else pure n

/-- `process_c2n_write` when `SSL_connect` has succeeded, for the identifier of
the peer's certificate.  A client without an acceptable one is deleted. -/
def processC2nConnected (ci : Ptr) (cert : Option Id) : Except Fault Node := do
  let c ← n.derefClient (some ci)
  match cert with
  | none => clientListDeleteIn (.connected · cert) n (some ci)
  | some id =>
      if id = .ofByte 0 then clientListDeleteIn (.connected · cert) n (some ci)
      else
        match n.clientTreeSearch id with
        | some _ =>
            -- `client_attach_multi_secondary`
            pure { (n.logged (.connected c.ptr cert)).modifyClient c.ptr fun c =>
              { c with id := id, state := .multiloginSecondary } with
              multi := c.ptr :: n.multi }
        | none =>
            -- `client_tree_add`
            pure ((n.logged (.connected c.ptr cert)).modifyClient c.ptr fun c =>
              { c with id := id, state := .connected })

/-- A complete message of a node. -/
def processN2nFrame (nl : Ptr) (f : Frame) : Except Fault Node := do
  let r := processmsg f f.length (.ok n) (msginfoNode nl)
  let n ← r.1
  if r.2 = 0 then n.nodelinkListDelete (some nl) else pure n

/-- Messages that `process_c2c_write` has put into the buffers of nodes. -/
def pushRelayed : List (Option Ptr × Frame) → Node → Except Fault Node
  | [], n => pure n
  | (dst, f) :: out, n => do
      let nl ← n.derefNodelink dst
      pushRelayed out (n.modifyNodelink nl.ptr fun nl => { nl with pushed := nl.pushed ++ [f] })

/-- `process_c2c_read`. -/
def processC2cReadLink (l : Ptr) (s : Socket) (data12 data21 : List UInt8) (env : WriteEnv) :
    Except Fault Node := do
  let cc ← n.derefLink (some l)
  let r := processC2cRead s data12 data21 env cc
  let n ← pushRelayed r.pushed n
  match r.cc with
  | none => n.cclinkListDelete (some l)
  | some cc => pure (n.modifyLink l fun _ => cc)

/-- `process_c2c_write`, called for the write event of the socket `s`. -/
def processC2cWriteLink (l : Ptr) (s : Socket) (env : WriteEnv) : Except Fault Node := do
  let cc ← n.derefLink (some l)
  let w := processC2cWrite s env (cc.fired s)
  let n ← pushRelayed w.pushed n
  if w.kill then n.cclinkListDelete (some l) else pure (n.modifyLink l fun _ => w.cc)

/-- `process_nodewait` for a connection that was made to another node. -/
def nodewaitConnected (sck : Socket) (addr : SockAddr) : Except Fault Node := do
  let (n, nlp) ← n.nodelinkListAddnew sck addr
  match nlp with
  | none => pure n
  | some nlp =>
      let (n, _) ← n.nodelinkWbufPush (some nlp) (head Proto.NODECONNREQ ++
        [UInt8.ofNat Proto.VER_HIGH, UInt8.ofNat Proto.VER_LOW])
      pure n

end Node

/-- What the event loop calls. -/
inductive NodeEvent
  | clock (now : Nat)
  | accept (s : Socket) (addr : SockAddr) (ssl : Bool)
  | newconnRead (i : Nat) (io : NewconnResults)
  | timeoutNewconn (i : Nat)
  | timeoutC2c (l : Ptr)
  | timeoutC2n (ci : Ptr)
  | timeoutN2n (nl : Ptr)
  | c2nFrame (ci : Ptr) (f : Frame)
  | c2nConnected (ci : Ptr) (cert : Option Id)
  | c2nClosed (ci : Ptr)
  | n2nFrame (nl : Ptr) (f : Frame)
  | n2nClosed (nl : Ptr)
  | c2cRead (l : Ptr) (s : Socket) (data12 data21 : List UInt8) (env : WriteEnv)
  | c2cWrite (l : Ptr) (s : Socket) (env : WriteEnv)
  | nodewait (sck : Socket) (addr : SockAddr)

/-- The call for an event. -/
def react (n : Node) : NodeEvent → Except Fault Node
  | .clock now => pure { n with now := now }
  | .accept s addr ssl => n.processListenRead s addr ssl
  | .newconnRead i io => n.processNewconnRead i io
  | .timeoutNewconn i => n.timeoutNewconn i
  | .timeoutC2c l => n.timeoutC2c l
  | .timeoutC2n ci => n.timeoutC2n ci
  | .timeoutN2n nl => n.timeoutN2n nl
  | .c2nFrame ci f => n.processC2nFrame ci f
  | .c2nConnected ci cert => n.processC2nConnected ci cert
  | .c2nClosed ci => n.clientListDelete (some ci)
  | .n2nFrame nl f => n.processN2nFrame nl f
  | .n2nClosed nl => n.nodelinkListDelete (some nl)
  | .c2cRead l s data12 data21 env => n.processC2cReadLink l s data12 data21 env
  | .c2cWrite l s env => n.processC2cWriteLink l s env
  | .nodewait sck addr => n.nodewaitConnected sck addr

/-- `l->state` is one of the `ACTIVE` states. -/
def CcState.active : CcState → Bool
  | .localActive => true
  | .n2nClrActive => true
  | .n2nCleActive => true
  | _ => false

/-- When an event can happen: the record it is for exists and is in a state in
which its events are added, and a message is a complete one of the table. -/
def NodeEvent.enabled (n : Node) : NodeEvent → Bool
  | .clock _ => true
  | .accept s _ _ => s ≠ -1
  | .newconnRead i _ => i < maxNewconns ∧ (n.slot i).sck ≠ -1
  | .timeoutNewconn i => i < maxNewconns
  | .timeoutC2c l => n.cclinks.any fun cc => cc.ptr = l
  | .timeoutC2n ci => n.clients.any fun c => c.ptr = ci
  | .timeoutN2n nl => n.nodelinks.any fun m => m.ptr = nl
  | .c2nFrame ci f => n.clients.any fun c => c.ptr = ci ∧
      (c.state = .connected ∨ c.state = .multiloginSecondary) ∧
      msggetsize f f.length (Node.msginfoClient c) = f.length
  | .c2nConnected ci _ => n.clients.any fun c => c.ptr = ci ∧ c.state = .tlsNegotiation
  | .c2nClosed ci => n.clients.any fun c => c.ptr = ci ∧ c.state ≠ .waitAnonTlsShutdown
  | .n2nFrame nl f => (n.nodelinks.any fun m => m.ptr = nl) ∧
      msggetsize f f.length (msginfoNode nl) = f.length
  | .n2nClosed nl => n.nodelinks.any fun m => m.ptr = nl
  | .c2cRead l _ _ _ _ => n.cclinks.any fun cc => cc.ptr = l ∧ cc.state.active
  | .c2cWrite l _ _ => n.cclinks.any fun cc => cc.ptr = l ∧ cc.state.active
  | .nodewait _ _ => true

/-- One event; there is no successor when it cannot happen or does not return. -/
def nodeStep (n : Node) (e : NodeEvent) : Option Node :=
  if e.enabled n then (react n e).toOption else none

/-- A node after `newconns_init`, without any connection. -/
def Node.init (myAddr : SockAddr) (disableReservedAddrs : Bool) (now : Nat)
    (mem : Nat → Bool) (rnd : Nat → UInt8) (verify : Ptr → Frame → Bool)
    (reached : List ClientEvent → Ptr → Bool) : Node where
  myAddr := myAddr
  disableReservedAddrs := disableReservedAddrs
  clients := []
  multi := []
  cclinks := []
  nodelinks := []
  newconns := List.replicate maxNewconns
    ⟨-1, ⟨0, 0⟩, 0, [], .waitAnonTlsAccept, .unknown, none⟩
  newconnsPos := 0
  now := now
  next := 1
  mem := mem
  rnd := rnd
  verify := verify
  reached := reached
  tick := 0
  log := []

end PicaPica
