import PicaPica.Client.EventLoop
import PicaPica.Lib.DoubleChain

/-!
# Accepted connections find their channel (`PICA_client.c`)

All links to nodes share one listener.  A pass of `PICA_event_loop` takes the links one after
another: `process_listener` goes on with the handshakes in `accepted_connections`, and
`process_directc2c` looks for a channel of this link for each connection that is complete.

The loop of `process_directc2c` ends at the first complete connection, because it clears `next`,
and it closes a connection for which this link has no channel and reads `next` afterwards.
So a pass does what it should exactly when the complete connections turn up in the order of
the links that wait for them.

The list is the one of the pointers `next`.  The channels of a link are those that
`process_c2c` has left.
-/

namespace PicaPica
namespace Client

open DoubleChain PointerTree

/-- The address of a `struct PICA_directc2c`. -/
abbrev ConnPtr := Nat

/-- `struct PICA_listener`, with all records of direct connections. -/
structure Listener where
  acceptedConnections : Option ConnPtr
  next : ConnPtr → Option ConnPtr
  conn : ConnPtr → Direct
  /-- number of records allocated so far -/
  count : Nat

/-- `struct PICA_c2c`. -/
structure ListenChan where
  chn : C2c
  peerId : Id
  direct : Option ConnPtr
deriving DecidableEq

/-- `struct PICA_c2n`. -/
structure ListenC2n where
  config : DirectConfig
  chans : List ListenChan
deriving DecidableEq

/-- What `process_listener_conn` finds. -/
structure ConnIo where
  ready : Bool
  ssl : SslCall
  cert : Option PeerCert
deriving DecidableEq

/-- What happens at the turn of a link. -/
structure TurnIo where
  /-- the result of `SSL_accept` for a connection that is accepted -/
  accept : Option SslCall
  conn : ConnPtr → ConnIo
  /-- what `peer_cert_verify_cb` would answer for the certificate of a connection -/
  answer : ConnPtr → Bool
  mem : Memory
  r₀ : UInt8
  r₁ : UInt8

/-- `process_listener_conn`; no record is left after an error. -/
def ConnIo.on (io : ConnIo) (d : Direct) : Option Direct :=
  if io.ready then d.processListenerConn io.ssl io.cert else some d

/-- `SSL_accept` or `SSL_get_peer_certificate` fails. -/
def ConnIo.fails (io : ConnIo) : Bool :=
  io.ready && !io.ssl.again && !(decide (io.ssl = .done) && io.cert.isSome)

namespace Listener

variable (l : Listener)

/-- A record is read. -/
def get (p : ConnPtr) : Except SessionFault Direct :=
  if (l.conn p).freed then .error .freedDirect else .ok (l.conn p)

/-- `d->next` is read. -/
def getNext (p : ConnPtr) : Except SessionFault (Option ConnPtr) :=
  if (l.conn p).freed then .error .freedDirect else .ok (l.next p)

def put (p : ConnPtr) (d : Direct) : Listener :=
  { l with conn := Function.update l.conn p d }

/-- `*pprev = v`: the pointer is to `accepted_connections` or to a field `next`. -/
def setSlot (pprev v : Option ConnPtr) : Listener :=
  { l with
    acceptedConnections := headAt l.acceptedConnections pprev v
    next := setAt l.next pprev v }

/-- `PICA_close_directc2c`. -/
def closeDirectc2c (p : ConnPtr) : Except SessionFault Listener :=
  if (l.conn p).freed then .error .freedDirect
  else .ok { l.put p (l.conn p).close with next := Function.update l.next p none }

/-! ## `process_listener` -/

/-- `listener_add_connection`. -/
def addConnection (r : SslCall) : Listener :=
  match Direct.accepted r with
  | none => l
  | some d =>
      { acceptedConnections := some l.count
        next := Function.update l.next l.count l.acceptedConnections
        conn := Function.update l.conn l.count d
        count := l.count + 1 }

/-- The loop of `process_listener`. -/
def listenerLoop (io : ConnPtr → ConnIo) :
    Nat → Option ConnPtr → Option ConnPtr → Listener → Except SessionFault Listener
  | 0, _, _, l => pure l
  | _ + 1, none, _, l => pure l
  | fuel + 1, some conn, pprevconn, l => do
      let d ← l.get conn
      match (io conn).on d with
      | some d' => listenerLoop io fuel (l.next conn) (some conn) (l.put conn d')
      | none =>
          let l' ← (l.setSlot pprevconn (l.next conn)).closeDirectc2c conn
          listenerLoop io fuel (l.next conn) pprevconn l'

/-- A connection is accepted at the socket of the listener. -/
def accepting (io : TurnIo) : Listener :=
  match io.accept with
  | some r => l.addConnection r
  | none => l

/-- `process_listener`. -/
def processListener (io : TurnIo) : Except SessionFault Listener :=
  let l := l.accepting io
  listenerLoop io.conn l.count l.acceptedConnections none l

/-! ## `process_directc2c` -/

/-- `find_matching_c2c`, with the place of the channel. -/
def findMatchingC2c (cs : List ListenChan) (d : Direct) : Option (ListenChan × Nat) :=
  match d.peerCert.bind PeerCert.id with
  | none => none
  | some id => cs.zipIdx.find? fun e =>
      decide (e.1.chn.directState = .waitingIncoming) && decide (e.1.peerId = id)

/-- The channel that is found, when the certificate is accepted for it. -/
def matching (io : TurnIo) (cs : List ListenChan) (p : ConnPtr) (d : Direct) :
    Option (ListenChan × Nat) :=
  (findMatchingC2c cs d).filter fun e =>
    decide ((verifyPeerCertCommon d.peerCert e.1.peerId (io.answer p)).1 = .ok)

/-- The direct connection the channel has had is closed. -/
def closeOld (c : ListenChan) : Except SessionFault Listener :=
  match c.direct with
  | some q => l.closeDirectc2c q
  | none => pure l

/-- The connection becomes the direct connection of the channel. -/
def attach (io : TurnIo) (c : ListenChan) (p : ConnPtr) :
    Except SessionFault (Listener × ListenChan) := do
  let l ← (l.put p ((l.conn p).verifiedFor c.peerId)).closeOld c
  match sendDirectc2cSwitch io.mem c.chn io.r₀ io.r₁ with
  | none => .error .outside
  | some (chn, code) =>
      if code ≠ .ok then do
        let l ← l.closeDirectc2c p
        pure (l, { c with chn := { chn with directState := .inactive }, direct := some p })
      else pure (l, { c with chn := { chn with directState := .active }, direct := some p })

/-- The body of the loop for a connection that is complete. -/
def serve (io : TurnIo) (cs : List ListenChan) (d : ConnPtr) (pdprev : Option ConnPtr) (r : Direct) :
    Except SessionFault (Listener × List ListenChan) :=
  match matching io cs d r with
  | some (c, i) => do
      let (l, c) ← l.attach io c d
      let nx ← l.getNext d
      let l := l.setSlot pdprev nx
      pure ({ l with next := Function.update l.next d none }, cs.set i c)
  | none => do
      let l ← (l.setSlot pdprev (l.next d)).closeDirectc2c d
      pure (l, cs)

/-- The loop over the accepted connections in `process_directc2c`. -/
def acceptedLoop (io : TurnIo) :
    Nat → Option ConnPtr → Option ConnPtr → Listener → List ListenChan →
      Except SessionFault (Listener × List ListenChan)
  | 0, _, _, l, cs => pure (l, cs)
  | _ + 1, none, _, l, cs => pure (l, cs)
  | fuel + 1, some d, pdprev, l, cs => do
      let r ← l.get d
      let (l, cs) ← if r.state = .active then l.serve io cs d pdprev r else pure (l, cs)
      let nx ← l.getNext d
      acceptedLoop io fuel nx (some d) l cs

/-- `process_directc2c`, without the connections the client makes itself. -/
def processDirectc2c (io : TurnIo) (cs : List ListenChan) :
    Except SessionFault (Listener × List ListenChan) :=
  acceptedLoop io l.count l.acceptedConnections none l cs

/-- The turn of a link in `PICA_event_loop`. -/
def turn (io : TurnIo) (c : ListenC2n) : Except SessionFault (Listener × ListenC2n) := do
  let l ← l.processListener io
  if c.config = .disabled then pure (l, c)
  else do
    let (l, cs) ← l.processDirectc2c io c.chans
    pure (l, { c with chans := cs })

/-- A pass of `PICA_event_loop` over the links that `process_c2n` has not closed. -/
def pass : Listener → List (ListenC2n × TurnIo) → Except SessionFault (Listener × List ListenC2n)
  | l, [] => pure (l, [])
  | l, (c, io) :: rest => do
      let (l, c) ← l.turn io c
      let (l, cs) ← pass l rest
      pure (l, c :: cs)

end Listener

/-! ## The property and its condition -/

namespace ListenC2n

/-- The direct connections of the channels of a link. -/
def directs (c : ListenC2n) : List ConnPtr :=
  c.chans.filterMap ListenChan.direct

end ListenC2n

namespace Listener

/-- The accepted connections are `ps`.  They and the direct connections `ds` of the channels
are different records that have not been closed, and a complete connection has a certificate. -/
structure Sound (l : Listener) (ps ds : List ConnPtr) : Prop where
  chain : Chain l.next l.acceptedConnections ps
  distinct : (ps ++ ds).Nodup
  live : ∀ p ∈ ps ++ ds, (l.conn p).freed = false
  allocated : ∀ p ∈ ps ++ ds, p < l.count
  certified : ∀ p ∈ ps, (l.conn p).state = .active → (l.conn p).peerCert ≠ none

/-- A channel waits for the connection `p`, and its certificate is accepted for it. -/
def Waits (io : TurnIo) (c : ListenChan) (p : ConnPtr) (d : Direct) : Prop :=
  c.chn.directState = .waitingIncoming ∧
    (verifyPeerCertCommon d.peerCert c.peerId (io.answer p)).1 = .ok

/-- A channel of one of the links waits for the connection. -/
def Wanted (turns : List (ListenC2n × TurnIo)) (p : ConnPtr) (d : Direct) : Prop :=
  ∃ e ∈ turns, ∃ c ∈ e.1.chans, Waits e.2 c p d

/-- A channel of `cs` has waited for the connection, which is its direct connection
in `cs'`. -/
def AttachedAt (io : TurnIo) (cs cs' : List ListenChan) (p : ConnPtr) (d : Direct) : Prop :=
  ∃ (i : Nat) (c c' : ListenChan), cs[i]? = some c ∧ cs'[i]? = some c' ∧ Waits io c p d ∧
    c'.direct = some p ∧ c'.peerId = c.peerId ∧ c'.chn.directState = .active

/-- The connection is the direct connection of a channel that has waited for it. -/
def AttachedTo
    (turns : List (ListenC2n × TurnIo)) (ts : List ListenC2n) (p : ConnPtr) (d : Direct) : Prop :=
  ∃ (k : Nat) (e : ListenC2n × TurnIo) (t : ListenC2n),
    turns[k]? = some e ∧ ts[k]? = some t ∧ AttachedAt e.2 e.1.chans t.chans p d

/-- What a pass should do with a connection `p` that has been accepted, where `ps` are
those that remain. -/
structure RightFor (turns : List (ListenC2n × TurnIo)) (l : Listener) (ps : List ConnPtr)
    (cs : List ListenC2n) (p : ConnPtr) : Prop where
  attached : (l.conn p).state = .active → Wanted turns p (l.conn p) →
    AttachedTo turns cs p (l.conn p) ∧ (cs.flatMap ListenC2n.directs).count p = 1 ∧
      (l.conn p).freed = false ∧ p ∉ ps
  rejected : (l.conn p).state = .active → ¬Wanted turns p (l.conn p) →
    (l.conn p).freed = true ∧ p ∉ ps
  handshake : (l.conn p).state ≠ .active → (∀ e ∈ turns, (e.2.conn p).fails = false) →
    (l.conn p).freed = false ∧ p ∈ ps

/-- The pass reads no record that has been closed, and does what it should with all
connections, those in the list `ps` and those that are accepted. -/
def PassRight (l : Listener) (ps : List ConnPtr) (turns : List (ListenC2n × TurnIo)) : Prop :=
  ∃ l' cs ps', l.pass turns = .ok (l', cs) ∧ Chain l'.next l'.acceptedConnections ps' ∧
    ∀ p, p ∈ ps ∨ l.count ≤ p ∧ p < l'.count → RightFor turns l' ps' cs p

/-- The accepted connections after `process_listener`; the next record is allocated at `n`. -/
def heard (io : TurnIo) (n : Nat) (w : List (ConnPtr × Direct)) : List (ConnPtr × Direct) :=
  ((io.accept.bind Direct.accepted).toList.map (n, ·) ++ w).filterMap fun e =>
    ((io.conn e.1).on e.2).map (e.1, ·)

/-- The number of records allocated after `process_listener`. -/
def allocated (io : TurnIo) (n : Nat) : Nat :=
  n + (io.accept.bind Direct.accepted).toList.length

/-- A channel of the link waits for the connection, and the message for the switch fits in its
write buffer. -/
def Fits (io : TurnIo) (cs : List ListenChan) (p : ConnPtr) (d : Direct) : Prop :=
  ∃ e, matching io cs p d = some e ∧
    (sendDirectc2cSwitch io.mem e.1.chn io.r₀ io.r₁).map Prod.snd = some .ok

instance (io : TurnIo) (cs : List ListenChan) (p : ConnPtr) (d : Direct) :
    Decidable (Fits io cs p d) :=
  decidable_of_iff
    ((matching io cs p d).any fun e =>
      decide ((sendDirectc2cSwitch io.mem e.1.chn io.r₀ io.r₁).map Prod.snd = some .ok))
    (by simp [Fits, Option.any_eq_true])

/-- The first complete connection at the turn of a link belongs to this link, and none is
left at the end. -/
def Served : List (ListenC2n × TurnIo) → Nat → List (ConnPtr × Direct) → Prop
  | [], _, w => ∀ e ∈ w, e.2.state ≠ .active
  | (c, io) :: rest, n, w =>
      let w := heard io n w
      if c.config = .disabled then Served rest (allocated io n) w
      else
        match w.find? fun e => decide (e.2.state = .active) with
        | none => Served rest (allocated io n) w
        | some e =>
            Fits io c.chans e.1 e.2 ∧
              Served rest (allocated io n) (w.eraseP fun e => decide (e.2.state = .active))

/-- The condition can be evaluated. -/
def decidableServed :
    ∀ (turns : List (ListenC2n × TurnIo)) (n : Nat) (w : List (ConnPtr × Direct)),
      Decidable (Served turns n w)
  | [], _, w => inferInstanceAs (Decidable (∀ e ∈ w, e.2.state ≠ .active))
  | (c, io) :: rest, n, w => by
      have := decidableServed rest
      unfold Served
      dsimp only
      split
      · infer_instance
      · split <;> infer_instance

instance (turns : List (ListenC2n × TurnIo)) (n : Nat) (w : List (ConnPtr × Direct)) :
    Decidable (Served turns n w) :=
  decidableServed turns n w

end Listener

end Client
end PicaPica
