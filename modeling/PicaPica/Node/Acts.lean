import PicaPica.Node.Step
import PicaPica.Node.RelayStreams

/-!
# Changes of the node

Every call of the event loop changes the node's tables by a sequence of few kinds
of changes.  `Act n₀ e` lists them, for the call that handles `e` on the node `n₀`,
each with what is known when it happens.  `NodeEvent.deletesClient`,
`deletesNodelink` and `deletesLink` tell from the state before the call which
records it deletes.

The operations on the lists and on the slots of new connections are related to the
changes here, the handlers in `Node/Effects.lean`.
-/

namespace PicaPica

open Table Machine

/-- Kinds of links: between two clients of this node, and the two halves of a link
between clients of two nodes. -/
inductive LinkKind
  | loc
  | n2nclr
  | n2ncle
deriving DecidableEq

namespace CcState

def kind : CcState → LinkKind
  | localWaitRep => .loc
  | localWaitConnCle => .loc
  | localWaitConnCleAnonTlsShutdown => .loc
  | localWaitConnClr => .loc
  | localWaitConnClrAnonTlsShutdown => .loc
  | localActive => .loc
  | n2nClrWaitSearch => .n2nclr
  | n2nClrWaitRep => .n2nclr
  | n2nClrWaitConnClr => .n2nclr
  | n2nClrWaitConnClrAnonTlsShutdown => .n2nclr
  | n2nClrActive => .n2nclr
  | n2nCleWaitRep => .n2ncle
  | n2nCleWaitConnCle => .n2ncle
  | n2nCleWaitConnCleAnonTlsShutdown => .n2ncle
  | n2nCleActive => .n2ncle

/-- A new connection is about to become one of the link's sockets. -/
def anon : CcState → Bool
  | localWaitConnCleAnonTlsShutdown => true
  | localWaitConnClrAnonTlsShutdown => true
  | n2nClrWaitConnClrAnonTlsShutdown => true
  | n2nCleWaitConnCleAnonTlsShutdown => true
  | _ => false

/-- The callee has not decided yet. -/
def undecided : CcState → Bool
  | localWaitRep => true
  | n2nClrWaitSearch => true
  | n2nClrWaitRep => true
  | n2nCleWaitRep => true
  | _ => false

end CcState

namespace Node

variable (n : Node)

/-- The client at `p` is the one that represents `id` in the tree. -/
def Primary (p : Ptr) (id : Id) : Prop :=
  ∃ c ∈ n.clients, c.ptr = p ∧ c.state = .connected ∧ c.id = id

/-- The client at `p` is in the list. -/
def HasClient (p : Ptr) : Prop :=
  ∃ c ∈ n.clients, c.ptr = p

/-- The link at `p` is in the list. -/
def HasLink (p : Ptr) : Prop :=
  ∃ l ∈ n.cclinks, l.ptr = p

/-- The node at `p` is linked. -/
def Linked (p : Ptr) : Prop :=
  ∃ nl ∈ n.nodelinks, nl.ptr = p

/-! ## Deletions -/

/-- The handler of the client's message returns 0. -/
def clientRefused (c : Client) (f : Frame) : Bool :=
  if byteAt f 0 = Proto.CONNALLOW ∨ byteAt f 0 = Proto.CONNDENY then
    c.state ≠ .multiloginSecondary ∧
      ¬(n.cclinkListSearch (idAt f 2) c.id).any fun l =>
        l.state = .localWaitRep ∨ l.state = .n2nCleWaitRep
  else if byteAt f 0 = Proto.CLNODELISTREQ ∨ byteAt f 0 = Proto.PINGREQ then !n.mem n.tick
  else false

/-- The handler of the node's message returns 0. -/
def nodeRefused (f : Frame) : Bool :=
  if byteAt f 0 = Proto.INITRESPOK then
    byteAt f 2 ≠ 79 ∨ byteAt f 3 ≠ 75 ∨ !n.mem n.tick ∨ !n.mem (n.tick + 1)
  else if byteAt f 0 = Proto.VERDIFFER then true
  else if byteAt f 0 = Proto.NEWNODE_IPV4 then
    (n.nodelinkSearchByIpv4addr (addrAt f 2)).isSome ∨
      n.disableReservedAddrs ∧ isReservedAddrIpv4 (addrAt f 2).addr
  else if byteAt f 0 = Proto.NODELISTREQ ∨ byteAt f 0 = Proto.PINGREQ then !n.mem n.tick
  else if byteAt f 0 = Proto.N2NMSG then load16 f 2 < 2 * idSize
  else if byteAt f 0 = Proto.MULTILOGIN then
    load16 f 2 ≤ 8 + Proto.NODELIST_ITEM_IPV4_SIZE
  else false

/-- A `CONNID` names a link that awaits the connection in the slot `i`, and there
is no memory for the link's buffers. -/
def connidFails (i : Nat) (f : Frame) : Bool :=
  f.length = newconnBufsize ∧ byteAt f 0 = Proto.CONNID ∧ byteAt f 0 = byteAt f 1 ∧
    !n.mem n.tick ∧ !n.mem (n.tick + 1) ∧
    (n.cclinkListSearch (idAt f 2) (idAt f (2 + idSize))).any fun l =>
      l.state ≠ .localWaitConnCle ∧ l.awaited.any fun p =>
        (n.derefClient p).toOption.any fun c => (n.slot i).addr.addr = c.addr.addr

end Node

namespace NodeEvent

variable (n : Node)

/-- The client at `ci` is deleted, because it is lost, refused or has no acceptable
certificate. -/
def deletesClient (ci : Ptr) : NodeEvent → Bool
  | .timeoutC2n p => p = ci ∧ (lookup Client.ptr ci n.clients).any fun c =>
      if c.disconnectTicking then 15 < Node.elapsed c.tmst n.now
      else c.tmst + 60 < n.now ∧ !n.mem n.tick
  | .c2nFrame p f => p = ci ∧ (lookup Client.ptr ci n.clients).any fun c => n.clientRefused c f
  | .c2nConnected p cert => p = ci ∧ (cert = none ∨ cert = some (.ofByte 0))
  | .c2nClosed p => p = ci
  | _ => false

/-- The node at `nl` is deleted. -/
def deletesNodelink (nl : Ptr) : NodeEvent → Bool
  | .timeoutN2n p => p = nl ∧ (lookup NodeLink.ptr nl n.nodelinks).any fun l =>
      if l.disconnectTicking then 15 < Node.elapsed l.tmst n.now
      else l.tmst + 60 < n.now ∧ !n.mem n.tick
  | .n2nFrame p f => p = nl ∧ n.nodeRefused f
  | .n2nClosed p => p = nl
  | _ => false

/-- A link that is not active is deleted for its own sake: it has expired, or the
callee or its node does not want it. -/
def deletesLink (l : CCLink) : NodeEvent → Bool
  | .timeoutC2c p => p = l.ptr ∧ n.linkExpired l
  | .c2nFrame p f => byteAt f 0 = Proto.CONNDENY ∧
      (lookup Client.ptr p n.clients).any fun c =>
        c.state ≠ .multiloginSecondary ∧ n.cclinkListSearch (idAt f 2) c.id = some l
  | .n2nFrame _ f => byteAt f 0 = Proto.N2NNOTFOUND ∧
      n.cclinkListSearch (idAt f 2) (idAt f (2 + idSize)) = some l
  | _ => false

/-- The bytes of the slot are a `CONNID` whose link gets no buffers: the link is
deleted while the slot refers to it. -/
def allocFails : NodeEvent → Bool
  | .newconnRead i io =>
      let nc := n.slot i
      (nc.state = .waitRequest ∨ nc.state = .waitAnonTlsAccept ∧ io.accept = .done) ∧
        !io.readRetry ∧
        n.connidFails i (nc.buf ++ io.read.take (newconnBufsize - nc.buf.length))
  | _ => false

/-- A request for a callee who is on another node, or of a caller who is, makes a
second link for two clients that have one: only the request for a callee on this
node looks for it. -/
def asksAgain : NodeEvent → Bool
  | .c2nFrame p f => byteAt f 0 = Proto.CONNREQOUTG ∧ n.clientTreeSearch (idAt f 2) = none ∧
      ((n.cclinkListFindwaitsearch (idAt f 2)).isSome ∨ n.nodelinks ≠ []) ∧
      (lookup Client.ptr p n.clients).any fun c =>
        c.state ≠ .multiloginSecondary ∧ (n.cclinkListSearch c.id (idAt f 2)).isSome
  | .n2nFrame _ f => byteAt f 0 = Proto.N2NCONNREQOUTG ∧
      (n.clientTreeSearch (idAt f (2 + idSize))).isSome ∧
      (n.cclinkListSearch (idAt f 2) (idAt f (2 + idSize))).isSome
  | _ => false

/-- A client logs in whose identifier a connected client has that `client_tree_search`
does not find. -/
def loginMissed : NodeEvent → Bool
  | .c2nConnected _ (some id) => id ≠ .ofByte 0 ∧ n.clientTreeSearch id = none ∧
      n.clients.any fun c => c.state = .connected ∧ c.id = id
  | _ => false

/-- The message makes the node push more than 65536 bytes to a client: it is itself
longer and goes to other logins, or there are too many nodes for a list. -/
def overlong : NodeEvent → Bool
  | .c2nFrame p f => byteAt f 0 = Proto.MULTILOGIN ∧ 65536 < f.length ∧
        ((lookup Client.ptr p n.clients).any fun c =>
          (((n.clientTreeSearch c.id).map n.logins).getD []).any (· ≠ p)) ∨
      byteAt f 0 = Proto.CLNODELISTREQ ∧
        9361 ≤ (n.nodelinks.filter fun nl => nl.addrType = Proto.NEWNODE_IPV4).length
  | .n2nFrame _ f => byteAt f 0 = Proto.MULTILOGIN ∧ 65536 < f.length ∧
      n.clients.any fun c => c.state = .connected ∧ n.verify c.ptr f
  | _ => false

/-- An `N2NMSG` brings bytes for an active link. -/
def feedsLink : NodeEvent → Bool
  | .n2nFrame _ f => byteAt f 0 = Proto.N2NMSG ∧ 2 * idSize < load16 f 2 ∧
      ((n.cclinkListSearch (idAt f 4) (idAt f (4 + idSize))).any (·.state = .n2nCleActive) ∨
        (n.cclinkListSearch (idAt f (4 + idSize)) (idAt f 4)).any (·.state = .n2nClrActive))
  | _ => false

/-- The slot and the bytes that the call hands to the handlers of new connections. -/
def brought : NodeEvent → Option (Nat × List UInt8)
  | .newconnRead i io =>
      let nc := n.slot i
      if (nc.state = .waitRequest ∨ nc.state = .waitAnonTlsAccept ∧ io.accept = .done) ∧
          !io.readRetry then
        some (i, nc.buf ++ io.read.take (newconnBufsize - nc.buf.length))
      else none
  | _ => none

def brings (i : Nat) (f : List UInt8) (e : NodeEvent) : Prop :=
  e.brought n = some (i, f)

/-- The bytes begin with `INITREQ` or `NODECONNREQ`, which have 4 bytes. -/
def isRequest (f : List UInt8) : Bool :=
  4 ≤ f.length ∧ byteAt f 0 = byteAt f 1 ∧
    (byteAt f 0 = Proto.INITREQ ∨ byteAt f 0 = Proto.NODECONNREQ)

/-- Two requests arrive together on a new connection. -/
def asksTwice (e : NodeEvent) : Bool :=
  (e.brought n).any fun b => isRequest b.2 && isRequest (b.2.drop 4)

/-- The link and the address the message gives it, when there is memory for the address:
`procmsg_NEWNODE` checks the address, `procmsg_NODELIST` takes its first item. -/
def announced : NodeEvent → Option (Ptr × SockAddr)
  | .n2nFrame nl f =>
      if !n.mem n.tick then none
      else if byteAt f 0 = Proto.NEWNODE_IPV4 then
        if (n.nodelinkSearchByIpv4addr (addrAt f 2)).isSome then none
        else if n.disableReservedAddrs ∧ isReservedAddrIpv4 (addrAt f 2).addr then none
        else some (nl, addrAt f 2)
      else if byteAt f 0 = Proto.NODELIST ∧ 4 < f.length then some (nl, addrAt f 5)
      else none
  | _ => none

/-- The call is for the array of new connections. -/
def onNewconn : NodeEvent → Bool
  | .accept _ _ _ => true
  | .newconnRead _ _ => true
  | .timeoutNewconn _ => true
  | _ => false

end NodeEvent

/-! ## Changes -/

/-- The call in which a client leaves the list: it is deleted, or its certificate is not
acceptable. -/
def Client.LeavesBy (c : Client) (call : ClientEvent) : Prop :=
  call = .delete c.ptr ∨ ∃ cert, call = .connected c.ptr cert ∧ c.state = .tlsNegotiation ∧
    (cert = none ∨ cert = some (.ofByte 0))

namespace Node

variable (n : Node)

/-- The result of `client_list_delete`. -/
def dropClient (c : Client) : Node :=
  let m := (n.clientTreeForget c).cclinkListDeleteByClient c.ptr
  { m with clients := remove Client.ptr c.ptr m.clients }

/-- The result of `nodelink_list_delete`. -/
def dropNodelink (nl : NodeLink) : Node :=
  let m := n.cclinkListDeleteByNodelink nl.ptr
  { m with nodelinks := remove NodeLink.ptr nl.ptr m.nodelinks }

/-- The result of `cclink_list_delete`. -/
def dropLink (l : CCLink) : Node :=
  { n with cclinks := remove CCLink.ptr l.ptr n.cclinks }

/-- The descriptor belongs to a client, to another node, or to a new connection that is
nothing else yet. -/
def Owns (s : Socket) : Prop :=
  (∃ c ∈ n.clients, c.sckComm = s) ∨ (∃ m ∈ n.nodelinks, m.sck = s) ∨
    ∃ i, (n.slot i).sck = s ∧ s ≠ -1 ∧ (n.slot i).iconn = none

/-- A client whose connection comes from the slot `i`. -/
def newClient (i : Nat) : Client where
  ptr := n.next
  id := .ofByte 0
  sckComm := (n.slot i).sck
  addr := (n.slot i).addr
  state := .waitAnonTlsShutdown
  tmst := n.now
  disconnectTicking := false
  pushed := []

def addClient (c : Client) : Node :=
  { n with next := n.next + 1, clients := n.clients ++ [c], log := n.log ++ [.addnew c.ptr] }

def addNodelink (nl : NodeLink) : Node :=
  { n with next := n.next + 1, nodelinks := n.nodelinks ++ [nl] }

/-- What `procmsg_CONNID` makes of the slot `i` and the link it has found. -/
def bindSlot (i : Nat) (l : CCLink) : Node :=
  (n.setSlot i fun nc =>
    { nc with type := .c2c, iconn := some l.ptr, state := .waitAnonTlsShutdown }).modifyLink
      l.ptr fun l => l.setwaitanontlsshutdown (n.slot i).sck

/-- How a link begins, with what the handlers have checked. -/
inductive LinkStart : CCLink → Prop
  | localLink (p q : Ptr) (i j : Id) :
      n.Primary p i → n.Primary q j → i ≠ j → n.cclinkListSearch i j = none →
      LinkStart (n.freshLink (some p) (some q) .localWaitRep i j none)
  | callerSide (p : Ptr) (i j : Id) :
      n.Primary p i → n.clientTreeSearch j = none →
      LinkStart (n.freshLink (some p) none .n2nClrWaitSearch i j none)
  | calleeSide (q nl : Ptr) (i j : Id) :
      n.Primary q j → n.Linked nl →
      LinkStart (n.freshLink none (some q) .n2nCleWaitRep i j (some nl))

end Node

/-- Fields of a link that relaying does not touch. -/
def CCLink.core (l : CCLink) :
    Ptr × CcState × Option Ptr × Option Ptr × Id × Id × Option Ptr × Option Ptr :=
  (l.ptr, l.state, l.p1, l.p2, l.callerId, l.calleeId, l.callerNode, l.calleeNode)

/-- A buffer that has been allocated, holds nothing and may be read into. -/
def RelayBuf.Idle (b : RelayBuf) : Prop :=
  b.buf.length = defaultBufSize ∧ b.buflen = defaultBufSize ∧ b.bufpos = 0 ∧ b.jam = false

/-- How a call relays bytes of an active link. -/
inductive RelayedBy (n₀ : Node) (e : NodeEvent) (l l' : CCLink) : Prop
  | read (s : Socket) (data12 data21 : List UInt8) (env : WriteEnv) :
      e = .c2cRead l.ptr s data12 data21 env →
      (processC2cRead s data12 data21 env l).cc = some l' → RelayedBy n₀ e l l'
  | write (s : Socket) (env : WriteEnv) :
      e = .c2cWrite l.ptr s env → (processC2cWrite s env (l.fired s)).kill = false →
      l' = (processC2cWrite s env (l.fired s)).cc → RelayedBy n₀ e l l'
  | n2nmsg (d : Dir) (data : List UInt8) :
      n2nDir l.state = some d → relayN2nmsg d data l = some l' →
      (data ≠ [] → e.feedsLink n₀) → RelayedBy n₀ e l l'

/-- Links, clients and the connection in the slot `i` are as before the call. -/
structure Node.Unmoved (n₀ n : Node) (i : Nat) : Prop where
  cclinks : n.cclinks = n₀.cclinks
  clients : n.clients = n₀.clients
  sck : (n.slot i).sck = (n₀.slot i).sck
  addr : (n.slot i).addr = (n₀.slot i).addr

/-- A change of a record `nl` that does not touch its address, or makes it the one that `e`
announces for the link at `p`. -/
def NodeLink.Readdressed (n₀ : Node) (e : NodeEvent) (p : Ptr) (nl nl' : NodeLink) : Prop :=
  ∀ a, nl'.nodeAddr = some a →
    nl.nodeAddr = some a ∧ nl'.addrType = nl.addrType ∨
      e.announced n₀ = some (p, a) ∧ nl'.addrType = Proto.NEWNODE_IPV4

/-- What makes the node push `FOUND` for the link `l` while it handles `e`: an
`N2NALLOW`, or a callee that has connected. -/
def FoundBy (n₀ : Node) (e : NodeEvent) (l : CCLink) : Prop :=
  (∃ nl f, e = .n2nFrame nl f ∧ byteAt f 0 = Proto.N2NALLOW ∧ n₀.mem n₀.tick ∧
    n₀.cclinkListSearch (idAt f 2) (idAt f (2 + idSize)) = some l) ∨
  l.state = .localWaitConnCleAnonTlsShutdown

/-- One change of the node while `e` is handled that was begun on `n₀`. -/
inductive Act (n₀ : Node) (e : NodeEvent) (n : Node) : Node → Prop
  | asked : Act n₀ e n n.asked
  | clock (t : Nat) : Act n₀ e n { n with now := t }
  | tickClient (p : Ptr) (t : Nat) (b : Bool) :
      Act n₀ e n (n.modifyClient p fun c => { c with disconnectTicking := b, tmst := t })
  | push (p : Ptr) (f : Frame) :
      (byteAt f 0 = Proto.FOUND → ∃ l ∈ n.cclinks, l.p1 = some p ∧
        f = head Proto.FOUND ++ l.calleeId.1 ∧ FoundBy n₀ e l) →
      (65536 < f.length → e.overlong n₀) →
      Act n₀ e n (n.modifyClient p fun c => { c with pushed := c.pushed ++ [f] })
  | nodelink (p : Ptr) (g : NodeLink → NodeLink) :
      (∀ nl, (g nl).ptr = nl.ptr ∧ (g nl).sck = nl.sck) →
      (∀ nl : NodeLink, nl.Readdressed n₀ e p (g nl)) →
      Act n₀ e n (n.modifyNodelink p g)
  | login (c : Client) (id : Id) :
      c ∈ n.clients → c.state = .tlsNegotiation → id ≠ .ofByte 0 →
      n.clientTreeSearch id = none →
      (∀ d ∈ n.clients, d.state = .connected → d.id ≠ id) ∨ e.loginMissed n₀ →
      Act n₀ e n ((n.logged (.connected c.ptr (some id))).modifyClient c.ptr fun c =>
        { c with id := id, state := .connected })
  | loginMulti (c s : Client) (id : Id) :
      c ∈ n.clients → c.state = .tlsNegotiation → id ≠ .ofByte 0 →
      n.clientTreeSearch id = some s →
      Act n₀ e n { (n.logged (.connected c.ptr (some id))).modifyClient c.ptr fun c =>
        { c with id := id, state := .multiloginSecondary } with multi := c.ptr :: n.multi }
  | deleteClient (c : Client) (call : ClientEvent) :
      c ∈ n.clients → e.deletesClient n₀ c.ptr → c.LeavesBy call →
      Act n₀ e n ((n.dropClient c).logged call)
  | addNodelink (nl : NodeLink) (a : SockAddr) :
      nl.ptr = n.next → e = .nodewait nl.sck a → (∀ s, n.Owns s → n₀.Owns s) →
      nl.nodeAddr = none →
      Act n₀ e n (n.addNodelink nl)
  | deleteNodelink (nl : NodeLink) :
      nl ∈ n.nodelinks → e.deletesNodelink n₀ nl.ptr → Act n₀ e n (n.dropNodelink nl)
  | addLink (l : CCLink) :
      n.LinkStart l →
      n.cclinkListSearch l.callerId l.calleeId = none ∨ e.asksAgain n₀ →
      Act n₀ e n (n.cclinkListAdd l)
  | attach (l : CCLink) (nl : Ptr) (f : Frame) :
      e = .n2nFrame nl f →
      byteAt f 0 = Proto.N2NFOUND ∨ byteAt f 0 = Proto.N2NFOUNDCACHE →
      n.Linked nl → n.cclinkListFindwaitsearch (idAt f 2) = some l →
      Act n₀ e n (n.modifyLink l.ptr fun l => l.attachRemotecleNode nl)
  | allow (l : CCLink) (ci : Ptr) (id : Id) (f : Frame) :
      e = .c2nFrame ci f → byteAt f 0 = Proto.CONNALLOW → n₀.Primary ci id →
      n₀.cclinkListSearch (idAt f 2) id = some l →
      l.state = .localWaitRep ∨ l.state = .n2nCleWaitRep →
      Act n₀ e n (n.modifyLink l.ptr CCLink.setwaitconn)
  | n2nallow (l : CCLink) (nl : Ptr) (f : Frame) :
      e = .n2nFrame nl f → byteAt f 0 = Proto.N2NALLOW →
      n₀.cclinkListSearch (idAt f 2) (idAt f (2 + idSize)) = some l →
      l.p1 ≠ none → n₀.mem n₀.tick →
      Act n₀ e n (n.modifyLink l.ptr CCLink.setwaitconn)
  | relay (l l' : CCLink) :
      l ∈ n.cclinks → l.state.active → l'.core = l.core →
      (∀ d, l.state = remoteState d → (l.relay d).Idle → (l'.relay d).Idle) →
      RelayedBy n₀ e l l' →
      Act n₀ e n (n.modifyLink l.ptr fun _ => l')
  | deleteLink (l : CCLink) :
      l ∈ n.cclinks → l.state.active ∨ l ∈ n₀.cclinks ∧ e.deletesLink n₀ l → !e.onNewconn →
      Act n₀ e n (n.dropLink l)
  | takeSlot (i : Nat) :
      e.onNewconn → (n.slot i).sck = -1 →
      Act n₀ e n { n.setSlot i fun nc => { nc with sck := -1, buf := [], tmst := n.now } with
        newconnsPos := i + 1 }
  | openSlot (i : Nat) (s : Socket) (addr : SockAddr) :
      e = .accept s addr true → s ≠ -1 → (n.slot i).sck = -1 → (∀ s, n.Owns s → n₀.Owns s) →
      Act n₀ e n (n.setSlot i fun nc =>
        { nc with sck := s, addr := addr, state := .waitAnonTlsAccept })
  | greeted (i : Nat) :
      e.onNewconn → (n.slot i).state = .waitAnonTlsAccept →
      Act n₀ e n (n.setSlot i fun nc => { nc with state := .waitRequest })
  | fillSlot (i : Nat) (b : List UInt8) :
      e.onNewconn → Act n₀ e n (n.setSlot i fun nc => { nc with buf := b })
  | answered (i : Nat) :
      e.onNewconn → (n.slot i).state = .sendingOk →
      Act n₀ e n (n.setSlot i fun nc => { nc with state := .waitAnonTlsShutdown })
  | initreq (i : Nat) :
      e.onNewconn → (n.slot i).sck ≠ -1 → (n.slot i).iconn = none ∨ e.asksTwice n₀ →
      Act n₀ e n ((n.addClient (n.newClient i)).setSlot i fun nc =>
        { nc with type := .c2n, iconn := some n.next, state := .sendingOk })
  | request (i : Nat) (t : NcType) (st : NcState) :
      e.onNewconn → (n.slot i).sck ≠ -1 →
      ((n.slot i).iconn = none ∨
        (n.slot i).type ≠ .c2c ∧ ∃ c ∈ n.clients, (n.slot i).iconn = some c.ptr) →
      (n.slot i).iconn = none ∨ e.asksTwice n₀ →
      t = .c2n ∧ st = .sendingReject ∨ t = .n2n ∧ (st = .sendingOk ∨ st = .sendingReject) →
      Act n₀ e n (n.setSlot i fun nc => { nc with type := t, state := st })
  | connid (i : Nat) (l : CCLink) (f : Frame) (c : Client) :
      e.onNewconn → (n.slot i).sck ≠ -1 → (n.slot i).iconn = none →
      n.cclinkListSearch (idAt f 2) (idAt f (2 + idSize)) = some l →
      l.awaited = some (some c.ptr) → c ∈ n.clients → (n.slot i).addr.addr = c.addr.addr →
      e.brings n₀ i f → byteAt f 0 = Proto.CONNID → n₀.Unmoved n i →
      Act n₀ e n (n.bindSlot i l)
  | connidLost (i : Nat) (l : CCLink) :
      e.onNewconn → e.allocFails n₀ → (n.slot i).sck ≠ -1 → (n.slot i).iconn = none →
      l ∈ n.cclinks → l.awaited ≠ none →
      Act n₀ e n ((n.setSlot i fun nc =>
        { nc with type := .c2c, iconn := some l.ptr, state := .waitAnonTlsShutdown }).dropLink l)
  | close (i : Nat) (g : NewConn → NewConn) (n' : Node) :
      e.onNewconn → (∀ nc, (g nc).iconn = nc.iconn) →
      (n.slot i).iconn = none ∨ (∀ nc, (g nc).type = nc.type) ∨ e.asksTwice n₀ →
      (n.setSlot i g).newconnClose i = .ok n' → Act n₀ e n n'
  | clientReady (i : Nat) (c : Client) :
      e.onNewconn → (n.slot i).iconn = some c.ptr → (n.slot i).type = .c2n → c ∈ n.clients →
      Act n₀ e n (((n.logged (.negotiate c.ptr)).modifyClient c.ptr fun c =>
        { c with state := .tlsNegotiation }).newconnFree i)
  | linkReady (i : Nat) (l : CCLink) :
      e.onNewconn → (n.slot i).iconn = some l.ptr → (n.slot i).type = .c2c → l ∈ n.cclinks →
      (n.slot i).state = .waitAnonTlsShutdown →
      (∃ io, e = .newconnRead i io ∧ io.shutdown = .done) →
      n.cclinks = n₀.cclinks → n.newconns = n₀.newconns →
      Act n₀ e n ((n.modifyLink l.ptr CCLink.activate).newconnFree i)
  | nodeReady (i : Nat) (nl : NodeLink) :
      e.onNewconn → (n.slot i).type = .n2n → nl.ptr = n.next → nl.sck = (n.slot i).sck →
      nl.nodeAddr = none →
      Act n₀ e n ((n.addNodelink nl).newconnFree i)

/-- Several changes. -/
def Acts (n₀ : Node) (e : NodeEvent) : Node → Node → Prop :=
  Relation.ReflTransGen (Act n₀ e)

section Basic

variable {n₀ n m k : Node} {e : NodeEvent}

theorem Acts.refl : Acts n₀ e n n :=
  Relation.ReflTransGen.refl

theorem Acts.trans (h : Acts n₀ e n m) (h' : Acts n₀ e m k) : Acts n₀ e n k :=
  Relation.ReflTransGen.trans h h'

theorem Acts.tail (h : Acts n₀ e n m) (h' : Act n₀ e m k) : Acts n₀ e n k :=
  Relation.ReflTransGen.tail h h'

theorem Act.acts (h : Act n₀ e n m) : Acts n₀ e n m :=
  Relation.ReflTransGen.single h

theorem acts_asked : Acts n₀ e n n.asked :=
  Act.asked.acts

/-- A record of a node changes, but not its address. -/
theorem modifyNodelink_acts
    {p : Ptr} {g : NodeLink → NodeLink}
    (hg : ∀ nl, (g nl).ptr = nl.ptr ∧ (g nl).sck = nl.sck)
    (haddr : ∀ nl, (g nl).nodeAddr = nl.nodeAddr ∧ (g nl).addrType = nl.addrType) :
    Acts n₀ e n (n.modifyNodelink p g) := by
  refine (Act.nodelink p g hg ?_).acts
  intro nl a ha
  rw [(haddr nl).1] at ha
  exact .inl ⟨ha, (haddr nl).2⟩

end Basic

/-! ## Operations on the lists -/

section Operations

variable {n₀ n m : Node} {e : NodeEvent}

theorem deref_eq_ok
    {α : Type} {key : α → Ptr} {xs : List α} {p : Option Ptr} {x : α}
    (h : deref key xs p = .ok x) :
    p = some (key x) ∧ x ∈ xs ∧ lookup key (key x) xs = some x := by
  cases p with
  | none => cases h
  | some p =>
      simp only [deref] at h
      cases hl : lookup key p xs with
      | none => simp [hl] at h
      | some y =>
          simp only [hl, Except.ok.injEq] at h
          subst h
          obtain ⟨hy, rfl⟩ := lookup_eq_some hl
          exact ⟨rfl, hy, hl⟩

theorem clientWbufPush_ok
    {c : Option Ptr} {f : Frame} {b : Bool}
    (h : n.clientWbufPush c f = .ok (m, b)) :
    ∃ cl ∈ n.clients, c = some cl.ptr ∧ b = n.mem n.tick ∧
      m = if b then
        n.asked.modifyClient cl.ptr fun c => { c with pushed := c.pushed ++ [f] }
      else n.asked := by
  obtain ⟨cl, hcl, hres⟩ := bind_eq_ok.mp h
  obtain ⟨rfl, hmem, -⟩ := deref_eq_ok hcl
  refine ⟨cl, hmem, rfl, ?_⟩
  split_ifs at hres with hm
  · cases hres
    simp [hm]
  · cases hres
    simp [hm]

theorem nodelinkWbufPush_ok
    {nl : Option Ptr} {f : Frame} {b : Bool}
    (h : n.nodelinkWbufPush nl f = .ok (m, b)) :
    ∃ l ∈ n.nodelinks, nl = some l.ptr ∧ b = n.mem n.tick ∧
      m = if b then
        n.asked.modifyNodelink l.ptr fun l => { l with pushed := l.pushed ++ [f] }
      else n.asked := by
  obtain ⟨l, hl, hres⟩ := bind_eq_ok.mp h
  obtain ⟨rfl, hmem, -⟩ := deref_eq_ok hl
  refine ⟨l, hmem, rfl, ?_⟩
  split_ifs at hres with hm
  · cases hres
    simp [hm]
  · cases hres
    simp [hm]

/-- Pushing to a client changes nothing else. -/
theorem clientWbufPush_acts
    {c : Option Ptr} {f : Frame} {b : Bool}
    (hf : n.mem n.tick → byteAt f 0 = Proto.FOUND → ∃ l ∈ n.cclinks, l.p1 = c ∧
      f = head Proto.FOUND ++ l.calleeId.1 ∧ FoundBy n₀ e l)
    (hlong : 65536 < f.length → e.overlong n₀)
    (h : n.clientWbufPush c f = .ok (m, b)) :
    Acts n₀ e n m := by
  obtain ⟨cl, -, rfl, rfl, rfl⟩ := clientWbufPush_ok h
  split_ifs with hmem
  · exact acts_asked.tail (.push cl.ptr f (hf hmem) hlong)
  · exact acts_asked

theorem nodelinkWbufPush_acts
    {nl : Option Ptr} {f : Frame} {b : Bool}
    (h : n.nodelinkWbufPush nl f = .ok (m, b)) :
    Acts n₀ e n m := by
  obtain ⟨l, -, rfl, -, rfl⟩ := nodelinkWbufPush_ok h
  split_ifs
  · exact acts_asked.trans (modifyNodelink_acts (fun _ => ⟨rfl, rfl⟩) fun _ => ⟨rfl, rfl⟩)
  · exact acts_asked

theorem pushToNodes_acts
    {f : Frame} {nls : List NodeLink}
    (h : Node.pushToNodes f nls n = .ok m) :
    Acts n₀ e n m := by
  induction nls generalizing n with
  | nil =>
      cases h
      exact .refl
  | cons nl nls ih =>
      obtain ⟨⟨k, b⟩, hk, h⟩ := bind_eq_ok.mp h
      exact (nodelinkWbufPush_acts hk).trans (ih h)

theorem pushToNodes_frame
    {f : Frame} {nls : List NodeLink}
    (h : Node.pushToNodes f nls n = .ok m) :
    m.clients = n.clients ∧ m.cclinks = n.cclinks ∧ m.reaches = n.reaches := by
  induction nls generalizing n with
  | nil =>
      cases h
      exact ⟨rfl, rfl, rfl⟩
  | cons nl nls ih =>
      obtain ⟨⟨k, b⟩, hk, h⟩ := bind_eq_ok.mp h
      obtain ⟨l, -, -, -, rfl⟩ := nodelinkWbufPush_ok hk
      obtain ⟨hclients, hlinks, hreach⟩ := ih h
      rw [hclients, hlinks, hreach]
      split_ifs <;> exact ⟨rfl, rfl, rfl⟩

theorem cclinkListDelete_ok
    {l : Option Ptr}
    (h : n.cclinkListDelete l = .ok m) :
    ∃ cc ∈ n.cclinks, l = some cc.ptr ∧ m = n.dropLink cc := by
  obtain ⟨cc, hcc, hres⟩ := bind_eq_ok.mp h
  obtain ⟨rfl, hmem, -⟩ := deref_eq_ok hcc
  cases hres
  exact ⟨cc, hmem, rfl, rfl⟩

theorem clientListDeleteIn_ok
    {call : Ptr → ClientEvent} {ci : Option Ptr}
    (h : Node.clientListDeleteIn call n ci = .ok m) :
    ∃ c ∈ n.clients, ci = some c.ptr ∧ m = (n.dropClient c).logged (call c.ptr) := by
  obtain ⟨c, hc, hres⟩ := bind_eq_ok.mp h
  obtain ⟨rfl, hmem, -⟩ := deref_eq_ok hc
  cases hres
  exact ⟨c, hmem, rfl, rfl⟩

theorem clientListDelete_ok
    {ci : Option Ptr}
    (h : n.clientListDelete ci = .ok m) :
    ∃ c ∈ n.clients, ci = some c.ptr ∧ m = (n.dropClient c).logged (.delete c.ptr) :=
  clientListDeleteIn_ok h

theorem nodelinkListDelete_ok
    {nl : Option Ptr}
    (h : n.nodelinkListDelete nl = .ok m) :
    ∃ l ∈ n.nodelinks, nl = some l.ptr ∧ m = n.dropNodelink l := by
  obtain ⟨l, hl, hres⟩ := bind_eq_ok.mp h
  obtain ⟨rfl, hmem, -⟩ := deref_eq_ok hl
  cases hres
  exact ⟨l, hmem, rfl, rfl⟩

theorem clientListDeleteIn_acts
    {call : Ptr → ClientEvent} {ci : Ptr}
    (hdel : e.deletesClient n₀ ci)
    (hleave : ∀ c ∈ n.clients, c.ptr = ci → c.LeavesBy (call c.ptr))
    (h : Node.clientListDeleteIn call n (some ci) = .ok m) :
    Acts n₀ e n m := by
  obtain ⟨c, hc, hp, rfl⟩ := clientListDeleteIn_ok h
  cases hp
  exact (Act.deleteClient c (call c.ptr) hc hdel (hleave c hc rfl)).acts

theorem clientListDelete_acts
    {ci : Ptr}
    (hdel : e.deletesClient n₀ ci)
    (h : n.clientListDelete (some ci) = .ok m) :
    Acts n₀ e n m :=
  clientListDeleteIn_acts hdel (fun _ _ _ => .inl rfl) h

theorem nodelinkListDelete_acts
    {nl : Ptr}
    (hdel : e.deletesNodelink n₀ nl)
    (h : n.nodelinkListDelete (some nl) = .ok m) :
    Acts n₀ e n m := by
  obtain ⟨l, hl, hp, rfl⟩ := nodelinkListDelete_ok h
  cases hp
  exact (Act.deleteNodelink l hl hdel).acts

theorem clientTreeSearch_primary
    {id : Id} {c : Client}
    (h : n.clientTreeSearch id = some c) :
    c ∈ n.clients ∧ c.state = .connected ∧ c.id = id := by
  have hfound := List.find?_some h
  simp only [decide_eq_true_eq] at hfound
  exact ⟨List.mem_of_find?_eq_some h, hfound.1, hfound.2.1⟩

theorem cclinkListSearch_spec
    {i j : Id} {l : CCLink}
    (h : n.cclinkListSearch i j = some l) :
    l ∈ n.cclinks ∧ l.callerId = i ∧ l.calleeId = j := by
  have := List.find?_some h
  simp only [decide_eq_true_eq] at this
  exact ⟨List.mem_of_find?_eq_some h, this⟩

theorem Node.Primary.modifyClient
    {p q : Ptr} {id : Id} {g : Client → Client}
    (hg : ∀ c, (g c).ptr = c.ptr ∧ (g c).state = c.state ∧ (g c).id = c.id)
    (h : n.Primary p id) :
    (n.modifyClient q g).Primary p id := by
  obtain ⟨c, hc, rfl, hst, rfl⟩ := h
  refine ⟨_, mem_modify.mpr ⟨c, hc, rfl⟩, ?_⟩
  split_ifs
  · exact ⟨(hg c).1, (hg c).2.1.trans hst, (hg c).2.2⟩
  · exact ⟨rfl, hst, rfl⟩

/-- What pushing to a client leaves as it is. -/
theorem clientWbufPush_frame
    {p : Option Ptr} {f : Frame} {b : Bool}
    (h : n.clientWbufPush p f = .ok (m, b)) :
    m.cclinks = n.cclinks ∧ m.nodelinks = n.nodelinks ∧
      ∀ q id, n.Primary q id → m.Primary q id := by
  obtain ⟨c, -, -, -, rfl⟩ := clientWbufPush_ok h
  split_ifs
  · exact ⟨rfl, rfl, fun q id hq => hq.modifyClient fun _ => ⟨rfl, rfl, rfl⟩⟩
  · exact ⟨rfl, rfl, fun q id hq => hq⟩

/-- What pushing to a node leaves as it is. -/
theorem nodelinkWbufPush_frame
    {p : Option Ptr} {f : Frame} {b : Bool}
    (h : n.nodelinkWbufPush p f = .ok (m, b)) :
    m.cclinks = n.cclinks ∧ m.clients = n.clients ∧
      ∀ q, n.Linked q → m.Linked q := by
  obtain ⟨l, -, -, -, rfl⟩ := nodelinkWbufPush_ok h
  split_ifs
  · refine ⟨rfl, rfl, ?_⟩
    rintro q ⟨nl, hnl, rfl⟩
    refine ⟨_, mem_modify.mpr ⟨nl, hnl, rfl⟩, ?_⟩
    split_ifs <;> rfl
  · exact ⟨rfl, rfl, fun q hq => hq⟩

end Operations

/-! ## Slots of new connections -/

section Slots

variable {n : Node} {i j : Nat} {g h : NewConn → NewConn}

theorem slot_setSlot :
    (n.setSlot i g).slot j =
      if j = i ∧ i < n.newconns.length then g (n.slot i) else n.slot j := by
  simp only [Node.slot, Node.setSlot, List.getD_eq_getElem?_getD, List.getElem?_modify]
  by_cases hij : j = i
  · subst hij
    by_cases hj : j < n.newconns.length
    · simp [hj]
    · simp [hj]
  · have hne : ¬i = j := fun h => hij h.symm
    simp [hij, hne]

theorem lt_of_slot (hocc : (n.slot i).sck ≠ -1) : i < n.newconns.length := by
  by_contra hlt
  apply hocc
  simp [Node.slot, List.getD_eq_getElem?_getD, List.getElem?_eq_none (Nat.le_of_not_lt hlt)]

theorem slot_setSlot_self (hocc : (n.slot i).sck ≠ -1) :
    (n.setSlot i g).slot i = g (n.slot i) := by
  rw [slot_setSlot, if_pos ⟨rfl, lt_of_slot hocc⟩]

theorem setSlot_setSlot : (n.setSlot i g).setSlot i h = n.setSlot i fun nc => h (g nc) := by
  simp only [Node.setSlot, List.modify_modify_eq]
  rfl

theorem setSlot_id : (n.setSlot i fun nc => nc) = n := by
  have : n.newconns.modify i (fun nc => nc) = n.newconns := by
    apply List.ext_getElem?
    intro k
    simp [List.getElem?_modify]
  rw [Node.setSlot, this]

theorem slot_setSlot_free
    (hg : (g (n.slot i)).sck = -1) :
    ((n.setSlot i g).slot i).sck = -1 := by
  rw [slot_setSlot]
  split_ifs with hi
  · exact hg
  · by_contra hocc
    exact hi ⟨rfl, lt_of_slot hocc⟩

theorem clientTreeForget_setSlot {c : Client} :
    (n.setSlot i g).clientTreeForget c = (n.clientTreeForget c).setSlot i g := by
  have hsearch : (n.setSlot i g).clientTreeSearch c.id = n.clientTreeSearch c.id := rfl
  have hmulti : (n.setSlot i g).nextMulti c.id = n.nextMulti c.id := rfl
  simp only [Node.clientTreeForget, hsearch, hmulti]
  cases n.clientTreeSearch c.id with
  | none => rfl
  | some s =>
      dsimp only
      split_ifs
      · cases n.nextMulti c.id with
        | nil => rfl
        | cons q qs => rfl
      · rfl

theorem dropClient_setSlot {c : Client} :
    (n.setSlot i g).dropClient c = (n.dropClient c).setSlot i g := by
  rw [Node.dropClient, clientTreeForget_setSlot]
  rfl

theorem dropClient_logged_setSlot {c : Client} {call : ClientEvent} :
    ((n.setSlot i g).dropClient c).logged call = ((n.dropClient c).logged call).setSlot i g := by
  rw [dropClient_setSlot]
  rfl

theorem dropLink_setSlot {l : CCLink} :
    (n.setSlot i g).dropLink l = (n.dropLink l).setSlot i g :=
  rfl

/-- What `newconn_close` does: the record the slot refers to is deleted. -/
theorem newconnClose_ok
    {m : Node}
    (hclose : n.newconnClose i = .ok m) :
    ∃ k,
      (((n.slot i).iconn = none ∨ (n.slot i).type ≠ .c2n ∧ (n.slot i).type ≠ .c2c) ∧ k = n ∨
        (∃ c ∈ n.clients, (n.slot i).iconn = some c.ptr ∧ (n.slot i).type = .c2n ∧
          k = (n.dropClient c).logged (.delete c.ptr)) ∨
        ∃ l ∈ n.cclinks, (n.slot i).iconn = some l.ptr ∧ (n.slot i).type = .c2c ∧
          k = n.dropLink l) ∧
      m = k.setSlot i fun nc =>
        { nc with sck := -1, buf := [], iconn := none, type := .unknown } := by
  obtain ⟨k, hrel, hres⟩ := bind_eq_ok.mp hclose
  cases hres
  rw [Node.newconnRelease] at hrel
  split_ifs at hrel with hc2n hc2c
  · obtain ⟨c, hc, hp, rfl⟩ := clientListDelete_ok hrel
    refine ⟨(n.dropClient c).logged (.delete c.ptr), .inr (.inl ⟨c, hc, hp, hc2n.2, rfl⟩), ?_⟩
    rw [dropClient_logged_setSlot, setSlot_setSlot]
  · obtain ⟨l, hl, hp, rfl⟩ := cclinkListDelete_ok hrel
    refine ⟨n.dropLink l, .inr (.inr ⟨l, hl, hp, hc2c.2, rfl⟩), ?_⟩
    rw [dropLink_setSlot, setSlot_setSlot]
  · cases hrel
    refine ⟨n, .inl ⟨?_, rfl⟩, setSlot_setSlot⟩
    by_cases hnone : (n.slot i).iconn = none
    · exact .inl hnone
    · exact .inr ⟨fun h => hc2n ⟨hnone, h⟩, fun h => hc2c ⟨hnone, h⟩⟩

end Slots

end PicaPica
