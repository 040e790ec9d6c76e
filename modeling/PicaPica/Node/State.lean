import PicaPica.Node.Relay
import PicaPica.Node.ClientTree
import PicaPica.Lib.Table

/-!
# The node: state and operations on its lists

`Node` holds the global variables of `PICA_node.c`.  An operation that reads
through a `NULL` pointer, or through a pointer to a record that is no longer in
its list, ends in a `Fault`; so does the failed allocation on which the source
exits.

What the surroundings decide is part of the state: `mem` tells which
allocations succeed, `rnd` gives the random bytes and `verify` the results of
signature checks.  They are arbitrary, and `tick` counts the questions asked.

The tree of clients and the `next_multi` chains are not made of pointers here.
`client_tree_search` returns a connected client with the identifier, but it can
miss one: the tree loses clients when one with two children is removed.  To which
clients the walks through the tree and the chains get is therefore arbitrary too;
`reached` decides it from the calls that have made the tree, which `log` lists.
`multi` lists the further logins, the newest first, so that the chain of a client
is the part of `multi` with its identifier that is reached.  `Node/TreeOfNode.lean`
takes for `reached` what the pointers of `ClientTree` give.
-/

namespace PicaPica

open Table

/-- Ways in which a callback does not return: a `NULL` pointer or a pointer to a
freed record is dereferenced, memory outside the message is read, a loop does
not end, or `PICA_fatal` is called. -/
inductive Fault
  | null
  | freed
  | bounds
  | stuck
  | fatal
deriving DecidableEq

/-- `MAX_NEWCONNS`. -/
def maxNewconns : Nat := 64

/-- `NEWCONN_BUFSIZE`. -/
def newconnBufsize : Nat := 58

structure Node where
  /-- `nodecfg.announced_addr` and `nodecfg.listen_port` -/
  myAddr : SockAddr
  disableReservedAddrs : Bool
  clients : List Client
  /-- clients in state `MULTILOGIN_SECONDARY`, the newest first -/
  multi : List Ptr
  cclinks : List CCLink
  nodelinks : List NodeLink
  newconns : List NewConn
  newconnsPos : Nat
  /-- `time(0)` -/
  now : Nat
  /-- the address the next record gets -/
  next : Ptr
  mem : Nat → Bool
  rnd : Nat → UInt8
  verify : Ptr → Frame → Bool
  reached : List ClientEvent → Ptr → Bool
  tick : Nat
  log : List ClientEvent

/-- `PICA_id` at an offset of a message. -/
def idAt (buf : Frame) (off : Nat) : Id :=
  ⟨(List.range idSize).map fun i => buf.getD (off + i) 0, by simp⟩

/-- `*(in_addr_t*)(buf + off)` and `*(in_port_t*)(buf + off + 4)`. -/
def addrAt (buf : Frame) (off : Nat) : SockAddr :=
  ⟨leNat ((buf.drop off).take 4), load16 buf (off + 4)⟩

/-- The bytes of an address and a port. -/
def addrBytes (a : SockAddr) : List UInt8 :=
  le16 a.addr ++ le16 (a.addr / 65536) ++ le16 a.port

/-- `PICA_is_reserved_addr_ipv4`; the first octet is the low byte. -/
def isReservedAddrIpv4 (addr : Nat) : Bool :=
  let a := addr % 256
  let b := addr / 256 % 256
  a == 0 || a == 10 || a == 127 || (a == 169 && b == 254) || (a == 172 && b / 16 == 1) ||
    (a == 192 && b == 168) || a / 16 == 14 || a / 16 == 15

namespace Node

variable (n : Node)

def modifyClient (p : Ptr) (f : Client → Client) : Node :=
  { n with clients := modify Client.ptr p f n.clients }

def modifyLink (p : Ptr) (f : CCLink → CCLink) : Node :=
  { n with cclinks := modify CCLink.ptr p f n.cclinks }

def modifyNodelink (p : Ptr) (f : NodeLink → NodeLink) : Node :=
  { n with nodelinks := modify NodeLink.ptr p f n.nodelinks }

/-- One question was asked. -/
def asked : Node :=
  { n with tick := n.tick + 1 }

/-- A call for the list of clients and their tree was made. -/
def logged (e : ClientEvent) : Node :=
  { n with log := n.log ++ [e] }

/-- The walks get to the client at `p`. -/
def reaches (p : Ptr) : Bool :=
  n.reached n.log p

end Node

/-- Read through a pointer. -/
def deref {α : Type} (key : α → Ptr) (xs : List α) : Option Ptr → Except Fault α
  | none => .error .null
  | some p =>
      match lookup key p xs with
      | none => .error .freed
      | some x => .ok x

/-- `cclink_attach_remotecle_node`. -/
def CCLink.attachRemotecleNode (l : CCLink) (calleeNode : Ptr) : CCLink :=
  if l.state = .n2nClrWaitSearch then
    { l with state := .n2nClrWaitRep, calleeNode := some calleeNode }
  else l

/-- `cclink_setwaitconn`. -/
def CCLink.setwaitconn (l : CCLink) : CCLink :=
  match l.state with
  | .localWaitRep => { l with state := .localWaitConnCle }
  | .n2nClrWaitRep => { l with state := .n2nClrWaitConnClr }
  | .n2nCleWaitRep => { l with state := .n2nCleWaitConnCle }
  | _ => l

/-- `cclink_allocbufs`: two buffers of arbitrary content. -/
def CCLink.allocbufs (l : CCLink) : CCLink :=
  { l with
    p1p2 := { l.p1p2 with buf := List.replicate defaultBufSize 0, buflen := defaultBufSize }
    p2p1 := { l.p2p1 with buf := List.replicate defaultBufSize 0, buflen := defaultBufSize } }

/-- `cclink_activate`. -/
def CCLink.activate (l : CCLink) : CCLink :=
  match l.state with
  | .localWaitConnCleAnonTlsShutdown => { l with state := .localWaitConnClr }
  | .localWaitConnClrAnonTlsShutdown =>
      { l with
        state := .localActive
        evReadP1 := some true
        evReadP2 := some true
        evWriteP1 := some false
        evWriteP2 := some false }
  | .n2nClrWaitConnClrAnonTlsShutdown =>
      { l with state := .n2nClrActive, evReadP1 := some true, evWriteP1 := some false }
  | .n2nCleWaitConnCleAnonTlsShutdown =>
      { l with state := .n2nCleActive, evReadP2 := some true, evWriteP2 := some false }
  | _ => l

/-- Which end of a link connects next: the client whose address is compared in
`procmsg_CONNID`. -/
def CCLink.awaited (l : CCLink) : Option (Option Ptr) :=
  match l.state with
  | .localWaitConnCle => some l.p2
  | .n2nCleWaitConnCle => some l.p2
  | .localWaitConnClr => some l.p1
  | .n2nClrWaitConnClr => some l.p1
  | _ => none

/-- The link part of `cclink_setwaitanontlsshutdown`. -/
def CCLink.setwaitanontlsshutdown (l : CCLink) (sck : Socket) : CCLink :=
  match l.state with
  | .localWaitConnCle =>
      { l with sckP2 := sck, state := .localWaitConnCleAnonTlsShutdown }
  | .localWaitConnClr =>
      { l.allocbufs with sckP1 := sck, state := .localWaitConnClrAnonTlsShutdown }
  | .n2nClrWaitConnClr =>
      { l.allocbufs with sckP1 := sck, state := .n2nClrWaitConnClrAnonTlsShutdown }
  | .n2nCleWaitConnCle =>
      { l.allocbufs with sckP2 := sck, state := .n2nCleWaitConnCleAnonTlsShutdown }
  | _ => l

namespace Node

def derefClient (n : Node) (p : Option Ptr) : Except Fault Client :=
  deref Client.ptr n.clients p

def derefLink (n : Node) (p : Option Ptr) : Except Fault CCLink :=
  deref CCLink.ptr n.cclinks p

def derefNodelink (n : Node) (p : Option Ptr) : Except Fault NodeLink :=
  deref NodeLink.ptr n.nodelinks p

/-- `client_wbuf_push` of a complete message; the second result tells whether
there was memory for it. -/
def clientWbufPush (n : Node) (c : Option Ptr) (f : Frame) : Except Fault (Node × Bool) := do
  let c ← derefClient n c
  if n.mem n.tick then
    pure (n.asked.modifyClient c.ptr fun c => { c with pushed := c.pushed ++ [f] }, true)
  else pure (n.asked, false)

/-- `nodelink_wbuf_push` of a complete message. -/
def nodelinkWbufPush (n : Node) (nl : Option Ptr) (f : Frame) : Except Fault (Node × Bool) := do
  let nl ← derefNodelink n nl
  if n.mem n.tick then
    pure (n.asked.modifyNodelink nl.ptr fun nl => { nl with pushed := nl.pushed ++ [f] }, true)
  else pure (n.asked, false)

/-- A message whose two bytes of content are random. -/
def randomMsg (n : Node) (msgid : Nat) : Frame :=
  head msgid ++ [n.rnd (2 * n.tick), n.rnd (2 * n.tick + 1)]

/-- `LISTMAP` with a function that pushes the message to a node and ignores
whether there was memory for it. -/
def pushToNodes (f : Frame) : List NodeLink → Node → Except Fault Node
  | [], n => pure n
  | nl :: nls, n => do
      let r ← nodelinkWbufPush n (some nl.ptr) f
      pushToNodes f nls r.1

/-- `client_tree_search`. -/
def clientTreeSearch (n : Node) (id : Id) : Option Client :=
  n.clients.find? fun c => c.state = .connected ∧ c.id = id ∧ n.reaches c.ptr

/-- `cclink_list_search`. -/
def cclinkListSearch (n : Node) (callerId calleeId : Id) : Option CCLink :=
  n.cclinks.find? fun c => c.callerId = callerId ∧ c.calleeId = calleeId

/-- `cclink_list_findwaitsearch`. -/
def cclinkListFindwaitsearch (n : Node) (calleeId : Id) : Option CCLink :=
  n.cclinks.find? fun c => c.calleeId = calleeId ∧ c.state = .n2nClrWaitSearch

/-- A link as `calloc` and `cclink_list_add` leave it. -/
def freshLink (n : Node) (p1 p2 : Option Ptr) (state : CcState) (callerId calleeId : Id)
    (callerNode : Option Ptr) : CCLink where
  ptr := n.next
  state := state
  tmst := n.now
  p1 := p1
  p2 := p2
  callerId := callerId
  calleeId := calleeId
  callerNode := callerNode
  calleeNode := none
  sckP1 := -1
  sckP2 := -1
  p1p2 := ⟨[], 0, 0, false⟩
  p2p1 := ⟨[], 0, 0, false⟩
  evReadP1 := none
  evReadP2 := none
  evWriteP1 := none
  evWriteP2 := none

/-- `cclink_list_add` with the assignments of its callers. -/
def cclinkListAdd (n : Node) (l : CCLink) : Node :=
  { n with cclinks := n.cclinks ++ [l], next := n.next + 1 }

/-- `cclink_list_addlocal`. -/
def cclinkListAddlocal (n : Node) (clr cle : Client) : Node :=
  if n.mem n.tick then
    cclinkListAdd n.asked
      (freshLink n (some clr.ptr) (some cle.ptr) .localWaitRep clr.id cle.id none)
  else n.asked

/-- `cclink_list_addn2nclr`. -/
def cclinkListAddn2nclr (n : Node) (clr : Client) (calleeId : Id) : Except Fault Node :=
  if n.mem n.tick then
    if n.mem (n.tick + 1) then
      pure (cclinkListAdd n.asked.asked
        (freshLink n (some clr.ptr) none .n2nClrWaitSearch clr.id calleeId none))
    else .error .fatal
  else pure n.asked

/-- `cclink_list_addn2ncle`. -/
def cclinkListAddn2ncle (n : Node) (callerId : Id) (callerNode : Ptr) (cle : Client) :
    Except Fault Node :=
  if n.mem n.tick then
    if n.mem (n.tick + 1) then
      pure (cclinkListAdd n.asked.asked
        (freshLink n none (some cle.ptr) .n2nCleWaitRep callerId cle.id (some callerNode)))
    else .error .fatal
  else pure n.asked

/-- `cclink_list_delete`. -/
def cclinkListDelete (n : Node) (l : Option Ptr) : Except Fault Node := do
  let l ← derefLink n l
  pure { n with cclinks := remove CCLink.ptr l.ptr n.cclinks }

/-- `cclink_list_delete_by_client`. -/
def cclinkListDeleteByClient (n : Node) (cl : Ptr) : Node :=
  { n with cclinks := n.cclinks.filter fun l => ¬(l.p1 = some cl ∨ l.p2 = some cl) }

/-- `cclink_list_delete_by_nodelink`. -/
def cclinkListDeleteByNodelink (n : Node) (nl : Ptr) : Node :=
  { n with
    cclinks := n.cclinks.filter fun l => ¬(l.callerNode = some nl ∨ l.calleeNode = some nl) }

/-- The logins of an identifier that follow its client in the tree. -/
def nextMulti (n : Node) (id : Id) : List Ptr :=
  n.multi.filter fun p => n.reaches p ∧ (lookup Client.ptr p n.clients).any fun c => c.id = id

/-- The part of `client_list_delete` that concerns the tree and the chains of
further logins. -/
def clientTreeForget (n : Node) (ci : Client) : Node :=
  match n.clientTreeSearch ci.id with
  | none => n
  | some s =>
      if s.ptr = ci.ptr then
        match n.nextMulti ci.id with
        -- `client_tree_remove`
        | [] => n
        | q :: _ =>
            -- `client_tree_replace_multi`
            { n.modifyClient q fun q => { q with state := ci.state } with
              multi := n.multi.erase q }
      else { n with multi := n.multi.erase ci.ptr }

/-- `client_list_delete` during `call`. -/
def clientListDeleteIn (call : Ptr → ClientEvent) (n : Node) (ci : Option Ptr) :
    Except Fault Node := do
  let c ← derefClient n ci
  let n := cclinkListDeleteByClient (clientTreeForget n c) c.ptr
  pure (logged { n with clients := remove Client.ptr c.ptr n.clients } (call c.ptr))

/-- `client_list_delete`. -/
def clientListDelete (n : Node) (ci : Option Ptr) : Except Fault Node :=
  clientListDeleteIn .delete n ci

/-- `client_list_addnew`, with the pointer it returns.  A record without a read
buffer is freed while it is in the list. -/
def clientListAddnew (n : Node) (nc : NewConn) : Except Fault (Node × Option Ptr) :=
  if n.mem n.tick ∧ n.mem (n.tick + 1) then
    if n.mem (n.tick + 2) then
      pure ({ n.asked.asked.asked with
        next := n.next + 1
        log := n.log ++ [.addnew n.next]
        clients := n.clients ++ [{
          ptr := n.next
          id := .ofByte 0
          sckComm := nc.sck
          addr := nc.addr
          state := .waitAnonTlsShutdown
          tmst := n.now
          disconnectTicking := false
          pushed := [] }] }, some n.next)
    else .error .freed
  else pure (n.asked.asked, none)

/-- `nodelink_list_addnew`, with the pointer it returns. -/
def nodelinkListAddnew (n : Node) (sck : Socket) (addr : SockAddr) :
    Except Fault (Node × Option Ptr) :=
  if n.mem n.tick then
    if n.mem (n.tick + 1) then
      pure ({ n.asked.asked with
        next := n.next + 1
        nodelinks := n.nodelinks ++ [{
          ptr := n.next
          sck := sck
          addr := addr
          addrType := 0
          nodeAddr := none
          tmst := n.now
          disconnectTicking := false
          pushed := [] }] }, some n.next)
    else .error .freed
  else pure (n.asked, none)

/-- `nodelink_list_delete`. -/
def nodelinkListDelete (n : Node) (nl : Option Ptr) : Except Fault Node := do
  let nl ← derefNodelink n nl
  let n := cclinkListDeleteByNodelink n nl.ptr
  pure { n with nodelinks := remove NodeLink.ptr nl.ptr n.nodelinks }

/-- `nodelink_attach_nodeaddr` with an IPv4 address: the old address is gone even
when there is no memory for the new one. -/
def nodelinkAttachNodeaddr (n : Node) (nl : Ptr) (a : SockAddr) : Node :=
  if n.mem n.tick then
    n.asked.modifyNodelink nl fun nl =>
      { nl with nodeAddr := some a, addrType := Proto.NEWNODE_IPV4 }
  else n.asked.modifyNodelink nl fun nl => { nl with nodeAddr := none }

/-- `nodelink_search_by_ipv4addr`. -/
def nodelinkSearchByIpv4addr (n : Node) (a : SockAddr) : Option NodeLink :=
  n.nodelinks.find? fun nl =>
    nl.addr = a ∨ nl.addrType = Proto.NEWNODE_IPV4 ∧ nl.nodeAddr = some a

/-- A slot of the array `newconns`. -/
def slot (n : Node) (i : Nat) : NewConn :=
  n.newconns.getD i ⟨-1, ⟨0, 0⟩, 0, [], .waitAnonTlsAccept, .unknown, none⟩

def setSlot (n : Node) (i : Nat) (f : NewConn → NewConn) : Node :=
  { n with newconns := n.newconns.modify i f }

/-- The two deletions of `newconn_close`. -/
def newconnRelease (n : Node) (nc : NewConn) : Except Fault Node :=
  if nc.iconn ≠ none ∧ nc.type = .c2n then clientListDelete n nc.iconn
  else if nc.iconn ≠ none ∧ nc.type = .c2c then cclinkListDelete n nc.iconn
  else pure n

/-- `newconn_close`. -/
def newconnClose (n : Node) (i : Nat) : Except Fault Node := do
  let m ← newconnRelease (n.setSlot i fun nc => { nc with sck := -1, buf := [] }) (n.slot i)
  pure (m.setSlot i fun nc => { nc with iconn := none, type := .unknown })

/-- `newconn_free`. -/
def newconnFree (n : Node) (i : Nat) : Node :=
  n.setSlot i fun nc => { nc with sck := -1, iconn := none }

/-- The loop of `newconn_add`: the position of the first free slot from `pos`
on, or `none`, and the oldest slot before it. -/
def newconnScan : List NewConn → Nat → Nat → Nat → Option Nat × Nat
  | [], _, _, minPos => (none, minPos)
  | nc :: ncs, pos, min, minPos =>
      if nc.sck = -1 then (some pos, minPos)
      else if nc.tmst < min then newconnScan ncs (pos + 1) nc.tmst pos
      else newconnScan ncs (pos + 1) min minPos

/-- The slot `newconn_add` chooses; the oldest one is closed when all are in use. -/
def newconnFind (n : Node) : Except Fault (Node × Nat) :=
  if n.newconnsPos < maxNewconns ∧ (n.slot n.newconnsPos).sck = -1 then
    pure (n, n.newconnsPos)
  else
    match newconnScan n.newconns 0 (n.slot 0).tmst 0 with
    | (some pos, _) => pure (n, pos)
    | (none, minPos) => do
        let n ← newconnClose n minPos
        pure (n, minPos)

/-- `newconn_add`, with the position of the slot it returns. -/
def newconnAdd (n : Node) : Except Fault (Node × Nat) := do
  let (n, pos) ← newconnFind n
  pure ({ n.setSlot pos fun nc => { nc with sck := -1, buf := [], tmst := n.now } with
    newconnsPos := pos + 1 }, pos)

end Node

end PicaPica
