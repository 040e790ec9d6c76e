import PicaPica.Node.State

/-!
# Message handlers of the node (`procmsg_*`)

A handler gets the node, the record behind its `void*` argument and the message,
and returns the node and its result; `0` makes the caller close the connection.
The tables `msginfoComm`, `msginfoMulti`, `msginfoNode` and `msginfoNewconn` are
the `_msginfo_*` arrays.

The database of node addresses (`PICA_nodeaddr_save`) is not part of the state.
-/

namespace PicaPica

open Table

namespace Node

variable (n : Node)

/-! ## Messages of clients -/

/-- `nodelink_send_searchreq`. -/
def nodelinkSendSearchreq (id : Id) : Except Fault (Node × Bool) :=
  if n.nodelinks = [] then pure (n, false)
  else do
    let n' ← pushToNodes (head Proto.SEARCH ++ id.1) n.nodelinks n
    pure (n', true)

/-- Look for the callee on the other nodes, unless that is already going on. -/
def connreqSearch (calleeId : Id) : Except Fault (Node × Bool) :=
  if (n.cclinkListFindwaitsearch calleeId).isSome then pure (n, true)
  else n.nodelinkSendSearchreq calleeId

/-- The end of `procmsg_CONNREQOUTG`, for a callee who is not on this node. -/
def connreqRemote (i : Client) (calleeId : Id) : Except Fault (Node × Nat) := do
  let (n, searching) ← n.connreqSearch calleeId
  if searching then
    let n ← n.cclinkListAddn2nclr i calleeId
    pure (n, 1)
  else
    let (n, _) ← n.clientWbufPush (some i.ptr) (head Proto.NOTFOUND ++ calleeId.1)
    pure (n, 1)

def procmsgCONNREQOUTG (ci : Ptr) (buf : Frame) : Except Fault (Node × Nat) := do
  let i ← n.derefClient (some ci)
  let calleeId := idAt buf 2
  match n.clientTreeSearch calleeId with
  | some o =>
      if (n.cclinkListSearch i.id calleeId).isSome ∨ i.id = calleeId then pure (n, 1)
      else
        let (n, mp) ← n.clientWbufPush (some o.ptr) (head Proto.CONNREQINC ++ i.id.1)
        if mp then
          let n := n.cclinkListAddlocal i o
          pure (n.modifyClient o.ptr fun o =>
            { o with tmst := n.now, disconnectTicking := true }, 1)
        else pure (n, 1)
  | none => n.connreqRemote i calleeId

/-- `disconnect_ticking = 0; tmst = time(0)`. -/
def clientReplied (ci : Ptr) : Node :=
  n.modifyClient ci fun c => { c with disconnectTicking := false, tmst := n.now }

def procmsgCONNALLOW (ci : Ptr) (buf : Frame) : Except Fault (Node × Nat) := do
  let callee ← n.derefClient (some ci)
  let n := n.clientReplied ci
  match n.cclinkListSearch (idAt buf 2) callee.id with
  | none => pure (n, 0)
  | some link =>
      if link.state = .localWaitRep ∨ link.state = .n2nCleWaitRep then
        pure (n.modifyLink link.ptr CCLink.setwaitconn, 1)
      else pure (n, 0)

def procmsgCONNDENY (ci : Ptr) (buf : Frame) : Except Fault (Node × Nat) := do
  let callee ← n.derefClient (some ci)
  let callerId := idAt buf 2
  let n := n.clientReplied ci
  match n.cclinkListSearch callerId callee.id with
  | none => pure (n, 0)
  | some link =>
      match link.state with
      | .localWaitRep =>
          let (n, _) ← n.clientWbufPush link.p1 (head Proto.NOTFOUND ++ callee.id.1)
          let n ← n.cclinkListDelete (some link.ptr)
          pure (n, 1)
      | .n2nCleWaitRep =>
          let (n, _) ← n.nodelinkWbufPush link.callerNode
            (head Proto.N2NNOTFOUND ++ callerId.1 ++ callee.id.1)
          let n ← n.cclinkListDelete (some link.ptr)
          pure (n, 1)
      | _ =>
          let n ← n.cclinkListDelete (some link.ptr)
          pure (n, 0)

def procmsgPINGREQClient (ci : Ptr) (_buf : Frame) : Except Fault (Node × Nat) := do
  let (n, mp) ← n.clientWbufPush (some ci) (n.randomMsg Proto.PINGREP)
  pure (n, if mp then 1 else 0)

def procmsgPINGREPClient (ci : Ptr) (_buf : Frame) : Except Fault (Node × Nat) :=
  pure (n.clientReplied ci, 1)

/-- A loop over logins with one identifier that pushes a message to all of them
but `me`. -/
def pushToLogins (f : Frame) (me : Option Ptr) : List Ptr → Node → Except Fault Node
  | [], n => pure n
  | p :: ps, n =>
      if some p = me then pushToLogins f me ps n
      else do
        let (n, _) ← n.clientWbufPush (some p) f
        pushToLogins f me ps n

/-- A client of the tree and the logins that follow it. -/
def logins (c : Client) : List Ptr :=
  c.ptr :: n.nextMulti c.id

def procmsgMULTILOGINClient (ci : Ptr) (buf : Frame) : Except Fault (Node × Nat) := do
  let me ← n.derefClient (some ci)
  let others := ((n.clientTreeSearch me.id).map n.logins).getD []
  let n ← pushToLogins (head Proto.MULTILOGIN ++ buf.drop 2) (some ci) others n
  let n ← pushToNodes (head Proto.MULTILOGIN ++ (buf.drop 2).take (load16 buf 2 + 2))
    n.nodelinks n
  pure (n, 1)

def procmsgDummyMultiC2n (_ci : Ptr) (_buf : Frame) : Except Fault (Node × Nat) :=
  pure (n, 1)

/-! ## Lists of nodes -/

/-- An item of a node list. -/
def nodelistItem (a : SockAddr) : List UInt8 :=
  UInt8.ofNat Proto.NEWNODE_IPV4 :: addrBytes a

/-- The loop of `procmsg_NODELISTREQ`: `asking` is the requesting node, whose own
address is left out. -/
def nodelistScan (asking : Option NodeLink) :
    List NodeLink → List UInt8 → Except Fault (List UInt8)
  | [], nlBuf => pure nlBuf
  | nlp :: nls, nlBuf =>
      if nlBuf.length < 65532 then
        if nlp.addrType = Proto.NEWNODE_IPV4 then
          match nlp.nodeAddr, asking with
          | none, _ => .error .null
          | some a, none => nodelistScan asking nls (nlBuf ++ nodelistItem a)
          | some a, some m =>
              match m.nodeAddr with
              | none => .error .null
              | some b =>
                  if a = b then nodelistScan asking nls nlBuf
                  else nodelistScan asking nls (nlBuf ++ nodelistItem a)
        else nodelistScan asking nls nlBuf
      else pure nlBuf

/-- `procmsg_NODELISTREQ` of a client. -/
def procmsgNODELISTREQClient (ci : Ptr) (_buf : Frame) : Except Fault (Node × Nat) :=
  if n.mem n.tick then do
    let nlBuf ← nodelistScan none n.nodelinks (nodelistItem n.myAddr)
    let (n, _) ← n.asked.clientWbufPush (some ci)
      (head Proto.CLNODELIST ++ le16 nlBuf.length ++ nlBuf)
    pure (n, 1)
  else pure (n.asked, 0)

/-- `procmsg_NODELISTREQ` of a node. -/
def procmsgNODELISTREQ (nl : Ptr) (_buf : Frame) : Except Fault (Node × Nat) :=
  if n.mem n.tick then do
    let asking ← n.derefNodelink (some nl)
    let nlBuf ← nodelistScan (some asking) n.nodelinks (nodelistItem n.myAddr)
    let (n, _) ← n.asked.nodelinkWbufPush (some nl)
      (head Proto.NODELIST ++ le16 nlBuf.length ++ nlBuf)
    pure (n, 1)
  else pure (n.asked, 0)

/-! ## Messages of nodes -/

def procmsgNODERESP (nl : Ptr) (buf : Frame) : Except Fault (Node × Nat) :=
  if byteAt buf 0 = Proto.INITRESPOK then
    if byteAt buf 2 ≠ 79 ∨ byteAt buf 3 ≠ 75 then pure (n, 0)
    else do
      let (n, mp) ← n.nodelinkWbufPush (some nl) (head Proto.NEWNODE_IPV4 ++ addrBytes n.myAddr)
      if mp then
        let (n, mp) ← n.nodelinkWbufPush (some nl) (n.randomMsg Proto.NODELISTREQ)
        pure (n, if mp then 1 else 0)
      else pure (n, 0)
  else if byteAt buf 0 = Proto.VERDIFFER then pure (n, 0)
  else pure (n, 1)

def procmsgNEWNODE (nl : Ptr) (buf : Frame) : Except Fault (Node × Nat) :=
  if byteAt buf 0 = Proto.NEWNODE_IPV4 then
    let a := addrAt buf 2
    if (n.nodelinkSearchByIpv4addr a).isSome then pure (n, 0)
    else if n.disableReservedAddrs ∧ isReservedAddrIpv4 a.addr then pure (n, 0)
    else pure (n.nodelinkAttachNodeaddr nl a, 1)
  else pure (n, 1)

/-- The loop of `procmsg_NODELIST`; the first item is the address of the sender.
An item of unknown type leaves `listleft` as it is, so that the loop does not
end; a short item lets `listleft` wrap and the loop leave the message. -/
def nodelistLoop (nl : Ptr) (buf : Frame) (size listsize : Nat) :
    Nat → Nat → Node → Except Fault Node
  | _, 0, n => pure n
  | 0, _, _ => .error .stuck
  | fuel + 1, listleft, n =>
      if byteAt buf (size - listleft) ≠ Proto.NEWNODE_IPV4 then .error .stuck
      else if listleft < Proto.NODELIST_ITEM_IPV4_SIZE then .error .bounds
      else
        let n := if listleft = listsize then
          n.nodelinkAttachNodeaddr nl (addrAt buf (size - listleft + 1)) else n
        nodelistLoop nl buf size listsize fuel
          (listleft - Proto.NODELIST_ITEM_IPV4_SIZE) n

def procmsgNODELIST (nl : Ptr) (buf : Frame) : Except Fault (Node × Nat) := do
  let n ← nodelistLoop nl buf buf.length (buf.length - 4) buf.length (buf.length - 4) n
  pure (n, 1)

def procmsgSEARCH (nl : Ptr) (buf : Frame) : Except Fault (Node × Nat) :=
  match n.clientTreeSearch (idAt buf 2) with
  | some _ => do
      let (n, _) ← n.nodelinkWbufPush (some nl) (head Proto.N2NFOUND ++ (idAt buf 2).1)
      pure (n, 1)
  | none => pure (n, 1)

/-- The loop of `procmsg_N2NFOUND`; every pass takes one link out of the waiting
state. -/
def n2nfoundLoop (nl : Ptr) (calleeId : Id) : Nat → Node → Except Fault Node
  | fuel, n =>
      match n.cclinkListFindwaitsearch calleeId, fuel with
      | none, _ => pure n
      | some _, 0 => .error .stuck
      | some cc, fuel + 1 => do
          let n := n.modifyLink cc.ptr fun l => l.attachRemotecleNode nl
          let (n, _) ← n.nodelinkWbufPush (some nl)
            (head Proto.N2NCONNREQOUTG ++ cc.callerId.1 ++ calleeId.1)
          n2nfoundLoop nl calleeId fuel n

def procmsgN2NFOUND (nl : Ptr) (buf : Frame) : Except Fault (Node × Nat) := do
  let n ← n2nfoundLoop nl (idAt buf 2) n.cclinks.length n
  pure (n, 1)

def procmsgN2NCONNREQOUTG (nl : Ptr) (buf : Frame) : Except Fault (Node × Nat) :=
  let callerId := idAt buf 2
  let calleeId := idAt buf (2 + idSize)
  match n.clientTreeSearch calleeId with
  | some callee => do
      let (n, mp) ← n.clientWbufPush (some callee.ptr) (head Proto.CONNREQINC ++ callerId.1)
      if mp then
        let n ← n.cclinkListAddn2ncle callerId nl callee
        pure (n, 1)
      else pure (n, 1)
  | none => do
      let (n, _) ← n.nodelinkWbufPush (some nl)
        (head Proto.N2NNOTFOUND ++ callerId.1 ++ calleeId.1)
      pure (n, 1)

def procmsgN2NALLOW (_nl : Ptr) (buf : Frame) : Except Fault (Node × Nat) :=
  let calleeId := idAt buf (2 + idSize)
  match n.cclinkListSearch (idAt buf 2) calleeId with
  | some cc => do
      let (n, mp) ← n.clientWbufPush cc.p1 (head Proto.FOUND ++ calleeId.1)
      if mp then pure (n.modifyLink cc.ptr CCLink.setwaitconn, 1) else pure (n, 1)
  | none => pure (n, 1)

def procmsgN2NNOTFOUND (_nl : Ptr) (buf : Frame) : Except Fault (Node × Nat) :=
  let calleeId := idAt buf (2 + idSize)
  match n.cclinkListSearch (idAt buf 2) calleeId with
  | some cc => do
      let (n, _) ← n.clientWbufPush cc.p1 (head Proto.NOTFOUND ++ calleeId.1)
      let n ← n.cclinkListDelete (some cc.ptr)
      pure (n, 1)
  | none => pure (n, 1)

/-- The data of an `N2NMSG` is put into the buffer of the link that was found, or
the link is deleted. -/
def n2nmsgInto (d : Dir) (data : List UInt8) (cc : CCLink) : Except Fault (Node × Nat) :=
  match relayN2nmsg d data cc with
  | none => do
      let n ← n.cclinkListDelete (some cc.ptr)
      pure (n, 1)
  | some cc' => pure (n.modifyLink cc.ptr fun _ => cc', 1)

/-- The second attempt of `procmsg_N2NMSG`: the sender is the callee of the link. -/
def n2nmsgBack (nl : Ptr) (senderId receiverId : Id) (data : List UInt8) :
    Except Fault (Node × Nat) :=
  let notFound := do
    let (n, _) ← n.nodelinkWbufPush (some nl)
      (head Proto.N2NNOTFOUND ++ senderId.1 ++ receiverId.1)
    pure (n, 1)
  match n.cclinkListSearch receiverId senderId with
  | some cc => if cc.state = .n2nClrActive then n.n2nmsgInto .p2p1 data cc else notFound
  | none => notFound

def procmsgN2NMSG (nl : Ptr) (buf : Frame) : Except Fault (Node × Nat) :=
  let len := load16 buf 2
  let senderId := idAt buf 4
  let receiverId := idAt buf (4 + idSize)
  if len < 2 * idSize then pure (n, 0)
  else
    let data := (buf.drop (4 + 2 * idSize)).take (len - 2 * idSize)
    match n.cclinkListSearch senderId receiverId with
    | some cc =>
        if cc.state = .n2nCleActive then n.n2nmsgInto .p1p2 data cc
        else n.n2nmsgBack nl senderId receiverId data
    | none => n.n2nmsgBack nl senderId receiverId data

def procmsgPINGREQNode (nl : Ptr) (_buf : Frame) : Except Fault (Node × Nat) := do
  let (n, mp) ← n.nodelinkWbufPush (some nl) (n.randomMsg Proto.PINGREP)
  pure (n, if mp then 1 else 0)

def procmsgPINGREPNode (nl : Ptr) (_buf : Frame) : Except Fault (Node × Nat) :=
  pure (n.modifyNodelink nl fun nl => { nl with disconnectTicking := false, tmst := n.now }, 1)

/-- `procmsg_MULTILOGIN_node`.  The branch for a DNS name has no `break` and ends
like an unknown type. -/
def procmsgMULTILOGINNode (_nl : Ptr) (buf : Frame) : Except Fault (Node × Nat) :=
  if load16 buf 2 ≤ 8 + Proto.NODELIST_ITEM_IPV4_SIZE then pure (n, 0)
  else if byteAt buf 12 = Proto.NEWNODE_IPV4 ∨ byteAt buf 12 = Proto.NEWNODE_IPV6 then
    match n.clients.find? fun c => c.state = .connected ∧ n.verify c.ptr buf with
    | none => pure (n, 1)
    | some c => do
        let n ← pushToLogins buf none (n.logins c) n
        pure (n, 1)
  else pure (n, 1)

/-! ## Messages on a new connection -/

def procmsgINITREQ (i : Nat) (buf : Frame) : Except Fault (Node × Nat) := do
  let n := n.setSlot i fun nc => { nc with type := .c2n }
  if byteAt buf 2 = Proto.VER_HIGH ∧ byteAt buf 3 = Proto.VER_LOW then
    let (n, c) ← n.clientListAddnew (n.slot i)
    match c with
    | none => pure (n, 0)
    | some c => pure (n.setSlot i fun nc => { nc with iconn := some c, state := .sendingOk }, 1)
  else pure (n.setSlot i fun nc => { nc with state := .sendingReject }, 1)

/-- `cclink_setwaitanontlsshutdown`.  The slot keeps a pointer to the link before
it is known whether there is memory for the buffers; one buffer without the
other is freed twice. -/
def cclinkSetwaitanontlsshutdown (l : CCLink) (i : Nat) : Except Fault Node :=
  let n' := n.setSlot i fun nc =>
    { nc with iconn := some l.ptr, state := .waitAnonTlsShutdown }
  if l.state = .localWaitConnCle then
    pure (n'.modifyLink l.ptr fun l => l.setwaitanontlsshutdown (n.slot i).sck)
  else if n.mem n.tick ∧ n.mem (n.tick + 1) then
    pure (n'.asked.asked.modifyLink l.ptr fun l => l.setwaitanontlsshutdown (n.slot i).sck)
  else if n.mem n.tick ∨ n.mem (n.tick + 1) then .error .freed
  else n'.asked.asked.cclinkListDelete (some l.ptr)

def procmsgCONNID (i : Nat) (buf : Frame) : Except Fault (Node × Nat) := do
  let n := n.setSlot i fun nc => { nc with type := .c2c }
  match n.cclinkListSearch (idAt buf 2) (idAt buf (2 + idSize)) with
  | none => pure (n, 0)
  | some link =>
      match link.awaited with
      | none => pure (n, 0)
      | some c =>
          let c ← n.derefClient c
          if (n.slot i).addr.addr = c.addr.addr then
            let n ← n.cclinkSetwaitanontlsshutdown link i
            pure (n, 1)
          else pure (n, 0)

def procmsgNODECONNREQ (i : Nat) (buf : Frame) : Except Fault (Node × Nat) :=
  let n := n.setSlot i fun nc => { nc with type := .n2n }
  if byteAt buf 2 = Proto.VER_HIGH ∧ byteAt buf 3 = Proto.VER_LOW then
    pure (n.setSlot i fun nc => { nc with state := .sendingOk }, 1)
  else pure (n.setSlot i fun nc => { nc with state := .sendingReject }, 1)

end Node

/-! ## Message tables -/

/-- A handler as `PICA_processmsg` calls it, on a node that may have faulted. -/
def handlerFn (h : Node → Frame → Except Fault (Node × Nat)) :
    Except Fault Node → Frame → Except Fault Node × Nat
  | .error e, _ => (.error e, 0)
  | .ok n, buf =>
      match h n buf with
      | .error e => (.error e, 0)
      | .ok (n, r) => (.ok n, r)

/-- An entry for a message of fixed size. -/
def fixedMsg (msgid sz : Nat) (h : 2 ≤ sz)
    (f : Node → Frame → Except Fault (Node × Nat)) : MsgInfo (Except Fault Node) :=
  ⟨msgid, .fixedSize, sz, handlerFn f, h⟩

/-- An entry for a message with a 16-bit length field. -/
def varMsg (msgid : Nat) (f : Node → Frame → Except Fault (Node × Nat)) :
    MsgInfo (Except Fault Node) :=
  ⟨msgid, .varSize, 2, handlerFn f, .inr rfl⟩

def msginfoComm (ci : Ptr) : List (MsgInfo (Except Fault Node)) :=
  [fixedMsg Proto.CONNREQOUTG 30 (by decide) (·.procmsgCONNREQOUTG ci),
   fixedMsg Proto.CONNALLOW 30 (by decide) (·.procmsgCONNALLOW ci),
   fixedMsg Proto.CONNDENY 30 (by decide) (·.procmsgCONNDENY ci),
   fixedMsg Proto.CLNODELISTREQ 4 (by decide) (·.procmsgNODELISTREQClient ci),
   fixedMsg Proto.PINGREQ 4 (by decide) (·.procmsgPINGREQClient ci),
   fixedMsg Proto.PINGREP 4 (by decide) (·.procmsgPINGREPClient ci),
   varMsg Proto.MULTILOGIN (·.procmsgMULTILOGINClient ci)]

def msginfoMulti (ci : Ptr) : List (MsgInfo (Except Fault Node)) :=
  [fixedMsg Proto.CONNREQOUTG 30 (by decide) (·.procmsgDummyMultiC2n ci),
   fixedMsg Proto.CONNALLOW 30 (by decide) (·.procmsgDummyMultiC2n ci),
   fixedMsg Proto.CONNDENY 30 (by decide) (·.procmsgDummyMultiC2n ci),
   fixedMsg Proto.CLNODELISTREQ 4 (by decide) (·.procmsgNODELISTREQClient ci),
   fixedMsg Proto.PINGREQ 4 (by decide) (·.procmsgPINGREQClient ci),
   fixedMsg Proto.PINGREP 4 (by decide) (·.procmsgPINGREPClient ci),
   varMsg Proto.MULTILOGIN (·.procmsgMULTILOGINClient ci)]

def msginfoNode (nl : Ptr) : List (MsgInfo (Except Fault Node)) :=
  [fixedMsg Proto.INITRESPOK 4 (by decide) (·.procmsgNODERESP nl),
   fixedMsg Proto.VERDIFFER 4 (by decide) (·.procmsgNODERESP nl),
   fixedMsg Proto.NEWNODE_IPV4 8 (by decide) (·.procmsgNEWNODE nl),
   fixedMsg Proto.NODELISTREQ 4 (by decide) (·.procmsgNODELISTREQ nl),
   varMsg Proto.NODELIST (·.procmsgNODELIST nl),
   fixedMsg Proto.SEARCH 30 (by decide) (·.procmsgSEARCH nl),
   fixedMsg Proto.N2NFOUND 30 (by decide) (·.procmsgN2NFOUND nl),
   varMsg Proto.N2NFOUNDCACHE (·.procmsgN2NFOUND nl),
   fixedMsg Proto.N2NCONNREQOUTG 58 (by decide) (·.procmsgN2NCONNREQOUTG nl),
   fixedMsg Proto.N2NALLOW 58 (by decide) (·.procmsgN2NALLOW nl),
   fixedMsg Proto.N2NNOTFOUND 58 (by decide) (·.procmsgN2NNOTFOUND nl),
   varMsg Proto.N2NMSG (·.procmsgN2NMSG nl),
   fixedMsg Proto.PINGREQ 4 (by decide) (·.procmsgPINGREQNode nl),
   fixedMsg Proto.PINGREP 4 (by decide) (·.procmsgPINGREPNode nl),
   varMsg Proto.MULTILOGIN (·.procmsgMULTILOGINNode nl)]

def msginfoNewconn (i : Nat) : List (MsgInfo (Except Fault Node)) :=
  [fixedMsg Proto.INITREQ 4 (by decide) (·.procmsgINITREQ i),
   fixedMsg Proto.CONNID 58 (by decide) (·.procmsgCONNID i),
   fixedMsg Proto.NODECONNREQ 4 (by decide) (·.procmsgNODECONNREQ i)]

end PicaPica
