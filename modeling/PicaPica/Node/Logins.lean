import PicaPica.Node.Step

/-!
# Logins with one identifier (`next_multi`)

The first client that logs in with an identifier is in the client tree, and the further
ones are linked to it by `next_multi`.  Here the tree is a map from identifiers to
clients, which `client_tree_search`, `client_tree_add` and `client_tree_remove` read and
change, and `next_multi` is the field of the source.  `node` has the other fields; its
`multi`, which lists what the field links, is not used.

Memory may be given out again once a client is deleted, so that the address of a new
client is any that no client has.  A loop over the field gets a bound on its number of
passes, the number of clients; `Fault.stuck` means that the bound is reached, and a
pointer to a client that is no longer in the list is a `Fault.freed`.
-/

namespace PicaPica

open Table

structure Logins where
  node : Node
  tree : Id → Option Ptr
  nextMulti : Ptr → Option Ptr

namespace Logins

variable (t : Logins)

def modifyClient (p : Ptr) (f : Client → Client) : Logins :=
  { t with node := t.node.modifyClient p f }

def setTree (id : Id) (v : Option Ptr) : Logins :=
  { t with tree := Function.update t.tree id v }

def setNextMulti (p : Ptr) (v : Option Ptr) : Logins :=
  { t with nextMulti := Function.update t.nextMulti p v }

/-- `client_tree_add`. -/
def clientTreeAdd (ci : Ptr) (id : Id) : Logins × Nat :=
  match t.tree id with
  | some _ => (t, 0)
  | none => (t.setTree id (some ci), 1)

/-- `client_attach_multi_secondary`. -/
def clientAttachMultiSecondary (primary secondary : Ptr) : Logins :=
  (t.setNextMulti secondary (t.nextMulti primary)).setNextMulti primary (some secondary)

/-- `client_tree_replace_multi`, for a client whose `next_multi` is `secondary`. -/
def clientTreeReplaceMulti (primary : Client) (secondary : Ptr) : Except Fault Logins := do
  let _ ← t.node.derefClient (some secondary)
  pure ((t.setTree primary.id (some secondary)).modifyClient secondary fun s =>
    { s with state := primary.state })

/-- The loop of `client_list_delete` over the other logins, from `s` on. -/
def unlinkMulti (ci : Ptr) : Nat → Ptr → Except Fault Logins
  | 0, _ => .error .stuck
  | fuel + 1, s => do
      let _ ← t.node.derefClient (some s)
      if t.nextMulti s = some ci then pure (t.setNextMulti s (t.nextMulti ci))
      else
        match t.nextMulti s with
        | some s' => unlinkMulti ci fuel s'
        | none => pure t

/-- The part of `client_list_delete` behind the search in the tree, which has found `s`. -/
def clientTreeForget (ci : Client) (fuel : Nat) : Option Ptr → Except Fault Logins
  | none => pure t
  | some s =>
      if s = ci.ptr then
        match t.nextMulti ci.ptr with
        | some secondary => t.clientTreeReplaceMulti ci secondary
        -- `client_tree_remove`
        | none => pure (t.setTree ci.id none)
      else t.unlinkMulti ci.ptr fuel s

/-- `client_list_delete`. -/
def clientListDelete (ci : Ptr) : Except Fault Logins := do
  let c ← t.node.derefClient (some ci)
  let fuel := t.node.clients.length
  let t := { t with node :=
    { t.node with clients := remove Client.ptr ci t.node.clients } }
  let t ← t.clientTreeForget c fuel (t.tree c.id)
  pure { t with node := t.node.cclinkListDeleteByClient ci }

/-- The end of `process_c2n_write` for a client whose identifier is known. -/
def c2nLogin (ci : Ptr) (id : Id) (kill : Bool) : Except Fault Logins :=
  match if kill then none else t.tree id with
  | some primary =>
      pure ((t.modifyClient ci fun c =>
        { c with state := .multiloginSecondary }).clientAttachMultiSecondary primary ci)
  | none =>
      let r := t.clientTreeAdd ci id
      let t := r.1.modifyClient ci fun c => { c with state := .connected }
      if r.2 = 0 ∨ kill then t.clientListDelete ci else pure t

/-- `process_c2n_write` when `SSL_connect` has succeeded; `cert` is the identifier of the
peer's certificate, if it has one. -/
def c2nConnected (ci : Ptr) (cert : Option Id) : Except Fault Logins := do
  let c ← t.node.derefClient (some ci)
  let id := cert.getD c.id
  let t := t.modifyClient ci fun c => { c with id := id }
  t.c2nLogin ci id (cert.isNone || id = .ofByte 0)

/-- The part of `client_list_addnew` that concerns the list; the memory is cleared by
`calloc`. -/
def clientListAddnew (ci : Ptr) (nc : NewConn) : Logins :=
  { t.setNextMulti ci none with
    node := { t.node with
      clients := t.node.clients ++ [{
        ptr := ci
        id := .ofByte 0
        sckComm := nc.sck
        addr := nc.addr
        state := .waitAnonTlsShutdown
        tmst := t.node.now
        disconnectTicking := false
        pushed := [] }] } }

end Logins

/-! ## `MULTILOGIN` -/

/-- A loop over the logins from `o` on that pushes the message to all of them but `me`. -/
def relayLogins (f : Frame) (me : Option Ptr) :
    Nat → Option Ptr → Logins → Except Fault Logins
  | _, none, t => pure t
  | 0, some _, _ => .error .stuck
  | fuel + 1, some p, t => do
      let _ ← t.node.derefClient (some p)
      if some p = me then relayLogins f me fuel (t.nextMulti p) t
      else do
        let (n, _) ← t.node.clientWbufPush (some p) f
        relayLogins f me fuel (t.nextMulti p) { t with node := n }

namespace Logins

variable (t : Logins)

/-- `procmsg_MULTILOGIN_client`. -/
def procmsgMULTILOGINClient (ci : Ptr) (buf : Frame) : Except Fault (Logins × Nat) := do
  let me ← t.node.derefClient (some ci)
  let t ← relayLogins (head Proto.MULTILOGIN ++ buf.drop 2) (some ci) t.node.clients.length
    (t.tree me.id) t
  let n ← Node.pushToNodes (head Proto.MULTILOGIN ++ (buf.drop 2).take (load16 buf 2 + 2))
    t.node.nodelinks t.node
  pure ({ t with node := n }, 1)

/-- `procmsg_MULTILOGIN_node`; `accepts` tells for which clients `PICA_signverify` returns 1.
The branch for a DNS name has no `break` and ends like an unknown type. -/
def procmsgMULTILOGINNode (accepts : Ptr → Bool) (buf : Frame) : Except Fault (Logins × Nat) :=
  if load16 buf 2 ≤ 8 + Proto.NODELIST_ITEM_IPV4_SIZE then pure (t, 0)
  else if byteAt buf 12 = Proto.NEWNODE_IPV4 ∨ byteAt buf 12 = Proto.NEWNODE_IPV6 then
    match t.node.clients.find? fun c => c.state = .connected ∧ accepts c.ptr with
    | none => pure (t, 1)
    | some c => do
        let t ← relayLogins buf none t.node.clients.length (some c.ptr) t
        pure (t, 1)
  else pure (t, 1)

end Logins

/-! ## Runs -/

/-- What happens to clients and nodes. -/
inductive LoginEvent
  | addnew (ci : Ptr) (nc : NewConn)
  | negotiate (ci : Ptr)
  | connected (ci : Ptr) (cert : Option Id)
  | delete (ci : Ptr)
  | linkNode (nl : NodeLink)
  | unlinkNode (nl : Ptr)
  | multiloginClient (ci : Ptr) (f : Frame)
  | multiloginNode (nl : Ptr) (f : Frame) (accepts : Ptr → Bool)

/-- The two bytes of the message type and the length field fit. -/
def isMultilogin (f : Frame) : Bool :=
  byteAt f 0 = Proto.MULTILOGIN ∧ byteAt f 1 = Proto.MULTILOGIN ∧
    f.length = 4 + load16 f 2

namespace Logins

variable (t : Logins)

def react : LoginEvent → Except Fault Logins
  | .addnew ci nc => pure (t.clientListAddnew ci nc)
  | .negotiate ci => pure (t.modifyClient ci fun c => { c with state := .tlsNegotiation })
  | .connected ci cert => t.c2nConnected ci cert
  | .delete ci => t.clientListDelete ci
  | .linkNode nl =>
      pure { t with node := { t.node with nodelinks := t.node.nodelinks ++ [nl] } }
  | .unlinkNode nl => do
      let n ← t.node.nodelinkListDelete (some nl)
      pure { t with node := n }
  | .multiloginClient ci f => do
      let (t, _) ← t.procmsgMULTILOGINClient ci f
      pure t
  | .multiloginNode nl f accepts => do
      let (t, r) ← t.procmsgMULTILOGINNode accepts f
      if r = 0 then
        let n ← t.node.nodelinkListDelete (some nl)
        pure { t with node := n }
      else pure t

/-- When an event can happen: memory is allocated where no record of the kind is, and the
others are for a record in the list that is in the right state. -/
def enabled : LoginEvent → Bool
  | .addnew ci _ => t.node.clients.all fun c => c.ptr ≠ ci
  | .negotiate ci => t.node.clients.any fun c => c.ptr = ci ∧ c.state = .waitAnonTlsShutdown
  | .connected ci _ => t.node.clients.any fun c => c.ptr = ci ∧ c.state = .tlsNegotiation
  | .delete ci => t.node.clients.any fun c => c.ptr = ci
  | .linkNode nl => t.node.nodelinks.all fun m => m.ptr ≠ nl.ptr
  | .unlinkNode nl => t.node.nodelinks.any fun m => m.ptr = nl
  | .multiloginClient ci f => isMultilogin f ∧ t.node.clients.any fun c =>
      c.ptr = ci ∧ (c.state = .connected ∨ c.state = .multiloginSecondary)
  | .multiloginNode nl f _ => isMultilogin f ∧ t.node.nodelinks.any fun m => m.ptr = nl

/-- A node without any connection. -/
def init (a : SockAddr) (r : Bool) (now : Nat) (mem : Nat → Bool) (rnd : Nat → UInt8)
    (verify : Ptr → Frame → Bool) : Logins where
  node := Node.init a r now mem rnd verify fun _ _ => true
  tree _ := none
  nextMulti _ := none

end Logins

def loginStep (t : Logins) (e : LoginEvent) : Option Logins :=
  if t.enabled e then (t.react e).toOption else none

end PicaPica
