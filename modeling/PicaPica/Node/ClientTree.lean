import PicaPica.Node.Types
import PicaPica.Lib.PointerTree
import PicaPica.Lib.Run

/-!
# The client tree (`client_tree_*`, `client_list_delete`)

Connected clients hang in a binary search tree ordered by `memcmp` on their
identifiers.  Further logins with the same identifier are linked to the client
in the tree by `next_multi`.

A loop over pointers gets a bound on its number of passes, the number of
clients, and has no result (`none`) when the bound is reached; `none` also
stands for a `NULL` pointer that is dereferenced.  The results below show that
neither happens.

`client_tree_remove` of a client with two children leaves the `up` fields of its
children as they are.  `RemovesOneChild` excludes these calls.
-/

namespace PicaPica

open PointerTree

/-- The fields of `struct client` that the tree uses, and the client list. -/
structure ClientTree where
  /-- `client_tree_root`, and `left`, `right`, `up` of every client -/
  store : Store Ptr
  id : Ptr → Id
  nextMulti : Ptr → Option Ptr
  state : Ptr → ClState
  list : List Ptr

namespace ClientTree

/-- No client. -/
def empty : ClientTree where
  store := ⟨none, fun _ => ⟨none, none, none⟩⟩
  id _ := .ofByte 0
  nextMulti _ := none
  state _ := .waitAnonTlsShutdown
  list := []

variable (t : ClientTree)

def setState (p : Ptr) (s : ClState) : ClientTree :=
  { t with state := Function.update t.state p s }

def setNextMulti (p : Ptr) (v : Option Ptr) : ClientTree :=
  { t with nextMulti := Function.update t.nextMulti p v }

end ClientTree

/-- The loop of `client_tree_add`. -/
def clientTreeAddFrom (t : ClientTree) (ci : Ptr) : Nat → Ptr → Option (ClientTree × Nat)
  | 0, _ => none
  | fuel + 1, i =>
      match memcmp (t.id ci).1 (t.id i).1 with
      | .eq => some (t, 0)
      | .lt =>
          match (t.store.cell i).left with
          | some j => clientTreeAddFrom t ci fuel j
          | none =>
              some ({ t with
                store := (t.store.set (.child .left i) (some ci)).setUp ci (some i) }, 1)
      | .gt =>
          match (t.store.cell i).right with
          | some j => clientTreeAddFrom t ci fuel j
          | none =>
              some ({ t with
                store := (t.store.set (.child .right i) (some ci)).setUp ci (some i) }, 1)

/-- `client_tree_add`. -/
def clientTreeAdd (t : ClientTree) (ci : Ptr) (fuel : Nat) : Option (ClientTree × Nat) :=
  match t.store.root with
  | some i => clientTreeAddFrom t ci fuel i
  | none => some ({ t with store := t.store.set .root (some ci) }, 1)

/-- The loop of `client_tree_search`. -/
def clientTreeSearchFrom (t : ClientTree) (id : Id) : Nat → Option Ptr → Option (Option Ptr)
  | _, none => some none
  | 0, some _ => none
  | fuel + 1, some i =>
      match memcmp id.1 (t.id i).1 with
      | .eq => some (some i)
      | .lt => clientTreeSearchFrom t id fuel (t.store.cell i).left
      | .gt => clientTreeSearchFrom t id fuel (t.store.cell i).right

/-- `client_tree_search`. -/
def clientTreeSearch (t : ClientTree) (id : Id) (fuel : Nat) : Option (Option Ptr) :=
  clientTreeSearchFrom t id fuel t.store.root

/-- `client_attach_multi_secondary`. -/
def clientAttachMultiSecondary (t : ClientTree) (primary secondary : Ptr) : ClientTree :=
  (t.setNextMulti secondary (t.nextMulti primary)).setNextMulti primary (some secondary)

/-- `while(lm->left) lm = lm->left`. -/
def leftmost (st : Store Ptr) : Nat → Ptr → Option Ptr
  | 0, _ => none
  | fuel + 1, lm =>
      match (st.cell lm).left with
      | some l => leftmost st fuel l
      | none => some lm

/-- `client_tree_remove`.  In the case of two children the assignments are made
one after another, each reading the fields as they are then. -/
def clientTreeRemove (t : ClientTree) (ci : Ptr) (fuel : Nat) : Option ClientTree :=
  let st := t.store
  let pLink := st.link ci
  match (st.cell ci).left, (st.cell ci).right with
  | none, none => some { t with store := st.set pLink none }
  | some l, none =>
      some { t with store := (st.setUp l (st.cell ci).up).set pLink (some l) }
  | none, some r =>
      some { t with store := (st.setUp r (st.cell ci).up).set pLink (some r) }
  | some _, some r => do
      let lm ← leftmost st fuel r
      let st ←
        if lm ≠ r then do
          let u ← (st.cell lm).up
          let st := st.set (.child .left u) (st.cell lm).right
          pure (st.set (.child .right lm) (st.cell ci).right)
        else pure st
      let st := st.set (.child .left lm) (st.cell ci).left
      let st := st.setUp lm (st.cell ci).up
      pure { t with store := st.set pLink (some lm) }

/-- `client_tree_replace_multi`, for a client whose `next_multi` is `secondary`. -/
def clientTreeReplaceMulti (t : ClientTree) (primary secondary : Ptr) : ClientTree :=
  let st := t.store.set (t.store.link primary) (some secondary)
  let st := st.setCell secondary (st.cell primary)
  let st := st.adopt (st.cell primary).left (some secondary)
  let st := st.adopt (st.cell primary).right (some secondary)
  { t.setState secondary (t.state primary) with store := st }

/-- The loop of `client_list_delete` over the other logins, from `s` on. -/
def unlinkMulti (t : ClientTree) (ci : Ptr) : Nat → Ptr → Option ClientTree
  | 0, _ => none
  | fuel + 1, s =>
      if t.nextMulti s = some ci then some (t.setNextMulti s (t.nextMulti ci))
      else
        match t.nextMulti s with
        | some s' => unlinkMulti t ci fuel s'
        | none => some t

/-- The part of `client_list_delete` that concerns the list and the tree. -/
def clientListDelete (t : ClientTree) (ci : Ptr) : Option ClientTree := do
  let fuel := t.list.length
  let t := { t with list := t.list.erase ci }
  match ← clientTreeSearch t (t.id ci) fuel with
  | none => pure t
  | some s =>
      if s = ci then
        match t.nextMulti ci with
        | some secondary => pure (clientTreeReplaceMulti t ci secondary)
        | none => clientTreeRemove t ci fuel
      else unlinkMulti t ci fuel s

/-- The end of `process_c2n_write` for a client whose identifier is known.  A
client that is going to be killed for its certificate is put into the tree
first. -/
def c2nLogin (t : ClientTree) (ci : Ptr) (kill : Bool) : Option ClientTree := do
  let fuel := t.list.length
  let primary ← if kill then pure none else clientTreeSearch t (t.id ci) fuel
  match primary with
  | some primary =>
      pure (clientAttachMultiSecondary (t.setState ci .multiloginSecondary) primary ci)
  | none =>
      let r ← clientTreeAdd t ci fuel
      let t := r.1.setState ci .connected
      if r.2 = 0 ∨ kill then clientListDelete t ci else pure t

/-- `process_c2n_write` when `SSL_connect` has succeeded; `cert` is the
identifier of the peer's certificate, if it has one. -/
def c2nConnected (t : ClientTree) (ci : Ptr) (cert : Option Id) : Option ClientTree :=
  let t := { t with id := Function.update t.id ci (cert.getD (t.id ci)) }
  c2nLogin t ci (cert.isNone || memcmp (Id.ofByte 0).1 (t.id ci).1 == .eq)

/-- The part of `client_list_addnew` that concerns the list and the tree; the
memory is cleared by `calloc`. -/
def clientListAddnew (t : ClientTree) (ci : Ptr) : ClientTree where
  store := t.store.setCell ci ⟨none, none, none⟩
  id := Function.update t.id ci (.ofByte 0)
  nextMulti := Function.update t.nextMulti ci none
  state := Function.update t.state ci .waitAnonTlsShutdown
  list := t.list ++ [ci]

/-- What happens to clients. -/
inductive ClientEvent
  | addnew (ci : Ptr)
  | negotiate (ci : Ptr)
  | connected (ci : Ptr) (cert : Option Id)
  | delete (ci : Ptr)

def clientStep (t : ClientTree) : ClientEvent → Option ClientTree
  | .addnew ci => some (clientListAddnew t ci)
  | .negotiate ci => some (t.setState ci .tlsNegotiation)
  | .connected ci cert => c2nConnected t ci cert
  | .delete ci => clientListDelete t ci

/-- When an event can happen: memory is allocated where no client is, and a
client is negotiated, connected or deleted while it exists. -/
def ClientEvent.Enabled (t : ClientTree) : ClientEvent → Prop
  | .addnew ci => ci ∉ t.list
  | .negotiate ci => ci ∈ t.list ∧ t.state ci = .waitAnonTlsShutdown
  | .connected ci _ => ci ∈ t.list ∧ t.state ci = .tlsNegotiation
  | .delete ci => ci ∈ t.list

/-- The event does not remove a client that has two children and no other login
to replace it. -/
def ClientEvent.RemovesOneChild (t : ClientTree) : ClientEvent → Prop
  | .delete ci =>
      t.nextMulti ci ≠ none ∨ (t.store.cell ci).left = none ∨ (t.store.cell ci).right = none
  | _ => True

instance (t : ClientTree) (e : ClientEvent) : Decidable (e.Enabled t) :=
  match e with
  | .addnew ci => inferInstanceAs (Decidable (ci ∉ t.list))
  | .negotiate ci => inferInstanceAs (Decidable (ci ∈ t.list ∧ t.state ci = _))
  | .connected ci _ => inferInstanceAs (Decidable (ci ∈ t.list ∧ t.state ci = _))
  | .delete ci => inferInstanceAs (Decidable (ci ∈ t.list))

instance (t : ClientTree) (e : ClientEvent) : Decidable (e.RemovesOneChild t) :=
  match e with
  | .delete ci => inferInstanceAs (Decidable (t.nextMulti ci ≠ none ∨ _ ∨ _))
  | .addnew _ => .isTrue trivial
  | .negotiate _ => .isTrue trivial
  | .connected _ _ => .isTrue trivial

end PicaPica
