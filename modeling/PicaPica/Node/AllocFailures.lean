import PicaPica.Lib.DoubleChain
import PicaPica.Node.InterNode

/-!
# Lists of the node without memory

`client_list_addnew`, `nodelink_list_addnew` and `cclink_setwaitanontlsshutdown` with the pointers
of the lists and what is given to `free`.  The new record is in the list before its read buffer is
allocated and stays there when it is freed without one; a failure before that leaves the lists as
they were.  A link without buffers leaves its list, but the new connection keeps its address, and
a buffer without the other one is freed twice.

`Represents` relates the pointers to the tables of `State.lean`, where the call that leaves a freed
record in a list has no result.
-/

namespace PicaPica

open Table Machine DoubleChain PointerTree

/-! ## Pointers -/

/-- A record of zeros is put behind the last one, or is the only one. -/
def linkAtEnd (l : Links Ptr) (x : Ptr) : Links Ptr :=
  let next := Function.update l.next x none
  let prev := Function.update l.prev x none
  match l.last with
  | some e => ⟨l.head, some x, Function.update next e (some x), Function.update prev x (some e)⟩
  | none => ⟨some x, some x, next, prev⟩

/-- A record is taken out as `cclink_list_delete` does it. -/
def takeOut (l : Links Ptr) (x : Ptr) : Links Ptr :=
  let l := match l.prev x with
    | some p => { l with next := Function.update l.next p (l.next x) }
    | none => { l with head := l.next x }
  match l.next x with
  | some n => { l with prev := Function.update l.prev n (l.prev x) }
  | none => { l with last := l.prev x }

section Pointers

variable {l : Links Ptr} {x : Ptr} {ps qs : List Ptr}

theorem append_linkAtEnd (h : Linked l ps) : l.append x = some (linkAtEnd l x) := by
  have hhead := Chain.head_eq h.forth
  have hlast := Chain.head_eq h.back
  rw [Links.append, linkAtEnd]
  rcases List.eq_nil_or_concat ps with rfl | ⟨qs, e, rfl⟩
  · rw [hhead, hlast]
    rfl
  · rw [List.concat_eq_append] at hhead hlast
    rw [List.reverse_concat, List.head?_cons] at hlast
    obtain ⟨a, ha⟩ : ∃ a, (qs ++ [e]).head? = some a := by
      cases qs with
      | nil => exact ⟨e, rfl⟩
      | cons a qs => exact ⟨a, rfl⟩
    rw [hhead, ha, hlast]
    rfl

theorem linked_linkAtEnd (h : Linked l ps) (hx : x ∉ ps) : Linked (linkAtEnd l x) (ps ++ [x]) := by
  obtain ⟨l', hl', hlinked⟩ := h.append hx
  rw [append_linkAtEnd h] at hl'
  cases hl'
  exact hlinked

theorem last_linkAtEnd : (linkAtEnd l x).last = some x := by
  rw [linkAtEnd]
  cases l.last <;> rfl

/-- The two halves of the removal do not see each other. -/
theorem takeOut_eq (hnext : l.next x ≠ some x) (hprev : l.prev x ≠ some x) :
    takeOut l x = l.unlink x := by
  rw [Links.unlink_eq hnext, takeOut]
  cases hp : l.prev x with
  | none =>
      dsimp only
      cases hn : l.next x with
      | none =>
          dsimp only
          rw [hp]
          rfl
      | some n =>
          dsimp only
          rw [hp]
          rfl
  | some p =>
      have hne : x ≠ p := by
        rintro rfl
        exact hprev hp
      dsimp only
      rw [Function.update_of_ne hne]
      cases hn : l.next x with
      | none =>
          dsimp only
          rw [hp]
          rfl
      | some n =>
          dsimp only
          rw [hp]
          rfl

theorem linked_takeOut (h : Linked l (ps ++ x :: qs)) : Linked (takeOut l x) (ps ++ qs) := by
  have hsplit := List.nodup_append.mp h.nodup
  have hqs : x ∉ qs := (List.nodup_cons.mp hsplit.2.1).1
  have hps : x ∉ ps := fun hx => hsplit.2.2 x hx x List.mem_cons_self rfl
  have hnext : l.next x = qs.head? := Chain.next_eq h.forth
  have hback := h.back
  have hreverse : (ps ++ x :: qs).reverse = qs.reverse ++ x :: ps.reverse := by
    rw [List.reverse_append, List.reverse_cons, List.append_assoc]
    rfl
  rw [hreverse] at hback
  have hprev : l.prev x = ps.reverse.head? := Chain.next_eq hback
  rw [takeOut_eq]
  · exact h.unlink
  · intro heq
    exact hqs (List.mem_of_mem_head? (hnext.symm.trans heq))
  · intro heq
    exact hps (List.mem_reverse.mp (List.mem_of_mem_head? (hprev.symm.trans heq)))

/-- Every list of distinct records can be linked. -/
theorem exists_linked (h : ps.Nodup) : ∃ l : Links Ptr, Linked l ps := by
  induction ps using List.reverseRecOn with
  | nil => exact ⟨.empty, .empty⟩
  | append_singleton ps x ih =>
      have hsplit := List.nodup_append.mp h
      obtain ⟨l, hl⟩ := ih hsplit.1
      exact ⟨linkAtEnd l x, linked_linkAtEnd hl fun hx =>
        hsplit.2.2 x hx x (List.mem_singleton.mpr rfl) rfl⟩

end Pointers

/-! ## The three functions -/

/-- The lists of the node. -/
structure ListMem where
  clients : Links Ptr
  nodelinks : Links Ptr
  /-- `nodelink_list_count` -/
  nodelinkCount : Nat
  cclinks : Links Ptr
  /-- `cclink_list_count` -/
  cclinkCount : Nat
  /-- what has been given to `free`, the oldest first -/
  freed : List Ptr

/-- There is memory for the record, for `SSL_new` and for the read buffer of a client. -/
structure ClientAlloc where
  record : Bool
  ssl : Bool
  buf : Bool

/-- There is memory for the record and for the read buffer of a node. -/
structure NodelinkAlloc where
  record : Bool
  buf : Bool

/-- A link with the addresses of its identifiers and buffers. -/
structure LinkCell where
  link : CCLink
  callerId : Ptr
  calleeId : Ptr
  bufP1p2 : Option Ptr
  bufP2p1 : Option Ptr

namespace ListMem

variable (m : ListMem)

/-- `free(p)`. -/
def free (ps : List Ptr) : ListMem :=
  { m with freed := m.freed ++ ps }

/-- `client_list_addnew`; `x` is what `calloc` returns, when there is memory. -/
def clientListAddnew (x : Ptr) (o : ClientAlloc) : ListMem × Option Ptr :=
  if o.record = false then (m, none)
  else if o.ssl = false then (m.free [x], none)
  else
    let m := { m with clients := linkAtEnd m.clients x }
    if o.buf = false then (m.free [x], none)
    else (m, some x)

/-- `nodelink_list_addnew`. -/
def nodelinkListAddnew (x : Ptr) (o : NodelinkAlloc) : ListMem × Option Ptr :=
  if o.record = false then (m, none)
  else
    let m := { m with nodelinks := linkAtEnd m.nodelinks x }
    if o.buf = false then (m.free [x], none)
    else ({ m with nodelinkCount := m.nodelinkCount + 1 }, some x)

/-- `cclink_allocbufs`; `a` and `b` are what `malloc` returns. -/
def cclinkAllocbufs (c : LinkCell) (a b : Option Ptr) : ListMem × LinkCell × Bool :=
  let c := { c with bufP1p2 := a, bufP2p1 := b }
  if a = none ∨ b = none then ((m.free a.toList).free b.toList, c, false)
  else (m, { c with link := c.link.allocbufs }, true)

/-- `cclink_list_delete`, without the events and sockets of the link. -/
def cclinkListDelete (c : LinkCell) : ListMem :=
  let m := { m with cclinks := takeOut m.cclinks c.link.ptr }
  let m := if c.link.p1 = none then m.free [c.callerId] else m
  let m := if c.link.p2 = none then m.free [c.calleeId] else m
  let m := ((m.free c.bufP1p2.toList).free c.bufP2p1.toList).free [c.link.ptr]
  { m with cclinkCount := m.cclinkCount - 1 }

/-- The cases of `cclink_setwaitanontlsshutdown` with buffers; `st` is the state that follows. -/
def waitWithBufs (c : LinkCell) (a b : Option Ptr) (st : CcState) : ListMem × Option LinkCell :=
  let r := m.cclinkAllocbufs c a b
  if r.2.2 = false then (r.1.cclinkListDelete r.2.1, none)
  else (r.1, some { r.2.1 with link := { r.2.1.link with state := st } })

/-- `cclink_setwaitanontlsshutdown`: the lists, the link unless it is deleted, and the new
connection. -/
def cclinkSetwaitanontlsshutdown (c : LinkCell) (nc : NewConn) (a b : Option Ptr) :
    (ListMem × Option LinkCell) × NewConn :=
  let nc := { nc with iconn := some c.link.ptr, state := .waitAnonTlsShutdown }
  match c.link.state with
  | .localWaitConnCle =>
      ((m, some { c with link := { c.link with
        sckP2 := nc.sck, state := .localWaitConnCleAnonTlsShutdown } }), nc)
  | .localWaitConnClr =>
      (m.waitWithBufs { c with link := { c.link with sckP1 := nc.sck } } a b
        .localWaitConnClrAnonTlsShutdown, nc)
  | .n2nClrWaitConnClr =>
      (m.waitWithBufs { c with link := { c.link with sckP1 := nc.sck } } a b
        .n2nClrWaitConnClrAnonTlsShutdown, nc)
  | .n2nCleWaitConnCle =>
      (m.waitWithBufs { c with link := { c.link with sckP2 := nc.sck } } a b
        .n2nCleWaitConnCleAnonTlsShutdown, nc)
  | _ => ((m, some c), nc)

end ListMem

/-! ## Memory and tables -/

/-- The lists in memory are the tables of the node. -/
structure ListMem.Represents (m : ListMem) (n : Node) : Prop where
  clients : Linked m.clients (n.clients.map Client.ptr)
  nodelinks : Linked m.nodelinks (n.nodelinks.map NodeLink.ptr)
  nodelinkCount : m.nodelinkCount = n.nodelinks.length
  cclinks : Linked m.cclinks (n.cclinks.map CCLink.ptr)
  cclinkCount : m.cclinkCount = n.cclinks.length

/-- No record of a list has the address `x`. -/
def Node.Unused (n : Node) (x : Ptr) : Prop :=
  x ∉ n.clients.map Client.ptr ∧ x ∉ n.nodelinks.map NodeLink.ptr

section Represents

variable {n : Node} {m : ListMem} {x : Ptr}

/-- The tables of a node can be the lists of a memory. -/
theorem Core.exists_represents (h : Core n) : ∃ m : ListMem, m.Represents n := by
  obtain ⟨cl, hcl⟩ := exists_linked h.clientsDistinct
  obtain ⟨nl, hnl⟩ := exists_linked h.nodelinksDistinct
  obtain ⟨cc, hcc⟩ := exists_linked h.linksDistinct
  exact ⟨⟨cl, nl, n.nodelinks.length, cc, n.cclinks.length, []⟩, hcl, hnl, rfl, hcc, rfl⟩

theorem Core.unused (h : Core n) : n.Unused n.next := by
  refine ⟨fun hx => ?_, fun hx => ?_⟩
  · obtain ⟨c, hc, hp⟩ := List.mem_map.mp hx
    exact absurd hp (Nat.ne_of_lt (h.clientsOld c hc))
  · obtain ⟨nl, hnl, hp⟩ := List.mem_map.mp hx
    exact absurd hp (Nat.ne_of_lt (h.nodelinksOld nl hnl))

end Represents

/-! ## What a failure leaves -/

/-- The state waits for a client whose link gets its buffers then. -/
def CcState.asksBuffers : CcState → Bool
  | .localWaitConnClr => true
  | .n2nClrWaitConnClr => true
  | .n2nCleWaitConnCle => true
  | _ => false

/-- A call of one of the functions, with what the allocator answers. -/
inductive AllocCall
  | client (o : ClientAlloc)
  | nodelink (o : NodelinkAlloc)
  | cclink (c : LinkCell) (nc : NewConn) (a b : Option Ptr)

namespace AllocCall

/-- A call that fails leaves the lists as they were; a link without buffers is removed, its buffers
are freed once, and the new connection does not refer to it. -/
def Kept (n : Node) (m : ListMem) (x : Ptr) : AllocCall → Prop
  | client o => (m.clientListAddnew x o).2 = none →
      (m.clientListAddnew x o).1.clients = m.clients ∧
        (m.clientListAddnew x o).1.nodelinks = m.nodelinks ∧
        (m.clientListAddnew x o).1.nodelinkCount = m.nodelinkCount
  | nodelink o => (m.nodelinkListAddnew x o).2 = none →
      (m.nodelinkListAddnew x o).1.clients = m.clients ∧
        (m.nodelinkListAddnew x o).1.nodelinks = m.nodelinks ∧
        (m.nodelinkListAddnew x o).1.nodelinkCount = m.nodelinkCount
  | cclink c nc a b => c.link.state.asksBuffers → (m.cclinkAllocbufs c a b).2.2 = false →
      Linked (m.cclinkSetwaitanontlsshutdown c nc a b).1.1.cclinks
          ((remove CCLink.ptr c.link.ptr n.cclinks).map CCLink.ptr) ∧
        (∀ p, a = some p ∨ b = some p →
          (m.cclinkSetwaitanontlsshutdown c nc a b).1.1.freed.count p ≤ m.freed.count p + 1) ∧
        (m.cclinkSetwaitanontlsshutdown c nc a b).2.iconn ≠ some c.link.ptr

/-- What is allocated after a record is in its list is there. -/
def Fine : AllocCall → Prop
  | client o => o.record = true → o.ssl = true → o.buf = true
  | nodelink o => o.record = true → o.buf = true
  | cclink c _ a b => c.link.state.asksBuffers → a ≠ none ∧ b ≠ none

end AllocCall

section Calls

variable {n : Node} {m : ListMem} {x : Ptr}

/-- A record that is linked is the last one, which no record before was. -/
theorem linkAtEnd_ne {l : Links Ptr} {ps : List Ptr} (h : Linked l ps) (hx : x ∉ ps) :
    linkAtEnd l x ≠ l := by
  intro heq
  have hlast : l.last = some x := by
    rw [← heq]
    exact last_linkAtEnd
  rw [Chain.head_eq h.back] at hlast
  exact hx (List.mem_reverse.mp (List.mem_of_mem_head? hlast))

theorem client_kept_iff
    {o : ClientAlloc} (hm : m.Represents n) (hx : n.Unused x) :
    (AllocCall.client o).Kept n m x ↔ (AllocCall.client o).Fine := by
  simp only [AllocCall.Kept, AllocCall.Fine, ListMem.clientListAddnew]
  cases hrecord : o.record with
  | false => simp
  | true =>
      cases hssl : o.ssl with
      | false => simp [ListMem.free]
      | true =>
          cases hbuf : o.buf with
          | false => simpa [ListMem.free] using linkAtEnd_ne hm.clients hx.1
          | true => simp

theorem nodelink_kept_iff
    {o : NodelinkAlloc} (hm : m.Represents n) (hx : n.Unused x) :
    (AllocCall.nodelink o).Kept n m x ↔ (AllocCall.nodelink o).Fine := by
  simp only [AllocCall.Kept, AllocCall.Fine, ListMem.nodelinkListAddnew]
  cases hrecord : o.record with
  | false => simp
  | true =>
      cases hbuf : o.buf with
      | false => simpa [ListMem.free] using linkAtEnd_ne hm.nodelinks hx.2
      | true => simp

theorem allocbufs_fails {c : LinkCell} {a b : Option Ptr} :
    (m.cclinkAllocbufs c a b).2.2 = false ↔ a = none ∨ b = none := by
  rw [ListMem.cclinkAllocbufs]
  by_cases h : a = none ∨ b = none
  · simp [h]
  · simp [h]

/-- What `cclink_setwaitanontlsshutdown` makes of a link when there is no memory. -/
theorem setwait_failed
    {c : LinkCell} {nc : NewConn} {a b : Option Ptr}
    (hask : c.link.state.asksBuffers) (hfail : a = none ∨ b = none) :
    (∃ c' : LinkCell, c'.link.ptr = c.link.ptr ∧ c'.bufP1p2 = a ∧ c'.bufP2p1 = b ∧
      (m.cclinkSetwaitanontlsshutdown c nc a b).1 =
        (((m.free a.toList).free b.toList).cclinkListDelete c', none)) ∧
      (m.cclinkSetwaitanontlsshutdown c nc a b).2.iconn = some c.link.ptr := by
  have hcase : ∃ (d : LinkCell) (st : CcState) (nc' : NewConn),
      m.cclinkSetwaitanontlsshutdown c nc a b = (m.waitWithBufs d a b st, nc') ∧
        d.link.ptr = c.link.ptr ∧ nc'.iconn = some c.link.ptr := by
    rw [ListMem.cclinkSetwaitanontlsshutdown]
    cases hst : c.link.state with
    | localWaitConnClr => exact ⟨_, _, _, rfl, rfl, rfl⟩
    | n2nClrWaitConnClr => exact ⟨_, _, _, rfl, rfl, rfl⟩
    | n2nCleWaitConnCle => exact ⟨_, _, _, rfl, rfl, rfl⟩
    | _ =>
        rw [hst] at hask
        cases hask
  obtain ⟨d, st, nc', hrun, hptr, hiconn⟩ := hcase
  have hwait : m.waitWithBufs d a b st = (((m.free a.toList).free b.toList).cclinkListDelete
      { d with bufP1p2 := a, bufP2p1 := b }, none) := by
    simp [ListMem.waitWithBufs, ListMem.cclinkAllocbufs, hfail]
  rw [hrun, hwait]
  exact ⟨⟨{ d with bufP1p2 := a, bufP2p1 := b }, hptr, rfl, rfl, rfl⟩, hiconn⟩

theorem cclinkListDelete_cclinks (c : LinkCell) :
    (m.cclinkListDelete c).cclinks = takeOut m.cclinks c.link.ptr := by
  simp only [ListMem.cclinkListDelete, ListMem.free]
  split_ifs <;> rfl

theorem cclinkListDelete_freed (c : LinkCell) :
    ∃ ids, (m.cclinkListDelete c).freed =
      m.freed ++ ids ++ c.bufP1p2.toList ++ c.bufP2p1.toList ++ [c.link.ptr] := by
  simp only [ListMem.cclinkListDelete, ListMem.free]
  split_ifs
  · exact ⟨[c.callerId] ++ [c.calleeId], by rw [List.append_assoc m.freed]⟩
  · exact ⟨[c.calleeId], rfl⟩
  · exact ⟨[c.callerId], rfl⟩
  · exact ⟨[], by rw [List.append_nil]⟩

/-- A link is taken out of its list. -/
theorem removed_cclinks
    {l : CCLink} (hd : Distinct CCLink.ptr n.cclinks)
    (hm : Linked m.cclinks (n.cclinks.map CCLink.ptr)) (hl : l ∈ n.cclinks) :
    Linked (takeOut m.cclinks l.ptr) ((remove CCLink.ptr l.ptr n.cclinks).map CCLink.ptr) ∧
      (remove CCLink.ptr l.ptr n.cclinks).length = n.cclinks.length - 1 := by
  obtain ⟨before, after, hsplit⟩ := List.append_of_mem hl
  have hnd := hd
  rw [Distinct, hsplit, List.map_append, List.map_cons] at hnd
  have hparts := List.nodup_append.mp hnd
  have hkeep : ∀ xs : List CCLink, l.ptr ∉ xs.map CCLink.ptr → remove CCLink.ptr l.ptr xs = xs := by
    intro xs hno
    refine List.filter_eq_self.mpr fun y hy => ?_
    simp only [decide_eq_true_eq]
    rintro heq
    exact hno (heq ▸ List.mem_map_of_mem hy)
  have hremove : remove CCLink.ptr l.ptr n.cclinks = before ++ after := by
    have hbefore := hkeep before fun hx => hparts.2.2 _ hx _ List.mem_cons_self rfl
    have hafter := hkeep after (List.nodup_cons.mp hparts.2.1).1
    rw [remove] at hbefore hafter ⊢
    rw [hsplit, List.filter_append, List.filter_cons_of_neg (by simp), hbefore, hafter]
  rw [hsplit, List.map_append, List.map_cons] at hm
  refine ⟨?_, ?_⟩
  · rw [hremove, List.map_append]
    exact linked_takeOut hm
  · rw [hremove, hsplit, List.length_append, List.length_append, List.length_cons]
    omega

/-- **A link without memory for its buffers.**  It leaves its list, the new connection keeps its
address, and a buffer that was allocated without the other one is freed twice. -/
theorem link_without_buffers
    {c : LinkCell} {nc : NewConn} {a b : Option Ptr}
    (hd : Distinct CCLink.ptr n.cclinks) (hm : m.Represents n) (hl : c.link ∈ n.cclinks)
    (hask : c.link.state.asksBuffers) (hfail : a = none ∨ b = none) :
    Linked (m.cclinkSetwaitanontlsshutdown c nc a b).1.1.cclinks
        ((remove CCLink.ptr c.link.ptr n.cclinks).map CCLink.ptr) ∧
      (m.cclinkSetwaitanontlsshutdown c nc a b).2.iconn = some c.link.ptr ∧
      ∀ p, a = some p ∨ b = some p →
        m.freed.count p + 2 ≤ (m.cclinkSetwaitanontlsshutdown c nc a b).1.1.freed.count p := by
  obtain ⟨⟨c', hptr, ha, hb, hrun⟩, hiconn⟩ := @setwait_failed m c nc a b hask hfail
  rw [hrun]
  refine ⟨?_, hiconn, ?_⟩
  · rw [cclinkListDelete_cclinks, hptr]
    exact (removed_cclinks hd hm.cclinks hl).1
  · intro p hp
    obtain ⟨ids, hfreed⟩ := @cclinkListDelete_freed ((m.free a.toList).free b.toList) c'
    dsimp only
    rw [hfreed, ha, hb]
    simp only [ListMem.free, List.count_append]
    rcases hp with rfl | rfl
    · simp only [Option.toList_some, List.count_singleton_self]
      omega
    · simp only [Option.toList_some, List.count_singleton_self]
      omega

theorem cclink_kept_iff
    {c : LinkCell} {nc : NewConn} {a b : Option Ptr} :
    (AllocCall.cclink c nc a b).Kept n m x ↔ (AllocCall.cclink c nc a b).Fine := by
  constructor
  · intro hkept hask
    have hboth : ¬(a = none ∨ b = none) := by
      intro hfail
      obtain ⟨-, -, hforgets⟩ := hkept hask (allocbufs_fails.mpr hfail)
      exact hforgets (setwait_failed hask hfail).2
    exact not_or.mp hboth
  · intro hfine hask hfail
    exact absurd (allocbufs_fails.mp hfail) (not_or.mpr (hfine hask))

end Calls

/-! ## The calls of the node -/

/-- What `client_list_addnew` is answered next. -/
def Node.clientAlloc (n : Node) : ClientAlloc :=
  ⟨n.mem n.tick, n.mem (n.tick + 1), n.mem (n.tick + 2)⟩

/-- What `nodelink_list_addnew` is answered next. -/
def Node.nodelinkAlloc (n : Node) : NodelinkAlloc :=
  ⟨n.mem n.tick, n.mem (n.tick + 1)⟩

section Refines

variable {n : Node} {m : ListMem}

/-- **`client_list_addnew` of the tables.**  It has a result when nothing is missing after the
record is linked, and then the lists in memory are the tables that result; otherwise the last
client in memory is a freed record. -/
theorem clientListAddnew_refines {nc : NewConn} (h : Core n) (hm : m.Represents n) :
    ((AllocCall.client n.clientAlloc).Fine ∧ ∃ n' m' r, n.clientListAddnew nc = .ok (n', r) ∧
      m.clientListAddnew n.next n.clientAlloc = (m', r) ∧ m'.Represents n') ∨
    (¬(AllocCall.client n.clientAlloc).Fine ∧ n.clientListAddnew nc = .error .freed ∧
      Linked (m.clientListAddnew n.next n.clientAlloc).1.clients
        (n.clients.map Client.ptr ++ [n.next]) ∧
      n.next ∈ (m.clientListAddnew n.next n.clientAlloc).1.freed) := by
  have hlinked := linked_linkAtEnd hm.clients h.unused.1
  rcases Bool.eq_false_or_eq_true (n.mem n.tick) with hrecord | hrecord
  · rcases Bool.eq_false_or_eq_true (n.mem (n.tick + 1)) with hssl | hssl
    · rcases Bool.eq_false_or_eq_true (n.mem (n.tick + 2)) with hbuf | hbuf
      · refine .inl ⟨fun _ _ => hbuf, _, { m with clients := linkAtEnd m.clients n.next },
          some n.next, (if_pos ⟨hrecord, hssl⟩).trans (if_pos hbuf), ?_, ?_, hm.nodelinks,
          hm.nodelinkCount, hm.cclinks, hm.cclinkCount⟩
        · simp [ListMem.clientListAddnew, Node.clientAlloc, hrecord, hssl, hbuf]
        · rw [List.map_append]
          exact hlinked
      · refine .inr ⟨fun hfine => ?_, ?_, ?_, ?_⟩
        · exact absurd (hfine hrecord hssl) (by simp [Node.clientAlloc, hbuf])
        · exact (if_pos ⟨hrecord, hssl⟩).trans (if_neg (by simp [hbuf]))
        · simpa [ListMem.clientListAddnew, Node.clientAlloc, hrecord, hssl, hbuf, ListMem.free]
            using hlinked
        · simp [ListMem.clientListAddnew, Node.clientAlloc, hrecord, hssl, hbuf, ListMem.free]
    · refine .inl ⟨fun _ hyes => absurd (hssl.symm.trans hyes) nofun, _, m.free [n.next], none,
        if_neg (by simp [hssl]), ?_, ⟨hm.clients, hm.nodelinks, hm.nodelinkCount, hm.cclinks,
          hm.cclinkCount⟩⟩
      simp [ListMem.clientListAddnew, Node.clientAlloc, hrecord, hssl]
  · refine .inl ⟨fun hyes _ => absurd (hrecord.symm.trans hyes) nofun, _, m, none,
      if_neg (by simp [hrecord]), ?_, ⟨hm.clients, hm.nodelinks, hm.nodelinkCount, hm.cclinks,
        hm.cclinkCount⟩⟩
    simp [ListMem.clientListAddnew, Node.clientAlloc, hrecord]

/-- **`nodelink_list_addnew` of the tables.** -/
theorem nodelinkListAddnew_refines
    {sck : Socket} {addr : SockAddr} (h : Core n) (hm : m.Represents n) :
    ((AllocCall.nodelink n.nodelinkAlloc).Fine ∧
      ∃ n' m' r, n.nodelinkListAddnew sck addr = .ok (n', r) ∧
        m.nodelinkListAddnew n.next n.nodelinkAlloc = (m', r) ∧ m'.Represents n') ∨
    (¬(AllocCall.nodelink n.nodelinkAlloc).Fine ∧
      n.nodelinkListAddnew sck addr = .error .freed ∧
      Linked (m.nodelinkListAddnew n.next n.nodelinkAlloc).1.nodelinks
        (n.nodelinks.map NodeLink.ptr ++ [n.next]) ∧
      n.next ∈ (m.nodelinkListAddnew n.next n.nodelinkAlloc).1.freed) := by
  have hlinked := linked_linkAtEnd hm.nodelinks h.unused.2
  rcases Bool.eq_false_or_eq_true (n.mem n.tick) with hrecord | hrecord
  · rcases Bool.eq_false_or_eq_true (n.mem (n.tick + 1)) with hbuf | hbuf
    · refine .inl ⟨fun _ => hbuf, _, { m with
          nodelinks := linkAtEnd m.nodelinks n.next
          nodelinkCount := m.nodelinkCount + 1 }, some n.next,
        (if_pos hrecord).trans (if_pos hbuf), ?_, hm.clients, ?_, ?_, hm.cclinks, hm.cclinkCount⟩
      · simp [ListMem.nodelinkListAddnew, Node.nodelinkAlloc, hrecord, hbuf]
      · rw [List.map_append]
        exact hlinked
      · rw [List.length_append, ← hm.nodelinkCount]
        rfl
    · refine .inr ⟨fun hfine => ?_, ?_, ?_, ?_⟩
      · exact absurd (hfine hrecord) (by simp [Node.nodelinkAlloc, hbuf])
      · exact (if_pos hrecord).trans (if_neg (by simp [hbuf]))
      · simpa [ListMem.nodelinkListAddnew, Node.nodelinkAlloc, hrecord, hbuf, ListMem.free]
          using hlinked
      · simp [ListMem.nodelinkListAddnew, Node.nodelinkAlloc, hrecord, hbuf, ListMem.free]
  · refine .inl ⟨fun hyes => absurd (hrecord.symm.trans hyes) nofun, _, m, none,
      if_neg (by simp [hrecord]), ?_, ⟨hm.clients, hm.nodelinks, hm.nodelinkCount, hm.cclinks,
        hm.cclinkCount⟩⟩
    simp [ListMem.nodelinkListAddnew, Node.nodelinkAlloc, hrecord]

theorem setwait_fine
    {c : LinkCell} {nc : NewConn} {a b : Option Ptr}
    (hfine : c.link.state.asksBuffers → a ≠ none ∧ b ≠ none) :
    (m.cclinkSetwaitanontlsshutdown c nc a b).1.1 = m := by
  have hwait : c.link.state.asksBuffers →
      ∀ (d : LinkCell) (st : CcState), (m.waitWithBufs d a b st).1 = m := by
    intro hask d st
    have hboth := not_or.mpr (hfine hask)
    simp [ListMem.waitWithBufs, ListMem.cclinkAllocbufs, hboth]
  rw [ListMem.cclinkSetwaitanontlsshutdown]
  cases hst : c.link.state with
  | localWaitConnClr => exact hwait (by rw [hst]; rfl) _ _
  | n2nClrWaitConnClr => exact hwait (by rw [hst]; rfl) _ _
  | n2nCleWaitConnCle => exact hwait (by rw [hst]; rfl) _ _
  | _ => rfl

theorem setwait_newconn {c : LinkCell} {nc : NewConn} {a b : Option Ptr} :
    (m.cclinkSetwaitanontlsshutdown c nc a b).2 =
      { nc with iconn := some c.link.ptr, state := .waitAnonTlsShutdown } := by
  rw [ListMem.cclinkSetwaitanontlsshutdown]
  cases c.link.state <;> rfl

/-- A change of a link leaves the lists. -/
theorem ListMem.Represents.modifyLink
    {p : Ptr} {g : CCLink → CCLink} (hm : m.Represents n) (hg : ∀ x, (g x).ptr = x.ptr) :
    m.Represents (n.modifyLink p g) := by
  refine ⟨hm.clients, hm.nodelinks, hm.nodelinkCount, ?_, ?_⟩
  · change Linked m.cclinks ((modify CCLink.ptr p g n.cclinks).map CCLink.ptr)
    rw [map_modify fun x _ _ => hg x]
    exact hm.cclinks
  · change m.cclinkCount = (modify CCLink.ptr p g n.cclinks).length
    rw [Table.modify, List.length_map]
    exact hm.cclinkCount

/-- `cclink_list_delete` takes the link out of its list. -/
theorem ListMem.Represents.cclinkListDelete
    {d : LinkCell} {l : CCLink} (hm : m.Represents n) (hd : Distinct CCLink.ptr n.cclinks)
    (hl : l ∈ n.cclinks) (hptr : d.link.ptr = l.ptr) :
    (m.cclinkListDelete d).Represents (n.dropLink l) := by
  obtain ⟨hlinked, hlength⟩ := removed_cclinks hd hm.cclinks hl
  have hlists : (m.cclinkListDelete d).clients = m.clients ∧
      (m.cclinkListDelete d).nodelinks = m.nodelinks ∧
      (m.cclinkListDelete d).nodelinkCount = m.nodelinkCount ∧
      (m.cclinkListDelete d).cclinkCount = m.cclinkCount - 1 := by
    simp only [ListMem.cclinkListDelete, ListMem.free]
    split_ifs <;> exact ⟨rfl, rfl, rfl, rfl⟩
  obtain ⟨hclients, hnodelinks, hcount, hcccount⟩ := hlists
  refine ⟨?_, ?_, ?_, ?_, ?_⟩
  · rw [hclients]
    exact hm.clients
  · rw [hnodelinks]
    exact hm.nodelinks
  · rw [hcount]
    exact hm.nodelinkCount
  · rw [cclinkListDelete_cclinks, hptr]
    exact hlinked
  · rw [hcccount, hm.cclinkCount]
    exact hlength.symm

/-- **`cclink_setwaitanontlsshutdown` of the tables.**  When it has a result, the lists in memory
and the new connection are those that result. -/
theorem cclinkSetwaitanontlsshutdown_refines
    {c : LinkCell} {i : Nat} {a b : Option Ptr} {n' : Node}
    (h : Core n) (hm : m.Represents n) (hocc : (n.slot i).sck ≠ -1)
    (hst : c.link.state = .localWaitConnCle ∨ c.link.state.asksBuffers)
    (ha : a.isSome = n.mem n.tick) (hb : b.isSome = n.mem (n.tick + 1))
    (hrun : n.cclinkSetwaitanontlsshutdown c.link i = .ok n') :
    (m.cclinkSetwaitanontlsshutdown c (n.slot i) a b).1.1.Represents n' ∧
      (m.cclinkSetwaitanontlsshutdown c (n.slot i) a b).2 = n'.slot i := by
  have hmodified := hm.modifyLink (p := c.link.ptr)
    (g := fun l => l.setwaitanontlsshutdown (n.slot i).sck)
    fun x => (endpoints_setwaitanontlsshutdown).ptr
  have hslot : (n.setSlot i fun nc =>
      { nc with iconn := some c.link.ptr, state := .waitAnonTlsShutdown }).slot i =
        { n.slot i with iconn := some c.link.ptr, state := .waitAnonTlsShutdown } :=
    slot_setSlot_self hocc
  rw [setwait_newconn]
  rw [Node.cclinkSetwaitanontlsshutdown] at hrun
  by_cases hcle : c.link.state = .localWaitConnCle
  · rw [if_pos hcle] at hrun
    cases hrun
    rw [setwait_fine (by simp [hcle, CcState.asksBuffers])]
    exact ⟨⟨hm.clients, hm.nodelinks, hm.nodelinkCount, hmodified.cclinks, hmodified.cclinkCount⟩,
      hslot.symm⟩
  rw [if_neg hcle] at hrun
  have hask : c.link.state.asksBuffers := hst.resolve_left hcle
  by_cases hboth : n.mem n.tick ∧ n.mem (n.tick + 1)
  · rw [if_pos hboth] at hrun
    cases hrun
    rw [setwait_fine fun _ => by
      rw [← ha, ← hb] at hboth
      exact ⟨Option.isSome_iff_ne_none.mp hboth.1, Option.isSome_iff_ne_none.mp hboth.2⟩]
    exact ⟨⟨hm.clients, hm.nodelinks, hm.nodelinkCount, hmodified.cclinks, hmodified.cclinkCount⟩,
      hslot.symm⟩
  rw [if_neg hboth] at hrun
  by_cases hone : n.mem n.tick ∨ n.mem (n.tick + 1)
  · rw [if_pos hone] at hrun
    cases hrun
  rw [if_neg hone] at hrun
  obtain ⟨cc, hcc, hptr, rfl⟩ := cclinkListDelete_ok hrun
  have hcell : c.link.ptr = cc.ptr := Option.some.inj hptr
  have hfail : a = none ∨ b = none := by
    refine .inl (Option.not_isSome_iff_eq_none.mp ?_)
    rw [ha]
    exact fun hyes => hone (.inl hyes)
  obtain ⟨⟨c', hptr', -, -, hres⟩, -⟩ := @setwait_failed m c (n.slot i) a b hask hfail
  rw [hres]
  have hfreed : ((m.free a.toList).free b.toList).Represents n :=
    ⟨hm.clients, hm.nodelinks, hm.nodelinkCount, hm.cclinks, hm.cclinkCount⟩
  have hdropped := hfreed.cclinkListDelete (d := c') h.linksDistinct hcc (hptr'.trans hcell)
  exact ⟨⟨hdropped.clients, hdropped.nodelinks, hdropped.nodelinkCount, hdropped.cclinks,
    hdropped.cclinkCount⟩, hslot.symm⟩

end Refines

/-! ## When the lists are kept -/

/-- **When a failed allocation leaves the lists as they were.**  In every state of the node, for
every memory with its tables and every answer of the allocator: just when nothing is missing that
is allocated after a record is in its list. -/
theorem lists_kept_iff (n : Node) (hn : Reachable n) :
    (∃ m : ListMem, m.Represents n) ∧ n.Unused n.next ∧
      ∀ m : ListMem, m.Represents n → ∀ x, n.Unused x → ∀ call : AllocCall,
        call.Kept n m x ↔ call.Fine := by
  refine ⟨hn.core.exists_represents, hn.core.unused, fun m hm x hx call => ?_⟩
  cases call with
  | client o => exact client_kept_iff hm hx
  | nodelink o => exact nodelink_kept_iff hm hx
  | cclink c nc a b => exact cclink_kept_iff

/-- A client is called from another node and allows the call: the link waits for it. -/
def calleeAwaited : List NodeEvent :=
  clientLogin 10 0 1 (.ofByte 1) ++ [.nodewait 20 ⟨0x08080808, 2299⟩,
    .n2nFrame 2 (head Proto.N2NCONNREQOUTG ++ (Id.ofByte 2).1 ++ (Id.ofByte 1).1),
    .c2nFrame 1 (head Proto.CONNALLOW ++ (Id.ofByte 2).1)]

theorem calleeAwaited_reachable : Reachable (stateAfter freshNode calleeAwaited) :=
  stateAfter_reachable (by decide +kernel)

theorem calleeAwaited_link :
    ∃ l ∈ (stateAfter freshNode calleeAwaited).cclinks, l.state = .n2nCleWaitConnCle := by
  decide +kernel

/-- Without `SSL_new` the lists are kept, without the read buffer they are not. -/
theorem lists_kept_two :
    ∃ m : ListMem, m.Represents (stateAfter freshNode calleeAwaited) ∧
      (AllocCall.client ⟨true, false, true⟩).Kept (stateAfter freshNode calleeAwaited) m
        (stateAfter freshNode calleeAwaited).next ∧
      ¬(AllocCall.nodelink ⟨true, false⟩).Kept (stateAfter freshNode calleeAwaited) m
        (stateAfter freshNode calleeAwaited).next := by
  obtain ⟨⟨m, hm⟩, hunused, hiff⟩ := lists_kept_iff _ calleeAwaited_reachable
  refine ⟨m, hm, (hiff m hm _ hunused _).mpr nofun, fun hkept => ?_⟩
  exact absurd ((hiff m hm _ hunused _).mp hkept rfl) nofun

/-- The lists of a node without connections. -/
def emptyLists : ListMem :=
  ⟨.empty, .empty, 0, .empty, 0, []⟩

/-- The first client of a node is freed and stays in the list; a link whose second buffer is
missing frees the first one twice, and the new connection refers to it. -/
theorem client_without_buffer_stays :
    Reachable freshNode ∧ emptyLists.Represents freshNode ∧ freshNode.Unused 1 ∧
      (emptyLists.clientListAddnew 1 ⟨true, true, false⟩).2 = none ∧
      (emptyLists.clientListAddnew 1 ⟨true, true, false⟩).1.clients.head = some 1 ∧
      (emptyLists.clientListAddnew 1 ⟨true, true, false⟩).1.freed = [1] ∧
      ¬(AllocCall.client ⟨true, true, false⟩).Kept freshNode emptyLists 1 ∧
      Reachable (stateAfter freshNode calleeAwaited) ∧
      ∃ l ∈ (stateAfter freshNode calleeAwaited).cclinks, ∀ m : ListMem,
        m.Represents (stateAfter freshNode calleeAwaited) → ∀ nc : NewConn,
        (m.cclinkAllocbufs ⟨l, 50, 51, none, none⟩ (some 100) none).2.2 = false ∧
        (m.cclinkSetwaitanontlsshutdown ⟨l, 50, 51, none, none⟩ nc (some 100) none).2.iconn =
          some l.ptr ∧
        m.freed.count 100 + 2 ≤ (m.cclinkSetwaitanontlsshutdown ⟨l, 50, 51, none, none⟩ nc
          (some 100) none).1.1.freed.count 100 := by
  refine ⟨⟨_, _, _, _, _, _, _, [], rfl⟩, ⟨.empty, .empty, rfl, .empty, rfl⟩, ⟨nofun, nofun⟩, rfl,
    rfl, rfl, fun hkept => ?_, calleeAwaited_reachable, ?_⟩
  · have hhead := congrArg Links.head (hkept rfl).1
    cases hhead
  · obtain ⟨l, hl, hst⟩ := calleeAwaited_link
    refine ⟨l, hl, fun m hm nc => ⟨rfl, ?_⟩⟩
    have hask : l.state.asksBuffers := by
      rw [hst]
      rfl
    obtain ⟨-, hiconn, htwice⟩ := @link_without_buffers _ m ⟨l, 50, 51, none, none⟩ nc (some 100)
      none calleeAwaited_reachable.core.linksDistinct hm hl hask (.inr rfl)
    exact ⟨hiconn, htwice 100 (.inl rfl)⟩

end PicaPica
