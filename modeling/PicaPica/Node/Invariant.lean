import PicaPica.Node.Effects

/-!
# The invariant of the node

`Core` relates the tables of the node in every state it can reach: records have
addresses of their own, the ends of a link are clients and nodes that are in their
lists and match the kind of the link, and what a slot of a new connection refers to
is still waiting for it.

A slot may refer to a record that has been deleted; nothing is said about such a
slot, because the node faults when it uses it.
-/

namespace PicaPica

open Table Machine

/-- Which fields of a link are `NULL`. -/
structure CCLink.Shape (l : CCLink) : Prop where
  p1 : l.p1 = none ↔ l.state.kind = .n2ncle
  p2 : l.p2 = none ↔ l.state.kind = .n2nclr
  callerNode : l.callerNode = none ↔ l.state.kind ≠ .n2ncle
  calleeNode : l.calleeNode = none ↔ l.state.kind ≠ .n2nclr ∨ l.state = .n2nClrWaitSearch

/-- What the fields of a link point to. -/
structure Node.Ends (n : Node) (l : CCLink) : Prop where
  p1 : ∀ p, l.p1 = some p → n.Primary p l.callerId
  p2 : ∀ p, l.p2 = some p → n.Primary p l.calleeId
  callerNode : ∀ m, l.callerNode = some m → n.Linked m
  calleeNode : ∀ m, l.calleeNode = some m → n.Linked m

/-- A slot that is free or whose request is not known refers to nothing; else it
refers to a client or a link that waits for the end of the anonymous session. -/
structure Node.SlotOk (n : Node) (nc : NewConn) : Prop where
  idle : nc.sck = -1 ∨ nc.state.early → nc.iconn = none
  old : ∀ p, nc.iconn = some p → p < n.next
  client : ∀ p, nc.iconn = some p → ∀ c ∈ n.clients, c.ptr = p → c.state = .waitAnonTlsShutdown
  link : ∀ p, nc.iconn = some p → ∀ l ∈ n.cclinks, l.ptr = p → l.state.anon

/-- The client has not shown its certificate yet. -/
def ClState.early : ClState → Bool
  | .waitAnonTlsShutdown => true
  | .tlsNegotiation => true
  | _ => false

structure Core (n : Node) : Prop where
  clientsDistinct : Distinct Client.ptr n.clients
  linksDistinct : Distinct CCLink.ptr n.cclinks
  nodelinksDistinct : Distinct NodeLink.ptr n.nodelinks
  clientsOld : ∀ c ∈ n.clients, c.ptr < n.next
  linksOld : ∀ l ∈ n.cclinks, l.ptr < n.next
  nodelinksOld : ∀ m ∈ n.nodelinks, m.ptr < n.next
  apart : ∀ c ∈ n.clients, ∀ l ∈ n.cclinks, c.ptr ≠ l.ptr
  unnamed : ∀ c ∈ n.clients, c.id = .ofByte 0 ↔ c.state.early
  shape : ∀ l ∈ n.cclinks, l.Shape
  ends : ∀ l ∈ n.cclinks, n.Ends l
  slots : ∀ i, n.SlotOk (n.slot i)
  held : ∀ i j p, (n.slot i).iconn = some p → (n.slot j).iconn = some p → i = j

/-! ## Changes that the invariant does not see -/

/-- Fields of a client that the invariant reads. -/
def Client.core (c : Client) : Ptr × Id × ClState :=
  (c.ptr, c.id, c.state)

/-- Fields of a slot that the invariant reads. -/
def NewConn.core (nc : NewConn) : Bool × Bool × Option Ptr :=
  (nc.sck = -1, nc.state.early, nc.iconn)

/-- The two nodes differ only in what the invariant does not read. -/
structure Alike (n n' : Node) : Prop where
  clients : n'.clients.map Client.core = n.clients.map Client.core
  cclinks : n'.cclinks.map CCLink.core = n.cclinks.map CCLink.core
  nodelinks : n'.nodelinks.map NodeLink.ptr = n.nodelinks.map NodeLink.ptr
  slots : ∀ i, (n'.slot i).core = (n.slot i).core
  next : n'.next = n.next

theorem mem_of_map_eq
    {α β : Type} {g : α → β} {xs ys : List α} {x : α}
    (h : xs.map g = ys.map g) (hx : x ∈ xs) :
    ∃ y ∈ ys, g y = g x := by
  have : g x ∈ ys.map g := h ▸ List.mem_map_of_mem hx
  simpa using this

section Frame

variable {n n' : Node}

theorem Node.Primary.of_core
    {p : Ptr} {id : Id}
    (h : n'.clients.map Client.core = n.clients.map Client.core) (hp : n.Primary p id) :
    n'.Primary p id := by
  obtain ⟨c, hc, rfl, hst, rfl⟩ := hp
  obtain ⟨c', hc', heq⟩ := mem_of_map_eq h.symm hc
  simp only [Client.core, Prod.mk.injEq] at heq
  exact ⟨c', hc', heq.1, heq.2.2.trans hst, heq.2.1⟩

theorem Node.Linked.of_ptrs
    {p : Ptr}
    (h : n'.nodelinks.map NodeLink.ptr = n.nodelinks.map NodeLink.ptr) (hp : n.Linked p) :
    n'.Linked p := by
  obtain ⟨m, hm, rfl⟩ := hp
  obtain ⟨m', hm', heq⟩ := mem_of_map_eq h.symm hm
  exact ⟨m', hm', heq⟩

/-- The ends of a link are read from its core fields, and stay valid where clients
and nodes stay. -/
theorem Node.Ends.of_core
    {l l' : CCLink}
    (h : n.Ends l)
    (hprim : ∀ p id, n.Primary p id → n'.Primary p id)
    (hlinked : ∀ p, n.Linked p → n'.Linked p)
    (heq : l'.core = l.core) :
    n'.Ends l' := by
  simp only [CCLink.core, Prod.mk.injEq] at heq
  obtain ⟨-, -, hp1, hp2, hcaller, hcallee, hnode, hnode'⟩ := heq
  constructor
  · intro p hp
    rw [hcaller]
    exact hprim _ _ (h.p1 p (hp1 ▸ hp))
  · intro p hp
    rw [hcallee]
    exact hprim _ _ (h.p2 p (hp2 ▸ hp))
  · intro m hm
    exact hlinked _ (h.callerNode m (hnode ▸ hm))
  · intro m hm
    exact hlinked _ (h.calleeNode m (hnode' ▸ hm))

/-- The same clients and nodes are there. -/
theorem Node.Ends.same
    {l : CCLink}
    (h : n.Ends l) (hclients : n'.clients = n.clients) (hnodes : n'.nodelinks = n.nodelinks) :
    n'.Ends l := by
  refine h.of_core (fun p id hp => ?_) (fun p hp => ?_) rfl
  · rwa [Node.Primary, hclients]
  · rwa [Node.Linked, hnodes]

theorem CCLink.Shape.of_core
    {l l' : CCLink}
    (heq : l'.core = l.core) (h : l.Shape) :
    l'.Shape := by
  simp only [CCLink.core, Prod.mk.injEq] at heq
  obtain ⟨-, hst, hp1, hp2, -, -, hnode, hnode'⟩ := heq
  constructor
  · rw [hp1, hst]
    exact h.p1
  · rw [hp2, hst]
    exact h.p2
  · rw [hnode, hst]
    exact h.callerNode
  · rw [hnode', hst]
    exact h.calleeNode

theorem distinct_of_map
    {α β : Type} {key : α → Ptr} {g : α → β} {k : β → Ptr} {xs ys : List α}
    (hk : ∀ x, key x = k (g x)) (h : xs.map g = ys.map g) (hd : Distinct key ys) :
    Distinct key xs := by
  have hmap : ∀ zs : List α, zs.map key = (zs.map g).map k := by
    intro zs
    simp [hk]
  rw [Distinct, hmap, h, ← hmap]
  exact hd

theorem Core.alike (hcore : Core n) (h : Alike n n') : Core n' := by
  have hprim : ∀ p id, n.Primary p id → n'.Primary p id := fun p id => .of_core h.clients
  have hlinked : ∀ p, n.Linked p → n'.Linked p := fun p => .of_ptrs h.nodelinks
  constructor
  · exact distinct_of_map (k := Prod.fst) (fun _ => rfl) h.clients hcore.clientsDistinct
  · exact distinct_of_map (k := Prod.fst) (fun _ => rfl) h.cclinks hcore.linksDistinct
  · rw [Distinct, h.nodelinks]
    exact hcore.nodelinksDistinct
  · intro c hc
    obtain ⟨d, hd, heq⟩ := mem_of_map_eq h.clients hc
    simp only [Client.core, Prod.mk.injEq] at heq
    rw [h.next, ← heq.1]
    exact hcore.clientsOld d hd
  · intro l hl
    obtain ⟨d, hd, heq⟩ := mem_of_map_eq h.cclinks hl
    simp only [CCLink.core, Prod.mk.injEq] at heq
    rw [h.next, ← heq.1]
    exact hcore.linksOld d hd
  · intro m hm
    obtain ⟨d, hd, heq⟩ := mem_of_map_eq h.nodelinks hm
    rw [h.next, ← heq]
    exact hcore.nodelinksOld d hd
  · intro c hc l hl
    obtain ⟨c', hc', heq⟩ := mem_of_map_eq h.clients hc
    obtain ⟨l', hl', heq'⟩ := mem_of_map_eq h.cclinks hl
    simp only [Client.core, CCLink.core, Prod.mk.injEq] at heq heq'
    rw [← heq.1, ← heq'.1]
    exact hcore.apart c' hc' l' hl'
  · intro c hc
    obtain ⟨d, hd, heq⟩ := mem_of_map_eq h.clients hc
    simp only [Client.core, Prod.mk.injEq] at heq
    rw [← heq.2.1, ← heq.2.2]
    exact hcore.unnamed d hd
  · intro l hl
    obtain ⟨d, hd, heq⟩ := mem_of_map_eq h.cclinks hl
    exact (hcore.shape d hd).of_core heq.symm
  · intro l hl
    obtain ⟨d, hd, heq⟩ := mem_of_map_eq h.cclinks hl
    exact (hcore.ends d hd).of_core hprim hlinked heq.symm
  · intro i
    have hslot := h.slots i
    simp only [NewConn.core, Prod.mk.injEq, decide_eq_decide] at hslot
    obtain ⟨hsck, hst, hic⟩ := hslot
    have hok := hcore.slots i
    constructor
    · rw [hsck, hst, hic]
      exact hok.idle
    · rw [hic, h.next]
      exact hok.old
    · rw [hic]
      intro p hp c hc hcp
      obtain ⟨d, hd, heq⟩ := mem_of_map_eq h.clients hc
      simp only [Client.core, Prod.mk.injEq] at heq
      rw [← heq.2.2]
      exact hok.client p hp d hd (heq.1.trans hcp)
    · rw [hic]
      intro p hp l hl hlp
      obtain ⟨d, hd, heq⟩ := mem_of_map_eq h.cclinks hl
      simp only [CCLink.core, Prod.mk.injEq] at heq
      rw [← heq.2.1]
      exact hok.link p hp d hd (heq.1.trans hlp)
  · intro i j p hi hj
    have hi' := h.slots i
    have hj' := h.slots j
    simp only [NewConn.core, Prod.mk.injEq] at hi' hj'
    exact hcore.held i j p (hi'.2.2 ▸ hi) (hj'.2.2 ▸ hj)

end Frame

/-! ## Changes of one table -/

section Tables

variable {n : Node}

/-- A slot gets other contents. -/
theorem Core.setSlot
    {i : Nat} {g : NewConn → NewConn}
    (h : Core n) (hok : n.SlotOk (g (n.slot i)))
    (hheld : ∀ j p, (g (n.slot i)).iconn = some p → (n.slot j).iconn = some p → j = i) :
    Core (n.setSlot i g) := by
  refine { h with ends := ?_, slots := ?_, held := ?_ }
  · exact fun l hl => (h.ends l hl).same rfl rfl
  · intro j
    rw [slot_setSlot]
    split_ifs
    · exact ⟨hok.idle, hok.old, hok.client, hok.link⟩
    · exact ⟨(h.slots j).idle, (h.slots j).old, (h.slots j).client, (h.slots j).link⟩
  · intro j k p hj hk
    rw [slot_setSlot] at hj hk
    split_ifs at hj hk with hji hki hki
    · rw [hji.1, hki.1]
    · rw [hheld k p hj hk]
      exact hji.1
    · rw [hheld j p hk hj]
      exact hki.1.symm
    · exact h.held j k p hj hk

/-- A slot that refers to nothing is always right. -/
theorem Core.setSlot_none
    {i : Nat} {g : NewConn → NewConn}
    (h : Core n) (hg : (g (n.slot i)).iconn = none) :
    Core (n.setSlot i g) := by
  refine h.setSlot ⟨fun _ => hg, ?_, ?_, ?_⟩ ?_
  · intro p hp
    simp [hg] at hp
  · intro p hp
    simp [hg] at hp
  · intro p hp
    simp [hg] at hp
  · intro j p hp
    simp [hg] at hp

/-- Links are deleted. -/
theorem Core.filterLinks
    {q : CCLink → Bool}
    (h : Core n) :
    Core { n with cclinks := n.cclinks.filter q } := by
  have hsub : ∀ l ∈ n.cclinks.filter q, l ∈ n.cclinks := fun l hl => (List.mem_filter.mp hl).1
  refine { h with linksDistinct := ?_, linksOld := ?_, apart := ?_, shape := ?_, ends := ?_, slots := ?_ }
  · exact List.Nodup.sublist (List.filter_sublist.map CCLink.ptr) h.linksDistinct
  · exact fun l hl => h.linksOld l (hsub l hl)
  · exact fun c hc l hl => h.apart c hc l (hsub l hl)
  · exact fun l hl => h.shape l (hsub l hl)
  · exact fun l hl => (h.ends l (hsub l hl)).same rfl rfl
  · intro i
    exact ⟨(h.slots i).idle, (h.slots i).old, (h.slots i).client,
      fun p hp l hl => (h.slots i).link p hp l (hsub l hl)⟩

theorem Core.dropLink {l : CCLink} (h : Core n) : Core (n.dropLink l) :=
  h.filterLinks

/-- One link changes; a link some slot refers to must still wait for it. -/
theorem Core.modifyLink
    {p : Ptr} {g : CCLink → CCLink}
    (h : Core n)
    (hg : ∀ l ∈ n.cclinks, l.ptr = p → (g l).ptr = l.ptr ∧ (g l).Shape ∧ n.Ends (g l) ∧
      ∀ i, (n.slot i).iconn = some p → (g l).state.anon) :
    Core (n.modifyLink p g) := by
  have hmem : ∀ l' ∈ (n.modifyLink p g).cclinks, ∃ l ∈ n.cclinks, l'.ptr = l.ptr ∧
      l'.Shape ∧ n.Ends l' ∧ ∀ i, (n.slot i).iconn = some l'.ptr → l'.state.anon := by
    intro l' hl'
    obtain ⟨l, hl, rfl⟩ := mem_modify.mp hl'
    refine ⟨l, hl, ?_⟩
    split_ifs with hp
    · obtain ⟨hptr, hshape, hends, hanon⟩ := hg l hl hp
      refine ⟨hptr, hshape, hends, fun i hi => hanon i ?_⟩
      rw [hi, hptr, hp]
    · exact ⟨rfl, h.shape l hl, h.ends l hl, fun i hi => (h.slots i).link _ hi l hl rfl⟩
  refine { h with linksDistinct := ?_, linksOld := ?_, apart := ?_, shape := ?_, ends := ?_, slots := ?_ }
  · exact h.linksDistinct.modify fun l hl hp => (hg l hl hp).1
  · intro l' hl'
    obtain ⟨l, hl, hptr, -⟩ := hmem l' hl'
    rw [hptr]
    exact h.linksOld l hl
  · intro c hc l' hl'
    obtain ⟨l, hl, hptr, -⟩ := hmem l' hl'
    rw [hptr]
    exact h.apart c hc l hl
  · intro l' hl'
    obtain ⟨l, hl, -, hshape, -⟩ := hmem l' hl'
    exact hshape
  · intro l' hl'
    obtain ⟨l, hl, -, -, hends, -⟩ := hmem l' hl'
    exact hends.same rfl rfl
  · intro i
    refine ⟨(h.slots i).idle, (h.slots i).old, (h.slots i).client, ?_⟩
    intro q hq l' hl' hptr
    obtain ⟨l, hl, -, -, -, hanon⟩ := hmem l' hl'
    exact hanon i (hptr ▸ hq)

/-- A link is added under a new address. -/
theorem Core.addLink
    {l : CCLink}
    (h : Core n) (hptr : l.ptr = n.next) (hshape : l.Shape) (hends : n.Ends l) :
    Core (n.cclinkListAdd l) := by
  have hmem : ∀ l' ∈ (n.cclinkListAdd l).cclinks, l' ∈ n.cclinks ∨ l' = l := by
    intro l' hl'
    simpa [Node.cclinkListAdd] using hl'
  refine { h with
    linksDistinct := ?_, clientsOld := ?_, linksOld := ?_, nodelinksOld := ?_, apart := ?_,
    shape := ?_, ends := ?_, slots := ?_ }
  · refine h.linksDistinct.concat ?_
    intro l' hl'
    rw [hptr]
    exact Nat.ne_of_lt (h.linksOld l' hl')
  · exact fun c hc => Nat.lt_succ_of_lt (h.clientsOld c hc)
  · intro l' hl'
    rcases hmem l' hl' with hl' | rfl
    · exact Nat.lt_succ_of_lt (h.linksOld l' hl')
    · rw [hptr]
      exact Nat.lt_succ_self _
  · exact fun m hm => Nat.lt_succ_of_lt (h.nodelinksOld m hm)
  · intro c hc l' hl'
    rcases hmem l' hl' with hl' | rfl
    · exact h.apart c hc l' hl'
    · rw [hptr]
      exact Nat.ne_of_lt (h.clientsOld c hc)
  · intro l' hl'
    rcases hmem l' hl' with hl' | rfl
    · exact h.shape l' hl'
    · exact hshape
  · intro l' hl'
    rcases hmem l' hl' with hl' | rfl
    · exact (h.ends l' hl').same rfl rfl
    · exact hends.same rfl rfl
  · intro i
    refine ⟨(h.slots i).idle, ?_, (h.slots i).client, ?_⟩
    · exact fun p hp => Nat.lt_succ_of_lt ((h.slots i).old p hp)
    · intro p hp l' hl' hlp
      rcases hmem l' hl' with hl' | rfl
      · exact (h.slots i).link p hp l' hl' hlp
      · have hold := (h.slots i).old p hp
        rw [← hlp, hptr] at hold
        exact absurd hold (Nat.lt_irrefl _)

/-- One client changes.  A client that represents its identifier goes on to. -/
theorem Core.modifyClient
    {p : Ptr} {g : Client → Client}
    (h : Core n)
    (hg : ∀ c ∈ n.clients, c.ptr = p → (g c).ptr = c.ptr ∧
      ((g c).id = .ofByte 0 ↔ (g c).state.early) ∧
      (c.state = .connected → (g c).state = .connected ∧ (g c).id = c.id) ∧
      ∀ i, (n.slot i).iconn = some p → (g c).state = .waitAnonTlsShutdown) :
    Core (n.modifyClient p g) := by
  have hprim : ∀ q id, n.Primary q id → (n.modifyClient p g).Primary q id := by
    rintro q id ⟨c, hc, rfl, hst, rfl⟩
    refine ⟨_, mem_modify.mpr ⟨c, hc, rfl⟩, ?_⟩
    split_ifs with hp
    · obtain ⟨hptr, -, hkeep, -⟩ := hg c hc hp
      exact ⟨hptr, (hkeep hst).1, (hkeep hst).2⟩
    · exact ⟨rfl, hst, rfl⟩
  have hptrs : (n.modifyClient p g).clients.map Client.ptr = n.clients.map Client.ptr :=
    map_modify fun c hc hp => (hg c hc hp).1
  refine { h with
    clientsDistinct := ?_, clientsOld := ?_, apart := ?_, unnamed := ?_, ends := ?_,
    slots := ?_ }
  · rw [Distinct, hptrs]
    exact h.clientsDistinct
  · intro c' hc'
    obtain ⟨c, hc, heq⟩ := mem_of_map_eq hptrs hc'
    rw [← heq]
    exact h.clientsOld c hc
  · intro c' hc' l hl
    obtain ⟨c, hc, heq⟩ := mem_of_map_eq hptrs hc'
    rw [← heq]
    exact h.apart c hc l hl
  · intro c' hc'
    obtain ⟨c, hc, rfl⟩ := mem_modify.mp hc'
    split_ifs with hp
    · exact (hg c hc hp).2.1
    · exact h.unnamed c hc
  · exact fun l hl => (h.ends l hl).of_core hprim (fun _ hm => hm) rfl
  · intro i
    refine ⟨(h.slots i).idle, (h.slots i).old, ?_, (h.slots i).link⟩
    intro q hq c' hc' hcq
    obtain ⟨c, hc, rfl⟩ := mem_modify.mp hc'
    split_ifs at hcq ⊢ with hp
    · have hqp : q = p := by rw [← hcq, (hg c hc hp).1, hp]
      exact (hg c hc hp).2.2.2 i (hqp ▸ hq)
    · exact (h.slots i).client q hq c hc hcq

/-- A client is added that has just connected. -/
theorem Core.addClient
    {c : Client}
    (h : Core n) (hptr : c.ptr = n.next) (hst : c.state = .waitAnonTlsShutdown)
    (hid : c.id = .ofByte 0) :
    Core (n.addClient c) := by
  have hmem : ∀ c' ∈ (n.addClient c).clients, c' ∈ n.clients ∨ c' = c := by
    intro c' hc'
    simpa [Node.addClient] using hc'
  have hprim : ∀ q id, n.Primary q id → (n.addClient c).Primary q id := by
    rintro q id ⟨d, hd, hrest⟩
    exact ⟨d, by simp [Node.addClient, hd], hrest⟩
  refine { h with
    clientsDistinct := ?_, clientsOld := ?_, linksOld := ?_, nodelinksOld := ?_, apart := ?_,
    unnamed := ?_, ends := ?_, slots := ?_ }
  · refine h.clientsDistinct.concat ?_
    intro c' hc'
    rw [hptr]
    exact Nat.ne_of_lt (h.clientsOld c' hc')
  · intro c' hc'
    rcases hmem c' hc' with hc' | rfl
    · exact Nat.lt_succ_of_lt (h.clientsOld c' hc')
    · rw [hptr]
      exact Nat.lt_succ_self _
  · exact fun l hl => Nat.lt_succ_of_lt (h.linksOld l hl)
  · exact fun m hm => Nat.lt_succ_of_lt (h.nodelinksOld m hm)
  · intro c' hc' l hl
    rcases hmem c' hc' with hc' | rfl
    · exact h.apart c' hc' l hl
    · rw [hptr]
      exact (Nat.ne_of_lt (h.linksOld l hl)).symm
  · intro c' hc'
    rcases hmem c' hc' with hc' | rfl
    · exact h.unnamed c' hc'
    · simp [hst, hid, ClState.early]
  · exact fun l hl => (h.ends l hl).of_core hprim (fun _ hm => hm) rfl
  · intro i
    refine ⟨(h.slots i).idle, ?_, ?_, (h.slots i).link⟩
    · exact fun p hp => Nat.lt_succ_of_lt ((h.slots i).old p hp)
    · intro p hp c' hc' hcp
      rcases hmem c' hc' with hc' | rfl
      · exact (h.slots i).client p hp c' hc' hcp
      · exact hst

/-- A node is added under a new address. -/
theorem Core.addNodelink
    {nl : NodeLink}
    (h : Core n) (hptr : nl.ptr = n.next) :
    Core (n.addNodelink nl) := by
  have hlinked : ∀ q, n.Linked q → (n.addNodelink nl).Linked q := by
    rintro q ⟨m, hm, hq⟩
    exact ⟨m, by simp [Node.addNodelink, hm], hq⟩
  refine { h with
    nodelinksDistinct := ?_, clientsOld := ?_, linksOld := ?_, nodelinksOld := ?_, ends := ?_,
    slots := ?_ }
  · refine h.nodelinksDistinct.concat ?_
    intro m hm
    rw [hptr]
    exact Nat.ne_of_lt (h.nodelinksOld m hm)
  · exact fun c hc => Nat.lt_succ_of_lt (h.clientsOld c hc)
  · exact fun l hl => Nat.lt_succ_of_lt (h.linksOld l hl)
  · intro m hm
    have hcases : m ∈ n.nodelinks ∨ m = nl := by simpa [Node.addNodelink] using hm
    rcases hcases with hm | rfl
    · exact Nat.lt_succ_of_lt (h.nodelinksOld m hm)
    · rw [hptr]
      exact Nat.lt_succ_self _
  · exact fun l hl => (h.ends l hl).of_core (fun _ _ hp => hp) hlinked rfl
  · intro i
    exact ⟨(h.slots i).idle, fun p hp => Nat.lt_succ_of_lt ((h.slots i).old p hp),
      (h.slots i).client, (h.slots i).link⟩

/-- A node is deleted, and the links that lead to it. -/
theorem Core.dropNodelink {nl : NodeLink} (h : Core n) : Core (n.dropNodelink nl) := by
  have hfilter : Core (n.cclinkListDeleteByNodelink nl.ptr) := h.filterLinks
  have hlinked : ∀ q, n.Linked q → q ≠ nl.ptr → (n.dropNodelink nl).Linked q := by
    rintro q ⟨m, hm, rfl⟩ hne
    exact ⟨m, mem_remove.mpr ⟨hm, hne⟩, rfl⟩
  refine { hfilter with
    nodelinksDistinct := ?_, nodelinksOld := ?_, ends := ?_, slots := ?_ }
  · exact h.nodelinksDistinct.remove
  · exact fun m hm => h.nodelinksOld m (mem_remove.mp hm).1
  · intro l hl
    have hends := hfilter.ends l hl
    have hkept : ¬(l.callerNode = some nl.ptr ∨ l.calleeNode = some nl.ptr) := by
      simpa using (List.mem_filter.mp hl).2
    push Not at hkept
    refine ⟨hends.p1, hends.p2, fun m hm => ?_, fun m hm => ?_⟩
    · exact hlinked m (hends.callerNode m hm) fun heq => hkept.1 (heq ▸ hm)
    · exact hlinked m (hends.calleeNode m hm) fun heq => hkept.2 (heq ▸ hm)
  · intro i
    exact ⟨(h.slots i).idle, (h.slots i).old, (h.slots i).client, (hfilter.slots i).link⟩

/-- A client and the links that lead to it are taken out of their lists. -/
def Node.withoutClient (n : Node) (p : Ptr) : Node :=
  { n.cclinkListDeleteByClient p with clients := remove Client.ptr p n.clients }

theorem Core.withoutClient {p : Ptr} (h : Core n) : Core (n.withoutClient p) := by
  have hfilter : Core (n.cclinkListDeleteByClient p) := h.filterLinks
  have hsub : ∀ c ∈ (n.withoutClient p).clients, c ∈ n.clients ∧ c.ptr ≠ p :=
    fun c hc => mem_remove.mp hc
  have hprim : ∀ q id, n.Primary q id → q ≠ p → (n.withoutClient p).Primary q id := by
    rintro q id ⟨c, hc, rfl, hrest⟩ hne
    exact ⟨c, mem_remove.mpr ⟨hc, hne⟩, rfl, hrest⟩
  refine { hfilter with
    clientsDistinct := ?_, clientsOld := ?_, apart := ?_, unnamed := ?_, ends := ?_,
    slots := ?_ }
  · exact h.clientsDistinct.remove
  · exact fun c hc => h.clientsOld c (hsub c hc).1
  · exact fun c hc l hl => hfilter.apart c (hsub c hc).1 l hl
  · exact fun c hc => h.unnamed c (hsub c hc).1
  · intro l hl
    have hends := hfilter.ends l hl
    have hkept : ¬(l.p1 = some p ∨ l.p2 = some p) := by
      simpa using (List.mem_filter.mp hl).2
    push Not at hkept
    refine ⟨fun q hq => ?_, fun q hq => ?_, hends.callerNode, hends.calleeNode⟩
    · exact hprim q _ (hends.p1 q hq) fun heq => hkept.1 (heq ▸ hq)
    · exact hprim q _ (hends.p2 q hq) fun heq => hkept.2 (heq ▸ hq)
  · intro i
    exact ⟨(h.slots i).idle, (h.slots i).old,
      fun q hq c hc => (h.slots i).client q hq c (hsub c hc).1, (hfilter.slots i).link⟩

/-- What `client_list_delete` leaves: the client and its links are gone, and the
newest further login takes its place. -/
theorem dropClient_cases
    {c : Client}
    (h : Core n) (hc : c ∈ n.clients) :
    (∃ ms, n.dropClient c = { n.withoutClient c.ptr with multi := ms }) ∨
      ∃ q ms, c.state = .connected ∧ (∀ d ∈ n.clients, d.ptr = q → d.id = c.id) ∧
        n.dropClient c = { (n.withoutClient c.ptr).modifyClient q fun d =>
          { d with state := .connected } with multi := ms } := by
  rw [Node.dropClient, Node.clientTreeForget]
  cases hs : n.clientTreeSearch c.id with
  | none => exact .inl ⟨n.multi, rfl⟩
  | some s =>
      dsimp only
      split_ifs with hself
      · obtain ⟨hsmem, hst, -⟩ := clientTreeSearch_primary hs
        obtain rfl := h.clientsDistinct.eq hsmem hc hself
        cases hm : n.nextMulti s.id with
        | nil => exact .inl ⟨n.multi, rfl⟩
        | cons q qs =>
            refine .inr ⟨q, n.multi.erase q, hst, ?_, ?_⟩
            · rintro d hd rfl
              have hq : d.ptr ∈ n.nextMulti s.id := by simp [hm]
              have hany := (List.mem_filter.mp hq).2
              rw [h.clientsDistinct.lookup hd] at hany
              simp only [Option.any_some, decide_eq_true_eq] at hany
              exact hany.2
            · have hcomm := @remove_modify _ _ Client.ptr _ s.ptr
                (fun d => { d with state := .connected }) n.clients q fun _ => rfl
              simp only [Node.cclinkListDeleteByClient, Node.modifyClient, Node.withoutClient,
                hcomm, hst]
      · exact .inl ⟨n.multi.erase c.ptr, rfl⟩

theorem Core.withMulti {ms : List Ptr} (h : Core n) : Core { n with multi := ms } :=
  h.alike ⟨rfl, rfl, rfl, fun _ => rfl, rfl⟩

theorem Core.logged {call : ClientEvent} (h : Core n) : Core (n.logged call) :=
  h.alike ⟨rfl, rfl, rfl, fun _ => rfl, rfl⟩

theorem Core.dropClient
    {c : Client}
    (h : Core n) (hc : c ∈ n.clients) :
    Core (n.dropClient c) := by
  rcases dropClient_cases h hc with ⟨ms, heq⟩ | ⟨q, ms, hst, hid, heq⟩
  · rw [heq]
    exact h.withoutClient.withMulti
  · rw [heq]
    have hnamed : c.id ≠ .ofByte 0 := by
      intro hzero
      have := (h.unnamed c hc).mp hzero
      simp [hst, ClState.early] at this
    refine (h.withoutClient.modifyClient ?_).withMulti
    intro d hd hdq
    have hdmem := (mem_remove.mp hd).1
    have hdid : d.id = c.id := hid d hdmem hdq
    refine ⟨rfl, ?_, fun _ => ⟨rfl, rfl⟩, ?_⟩
    · simp [hdid, hnamed, ClState.early]
    · intro i hi
      have hwait := (h.slots i).client q hi d hdmem hdq
      have hzero := (h.unnamed d hdmem).mpr (by rw [hwait]; rfl)
      exact absurd (hdid ▸ hzero) hnamed

end Tables

/-! ## Changes of a link -/

section Links

variable {n : Node} {l : CCLink}

theorem shape_setwaitconn (h : l.Shape) : l.setwaitconn.Shape := by
  obtain ⟨h₁, h₂, h₃, h₄⟩ := h
  constructor <;> cases hst : l.state <;> simp_all [CCLink.setwaitconn, CcState.kind]

theorem shape_attachRemotecleNode {nl : Ptr} (h : l.Shape) : (l.attachRemotecleNode nl).Shape := by
  obtain ⟨h₁, h₂, h₃, h₄⟩ := h
  constructor <;> cases hst : l.state <;> simp_all [CCLink.attachRemotecleNode, CcState.kind]

theorem shape_setwaitanontlsshutdown {s : Socket} (h : l.Shape) :
    (l.setwaitanontlsshutdown s).Shape := by
  obtain ⟨h₁, h₂, h₃, h₄⟩ := h
  constructor <;> cases hst : l.state <;>
    simp_all [CCLink.setwaitanontlsshutdown, CCLink.allocbufs, CcState.kind]

theorem shape_activate (h : l.Shape) : l.activate.Shape := by
  obtain ⟨h₁, h₂, h₃, h₄⟩ := h
  constructor <;> cases hst : l.state <;> simp_all [CCLink.activate, CcState.kind]

/-- Everything but the state and the callee's node is as before. -/
structure CCLink.SameEndpoints (l l' : CCLink) : Prop where
  ptr : l'.ptr = l.ptr
  p1 : l'.p1 = l.p1
  p2 : l'.p2 = l.p2
  callerId : l'.callerId = l.callerId
  calleeId : l'.calleeId = l.calleeId
  callerNode : l'.callerNode = l.callerNode

theorem CCLink.SameEndpoints.trans
    {l' l'' : CCLink}
    (h : l.SameEndpoints l') (h' : l'.SameEndpoints l'') :
    l.SameEndpoints l'' :=
  ⟨h'.ptr.trans h.ptr, h'.p1.trans h.p1, h'.p2.trans h.p2, h'.callerId.trans h.callerId,
    h'.calleeId.trans h.calleeId, h'.callerNode.trans h.callerNode⟩

theorem endpoints_setwaitconn : l.SameEndpoints l.setwaitconn := by
  cases hst : l.state <;> constructor <;> simp [CCLink.setwaitconn, hst]

theorem endpoints_attachRemotecleNode {nl : Ptr} :
    l.SameEndpoints (l.attachRemotecleNode nl) := by
  rw [CCLink.attachRemotecleNode]
  split_ifs <;> exact ⟨rfl, rfl, rfl, rfl, rfl, rfl⟩

theorem endpoints_setwaitanontlsshutdown {s : Socket} :
    l.SameEndpoints (l.setwaitanontlsshutdown s) := by
  cases hst : l.state <;> constructor <;>
    simp [CCLink.setwaitanontlsshutdown, CCLink.allocbufs, hst]

theorem endpoints_activate : l.SameEndpoints l.activate := by
  cases hst : l.state <;> constructor <;> simp [CCLink.activate, hst]

theorem endpoints_of_core {l' : CCLink} (h : l'.core = l.core) : l.SameEndpoints l' := by
  simp only [CCLink.core, Prod.mk.injEq] at h
  obtain ⟨hptr, -, hp1, hp2, hcaller, hcallee, hnode, -⟩ := h
  exact ⟨hptr, hp1, hp2, hcaller, hcallee, hnode⟩

theorem Node.Ends.of_endpoints
    {l' : CCLink}
    (h : n.Ends l) (hsame : l.SameEndpoints l')
    (hnode : ∀ m, l'.calleeNode = some m → n.Linked m) :
    n.Ends l' := by
  constructor
  · rw [hsame.p1, hsame.callerId]
    exact h.p1
  · rw [hsame.p2, hsame.calleeId]
    exact h.p2
  · rw [hsame.callerNode]
    exact h.callerNode
  · exact hnode

theorem calleeNode_setwaitconn : l.setwaitconn.calleeNode = l.calleeNode := by
  cases hst : l.state <;> simp [CCLink.setwaitconn, hst]

theorem calleeNode_setwaitanontlsshutdown {s : Socket} :
    (l.setwaitanontlsshutdown s).calleeNode = l.calleeNode := by
  cases hst : l.state <;> simp [CCLink.setwaitanontlsshutdown, CCLink.allocbufs, hst]

theorem calleeNode_activate : l.activate.calleeNode = l.calleeNode := by
  cases hst : l.state <;> simp [CCLink.activate, hst]

/-- A link that awaits a connection does not wait for the end of another one. -/
theorem anon_of_awaited (h : l.awaited ≠ none) : l.state.anon = false := by
  cases hst : l.state <;> simp_all [CCLink.awaited, CcState.anon]

theorem anon_setwaitanontlsshutdown {s : Socket} (h : l.awaited ≠ none) :
    (l.setwaitanontlsshutdown s).state.anon := by
  cases hst : l.state <;> simp_all [CCLink.awaited, CCLink.setwaitanontlsshutdown, CcState.anon]

theorem anon_setwaitconn (h : l.state.anon) : l.setwaitconn.state.anon := by
  cases hst : l.state <;> simp_all [CCLink.setwaitconn, CcState.anon]

theorem anon_attachRemotecleNode {nl : Ptr} (h : l.state.anon) :
    (l.attachRemotecleNode nl).state.anon := by
  cases hst : l.state <;> simp_all [CCLink.attachRemotecleNode, CcState.anon]

end Links

/-! ## All changes -/

section Changes

variable {n₀ n n' : Node} {e : NodeEvent}

/-- The links that begin have the ends their kind asks for. -/
theorem linkStart_ok
    {l : CCLink}
    (h : n.LinkStart l) :
    l.ptr = n.next ∧ l.Shape ∧ n.Ends l := by
  cases h with
  | localLink p q i j hp hq hne hno =>
      refine ⟨rfl, ?_, ?_⟩
      · constructor <;> simp [Node.freshLink, CcState.kind]
      · constructor <;> simp_all [Node.freshLink]
  | callerSide p i j hp hno =>
      refine ⟨rfl, ?_, ?_⟩
      · constructor <;> simp [Node.freshLink, CcState.kind]
      · constructor <;> simp_all [Node.freshLink]
  | calleeSide q nl i j hq hnl =>
      refine ⟨rfl, ?_, ?_⟩
      · constructor <;> simp [Node.freshLink, CcState.kind]
      · constructor <;> simp_all [Node.freshLink]

theorem Core.touchClient
    {p : Ptr} {g : Client → Client}
    (h : Core n) (hg : ∀ c, (g c).core = c.core) :
    Core (n.modifyClient p g) :=
  h.alike ⟨map_modify fun c _ _ => hg c, rfl, rfl, fun _ => rfl, rfl⟩

theorem Core.touchSlot
    {i : Nat} {g : NewConn → NewConn}
    (h : Core n) (hg : (g (n.slot i)).core = (n.slot i).core) :
    Core (n.setSlot i g) := by
  refine h.alike ⟨rfl, rfl, rfl, fun j => ?_, rfl⟩
  rw [slot_setSlot]
  split_ifs with hj
  · rw [hg, hj.1]
  · rfl

/-- A link that keeps its ends changes its state, and still waits if a slot refers
to it. -/
theorem Core.advanceLink
    {p : Ptr} {g : CCLink → CCLink}
    (h : Core n)
    (hsame : ∀ l : CCLink, l.SameEndpoints (g l)) (hshape : ∀ l : CCLink, l.Shape → (g l).Shape)
    (hnode : ∀ l : CCLink, ∀ m, (g l).calleeNode = some m → l.calleeNode = some m ∨ n.Linked m)
    (hanon : ∀ l ∈ n.cclinks, l.ptr = p → ∀ i, (n.slot i).iconn = some p → (g l).state.anon) :
    Core (n.modifyLink p g) := by
  refine h.modifyLink ?_
  intro l hl hp
  refine ⟨(hsame l).ptr, hshape l (h.shape l hl), ?_, hanon l hl hp⟩
  refine (h.ends l hl).of_endpoints (hsame l) ?_
  intro m hm
  rcases hnode l m hm with hold | hnew
  · exact (h.ends l hl).calleeNode m hold
  · exact hnew

theorem Core.setwaitconn {p : Ptr} (h : Core n) : Core (n.modifyLink p CCLink.setwaitconn) := by
  refine h.advanceLink (fun _ => endpoints_setwaitconn) (fun _ => shape_setwaitconn) ?_ ?_
  · intro l m hm
    exact .inl (calleeNode_setwaitconn ▸ hm)
  · rintro l hl rfl i hi
    exact anon_setwaitconn ((h.slots i).link _ hi l hl rfl)

/-- A link that waits for a slot's end is not what another slot refers to. -/
theorem Core.not_held
    {l : CCLink}
    (h : Core n) (hl : l ∈ n.cclinks) (hst : l.state.anon = false) (i : Nat) :
    (n.slot i).iconn ≠ some l.ptr := by
  intro hi
  have := (h.slots i).link _ hi l hl rfl
  simp [hst] at this

theorem Core.bindSlot
    {i : Nat} {l : CCLink}
    (h : Core n) (hl : l ∈ n.cclinks) (haw : l.awaited ≠ none) (hocc : (n.slot i).sck ≠ -1) :
    Core (n.bindSlot i l) := by
  have hfree := h.not_held hl (anon_of_awaited haw)
  have hlink : Core (n.modifyLink l.ptr fun l => l.setwaitanontlsshutdown (n.slot i).sck) := by
    refine h.advanceLink (fun _ => endpoints_setwaitanontlsshutdown)
      (fun _ => shape_setwaitanontlsshutdown) ?_ ?_
    · intro l m hm
      exact .inl (calleeNode_setwaitanontlsshutdown ▸ hm)
    · intro l' hl' hp j hj
      exact absurd hj (hfree j)
  refine hlink.setSlot ⟨?_, ?_, ?_, ?_⟩ ?_
  · rintro (hsck | hst)
    · exact absurd hsck hocc
    · cases hst
  · rintro p hp
    cases hp
    exact h.linksOld l hl
  · rintro p hp c hc hcp
    cases hp
    exact absurd hcp (h.apart c hc l hl)
  · rintro p hp l' hl' hlp
    cases hp
    obtain ⟨l'', hl'', rfl⟩ := mem_modify.mp hl'
    split_ifs at hlp ⊢ with hp
    · obtain rfl := h.linksDistinct.eq hl'' hl hp
      exact anon_setwaitanontlsshutdown haw
    · exact absurd hlp hp
  · rintro j p hp hj
    cases hp
    exact absurd hj (hfree j)

theorem Core.connidLost
    {i : Nat} {l : CCLink} {g : NewConn → NewConn}
    (h : Core n) (hl : l ∈ n.cclinks) (haw : l.awaited ≠ none) (hocc : (n.slot i).sck ≠ -1)
    (hsck : (g (n.slot i)).sck = (n.slot i).sck) (hst : (g (n.slot i)).state.early = false)
    (hic : (g (n.slot i)).iconn = some l.ptr) :
    Core ((n.setSlot i g).dropLink l) := by
  rw [dropLink_setSlot]
  refine h.dropLink.setSlot ⟨?_, ?_, ?_, ?_⟩ ?_
  · rintro (hfree | hearly)
    · exact absurd (hsck.symm.trans hfree) hocc
    · exact absurd (hst.symm.trans hearly) (by decide)
  · intro p hp
    cases hic.symm.trans hp
    exact h.linksOld l hl
  · intro p hp c hc hcp
    cases hic.symm.trans hp
    exact absurd hcp (h.apart c hc l hl)
  · intro p hp l' hl' hlp
    cases hic.symm.trans hp
    exact absurd hlp (mem_remove.mp hl').2
  · intro j p hp hj
    cases hic.symm.trans hp
    exact absurd hj (h.not_held hl (anon_of_awaited haw) j)

theorem Core.initreq
    {i : Nat}
    (h : Core n) (hocc : (n.slot i).sck ≠ -1) :
    Core ((n.addClient (n.newClient i)).setSlot i fun nc =>
      { nc with type := .c2n, iconn := some n.next, state := .sendingOk }) := by
  have hadd : Core (n.addClient (n.newClient i)) := h.addClient rfl rfl rfl
  refine hadd.setSlot ⟨?_, ?_, ?_, ?_⟩ ?_
  · rintro (hsck | hst)
    · exact absurd hsck hocc
    · cases hst
  · rintro p hp
    cases hp
    exact Nat.lt_succ_self _
  · rintro p hp c hc hcp
    cases hp
    have hcases : c ∈ n.clients ∨ c = n.newClient i := by simpa [Node.addClient] using hc
    rcases hcases with hc | rfl
    · exact absurd hcp (Nat.ne_of_lt (h.clientsOld c hc))
    · rfl
  · rintro p hp l hl hlp
    cases hp
    exact absurd hlp (Nat.ne_of_lt (h.linksOld l hl))
  · rintro j p hp hj
    cases hp
    exact absurd ((h.slots j).old _ hj) (Nat.lt_irrefl _)

/-- A slot whose connection has found its use is freed, and what it referred to goes
on. -/
theorem Core.free {i : Nat} (h : Core n) : Core (n.newconnFree i) :=
  h.setSlot_none rfl

theorem free_not_held
    {i : Nat} {p : Ptr}
    (h : Core n) (hi : (n.slot i).iconn = some p) (j : Nat) :
    ((n.newconnFree i).slot j).iconn ≠ some p := by
  intro hj
  rw [Node.newconnFree, slot_setSlot] at hj
  have hocc : (n.slot i).sck ≠ -1 := by
    intro hsck
    simp [(h.slots i).idle (.inl hsck)] at hi
  by_cases hji : j = i
  · rw [if_pos ⟨hji, lt_of_slot hocc⟩] at hj
    cases hj
  · rw [if_neg fun hand => hji hand.1] at hj
    exact hji (h.held j i p hj hi)

theorem Core.clientReady
    {i : Nat} {c : Client}
    (h : Core n) (hi : (n.slot i).iconn = some c.ptr) :
    Core (((n.logged (.negotiate c.ptr)).modifyClient c.ptr fun c =>
      { c with state := .tlsNegotiation }).newconnFree i) := by
  have hmod : Core (((n.logged (.negotiate c.ptr)).newconnFree i).modifyClient c.ptr fun c =>
      { c with state := .tlsNegotiation }) := by
    refine h.logged.free.modifyClient ?_
    intro d hd hdp
    have hwait := (h.slots i).client _ hi d hd hdp
    refine ⟨rfl, ?_, ?_, ?_⟩
    · have := h.unnamed d hd
      simpa [hwait, ClState.early] using this
    · simp [hwait]
    · intro j hj
      exact absurd hj (free_not_held h hi j)
  exact hmod

theorem Core.linkReady
    {i : Nat} {l : CCLink}
    (h : Core n) (hi : (n.slot i).iconn = some l.ptr) :
    Core ((n.modifyLink l.ptr CCLink.activate).newconnFree i) := by
  have hmod : Core ((n.newconnFree i).modifyLink l.ptr CCLink.activate) := by
    refine h.free.advanceLink (fun _ => endpoints_activate) (fun _ => shape_activate) ?_ ?_
    · intro l m hm
      exact .inl (calleeNode_activate ▸ hm)
    · intro l' hl' hp j hj
      exact absurd hj (free_not_held h hi j)
  exact hmod

theorem Core.close
    {i : Nat} {g : NewConn → NewConn}
    (h : Core n)
    (hclose : (n.setSlot i g).newconnClose i = .ok n') :
    Core n' := by
  obtain ⟨k, hk, rfl⟩ := newconnClose_ok hclose
  have closed : ∀ m : Node, Core m → k = m.setSlot i g →
      Core (k.setSlot i fun nc =>
        { nc with sck := -1, buf := [], iconn := none, type := .unknown }) := by
    rintro m hm rfl
    rw [setSlot_setSlot]
    exact hm.setSlot_none rfl
  rcases hk with ⟨-, rfl⟩ | ⟨c, hc, -, -, rfl⟩ | ⟨l, hl, -, -, rfl⟩
  · exact closed n h rfl
  · exact closed _ (h.dropClient hc).logged dropClient_logged_setSlot
  · exact closed _ h.dropLink dropLink_setSlot

/-- **Every change keeps the invariant.** -/
theorem Act.core (h : Core n) (hact : Act n₀ e n n') : Core n' := by
  cases hact with
  | asked => exact h.alike ⟨rfl, rfl, rfl, fun _ => rfl, rfl⟩
  | clock t => exact h.alike ⟨rfl, rfl, rfl, fun _ => rfl, rfl⟩
  | tickClient p t b => exact h.touchClient fun _ => rfl
  | push p f hf hlong => exact h.touchClient fun _ => rfl
  | nodelink p g hg =>
      exact h.alike ⟨rfl, rfl, map_modify fun nl _ _ => (hg nl).1, fun _ => rfl, rfl⟩
  | login c id hc hst hid hno hmiss =>
      refine h.logged.modifyClient ?_
      intro d hd hdp
      obtain rfl := h.clientsDistinct.eq hd hc hdp
      refine ⟨rfl, ?_, ?_, ?_⟩
      · simp [hid, ClState.early]
      · simp [hst]
      · intro i hi
        have := (h.slots i).client _ hi d hd rfl
        simp [hst] at this
  | loginMulti c s id hc hst hid hs =>
      refine Core.withMulti (h.logged.modifyClient ?_)
      intro d hd hdp
      obtain rfl := h.clientsDistinct.eq hd hc hdp
      refine ⟨rfl, ?_, ?_, ?_⟩
      · simp [hid, ClState.early]
      · simp [hst]
      · intro i hi
        have := (h.slots i).client _ hi d hd rfl
        simp [hst] at this
  | deleteClient c call hc hdel hleave => exact (h.dropClient hc).logged
  | addNodelink nl a hptr he hold => exact h.addNodelink hptr
  | deleteNodelink nl hnl hdel => exact h.dropNodelink
  | addLink l hl hask =>
      obtain ⟨hptr, hshape, hends⟩ := linkStart_ok hl
      exact h.addLink hptr hshape hends
  | attach l nl f he hk hlinked hs =>
      refine h.advanceLink (fun _ => endpoints_attachRemotecleNode)
        (fun _ => shape_attachRemotecleNode) ?_ ?_
      · intro l m hm
        rw [CCLink.attachRemotecleNode] at hm
        split_ifs at hm
        · cases hm
          exact .inr hlinked
        · exact .inl hm
      · rintro l' hl' hp i hi
        exact anon_attachRemotecleNode ((h.slots i).link _ hi l' hl' hp)
  | allow l ci id f he hk hp hs hst => exact h.setwaitconn
  | n2nallow l nl f he hk hs hp1 hm => exact h.setwaitconn
  | relay l l' hl hst hcore hidle hby =>
      refine h.alike ⟨rfl, map_modify fun x hx hp => ?_, rfl, fun _ => rfl, rfl⟩
      rw [h.linksDistinct.eq hx hl hp]
      exact hcore
  | deleteLink l hl hdel he => exact h.dropLink
  | takeSlot i he hfree =>
      have hslot : Core (n.setSlot i fun nc =>
          { nc with sck := -1, buf := [], tmst := n.now }) := by
        refine h.touchSlot ?_
        simp [NewConn.core, hfree]
      exact hslot.alike ⟨rfl, rfl, rfl, fun _ => rfl, rfl⟩
  | openSlot i s a he hs hfree hold => exact h.setSlot_none ((h.slots i).idle (.inl hfree))
  | greeted i he hst => exact h.touchSlot (by simp [NewConn.core, hst, NcState.early])
  | fillSlot i b he => exact h.touchSlot rfl
  | answered i he hst => exact h.touchSlot (by simp [NewConn.core, hst, NcState.early])
  | initreq i he hocc hone => exact h.initreq hocc
  | request i t st he hocc hty hone ht =>
      refine h.setSlot ⟨?_, (h.slots i).old, (h.slots i).client, (h.slots i).link⟩ ?_
      · rintro (hsck | hst)
        · exact absurd hsck hocc
        · rcases ht with ⟨-, rfl⟩ | ⟨-, rfl | rfl⟩
          · cases hst
          · cases hst
          · cases hst
      · exact fun j p hp hj => h.held j i p hj hp
  | connid i l f c he hocc hnone hs haw hc haddr hbrings hid hsame =>
      exact h.bindSlot (cclinkListSearch_spec hs).1 (by simp [haw]) hocc
  | connidLost i l he hfail hocc hnone hl haw =>
      exact h.connidLost hl haw hocc rfl rfl rfl
  | close i g n' he hg htype hclose => exact h.close hclose
  | clientReady i c he hi hty hc => exact h.clientReady hi
  | linkReady i l he hi hty hl hwait hdone hlinks hslots => exact h.linkReady hi
  | nodeReady i nl he hty hptr hsck => exact (h.addNodelink hptr).free

end Changes

/-! ## All runs -/

theorem core_init
    {a : SockAddr} {r : Bool} {now : Nat} {mem : Nat → Bool} {rnd : Nat → UInt8}
    {verify : Ptr → Frame → Bool} {reached : List ClientEvent → Ptr → Bool} :
    Core (Node.init a r now mem rnd verify reached) := by
  have hslot : ∀ i, ((Node.init a r now mem rnd verify reached).slot i).iconn = none := by
    intro i
    simp only [Node.slot, Node.init, List.getD_eq_getElem?_getD, List.getElem?_replicate]
    split_ifs <;> rfl
  have hclients : (Node.init a r now mem rnd verify reached).clients = [] := rfl
  have hlinks : (Node.init a r now mem rnd verify reached).cclinks = [] := rfl
  have hnodes : (Node.init a r now mem rnd verify reached).nodelinks = [] := rfl
  generalize Node.init a r now mem rnd verify reached = n at hslot hclients hlinks hnodes
  constructor
  · simp [Distinct, hclients]
  · simp [Distinct, hlinks]
  · simp [Distinct, hnodes]
  · simp [hclients]
  · simp [hlinks]
  · simp [hnodes]
  · simp [hclients]
  · simp [hclients]
  · simp [hlinks]
  · simp [hlinks]
  · intro i
    refine ⟨fun _ => hslot i, ?_, ?_, ?_⟩
    · simp [hslot]
    · simp [hslot]
    · simp [hslot]
  · simp [hslot]

theorem nodeStep_eq_some
    {n n' : Node} {e : NodeEvent} :
    nodeStep n e = some n' ↔ e.enabled n ∧ react n e = .ok n' := by
  rw [nodeStep]
  split_ifs with hen
  · cases react n e with
    | error er => simp [Except.toOption]
    | ok m => simp [Except.toOption, hen]
  · simp [hen]

/-- A step is a sequence of changes. -/
theorem nodeStep_acts
    {n n' : Node} {e : NodeEvent}
    (h : Core n) (hstep : nodeStep n e = some n') :
    Acts n e n n' := by
  obtain ⟨hen, hreact⟩ := nodeStep_eq_some.mp hstep
  exact react_acts h.clientsDistinct h.linksDistinct (fun i hi => (h.slots i).idle (.inr hi))
    hen hreact

theorem nodeStep_core
    {n n' : Node} {e : NodeEvent}
    (h : Core n) (hstep : nodeStep n e = some n') :
    Core n' :=
  changes_invariant (fun _ _ hm hact => hact.core hm) h (nodeStep_acts h hstep)

/-- States the node can get into from its start. -/
def Reachable (n : Node) : Prop :=
  ∃ a r now mem rnd verify reached es,
    run nodeStep (Node.init a r now mem rnd verify reached) es = some n

theorem run_core
    {n n' : Node} {es : List NodeEvent}
    (h : Core n) (hrun : run nodeStep n es = some n') :
    Core n' := by
  have hok : Meets nodeStep (fun _ _ => True) n es := meets_true
  exact run_invariant (fun _ _ _ hn _ hstep => nodeStep_core hn hstep) h hok hrun

theorem Reachable.core {n : Node} (h : Reachable n) : Core n := by
  obtain ⟨a, r, now, mem, rnd, verify, reached, es, hrun⟩ := h
  exact run_core core_init hrun

end PicaPica
