import PicaPica.Node.ClientRecord

/-!
# The owners of sockets

A new connection becomes the connection of a client, of another node, or a socket of a
link, and only one of them (`new_connection_is_one_thing`).  Its socket then has a single
owner: `Node.OwnedBy` lists the clients, the other nodes and the new connections that
are nothing else yet, and a change either leaves the owners as they are, makes a new
one for a descriptor that nobody has, or turns a new connection into a client or a node.

Two requests that arrive together on a new connection are both handled, so that the
condition excludes them.
-/

namespace PicaPica

open Table Machine

/-! ## Owners -/

/-- What a socket can belong to. -/
inductive Owner
  | client (p : Ptr)
  | node (p : Ptr)
  | slot (i : Nat)
deriving DecidableEq

def Node.OwnedBy (n : Node) (s : Socket) : Owner → Prop
  | .client p => ∃ c ∈ n.clients, c.ptr = p ∧ c.sckComm = s
  | .node p => ∃ m ∈ n.nodelinks, m.ptr = p ∧ m.sck = s
  | .slot i => (n.slot i).sck = s ∧ s ≠ -1 ∧ (n.slot i).iconn = none

def Node.SingleOwner (n : Node) : Prop :=
  ∀ s o o', s ≠ -1 → n.OwnedBy s o → n.OwnedBy s o' → o = o'

/-- Nothing in the node has the descriptor. -/
def Node.unowned (n : Node) (s : Socket) : Bool :=
  (n.clients.all fun c => c.sckComm ≠ s) ∧ (n.nodelinks.all fun m => m.sck ≠ s) ∧
    n.newconns.all fun nc => nc.sck ≠ s ∨ nc.iconn ≠ none

section Owners

variable {n n' : Node} {s : Socket}

theorem not_owns_of_unowned (h : n.unowned s) : ¬n.Owns s := by
  simp only [Node.unowned, List.all_eq_true, decide_eq_true_eq] at h
  obtain ⟨hclients, hnodes, hslots⟩ := h
  rintro (⟨c, hc, hs⟩ | ⟨m, hm, hs⟩ | ⟨i, hs, hne, hnone⟩)
  · exact hclients c hc hs
  · exact hnodes m hm hs
  · rcases hslots _ (slot_mem (@lt_of_slot n i (hs ▸ hne))) with hne | hsome
    · exact hne hs
    · exact hsome hnone

theorem Node.OwnedBy.owns {o : Owner} (h : n.OwnedBy s o) : n.Owns s := by
  cases o with
  | client p =>
      obtain ⟨c, hc, -, hs⟩ := h
      exact .inl ⟨c, hc, hs⟩
  | node p =>
      obtain ⟨m, hm, -, hs⟩ := h
      exact .inr (.inl ⟨m, hm, hs⟩)
  | slot i => exact .inr (.inr ⟨i, h⟩)

/-- Every owner was one before, perhaps under another name. -/
theorem Node.SingleOwner.rename
    {σ : Owner → Owner}
    (h : n.SingleOwner) (hσ : Function.Injective σ)
    (hold : ∀ s o, s ≠ -1 → n'.OwnedBy s o → n.OwnedBy s (σ o)) :
    n'.SingleOwner :=
  fun s o o' hs ho ho' => hσ (h s _ _ hs (hold s o hs ho) (hold s o' hs ho'))

/-- What the slot `i` has owned goes to `o₀`. -/
theorem Node.SingleOwner.handOver
    {o₀ : Owner} {i : Nat}
    (h : n.SingleOwner)
    (hslot : ∀ s, s ≠ -1 → ¬n'.OwnedBy s (.slot i))
    (hnew : ∀ s, s ≠ -1 → n'.OwnedBy s o₀ → n.OwnedBy s (.slot i))
    (hold : ∀ s o, o ≠ o₀ → o ≠ .slot i → n'.OwnedBy s o → n.OwnedBy s o) :
    n'.SingleOwner := by
  refine h.rename (Equiv.swap o₀ (Owner.slot i)).injective ?_
  intro s o hs ho
  by_cases heq : o = o₀
  · rw [heq, Equiv.swap_apply_left]
    exact hnew s hs (heq ▸ ho)
  · have hne : o ≠ .slot i := by
      rintro rfl
      exact hslot s hs ho
    rw [Equiv.swap_apply_of_ne_of_ne heq hne]
    exact hold s o heq hne ho

/-- One owner is new, and so is its socket. -/
theorem Node.SingleOwner.add
    {s₀ : Socket} {o₀ : Owner}
    (h : n.SingleOwner) (hfresh : ¬n.Owns s₀)
    (hold : ∀ s o, n'.OwnedBy s o → n.OwnedBy s o ∨ s = s₀ ∧ o = o₀) :
    n'.SingleOwner := by
  intro s o o' hs ho ho'
  rcases hold s o ho with ho | ⟨rfl, rfl⟩
  · rcases hold s o' ho' with ho' | ⟨rfl, rfl⟩
    · exact h s o o' hs ho ho'
    · exact absurd ho.owns hfresh
  · rcases hold s o' ho' with ho' | ⟨-, rfl⟩
    · exact absurd ho'.owns hfresh
    · rfl

end Owners

/-- **Invariant.**  Sockets have one owner, and a client in state
`WAITANONTLSSHUTDOWN` is held by the slot of its connection. -/
structure SocketsOwned (n : Node) : Prop where
  single : n.SingleOwner
  real : ∀ c ∈ n.clients, c.sckComm ≠ -1
  held : ∀ c ∈ n.clients, c.state = .waitAnonTlsShutdown →
    ∃ i, (n.slot i).sck ≠ -1 ∧ (n.slot i).type = .c2n ∧ (n.slot i).iconn = some c.ptr
  node : ∀ i, (n.slot i).sck ≠ -1 → (n.slot i).type = .n2n → (n.slot i).iconn = none

/-! ## Changes -/

section Change

variable {n₀ n n' : Node} {e : NodeEvent} {i : Nat}

/-- Every client was there before the change. -/
def ClientsKept (n₀ : Node) (e : NodeEvent) (n n' : Node) : Prop :=
  ∀ c' ∈ n'.clients, ∃ c ∈ n.clients, ClientKept n₀ e c c'

/-- Every node was linked before the change. -/
def NodesKept (n n' : Node) : Prop :=
  ∀ m' ∈ n'.nodelinks, ∃ m ∈ n.nodelinks, m.ptr = m'.ptr ∧ m.sck = m'.sck

theorem ClientsKept.refl (h : n'.clients = n.clients) : ClientsKept n₀ e n n' :=
  fun c hc => ⟨c, h ▸ hc, .refl⟩

theorem NodesKept.refl (h : n'.nodelinks = n.nodelinks) : NodesKept n n' :=
  fun m hm => ⟨m, h ▸ hm, rfl, rfl⟩

/-- What the slots other than `i` own they owned before, and so do clients and nodes. -/
theorem ownedBy_kept
    {s : Socket} {o : Owner}
    (hclients : ClientsKept n₀ e n n') (hnodes : NodesKept n n')
    (hothers : ∀ j, j ≠ i → n'.slot j = n.slot j) (hne : o ≠ .slot i)
    (h : n'.OwnedBy s o) :
    n.OwnedBy s o := by
  cases o with
  | client p =>
      obtain ⟨c', hc', rfl, rfl⟩ := h
      obtain ⟨c, hc, hkept⟩ := hclients c' hc'
      exact ⟨c, hc, hkept.ptr.symm, hkept.sckComm.symm⟩
  | node p =>
      obtain ⟨m', hm', rfl, rfl⟩ := h
      exact hnodes m' hm'
  | slot j =>
      have hslot := hothers j fun hj => hne (congrArg Owner.slot hj)
      simpa only [Node.OwnedBy, hslot] using h

/-- The slot `i` changes, and may give up its socket or what it refers to. -/
theorem SocketsOwned.changeSlot
    (h : SocketsOwned n) (hclients : ClientsKept n₀ e n n') (hnodes : NodesKept n n')
    (hothers : ∀ j, j ≠ i → n'.slot j = n.slot j)
    (hown : ∀ s, n'.OwnedBy s (.slot i) → n.OwnedBy s (.slot i))
    (hheld : ∀ c' ∈ n'.clients, c'.state = .waitAnonTlsShutdown → (n.slot i).sck ≠ -1 →
      (n.slot i).type = .c2n → (n.slot i).iconn = some c'.ptr →
      (n'.slot i).sck ≠ -1 ∧ (n'.slot i).type = .c2n ∧ (n'.slot i).iconn = some c'.ptr)
    (hnode : (n'.slot i).sck ≠ -1 → (n'.slot i).type = .n2n → (n'.slot i).iconn = none) :
    SocketsOwned n' := by
  refine ⟨?_, ?_, ?_, ?_⟩
  · refine h.single.rename Function.injective_id fun s o _ ho => ?_
    by_cases hi : o = .slot i
    · subst hi
      exact hown s ho
    · exact ownedBy_kept hclients hnodes hothers hi ho
  · intro c' hc'
    obtain ⟨c, hc, hkept⟩ := hclients c' hc'
    rw [hkept.sckComm]
    exact h.real c hc
  · intro c' hc' hst
    obtain ⟨c, hc, hkept⟩ := hclients c' hc'
    obtain ⟨j, hocc, hty, hptr⟩ := h.held c hc (hkept.waiting hst)
    rw [← hkept.ptr] at hptr
    refine ⟨j, ?_⟩
    by_cases hj : j = i
    · subst hj
      exact hheld c' hc' hst hocc hty hptr
    · rw [hothers j hj]
      exact ⟨hocc, hty, hptr⟩
  · intro j
    by_cases hj : j = i
    · subst hj
      exact hnode
    · rw [hothers j hj]
      exact h.node j

/-- The slots stay as they are. -/
theorem SocketsOwned.changeLists
    (h : SocketsOwned n) (hclients : ClientsKept n₀ e n n') (hnodes : NodesKept n n')
    (hslots : ∀ j, n'.slot j = n.slot j) :
    SocketsOwned n' := by
  refine h.changeSlot (i := 0) hclients hnodes (fun j _ => hslots j) ?_ ?_ ?_
  · intro s ho
    simpa only [Node.OwnedBy, hslots] using ho
  · intro c' _ _ hocc hty hptr
    rw [hslots]
    exact ⟨hocc, hty, hptr⟩
  · rw [hslots]
    exact h.node 0

theorem slot_other {g : NewConn → NewConn} {j : Nat} (hj : j ≠ i) :
    (n.setSlot i g).slot j = n.slot j := by
  rw [slot_setSlot, if_neg fun h => hj h.1]

/-- A slot keeps its socket, its type and what it refers to. -/
theorem SocketsOwned.setSlot
    {g : NewConn → NewConn}
    (h : SocketsOwned n)
    (hg : ∀ nc, (g nc).sck = nc.sck ∧ (g nc).type = nc.type ∧ (g nc).iconn = nc.iconn) :
    SocketsOwned (n.setSlot i g) := by
  have hsame : ((n.setSlot i g).slot i).sck = (n.slot i).sck ∧
      ((n.setSlot i g).slot i).type = (n.slot i).type ∧
      ((n.setSlot i g).slot i).iconn = (n.slot i).iconn := by
    rw [slot_setSlot]
    split_ifs
    · exact hg _
    · exact ⟨rfl, rfl, rfl⟩
  obtain ⟨hsck, hty, hiconn⟩ := hsame
  refine @SocketsOwned.changeSlot n n _ (.clock 0) i h (.refl rfl) (.refl rfl)
    (fun j hj => slot_other hj) ?_ ?_ ?_
  · intro s ho
    simpa only [Node.OwnedBy, hsck, hiconn] using ho
  · rw [hsck, hty, hiconn]
    exact fun c' _ _ hocc hty hptr => ⟨hocc, hty, hptr⟩
  · rw [hsck, hty, hiconn]
    exact h.node i

/-- A slot that refers to nothing is closed or bound to a record, or just set free. -/
theorem SocketsOwned.release
    (h : SocketsOwned n) (hclients : ClientsKept n₀ e n n') (hnodes : NodesKept n n')
    (hothers : ∀ j, j ≠ i → n'.slot j = n.slot j)
    (hfree : ∀ c' ∈ n'.clients, (n.slot i).type = .c2n → (n.slot i).iconn = some c'.ptr →
      c'.state ≠ .waitAnonTlsShutdown)
    (hrel : (n'.slot i).sck = -1 ∨ (n'.slot i).iconn ≠ none ∧ (n'.slot i).type ≠ .n2n) :
    SocketsOwned n' := by
  refine h.changeSlot hclients hnodes hothers ?_ ?_ ?_
  · rintro s ⟨hsck, hs, hnone⟩
    rcases hrel with hrel | hrel
    · exact absurd (hrel.symm.trans hsck).symm hs
    · exact absurd hnone hrel.1
  · intro c' hc' hst _ hty hptr
    exact absurd hst (hfree c' hc' hty hptr)
  · intro hocc hty
    rcases hrel with hrel | hrel
    · exact absurd hrel hocc
    · exact absurd hty hrel.2

theorem modifyClient_kept
    {p : Ptr} {g : Client → Client}
    (hg : ∀ c, ClientKept n₀ e c (g c)) :
    ClientsKept n₀ e n (n.modifyClient p g) :=
  fun _ hc' => modify_client hc' hg

theorem dropClient_nodelinks
    {c : Client}
    (hcore : Core n) (hc : c ∈ n.clients) :
    (n.dropClient c).nodelinks = n.nodelinks := by
  rcases dropClient_cases hcore hc with ⟨ms, heq⟩ | ⟨q, ms, -, -, heq⟩
  · rw [heq]
    rfl
  · rw [heq]
    rfl

/-- A new connection becomes the connection of a client. -/
theorem SocketsOwned.initreq
    (h : SocketsOwned n) (hcore : Core n) (hocc : (n.slot i).sck ≠ -1)
    (hnone : (n.slot i).iconn = none) :
    SocketsOwned ((n.addClient (n.newClient i)).setSlot i fun nc =>
      { nc with type := .c2n, iconn := some n.next, state := .sendingOk }) := by
  have hslot : ((n.addClient (n.newClient i)).setSlot i fun nc =>
      { nc with type := .c2n, iconn := some n.next, state := .sendingOk }).slot i =
        { n.slot i with type := .c2n, iconn := some n.next, state := .sendingOk } :=
    @slot_setSlot_self (n.addClient (n.newClient i)) i _ hocc
  have hothers : ∀ j, j ≠ i → ((n.addClient (n.newClient i)).setSlot i fun nc =>
      { nc with type := .c2n, iconn := some n.next, state := .sendingOk }).slot j = n.slot j :=
    fun j hj => slot_other hj
  have hmem : ∀ c ∈ (n.addClient (n.newClient i)).clients, c ∈ n.clients ∨ c = n.newClient i :=
    fun c hc => by simpa [Node.addClient] using hc
  refine ⟨?_, ?_, ?_, ?_⟩
  · refine @Node.SingleOwner.handOver n _ (.client n.next) i h.single ?_ ?_ ?_
    · rintro s - ⟨-, -, hiconn⟩
      rw [hslot] at hiconn
      cases hiconn
    · rintro s - ⟨c, hc, hptr, rfl⟩
      rcases hmem c hc with hc | rfl
      · exact absurd hptr (Nat.ne_of_lt (hcore.clientsOld c hc))
      · exact ⟨rfl, hocc, hnone⟩
    · intro s o hne hns ho
      cases o with
      | client p =>
          obtain ⟨c, hc, rfl, rfl⟩ := ho
          rcases hmem c hc with hc | rfl
          · exact ⟨c, hc, rfl, rfl⟩
          · exact absurd rfl hne
      | node p => exact ho
      | slot j =>
          have hj : j ≠ i := fun heq => hns (congrArg Owner.slot heq)
          simpa only [Node.OwnedBy, hothers j hj] using ho
  · intro c hc
    rcases hmem c hc with hc | rfl
    · exact h.real c hc
    · exact hocc
  · intro c hc hst
    rcases hmem c hc with hc | rfl
    · obtain ⟨j, hj, hty, hptr⟩ := h.held c hc hst
      have hji : j ≠ i := by
        rintro rfl
        rw [hnone] at hptr
        cases hptr
      refine ⟨j, ?_⟩
      rw [hothers j hji]
      exact ⟨hj, hty, hptr⟩
    · refine ⟨i, ?_⟩
      rw [hslot]
      exact ⟨hocc, rfl, rfl⟩
  · intro j
    by_cases hj : j = i
    · subst hj
      rw [hslot]
      exact fun _ hty => by cases hty
    · rw [hothers j hj]
      exact h.node j

/-- A new connection becomes the connection of a node. -/
theorem SocketsOwned.nodeReady
    {nl : NodeLink}
    (h : SocketsOwned n) (hcore : Core n) (hty : (n.slot i).type = .n2n)
    (hptr : nl.ptr = n.next) (hsck : nl.sck = (n.slot i).sck) :
    SocketsOwned ((n.addNodelink nl).newconnFree i) := by
  have hfree : (((n.addNodelink nl).newconnFree i).slot i).sck = -1 := slot_setSlot_free rfl
  have hothers : ∀ j, j ≠ i → ((n.addNodelink nl).newconnFree i).slot j = n.slot j :=
    fun j hj => slot_other hj
  have hnone : (n.slot i).sck ≠ -1 → (n.slot i).iconn = none := fun hocc => h.node i hocc hty
  refine ⟨?_, h.real, ?_, ?_⟩
  · refine @Node.SingleOwner.handOver n _ (.node n.next) i h.single ?_ ?_ ?_
    · rintro s hs ⟨hs', -, -⟩
      exact hs (hs'.symm.trans hfree)
    · rintro s hs ⟨m, hm, hmptr, rfl⟩
      rcases List.mem_append.mp hm with hm | hm
      · exact absurd hmptr (Nat.ne_of_lt (hcore.nodelinksOld m hm))
      · obtain rfl := List.mem_singleton.mp hm
        rw [hsck] at hs ⊢
        exact ⟨rfl, hs, hnone hs⟩
    · intro s o hne hns ho
      cases o with
      | client p => exact ho
      | node p =>
          obtain ⟨m, hm, rfl, rfl⟩ := ho
          rcases List.mem_append.mp hm with hm | hm
          · exact ⟨m, hm, rfl, rfl⟩
          · obtain rfl := List.mem_singleton.mp hm
            exact absurd (congrArg Owner.node hptr) hne
      | slot j =>
          have hj : j ≠ i := fun heq => hns (congrArg Owner.slot heq)
          simpa only [Node.OwnedBy, hothers j hj] using ho
  · intro c hc hst
    obtain ⟨j, hj, htyj, hptrj⟩ := h.held c hc hst
    have hji : j ≠ i := by
      rintro rfl
      rw [hty] at htyj
      cases htyj
    refine ⟨j, ?_⟩
    rw [hothers j hji]
    exact ⟨hj, htyj, hptrj⟩
  · intro j
    by_cases hj : j = i
    · subst hj
      exact fun hocc => absurd hfree hocc
    · rw [hothers j hj]
      exact h.node j

/-- A connection is made to another node. -/
theorem SocketsOwned.addNodelink
    {nl : NodeLink}
    (h : SocketsOwned n) (hfresh : ¬n.Owns nl.sck) :
    SocketsOwned (n.addNodelink nl) := by
  refine ⟨?_, h.real, h.held, h.node⟩
  refine @Node.SingleOwner.add n _ nl.sck (.node nl.ptr) h.single hfresh ?_
  intro s o ho
  cases o with
  | client p => exact .inl ho
  | node p =>
      obtain ⟨m, hm, rfl, rfl⟩ := ho
      rcases List.mem_append.mp hm with hm | hm
      · exact .inl ⟨m, hm, rfl, rfl⟩
      · obtain rfl := List.mem_singleton.mp hm
        exact .inr ⟨rfl, rfl⟩
  | slot j => exact .inl ho

/-- A connection is accepted. -/
theorem SocketsOwned.openSlot
    {g : NewConn → NewConn} {s : Socket}
    (h : SocketsOwned n) (hcore : Core n) (hfresh : ¬n.Owns s) (hfree : (n.slot i).sck = -1)
    (hg : ∀ nc, (g nc).sck = s ∧ (g nc).iconn = nc.iconn) :
    SocketsOwned (n.setSlot i g) := by
  have hnone : (n.slot i).iconn = none := (hcore.slots i).idle (.inl hfree)
  have hslot : ((n.setSlot i g).slot i).iconn = none ∧
      (((n.setSlot i g).slot i).sck = s ∨ ((n.setSlot i g).slot i).sck = -1) := by
    rw [slot_setSlot]
    split_ifs
    · exact ⟨(hg _).2.trans hnone, .inl (hg _).1⟩
    · exact ⟨hnone, .inr hfree⟩
  refine ⟨?_, h.real, ?_, ?_⟩
  · refine @Node.SingleOwner.add n _ s (.slot i) h.single hfresh ?_
    intro t o ho
    cases o with
    | client p => exact .inl ho
    | node p => exact .inl ho
    | slot j =>
        by_cases hj : j = i
        · subst hj
          rcases hslot.2 with hs | hs
          · exact .inr ⟨ho.1.symm.trans hs, rfl⟩
          · exact absurd (ho.1.symm.trans hs) ho.2.1
        · left
          simpa only [Node.OwnedBy, slot_other hj] using ho
  · intro c hc hst
    obtain ⟨j, hj, hty, hptr⟩ := h.held c hc hst
    have hji : j ≠ i := by
      rintro rfl
      exact hj hfree
    refine ⟨j, ?_⟩
    rw [slot_other hji]
    exact ⟨hj, hty, hptr⟩
  · intro j
    by_cases hj : j = i
    · subst hj
      exact fun _ _ => hslot.1
    · rw [slot_other hj]
      exact h.node j

/-- A slot that refers to nothing gets a type. -/
theorem SocketsOwned.request
    {t : NcType} {st : NcState}
    (h : SocketsOwned n) (hocc : (n.slot i).sck ≠ -1) (hnone : (n.slot i).iconn = none) :
    SocketsOwned (n.setSlot i fun nc => { nc with type := t, state := st }) := by
  refine @SocketsOwned.changeSlot n n _ (.clock 0) i h (.refl rfl) (.refl rfl)
    (fun j hj => slot_other hj) ?_ ?_ ?_
  · intro s ho
    simpa only [Node.OwnedBy, slot_setSlot_self hocc] using ho
  · intro c _ _ _ _ hptr
    rw [hnone] at hptr
    cases hptr
  · rw [slot_setSlot_self hocc]
    exact fun _ _ => hnone

/-- A slot that refers to nothing gets a link. -/
theorem SocketsOwned.bind
    {m : Node} {l : CCLink}
    (h : SocketsOwned n) (hocc : (n.slot i).sck ≠ -1) (hnone : (n.slot i).iconn = none)
    (hclients : m.clients = n.clients) (hnodes : m.nodelinks = n.nodelinks)
    (hslots : m.newconns = (n.setSlot i fun nc =>
      { nc with type := .c2c, iconn := some l.ptr, state := .waitAnonTlsShutdown }).newconns) :
    SocketsOwned m := by
  have hslot : ∀ j, m.slot j = (n.setSlot i fun nc =>
      { nc with type := .c2c, iconn := some l.ptr, state := .waitAnonTlsShutdown }).slot j :=
    fun j => by rw [Node.slot, hslots, Node.slot]
  refine @SocketsOwned.release n n _ (.clock 0) i h (.refl hclients) (.refl hnodes) ?_ ?_ (.inr ?_)
  · intro j hj
    rw [hslot, slot_other hj]
  · intro c _ _ hptr
    rw [hnone] at hptr
    cases hptr
  · rw [hslot, slot_setSlot_self hocc]
    exact ⟨(by rintro ⟨⟩), (by rintro ⟨⟩)⟩

/-- A slot is closed, and with it the client it refers to. -/
theorem SocketsOwned.close
    {g : NewConn → NewConn}
    (h : SocketsOwned n) (hcore : Core n) (hg : ∀ nc, (g nc).iconn = nc.iconn)
    (hty : (n.slot i).iconn = none ∨ ∀ nc, (g nc).type = nc.type)
    (hclose : (n.setSlot i g).newconnClose i = .ok n') :
    SocketsOwned n' := by
  obtain ⟨k, hk, rfl⟩ := newconnClose_ok hclose
  have closed : ∀ m : Node, m.newconns = n.newconns → k = m.setSlot i g →
      ClientsKept n (.clock 0) n m → NodesKept n m →
      (∀ c ∈ m.clients, (n.slot i).type = .c2n → (n.slot i).iconn ≠ some c.ptr) →
      SocketsOwned (k.setSlot i fun nc =>
        { nc with sck := -1, buf := [], iconn := none, type := .unknown }) := by
    rintro m hm rfl hclients hnodes hgone
    refine h.release hclients hnodes ?_ ?_ (.inl (slot_setSlot_free rfl))
    · intro j hj
      rw [slot_other hj, slot_other hj, Node.slot, hm, Node.slot]
    · exact fun c hc hc2n hptr => absurd hptr (hgone c hc hc2n)
  have hslot : (n.slot i).iconn = none ∨ ((n.setSlot i g).slot i).type = (n.slot i).type ∧
      ((n.setSlot i g).slot i).iconn = (n.slot i).iconn := by
    rcases hty with hnone | hty
    · exact .inl hnone
    · right
      rw [slot_setSlot]
      split_ifs
      · exact ⟨hty _, hg _⟩
      · exact ⟨rfl, rfl⟩
  rcases hk with ⟨hnot, rfl⟩ | ⟨c, hc, hi, -, rfl⟩ | ⟨l, hl, hi, hc2c, rfl⟩
  · refine closed n rfl rfl (.refl rfl) (.refl rfl) fun c _ hc2n hptr => ?_
    rcases hslot with hnone | ⟨htype, hiconn⟩
    · rw [hnone] at hptr
      cases hptr
    · rw [htype, hiconn] at hnot
      rcases hnot with hnot | hnot
      · rw [hptr] at hnot
        cases hnot
      · exact hnot.1 hc2n
  · refine closed ((n.dropClient c).logged (.delete c.ptr)) (dropClient_newconns hcore hc)
      dropClient_logged_setSlot (fun d hd => dropClient_kept hcore hc hd)
      (.refl (dropClient_nodelinks hcore hc)) fun d hd _ hptr => ?_
    -- the client the slot refers to is the one that is deleted
    have hsame : ((n.setSlot i g).slot i).iconn = (n.slot i).iconn := by
      rw [slot_setSlot]
      split_ifs
      · exact hg _
      · rfl
    rw [hsame, hptr, Option.some.injEq] at hi
    have hnot : d.ptr ≠ c.ptr := by
      rw [Node.dropClient] at hd
      exact (mem_remove.mp hd).2
    exact hnot hi
  · refine closed (n.dropLink l) rfl dropLink_setSlot (.refl rfl) (.refl rfl) fun c _ hc2n hptr => ?_
    rcases hslot with hnone | ⟨htype, hiconn⟩
    · rw [hnone] at hptr
      cases hptr
    · rw [htype, hc2n] at hc2c
      cases hc2c

end Change

/-- The operating system gives out descriptors that are not in use. -/
def NodeEvent.fresh (n : Node) : NodeEvent → Bool
  | .accept s _ _ => n.unowned s
  | .nodewait s _ => n.unowned s
  | _ => true

section Steps

variable {n₀ n n' : Node} {e : NodeEvent}

/-- **Step lemma.** -/
theorem Act.socketsOwned
    (hcore : Core n) (h : SocketsOwned n) (hone : e.asksTwice n₀ = false)
    (hfresh : e.fresh n₀) (hact : Act n₀ e n n') :
    SocketsOwned n' := by
  have htwice : ∀ P : Prop, P ∨ e.asksTwice n₀ → P := by
    intro P hP
    rcases hP with hP | hP
    · exact hP
    · rw [hone] at hP
      cases hP
  -- what is done to the lists alone
  have lists : ∀ m : Node, ClientsKept n₀ e n m → NodesKept n m → m.newconns = n.newconns →
      SocketsOwned m := fun m hclients hnodes hslots =>
    h.changeLists hclients hnodes fun j => by rw [Node.slot, hslots, Node.slot]
  cases hact with
  | asked => exact lists _ (.refl rfl) (.refl rfl) rfl
  | clock t => exact lists _ (.refl rfl) (.refl rfl) rfl
  | tickClient p t b =>
      refine lists _ (modifyClient_kept fun c => ?_) (.refl rfl) rfl
      exact ⟨rfl, rfl, fun h => h, fun _ hf => .inl hf⟩
  | push p f hf hlong =>
      refine lists _ (modifyClient_kept fun c => ⟨rfl, rfl, fun h => h, fun x hx => ?_⟩) (.refl rfl) rfl
      rcases List.mem_append.mp hx with hx | hx
      · exact .inl hx
      · obtain rfl := List.mem_singleton.mp hx
        exact .inr hlong
  | nodelink p g hg =>
      refine lists _ (.refl rfl) (fun m' hm' => ?_) rfl
      obtain ⟨m, hm, rfl⟩ := mem_modify.mp hm'
      refine ⟨m, hm, ?_⟩
      split_ifs
      · exact ⟨(hg m).1.symm, (hg m).2.symm⟩
      · exact ⟨rfl, rfl⟩
  | login c id hc hst hid hno hmiss =>
      refine lists _ (modifyClient_kept fun c => ?_) (.refl rfl) rfl
      exact ⟨rfl, rfl, (by rintro ⟨⟩), fun _ hf => .inl hf⟩
  | loginMulti c s id hc hst hid hs =>
      refine lists _ (fun c' hc' => ?_) (.refl rfl) rfl
      exact modify_client hc' fun c => ⟨rfl, rfl, (by rintro ⟨⟩), fun _ hf => .inl hf⟩
  | deleteClient c call hc hdel hleave =>
      exact lists _ (fun d hd => dropClient_kept hcore hc hd)
        (.refl (dropClient_nodelinks hcore hc)) (dropClient_newconns hcore hc)
  | addNodelink nl a hptr he hold =>
      subst he
      exact h.addNodelink fun hs => not_owns_of_unowned hfresh (hold _ hs)
  | deleteNodelink nl hnl hdel =>
      exact lists _ (.refl rfl) (fun m hm => ⟨m, (mem_remove.mp hm).1, rfl, rfl⟩) rfl
  | addLink l hl hask => exact lists _ (.refl rfl) (.refl rfl) rfl
  | attach l nl f he hk hlinked hfind => exact lists _ (.refl rfl) (.refl rfl) rfl
  | allow l ci id f he hk hprim hs hst => exact lists _ (.refl rfl) (.refl rfl) rfl
  | n2nallow l nl f he hk hs hp1 hmem => exact lists _ (.refl rfl) (.refl rfl) rfl
  | relay l l' hl hst heq hidle hby => exact lists _ (.refl rfl) (.refl rfl) rfl
  | deleteLink l hl hst hnew => exact lists _ (.refl rfl) (.refl rfl) rfl
  | takeSlot i he hfree =>
      refine @SocketsOwned.release n₀ n _ e i h (.refl rfl) (.refl rfl)
        (fun j hj => @slot_other n i _ j hj) ?_ (.inl (@slot_setSlot_free n i _ rfl))
      intro c _ _ hptr
      rw [(hcore.slots i).idle (.inl hfree)] at hptr
      cases hptr
  | openSlot i s a he hs hfree hold =>
      subst he
      exact h.openSlot hcore (fun hs => not_owns_of_unowned hfresh (hold _ hs)) hfree
        fun _ => ⟨rfl, rfl⟩
  | greeted i he hst => exact h.setSlot fun _ => ⟨rfl, rfl, rfl⟩
  | fillSlot i b he => exact h.setSlot fun _ => ⟨rfl, rfl, rfl⟩
  | answered i he hst => exact h.setSlot fun _ => ⟨rfl, rfl, rfl⟩
  | initreq i he hocc hask => exact h.initreq hcore hocc (htwice _ hask)
  | request i t st he hocc href hask ht => exact h.request hocc (htwice _ hask)
  | connid i l f c he hocc hnone hs haw hc haddr hbrings hid hsame =>
      exact h.bind hocc hnone rfl rfl rfl
  | connidLost i l he hfail hocc hnone hl haw => exact h.bind hocc hnone rfl rfl rfl
  | close i g n' he hg htype hclose =>
      refine h.close hcore hg (htwice _ ?_) hclose
      rcases htype with hnone | hsame | htwo
      · exact .inl (.inl hnone)
      · exact .inl (.inr hsame)
      · exact .inr htwo
  | clientReady i c he hi hty hc =>
      let m := (n.logged (.negotiate c.ptr)).modifyClient c.ptr fun c =>
        { c with state := .tlsNegotiation }
      refine @SocketsOwned.release n₀ n _ e i h ?_ (.refl rfl)
        (fun j hj => @slot_other m i _ j hj) ?_ (.inl (@slot_setSlot_free m i _ rfl))
      · exact fun c' hc' => modify_client hc' fun c => ⟨rfl, rfl, (by rintro ⟨⟩), fun _ hf => .inl hf⟩
      · intro c' hc' _ hptr
        rw [hi, Option.some.injEq] at hptr
        obtain ⟨d, -, rfl⟩ := mem_modify.mp hc'
        split_ifs at hptr ⊢ with hd
        · rintro ⟨⟩
        · exact absurd hptr.symm hd
  | linkReady i l he hi hty hl hwait hdone hlinks hslots =>
      refine @SocketsOwned.release n₀ n _ e i h (.refl rfl) (.refl rfl)
        (fun j hj => @slot_other (n.modifyLink _ _) i _ j hj) ?_
        (.inl (@slot_setSlot_free (n.modifyLink _ _) i _ rfl))
      intro c _ hc2n
      rw [hty] at hc2n
      cases hc2n
  | nodeReady i nl he hty hptr hsck => exact h.nodeReady hcore hty hptr hsck

theorem nodeStep_socketsOwned
    (hcore : Core n) (h : SocketsOwned n) (hone : e.asksTwice n = false) (hfresh : e.fresh n)
    (hstep : nodeStep n e = some n') :
    SocketsOwned n' := by
  have hact : ∀ u v, (Core u ∧ SocketsOwned u) → Act n e u v → Core v ∧ SocketsOwned v :=
    fun u v hu hact => ⟨hact.core hu.1, hact.socketsOwned hu.1 hu.2 hone hfresh⟩
  exact (changes_invariant hact ⟨hcore, h⟩ (nodeStep_acts hcore hstep)).2

end Steps

/-! ## Requests -/

/-- The connection in the slot has made its request, or is gone. -/
def Node.Served (n : Node) (i : Nat) : Prop :=
  (n.slot i).sck = -1 ∨ (n.slot i).state.early = false

section Requests

variable {n m : Node} {i : Nat} {f : Frame} {r : Nat}

theorem served_setSlot
    {g : NewConn → NewConn}
    (hocc : (n.slot i).sck ≠ -1) (hg : (g (n.slot i)).state.early = false) :
    (n.setSlot i g).Served i := by
  right
  rw [slot_setSlot_self hocc]
  exact hg

theorem procmsgINITREQ_served
    (hocc : (n.slot i).sck ≠ -1) (h : n.procmsgINITREQ i f = .ok (m, r)) (hr : r ≠ 0) :
    m.Served i := by
  rw [Node.procmsgINITREQ] at h
  dsimp only at h
  split_ifs at h with hver
  · obtain ⟨⟨k, c⟩, hadd, h⟩ := bind_eq_ok.mp h
    rcases @clientListAddnew_ok _ _ i _ _ hadd with ⟨rfl, rfl⟩ | ⟨rfl, cl, rfl, rfl⟩
    · cases h
      exact absurd rfl hr
    · cases h
      refine served_setSlot (fun hfree => hocc ?_) rfl
      change ((n.setSlot i _).slot i).sck = -1 at hfree
      rwa [slot_setSlot_self hocc] at hfree
  · cases h
    rw [setSlot_setSlot]
    exact served_setSlot hocc rfl

theorem procmsgNODECONNREQ_served
    (hocc : (n.slot i).sck ≠ -1) (h : n.procmsgNODECONNREQ i f = .ok (m, r)) :
    m.Served i := by
  rw [Node.procmsgNODECONNREQ] at h
  rw [setSlot_setSlot, setSlot_setSlot] at h
  split_ifs at h
  · cases h
    exact served_setSlot hocc rfl
  · cases h
    exact served_setSlot hocc rfl

theorem cclinkSetwaitanontlsshutdown_served
    {l : CCLink}
    (hocc : (n.slot i).sck ≠ -1) (h : n.cclinkSetwaitanontlsshutdown l i = .ok m) :
    m.Served i := by
  have hserved : (n.setSlot i fun nc =>
      { nc with iconn := some l.ptr, state := .waitAnonTlsShutdown }).Served i :=
    served_setSlot hocc rfl
  rw [Node.cclinkSetwaitanontlsshutdown] at h
  split_ifs at h
  · cases h
    exact hserved
  · cases h
    exact hserved
  · obtain ⟨cc, -, -, rfl⟩ := cclinkListDelete_ok h
    exact hserved

theorem procmsgCONNID_served
    (hocc : (n.slot i).sck ≠ -1) (h : n.procmsgCONNID i f = .ok (m, r)) (hr : r ≠ 0) :
    m.Served i := by
  have hocc' : ((n.setSlot i fun nc => { nc with type := .c2c }).slot i).sck ≠ -1 := by
    rwa [slot_setSlot_self hocc]
  rw [Node.procmsgCONNID] at h
  split at h
  · cases h
    exact absurd rfl hr
  · split at h
    · cases h
      exact absurd rfl hr
    · obtain ⟨c, -, h⟩ := bind_eq_ok.mp h
      split_ifs at h
      · obtain ⟨k, hk, h⟩ := bind_eq_ok.mp h
        cases h
        exact cclinkSetwaitanontlsshutdown_served hocc' hk
      · cases h
        exact absurd rfl hr

/-- No handler is called for bytes that do not begin with a request and are too few for a
`CONNID`. -/
theorem requestStream_stops
    {fuel pos : Nat} {buf : List UInt8} {arg : Except Fault Node}
    (hpos : pos ≤ newconnBufsize - 4) (hno : ¬RequestAt buf pos) :
    (processdatastream (msginfoNewconn i) fuel buf pos arg).calls = [] ∧
      (processdatastream (msginfoNewconn i) fuel buf pos arg).arg = arg := by
  have hnone : ∀ size, size = msggetsize buf pos (msginfoNewconn i) → size ≠ 0 → ¬size ≤ pos := by
    rintro size rfl hsize hle
    obtain ⟨hbytes, ⟨hfour, hid, -⟩ | ⟨hfour, hid, -⟩ | ⟨hbig, -⟩⟩ :=
      msginfoNewconn_entry hsize hle (by omega)
    · exact hno ⟨hfour ▸ hle, hbytes, .inl hid⟩
    · exact hno ⟨hfour ▸ hle, hbytes, .inr hid⟩
    · rw [newconnBufsize] at hbig hpos
      omega
  cases fuel with
  | zero => exact ⟨rfl, rfl⟩
  | succ fuel =>
      rw [processdatastream]
      dsimp only
      split_ifs with hzero hsize hmore hret
      · exact ⟨rfl, rfl⟩
      · exact ⟨rfl, rfl⟩
      · exact ⟨rfl, rfl⟩
      · exact absurd (Nat.le_of_not_lt hmore) (hnone _ rfl hsize)
      · exact absurd (Nat.le_of_not_lt hmore) (hnone _ rfl hsize)

/-- A message is the only one when the bytes behind it are not a request. -/
theorem requestStream_once
    {fuel size : Nat} {buf : List UInt8} {hd : Node → Frame → Except Fault (Node × Nat)}
    (hfit : buf.length ≤ newconnBufsize) (hfour : 4 ≤ size)
    (hno : ¬RequestAt (Area.moveDown buf size (buf.length - size)) (buf.length - size))
    (hserved : ∀ m r, hd n f = .ok (m, r) → r ≠ 0 → m.Served i)
    (hret : (handlerFn hd (.ok n) f).2 ≠ 0) :
    let next := processdatastream (msginfoNewconn i) fuel
      (Area.moveDown buf size (buf.length - size)) (buf.length - size) (handlerFn hd (.ok n) f).1
    (buf.take size :: next.calls).length ≤ 1 ∧
      (buf.take size :: next.calls ≠ [] → next.ret ≠ 0 → ∀ m, next.arg = .ok m → m.Served i) := by
  have hroom : buf.length - size ≤ newconnBufsize - 4 := by omega
  obtain ⟨hcalls, harg⟩ :=
    @requestStream_stops i fuel _ _ (handlerFn hd (.ok n) f).1 hroom hno
  dsimp only
  rw [hcalls, harg]
  exact ⟨Nat.le_refl _, fun _ _ m hm => hserved m _ (handlerFn_ok hm) hret⟩

/-- One message of a new connection is handled, unless two requests arrive together. -/
theorem firstStream_once
    {fuel : Nat} {buf : List UInt8}
    (hocc : (n.slot i).sck ≠ -1) (hfit : buf.length ≤ newconnBufsize)
    (hone : ¬(NodeEvent.isRequest buf ∧ NodeEvent.isRequest (buf.drop 4))) :
    let r := processdatastream (msginfoNewconn i) fuel buf buf.length (.ok n)
    r.calls.length ≤ 1 ∧ (r.calls ≠ [] → r.ret ≠ 0 → ∀ m, r.arg = .ok m → m.Served i) := by
  dsimp only
  cases fuel with
  | zero => exact ⟨Nat.zero_le _, fun hne => absurd rfl hne⟩
  | succ fuel =>
      rw [processdatastream]
      dsimp only
      split_ifs with hzero hsize hmore hret
      · exact ⟨Nat.zero_le _, fun hne => absurd rfl hne⟩
      · exact ⟨Nat.zero_le _, fun hne => absurd rfl hne⟩
      · exact ⟨Nat.zero_le _, fun hne => absurd rfl hne⟩
      · exact ⟨Nat.le_refl _, fun _ hne => absurd rfl hne⟩
      · have hle := Nat.le_of_not_lt hmore
        obtain ⟨hbytes, ⟨hfour, hid, hcall⟩ | ⟨hfour, hid, hcall⟩ | ⟨hbig, hid, hcall⟩⟩ :=
          msginfoNewconn_entry hsize hle hfit
        · rw [hfour] at hle
          have hno : ¬RequestAt (Area.moveDown buf 4 (buf.length - 4)) (buf.length - 4) :=
            fun h => hone ⟨isRequest_iff.mpr ⟨hle, hbytes, .inl hid⟩, requestAt_behind hle h⟩
          rw [hfour, hcall] at hret ⊢
          exact requestStream_once hfit (Nat.le_refl _) hno
            (fun m r hm hr => procmsgINITREQ_served hocc hm hr) hret
        · rw [hfour] at hle
          have hno : ¬RequestAt (Area.moveDown buf 4 (buf.length - 4)) (buf.length - 4) :=
            fun h => hone ⟨isRequest_iff.mpr ⟨hle, hbytes, .inr hid⟩, requestAt_behind hle h⟩
          rw [hfour, hcall] at hret ⊢
          exact requestStream_once hfit (Nat.le_refl _) hno
            (fun m r hm _ => procmsgNODECONNREQ_served hocc hm) hret
        · rw [hbig] at hle
          have hno : ¬RequestAt (Area.moveDown buf newconnBufsize (buf.length - newconnBufsize))
              (buf.length - newconnBufsize) := by
            rintro ⟨hlen, -⟩
            omega
          rw [hbig, hcall] at hret ⊢
          exact requestStream_once hfit (by decide) hno
            (fun m r hm hr => procmsgCONNID_served hocc hm hr) hret

theorem newconnReceived_served
    {buf : List UInt8}
    (hocc : (n.slot i).sck ≠ -1) (hfit : buf.length ≤ newconnBufsize)
    (hone : ¬(NodeEvent.isRequest buf ∧ NodeEvent.isRequest (buf.drop 4)))
    (hcalls : (processdatastream (msginfoNewconn i) buf.length buf buf.length (.ok n)).calls ≠ [])
    (h : n.newconnReceived i buf = .ok m) :
    m.Served i := by
  obtain ⟨k, hk, h⟩ := bind_eq_ok.mp h
  split_ifs at h with hret
  · exact .inl (newconnClose_free h)
  · cases h
    have hserved := (firstStream_once hocc hfit hone).2 hcalls hret k hk
    rw [Node.Served, slot_setSlot]
    split_ifs
    · exact hserved
    · exact hserved

theorem processNewconnWrite_served
    {w : SslResult}
    (hserved : n.Served i) (h : n.processNewconnWrite i w = .ok m) :
    m.Served i := by
  unfold Node.processNewconnWrite at h
  dsimp only at h
  split at h
  · cases h
    exact hserved
  · exact .inl (newconnClose_free h)
  · split_ifs at h
    · obtain ⟨⟨k, nl⟩, hk, h⟩ := bind_eq_ok.mp h
      cases nl with
      | some p =>
          cases h
          exact .inl (slot_setSlot_free rfl)
      | none =>
          obtain ⟨k', -, h⟩ := bind_eq_ok.mp h
          cases h
    · cases h
      by_cases hocc : (n.slot i).sck = -1
      · exact .inl (slot_setSlot_free hocc)
      · exact served_setSlot hocc rfl
  · cases h
    exact hserved
  · exact .inl (newconnClose_free h)
  · exact .inl (newconnClose_free h)
  · cases h
    exact hserved

end Requests

/-- The node when the request of the slot `i` is read: the handshake is done. -/
def Node.greeted (n : Node) (i : Nat) : Node :=
  if (n.slot i).state = .waitAnonTlsAccept then
    n.setSlot i fun nc => { nc with state := .waitRequest }
  else n

/-- The messages for which the call calls `procmsg_INITREQ`, `procmsg_CONNID` or
`procmsg_NODECONNREQ`. -/
def NodeEvent.requests (n : Node) : NodeEvent → List Frame
  | .newconnRead i io =>
      let nc := n.slot i
      let xs := io.read.take (newconnBufsize - nc.buf.length)
      if (nc.state = .waitRequest ∨ nc.state = .waitAnonTlsAccept ∧ io.accept = .done) ∧
          !io.readRetry ∧ xs ≠ [] then
        (processdatastream (msginfoNewconn i) (nc.buf ++ xs).length (nc.buf ++ xs)
          (nc.buf ++ xs).length (.ok (n.greeted i))).calls
      else []
  | _ => []

section Reads

variable {n m : Node} {i : Nat} {io : NewconnResults}

theorem greeted_slot (hocc : (n.slot i).sck ≠ -1) :
    ((n.greeted i).slot i).sck = (n.slot i).sck ∧ ((n.greeted i).slot i).buf = (n.slot i).buf := by
  rw [Node.greeted]
  split_ifs
  · rw [slot_setSlot_self hocc]
    exact ⟨rfl, rfl⟩
  · exact ⟨rfl, rfl⟩

/-- The bytes that are handed to the handlers. -/
def received (n : Node) (i : Nat) (io : NewconnResults) : List UInt8 :=
  (n.slot i).buf ++ io.read.take (newconnBufsize - (n.slot i).buf.length)

/-- When requests are handled, they are read from the connection that has been greeted. -/
theorem requests_ne_nil
    (hreq : (NodeEvent.newconnRead i io).requests n ≠ []) :
    ((n.slot i).state = .waitRequest ∨
        (n.slot i).state = .waitAnonTlsAccept ∧ io.accept = .done) ∧
      io.readRetry = false ∧ io.read.take (newconnBufsize - (n.slot i).buf.length) ≠ [] ∧
      (NodeEvent.newconnRead i io).requests n =
        (processdatastream (msginfoNewconn i) (received n i io).length (received n i io)
          (received n i io).length (.ok (n.greeted i))).calls := by
  simp only [NodeEvent.requests] at hreq ⊢
  split_ifs at hreq ⊢ with hcond
  · exact ⟨hcond.1, by simpa using hcond.2.1, hcond.2.2, rfl⟩
  · exact absurd rfl hreq

theorem requests_early
    (hreq : (NodeEvent.newconnRead i io).requests n ≠ []) :
    (n.slot i).state.early := by
  rcases (requests_ne_nil hreq).1 with hst | ⟨hst, -⟩
  · rw [hst]
    rfl
  · rw [hst]
    rfl

theorem newconnSwitch_requests
    (hreq : (NodeEvent.newconnRead i io).requests n ≠ []) (hocc : (n.slot i).sck ≠ -1) :
    n.newconnSwitch i io = (n.greeted i).newconnReceived i (received n i io) := by
  obtain ⟨hst, hretry, hxs, -⟩ := requests_ne_nil hreq
  have hread : n.newconnSwitch i io = (n.greeted i).newconnRequest i io := by
    rcases hst with hst | ⟨hst, hdone⟩
    · simp [Node.newconnSwitch, hst, Node.greeted]
    · simp [Node.newconnSwitch, hst, hdone, Node.greeted]
  rw [hread, Node.newconnRequest]
  simp only [(greeted_slot hocc).2, hretry]
  rw [if_neg Bool.false_ne_true, if_neg hxs, received]

theorem length_received
    (hxs : io.read.take (newconnBufsize - (n.slot i).buf.length) ≠ []) :
    (received n i io).length ≤ newconnBufsize := by
  have hroom : newconnBufsize - (n.slot i).buf.length ≠ 0 := by
    intro hz
    exact hxs (by rw [hz, List.take_zero])
  simp only [received, List.length_append, List.length_take]
  omega

theorem asksTwice_false
    (h : (NodeEvent.newconnRead i io).asksTwice n = false)
    (hreq : (NodeEvent.newconnRead i io).requests n ≠ []) :
    ¬(NodeEvent.isRequest (received n i io) ∧
      NodeEvent.isRequest ((received n i io).drop 4)) := by
  obtain ⟨hst, hretry, -⟩ := requests_ne_nil hreq
  have hbrought : (NodeEvent.newconnRead i io).brought n = some (i, received n i io) := by
    simp only [NodeEvent.brought, hretry]
    exact if_pos ⟨hst, rfl⟩
  simpa [NodeEvent.asksTwice, hbrought] using h

/-- A call handles at most one request, and then the connection is past its request or
gone. -/
theorem request_once
    (hone : (NodeEvent.newconnRead i io).asksTwice n = false)
    (hstep : nodeStep n (.newconnRead i io) = some m) :
    ((NodeEvent.newconnRead i io).requests n).length ≤ 1 ∧
      ((NodeEvent.newconnRead i io).requests n ≠ [] → m.Served i) := by
  by_cases hreq : (NodeEvent.newconnRead i io).requests n = []
  · rw [hreq]
    exact ⟨Nat.zero_le _, fun hne => absurd rfl hne⟩
  · obtain ⟨hen, hreact⟩ := nodeStep_eq_some.mp hstep
    simp only [NodeEvent.enabled, decide_eq_true_eq] at hen
    have hocc : ((n.greeted i).slot i).sck ≠ -1 := (greeted_slot hen.2).1 ▸ hen.2
    obtain ⟨-, -, hxs, hcalls⟩ := requests_ne_nil hreq
    have htwo := asksTwice_false hone hreq
    obtain ⟨k, hk, hwrite⟩ := bind_eq_ok.mp hreact
    rw [newconnSwitch_requests hreq hen.2] at hk
    rw [hcalls] at hreq ⊢
    refine ⟨(firstStream_once hocc (length_received hxs) htwo).1, fun _ => ?_⟩
    have hserved := newconnReceived_served hocc (length_received hxs) htwo hreq hk
    split_ifs at hwrite
    · exact processNewconnWrite_served hserved hwrite
    · cases hwrite
      exact hserved

end Reads

/-- The slot `i` got its connection from the call for `e`. -/
def Node.OpenedBy (n : Node) (i : Nat) (e : NodeEvent) : Prop :=
  ∃ s a, e = .accept s a true ∧ (n.slot i).sck = s

section Served

variable {n₀ n n' : Node} {e : NodeEvent} {i : Nat}

theorem newconnClose_other
    {j : Nat}
    (h : n.newconnClose j = .ok n') (hi : i ≠ j) :
    n'.slot i = n.slot i := by
  rw [Node.slot, (newconnClose_newconns h).1]
  exact slot_other hi

theorem served_of_slot
    {j : Nat} {g : NewConn → NewConn}
    (hg : (g (n.slot j)).sck = -1 ∨ (g (n.slot j)).sck = (n.slot j).sck ∧
      ((n.slot j).state.early = false → (g (n.slot j)).state.early = false))
    (h : n.Served i ∨ n.OpenedBy i e) :
    (n.setSlot j g).Served i ∨ (n.setSlot j g).OpenedBy i e := by
  rw [Node.Served, Node.OpenedBy, slot_setSlot]
  split_ifs with hi
  · obtain ⟨rfl, -⟩ := hi
    rcases hg with hfree | ⟨hsck, hst⟩
    · exact .inl (.inl hfree)
    · rcases h with hserved | hopened
      · exact .inl (hserved.imp (fun h => hsck.trans h) hst)
      · obtain ⟨s, a, he, hs⟩ := hopened
        exact .inr ⟨s, a, he, hsck.trans hs⟩
  · exact h

/-- A connection that has made its request is not asked for another one: the slot has to
be opened again first. -/
theorem Act.served
    (hcore : Core n) (h : n.Served i ∨ n.OpenedBy i e) (hact : Act n₀ e n n') :
    n'.Served i ∨ n'.OpenedBy i e := by
  have same : ∀ m : Node, m.newconns = n.newconns → m.Served i ∨ m.OpenedBy i e := by
    intro m hm
    have hslot : m.slot i = n.slot i := by rw [Node.slot, hm, Node.slot]
    rw [Node.Served, Node.OpenedBy, hslot]
    exact h
  cases hact with
  | deleteClient c call hc hdel hleave => exact same _ (dropClient_newconns hcore hc)
  | takeSlot j he hfree => exact served_of_slot (.inl rfl) h
  | openSlot j s a he hs hfree hold =>
      subst he
      by_cases hi : i = j ∧ j < n.newconns.length
      · refine .inr ⟨s, a, rfl, ?_⟩
        rw [slot_setSlot, if_pos hi]
      · rw [Node.Served, Node.OpenedBy, slot_setSlot, if_neg hi]
        exact h
  | greeted j he hst =>
      refine served_of_slot (.inr ⟨rfl, fun hlate => ?_⟩) h
      rw [hst] at hlate
      cases hlate
  | fillSlot j b he => exact served_of_slot (.inr ⟨rfl, fun h => h⟩) h
  | answered j he hst => exact served_of_slot (.inr ⟨rfl, fun _ => rfl⟩) h
  | initreq j he hocc hask =>
      exact @served_of_slot (n.addClient _) e i j _ (.inr ⟨rfl, fun _ => rfl⟩) h
  | request j t st he hocc href hask ht =>
      refine served_of_slot (.inr ⟨rfl, fun _ => ?_⟩) h
      rcases ht with ⟨-, rfl⟩ | ⟨-, rfl | rfl⟩ <;> rfl
  | connid j l f c he hocc hnone hs haw hc haddr hbrings hid hsame =>
      exact @served_of_slot n e i j _ (.inr ⟨rfl, fun _ => rfl⟩) h
  | connidLost j l he hfail hocc hnone hl haw =>
      exact @served_of_slot n e i j _ (.inr ⟨rfl, fun _ => rfl⟩) h
  | close j g n' he hg htype hclose =>
      by_cases hi : i = j
      · subst hi
        exact .inl (.inl (newconnClose_free hclose))
      · rw [Node.Served, Node.OpenedBy, newconnClose_other hclose hi, slot_other hi]
        exact h
  | clientReady j c he hi hty hc =>
      exact @served_of_slot ((n.logged (.negotiate c.ptr)).modifyClient c.ptr fun c =>
        { c with state := .tlsNegotiation }) e i j _ (.inl rfl) h
  | linkReady j l he hi hty hl hwait hdone hlinks hslots =>
      exact @served_of_slot (n.modifyLink _ _) e i j _ (.inl rfl) h
  | nodeReady j nl he hty hptr hsck =>
      exact @served_of_slot (n.addNodelink _) e i j _ (.inl rfl) h
  | _ => exact same _ rfl

theorem nodeStep_served
    (hcore : Core n) (h : n.Served i) (hstep : nodeStep n e = some n') :
    n'.Served i ∨ n'.OpenedBy i e := by
  have hact : ∀ u v, (Core u ∧ (u.Served i ∨ u.OpenedBy i e)) → Act n e u v →
      Core v ∧ (v.Served i ∨ v.OpenedBy i e) :=
    fun u v hu hact => ⟨hact.core hu.1, hact.served hu.1 hu.2⟩
  exact (changes_invariant hact ⟨hcore, .inl h⟩ (nodeStep_acts hcore hstep)).2

/-- Between two requests on a slot a connection is accepted into it. -/
theorem accepted_between
    {fs : List NodeEvent} {io : NewconnResults}
    (hcore : Core n) (h : n.Served i) (hrun : run nodeStep n fs = some n')
    (hen : (NodeEvent.newconnRead i io).enabled n')
    (hreq : (NodeEvent.newconnRead i io).requests n' ≠ []) :
    ∃ before s a after u v, fs = before ++ .accept s a true :: after ∧
      run nodeStep n before = some u ∧ nodeStep u (.accept s a true) = some v ∧
      (v.slot i).sck = s := by
  have hcause : ∀ s e t, Core s → True → nodeStep s e = some t → ¬t.Served i →
      ¬s.Served i ∨ ∃ v, nodeStep s e = some v ∧ v.OpenedBy i e := by
    intro s e t hs _ hstep ht
    by_cases hserved : s.Served i
    · exact .inr ⟨t, hstep, (nodeStep_served hs hserved hstep).resolve_left ht⟩
    · exact .inl hserved
  have hlate : ¬n'.Served i := by
    simp only [NodeEvent.enabled, decide_eq_true_eq] at hen
    rintro (hfree | hst)
    · exact hen.2 hfree
    · rw [requests_early hreq] at hst
      cases hst
  rcases run_cause (fun s e t hs _ hstep => nodeStep_core hs hstep) hcause hcore meets_true hrun
    hlate with hnot | ⟨before, e, after, u, rfl, hu, v, hv, s, a, rfl, hsck⟩
  · exact absurd h hnot
  · exact ⟨before, s, a, after, u, v, rfl, hu, hv, hsck⟩

end Served

/-! ## Runs -/

theorem socketsOwned_init
    {a : SockAddr} {r : Bool} {now : Nat} {mem : Nat → Bool} {rnd : Nat → UInt8}
    {verify : Ptr → Frame → Bool} {reached : List ClientEvent → Ptr → Bool} :
    SocketsOwned (Node.init a r now mem rnd verify reached) := by
  have hslot : ∀ i, ((Node.init a r now mem rnd verify reached).slot i).sck = -1 := by
    intro i
    simp only [Node.slot, Node.init, List.getD_eq_getElem?_getD, List.getElem?_replicate]
    split_ifs <;> rfl
  refine ⟨?_, fun c hc => (by cases hc), fun c hc => (by cases hc), ?_⟩
  · intro s o o' hs ho
    cases o with
    | client p =>
        obtain ⟨c, hc, -⟩ := ho
        cases hc
    | node p =>
        obtain ⟨m, hm, -⟩ := ho
        cases hm
    | slot i => exact absurd (ho.1.symm.trans (hslot i)) hs
  · exact fun i hocc => absurd (hslot i) hocc

/-- **A new connection is one thing only** in every state of every run in which no two
requests arrive together on a new connection, and the operating system gives out
descriptors that are not in use: a client in state `WAITANONTLSSHUTDOWN` belongs to one
slot, no two records have the same socket, and at most one request is handled for a
connection, until another one is accepted into its slot. -/
theorem new_connection_is_one_thing
    {a : SockAddr} {r : Bool} {now : Nat} {mem : Nat → Bool} {rnd : Nat → UInt8}
    {verify : Ptr → Frame → Bool} {reached : List ClientEvent → Ptr → Bool}
    {es : List NodeEvent} {n : Node}
    (hok : Meets nodeStep (fun n e => e.asksTwice n = false ∧ e.fresh n)
      (Node.init a r now mem rnd verify reached) es)
    (hrun : run nodeStep (Node.init a r now mem rnd verify reached) es = some n) :
    (∀ c ∈ n.clients, c.state = .waitAnonTlsShutdown →
      ∃! i, (n.slot i).sck ≠ -1 ∧ (n.slot i).type = .c2n ∧ (n.slot i).iconn = some c.ptr) ∧
    (∀ c ∈ n.clients, (∀ d ∈ n.clients, c.sckComm = d.sckComm → c = d) ∧
      ∀ m ∈ n.nodelinks, c.sckComm ≠ m.sck) ∧
    ∀ i io m, (NodeEvent.newconnRead i io).asksTwice n = false →
      nodeStep n (.newconnRead i io) = some m →
      ((NodeEvent.newconnRead i io).requests n).length ≤ 1 ∧
        ((NodeEvent.newconnRead i io).requests n ≠ [] →
          ∀ fs n' io', run nodeStep m fs = some n' → (NodeEvent.newconnRead i io').enabled n' →
            (NodeEvent.newconnRead i io').requests n' ≠ [] →
            ∃ before s a after u v, fs = before ++ .accept s a true :: after ∧
              run nodeStep m before = some u ∧ nodeStep u (.accept s a true) = some v ∧
              (v.slot i).sck = s) := by
  have hstep : ∀ s e t, (Core s ∧ SocketsOwned s) → e.asksTwice s = false ∧ e.fresh s →
      nodeStep s e = some t → Core t ∧ SocketsOwned t := fun s e t hs hse hstep =>
    ⟨nodeStep_core hs.1 hstep, nodeStep_socketsOwned hs.1 hs.2 hse.1 hse.2 hstep⟩
  obtain ⟨hcore, howned⟩ := run_invariant hstep ⟨core_init, socketsOwned_init⟩ hok hrun
  refine ⟨?_, ?_, ?_⟩
  · intro c hc hst
    obtain ⟨i, hocc, hty, hptr⟩ := howned.held c hc hst
    exact ⟨i, ⟨hocc, hty, hptr⟩, fun j hj => hcore.held j i _ hj.2.2 hptr⟩
  · intro c hc
    have hclient : n.OwnedBy c.sckComm (.client c.ptr) := ⟨c, hc, rfl, rfl⟩
    refine ⟨fun d hd heq => ?_, fun m hm heq => ?_⟩
    · have hsame := howned.single _ _ (.client d.ptr) (howned.real c hc) hclient
        ⟨d, hd, rfl, heq.symm⟩
      exact hcore.clientsDistinct.eq hc hd (Owner.client.inj hsame)
    · have hsame := howned.single _ _ (.node m.ptr) (howned.real c hc) hclient
        ⟨m, hm, rfl, heq.symm⟩
      cases hsame
  · intro i io m hone hstep
    obtain ⟨hlen, hserved⟩ := request_once hone hstep
    exact ⟨hlen, fun hreq fs n' io' hrun' hen' hreq' =>
      accepted_between (nodeStep_core hcore hstep) (hserved hreq) hrun' hen' hreq'⟩

/-- A connection makes the request of a client. -/
def clientAsked : List NodeEvent :=
  [.accept 10 ⟨7, 8⟩ true, .newconnRead 0 (readBytes (head Proto.INITREQ ++ [0, 5]))]

theorem new_connection_is_one_thing_client :
    ∃ c ∈ (stateAfter freshNode clientAsked).clients, c.state = .waitAnonTlsShutdown ∧
      ∃! i, ((stateAfter freshNode clientAsked).slot i).sck ≠ -1 ∧
        ((stateAfter freshNode clientAsked).slot i).type = .c2n ∧
        ((stateAfter freshNode clientAsked).slot i).iconn = some c.ptr := by
  have hok : Meets nodeStep (fun n e => e.asksTwice n = false ∧ e.fresh n) freshNode
      clientAsked := by decide +kernel
  have hrun := @stateAfter_run freshNode clientAsked (by decide +kernel)
  obtain ⟨c, hc, hst⟩ : ∃ c ∈ (stateAfter freshNode clientAsked).clients,
      c.state = .waitAnonTlsShutdown := by decide +kernel
  exact ⟨c, hc, hst, (new_connection_is_one_thing hok hrun).1 c hc hst⟩

/-- A connection makes the request twice at once. -/
def clientAskedTwice : List NodeEvent :=
  [.accept 10 ⟨7, 8⟩ true,
    .newconnRead 0 (readBytes (head Proto.INITREQ ++ [0, 5] ++ head Proto.INITREQ ++ [0, 5]))]

/-- There are two clients with one socket, and no slot for the first of them. -/
theorem two_clients_on_one_connection :
    Meets nodeStep (fun n e => e.fresh n) freshNode clientAskedTwice ∧
      ∃ n, run nodeStep freshNode clientAskedTwice = some n ∧
        ∃ c ∈ n.clients, ∃ d ∈ n.clients, c.ptr ≠ d.ptr ∧ c.sckComm = d.sckComm ∧
          c.state = .waitAnonTlsShutdown ∧ ∀ i, (n.slot i).iconn ≠ some c.ptr := by
  refine ⟨by decide +kernel, stateAfter freshNode clientAskedTwice,
    stateAfter_run (by decide +kernel), ?_⟩
  obtain ⟨c, hc, d, hd, hne, hsck, hst, hnone⟩ :
      ∃ c ∈ (stateAfter freshNode clientAskedTwice).clients,
        ∃ d ∈ (stateAfter freshNode clientAskedTwice).clients,
          c.ptr ≠ d.ptr ∧ c.sckComm = d.sckComm ∧ c.state = .waitAnonTlsShutdown ∧
            ∀ nc ∈ (stateAfter freshNode clientAskedTwice).newconns, nc.iconn ≠ some c.ptr := by
    decide +kernel
  refine ⟨c, hc, d, hd, hne, hsck, hst, fun i hi => ?_⟩
  by_cases hlt : i < (stateAfter freshNode clientAskedTwice).newconns.length
  · exact hnone _ (slot_mem hlt) hi
  · simp [Node.slot, List.getD_eq_getElem?_getD,
      List.getElem?_eq_none (Nat.le_of_not_lt hlt)] at hi

end PicaPica
