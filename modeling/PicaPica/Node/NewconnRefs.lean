import PicaPica.Node.DerefSafety

/-!
# What the slots of new connections refer to

A slot whose connection is to become a client or the socket of a link holds a
pointer to that client or link.  The pointer is dropped when the slot is closed, but
nothing is done to it when the record is deleted for another reason: the client or
the node at an end of the link is lost, the link expires, or the callee or its node
refuses it late.  `newconnSafe` is the condition that a call does not delete such a
record; under it every slot refers to a record that is there (`newconn_refs_live`).
-/

namespace PicaPica

open Table Machine

/-- The call deletes the link, for its own sake or with one of its ends. -/
def NodeEvent.dooms (n : Node) (l : CCLink) (e : NodeEvent) : Bool :=
  e.deletesLink n l ||
    l.p1.any (e.deletesClient n ·) || l.p2.any (e.deletesClient n ·) ||
    l.callerNode.any (e.deletesNodelink n ·) || l.calleeNode.any (e.deletesNodelink n ·)

/-- No call deletes a record an occupied slot refers to, unless it closes the slot. -/
def newconnSafe (n : Node) (e : NodeEvent) : Prop :=
  e.allocFails n = false ∧
    ∀ nc ∈ n.newconns, nc.sck ≠ -1 →
      (nc.type = .c2c → ∀ l ∈ n.cclinks, nc.iconn = some l.ptr → e.dooms n l = false) ∧
      (nc.type = .c2n → nc.iconn.any (e.deletesClient n ·) = false)

instance (n : Node) (e : NodeEvent) : Decidable (newconnSafe n e) :=
  inferInstanceAs (Decidable (_ ∧ _))

/-- A slot refers to a link or a client that is in its list. -/
def Node.RefersLive (n : Node) (nc : NewConn) : Prop :=
  ∀ p, nc.iconn = some p → (nc.type = .c2c → n.HasLink p) ∧ (nc.type = .c2n → n.HasClient p)

/-- Every slot does. -/
def Node.SlotsLive (n : Node) : Prop :=
  ∀ i, n.RefersLive (n.slot i)

section Frame

variable {n n' : Node}

theorem refersLive_none {nc : NewConn} (h : nc.iconn = none) : n.RefersLive nc := by
  intro p hp
  simp [h] at hp

theorem Node.RefersLive.mono
    {nc : NewConn}
    (h : n.RefersLive nc)
    (hclients : ∀ p, n.HasClient p → n'.HasClient p) (hlinks : ∀ p, n.HasLink p → n'.HasLink p) :
    n'.RefersLive nc :=
  fun p hp => ⟨fun hty => hlinks p ((h p hp).1 hty), fun hty => hclients p ((h p hp).2 hty)⟩

theorem hasClient_of_map
    (h : n'.clients.map Client.ptr = n.clients.map Client.ptr) (p : Ptr) (hp : n.HasClient p) :
    n'.HasClient p := by
  obtain ⟨c, hc, rfl⟩ := hp
  exact mem_of_map_eq h.symm hc

theorem hasLink_of_map
    (h : n'.cclinks.map CCLink.ptr = n.cclinks.map CCLink.ptr) (p : Ptr) (hp : n.HasLink p) :
    n'.HasLink p := by
  obtain ⟨l, hl, rfl⟩ := hp
  exact mem_of_map_eq h.symm hl

/-- The tables grow or keep their addresses, and the slots are as before. -/
theorem Node.SlotsLive.mono
    (h : n.SlotsLive)
    (hclients : ∀ p, n.HasClient p → n'.HasClient p) (hlinks : ∀ p, n.HasLink p → n'.HasLink p)
    (hslots : n'.newconns = n.newconns) :
    n'.SlotsLive := by
  intro i
  have hslot : n'.slot i = n.slot i := by rw [Node.slot, hslots, Node.slot]
  rw [hslot]
  exact (h i).mono hclients hlinks

/-- One slot changes. -/
theorem Node.SlotsLive.setSlot
    {i : Nat} {g : NewConn → NewConn}
    (h : n.SlotsLive) (hg : n.RefersLive (g (n.slot i))) :
    (n.setSlot i g).SlotsLive := by
  intro j
  rw [slot_setSlot]
  split_ifs
  · exact hg.mono (fun _ hp => hp) fun _ hp => hp
  · exact (h j).mono (fun _ hp => hp) fun _ hp => hp

theorem Node.SlotsLive.modifyClient
    {p : Ptr} {g : Client → Client}
    (h : n.SlotsLive) (hg : ∀ c, (g c).ptr = c.ptr) :
    (n.modifyClient p g).SlotsLive :=
  h.mono (hasClient_of_map (map_modify fun c _ _ => hg c)) (fun _ hq => hq) rfl

theorem Node.SlotsLive.modifyLink
    {p : Ptr} {g : CCLink → CCLink}
    (h : n.SlotsLive) (hg : ∀ l ∈ n.cclinks, l.ptr = p → (g l).ptr = l.ptr) :
    (n.modifyLink p g).SlotsLive :=
  h.mono (fun _ hq => hq) (hasLink_of_map (map_modify hg)) rfl

end Frame

/-! ## Deletions -/

section Deletions

variable {n : Node}

/-- A link is deleted to which the slot does not refer. -/
theorem dropLink_refersLive
    {l : CCLink} {nc : NewConn}
    (h : n.RefersLive nc) (hne : nc.type = .c2c → nc.iconn ≠ some l.ptr) :
    (n.dropLink l).RefersLive nc := by
  intro p hp
  refine ⟨fun hty => ?_, (h p hp).2⟩
  obtain ⟨l', hl', hptr⟩ := (h p hp).1 hty
  refine ⟨l', mem_remove.mpr ⟨hl', ?_⟩, hptr⟩
  intro heq
  exact hne hty (by rw [hp, ← hptr, heq])

/-- The clients that remain keep their addresses. -/
theorem dropClient_hasClient
    {c : Client} {p : Ptr}
    (h : Core n) (hc : c ∈ n.clients) (hp : n.HasClient p) (hne : p ≠ c.ptr) :
    (n.dropClient c).HasClient p := by
  obtain ⟨d, hd, rfl⟩ := hp
  have hleft : (n.withoutClient c.ptr).HasClient d.ptr := ⟨d, mem_remove.mpr ⟨hd, hne⟩, rfl⟩
  rcases dropClient_cases h hc with ⟨ms, heq⟩ | ⟨q, ms, -, -, heq⟩
  · rw [heq]
    exact hleft
  · rw [heq]
    refine hasClient_of_map ?_ _ hleft
    exact map_modify fun _ _ _ => rfl

theorem dropClient_cclinks
    {c : Client}
    (h : Core n) (hc : c ∈ n.clients) :
    (n.dropClient c).cclinks =
      n.cclinks.filter fun l => ¬(l.p1 = some c.ptr ∨ l.p2 = some c.ptr) := by
  rcases dropClient_cases h hc with ⟨ms, heq⟩ | ⟨q, ms, -, -, heq⟩
  · rw [heq]
    rfl
  · rw [heq]
    rfl

theorem dropClient_newconns
    {c : Client}
    (h : Core n) (hc : c ∈ n.clients) :
    (n.dropClient c).newconns = n.newconns := by
  rcases dropClient_cases h hc with ⟨ms, heq⟩ | ⟨q, ms, -, -, heq⟩
  · rw [heq]
    rfl
  · rw [heq]
    rfl

/-- A client is deleted to which the slot does not refer, nor to one of its links. -/
theorem dropClient_refersLive
    {c : Client} {nc : NewConn}
    (hcore : Core n) (hc : c ∈ n.clients) (h : n.RefersLive nc)
    (hclient : nc.type = .c2n → nc.iconn ≠ some c.ptr)
    (hlink : nc.type = .c2c → ∀ l ∈ n.cclinks, nc.iconn = some l.ptr →
      l.p1 ≠ some c.ptr ∧ l.p2 ≠ some c.ptr) :
    (n.dropClient c).RefersLive nc := by
  intro p hp
  constructor
  · intro hty
    obtain ⟨l, hl, rfl⟩ := (h p hp).1 hty
    obtain ⟨hp1, hp2⟩ := hlink hty l hl hp
    refine ⟨l, ?_, rfl⟩
    rw [dropClient_cclinks hcore hc]
    simp [hl, hp1, hp2]
  · intro hty
    refine dropClient_hasClient hcore hc ((h p hp).2 hty) ?_
    intro heq
    exact hclient hty (by rw [hp, heq])

/-- A client whose session has not begun is at no end of a link. -/
theorem waiting_not_end
    {c : Client} {l : CCLink}
    (h : Core n) (hc : c ∈ n.clients) (hst : c.state ≠ .connected) (hl : l ∈ n.cclinks) :
    l.p1 ≠ some c.ptr ∧ l.p2 ≠ some c.ptr := by
  have hnot : ∀ id, ¬n.Primary c.ptr id := by
    rintro id ⟨d, hd, hptr, hdst, -⟩
    rw [h.clientsDistinct.eq hd hc hptr] at hdst
    exact hst hdst
  exact ⟨fun hp => hnot _ ((h.ends l hl).p1 _ hp), fun hp => hnot _ ((h.ends l hl).p2 _ hp)⟩

theorem dropNodelink_refersLive
    {nl : NodeLink} {nc : NewConn}
    (h : n.RefersLive nc)
    (hlink : nc.type = .c2c → ∀ l ∈ n.cclinks, nc.iconn = some l.ptr →
      l.callerNode ≠ some nl.ptr ∧ l.calleeNode ≠ some nl.ptr) :
    (n.dropNodelink nl).RefersLive nc := by
  intro p hp
  refine ⟨fun hty => ?_, (h p hp).2⟩
  obtain ⟨l, hl, rfl⟩ := (h p hp).1 hty
  obtain ⟨hcaller, hcallee⟩ := hlink hty l hl hp
  exact ⟨l, List.mem_filter.mpr ⟨hl, by simp [hcaller, hcallee]⟩, rfl⟩

/-- A slot is closed, and with it what it refers to. -/
theorem Node.SlotsLive.close
    {i : Nat} {g : NewConn → NewConn} {n' : Node}
    (h : n.SlotsLive) (hcore : Core n) (hg : ∀ nc, (g nc).iconn = nc.iconn)
    (hclose : (n.setSlot i g).newconnClose i = .ok n') :
    n'.SlotsLive := by
  obtain ⟨k, hk, rfl⟩ := newconnClose_ok hclose
  -- it is enough that the other slots keep what they refer to
  have closed : ∀ m : Node, m.newconns = n.newconns → k = m.setSlot i g →
      (∀ j, j ≠ i → m.RefersLive (n.slot j)) →
      (k.setSlot i fun nc =>
        { nc with sck := -1, buf := [], iconn := none, type := .unknown }).SlotsLive := by
    rintro m hm rfl hothers j
    rw [setSlot_setSlot, slot_setSlot]
    split_ifs with hj
    · exact refersLive_none rfl
    · have hslot : m.slot j = n.slot j := by rw [Node.slot, hm, Node.slot]
      rw [hslot]
      by_cases hji : j = i
      · have hnone : (n.slot j).iconn = none := by
          refine (hcore.slots j).idle (.inl ?_)
          by_contra hocc
          exact hj ⟨hji, hm ▸ lt_of_slot (hji ▸ hocc)⟩
        exact refersLive_none hnone
      · exact (hothers j hji).mono (fun _ hp => hp) fun _ hp => hp
  have hiconn : ∀ p, ((n.setSlot i g).slot i).iconn = some p → (n.slot i).iconn = some p := by
    intro p hp
    rw [slot_setSlot] at hp
    split_ifs at hp
    · rwa [hg] at hp
    · exact hp
  rcases hk with ⟨-, rfl⟩ | ⟨c, hc, hi, -, rfl⟩ | ⟨l, hl, hi, -, rfl⟩
  · exact closed n rfl rfl fun j _ => h j
  · refine closed ((n.dropClient c).logged (.delete c.ptr)) (dropClient_newconns hcore hc)
      dropClient_logged_setSlot fun j hj => ?_
    have hwait := (hcore.slots i).client _ (hiconn _ hi) c hc rfl
    refine dropClient_refersLive hcore hc (h j) (fun _ hj' => ?_) fun _ l hl _ => ?_
    · exact hj (hcore.held j i _ hj' (hiconn _ hi))
    · exact waiting_not_end hcore hc (by simp [hwait]) hl
  · refine closed (n.dropLink l) rfl dropLink_setSlot fun j hj => ?_
    refine dropLink_refersLive (h j) fun _ hj' => ?_
    exact hj (hcore.held j i _ hj' (hiconn _ hi))

end Deletions

/-! ## During a call -/

/-- What holds between the changes of the call for `e` that was begun on `n₀`.  A call
that is not for the new connections leaves the slots and the links that wait for
them as they are. -/
structure LiveDuring (n₀ : Node) (e : NodeEvent) (n : Node) : Prop where
  core : Core n
  live : n.SlotsLive
  slots : e.onNewconn = false → n.newconns = n₀.newconns
  waiting : e.onNewconn = false → ∀ l ∈ n.cclinks, l.state.anon →
    ∃ l₀ ∈ n₀.cclinks, l₀.core = l.core

section During

variable {n₀ n : Node} {e : NodeEvent}

theorem deletesClient_not_newconn {p : Ptr} (h : e.deletesClient n₀ p) : e.onNewconn = false := by
  cases e <;> simp_all [NodeEvent.deletesClient, NodeEvent.onNewconn]

theorem deletesNodelink_not_newconn
    {p : Ptr}
    (h : e.deletesNodelink n₀ p) :
    e.onNewconn = false := by
  cases e <;> simp_all [NodeEvent.deletesNodelink, NodeEvent.onNewconn]

theorem dooms_false
    {l : CCLink}
    (h : e.dooms n₀ l = false) :
    e.deletesLink n₀ l = false ∧
      (∀ p, e.deletesClient n₀ p → l.p1 ≠ some p ∧ l.p2 ≠ some p) ∧
      ∀ p, e.deletesNodelink n₀ p → l.callerNode ≠ some p ∧ l.calleeNode ≠ some p := by
  simp only [NodeEvent.dooms, Bool.or_eq_false_iff] at h
  obtain ⟨⟨⟨⟨hlink, hp1⟩, hp2⟩, hcaller⟩, hcallee⟩ := h
  have hany : ∀ {o : Option Ptr} {q : Ptr → Bool} {p : Ptr}, o.any q = false → q p → o ≠ some p := by
    rintro o q p hf hq rfl
    simp [hq] at hf
  exact ⟨hlink, fun p hp => ⟨hany hp1 hp, hany hp2 hp⟩, fun p hp => ⟨hany hcaller hp, hany hcallee hp⟩⟩

theorem slot_mem {i : Nat} (hi : i < n.newconns.length) : n.slot i ∈ n.newconns := by
  simp [Node.slot, List.getD_eq_getElem?_getD, List.getElem?_eq_getElem hi]

/-- What the condition says of a slot during the call. -/
theorem LiveDuring.spared
    (h : LiveDuring n₀ e n) (hsafe : newconnSafe n₀ e) (he : e.onNewconn = false) (i : Nat) :
    ((n.slot i).type = .c2c → ∀ l ∈ n.cclinks, (n.slot i).iconn = some l.ptr →
      ∃ l₀ ∈ n₀.cclinks, l₀.core = l.core ∧ e.dooms n₀ l₀ = false) ∧
    ((n.slot i).type = .c2n → ∀ p, (n.slot i).iconn = some p →
      e.deletesClient n₀ p = false) := by
  by_cases hocc : (n.slot i).sck = -1
  · have hnone := (h.core.slots i).idle (.inl hocc)
    simp [hnone]
  · have hmem : n.slot i ∈ n₀.newconns := h.slots he ▸ slot_mem (lt_of_slot hocc)
    obtain ⟨hc2c, hc2n⟩ := hsafe.2 _ hmem hocc
    refine ⟨fun hty l hl hi => ?_, fun hty p hp => by simpa [hp] using hc2n hty⟩
    have hanon := (h.core.slots i).link _ hi l hl rfl
    obtain ⟨l₀, hl₀, hcore⟩ := h.waiting he l hl hanon
    refine ⟨l₀, hl₀, hcore, hc2c hty l₀ hl₀ ?_⟩
    simp only [CCLink.core, Prod.mk.injEq] at hcore
    rw [hcore.1]
    exact hi

/-- A change that touches neither slots nor links. -/
theorem LiveDuring.quiet
    {n' : Node}
    (h : LiveDuring n₀ e n) (hcore : Core n')
    (hclients : ∀ p, n.HasClient p → n'.HasClient p)
    (hlinks : n'.cclinks = n.cclinks) (hslots : n'.newconns = n.newconns) :
    LiveDuring n₀ e n' := by
  refine ⟨hcore, h.live.mono hclients (fun p hp => ?_) hslots, fun he => ?_, fun he => ?_⟩
  · rwa [Node.HasLink, hlinks]
  · rw [hslots, h.slots he]
  · rw [hlinks]
    exact h.waiting he

/-- A change of one link that leaves links which wait for a slot alone. -/
theorem LiveDuring.link
    {p : Ptr} {g : CCLink → CCLink}
    (h : LiveDuring n₀ e n) (hcore : Core (n.modifyLink p g))
    (hptr : ∀ l ∈ n.cclinks, l.ptr = p → (g l).ptr = l.ptr)
    (hanon : ∀ l ∈ n.cclinks, l.ptr = p → (g l).state.anon → (g l).core = l.core) :
    LiveDuring n₀ e (n.modifyLink p g) := by
  refine ⟨hcore, h.live.modifyLink hptr, h.slots, fun he l' hl' hst => ?_⟩
  obtain ⟨l, hl, rfl⟩ := mem_modify.mp hl'
  split_ifs at hst ⊢ with hp
  · have hsame := hanon l hl hp hst
    have hst' : l.state.anon := by
      simp only [CCLink.core, Prod.mk.injEq] at hsame
      rwa [hsame.2.1] at hst
    obtain ⟨l₀, hl₀, heq⟩ := h.waiting he l hl hst'
    exact ⟨l₀, hl₀, heq.trans hsame.symm⟩
  · exact h.waiting he l hl hst

/-- A change for which the calls for new connections are responsible. -/
theorem LiveDuring.newconn
    {n' : Node}
    (he : e.onNewconn) (hcore : Core n') (hlive : n'.SlotsLive) :
    LiveDuring n₀ e n' :=
  ⟨hcore, hlive, fun hf => by simp [he] at hf, fun hf => by simp [he] at hf⟩

/-- Links are deleted, and no slot referred to them. -/
theorem LiveDuring.fewer
    {n' : Node}
    (h : LiveDuring n₀ e n) (hcore : Core n') (hsub : ∀ l ∈ n'.cclinks, l ∈ n.cclinks)
    (hslots : n'.newconns = n.newconns) (hlive : ∀ i, n'.RefersLive (n.slot i)) :
    LiveDuring n₀ e n' := by
  refine ⟨hcore, fun i => ?_, fun he => ?_, fun he l hl => ?_⟩
  · have hslot : n'.slot i = n.slot i := by rw [Node.slot, hslots, Node.slot]
    rw [hslot]
    exact hlive i
  · rw [hslots, h.slots he]
  · exact h.waiting he l (hsub l hl)

theorem active_of_anon {l : CCLink} (h : l.state.anon) : ¬l.state.active := by
  cases hst : l.state <;> simp_all [CcState.anon, CcState.active]

theorem core_setwaitconn_anon
    {l : CCLink}
    (h : l.setwaitconn.state.anon) :
    l.setwaitconn.core = l.core := by
  cases hst : l.state <;> simp_all [CCLink.setwaitconn, CcState.anon]

theorem core_attachRemotecleNode_anon
    {l : CCLink} {nl : Ptr}
    (h : (l.attachRemotecleNode nl).state.anon) :
    (l.attachRemotecleNode nl).core = l.core := by
  rw [CCLink.attachRemotecleNode] at h ⊢
  split_ifs at h ⊢
  · cases h
  · rfl

/-- **Every change keeps the slots' pointers valid**, if the call is safe. -/
theorem LiveDuring.act
    {n' : Node}
    (hstart : Core n₀) (hsafe : newconnSafe n₀ e)
    (h : LiveDuring n₀ e n) (hact : Act n₀ e n n') :
    LiveDuring n₀ e n' := by
  have hcore : Core n' := hact.core h.core
  cases hact with
  | asked => exact h.quiet hcore (fun _ hp => hp) rfl rfl
  | clock t => exact h.quiet hcore (fun _ hp => hp) rfl rfl
  | tickClient p t b =>
      exact h.quiet hcore (hasClient_of_map (map_modify fun _ _ _ => rfl)) rfl rfl
  | push p f hf hlong =>
      exact h.quiet hcore (hasClient_of_map (map_modify fun _ _ _ => rfl)) rfl rfl
  | nodelink p g hg => exact h.quiet hcore (fun _ hp => hp) rfl rfl
  | login c id hc hst hid hno hmiss =>
      exact h.quiet hcore (hasClient_of_map (map_modify fun _ _ _ => rfl)) rfl rfl
  | loginMulti c s id hc hst hid hs =>
      exact h.quiet hcore (hasClient_of_map (map_modify fun _ _ _ => rfl)) rfl rfl
  | deleteClient c call hc hdel hleave =>
      have he := deletesClient_not_newconn hdel
      refine h.fewer hcore ?_ (dropClient_newconns h.core hc) fun i => ?_
      · intro l hl
        change l ∈ (n.dropClient c).cclinks at hl
        rw [dropClient_cclinks h.core hc] at hl
        exact (List.mem_filter.mp hl).1
      · obtain ⟨hc2c, hc2n⟩ := h.spared hsafe he i
        refine dropClient_refersLive h.core hc (h.live i) ?_ ?_
        · intro hty hi
          simp [hc2n hty _ hi] at hdel
        · intro hty l hl hi
          obtain ⟨l₀, -, heq, hspared⟩ := hc2c hty l hl hi
          simp only [CCLink.core, Prod.mk.injEq] at heq
          rw [← heq.2.2.1, ← heq.2.2.2.1]
          exact (dooms_false hspared).2.1 _ hdel
  | addNodelink nl a hptr he hold => exact h.quiet hcore (fun _ hp => hp) rfl rfl
  | deleteNodelink nl hnl hdel =>
      have he := deletesNodelink_not_newconn hdel
      refine h.fewer hcore (fun l hl => (List.mem_filter.mp hl).1) rfl fun i => ?_
      refine dropNodelink_refersLive (h.live i) ?_
      intro hty l hl hi
      obtain ⟨l₀, -, heq, hspared⟩ := (h.spared hsafe he i).1 hty l hl hi
      simp only [CCLink.core, Prod.mk.injEq] at heq
      rw [← heq.2.2.2.2.2.2.1, ← heq.2.2.2.2.2.2.2]
      exact (dooms_false hspared).2.2 _ hdel
  | addLink l hl hask =>
      refine ⟨hcore, h.live.mono (fun _ hp => hp) ?_ rfl, h.slots, ?_⟩
      · rintro p ⟨l', hl', hp⟩
        exact ⟨l', List.mem_append_left _ hl', hp⟩
      · intro he l' hl' hst
        rcases List.mem_append.mp hl' with hl' | hl'
        · exact h.waiting he l' hl' hst
        · obtain rfl := List.mem_singleton.mp hl'
          cases hl <;> cases hst
  | attach l nl f he hk hlinked hs =>
      exact h.link hcore (fun l _ _ => endpoints_attachRemotecleNode.ptr)
        fun l _ _ hst => core_attachRemotecleNode_anon hst
  | allow l ci id f he hk hp hs hst =>
      exact h.link hcore (fun l _ _ => endpoints_setwaitconn.ptr)
        fun l _ _ hst => core_setwaitconn_anon hst
  | n2nallow l nl f he hk hs hp1 hm =>
      exact h.link hcore (fun l _ _ => endpoints_setwaitconn.ptr)
        fun l _ _ hst => core_setwaitconn_anon hst
  | relay l l' hl hst heq hidle hby =>
      have hsame : ∀ x ∈ n.cclinks, x.ptr = l.ptr → l'.core = x.core := by
        intro x hx hp
        rw [h.core.linksDistinct.eq hx hl hp]
        exact heq
      refine h.link hcore (fun x hx hp => ?_) fun x hx hp _ => hsame x hx hp
      have := hsame x hx hp
      simp only [CCLink.core, Prod.mk.injEq] at this
      exact this.1
  | deleteLink l hl hdel he =>
      have he' : e.onNewconn = false := by simpa using he
      refine h.fewer hcore (fun l hl => (mem_remove.mp hl).1) rfl fun i => ?_
      refine dropLink_refersLive (h.live i) ?_
      intro hty hi
      rcases hdel with hact | ⟨hl₀, hdel⟩
      · have hanon := (h.core.slots i).link _ hi l hl rfl
        exact absurd hact (active_of_anon hanon)
      · obtain ⟨l₀, hmem, heq, hspared⟩ := (h.spared hsafe he' i).1 hty l hl hi
        simp only [CCLink.core, Prod.mk.injEq] at heq
        obtain rfl := hstart.linksDistinct.eq hmem hl₀ heq.1
        simp [(dooms_false hspared).1] at hdel
  | takeSlot i he hfree =>
      have hset : (n.setSlot i fun nc => { nc with sck := -1, buf := [], tmst := n.now }).SlotsLive :=
        h.live.setSlot (refersLive_none ((h.core.slots i).idle (.inl hfree)))
      exact .newconn he hcore (hset.mono (fun _ hp => hp) (fun _ hp => hp) rfl)
  | openSlot i s a he hs hfree hold =>
      subst he
      exact .newconn rfl hcore
        (h.live.setSlot (refersLive_none ((h.core.slots i).idle (.inl hfree))))
  | greeted i he hst => exact .newconn he hcore (h.live.setSlot (h.live i))
  | fillSlot i b he => exact .newconn he hcore (h.live.setSlot (h.live i))
  | answered i he hst => exact .newconn he hcore (h.live.setSlot (h.live i))
  | initreq i he hocc hone =>
      have hadd : (n.addClient (n.newClient i)).SlotsLive := by
        refine h.live.mono ?_ (fun _ hp => hp) rfl
        rintro p ⟨c, hc, hp⟩
        exact ⟨c, List.mem_append_left _ hc, hp⟩
      refine .newconn he hcore (hadd.setSlot ?_)
      rintro p hp
      cases hp
      exact ⟨(by rintro ⟨⟩), fun _ => ⟨n.newClient i, by simp [Node.addClient], rfl⟩⟩
  | request i t st he hocc href hone ht =>
      refine .newconn he hcore (h.live.setSlot ?_)
      rcases href with hnone | ⟨-, c, hc, hi⟩
      · exact refersLive_none hnone
      · intro p hp
        cases hi.symm.trans hp
        refine ⟨fun hty => ?_, fun _ => ⟨c, hc, rfl⟩⟩
        rcases ht with ⟨rfl, -⟩ | ⟨rfl, -⟩
        · cases hty
        · cases hty
  | connid i l f c he hocc hnone hs haw hc haddr hbrings hid hsame =>
      have hlink : (n.modifyLink l.ptr fun l => l.setwaitanontlsshutdown (n.slot i).sck).SlotsLive :=
        h.live.modifyLink fun _ _ _ => endpoints_setwaitanontlsshutdown.ptr
      refine .newconn he hcore (hlink.setSlot ?_)
      rintro p hp
      cases hp
      refine ⟨fun _ => ?_, (by rintro ⟨⟩)⟩
      refine hasLink_of_map ?_ _ ⟨l, (cclinkListSearch_spec hs).1, rfl⟩
      exact map_modify fun _ _ _ => endpoints_setwaitanontlsshutdown.ptr
  | connidLost i l he hfail hocc hnone hl haw =>
      exact absurd hfail (by simp [hsafe.1])
  | close i g n' he hg htype hclose => exact .newconn he hcore (h.live.close h.core hg hclose)
  | clientReady i c he hi hty hc =>
      have hclient : (n.modifyClient c.ptr fun c => { c with state := .tlsNegotiation }).SlotsLive :=
        h.live.modifyClient fun _ => rfl
      exact .newconn he hcore (hclient.setSlot (refersLive_none rfl))
  | linkReady i l he hi hty hl hwait hdone hlinks hslots =>
      have hlink : (n.modifyLink l.ptr CCLink.activate).SlotsLive :=
        h.live.modifyLink fun _ _ _ => endpoints_activate.ptr
      exact .newconn he hcore (hlink.setSlot (refersLive_none rfl))
  | nodeReady i nl he hty hptr hsck =>
      have hadd : (n.addNodelink nl).SlotsLive :=
        h.live.mono (fun _ hp => hp) (fun _ hp => hp) rfl
      exact .newconn he hcore (hadd.setSlot (refersLive_none rfl))

theorem nodeStep_live
    {n n' : Node} {e : NodeEvent}
    (hcore : Core n) (hlive : n.SlotsLive) (hsafe : newconnSafe n e)
    (hstep : nodeStep n e = some n') :
    n'.SlotsLive := by
  have hbegin : LiveDuring n e n :=
    ⟨hcore, hlive, fun _ => rfl, fun _ l hl _ => ⟨l, hl, rfl⟩⟩
  exact (changes_invariant (fun _ _ hm hact => hm.act hcore hsafe hact) hbegin
    (nodeStep_acts hcore hstep)).live

end During

/-! ## All runs -/

theorem slotsLive_init
    {a : SockAddr} {r : Bool} {now : Nat} {mem : Nat → Bool} {rnd : Nat → UInt8}
    {verify : Ptr → Frame → Bool} {reached : List ClientEvent → Ptr → Bool} :
    (Node.init a r now mem rnd verify reached).SlotsLive := by
  intro i
  refine refersLive_none ?_
  simp only [Node.slot, Node.init, List.getD_eq_getElem?_getD, List.getElem?_replicate]
  split_ifs <;> rfl

/-- What an occupied slot refers to is still in its list. -/
def Node.PendingLive (n : Node) : Prop :=
  ∀ nc ∈ n.newconns, nc.sck ≠ -1 →
    (nc.type = .c2c → ∀ p, nc.iconn = some p → ∃ l ∈ n.cclinks, l.ptr = p) ∧
    (nc.type = .c2n → ∀ p, nc.iconn = some p → ∃ c ∈ n.clients, c.ptr = p)

theorem Node.SlotsLive.pending {n : Node} (h : n.SlotsLive) : n.PendingLive := by
  intro nc hnc _
  obtain ⟨i, hi, rfl⟩ := List.mem_iff_getElem.mp hnc
  have hlive := h i
  rw [Node.slot, List.getD_eq_getElem?_getD, List.getElem?_eq_getElem hi] at hlive
  exact ⟨fun hty p hp => (hlive p hp).1 hty, fun hty p hp => (hlive p hp).2 hty⟩

theorem Node.PendingLive.slots {n : Node} (h : n.PendingLive) (hcore : Core n) : n.SlotsLive := by
  intro i p hp
  by_cases hocc : (n.slot i).sck = -1
  · rw [(hcore.slots i).idle (.inl hocc)] at hp
    cases hp
  · obtain ⟨hc2c, hc2n⟩ := h _ (slot_mem (lt_of_slot hocc)) hocc
    exact ⟨fun hty => hc2c hty p hp, fun hty => hc2n hty p hp⟩

section Start

variable {a : SockAddr} {r : Bool} {now : Nat} {mem : Nat → Bool} {rnd : Nat → UInt8}
  {verify : Ptr → Frame → Bool} {reached : List ClientEvent → Ptr → Bool} {es : List NodeEvent}
  {n : Node}

theorem slotsLive_of_run
    (hsafe : Meets nodeStep newconnSafe (Node.init a r now mem rnd verify reached) es)
    (hrun : run nodeStep (Node.init a r now mem rnd verify reached) es = some n) :
    n.SlotsLive := by
  have hstep : ∀ s e t, (Core s ∧ s.SlotsLive) → newconnSafe s e → nodeStep s e = some t →
      (Core t ∧ t.SlotsLive) := fun s e t hs hok hstep =>
    ⟨nodeStep_core hs.1 hstep, nodeStep_live hs.1 hs.2 hok hstep⟩
  exact (run_invariant hstep ⟨core_init, slotsLive_init⟩ hsafe hrun).2

/-- **A pending connection refers to a record that is there**, in every state of every
run in which no call deletes a record that a slot refers to without closing the slot. -/
theorem newconn_refs_live
    (hsafe : Meets nodeStep newconnSafe (Node.init a r now mem rnd verify reached) es)
    (hrun : run nodeStep (Node.init a r now mem rnd verify reached) es = some n) :
    n.PendingLive :=
  (slotsLive_of_run hsafe hrun).pending

end Start

/-! ## A link that dies while its socket is being set up -/

/-- A read in which the record `b` arrives. -/
def readBytes (b : List UInt8) : NewconnResults := ⟨.done, b, false, .retry, .done⟩

/-- A call in which the close of the anonymous session is completed. -/
def shutdownDone : NewconnResults := ⟨.done, [], false, .done, .done⟩

/-- A client connects to slot `i`, becomes client `p` and proves that it is `id`. -/
def clientLogin (s : Int) (i : Nat) (p : Ptr) (id : Id) : List NodeEvent :=
  [.accept s ⟨7, 8⟩ true, .newconnRead i (readBytes (head Proto.INITREQ ++ [0, 5])),
    .newconnRead i shutdownDone, .c2nConnected p (some id)]

/-- Clients 1 and 2 log in, and 1 calls 2: the link is record 3. -/
def callRequested : List NodeEvent :=
  clientLogin 10 0 1 (Id.ofByte 1) ++ clientLogin 11 1 2 (Id.ofByte 2) ++
    [.c2nFrame 1 (head Proto.CONNREQOUTG ++ (Id.ofByte 2).1)]

/-- Client 2 allows the call. -/
def callAllowed : List NodeEvent :=
  callRequested ++ [.c2nFrame 2 (head Proto.CONNALLOW ++ (Id.ofByte 1).1)]

/-- The callee has sent its `CONNID`, and its slot waits for the end of the session. -/
def calleeArrived : List NodeEvent :=
  callAllowed ++ [.accept 12 ⟨7, 8⟩ true,
    .newconnRead 2 (readBytes (head Proto.CONNID ++ (Id.ofByte 1).1 ++ (Id.ofByte 2).1))]

theorem newconn_refs_live_arrived :
    ((stateAfter freshNode calleeArrived).slot 2).iconn = some 3 ∧
      (stateAfter freshNode calleeArrived).PendingLive := by
  have hsafe : Meets nodeStep newconnSafe freshNode calleeArrived := by decide +kernel
  have hrun := @stateAfter_run freshNode calleeArrived (by decide +kernel)
  exact ⟨by decide +kernel, newconn_refs_live hsafe hrun⟩

/-- The caller logs out meanwhile: the slot keeps the address of the deleted link. -/
theorem newconn_refs_freed_link :
    ∃ n, Reachable n ∧ ¬n.PendingLive := by
  refine ⟨stateAfter freshNode (calleeArrived ++ [.c2nClosed 1]),
    stateAfter_reachable (by decide +kernel), fun hlive => ?_⟩
  obtain ⟨nc, hnc, hocc, hty, hi, hgone⟩ :
      ∃ nc ∈ (stateAfter freshNode (calleeArrived ++ [.c2nClosed 1])).newconns,
        nc.sck ≠ -1 ∧ nc.type = .c2c ∧ nc.iconn = some 3 ∧
        ∀ l ∈ (stateAfter freshNode (calleeArrived ++ [.c2nClosed 1])).cclinks, l.ptr ≠ 3 := by
    decide +kernel
  obtain ⟨l, hl, hptr⟩ := (hlive nc hnc hocc).1 hty 3 hi
  exact hgone l hl hptr

end PicaPica
