import PicaPica.Node.NodeList
import PicaPica.Node.NewconnRefs

/-!
# Addresses of linked nodes

A linked node tells its address by a `NEWNODE`, whose address `procmsg_NEWNODE` checks, or
by a list of nodes, whose first item `procmsg_NODELIST` takes as it is.  The answers to
later requests advertise these addresses.
-/

namespace PicaPica

open Table Machine

/-! ## One call -/

/-- An address that the link has while `e` is handled: it had it before, or `e` announces
it. -/
structure NodeLink.Traced (n₀ : Node) (e : NodeEvent) (m : NodeLink) : Prop where
  traced : ∀ a, m.nodeAddr = some a →
    (∃ m₀ ∈ n₀.nodelinks, m₀.ptr = m.ptr ∧ m₀.nodeAddr = some a ∧ m.addrType = m₀.addrType) ∨
      e.announced n₀ = some (m.ptr, a) ∧ m.addrType = Proto.NEWNODE_IPV4

/-- What holds of the addresses while `e` is handled that was begun on `n₀`. -/
structure AddrsDuring (n₀ : Node) (e : NodeEvent) (n : Node) : Prop where
  myAddr : n.myAddr = n₀.myAddr
  strict : n.disableReservedAddrs = n₀.disableReservedAddrs
  links : ∀ m ∈ n.nodelinks, m.Traced n₀ e

section During

variable {n₀ n n' : Node} {e : NodeEvent}

theorem AddrsDuring.refl : AddrsDuring n e n :=
  ⟨rfl, rfl, fun m hm => ⟨fun _ ha => .inl ⟨m, hm, rfl, ha, rfl⟩⟩⟩

/-- No link is new. -/
theorem AddrsDuring.fewer
    (h : AddrsDuring n₀ e n)
    (hlinks : ∀ m ∈ n'.nodelinks, m ∈ n.nodelinks)
    (hmy : n'.myAddr = n.myAddr) (hstrict : n'.disableReservedAddrs = n.disableReservedAddrs) :
    AddrsDuring n₀ e n' :=
  ⟨hmy.trans h.myAddr, hstrict.trans h.strict, fun m hm => h.links m (hlinks m hm)⟩

/-- A new link has no address. -/
theorem AddrsDuring.addNodelink
    {nl : NodeLink}
    (h : AddrsDuring n₀ e n) (hnone : nl.nodeAddr = none) :
    AddrsDuring n₀ e (n.addNodelink nl) := by
  refine ⟨h.myAddr, h.strict, fun m hm => ?_⟩
  have hcases : m ∈ n.nodelinks ∨ m = nl := by simpa [Node.addNodelink] using hm
  rcases hcases with hm | rfl
  · exact h.links m hm
  · constructor
    intro a ha
    rw [hnone] at ha
    cases ha

theorem AddrsDuring.modifyNodelink
    {p : Ptr} {g : NodeLink → NodeLink}
    (h : AddrsDuring n₀ e n) (hptr : ∀ nl, (g nl).ptr = nl.ptr)
    (haddr : ∀ nl : NodeLink, nl.Readdressed n₀ e p (g nl)) :
    AddrsDuring n₀ e (n.modifyNodelink p g) := by
  refine ⟨h.myAddr, h.strict, fun m' hm' => ?_⟩
  obtain ⟨m, hm, rfl⟩ := mem_modify.mp hm'
  split_ifs with hp
  · constructor
    intro a ha
    rw [hptr]
    rcases haddr m a ha with ⟨hold, htype⟩ | ⟨hnew, htype⟩
    · rw [htype]
      exact (h.links m hm).traced a hold
    · rw [hp]
      exact .inr ⟨hnew, htype⟩
  · exact h.links m hm

theorem dropClient_config
    {c : Client} :
    (n.dropClient c).nodelinks = n.nodelinks ∧ (n.dropClient c).myAddr = n.myAddr ∧
      (n.dropClient c).disableReservedAddrs = n.disableReservedAddrs := by
  rw [Node.dropClient, Node.clientTreeForget]
  cases n.clientTreeSearch c.id with
  | none => exact ⟨rfl, rfl, rfl⟩
  | some s =>
      dsimp only
      split_ifs
      · cases n.nextMulti c.id with
        | nil => exact ⟨rfl, rfl, rfl⟩
        | cons q qs => exact ⟨rfl, rfl, rfl⟩
      · exact ⟨rfl, rfl, rfl⟩

theorem AddrsDuring.dropClient
    {c : Client} {call : ClientEvent}
    (h : AddrsDuring n₀ e n) :
    AddrsDuring n₀ e ((n.dropClient c).logged call) := by
  obtain ⟨hlinks, hmy, hstrict⟩ := @dropClient_config n c
  have hdropped : AddrsDuring n₀ e (n.dropClient c) :=
    h.fewer (fun m hm => hlinks ▸ hm) hmy hstrict
  exact hdropped.fewer (fun _ hm => hm) rfl rfl

theorem AddrsDuring.close
    {i : Nat} {g : NewConn → NewConn}
    (h : AddrsDuring n₀ e n) (hclose : (n.setSlot i g).newconnClose i = .ok n') :
    AddrsDuring n₀ e n' := by
  obtain ⟨k, hk, rfl⟩ := newconnClose_ok hclose
  have hslot : AddrsDuring n₀ e (n.setSlot i g) := h.fewer (fun _ hm => hm) rfl rfl
  have hkept : AddrsDuring n₀ e k := by
    rcases hk with ⟨-, rfl⟩ | ⟨c, -, -, -, rfl⟩ | ⟨l, -, -, -, rfl⟩
    · exact hslot
    · exact hslot.dropClient
    · exact hslot.fewer (fun _ hm => hm) rfl rfl
  exact hkept.fewer (fun _ hm => hm) rfl rfl

/-- **Step lemma.** -/
theorem AddrsDuring.act
    (h : AddrsDuring n₀ e n) (hact : Act n₀ e n n') :
    AddrsDuring n₀ e n' := by
  have same : ∀ m : Node, m.nodelinks = n.nodelinks → m.myAddr = n.myAddr →
      m.disableReservedAddrs = n.disableReservedAddrs → AddrsDuring n₀ e m :=
    fun m hlinks hmy hstrict => h.fewer (fun _ hm => hlinks ▸ hm) hmy hstrict
  cases hact with
  | asked => exact same _ rfl rfl rfl
  | clock t => exact same _ rfl rfl rfl
  | tickClient p t b => exact same _ rfl rfl rfl
  | push p f hf hlong => exact same _ rfl rfl rfl
  | nodelink p g hg haddr => exact h.modifyNodelink (fun nl => (hg nl).1) haddr
  | login c id hc hst hid hno hmiss => exact same _ rfl rfl rfl
  | loginMulti c s id hc hst hid hs => exact same _ rfl rfl rfl
  | deleteClient c call hc hdel hleave => exact h.dropClient
  | addNodelink nl a hptr he hold hnone => exact h.addNodelink hnone
  | deleteNodelink nl hnl hdel => exact h.fewer (fun m hm => (mem_remove.mp hm).1) rfl rfl
  | addLink l hl hask => exact same _ rfl rfl rfl
  | attach l nl f he hk hlinked hs => exact same _ rfl rfl rfl
  | allow l ci id f he hk hp hs hst => exact same _ rfl rfl rfl
  | n2nallow l nl f he hk hs hp1 hm => exact same _ rfl rfl rfl
  | relay l l' hl hst heq hidle hby => exact same _ rfl rfl rfl
  | deleteLink l hl hdel he => exact same _ rfl rfl rfl
  | takeSlot i he hfree => exact same _ rfl rfl rfl
  | openSlot i s a he hs hfree hold => exact same _ rfl rfl rfl
  | greeted i he hst => exact same _ rfl rfl rfl
  | fillSlot i b he => exact same _ rfl rfl rfl
  | answered i he hst => exact same _ rfl rfl rfl
  | initreq i he hocc hone => exact same _ rfl rfl rfl
  | request i t st he hocc hty hone ht => exact same _ rfl rfl rfl
  | connid i l f c he hocc hnone hs haw hc haddr hbrings hid hsame => exact same _ rfl rfl rfl
  | connidLost i l he hfail hocc hnone hl haw => exact same _ rfl rfl rfl
  | close i g n' he hg htype hclose => exact h.close hclose
  | clientReady i c he hi hty hc => exact same _ rfl rfl rfl
  | linkReady i l he hi hty hl hwait hdone hlinks hslots => exact same _ rfl rfl rfl
  | nodeReady i nl he hty hptr hsck hnone =>
      exact (h.addNodelink hnone).fewer (fun _ hm => hm) rfl rfl

end During

/-! ## All runs -/

/-- The address may become that of the link at `p`: it is not reserved, not the own one, and
no other link has it. -/
def Node.admits (n : Node) (p : Ptr) (a : SockAddr) : Bool :=
  !isReservedAddrIpv4 a.addr && a ≠ n.myAddr &&
    n.nodelinks.all fun m => m.ptr = p || m.nodeAddr ≠ some a

/-- The first item of a `NODELIST` is an address that the link may have, and the address of
a `NEWNODE` is not the own one. -/
def addressSafe (n : Node) (e : NodeEvent) : Prop :=
  match e with
  | .n2nFrame nl f =>
      (byteAt f 0 = Proto.NODELIST → 4 < f.length → n.mem n.tick → n.admits nl (addrAt f 5)) ∧
        (byteAt f 0 = Proto.NEWNODE_IPV4 → e.announced n ≠ some (nl, n.myAddr))
  | _ => True

instance (n : Node) (e : NodeEvent) : Decidable (addressSafe n e) := by
  unfold addressSafe
  split <;> infer_instance

/-- The addresses of the links have passed all checks. -/
structure Node.Vetted (n : Node) : Prop where
  strict : n.disableReservedAddrs
  typed : ∀ m ∈ n.nodelinks, m.nodeAddr ≠ none → m.addrType = Proto.NEWNODE_IPV4
  reserved : ∀ m ∈ n.nodelinks, ∀ a, m.nodeAddr = some a → isReservedAddrIpv4 a.addr = false
  foreign : ∀ m ∈ n.nodelinks, m.nodeAddr ≠ some n.myAddr
  distinct : ∀ m ∈ n.nodelinks, ∀ l ∈ n.nodelinks, ∀ a,
    m.nodeAddr = some a → l.nodeAddr = some a → m.ptr = l.ptr

section Runs

variable {n n' : Node} {e : NodeEvent}

/-- **What is announced passes all checks.** -/
theorem announced_admitted
    {p : Ptr} {a : SockAddr}
    (h : n.Vetted) (hsafe : addressSafe n e) (ha : e.announced n = some (p, a)) :
    n.admits p a := by
  cases e with
  | n2nFrame nl f =>
      have hann := ha
      simp only [NodeEvent.announced, Option.ite_none_left_eq_some, Bool.not_eq_true',
        Bool.not_eq_false] at ha
      obtain ⟨hmem, ha⟩ := ha
      by_cases hnew : byteAt f 0 = Proto.NEWNODE_IPV4
      · -- `procmsg_NEWNODE`: its searches find nothing
        simp only [hnew, if_true, Option.ite_none_left_eq_some, Option.some.injEq,
          Prod.mk.injEq] at ha
        obtain ⟨hknown, hres, rfl, rfl⟩ := ha
        have hown : addrAt f 2 ≠ n.myAddr := fun heq => hsafe.2 hnew (heq ▸ hann)
        have hfree : isReservedAddrIpv4 (addrAt f 2).addr = false := by
          simpa [h.strict] using hres
        have hothers : ∀ m ∈ n.nodelinks, m.nodeAddr ≠ some (addrAt f 2) := by
          intro m hm haddr
          apply hknown
          rw [Node.nodelinkSearchByIpv4addr, List.find?_isSome]
          exact ⟨m, hm, decide_eq_true (.inr ⟨h.typed m hm (by simp [haddr]), haddr⟩)⟩
        simp only [Node.admits, hfree, Bool.not_false, Bool.true_and, Bool.and_eq_true,
          decide_eq_true_eq, List.all_eq_true, Bool.or_eq_true]
        exact ⟨hown, fun m hm => .inr (hothers m hm)⟩
      · simp only [hnew, if_false, Option.ite_none_right_eq_some, Option.some.injEq,
          Prod.mk.injEq] at ha
        obtain ⟨⟨hlist, hlen⟩, rfl, rfl⟩ := ha
        exact hsafe.1 hlist hlen hmem
  | _ => cases ha

/-- **Step lemma.** -/
theorem Node.Vetted.step
    (h : n.Vetted) (hsafe : addressSafe n e) (hduring : AddrsDuring n e n') :
    n'.Vetted := by
  have admitted : ∀ m ∈ n'.nodelinks, ∀ a, e.announced n = some (m.ptr, a) →
      isReservedAddrIpv4 a.addr = false ∧ a ≠ n.myAddr ∧
        ∀ m₀ ∈ n.nodelinks, m₀.nodeAddr = some a → m₀.ptr = m.ptr := by
    intro m _ a ha
    have hadm := announced_admitted h hsafe ha
    simp only [Node.admits, Bool.and_eq_true, Bool.not_eq_true', List.all_eq_true,
      Bool.or_eq_true, decide_eq_true_eq, ne_eq] at hadm
    refine ⟨hadm.1.1, hadm.1.2, fun m₀ hm₀ haddr => ?_⟩
    rcases hadm.2 m₀ hm₀ with hp | hne
    · exact hp
    · exact absurd haddr hne
  constructor
  · rw [hduring.strict]
    exact h.strict
  · intro m hm hsome
    obtain ⟨a, ha⟩ := Option.ne_none_iff_exists'.mp hsome
    rcases (hduring.links m hm).traced a ha with ⟨m₀, hm₀, -, haddr, htype⟩ | ⟨-, htype⟩
    · rw [htype]
      exact h.typed m₀ hm₀ (by simp [haddr])
    · exact htype
  · intro m hm a ha
    rcases (hduring.links m hm).traced a ha with ⟨m₀, hm₀, -, haddr, -⟩ | ⟨hnew, -⟩
    · exact h.reserved m₀ hm₀ a haddr
    · exact (admitted m hm a hnew).1
  · intro m hm hown
    rw [hduring.myAddr] at hown
    rcases (hduring.links m hm).traced _ hown with ⟨m₀, hm₀, -, haddr, -⟩ | ⟨hnew, -⟩
    · exact h.foreign m₀ hm₀ haddr
    · exact (admitted m hm _ hnew).2.1 rfl
  · intro m hm l hl a hma hla
    rcases (hduring.links m hm).traced a hma with ⟨m₀, hm₀, hptr, haddr, -⟩ | ⟨hnew, -⟩
    · rcases (hduring.links l hl).traced a hla with ⟨l₀, hl₀, hptr', haddr', -⟩ | ⟨hnew', -⟩
      · rw [← hptr, ← hptr']
        exact h.distinct m₀ hm₀ l₀ hl₀ a haddr haddr'
      · rw [← hptr]
        exact (admitted l hl a hnew').2.2 m₀ hm₀ haddr
    · rcases (hduring.links l hl).traced a hla with ⟨l₀, hl₀, hptr', haddr', -⟩ | ⟨hnew', -⟩
      · rw [← hptr']
        exact ((admitted m hm a hnew).2.2 l₀ hl₀ haddr').symm
      · -- a message announces one address for one link
        rw [hnew, Option.some.injEq, Prod.mk.injEq] at hnew'
        exact hnew'.1

theorem nodeStep_addrs
    (hcore : Core n) (hstep : nodeStep n e = some n') :
    AddrsDuring n e n' :=
  changes_invariant (fun _ _ hm hact => hm.act hact) .refl (nodeStep_acts hcore hstep)

theorem vetted_init
    {a : SockAddr} {now : Nat} {mem : Nat → Bool} {rnd : Nat → UInt8}
    {verify : Ptr → Frame → Bool} {reached : List ClientEvent → Ptr → Bool} :
    (Node.init a true now mem rnd verify reached).Vetted := by
  have hnodes : (Node.init a true now mem rnd verify reached).nodelinks = [] := rfl
  refine ⟨rfl, ?_, ?_, ?_, ?_⟩ <;> simp [hnodes]

end Runs

/-! ## Answers -/

section Answers

variable {n : Node} {asking : Option NodeLink} {f : Frame}

theorem advertised_eq
    {nlp : NodeLink} {a : SockAddr}
    (h : advertised asking nlp = some a) :
    nlp.nodeAddr = some a := by
  rw [advertised] at h
  split_ifs at h
  exact (Option.filter_eq_some_iff.mp h).1

/-- No two links have one address. -/
theorem Node.Vetted.pairwise
    (h : n.Vetted) (hcore : Core n) :
    n.nodelinks.Pairwise fun m l => ∀ a, m.nodeAddr = some a → l.nodeAddr ≠ some a := by
  have hdist : n.nodelinks.Pairwise fun m l => m.ptr ≠ l.ptr :=
    List.pairwise_map.mp hcore.nodelinksDistinct
  refine List.Pairwise.imp_of_mem (fun hm hl hne a hma hla => ?_) hdist
  exact hne (h.distinct _ hm _ hl a hma hla)

/-- The addresses in an answer differ from each other, and none is reserved. -/
theorem Node.Vetted.items
    (h : n.Vetted) (hcore : Core n) (hown : isReservedAddrIpv4 n.myAddr.addr = false) :
    (nodelistItems asking n.myAddr n.nodelinks).Nodup ∧
      ∀ a ∈ nodelistItems asking n.myAddr n.nodelinks, isReservedAddrIpv4 a.addr = false := by
  have hmem : ∀ a ∈ n.nodelinks.filterMap (advertised asking),
      ∃ m ∈ n.nodelinks, m.nodeAddr = some a := by
    intro a ha
    obtain ⟨m, hm, hadv⟩ := List.mem_filterMap.mp ha
    exact ⟨m, hm, advertised_eq hadv⟩
  have hnodup : (n.nodelinks.filterMap (advertised asking)).Nodup := by
    refine List.Pairwise.filterMap _ ?_ (h.pairwise hcore)
    intro m l hne a ha b hb hab
    subst hab
    exact hne a (advertised_eq ha) (advertised_eq hb)
  constructor
  · rw [nodelistItems, List.nodup_cons]
    refine ⟨fun hmy => ?_, hnodup.sublist (List.take_sublist _ _)⟩
    obtain ⟨m, hm, haddr⟩ := hmem _ (List.mem_of_mem_take hmy)
    exact h.foreign m hm haddr
  · intro a ha
    rcases List.mem_cons.mp ha with rfl | ha
    · exact hown
    · obtain ⟨m, hm, haddr⟩ := hmem a (List.mem_of_mem_take ha)
      exact h.reserved m hm a haddr

end Answers

/-- **Every advertised address has passed the same checks**, in every run in which each list
of nodes begins with an address its sender may have, and no node announces the address of
this one. -/
theorem addresses_vetted
    {myAddr : SockAddr} {now : Nat} {mem : Nat → Bool} {rnd : Nat → UInt8}
    {verify : Ptr → Frame → Bool} {reached : List ClientEvent → Ptr → Bool}
    {es : List NodeEvent} {n : Node}
    (hown : isReservedAddrIpv4 myAddr.addr = false)
    (hsafe : Meets nodeStep addressSafe (Node.init myAddr true now mem rnd verify reached) es)
    (hrun : run nodeStep (Node.init myAddr true now mem rnd verify reached) es = some n) :
    (∀ m ∈ n.nodelinks, ∀ a, m.nodeAddr = some a → isReservedAddrIpv4 a.addr = false) ∧
      (n.nodelinks.Pairwise fun m l => ∀ a, m.nodeAddr = some a → l.nodeAddr ≠ some a) ∧
      ∀ asking f, n.nodelistReply asking = .ok f →
        ∃ items : List SockAddr,
          f = nodelistFrame (if asking.isNone then Proto.CLNODELIST else Proto.NODELIST) items ∧
            items.Nodup ∧ ∀ a ∈ items, isReservedAddrIpv4 a.addr = false := by
  have hstep : ∀ s e t, (Core s ∧ s.Vetted ∧ s.myAddr = myAddr) → addressSafe s e →
      nodeStep s e = some t → Core t ∧ t.Vetted ∧ t.myAddr = myAddr := by
    intro s e t hs hok hstep
    have hduring := nodeStep_addrs hs.1 hstep
    exact ⟨nodeStep_core hs.1 hstep, hs.2.1.step hok hduring, hduring.myAddr.trans hs.2.2⟩
  obtain ⟨hcore, hvet, hmy⟩ :=
    run_invariant hstep ⟨core_init, vetted_init, rfl⟩ hsafe hrun
  refine ⟨hvet.reserved, hvet.pairwise hcore, fun asking f hf => ?_⟩
  have hitems := @Node.Vetted.items n asking hvet hcore (by rw [hmy]; exact hown)
  exact ⟨_, nodelistReply_eq hf, hitems.1, hitems.2⟩

/-! ## Lists that begin with an unchecked address -/

/-- A node that has memory for everything and accepts no reserved addresses. -/
def strictNode : Node :=
  Node.init ⟨0x01020304, 2299⟩ true 0 (fun _ => true) (fun _ => 0) (fun _ _ => false) fun _ _ => true

/-- The second of two linked nodes sends a list that begins with the address `a`. -/
def peerLists (a : SockAddr) : List NodeEvent :=
  peersConnected ++ [.n2nFrame 2 (nodelistFrame Proto.NODELIST [a])]

theorem addresses_vetted_listed :
    (stateAfter strictNode (peerLists ⟨0x09090909, 2299⟩)).nodelinks.map NodeLink.nodeAddr =
        [some ⟨0x08080808, 2300⟩, some ⟨0x09090909, 2299⟩] ∧
      (stateAfter strictNode (peerLists ⟨0x09090909, 2299⟩)).nodelinks.Pairwise
        fun m l => ∀ a, m.nodeAddr = some a → l.nodeAddr ≠ some a := by
  have hsafe : Meets nodeStep addressSafe strictNode (peerLists ⟨0x09090909, 2299⟩) := by
    decide +kernel
  have hrun := @stateAfter_run strictNode (peerLists ⟨0x09090909, 2299⟩) (by decide +kernel)
  exact ⟨by decide +kernel, (addresses_vetted (by decide) hsafe hrun).2.1⟩

/-- A list makes `127.0.0.1` the address of its sender, or the address that the other node
has announced. -/
theorem unchecked_addresses_taken :
    (∃ n, run nodeStep strictNode (peerLists ⟨0x0100007F, 2299⟩) = some n ∧
      ∃ m ∈ n.nodelinks, ∃ a, m.nodeAddr = some a ∧ isReservedAddrIpv4 a.addr) ∧
    ∃ n, run nodeStep strictNode (peerLists ⟨0x08080808, 2300⟩) = some n ∧
      ¬n.nodelinks.Pairwise fun m l => ∀ a, m.nodeAddr = some a → l.nodeAddr ≠ some a := by
  constructor
  · refine ⟨_, stateAfter_run (by decide +kernel), ?_⟩
    obtain ⟨m, hm, ha⟩ : ∃ m ∈ (stateAfter strictNode (peerLists ⟨0x0100007F, 2299⟩)).nodelinks,
        m.nodeAddr = some ⟨0x0100007F, 2299⟩ := by decide +kernel
    exact ⟨m, hm, _, ha, by decide⟩
  · refine ⟨_, stateAfter_run (by decide +kernel), ?_⟩
    have haddrs : (stateAfter strictNode (peerLists ⟨0x08080808, 2300⟩)).nodelinks.map
        NodeLink.nodeAddr = [some ⟨0x08080808, 2300⟩, some ⟨0x08080808, 2300⟩] := by
      decide +kernel
    intro hpair
    have hmap : ((stateAfter strictNode (peerLists ⟨0x08080808, 2300⟩)).nodelinks.map
        NodeLink.nodeAddr).Pairwise fun x y => ∀ a, x = some a → y ≠ some a :=
      List.pairwise_map.mpr hpair
    rw [haddrs] at hmap
    simp at hmap

end PicaPica
