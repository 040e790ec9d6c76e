import PicaPica.Node.NewconnRefs

/-!
# The callee's consent

A link advances past the decision of the callee when the callee, or the node it is
connected to, has allowed the connection.  The handlers find the link by the
identifiers in the message; `procmsg_CONNALLOW` takes one of them from the sender,
but `procmsg_N2NALLOW` takes both from the message and does not compare the sender
with the link.  The identifier of the sender of a `CONNALLOW` tells which client of
the link it is as long as one client represents an identifier, and a second one does
when `client_tree_search` misses the first at the second login.  `consentSafe` says
that no `N2NALLOW` comes for a link whose callee is to answer otherwise and that no
login is missed; under it links advance by consent only (`link_advances_by_consent`).
-/

namespace PicaPica

open Table Machine

/-- The callee of the link, a client of this node, allows the caller to connect. -/
def CalleeAllows (e : NodeEvent) (l : CCLink) : Prop :=
  ∃ q f, e = .c2nFrame q f ∧ byteAt f 0 = Proto.CONNALLOW ∧ l.p2 = some q ∧
    idAt f 2 = l.callerId

/-- The node of the callee of the link tells that the callee has allowed it. -/
def CalleeNodeAllows (e : NodeEvent) (l : CCLink) : Prop :=
  ∃ m f, e = .n2nFrame m f ∧ byteAt f 0 = Proto.N2NALLOW ∧ l.calleeNode = some m ∧
    idAt f 2 = l.callerId ∧ idAt f (2 + idSize) = l.calleeId

/-- Consent to a link, as its kind asks for. -/
def Consents (e : NodeEvent) (l : CCLink) : Prop :=
  if l.state.kind = .n2nclr then CalleeNodeAllows e l else CalleeAllows e l

/-- An `N2NALLOW` is handled for a link that waits for the answer of a client of
this node, for the result of a search, or for the answer of another node. -/
def NodeEvent.allowsUnasked (n : Node) : NodeEvent → Bool
  | .n2nFrame m f => byteAt f 0 = Proto.N2NALLOW ∧ n.mem n.tick ∧
      (n.cclinkListSearch (idAt f 2) (idAt f (2 + idSize))).any fun l =>
        l.state = .localWaitRep ∨ l.state = .n2nClrWaitSearch ∨
          l.state = .n2nClrWaitRep ∧ l.calleeNode ≠ some m
  | _ => false

/-- No such message is handled, and the search at a login misses no client. -/
def consentSafe (n : Node) (e : NodeEvent) : Prop :=
  e.allowsUnasked n = false ∧ e.loginMissed n = false

instance (n : Node) (e : NodeEvent) : Decidable (consentSafe n e) :=
  inferInstanceAs (Decidable (_ ∧ _))

/-! ## One client for an identifier -/

/-- At most one client represents an identifier. -/
def Node.OneEach (n : Node) : Prop :=
  ∀ c ∈ n.clients, ∀ d ∈ n.clients,
    c.state = .connected → d.state = .connected → c.id = d.id → c.ptr = d.ptr

section OneEach

variable {n₀ n n' : Node} {e : NodeEvent}

/-- One client changes.  If it represents an identifier then, it is the only one. -/
theorem Node.OneEach.modifyClient
    {p : Ptr} {g : Client → Client}
    (h : n.OneEach) (hptr : ∀ c, (g c).ptr = c.ptr)
    (hg : ∀ c ∈ n.clients, c.ptr = p → (g c).state = .connected →
      ∀ d ∈ n.clients, d.state = .connected → d.id = (g c).id → d.ptr = p) :
    (n.modifyClient p g).OneEach := by
  intro c' hc' d' hd' hcst hdst hid
  obtain ⟨c, hc, rfl⟩ := mem_modify.mp hc'
  obtain ⟨d, hd, rfl⟩ := mem_modify.mp hd'
  split_ifs at hcst hdst hid ⊢ with hcp hdp hdp
  · rw [hptr, hptr, hcp, hdp]
  · rw [hptr, hcp]
    exact (hg c hc hcp hcst d hd hdst hid.symm).symm
  · rw [hptr, hdp]
    exact hg d hd hdp hdst c hc hcst hid
  · exact h c hc d hd hcst hdst hid

/-- A client changes, but not its state and its identifier. -/
theorem Node.OneEach.touchClient
    {p : Ptr} {g : Client → Client}
    (h : n.OneEach) (hg : ∀ c, (g c).core = c.core) :
    (n.modifyClient p g).OneEach := by
  have hkept : ∀ c, (g c).ptr = c.ptr ∧ (g c).id = c.id ∧ (g c).state = c.state := fun c => by
    simpa only [Client.core, Prod.mk.injEq] using hg c
  refine h.modifyClient (fun c => (hkept c).1) fun c hc hp hst d hd hdst hid => ?_
  rw [(hkept c).2.2] at hst
  rw [(hkept c).2.1] at hid
  exact (h d hd c hc hdst hst hid).trans hp

/-- The newest further login represents the identifier of a deleted client. -/
theorem Node.OneEach.dropClient
    {c : Client}
    (hcore : Core n) (h : n.OneEach) (hc : c ∈ n.clients) :
    (n.dropClient c).OneEach := by
  have hleft : (n.withoutClient c.ptr).OneEach := fun x hx y hy =>
    h x (mem_remove.mp hx).1 y (mem_remove.mp hy).1
  rcases dropClient_cases hcore hc with ⟨ms, heq⟩ | ⟨q, ms, hst, hid, heq⟩
  · rw [heq]
    exact hleft
  · rw [heq]
    refine hleft.modifyClient (fun _ => rfl) fun x hx hxq _ d hd hdst hdid => ?_
    obtain ⟨hdmem, hne⟩ := mem_remove.mp hd
    exact absurd (h d hdmem c hc hdst hst (hdid.trans (hid x (mem_remove.mp hx).1 hxq))) hne

/-- **Every change keeps it**, if the search at a login misses no client. -/
theorem Act.oneEach
    (hcore : Core n) (hmiss : e.loginMissed n₀ = false) (h : n.OneEach)
    (hact : Act n₀ e n n') :
    n'.OneEach := by
  cases hact with
  | tickClient p t b => exact h.touchClient fun _ => rfl
  | push p f hf hlong => exact h.touchClient fun _ => rfl
  | login c id hc hst hid hno hfound =>
      have hnew := hfound.resolve_right (by simp [hmiss])
      exact h.modifyClient (n := n.logged _) (fun _ => rfl)
        fun _ _ _ _ d hd hdst hdid => absurd hdid (hnew d hd hdst)
  | loginMulti c s id hc hst hid hs =>
      exact h.modifyClient (n := n.logged _) (fun _ => rfl) fun _ _ _ => nofun
  | deleteClient c call hc hdel hleave => exact h.dropClient hcore hc
  | initreq i he hocc hone =>
      have hmem : ∀ c ∈ (n.addClient (n.newClient i)).clients, c.state = .connected →
          c ∈ n.clients := by
        intro c hc hst
        rcases List.mem_append.mp hc with hc | hc
        · exact hc
        · rw [List.mem_singleton.mp hc] at hst
          cases hst
      exact fun c hc d hd hcst hdst => h c (hmem c hc hcst) d (hmem d hd hdst) hcst hdst
  | close i g n' he hg htype hclose =>
      obtain ⟨k, hk, rfl⟩ := newconnClose_ok hclose
      rcases hk with ⟨-, rfl⟩ | ⟨c, hc, -, -, rfl⟩ | ⟨l, -, -, -, rfl⟩
      · exact h
      · rw [dropClient_setSlot]
        exact h.dropClient hcore hc
      · exact h
  | clientReady i c he hi hty hc =>
      exact h.modifyClient (n := n.logged _) (fun _ => rfl) fun _ _ _ => nofun
  | _ => exact h

end OneEach

/-- What holds between the calls of a run in which no login is missed. -/
structure Settled (n : Node) : Prop extends Core n where
  oneEach : n.OneEach

theorem nodeStep_settled
    {n n' : Node} {e : NodeEvent}
    (h : Settled n) (hsafe : consentSafe n e) (hstep : nodeStep n e = some n') :
    Settled n' := by
  have hact : ∀ u v, Settled u → Act n e u v → Settled v := fun u v hu hact =>
    ⟨hact.core hu.toCore, hact.oneEach hu.toCore hsafe.2 hu.oneEach⟩
  exact changes_invariant hact h (nodeStep_acts h.toCore hstep)

theorem settled_init
    {a : SockAddr} {r : Bool} {now : Nat} {mem : Nat → Bool} {rnd : Nat → UInt8}
    {verify : Ptr → Frame → Bool} {reached : List ClientEvent → Ptr → Bool} :
    Settled (Node.init a r now mem rnd verify reached) :=
  ⟨core_init, fun c hc => by simp [Node.init] at hc⟩

/-! ## Links during a call -/

/-- What has become of the link `l₀` while `e` is handled. -/
structure CCLink.Advanced (e : NodeEvent) (l₀ l : CCLink) : Prop where
  same : l₀.SameEndpoints l
  undecided : l.state.undecided →
    l.state = l₀.state ∨ l₀.state = .n2nClrWaitSearch ∧ l.state = .n2nClrWaitRep
  decided : l.state.undecided = false → l₀.state.undecided = false ∨ Consents e l₀

section Links

variable {e : NodeEvent} {l₀ l l' : CCLink}

theorem CCLink.Advanced.refl : CCLink.Advanced e l l :=
  ⟨⟨rfl, rfl, rfl, rfl, rfl, rfl⟩, fun _ => .inl rfl, .inl⟩

/-- The link goes on, but not past the decision. -/
theorem CCLink.Advanced.goOn
    (h : CCLink.Advanced e l₀ l) (hsame : l.SameEndpoints l')
    (hst : l'.state = l.state ∨ l.state.undecided = false ∧ l'.state.undecided = false) :
    CCLink.Advanced e l₀ l' := by
  refine ⟨h.same.trans hsame, fun hun => ?_, fun hdec => ?_⟩
  · rcases hst with heq | ⟨-, hdec⟩
    · rw [heq] at hun ⊢
      exact h.undecided hun
    · simp [hdec] at hun
  · rcases hst with heq | ⟨hdec, -⟩
    · exact h.decided (heq ▸ hdec)
    · exact h.decided hdec

/-- The link goes past the decision with consent. -/
theorem CCLink.Advanced.decide
    (h : CCLink.Advanced e l₀ l) (hsame : l.SameEndpoints l')
    (hdec : l'.state.undecided = false) (hconsent : Consents e l₀) :
    CCLink.Advanced e l₀ l' :=
  ⟨h.same.trans hsame, fun hun => by simp [hdec] at hun, fun _ => .inr hconsent⟩

theorem undecided_setwaitanontlsshutdown {s : Socket} :
    (l.setwaitanontlsshutdown s).state = l.state ∨
      l.state.undecided = false ∧ (l.setwaitanontlsshutdown s).state.undecided = false := by
  cases hst : l.state <;> simp [CCLink.setwaitanontlsshutdown, CcState.undecided, hst]

theorem undecided_activate :
    l.activate.state = l.state ∨
      l.state.undecided = false ∧ l.activate.state.undecided = false := by
  cases hst : l.state <;> simp [CCLink.activate, CcState.undecided, hst]

theorem undecided_setwaitconn :
    l.setwaitconn.state = l.state ∨ l.setwaitconn.state.undecided = false := by
  cases hst : l.state <;> simp [CCLink.setwaitconn, CcState.undecided, hst]

end Links

/-- What holds between the changes of the call for `e` that was begun on `n₀`: the
links that were there have advanced by consent only, the others wait for a decision,
and a `FOUND` is either an old one or for a link with consent. -/
structure ConsentDuring (n₀ : Node) (e : NodeEvent) (n : Node) : Prop where
  core : Core n
  next : n₀.next ≤ n.next
  origin : ∀ l ∈ n.cclinks, l.ptr < n₀.next → ∃ l₀ ∈ n₀.cclinks, CCLink.Advanced e l₀ l
  fresh : ∀ l ∈ n.cclinks, n₀.next ≤ l.ptr → l.state.undecided
  found : ∀ c ∈ n.clients, ∀ f ∈ c.pushed, byteAt f 0 = Proto.FOUND →
    (∃ c₀ ∈ n₀.clients, c₀.ptr = c.ptr ∧ f ∈ c₀.pushed) ∨
      ∃ l₀ ∈ n₀.cclinks, l₀.p1 = some c.ptr ∧ f = head Proto.FOUND ++ l₀.calleeId.1 ∧
        (l₀.state.undecided = false ∨ Consents e l₀)

section During

variable {n₀ n n' : Node} {e : NodeEvent}

/-- Address and messages of a client. -/
def Client.mail (c : Client) : Ptr × List Frame :=
  (c.ptr, c.pushed)

/-- Links are deleted at most, and no messages are added. -/
theorem ConsentDuring.quiet
    (h : ConsentDuring n₀ e n) (hcore : Core n') (hnext : n.next ≤ n'.next)
    (hmail : ∀ c' ∈ n'.clients, c'.pushed = [] ∨ ∃ c ∈ n.clients, c.mail = c'.mail)
    (hlinks : ∀ l ∈ n'.cclinks, l ∈ n.cclinks) :
    ConsentDuring n₀ e n' := by
  refine ⟨hcore, Nat.le_trans h.next hnext, fun l hl => h.origin l (hlinks l hl),
    fun l hl => h.fresh l (hlinks l hl), fun c' hc' f hf hfound => ?_⟩
  rcases hmail c' hc' with hnil | ⟨c, hc, hsame⟩
  · simp [hnil] at hf
  · simp only [Client.mail, Prod.mk.injEq] at hsame
    rw [← hsame.1]
    exact h.found c hc f (hsame.2 ▸ hf) hfound

theorem mail_of_map
    (h : n'.clients.map Client.mail = n.clients.map Client.mail) :
    ∀ c' ∈ n'.clients, c'.pushed = [] ∨ ∃ c ∈ n.clients, c.mail = c'.mail :=
  fun _ hc' => .inr (mem_of_map_eq h hc')

theorem mail_refl (h : n'.clients = n.clients) :
    ∀ c' ∈ n'.clients, c'.pushed = [] ∨ ∃ c ∈ n.clients, c.mail = c'.mail :=
  mail_of_map (by rw [h])

/-- One link changes. -/
theorem ConsentDuring.link
    {p : Ptr} {g : CCLink → CCLink}
    (h : ConsentDuring n₀ e n) (hcore : Core n') (hnext : n'.next = n.next)
    (hclients : n'.clients = n.clients) (hlinks : n'.cclinks = modify CCLink.ptr p g n.cclinks)
    (hptr : ∀ l ∈ n.cclinks, l.ptr = p → (g l).ptr = l.ptr)
    (hold : ∀ l ∈ n.cclinks, l.ptr = p → ∀ l₀ ∈ n₀.cclinks, CCLink.Advanced e l₀ l →
      CCLink.Advanced e l₀ (g l))
    (hnew : ∀ l ∈ n.cclinks, l.ptr = p → n₀.next ≤ p → l.state.undecided →
      (g l).state.undecided) :
    ConsentDuring n₀ e n' := by
  refine ⟨hcore, hnext ▸ h.next, fun l' hl' hlt => ?_, fun l' hl' hle => ?_, hclients ▸ h.found⟩
  · rw [hlinks] at hl'
    obtain ⟨l, hl, rfl⟩ := mem_modify.mp hl'
    split_ifs at hlt ⊢ with hp
    · rw [hptr l hl hp] at hlt
      obtain ⟨l₀, hl₀, hadv⟩ := h.origin l hl hlt
      exact ⟨l₀, hl₀, hold l hl hp l₀ hl₀ hadv⟩
    · exact h.origin l hl hlt
  · rw [hlinks] at hl'
    obtain ⟨l, hl, rfl⟩ := mem_modify.mp hl'
    split_ifs at hle ⊢ with hp
    · rw [hptr l hl hp] at hle
      exact hnew l hl hp (hp ▸ hle) (h.fresh l hl hle)
    · exact h.fresh l hl hle

/-- One link goes on, but not past the decision. -/
theorem ConsentDuring.goOn
    {p : Ptr} {g : CCLink → CCLink}
    (h : ConsentDuring n₀ e n) (hcore : Core n') (hnext : n'.next = n.next)
    (hclients : n'.clients = n.clients) (hlinks : n'.cclinks = modify CCLink.ptr p g n.cclinks)
    (hsame : ∀ l ∈ n.cclinks, l.ptr = p → l.SameEndpoints (g l))
    (hst : ∀ l ∈ n.cclinks, l.ptr = p → (g l).state = l.state ∨
      l.state.undecided = false ∧ (g l).state.undecided = false) :
    ConsentDuring n₀ e n' := by
  refine h.link hcore hnext hclients hlinks (fun l hl hp => (hsame l hl hp).ptr) ?_ ?_
  · intro l hl hp l₀ _ hadv
    exact hadv.goOn (hsame l hl hp) (hst l hl hp)
  · intro l hl hp _ hun
    rcases hst l hl hp with heq | ⟨hdec, -⟩
    · rwa [heq]
    · simp [hdec] at hun

/-- The link `l` of the start goes past the decision with consent, if it does. -/
theorem ConsentDuring.consented
    {l : CCLink}
    (h : ConsentDuring n₀ e n) (hstart : Core n₀) (hcore : Core (n.modifyLink l.ptr CCLink.setwaitconn))
    (hl : l ∈ n₀.cclinks) (hconsent : l.state.undecided → Consents e l) :
    ConsentDuring n₀ e (n.modifyLink l.ptr CCLink.setwaitconn) := by
  refine h.link hcore rfl rfl rfl (fun _ _ _ => endpoints_setwaitconn.ptr) ?_ ?_
  · intro x hx hp l₀ hl₀ hadv
    obtain rfl := hstart.linksDistinct.eq hl₀ hl (hadv.same.ptr.symm.trans hp)
    rcases @undecided_setwaitconn x with heq | hdec
    · exact hadv.goOn endpoints_setwaitconn (.inl heq)
    · cases hun : l₀.state.undecided with
      | true => exact hadv.decide endpoints_setwaitconn hdec (hconsent hun)
      | false =>
          exact ⟨hadv.same.trans endpoints_setwaitconn, fun h' => by simp [hdec] at h',
            fun _ => .inl hun⟩
  · intro x hx hp hle
    exact absurd hle (Nat.not_le_of_lt (hstart.linksOld l hl))

/-- A `CONNALLOW` that finds a link comes from the callee of the link. -/
theorem calleeAllows_of_search
    {l : CCLink} {ci : Ptr} {id : Id} {f : Frame}
    (hstart : Settled n₀) (hk : byteAt f 0 = Proto.CONNALLOW) (hprim : n₀.Primary ci id)
    (hs : n₀.cclinkListSearch (idAt f 2) id = some l)
    (hst : l.state = .localWaitRep ∨ l.state = .n2nCleWaitRep) :
    CalleeAllows (.c2nFrame ci f) l := by
  obtain ⟨hl, hcaller, hcallee⟩ := cclinkListSearch_spec hs
  have hp2 : l.p2 ≠ none := by
    rw [Ne, (hstart.shape l hl).p2]
    rcases hst with hst | hst <;> simp [hst, CcState.kind]
  obtain ⟨q, hq⟩ := Option.ne_none_iff_exists'.mp hp2
  obtain ⟨d, hd, rfl, hdst, hdid⟩ := (hstart.ends l hl).p2 q hq
  obtain ⟨c, hc, rfl, hcst, hcid⟩ := hprim
  have hsame := hstart.oneEach d hd c hc hdst hcst (by rw [hdid, hcid, hcallee])
  exact ⟨c.ptr, f, rfl, hk, by rw [hq, hsame], hcaller.symm⟩

/-- Under the condition an `N2NALLOW` for a link that is not decided is consent. -/
theorem consents_of_n2nallow
    {l : CCLink} {m : Ptr} {f : Frame}
    (hstart : Core n₀) (hsafe : consentSafe n₀ (.n2nFrame m f))
    (hk : byteAt f 0 = Proto.N2NALLOW) (hmem : n₀.mem n₀.tick)
    (hs : n₀.cclinkListSearch (idAt f 2) (idAt f (2 + idSize)) = some l)
    (hp1 : l.p1 ≠ none) (hun : l.state.undecided) :
    Consents (.n2nFrame m f) l := by
  obtain ⟨hl, hcaller, hcallee⟩ := cclinkListSearch_spec hs
  have hkind : l.state.kind ≠ .n2ncle := by rwa [Ne, ← (hstart.shape l hl).p1]
  have hasked := hsafe.1
  simp only [NodeEvent.allowsUnasked, hk, hmem, hs, Option.any_some, true_and,
    decide_eq_false_iff_not, decide_eq_true_eq, not_or, not_and, not_not] at hasked
  obtain ⟨hloc, hsearch, hnode⟩ := hasked
  have hst : l.state = .n2nClrWaitRep := by
    cases hst : l.state <;> simp_all [CcState.undecided, CcState.kind]
  rw [Consents, hst]
  exact ⟨m, f, rfl, hk, hnode hst, hcaller.symm, hcallee.symm⟩

/-- `FOUND` is pushed for a link that was there and has consent. -/
theorem ConsentDuring.foundBy
    {l : CCLink}
    (h : ConsentDuring n₀ e n) (hstart : Core n₀) (hsafe : consentSafe n₀ e)
    (hl : l ∈ n.cclinks) (hp1 : l.p1 ≠ none) (hby : FoundBy n₀ e l) :
    ∃ l₀ ∈ n₀.cclinks, l₀.p1 = l.p1 ∧ l₀.calleeId = l.calleeId ∧
      (l₀.state.undecided = false ∨ Consents e l₀) := by
  rcases hby with ⟨m, f, rfl, hk, hmem, hs⟩ | hst
  · refine ⟨l, (cclinkListSearch_spec hs).1, rfl, rfl, ?_⟩
    cases hun : l.state.undecided with
    | true => exact .inr (consents_of_n2nallow hstart hsafe hk hmem hs hp1 hun)
    | false => exact .inl rfl
  · have hdec : l.state.undecided = false := by rw [hst]; rfl
    have hlt : l.ptr < n₀.next := by
      by_contra hge
      have hun := h.fresh l hl (Nat.le_of_not_lt hge)
      simp [hdec] at hun
    obtain ⟨l₀, hl₀, hadv⟩ := h.origin l hl hlt
    exact ⟨l₀, hl₀, hadv.same.p1.symm, hadv.same.calleeId.symm, hadv.decided hdec⟩

/-- A message is pushed to a client. -/
theorem ConsentDuring.push
    {p : Ptr} {f : Frame}
    (h : ConsentDuring n₀ e n) (hstart : Core n₀) (hsafe : consentSafe n₀ e)
    (hcore : Core (n.modifyClient p fun c => { c with pushed := c.pushed ++ [f] }))
    (hf : byteAt f 0 = Proto.FOUND → ∃ l ∈ n.cclinks, l.p1 = some p ∧
      f = head Proto.FOUND ++ l.calleeId.1 ∧ FoundBy n₀ e l) :
    ConsentDuring n₀ e (n.modifyClient p fun c => { c with pushed := c.pushed ++ [f] }) := by
  refine ⟨hcore, h.next, h.origin, h.fresh, fun c' hc' x hx hfound => ?_⟩
  obtain ⟨c, hc, rfl⟩ := mem_modify.mp hc'
  split_ifs at hx ⊢ with hp
  · rcases List.mem_append.mp hx with hx | hx
    · exact h.found c hc x hx hfound
    · obtain rfl := List.mem_singleton.mp hx
      obtain ⟨l, hl, hp1, heq, hby⟩ := hf hfound
      obtain ⟨l₀, hl₀, hp1', hcallee, hconsent⟩ :=
        h.foundBy hstart hsafe hl (by simp [hp1]) hby
      exact .inr ⟨l₀, hl₀, by rw [hp1', hp1, ← hp], by rw [hcallee, heq], hconsent⟩
  · exact h.found c hc x hx hfound

/-- A deleted client takes its messages and links away. -/
theorem ConsentDuring.dropClient
    {c : Client}
    (h : ConsentDuring n₀ e n) (hc : c ∈ n.clients) :
    ConsentDuring n₀ e (n.dropClient c) := by
  have hcore := h.core.dropClient hc
  rcases dropClient_cases h.core hc with ⟨ms, heq⟩ | ⟨q, ms, -, -, heq⟩
  · rw [heq] at hcore ⊢
    refine h.quiet hcore (Nat.le_refl _) ?_ fun l hl => (List.mem_filter.mp hl).1
    exact fun d hd => .inr ⟨d, (mem_remove.mp hd).1, rfl⟩
  · rw [heq] at hcore ⊢
    refine h.quiet hcore (Nat.le_refl _) ?_ fun l hl => (List.mem_filter.mp hl).1
    intro d hd
    obtain ⟨d', hd', rfl⟩ := mem_modify.mp hd
    refine .inr ⟨d', (mem_remove.mp hd').1, ?_⟩
    split_ifs <;> rfl

/-- Closing a slot deletes the client or the link it refers to. -/
theorem ConsentDuring.close
    {i : Nat} {g : NewConn → NewConn}
    (h : ConsentDuring n₀ e n) (hcore : Core n') (hclose : (n.setSlot i g).newconnClose i = .ok n') :
    ConsentDuring n₀ e n' := by
  obtain ⟨k, hk, rfl⟩ := newconnClose_ok hclose
  rcases hk with ⟨-, rfl⟩ | ⟨c, hc, -, -, rfl⟩ | ⟨l, -, -, -, rfl⟩
  · exact h.quiet hcore (Nat.le_refl _) (mail_refl rfl) fun l hl => hl
  · rw [dropClient_setSlot] at hcore ⊢
    exact (h.dropClient hc).quiet hcore (Nat.le_refl _) (mail_refl rfl) fun l hl => hl
  · exact h.quiet hcore (Nat.le_refl _) (mail_refl rfl) fun l hl => (mem_remove.mp hl).1

theorem advanced_attachRemotecleNode
    {l₀ l : CCLink} {nl : Ptr}
    (h : CCLink.Advanced e l₀ l) :
    CCLink.Advanced e l₀ (l.attachRemotecleNode nl) := by
  by_cases hst : l.state = .n2nClrWaitSearch
  · have hsame := @endpoints_attachRemotecleNode l nl
    have hnew : (l.attachRemotecleNode nl).state = .n2nClrWaitRep := by
      simp [CCLink.attachRemotecleNode, hst]
    refine ⟨h.same.trans hsame, fun _ => .inr ⟨?_, hnew⟩, fun hdec => ?_⟩
    · rcases h.undecided (by rw [hst]; rfl) with heq | ⟨-, hrep⟩
      · rw [← heq, hst]
      · simp [hst] at hrep
    · simp [hnew, CcState.undecided] at hdec
  · rwa [CCLink.attachRemotecleNode, if_neg hst]

/-- **Every change keeps to the consent**, if the call is safe. -/
theorem ConsentDuring.act
    (hstart : Settled n₀) (hsafe : consentSafe n₀ e)
    (h : ConsentDuring n₀ e n) (hact : Act n₀ e n n') :
    ConsentDuring n₀ e n' := by
  have hcore : Core n' := hact.core h.core
  have all : ∀ l ∈ n.cclinks, l ∈ n.cclinks := fun _ hl => hl
  cases hact with
  | asked => exact h.quiet hcore (Nat.le_refl _) (mail_refl rfl) all
  | clock t => exact h.quiet hcore (Nat.le_refl _) (mail_refl rfl) all
  | tickClient p t b =>
      exact h.quiet hcore (Nat.le_refl _) (mail_of_map (map_modify fun _ _ _ => rfl)) all
  | push p f hf hlong => exact h.push hstart.toCore hsafe hcore hf
  | nodelink p g hg => exact h.quiet hcore (Nat.le_refl _) (mail_refl rfl) all
  | login c id hc hst hid hno hmiss =>
      exact h.quiet hcore (Nat.le_refl _) (mail_of_map (map_modify fun _ _ _ => rfl)) all
  | loginMulti c s id hc hst hid hs =>
      exact h.quiet hcore (Nat.le_refl _) (mail_of_map (map_modify fun _ _ _ => rfl)) all
  | deleteClient c call hc hdel hleave =>
      exact (h.dropClient hc).quiet hcore (Nat.le_refl _) (mail_refl rfl) fun l hl => hl
  | addNodelink nl a hptr he hold => exact h.quiet hcore (Nat.le_succ _) (mail_refl rfl) all
  | deleteNodelink nl hnl hdel =>
      exact h.quiet hcore (Nat.le_refl _) (mail_refl rfl) fun l hl => (List.mem_filter.mp hl).1
  | addLink l hl hask =>
      have hptr := (linkStart_ok hl).1
      refine ⟨hcore, Nat.le_succ_of_le h.next, ?_, ?_, h.found⟩
      · intro l' hl' hlt
        rcases List.mem_append.mp hl' with hl' | hl'
        · exact h.origin l' hl' hlt
        · obtain rfl := List.mem_singleton.mp hl'
          rw [hptr] at hlt
          exact absurd h.next (Nat.not_le_of_lt hlt)
      · intro l' hl' hle
        rcases List.mem_append.mp hl' with hl' | hl'
        · exact h.fresh l' hl' hle
        · obtain rfl := List.mem_singleton.mp hl'
          cases hl <;> rfl
  | attach l nl f he hk hlinked hs =>
      refine h.link hcore rfl rfl rfl (fun _ _ _ => endpoints_attachRemotecleNode.ptr) ?_ ?_
      · exact fun l _ _ l₀ _ hadv => advanced_attachRemotecleNode hadv
      · intro l _ _ _ hun
        rw [CCLink.attachRemotecleNode]
        split_ifs
        · rfl
        · exact hun
  | allow l ci id f he hk hprim hs hst =>
      refine h.consented hstart.toCore hcore (cclinkListSearch_spec hs).1 fun _ => ?_
      have hkind : l.state.kind ≠ .n2nclr := by
        rcases hst with hst | hst <;> simp [hst, CcState.kind]
      rw [Consents, if_neg hkind, he]
      exact calleeAllows_of_search hstart hk hprim hs hst
  | n2nallow l nl f he hk hs hp1 hmem =>
      subst he
      exact h.consented hstart.toCore hcore (cclinkListSearch_spec hs).1
        (consents_of_n2nallow hstart.toCore hsafe hk hmem hs hp1)
  | relay l l' hl hst heq hidle hby =>
      have hsame : ∀ x ∈ n.cclinks, x.ptr = l.ptr → l'.core = x.core := by
        intro x hx hp
        rw [h.core.linksDistinct.eq hx hl hp]
        exact heq
      refine h.goOn hcore rfl rfl rfl (fun x hx hp => endpoints_of_core (hsame x hx hp)) ?_
      intro x hx hp
      have := hsame x hx hp
      simp only [CCLink.core, Prod.mk.injEq] at this
      exact .inl this.2.1
  | deleteLink l hl hdel he =>
      exact h.quiet hcore (Nat.le_refl _) (mail_refl rfl) fun l hl => (mem_remove.mp hl).1
  | takeSlot i he hfree => exact h.quiet hcore (Nat.le_refl _) (mail_refl rfl) all
  | openSlot i s a he hs hfree hold => exact h.quiet hcore (Nat.le_refl _) (mail_refl rfl) all
  | greeted i he hst => exact h.quiet hcore (Nat.le_refl _) (mail_refl rfl) all
  | fillSlot i b he => exact h.quiet hcore (Nat.le_refl _) (mail_refl rfl) all
  | answered i he hst => exact h.quiet hcore (Nat.le_refl _) (mail_refl rfl) all
  | initreq i he hocc hone =>
      refine h.quiet hcore (Nat.le_succ _) ?_ all
      intro c hc
      rcases List.mem_append.mp hc with hc | hc
      · exact .inr ⟨c, hc, rfl⟩
      · obtain rfl := List.mem_singleton.mp hc
        exact .inl rfl
  | request i t st he hocc href hone ht => exact h.quiet hcore (Nat.le_refl _) (mail_refl rfl) all
  | connid i l f c he hocc hnone hs haw hc haddr hbrings hid hsame =>
      exact h.goOn hcore rfl rfl rfl (fun _ _ _ => endpoints_setwaitanontlsshutdown)
        fun _ _ _ => undecided_setwaitanontlsshutdown
  | connidLost i l he hfail hocc hnone hl haw =>
      exact h.quiet hcore (Nat.le_refl _) (mail_refl rfl) fun l hl => (mem_remove.mp hl).1
  | close i g n' he hg htype hclose => exact h.close hcore hclose
  | clientReady i c he hi hty hc =>
      exact h.quiet hcore (Nat.le_refl _) (mail_of_map (map_modify fun _ _ _ => rfl)) all
  | linkReady i l he hi hty hl hwait hdone hlinks hslots =>
      exact h.goOn hcore rfl rfl rfl (fun _ _ _ => endpoints_activate) fun _ _ _ => undecided_activate
  | nodeReady i nl he hty hptr hsck => exact h.quiet hcore (Nat.le_succ _) (mail_refl rfl) all

/-- A step keeps to the consent, if it is safe. -/
theorem nodeStep_consent
    (hstart : Settled n) (hsafe : consentSafe n e) (hstep : nodeStep n e = some n') :
    ConsentDuring n e n' := by
  have hbegin : ConsentDuring n e n :=
    ⟨hstart.toCore, Nat.le_refl _, fun l hl _ => ⟨l, hl, .refl⟩,
      fun l hl hle => absurd hle (Nat.not_le_of_lt (hstart.linksOld l hl)),
      fun c hc f hf _ => .inl ⟨c, hc, rfl, hf⟩⟩
  exact changes_invariant (fun _ _ hm hact => hm.act hstart hsafe hact) hbegin
    (nodeStep_acts hstart.toCore hstep)

end During

/-! ## All runs -/

section Runs

variable {n₀ n n' : Node} {e : NodeEvent} {es : List NodeEvent}

/-- A step that takes a link out of the state in which it waits for the callee. -/
theorem step_by_consent
    {l l' : CCLink}
    (hn : Settled n) (hsafe : consentSafe n e) (hstep : nodeStep n e = some n')
    (hl : l ∈ n.cclinks) (hl' : l' ∈ n'.cclinks) (hptr : l'.ptr = l.ptr)
    (hst : l.state = .localWaitRep ∨ l.state = .n2nCleWaitRep ∨ l.state = .n2nClrWaitRep)
    (hleft : l'.state ≠ l.state) :
    Consents e l := by
  have hlt : l'.ptr < n.next := hptr ▸ hn.linksOld l hl
  obtain ⟨l₀, hl₀, hadv⟩ := (nodeStep_consent hn hsafe hstep).origin l' hl' hlt
  obtain rfl := hn.linksDistinct.eq hl₀ hl (hadv.same.ptr.symm.trans hptr)
  have hun : l₀.state.undecided := by rcases hst with hst | hst | hst <;> rw [hst] <;> rfl
  cases hun' : l'.state.undecided with
  | true =>
      rcases hadv.undecided hun' with heq | ⟨hsearch, -⟩
      · exact absurd heq hleft
      · rcases hst with hst | hst | hst <;> simp [hst] at hsearch
  | false =>
      rcases hadv.decided hun' with hdec | hconsent
      · simp [hun] at hdec
      · exact hconsent

/-- A link that is past the decision has got there by consent, in a run whose steps are
safe. -/
theorem decided_by_consent
    {l : CCLink}
    (hstart : Settled n₀) (hnone : n₀.cclinks = [])
    (hsafe : Meets nodeStep consentSafe n₀ es) (hrun : run nodeStep n₀ es = some n)
    (hl : l ∈ n.cclinks) (hdec : l.state.undecided = false) :
    ∃ before e after u, es = before ++ e :: after ∧ run nodeStep n₀ before = some u ∧
      ∃ l₀ ∈ u.cclinks, l₀.SameEndpoints l ∧ Consents e l₀ := by
  have hcause : ∀ s e t, Settled s → consentSafe s e → nodeStep s e = some t →
      (∃ x ∈ t.cclinks, x.SameEndpoints l ∧ x.state.undecided = false) →
      (∃ x ∈ s.cclinks, x.SameEndpoints l ∧ x.state.undecided = false) ∨
        ∃ l₀ ∈ s.cclinks, l₀.SameEndpoints l ∧ Consents e l₀ := by
    rintro s e t hs hok hstep ⟨x, hx, hsame, hxdec⟩
    have hstepped := nodeStep_consent hs hok hstep
    have hlt : x.ptr < s.next := by
      by_contra hge
      have hun := hstepped.fresh x hx (Nat.le_of_not_lt hge)
      simp [hxdec] at hun
    obtain ⟨x₀, hx₀, hadv⟩ := hstepped.origin x hx hlt
    rcases hadv.decided hxdec with hdec₀ | hconsent
    · exact .inl ⟨x₀, hx₀, hadv.same.trans hsame, hdec₀⟩
    · exact .inr ⟨x₀, hx₀, hadv.same.trans hsame, hconsent⟩
  rcases run_cause (fun s e t hs hok hstep => nodeStep_settled hs hok hstep) hcause hstart hsafe
    hrun ⟨l, hl, ⟨rfl, rfl, rfl, rfl, rfl, rfl⟩, hdec⟩ with ⟨x, hx, -⟩ | h
  · simp [hnone] at hx
  · exact h

/-- Whoever has got a `FOUND` got it for a link with consent. -/
theorem found_by_consent
    {c : Client} {f : Frame}
    (hstart : Settled n₀) (hnone : n₀.cclinks = []) (hempty : n₀.clients = [])
    (hsafe : Meets nodeStep consentSafe n₀ es) (hrun : run nodeStep n₀ es = some n)
    (hc : c ∈ n.clients) (hf : f ∈ c.pushed) (hfound : byteAt f 0 = Proto.FOUND) :
    ∃ before e after u, es = before ++ e :: after ∧ run nodeStep n₀ before = some u ∧
      ∃ l ∈ u.cclinks, l.p1 = some c.ptr ∧ f = head Proto.FOUND ++ l.calleeId.1 ∧
        Consents e l := by
  have hcause : ∀ s e t, Settled s → consentSafe s e → nodeStep s e = some t →
      (∃ x ∈ t.clients, x.ptr = c.ptr ∧ f ∈ x.pushed) →
      (∃ x ∈ s.clients, x.ptr = c.ptr ∧ f ∈ x.pushed) ∨
        ∃ l ∈ s.cclinks, l.p1 = some c.ptr ∧ f = head Proto.FOUND ++ l.calleeId.1 ∧
          (l.state.undecided = false ∨ Consents e l) := by
    rintro s e t hs hok hstep ⟨x, hx, hptr, hfx⟩
    have hstepped := (nodeStep_consent hs hok hstep).found x hx f hfx hfound
    rwa [hptr] at hstepped
  rcases run_cause (fun s e t hs hok hstep => nodeStep_settled hs hok hstep) hcause hstart hsafe
    hrun ⟨c, hc, rfl, hf⟩ with ⟨x, hx, -⟩ | ⟨before, e, after, u, rfl, hu, l, hl, hp1, heq, hby⟩
  · simp [hempty] at hx
  · rcases hby with hdec | hconsent
    · -- the link was decided before, and its consent came earlier
      obtain ⟨before', e', after', u', rfl, hu', l₀, hl₀, hsame, hconsent⟩ :=
        decided_by_consent hstart hnone hsafe.of_append hu hl hdec
      refine ⟨before', e', after' ++ e :: after, u', by simp, hu', l₀, hl₀, ?_, ?_, hconsent⟩
      · rw [← hsame.p1, hp1]
      · rw [heq, hsame.calleeId]
    · exact ⟨before, e, after, u, rfl, hu, l, hl, hp1, heq, hconsent⟩

end Runs

/-- **The callee's consent.**  In a run without unasked answers of other nodes and without
a login that is missed, a link leaves the state in which it waits for its callee when the
callee, or the callee's own node, allows it, and `FOUND` has been pushed for links with
such a consent only. -/
theorem link_advances_by_consent
    {a : SockAddr} {r : Bool} {now : Nat} {mem : Nat → Bool} {rnd : Nat → UInt8}
    {verify : Ptr → Frame → Bool} {reached : List ClientEvent → Ptr → Bool}
    {es : List NodeEvent} {e : NodeEvent} {n n' : Node}
    (hsafe : Meets nodeStep consentSafe (Node.init a r now mem rnd verify reached) (es ++ [e]))
    (hrun : run nodeStep (Node.init a r now mem rnd verify reached) es = some n)
    (hstep : nodeStep n e = some n') :
    (∀ l ∈ n.cclinks, ∀ l' ∈ n'.cclinks, l'.ptr = l.ptr → l'.state ≠ l.state →
      (l.state = .localWaitRep ∨ l.state = .n2nCleWaitRep → CalleeAllows e l) ∧
      (l.state = .n2nClrWaitRep → CalleeNodeAllows e l)) ∧
    ∀ c ∈ n'.clients, ∀ f ∈ c.pushed, byteAt f 0 = Proto.FOUND →
      ∃ before e₀ after u, es ++ [e] = before ++ e₀ :: after ∧
        run nodeStep (Node.init a r now mem rnd verify reached) before = some u ∧
        ∃ l ∈ u.cclinks, l.p1 = some c.ptr ∧ f = head Proto.FOUND ++ l.calleeId.1 ∧
          Consents e₀ l := by
  have hok : consentSafe n e := hsafe.next hrun
  have hn : Settled n :=
    run_invariant (fun s e t hs hok hstep => nodeStep_settled hs hok hstep) settled_init
      hsafe.of_append hrun
  constructor
  · intro l hl l' hl' hptr hleft
    constructor
    · intro hst
      have hby := step_by_consent hn hok hstep hl hl' hptr (by tauto) hleft
      rcases hst with hst | hst <;> simpa [Consents, hst, CcState.kind] using hby
    · intro hst
      have hby := step_by_consent hn hok hstep hl hl' hptr (by tauto) hleft
      simpa [Consents, hst, CcState.kind] using hby
  · intro c hc f hf hfound
    exact found_by_consent settled_init rfl rfl hsafe (run_concat hrun hstep) hc hf hfound

/-- The callee answers the call. -/
theorem link_advances_by_consent_allowed :
    ∃ l ∈ (stateAfter freshNode callRequested).cclinks,
      ∃ l' ∈ (stateAfter freshNode callAllowed).cclinks,
        l.state = .localWaitRep ∧ l'.state = .localWaitConnCle ∧
        CalleeAllows (.c2nFrame 2 (head Proto.CONNALLOW ++ (Id.ofByte 1).1)) l := by
  have hsafe : Meets nodeStep consentSafe freshNode callAllowed := by decide +kernel
  have hrun := @stateAfter_run freshNode callRequested (by decide +kernel)
  have hstep := @stateAfter_step freshNode callRequested
    (.c2nFrame 2 (head Proto.CONNALLOW ++ (Id.ofByte 1).1)) (by decide +kernel)
  obtain ⟨l, hl, l', hl', hptr, hst, hst'⟩ : ∃ l ∈ (stateAfter freshNode callRequested).cclinks,
      ∃ l' ∈ (stateAfter freshNode callAllowed).cclinks, l'.ptr = l.ptr ∧
        l.state = .localWaitRep ∧ l'.state = .localWaitConnCle := by decide +kernel
  have hby := (link_advances_by_consent hsafe hrun hstep).1 l hl l' hl' hptr (by simp [hst, hst'])
  exact ⟨l, hl, l', hl', hst, hst', hby.1 (.inl hst)⟩

/-- The message with which a node, record 4, answers for client 2. -/
def answeredByNode : NodeEvent :=
  .n2nFrame 4 (head Proto.N2NALLOW ++ (Id.ofByte 1).1 ++ (Id.ofByte 2).1)

/-- Another node answers for the callee, who is a client of this node: the link
advances, and the caller gets `FOUND`, without the callee. -/
theorem link_advances_unasked :
    ∃ n n', Reachable n ∧ nodeStep n answeredByNode = some n' ∧
      (∃ l ∈ n.cclinks, ∃ l' ∈ n'.cclinks, l'.ptr = l.ptr ∧ l.state = .localWaitRep ∧
        l'.state = .localWaitConnCle ∧ ¬CalleeAllows answeredByNode l) ∧
      ∃ c ∈ n'.clients, c.ptr = 1 ∧ head Proto.FOUND ++ (Id.ofByte 2).1 ∈ c.pushed := by
  have hreach := @stateAfter_reachable
    (callRequested ++ [.nodewait 20 ⟨0x08080808, 2299⟩]) (by decide +kernel)
  have hstep := @stateAfter_step freshNode
    (callRequested ++ [.nodewait 20 ⟨0x08080808, 2299⟩]) answeredByNode (by decide +kernel)
  refine ⟨_, _, hreach, hstep, ?_, by decide +kernel⟩
  obtain ⟨l, hl, l', hl', hptr, hst, hst'⟩ :
      ∃ l ∈ (stateAfter freshNode
          (callRequested ++ [.nodewait 20 ⟨0x08080808, 2299⟩])).cclinks,
        ∃ l' ∈ (stateAfter freshNode
            (callRequested ++ [.nodewait 20 ⟨0x08080808, 2299⟩] ++ [answeredByNode])).cclinks,
          l'.ptr = l.ptr ∧ l.state = .localWaitRep ∧ l'.state = .localWaitConnCle := by
    decide +kernel
  refine ⟨l, hl, l', hl', hptr, hst, hst', ?_⟩
  rintro ⟨q, f, heq, -⟩
  cases heq

end PicaPica
