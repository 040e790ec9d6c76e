import PicaPica.Node.NewconnRefs

/-!
# The records of links

What a change of the node can do to one link (`LinkChange`), and what follows for all
links of a node: the fields of a link fit its state (`link_fits_state`), and as long as
no request makes a second link for two clients, there is one link for a caller and a
callee (`one_link_per_call`).
-/

namespace PicaPica

open Table Machine

/-! ## Changes of one link -/

/-- What one change of the node makes of a link that stays in the list. -/
inductive LinkChange (n₀ : Node) (e : NodeEvent) (n : Node) (l : CCLink) : CCLink → Prop
  | same : LinkChange n₀ e n l l
  | attach (nl : Ptr) : LinkChange n₀ e n l (l.attachRemotecleNode nl)
  | setwaitconn : LinkChange n₀ e n l l.setwaitconn
  | connid (i : Nat) (f : Frame) (c : Client) :
      (n.slot i).sck ≠ -1 → n.cclinkListSearch (idAt f 2) (idAt f (2 + idSize)) = some l →
      l.awaited = some (some c.ptr) → c ∈ n.clients → (n.slot i).addr.addr = c.addr.addr →
      e.brings n₀ i f → byteAt f 0 = Proto.CONNID → n₀.Unmoved n i →
      LinkChange n₀ e n l (l.setwaitanontlsshutdown (n.slot i).sck)
  | activate (i : Nat) (io : NewconnResults) :
      (n.slot i).iconn = some l.ptr → (n.slot i).type = .c2c →
      (n.slot i).state = .waitAnonTlsShutdown → e = .newconnRead i io → io.shutdown = .done →
      n.cclinks = n₀.cclinks → n.newconns = n₀.newconns →
      LinkChange n₀ e n l l.activate
  | relay (l' : CCLink) :
      l.state.active → l'.core = l.core →
      (∀ d, l.state = remoteState d → (l.relay d).Idle → (l'.relay d).Idle) →
      RelayedBy n₀ e l l' → LinkChange n₀ e n l l'

section Change

variable {n₀ n n' : Node} {e : NodeEvent} {l l' : CCLink}

theorem LinkChange.endpoints (h : LinkChange n₀ e n l l') : l.SameEndpoints l' := by
  cases h with
  | same => exact ⟨rfl, rfl, rfl, rfl, rfl, rfl⟩
  | attach nl => exact endpoints_attachRemotecleNode
  | setwaitconn => exact endpoints_setwaitconn
  | connid i f c => exact endpoints_setwaitanontlsshutdown
  | activate i io => exact endpoints_activate
  | relay l' hst hcore hidle hby => exact endpoints_of_core hcore

/-- **Every link after a change was there before it, or is a new one.** -/
theorem Act.link_cases
    (hcore : Core n) (hact : Act n₀ e n n') (hl' : l' ∈ n'.cclinks) :
    (∃ l ∈ n.cclinks, LinkChange n₀ e n l l') ∨
      n.LinkStart l' ∧ n'.cclinks = n.cclinks ++ [l'] ∧
        (n.cclinkListSearch l'.callerId l'.calleeId = none ∨ e.asksAgain n₀) := by
  -- one link is changed, the others stay
  have one : ∀ {p : Ptr} {g : CCLink → CCLink}, l' ∈ modify CCLink.ptr p g n.cclinks →
      (∀ l ∈ n.cclinks, l.ptr = p → LinkChange n₀ e n l (g l)) →
      ∃ l ∈ n.cclinks, LinkChange n₀ e n l l' := by
    intro p g hmem hg
    obtain ⟨l, hl, rfl⟩ := mem_modify.mp hmem
    refine ⟨l, hl, ?_⟩
    split_ifs with hp
    · exact hg l hl hp
    · exact .same
  have kept : l' ∈ n.cclinks → ∃ l ∈ n.cclinks, LinkChange n₀ e n l l' :=
    fun hl => ⟨l', hl, .same⟩
  cases hact with
  | deleteClient c call hc hdel hleave =>
      change l' ∈ (n.dropClient c).cclinks at hl'
      rw [dropClient_cclinks hcore hc] at hl'
      exact .inl (kept (List.mem_filter.mp hl').1)
  | deleteNodelink nl hnl hdel => exact .inl (kept (List.mem_filter.mp hl').1)
  | addLink l hl hask =>
      rcases List.mem_append.mp hl' with hl' | hl'
      · exact .inl (kept hl')
      · obtain rfl := List.mem_singleton.mp hl'
        exact .inr ⟨hl, rfl, hask⟩
  | attach l nl f he hk hlinked hs => exact .inl (one hl' fun _ _ _ => .attach nl)
  | allow l ci id f he hk hp hs hst => exact .inl (one hl' fun _ _ _ => .setwaitconn)
  | n2nallow l nl f he hk hs hp1 hm => exact .inl (one hl' fun _ _ _ => .setwaitconn)
  | relay l m hl hst heq hidle hby =>
      refine .inl (one hl' fun x hx hp => ?_)
      rw [hcore.linksDistinct.eq hx hl hp]
      exact .relay m hst heq hidle hby
  | deleteLink l hl hdel he => exact .inl (kept (mem_remove.mp hl').1)
  | connid i l f c he hocc hnone hs haw hc haddr hbrings hid hsame =>
      refine .inl (one hl' fun x hx hp => ?_)
      rw [hcore.linksDistinct.eq hx (cclinkListSearch_spec hs).1 hp]
      exact .connid i f c hocc hs haw hc haddr hbrings hid hsame
  | connidLost i l he hfail hocc hnone hl haw => exact .inl (kept (mem_remove.mp hl').1)
  | close i g n' he hg htype hclose =>
      obtain ⟨k, hk, rfl⟩ := newconnClose_ok hclose
      rcases hk with ⟨-, rfl⟩ | ⟨c, hc, -, -, rfl⟩ | ⟨l, -, -, -, rfl⟩
      · exact .inl (kept hl')
      · rw [dropClient_setSlot] at hl'
        change l' ∈ (n.dropClient c).cclinks at hl'
        rw [dropClient_cclinks hcore hc] at hl'
        exact .inl (kept (List.mem_filter.mp hl').1)
      · exact .inl (kept (mem_remove.mp hl').1)
  | linkReady i l he hi hty hl hwait hdone hlinks hslots =>
      obtain ⟨io, heq, hshut⟩ := hdone
      refine .inl (one hl' fun x hx hp => ?_)
      rw [hcore.linksDistinct.eq hx hl hp]
      exact .activate i io hi hty hwait heq hshut hlinks hslots
  | _ => exact .inl (kept hl')

/-- Addresses are not given away twice. -/
theorem Act.next_le (hcore : Core n) (hact : Act n₀ e n n') : n.next ≤ n'.next := by
  have dropped : ∀ {c : Client}, c ∈ n.clients → n.next ≤ (n.dropClient c).next := by
    intro c hc
    rcases dropClient_cases hcore hc with ⟨ms, heq⟩ | ⟨q, ms, -, -, heq⟩
    · rw [heq]
      exact Nat.le_refl _
    · rw [heq]
      exact Nat.le_refl _
  cases hact with
  | deleteClient c call hc hdel hleave => exact dropped hc
  | addNodelink nl a hptr he hold => exact Nat.le_succ _
  | addLink l hl hask => exact Nat.le_succ _
  | initreq i he hocc hone => exact Nat.le_succ _
  | close i g n' he hg htype hclose =>
      obtain ⟨k, hk, rfl⟩ := newconnClose_ok hclose
      rcases hk with ⟨-, rfl⟩ | ⟨c, hc, -, -, rfl⟩ | ⟨l, -, -, -, rfl⟩
      · exact Nat.le_refl _
      · rw [dropClient_setSlot]
        exact dropped hc
      · exact Nat.le_refl _
  | nodeReady i nl he hty hptr hsck => exact Nat.le_succ _
  | _ => exact Nat.le_refl _

/-- A property of single links that a new link has and a change keeps. -/
structure LinkKept (n₀ : Node) (e : NodeEvent) (P : CCLink → Prop) : Prop where
  start : ∀ {n : Node} {l : CCLink}, n.LinkStart l → P l
  change : ∀ {n : Node} {l l' : CCLink}, LinkChange n₀ e n l l' → P l → P l'

/-- All links have the property after a call if they had it before. -/
theorem nodeStep_links
    {P : CCLink → Prop}
    (hP : LinkKept n e P) (hcore : Core n) (h : ∀ l ∈ n.cclinks, P l)
    (hstep : nodeStep n e = some n') :
    ∀ l ∈ n'.cclinks, P l := by
  have hact : ∀ u v, (Core u ∧ ∀ l ∈ u.cclinks, P l) → Act n e u v →
      Core v ∧ ∀ l ∈ v.cclinks, P l := by
    rintro u v ⟨hu, hall⟩ hact
    refine ⟨hact.core hu, fun l' hl' => ?_⟩
    rcases hact.link_cases hu hl' with ⟨l, hl, hchange⟩ | ⟨hstart, -, -⟩
    · exact hP.change hchange (hall l hl)
    · exact hP.start hstart
  exact (changes_invariant hact ⟨hcore, h⟩ (nodeStep_acts hcore hstep)).2

/-- **Rule for the links of a run.** -/
theorem run_links
    {a : SockAddr} {r : Bool} {now : Nat} {mem : Nat → Bool} {rnd : Nat → UInt8}
    {verify : Ptr → Frame → Bool} {reached : List ClientEvent → Ptr → Bool} {es : List NodeEvent}
    {P : CCLink → Prop} {ok : Node → NodeEvent → Prop}
    (hP : ∀ n e, ok n e → LinkKept n e P)
    (hok : Meets nodeStep ok (Node.init a r now mem rnd verify reached) es)
    (hrun : run nodeStep (Node.init a r now mem rnd verify reached) es = some n) :
    ∀ l ∈ n.cclinks, P l := by
  have hstep : ∀ s e t, (Core s ∧ ∀ l ∈ s.cclinks, P l) → ok s e → nodeStep s e = some t →
      Core t ∧ ∀ l ∈ t.cclinks, P l := fun s e t hs hse hstep =>
    ⟨nodeStep_core hs.1 hstep, nodeStep_links (hP s e hse) hs.1 hs.2 hstep⟩
  have hnone : (Node.init a r now mem rnd verify reached).cclinks = [] := rfl
  exact (run_invariant hstep ⟨core_init, by simp [hnone]⟩ hok hrun).2

end Change

/-! ## Fields that fit the state -/

/-- The buffer is there and has the length that the link has noted for it. -/
def RelayBuf.Allocated (b : RelayBuf) : Prop :=
  b.buflen = defaultBufSize ∧ b.buf.length = b.buflen

/-- An active state, or the last state before it. -/
def CcState.last : CcState → Bool
  | .localWaitConnClrAnonTlsShutdown => true
  | .localActive => true
  | .n2nClrWaitConnClrAnonTlsShutdown => true
  | .n2nClrActive => true
  | .n2nCleWaitConnCleAnonTlsShutdown => true
  | .n2nCleActive => true
  | _ => false

/-- The record of the link fits its state. -/
structure Node.FitsState (n : Node) (l : CCLink) : Prop where
  loc : l.state.kind = .loc →
    (∃ c ∈ n.clients, l.p1 = some c.ptr ∧ l.callerId = c.id) ∧
    (∃ c ∈ n.clients, l.p2 = some c.ptr ∧ l.calleeId = c.id) ∧
    l.callerNode = none ∧ l.calleeNode = none
  n2nclr : l.state.kind = .n2nclr →
    (∃ c ∈ n.clients, l.p1 = some c.ptr) ∧ l.p2 = none ∧ l.callerNode = none ∧
    (l.state = .n2nClrWaitSearch ∧ l.calleeNode = none ∨
      l.state ≠ .n2nClrWaitSearch ∧ ∃ nl ∈ n.nodelinks, l.calleeNode = some nl.ptr)
  n2ncle : l.state.kind = .n2ncle →
    (∃ c ∈ n.clients, l.p2 = some c.ptr) ∧ l.p1 = none ∧ l.calleeNode = none ∧
    ∃ nl ∈ n.nodelinks, l.callerNode = some nl.ptr
  buffers : l.state.last → l.p1p2.Allocated ∧ l.p2p1.Allocated
  sockets : l.state.last → (l.p1 ≠ none → l.sckP1 ≠ -1) ∧ (l.p2 ≠ none → l.sckP2 ≠ -1)

/-- The sockets and the buffers that the state of the link needs. -/
structure CCLink.Supplied (l : CCLink) : Prop where
  callee : l.state = .localWaitConnCleAnonTlsShutdown ∨ l.state = .localWaitConnClr →
    l.sckP2 ≠ -1
  buffers : l.state.last → l.p1p2.Allocated ∧ l.p2p1.Allocated
  sckP1 : l.state.last → l.state.kind ≠ .n2ncle → l.sckP1 ≠ -1
  sckP2 : l.state.last → l.state.kind ≠ .n2nclr → l.sckP2 ≠ -1

/-- Sockets and lengths of buffers, which relaying does not touch. -/
def CCLink.supplies (l : CCLink) : Socket × Socket × (Nat × Nat) × Nat × Nat :=
  (l.sckP1, l.sckP2, (l.p1p2.buflen, l.p1p2.buf.length), l.p2p1.buflen, l.p2p1.buf.length)

section Supplied

variable {n₀ n n' : Node} {e : NodeEvent} {l l' : CCLink}

theorem unseen_supplies : Unseen CCLink.supplies := by
  refine ⟨?_, ?_, ?_, ?_, fun _ _ => rfl⟩
  · intro cc d b hbuflen hlen
    cases d
    · simpa [CCLink.supplies, CCLink.setRelay, CCLink.relay] using ⟨hbuflen, hlen⟩
    · simpa [CCLink.supplies, CCLink.setRelay, CCLink.relay] using ⟨hbuflen, hlen⟩
  · intro cc d
    cases d <;> rfl
  · intro cc d
    cases d <;> rfl
  · intro cc d
    cases d <;> rfl

theorem CCLink.Supplied.of_waiting
    (hlast : l.state.last = false) (hst : l.state ≠ .localWaitConnCleAnonTlsShutdown)
    (hst' : l.state ≠ .localWaitConnClr) :
    l.Supplied := by
  refine ⟨?_, ?_, ?_, ?_⟩
  · rintro (h | h)
    · exact absurd h hst
    · exact absurd h hst'
  · simp [hlast]
  · simp [hlast]
  · simp [hlast]

theorem supplied_setwaitconn (h : l.Supplied) : l.setwaitconn.Supplied := by
  cases hst : l.state
  case localWaitRep | n2nClrWaitRep | n2nCleWaitRep =>
    simp only [CCLink.setwaitconn, hst]
    exact .of_waiting rfl (by rintro ⟨⟩) (by rintro ⟨⟩)
  all_goals simpa [CCLink.setwaitconn, hst] using h

theorem supplied_attachRemotecleNode
    {nl : Ptr}
    (h : l.Supplied) :
    (l.attachRemotecleNode nl).Supplied := by
  rw [CCLink.attachRemotecleNode]
  split_ifs
  · exact .of_waiting rfl (by rintro ⟨⟩) (by rintro ⟨⟩)
  · exact h

theorem allocbufs_allocated : l.allocbufs.p1p2.Allocated ∧ l.allocbufs.p2p1.Allocated :=
  ⟨⟨rfl, List.length_replicate⟩, rfl, List.length_replicate⟩

/-- The connection that has arrived is the one that was missing. -/
theorem supplied_setwaitanontlsshutdown
    {s : Socket}
    (hs : s ≠ -1) (h : l.Supplied) :
    (l.setwaitanontlsshutdown s).Supplied := by
  cases hst : l.state
  case localWaitConnCle =>
    simp only [CCLink.setwaitanontlsshutdown, hst]
    exact ⟨fun _ => hs, (by rintro ⟨⟩), (by rintro ⟨⟩), (by rintro ⟨⟩)⟩
  case localWaitConnClr =>
    simp only [CCLink.setwaitanontlsshutdown, hst]
    exact ⟨(by simp), fun _ => allocbufs_allocated, fun _ _ => hs, fun _ _ => h.callee (.inr hst)⟩
  case n2nClrWaitConnClr =>
    simp only [CCLink.setwaitanontlsshutdown, hst]
    exact ⟨(by simp), fun _ => allocbufs_allocated, fun _ _ => hs, fun _ hk => absurd rfl hk⟩
  case n2nCleWaitConnCle =>
    simp only [CCLink.setwaitanontlsshutdown, hst]
    exact ⟨(by simp), fun _ => allocbufs_allocated, fun _ hk => absurd rfl hk, fun _ _ => hs⟩
  all_goals simpa [CCLink.setwaitanontlsshutdown, hst] using h

theorem supplied_activate (h : l.Supplied) : l.activate.Supplied := by
  cases hst : l.state
  case localWaitConnCleAnonTlsShutdown =>
    simp only [CCLink.activate, hst]
    exact ⟨fun _ => h.callee (.inl hst), (by rintro ⟨⟩), (by rintro ⟨⟩), (by rintro ⟨⟩)⟩
  case localWaitConnClrAnonTlsShutdown | n2nClrWaitConnClrAnonTlsShutdown |
      n2nCleWaitConnCleAnonTlsShutdown =>
    have hbuf := h.buffers (by rw [hst]; rfl)
    have hsck := h.sckP1 (by rw [hst]; rfl)
    have hsck' := h.sckP2 (by rw [hst]; rfl)
    rw [hst] at hsck hsck'
    simp only [CCLink.activate, hst]
    exact ⟨(by simp), fun _ => hbuf, fun _ => hsck, fun _ => hsck'⟩
  all_goals simpa [CCLink.activate, hst] using h

theorem CCLink.Supplied.of_supplies
    (h : l.Supplied) (hst : l'.state = l.state) (hsame : l'.supplies = l.supplies) :
    l'.Supplied := by
  simp only [CCLink.supplies, Prod.mk.injEq] at hsame
  obtain ⟨hs1, hs2, ⟨hb1, hn1⟩, hb2, hn2⟩ := hsame
  constructor
  · rw [hst, hs2]
    exact h.callee
  · rw [hst, RelayBuf.Allocated, RelayBuf.Allocated, hb1, hb2, hn1, hn2]
    exact h.buffers
  · rw [hst, hs1]
    exact h.sckP1
  · rw [hst, hs2]
    exact h.sckP2

theorem supplied_kept : LinkKept n₀ e CCLink.Supplied := by
  refine ⟨fun hstart => ?_, fun hchange h => ?_⟩
  · cases hstart <;> exact .of_waiting rfl nofun nofun
  · cases hchange with
    | same => exact h
    | attach nl => exact supplied_attachRemotecleNode h
    | setwaitconn => exact supplied_setwaitconn h
    | connid i f c hocc => exact supplied_setwaitanontlsshutdown hocc h
    | activate i io => exact supplied_activate h
    | relay l' hst hcore hidle hby =>
        exact h.of_supplies (state_of_core hcore) (unseen_supplies.relayedBy hby)

theorem Reachable.supplied (hn : Reachable n) : ∀ l ∈ n.cclinks, l.Supplied := by
  obtain ⟨a, r, now, mem, rnd, verify, reached, es, hrun⟩ := hn
  exact run_links (fun _ _ _ => supplied_kept) meets_true hrun

/-- An end of a link that is not `NULL`. -/
theorem CCLink.Shape.some_p1
    (h : l.Shape) (hends : n.Ends l) (hk : l.state.kind ≠ .n2ncle) :
    ∃ c ∈ n.clients, l.p1 = some c.ptr ∧ l.callerId = c.id := by
  cases hp : l.p1 with
  | none => exact absurd (h.p1.mp hp) hk
  | some p =>
      obtain ⟨c, hc, rfl, -, hid⟩ := hends.p1 p hp
      exact ⟨c, hc, rfl, hid.symm⟩

theorem CCLink.Shape.some_p2
    (h : l.Shape) (hends : n.Ends l) (hk : l.state.kind ≠ .n2nclr) :
    ∃ c ∈ n.clients, l.p2 = some c.ptr ∧ l.calleeId = c.id := by
  cases hp : l.p2 with
  | none => exact absurd (h.p2.mp hp) hk
  | some p =>
      obtain ⟨c, hc, rfl, -, hid⟩ := hends.p2 p hp
      exact ⟨c, hc, rfl, hid.symm⟩

theorem CCLink.Shape.calleeNode_cases
    (h : l.Shape) (hends : n.Ends l) (hk : l.state.kind = .n2nclr) :
    l.state = .n2nClrWaitSearch ∧ l.calleeNode = none ∨
      l.state ≠ .n2nClrWaitSearch ∧ ∃ nl ∈ n.nodelinks, l.calleeNode = some nl.ptr := by
  by_cases hst : l.state = .n2nClrWaitSearch
  · exact .inl ⟨hst, h.calleeNode.mpr (.inr hst)⟩
  · refine .inr ⟨hst, ?_⟩
    cases hm : l.calleeNode with
    | none =>
        rcases h.calleeNode.mp hm with hne | hsearch
        · exact absurd hk hne
        · exact absurd hsearch hst
    | some m =>
        obtain ⟨nl, hnl, rfl⟩ := hends.calleeNode m hm
        exact ⟨nl, hnl, rfl⟩

theorem CCLink.Supplied.fits
    (h : l.Supplied) (hshape : l.Shape) (hends : n.Ends l) :
    n.FitsState l := by
  constructor
  · intro hk
    refine ⟨hshape.some_p1 hends (by simp [hk]), hshape.some_p2 hends (by simp [hk]), ?_, ?_⟩
    · exact hshape.callerNode.mpr (by simp [hk])
    · exact hshape.calleeNode.mpr (.inl (by simp [hk]))
  · intro hk
    obtain ⟨c, hc, hp1, -⟩ := hshape.some_p1 hends (by simp [hk])
    refine ⟨⟨c, hc, hp1⟩, hshape.p2.mpr hk, ?_, hshape.calleeNode_cases hends hk⟩
    exact hshape.callerNode.mpr (by simp [hk])
  · intro hk
    obtain ⟨c, hc, hp2, -⟩ := hshape.some_p2 hends (by simp [hk])
    refine ⟨⟨c, hc, hp2⟩, hshape.p1.mpr hk, hshape.calleeNode.mpr (.inl (by simp [hk])), ?_⟩
    cases hm : l.callerNode with
    | none => exact absurd hk (hshape.callerNode.mp hm)
    | some m =>
        obtain ⟨nl, hnl, rfl⟩ := hends.callerNode m hm
        exact ⟨nl, hnl, rfl⟩
  · exact h.buffers
  · intro hlast
    exact ⟨fun hp => h.sckP1 hlast fun hk => hp (hshape.p1.mpr hk),
      fun hp => h.sckP2 hlast fun hk => hp (hshape.p2.mpr hk)⟩

end Supplied

/-- **The record of a link fits its state** in every state the node can reach. -/
theorem link_fits_state
    {n : Node}
    (hn : Reachable n) :
    ∀ l ∈ n.cclinks, n.FitsState l :=
  fun l hl => (hn.supplied l hl).fits (hn.core.shape l hl) (hn.core.ends l hl)

/-- Both clients of a call have connected. -/
def callConnected : List NodeEvent :=
  calleeArrived ++ [.newconnRead 2 shutdownDone, .accept 13 ⟨7, 8⟩ true,
    .newconnRead 3 (readBytes (head Proto.CONNID ++ (Id.ofByte 1).1 ++ (Id.ofByte 2).1)),
    .newconnRead 3 shutdownDone]

theorem link_fits_state_connected :
    ∃ l ∈ (stateAfter freshNode callConnected).cclinks, l.state = .localActive ∧
      l.sckP1 = 13 ∧ l.sckP2 = 12 ∧ (stateAfter freshNode callConnected).FitsState l := by
  have hreach := @stateAfter_reachable callConnected (by decide +kernel)
  obtain ⟨l, hl, hst, hs1, hs2⟩ : ∃ l ∈ (stateAfter freshNode callConnected).cclinks,
      l.state = .localActive ∧ l.sckP1 = 13 ∧ l.sckP2 = 12 := by decide +kernel
  exact ⟨l, hl, hst, hs1, hs2, link_fits_state hreach l hl⟩

/-! ## One link for a call -/

/-- There is at most one link for a caller and a callee. -/
def Node.OnePerPair (n : Node) : Prop :=
  ∀ l ∈ n.cclinks, ∀ l' ∈ n.cclinks, l.callerId = l'.callerId → l.calleeId = l'.calleeId → l = l'

section OnePerPair

variable {n₀ n n' : Node} {e : NodeEvent} {l : CCLink}

theorem Node.OnePerPair.search
    (h : n.OnePerPair) (hl : l ∈ n.cclinks) :
    n.cclinkListSearch l.callerId l.calleeId = some l := by
  cases hs : n.cclinkListSearch l.callerId l.calleeId with
  | none =>
      simp only [Node.cclinkListSearch, List.find?_eq_none, decide_eq_true_eq] at hs
      exact absurd ⟨rfl, rfl⟩ (hs l hl)
  | some l' =>
      obtain ⟨hl', hcaller, hcallee⟩ := cclinkListSearch_spec hs
      rw [h l' hl' l hl hcaller hcallee]

/-- Links with an address of their own need only be compared by it. -/
theorem Node.OnePerPair.of_ptr
    (hd : Distinct CCLink.ptr n.cclinks)
    (h : ∀ l ∈ n.cclinks, ∀ l' ∈ n.cclinks, l.callerId = l'.callerId → l.calleeId = l'.calleeId →
      l.ptr = l'.ptr) :
    n.OnePerPair :=
  fun l hl l' hl' hcaller hcallee => hd.eq hl hl' (h l hl l' hl' hcaller hcallee)

/-- A link for which nothing was found is the only one for its clients. -/
theorem search_none
    {i j : Id}
    (h : n.cclinkListSearch i j = none) (hl : l ∈ n.cclinks) :
    ¬(l.callerId = i ∧ l.calleeId = j) := by
  simp only [Node.cclinkListSearch, List.find?_eq_none, decide_eq_true_eq] at h
  exact h l hl

theorem Act.onePerPair
    (hcore : Core n) (h : n.OnePerPair) (hask : e.asksAgain n₀ = false)
    (hact : Act n₀ e n n') :
    n'.OnePerPair := by
  have hnew : ∀ {l' : CCLink}, n.cclinkListSearch l'.callerId l'.calleeId = none ∨ e.asksAgain n₀ →
      n.cclinkListSearch l'.callerId l'.calleeId = none := by
    rintro l' (hnone | hagain)
    · exact hnone
    · simp [hask] at hagain
  intro l hl l' hl' hcaller hcallee
  rcases hact.link_cases hcore hl with ⟨x, hx, hchange⟩ | ⟨hstart, heq, hfresh⟩
  · rcases hact.link_cases hcore hl' with ⟨x', hx', hchange'⟩ | ⟨hstart', heq', hfresh'⟩
    · have hsame := h x hx x' hx' ?_ ?_
      · apply (hact.core hcore).linksDistinct.eq hl hl'
        rw [hchange.endpoints.ptr, hchange'.endpoints.ptr, hsame]
      · rw [← hchange.endpoints.callerId, ← hchange'.endpoints.callerId, hcaller]
      · rw [← hchange.endpoints.calleeId, ← hchange'.endpoints.calleeId, hcallee]
    · refine absurd ⟨?_, ?_⟩ (search_none (hnew hfresh') hx)
      · rw [← hchange.endpoints.callerId, hcaller]
      · rw [← hchange.endpoints.calleeId, hcallee]
  · rcases hact.link_cases hcore hl' with ⟨x', hx', hchange'⟩ | ⟨hstart', heq', hfresh'⟩
    · refine absurd ⟨?_, ?_⟩ (search_none (hnew hfresh) hx')
      · rw [← hchange'.endpoints.callerId, hcaller]
      · rw [← hchange'.endpoints.calleeId, hcallee]
    · have hlast := heq.symm.trans heq'
      simpa using hlast

theorem nodeStep_onePerPair
    (hcore : Core n) (h : n.OnePerPair) (hask : e.asksAgain n = false)
    (hstep : nodeStep n e = some n') :
    n'.OnePerPair := by
  have hact : ∀ u v, (Core u ∧ u.OnePerPair) → Act n e u v → Core v ∧ v.OnePerPair :=
    fun u v hu hact => ⟨hact.core hu.1, hact.onePerPair hu.1 hu.2 hask⟩
  exact (changes_invariant hact ⟨hcore, h⟩ (nodeStep_acts hcore hstep)).2

end OnePerPair

/-- **One link for a call** in every state of every run in which no request is for two
clients that have a link already, unless both are clients of this node. -/
theorem one_link_per_call
    {a : SockAddr} {r : Bool} {now : Nat} {mem : Nat → Bool} {rnd : Nat → UInt8}
    {verify : Ptr → Frame → Bool} {reached : List ClientEvent → Ptr → Bool}
    {es : List NodeEvent} {n : Node}
    (hask : Meets nodeStep (fun n e => e.asksAgain n = false)
      (Node.init a r now mem rnd verify reached) es)
    (hrun : run nodeStep (Node.init a r now mem rnd verify reached) es = some n) :
    n.OnePerPair ∧ ∀ l ∈ n.cclinks, n.cclinkListSearch l.callerId l.calleeId = some l := by
  have hstep : ∀ s e t, (Core s ∧ s.OnePerPair) → e.asksAgain s = false →
      nodeStep s e = some t → Core t ∧ t.OnePerPair := fun s e t hs hse hstep =>
    ⟨nodeStep_core hs.1 hstep, nodeStep_onePerPair hs.1 hs.2 hse hstep⟩
  have hnone : (Node.init a r now mem rnd verify reached).OnePerPair := fun l hl => nomatch hl
  have hone := (run_invariant hstep ⟨core_init, hnone⟩ hask hrun).2
  exact ⟨hone, fun l hl => hone.search hl⟩

/-- A client calls one of another node. -/
def remoteCall : List NodeEvent :=
  clientLogin 10 0 1 (.ofByte 1) ++ [.nodewait 20 ⟨0x08080808, 2299⟩,
    .c2nFrame 1 (head Proto.CONNREQOUTG ++ (Id.ofByte 2).1)]

theorem one_link_per_call_remote :
    ∃ l ∈ (stateAfter freshNode remoteCall).cclinks, l.state = .n2nClrWaitSearch ∧
      (stateAfter freshNode remoteCall).cclinkListSearch (.ofByte 1) (.ofByte 2) = some l := by
  have hask : Meets nodeStep (fun n e => e.asksAgain n = false) freshNode remoteCall := by
    decide +kernel
  have hrun := @stateAfter_run freshNode remoteCall (by decide +kernel)
  obtain ⟨l, hl, hst, hcaller, hcallee⟩ : ∃ l ∈ (stateAfter freshNode remoteCall).cclinks,
      l.state = .n2nClrWaitSearch ∧ l.callerId = .ofByte 1 ∧ l.calleeId = .ofByte 2 := by
    decide +kernel
  have hsearch := (one_link_per_call hask hrun).2 l hl
  rw [hcaller, hcallee] at hsearch
  exact ⟨l, hl, hst, hsearch⟩

/-- The client asks again while the search is in progress: there are two links. -/
theorem second_link_for_call :
    ∃ n, Reachable n ∧ ¬n.OnePerPair := by
  refine ⟨stateAfter freshNode
      (remoteCall ++ [.c2nFrame 1 (head Proto.CONNREQOUTG ++ (Id.ofByte 2).1)]),
    stateAfter_reachable (by decide +kernel), fun hone => ?_⟩
  obtain ⟨l, hl, l', hl', hcaller, hcallee, hptr⟩ :
      ∃ l ∈ (stateAfter freshNode
          (remoteCall ++ [.c2nFrame 1 (head Proto.CONNREQOUTG ++ (Id.ofByte 2).1)])).cclinks,
        ∃ l' ∈ (stateAfter freshNode
            (remoteCall ++ [.c2nFrame 1 (head Proto.CONNREQOUTG ++ (Id.ofByte 2).1)])).cclinks,
          l.callerId = l'.callerId ∧ l.calleeId = l'.calleeId ∧ l.ptr ≠ l'.ptr := by
    decide +kernel
  exact hptr (congrArg CCLink.ptr (hone l hl l' hl' hcaller hcallee))

end PicaPica
