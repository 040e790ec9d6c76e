import PicaPica.Node.LinkRecord

/-!
# Write events of links

A write event fires once and has to be added again while its direction holds bytes.
`process_c2c_read` and `process_c2c_write` do so, `procmsg_N2NMSG` puts bytes into a
buffer and does not (`n2nmsg_not_woken`).  Without bytes from other nodes every direction
to a client of this node that holds bytes is waiting for its socket (`relay_woken`).
-/

namespace PicaPica

open Table Machine

/-- The write event of the socket the direction leads to is added. -/
def CCLink.writeArmed (l : CCLink) : Dir → Bool
  | .p1p2 => l.evWriteP2 = some true
  | .p2p1 => l.evWriteP1 = some true

/-- Every direction to a client of this node that holds bytes waits for its socket. -/
def Node.Woken (n : Node) : Prop :=
  ∀ l ∈ n.cclinks, ∀ d, l.state = .localActive ∨ n2nDir l.state = some d →
    0 < (l.relay d).bufpos → l.writeArmed d

/-- `event_new` has been called for the write events. -/
def CCLink.writeEvents (l : CCLink) : Bool × Bool :=
  (l.evWriteP1.isSome, l.evWriteP2.isSome)

/-- A direction that holds bytes has its write event added. -/
def CCLink.WokenDir (l : CCLink) (d : Dir) : Prop :=
  (l.relay d).bufpos ≠ 0 → l.writeArmed d

/-! ## The blocks of a write -/

section Blocks

variable {d f : Dir} {s : Socket} {o : SendOutcome} {mem : Bool} {w : C2cWrite} {cc cc' : CCLink}

theorem writeArmed_armWrite (h : cc.writeEvents = (true, true)) : (cc.armWrite d).writeArmed d := by
  simp only [CCLink.writeEvents, Prod.mk.injEq, Option.isSome_iff_exists] at h
  obtain ⟨⟨a, ha⟩, b, hb⟩ := h
  cases d <;> simp [CCLink.armWrite, CCLink.writeArmed, ha, hb]

theorem writeArmed_armWrite_other (h : f ≠ d) : (cc.armWrite d).writeArmed f = cc.writeArmed f := by
  cases d <;> cases f <;> first | rfl | exact absurd rfl h

@[simp] theorem writeArmed_setRelay {b : RelayBuf} :
    (cc.setRelay d b).writeArmed f = cc.writeArmed f := by
  cases d <;> cases f <;> rfl

@[simp] theorem writeArmed_armRead : (cc.armRead d).writeArmed f = cc.writeArmed f := by
  cases d <;> cases f <;> rfl

@[simp] theorem writeArmed_disarmRead : (cc.disarmRead d).writeArmed f = cc.writeArmed f := by
  cases d <;> cases f <;> rfl

theorem unseen_writeEvents : Unseen CCLink.writeEvents := by
  refine ⟨?_, ?_, ?_, ?_, ?_⟩
  · intro cc d b _ _
    cases d <;> rfl
  · intro cc d
    cases d <;> rfl
  · intro cc d
    cases d <;> rfl
  · intro cc d
    cases d <;> simp [CCLink.writeEvents, CCLink.armWrite]
  · intro cc s
    simp only [CCLink.writeEvents, CCLink.fired, Prod.mk.injEq]
    constructor
    · split_ifs <;> simp
    · split_ifs <;> simp

/-- Sending and its result do not touch the write events. -/
theorem settle_writeArmed :
    (settleError d o (settleSent d (attemptDir d s o mem w))).cc.writeArmed f =
      w.cc.writeArmed f := by
  have hsent : (settleSent d (attemptDir d s o mem w)).cc.writeArmed f = w.cc.writeArmed f := by
    simp only [settleSent]
    split_ifs <;> simp [attemptDir_cc]
  simp only [settleError]
  split_ifs <;> simp [hsent]

/-- A block that leaves bytes has its event added. -/
theorem writeDir_woken
    (hev : w.cc.writeEvents = (true, true)) (hbefore : s = -1 → w.cc.WokenDir d)
    (hkill : (writeDir d s o mem w).kill = false) :
    (writeDir d s o mem w).cc.WokenDir d := by
  have hev' : (settleError d o (settleSent d (attemptDir d s o mem w))).cc.writeEvents =
      (true, true) := by
    rw [unseen_writeEvents.settleError, unseen_writeEvents.settleSent, attemptDir_cc, hev]
  simp only [writeDir] at hkill ⊢
  split_ifs at hkill ⊢ with hempty hagain
  · intro hne
    exact absurd hempty hne
  · intro _
    exact writeArmed_armWrite hev'
  · intro hne
    have hs : s = -1 := by
      by_contra hs
      exact hagain ⟨by simp [hkill], hne, hs⟩
    rw [settle_writeArmed]
    exact hbefore hs hempty

/-- A block leaves the other direction alone. -/
theorem writeDir_woken_other
    (hne : f ≠ d) (h : w.cc.WokenDir f) :
    (writeDir d s o mem w).cc.WokenDir f := by
  have harmed : (writeDir d s o mem w).cc.writeArmed f = w.cc.writeArmed f := by
    simp only [writeDir]
    split_ifs
    · rfl
    · rw [writeArmed_armWrite_other hne, settle_writeArmed]
    · rw [settle_writeArmed]
  rw [CCLink.WokenDir, writeDir_other hne, harmed]
  exact h

/-- After a write that keeps the link both directions wait for their sockets; called
without a socket, it adds nothing and takes nothing away. -/
theorem processC2cWrite_woken
    {env : WriteEnv}
    (hev : cc.writeEvents = (true, true)) (hbefore : s = -1 → ∀ d, cc.WokenDir d)
    (hkill : (processC2cWrite s env cc).kill = false) :
    ∀ d, (processC2cWrite s env cc).cc.WokenDir d := by
  rw [processC2cWrite] at hkill ⊢
  have hfirst : (writeDir .p1p2 s env.send12 env.mem12 ⟨cc, env.ret0, false, [], [], []⟩).kill =
      false := by
    by_contra hk
    rw [writeDir_kill ((Bool.not_eq_false _).mp hk)] at hkill
    cases hkill
  intro d
  cases d with
  | p1p2 =>
      refine writeDir_woken_other (by rintro ⟨⟩) (writeDir_woken hev ?_ hfirst)
      exact fun hs => hbefore hs .p1p2
  | p2p1 =>
      refine writeDir_woken ?_ (fun hs => ?_) hkill
      · rw [unseen_writeEvents.writeDir, hev]
      · exact writeDir_woken_other (by rintro ⟨⟩) (hbefore hs .p2p1)

/-- A write leaves an empty direction empty. -/
theorem processC2cWrite_empty
    {env : WriteEnv}
    (h : (cc.relay d).bufpos = 0) :
    ((processC2cWrite s env cc).cc.relay d).bufpos = 0 := by
  have block : ∀ {f : Dir} {o : SendOutcome} {mem : Bool} {w : C2cWrite},
      (w.cc.relay d).bufpos = 0 → ((writeDir f s o mem w).cc.relay d).bufpos = 0 := by
    intro f o mem w hw
    by_cases hfd : d = f
    · subst hfd
      rw [writeDir, if_pos hw, hw]
    · rw [writeDir_other hfd, hw]
  rw [processC2cWrite]
  exact block (block h)

end Blocks

/-! ## Links -/

/-- What is known of the write events of a link to which no other node has sent bytes. -/
structure CCLink.Awake (l : CCLink) : Prop where
  supplied : l.Supplied
  empty : l.state.active = false → ∀ d, (l.relay d).bufpos = 0
  events : l.state = .localActive → l.writeEvents = (true, true)
  woken : l.state = .localActive → ∀ d, l.WokenDir d
  unfed : ∀ d, n2nDir l.state = some d → (l.relay d).bufpos = 0

section Awake

variable {n₀ : Node} {e : NodeEvent} {l l' : CCLink} {d : Dir} {s : Socket}

/-- A link that is not active. -/
theorem CCLink.Awake.of_empty
    (hsupplied : l.Supplied) (hact : l.state.active = false) (h : ∀ d, (l.relay d).bufpos = 0) :
    l.Awake := by
  refine ⟨hsupplied, fun _ => h, ?_, ?_, fun d _ => h d⟩
  · intro hst
    simp [hst, CcState.active] at hact
  · intro hst
    simp [hst, CcState.active] at hact

theorem active_of_n2nDir {st : CcState} (h : n2nDir st = some d) : st.active := by
  cases st <;> simp_all [n2nDir, CcState.active]

theorem awake_setwaitconn (h : l.Awake) : l.setwaitconn.Awake := by
  by_cases hact : l.state.active
  · have hsame : l.setwaitconn = l := by
      cases hst : l.state <;> simp_all [CCLink.setwaitconn, CcState.active]
    rwa [hsame]
  · have hempty := h.empty (Bool.eq_false_iff.mpr hact)
    refine .of_empty (supplied_setwaitconn h.supplied) ?_ fun d => ?_
    · cases hst : l.state <;> simp_all [CCLink.setwaitconn, CcState.active]
    · rw [← hempty d]
      cases hst : l.state <;> cases d <;> simp [CCLink.setwaitconn, CCLink.relay, hst]

theorem awake_attachRemotecleNode {nl : Ptr} (h : l.Awake) :
    (l.attachRemotecleNode nl).Awake := by
  have hsupplied := @supplied_attachRemotecleNode l nl h.supplied
  rw [CCLink.attachRemotecleNode] at hsupplied ⊢
  split_ifs at hsupplied ⊢ with hst
  · refine .of_empty hsupplied rfl fun d => ?_
    rw [← h.empty (by rw [hst]; rfl) d]
    cases d <;> rfl
  · exact h

theorem awake_setwaitanontlsshutdown (hs : s ≠ -1) (h : l.Awake) :
    (l.setwaitanontlsshutdown s).Awake := by
  by_cases hact : l.state.active
  · have hsame : l.setwaitanontlsshutdown s = l := by
      cases hst : l.state <;> simp_all [CCLink.setwaitanontlsshutdown, CcState.active]
    rwa [hsame]
  · have hempty := h.empty (Bool.eq_false_iff.mpr hact)
    refine .of_empty (supplied_setwaitanontlsshutdown hs h.supplied) ?_ fun d => ?_
    · cases hst : l.state <;> simp_all [CCLink.setwaitanontlsshutdown, CcState.active]
    · rw [← hempty d]
      cases hst : l.state <;> cases d <;>
        simp [CCLink.setwaitanontlsshutdown, CCLink.allocbufs, CCLink.relay, hst]

/-- A link begins to be active with empty buffers and new events. -/
theorem awake_activate (h : l.Awake) : l.activate.Awake := by
  by_cases hact : l.state.active
  · have hsame : l.activate = l := by
      cases hst : l.state <;> simp_all [CCLink.activate, CcState.active]
    rwa [hsame]
  · have hempty : ∀ d, (l.activate.relay d).bufpos = 0 := by
      intro d
      rw [← h.empty (Bool.eq_false_iff.mpr hact) d]
      cases hst : l.state <;> cases d <;> simp [CCLink.activate, CCLink.relay, hst]
    refine ⟨supplied_activate h.supplied, fun _ => hempty, ?_, ?_, fun d _ => hempty d⟩
    · intro hst'
      cases hst : l.state <;> simp_all [CCLink.activate, CCLink.writeEvents, CcState.active]
    · exact fun _ d hne => absurd (hempty d) hne

/-- What a call for an active link has to establish. -/
theorem CCLink.Awake.relayed
    (h : l.Awake) (hact : l.state.active) (hst : l'.state = l.state)
    (hsame : l'.supplies = l.supplies) (hev : l'.writeEvents = l.writeEvents)
    (hwoken : l.state = .localActive → ∀ d, l'.WokenDir d)
    (hunfed : ∀ d, n2nDir l.state = some d → (l'.relay d).bufpos = 0) :
    l'.Awake := by
  refine ⟨h.supplied.of_supplies hst hsame, ?_, ?_, ?_, ?_⟩
  · rw [hst, hact]
    nofun
  · rw [hst, hev]
    exact h.events
  · rwa [hst]
  · rwa [hst]

theorem relay_fillDir_of_ne
    {f : Dir} {xs : List UInt8}
    (hne : f ≠ d) :
    (fillDir d xs l).relay f = l.relay f := by
  simp only [fillDir]
  split_ifs <;> simp [CCLink.relay_setRelay_of_ne _ _ _ _ hne]

theorem writeArmed_fillDir {f : Dir} {xs : List UInt8} :
    (fillDir d xs l).writeArmed f = l.writeArmed f := by
  simp only [fillDir]
  split_ifs <;> simp

/-- One block of a read. -/
theorem readDir_awake
    {data : List UInt8} {env : WriteEnv}
    (h : l.Awake) (hact : l.state.active) (hcc : (readDir d s data env l).cc = some l') :
    l'.Awake := by
  have hst : l'.state = l.state := state_of_core (unseen_core.readDir hcc)
  refine h.relayed hact hst (unseen_supplies.readDir hcc) (unseen_writeEvents.readDir hcc) ?_ ?_
  · -- a link of this node: the bytes that were read have their event added
    intro hloc f
    simp only [readDir, apply_ite C2cRead.cc, if_pos hloc] at hcc
    split_ifs at hcc with hcond hxs
    · simp only [Option.some.injEq] at hcc
      rw [← hcc]
      by_cases hfd : f = d
      · subst hfd
        intro _
        apply writeArmed_armWrite
        rw [unseen_writeEvents.fillDir, h.events hloc]
      · rw [CCLink.WokenDir, CCLink.relay_armWrite, relay_fillDir_of_ne hfd,
          writeArmed_armWrite_other hfd, writeArmed_fillDir]
        exact h.woken hloc f
    · simp only [C2cRead.idle, Option.some.injEq] at hcc
      exact hcc ▸ h.woken hloc f
  · -- a link to another node: only the other direction is read
    intro f hf
    simp only [readDir, apply_ite C2cRead.cc] at hcc
    split_ifs at hcc with hcond hxs hloc hkill
    · simp [hloc, n2nDir] at hf
    · simp only [Option.some.injEq] at hcc
      have hfd : f ≠ d := by
        rintro rfl
        rcases hcond.1 with hloc' | hremote
        · exact hloc hloc'
        · rw [hremote] at hf
          cases f <;> cases hf
      rw [← hcc]
      apply processC2cWrite_empty
      rw [relay_fillDir_of_ne hfd]
      exact h.unfed f hf
    · simp only [C2cRead.idle, Option.some.injEq] at hcc
      exact hcc ▸ h.unfed f hf

theorem processC2cRead_awake
    {data₁ data₂ : List UInt8} {env : WriteEnv}
    (h : l.Awake) (hact : l.state.active)
    (hcc : (processC2cRead s data₁ data₂ env l).cc = some l') :
    l'.Awake := by
  simp only [processC2cRead] at hcc
  cases h₁ : (readDir .p1p2 s data₁ env l).cc with
  | none => simp [h₁] at hcc
  | some m =>
      simp only [h₁] at hcc
      have hact' : m.state.active := by rwa [state_of_core (unseen_core.readDir h₁)]
      exact readDir_awake (readDir_awake h hact h₁) hact' hcc

theorem processC2cWrite_awake
    {env : WriteEnv}
    (h : l.Awake) (hact : l.state.active)
    (hkill : (processC2cWrite s env (l.fired s)).kill = false) :
    (processC2cWrite s env (l.fired s)).cc.Awake := by
  refine h.relayed hact ?_ ?_ ?_ ?_ ?_
  · exact state_of_core (unseen_core.processC2cWrite.trans (unseen_core.fired l s))
  · rw [unseen_supplies.processC2cWrite, unseen_supplies.fired]
  · rw [unseen_writeEvents.processC2cWrite, unseen_writeEvents.fired]
  · intro hloc
    refine processC2cWrite_woken ?_ ?_ hkill
    · rw [unseen_writeEvents.fired, h.events hloc]
    · rintro rfl d
      -- no event belongs to `-1`
      have hlast : l.state.last := by rw [hloc]; rfl
      have hs1 := h.supplied.sckP1 hlast (by rw [hloc]; nofun)
      have hs2 := h.supplied.sckP2 hlast (by rw [hloc]; nofun)
      have hsame : l.fired (-1) = l := by
        simp [CCLink.fired, hs1.symm, hs2.symm]
      rw [hsame]
      exact h.woken hloc d
  · intro d hd
    apply processC2cWrite_empty
    rw [relay_fired]
    exact h.unfed d hd

theorem relayN2nmsg_awake
    (h : l.Awake) (hdir : n2nDir l.state = some d) (hcc : relayN2nmsg d [] l = some l') :
    l'.Awake := by
  have hl' := relayN2nmsg_eq_some hcc
  have hlen : ((l.relay d).append []).buflen = (l.relay d).buflen := rfl
  subst hl'
  have hbuf := @RelayBuf.length_append (l.relay d) []
  refine h.relayed (active_of_n2nDir hdir) (state_of_core (unseen_core.setRelay _ _ _ hlen hbuf))
    (unseen_supplies.setRelay _ _ _ hlen hbuf) (unseen_writeEvents.setRelay _ _ _ hlen hbuf) ?_ ?_
  · intro hloc
    simp [hloc, n2nDir] at hdir
  · intro f hf
    cases hdir.symm.trans hf
    rw [CCLink.relay_setRelay_self, RelayBuf.append, h.unfed d hdir]
    rfl

/-- Links stay awake as long as no bytes come from other nodes. -/
theorem awake_kept (hfeed : e.feedsLink n₀ = false) : LinkKept n₀ e CCLink.Awake := by
  refine ⟨fun hstart => ?_, fun hchange h => ?_⟩
  · have hsupplied := (@supplied_kept n₀ e).start hstart
    cases hstart <;> refine .of_empty hsupplied rfl fun d => ?_ <;> cases d <;> rfl
  · cases hchange with
    | same => exact h
    | attach nl => exact awake_attachRemotecleNode h
    | setwaitconn => exact awake_setwaitconn h
    | connid i f c hocc => exact awake_setwaitanontlsshutdown hocc h
    | activate i io => exact awake_activate h
    | relay l' hst hcore hidle hby =>
        cases hby with
        | read s data₁ data₂ env he hcc => exact processC2cRead_awake h hst hcc
        | write s env he hkill hcc => exact hcc ▸ processC2cWrite_awake h hst hkill
        | n2nmsg d data hdir hcc hfeeds =>
            have hnil : data = [] := by
              by_contra hne
              simp [hfeeds hne] at hfeed
            subst hnil
            exact relayN2nmsg_awake h hdir hcc

theorem CCLink.Awake.armed
    (h : l.Awake) (hst : l.state = .localActive ∨ n2nDir l.state = some d)
    (hpos : 0 < (l.relay d).bufpos) :
    l.writeArmed d := by
  rcases hst with hst | hst
  · exact h.woken hst d (Nat.ne_of_gt hpos)
  · exact absurd (h.unfed d hst) (Nat.ne_of_gt hpos)

end Awake

/-- **No bytes wait in vain** in every state of every run in which no `N2NMSG` brings
bytes for an active link. -/
theorem relay_woken
    {a : SockAddr} {r : Bool} {now : Nat} {mem : Nat → Bool} {rnd : Nat → UInt8}
    {verify : Ptr → Frame → Bool} {reached : List ClientEvent → Ptr → Bool}
    {es : List NodeEvent} {n : Node}
    (hfeed : Meets nodeStep (fun n e => e.feedsLink n = false)
      (Node.init a r now mem rnd verify reached) es)
    (hrun : run nodeStep (Node.init a r now mem rnd verify reached) es = some n) :
    n.Woken := by
  intro l hl d hst hpos
  exact (run_links (fun n e => awake_kept) hfeed hrun l hl).armed hst hpos

/-- The caller of a connected call has sent three bytes. -/
def callerSpoke : List NodeEvent :=
  callConnected ++ [.c2cRead 3 13 [1, 2, 3] [] ⟨0, ⟨none, 0⟩, ⟨none, 0⟩, true, true⟩]

theorem relay_woken_local :
    ∃ l ∈ (stateAfter freshNode callerSpoke).cclinks, l.state = .localActive ∧
      (l.relay .p1p2).bufpos = 3 ∧ l.writeArmed .p1p2 := by
  have hfeed : Meets nodeStep (fun n e => e.feedsLink n = false) freshNode callerSpoke := by
    decide +kernel
  have hrun := @stateAfter_run freshNode callerSpoke (by decide +kernel)
  obtain ⟨l, hl, hst, hpos⟩ : ∃ l ∈ (stateAfter freshNode callerSpoke).cclinks,
      l.state = .localActive ∧ (l.relay .p1p2).bufpos = 3 := by decide +kernel
  exact ⟨l, hl, hst, hpos, relay_woken hfeed hrun l hl .p1p2 (.inl hst) (by omega)⟩

/-- A client of another node has called client `01..01`, who has allowed it and
connected. -/
def calledFromNode : List NodeEvent :=
  clientLogin 10 0 1 (.ofByte 1) ++ [.nodewait 20 ⟨0x08080808, 2299⟩,
    .n2nFrame 2 (head Proto.N2NCONNREQOUTG ++ (Id.ofByte 2).1 ++ (Id.ofByte 1).1),
    .c2nFrame 1 (head Proto.CONNALLOW ++ (Id.ofByte 2).1),
    .accept 12 ⟨7, 8⟩ true,
    .newconnRead 1 (readBytes (head Proto.CONNID ++ (Id.ofByte 2).1 ++ (Id.ofByte 1).1)),
    .newconnRead 1 shutdownDone]

/-- The caller's node brings three bytes: they are in the buffer, and no event is added. -/
theorem n2nmsg_not_woken :
    ∃ n, Reachable n ∧ ¬n.Woken := by
  refine ⟨stateAfter freshNode
      (calledFromNode ++ [.n2nFrame 2 (n2nmsg (.ofByte 2) (.ofByte 1) [1, 2, 3])]),
    stateAfter_reachable (by decide +kernel), fun hwoken => ?_⟩
  obtain ⟨l, hl, hst, hpos, hstill⟩ :
      ∃ l ∈ (stateAfter freshNode
          (calledFromNode ++ [.n2nFrame 2 (n2nmsg (.ofByte 2) (.ofByte 1) [1, 2, 3])])).cclinks,
        n2nDir l.state = some .p1p2 ∧ 0 < (l.relay .p1p2).bufpos ∧ l.writeArmed .p1p2 = false := by
    decide +kernel
  have harmed := hwoken l hl .p1p2 (.inr hst) hpos
  rw [hstill] at harmed
  cases harmed

end PicaPica
