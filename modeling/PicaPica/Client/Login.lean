import PicaPica.Client.LinkOwners
import PicaPica.Client.NodeConnection

/-!
# The login at a node

A connection is reported as established once at most, when it has gone through all stages of
the login, and its end is reported once, as a failure exactly when it has never been established
(`connection_reported`).  It is established only after an anonymous TLS session, an answer
`INITRESPOK`, the end of that session and a second one (`established_after_login`).  What
`SkyNet` assumes of its links follows (`pass_as_skynet`).
-/

namespace PicaPica
namespace Client

open Machine

/-- The reports that a connection in this state has made. -/
inductive Reported : List C2nReport → C2nStage → Bool → Prop
  | before (st : C2nStage) (freed : Bool) (h : st ≠ .connected) : Reported [] st freed
  | failed (st : C2nStage) (error : Int) (h : st ≠ .connected) : Reported [.failed error] st true
  | established (freed : Bool) : Reported [.established] .connected freed
  | closed (error : Int) : Reported [.established, .closed error] .connected true

/-- What holds of a connection between the passes. -/
structure NodeConn.Sound (c : NodeConn) : Prop where
  reports : Reported c.reports c.state c.freed
  answer : c.freed = false → c.state.number ≤ 2 → c.initRespOk = 0
  connected : c.chans.connected = decide (c.state = .connected)

namespace NodeConn

variable {Pub Priv : Type} {ntop6 : List UInt8 → List Char}
  {final : Pub → List UInt8 → List UInt8 → Int} {sign : Priv → List UInt8 → List UInt8}
  {c c' : NodeConn} {io : C2nIo Pub Priv}

theorem Reported.open
    {rs : List C2nReport} {st : C2nStage} (h : Reported rs st false) :
    rs = [] ∧ st ≠ .connected ∨ rs = [.established] ∧ st = .connected := by
  cases h with
  | before _ _ hst => exact .inl ⟨rfl, hst⟩
  | established _ => exact .inr ⟨rfl, rfl⟩

/-- The reports after `process_c2n`. -/
theorem Moved.reported
    {ret : Int} {freed : Bool} (hm : Moved c c' io ret) (h : Reported c.reports c.state false) :
    Reported c'.reports c'.state freed ∧
      (c'.state ≠ .connected → c'.reports = []) ∧
      (c'.state = .connected → c'.reports = [.established]) := by
  have hrep := hm.reports
  rcases Reported.open h with ⟨hnil, hst⟩ | ⟨hone, hst⟩
  · by_cases hend : c'.state = .connected
    · have hne : c.state ≠ c'.state := fun heq => hst (heq.trans hend)
      rw [if_pos ⟨hne, hend⟩, hnil] at hrep
      refine ⟨?_, fun hno => absurd hend hno, fun _ => hrep⟩
      rw [hrep, hend]
      exact .established freed
    · rw [if_neg (fun h => hend h.2), hnil] at hrep
      refine ⟨?_, fun _ => hrep, fun hyes => absurd hyes hend⟩
      rw [hrep]
      exact .before _ _ hend
  · have hend : c'.state = .connected := by
      rcases hm.stage with heq | ⟨hnum, -⟩
      · exact heq.trans hst
      · rw [hst] at hnum
        cases hc' : c'.state <;> rw [hc'] at hnum <;> cases hnum
    rw [if_neg (fun h => h.1 (hst.trans hend.symm)), hone] at hrep
    refine ⟨?_, fun hno => absurd hend hno, fun _ => hrep⟩
    rw [hrep, hend]
    exact .established freed

/-- A pass: `process_c2n`, and the end of the connection when it has failed. -/
theorem eventLoop_eq
    (hsound : c.Sound) (hfreed : c.freed = false)
    (hsize : ∀ m ∈ io.msgs, msggetsize m.2 m.2.length (c2nMessages ntop6 final m.1) = m.2.length)
    (h : c.eventLoop ntop6 final sign io = some c') :
    ∃ u ret, Moved c u io ret ∧
      (ret = 0 ∧ c' = u ∨
        ret ≠ 0 ∧ c' = { u with
          reports := u.reports ++
            [if u.state = .connected then C2nReport.closed ret else C2nReport.failed ret]
          freed := true }) := by
  obtain ⟨⟨u, ret⟩, hu, hc⟩ := Option.map_eq_some_iff.mp h
  refine ⟨u, ret, processC2n_moved (hsound.answer hfreed) hsize hu, ?_⟩
  dsimp only at hc
  by_cases hret : ret = 0
  · rw [if_pos hret] at hc
    exact .inl ⟨hret, hc.symm⟩
  · rw [if_neg hret] at hc
    exact .inr ⟨hret, hc.symm⟩

theorem eventLoop_sound
    (hsound : c.Sound) (hfreed : c.freed = false)
    (hsize : ∀ m ∈ io.msgs, msggetsize m.2 m.2.length (c2nMessages ntop6 final m.1) = m.2.length)
    (h : c.eventLoop ntop6 final sign io = some c') :
    c'.Sound ∧ (c'.state.number = c.state.number ∨
      c'.state.number = c.state.number + 1 ∧ LoginPass c.state.number (.pass io)) := by
  have hrep := hsound.reports
  rw [hfreed] at hrep
  obtain ⟨u, ret, hm, ⟨hret, rfl⟩ | ⟨hret, rfl⟩⟩ := eventLoop_eq hsound hfreed hsize h
  · have hstage := hm.stage.imp_left fun heq => congrArg C2nStage.number heq
    exact ⟨⟨(hm.reported hrep).1, fun _ => hm.answer hret, hm.connected hsound.connected⟩, hstage⟩
  · have hstage := hm.stage.imp_left fun heq => congrArg C2nStage.number heq
    refine ⟨⟨?_, (nomatch ·), hm.connected hsound.connected⟩, hstage⟩
    obtain ⟨-, hnone, hone⟩ := @Moved.reported _ _ _ _ _ _ true hm hrep
    dsimp only
    by_cases hend : u.state = .connected
    · rw [hone hend, if_pos hend, hend]
      exact .closed ret
    · rw [hnone hend, if_neg hend]
      exact .failed _ ret hend

/-- The list of channels has changed, and nothing else. -/
theorem Sound.setChans
    {l : ChannelList} (h : c.Sound) (hl : l.connected = c.chans.connected) :
    ({ c with chans := l } : NodeConn).Sound :=
  ⟨h.reports, h.answer, hl.trans h.connected⟩

/-- **One step.** -/
theorem c2nStep_sound
    {e : C2nEvent Pub Priv} (hsound : c.Sound) (h : c2nStep ntop6 final sign c e = some c') :
    c'.Sound ∧ (c'.state.number = c.state.number ∨
      c'.state.number = c.state.number + 1 ∧ LoginPass c.state.number e) := by
  unfold c2nStep at h
  by_cases hfreed : c.freed = true
  · rw [if_pos hfreed] at h
    cases h
  rw [if_neg hfreed] at h
  cases e with
  | pass io =>
      dsimp only at h
      split_ifs at h with hall
      refine eventLoop_sound hsound (by simpa using hfreed) (fun m hm => ?_) h
      exact of_decide_eq_true (List.all_eq_true.mp hall m hm)
  | newC2c peerId calloc mem =>
      obtain ⟨r, hr, rfl⟩ := Option.map_eq_some_iff.mp h
      exact ⟨hsound.setChans (newC2c_connected hr), .inl rfl⟩
  | proceed p st =>
      obtain ⟨l, hl, rfl⟩ := Option.map_eq_some_iff.mp h
      refine ⟨hsound.setChans ?_, .inl rfl⟩
      rw [channelStep] at hl
      split_ifs at hl
      cases hl
      rfl
  | closeC2c p =>
      obtain ⟨l, hl, rfl⟩ := Option.map_eq_some_iff.mp h
      refine ⟨hsound.setChans ?_, .inl rfl⟩
      rw [channelStep] at hl
      split_ifs at hl
      cases hl
      exact closeC2c_connected
  | close =>
      cases h
      refine ⟨⟨?_, fun hopen => Bool.noConfusion hopen, hsound.connected⟩, .inl rfl⟩
      have hrep := hsound.reports
      rw [Bool.not_eq_true] at hfreed
      rw [hfreed] at hrep
      rcases Reported.open hrep with ⟨hnil, hst⟩ | ⟨hone, hst⟩
      · dsimp only
        rw [hnil]
        exact .before _ _ hst
      · dsimp only
        rw [hone, hst]
        exact .established _

/-- A connection that has been opened. -/
theorem newC2n_sound
    {srvAddr : SockAddr} {accId : Id} {multilogin done : Bool}
    (h : newC2n srvAddr accId multilogin done io = (c, 0)) :
    c.Sound ∧ c.state.number ≤ 1 := by
  have hfirst : ∀ st : C2nStage, st.number ≤ 1 →
      (⟨srvAddr, multilogin, st, 0, 0, 0, { ChannelList.init with connected := false },
        .fresh accId, [], [], [], false⟩ : NodeConn).Sound := by
    intro st hnum
    have hne : st ≠ .connected := by
      rintro rfl
      exact absurd hnum (by decide)
    exact ⟨.before _ _ hne, fun _ _ => rfl, (decide_eq_false hne).symm⟩
  rw [newC2n] at h
  dsimp only at h
  split_ifs at h
  · rw [stage2Startanontls] at h
    split_ifs at h with hnew hssl
    · cases h
    · cases h
      exact ⟨hfirst _ (Nat.le_refl 1), Nat.le_refl 1⟩
    · obtain ⟨rfl, -⟩ := Prod.mk.inj h
      exact ⟨hfirst _ (Nat.zero_le 1), Nat.zero_le 1⟩
  · cases h
    exact ⟨hfirst _ (Nat.zero_le 1), Nat.zero_le 1⟩

theorem LoginPass.pass {k : Nat} {e : C2nEvent Pub Priv} (h : LoginPass k e) :
    ∃ io, e = .pass io := by
  cases e with
  | pass io => exact ⟨io, rfl⟩
  | _ =>
      unfold LoginPass at h
      split at h <;> first | exact h.elim | contradiction

section Runs

/-- A pass in which everything succeeds, with these messages. -/
def loginIo (msgs : List (C2nMsgEnv Unit × Frame)) : C2nIo Unit Unit where
  rfds := true
  wfds := true
  connected := true
  sslNew := true
  ssl := .done
  next := .wantRead
  mem := true
  rand := (1, 2)
  write := .ok
  got := true
  msgs := msgs
  wrong := false
  notice := markStage 1

/-- `INITRESPOK`. -/
def respOk : C2nMsgEnv Unit × Frame :=
  (⟨⟨true, true, true, true, ⟨none, none, none, true, .done⟩⟩, ⟨none, none, none, true, .done⟩, true,
    (1, 2), ⟨.noFile, .fine⟩⟩, head Proto.INITRESPOK ++ [79, 75])

/-- The login, and the end of the connection when the node closes it. -/
def loginPasses : List (C2nEvent Unit Unit) :=
  [.pass (loginIo []), .pass (loginIo []), .pass (loginIo [respOk]), .pass (loginIo []),
    .pass (loginIo []), .pass (loginIo []), .pass { loginIo [] with got := false }]

/-- The connection of the account `01..01`. -/
def connecting : NodeConn :=
  (newC2n ⟨7, 8⟩ (.ofByte 1) false false (loginIo [])).1

theorem connecting_new :
    newC2n ⟨7, 8⟩ (.ofByte 1) false false (loginIo []) = (connecting, 0) := rfl

variable {srvAddr : SockAddr} {accId : Id} {multilogin done : Bool} {c₀ : NodeConn}
  {es : List (C2nEvent Pub Priv)}

/-- **What is reported of a connection.**  The reports that a connection has made in any run are
none, a failure, that it is established, or that it is established and then closed.  It is in
`PICA_C2N_STATE_CONNECTED` exactly if it has been reported as established, and freed if its end
has been reported. -/
theorem connection_reported
    (hnew : newC2n srvAddr accId multilogin done io = (c₀, 0))
    (hrun : run (c2nStep ntop6 final sign) c₀ es = some c) :
    Reported c.reports c.state c.freed ∧ c.chans.connected = decide (c.state = .connected) := by
  have hsound : c.Sound := run_invariant (fun s e t hs _ hstep => (c2nStep_sound hs hstep).1)
    (newC2n_sound hnew).1 meets_true hrun
  exact ⟨hsound.reports, hsound.connected⟩

/-- The node closes an established connection. -/
theorem connection_reported_closed :
    ∃ c, run (c2nStep (fun _ => []) markFinal markSign) connecting loginPasses = some c ∧
      c.reports = [.established, .closed (-3)] ∧ Reported c.reports c.state c.freed := by
  obtain ⟨c, hrun, hc⟩ := @run_ends _ _ (c2nStep (fun _ => []) markFinal markSign)
    (fun c => c.reports = [.established, .closed (-3)]) inferInstance connecting loginPasses
    (by decide +kernel)
  exact ⟨c, hrun, hc, (connection_reported connecting_new hrun).1⟩

/-- **The login.**  A connection that is reported as established has gone through four passes in
this order: `SSL_connect` of the anonymous session has succeeded, the last answer to `INITREQ` in
what was read is `INITRESPOK`, `SSL_shutdown` has ended that session in both directions, and
`SSL_accept` has succeeded. -/
theorem established_after_login
    (hnew : newC2n srvAddr accId multilogin done io = (c₀, 0))
    (hrun : run (c2nStep ntop6 final sign) c₀ es = some c) (hrep : .established ∈ c.reports) :
    ∃ anon rep shut tls : C2nIo Pub Priv,
      [.pass anon, .pass rep, .pass shut, .pass tls].Sublist es ∧ anon.ssl = .done ∧
        rep.rfds ∧ AnsweredOk rep.msgs ∧ shut.ssl = .done ∧ tls.ssl = .done := by
  obtain ⟨hsound, hfirst⟩ := newC2n_sound hnew
  have hend : c.state.number = 5 := by
    have hreported := (connection_reported hnew hrun).1
    generalize c.reports = rs, c.state = st, c.freed = b at hreported hrep
    cases hreported with
    | before => cases hrep
    | failed => simp at hrep
    | established => rfl
    | closed => rfl
  obtain ⟨-, fs, hsub, hfs⟩ := run_climbs (fun s e t hs hstep => c2nStep_sound hs hstep) hsound hrun
  rw [hend] at hfs
  -- the stages from the anonymous session on
  have hlast : ∀ gs : List (C2nEvent Pub Priv), List.Forall₂ LoginPass [1, 2, 3, 4] gs →
      gs.Sublist es → ∃ anon rep shut tls : C2nIo Pub Priv,
        [.pass anon, .pass rep, .pass shut, .pass tls].Sublist es ∧ anon.ssl = .done ∧
          rep.rfds ∧ AnsweredOk rep.msgs ∧ shut.ssl = .done ∧ tls.ssl = .done := by
    intro gs hgs hsub
    simp only [List.forall₂_cons_left_iff, List.forall₂_nil_left_iff] at hgs
    obtain ⟨e₁, -, h₁, ⟨e₂, -, h₂, ⟨e₃, -, h₃, ⟨e₄, -, h₄, rfl, rfl⟩, rfl⟩, rfl⟩, rfl⟩ := hgs
    obtain ⟨anon, rfl⟩ := h₁.pass
    obtain ⟨rep, rfl⟩ := h₂.pass
    obtain ⟨shut, rfl⟩ := h₃.pass
    obtain ⟨tls, rfl⟩ := h₄.pass
    exact ⟨anon, rep, shut, tls, hsub, h₁, h₂.1, h₂.2, h₃, h₄⟩
  rcases Nat.le_one_iff_eq_zero_or_eq_one.mp hfirst with hzero | hone
  · rw [hzero] at hfs
    cases hfs with
    | cons _ hrest => exact hlast _ hrest (List.sublist_of_cons_sublist hsub)
  · rw [hone] at hfs
    exact hlast _ hfs hsub

/-- The passes of `loginPasses`. -/
theorem established_after_login_passes :
    ∃ anon rep shut tls : C2nIo Unit Unit,
      [.pass anon, .pass rep, .pass shut, .pass tls].Sublist loginPasses ∧ anon.ssl = .done ∧
        rep.rfds ∧ AnsweredOk rep.msgs ∧ shut.ssl = .done ∧ tls.ssl = .done := by
  obtain ⟨c, hrun, hc⟩ := @run_ends _ _ (c2nStep (fun _ => []) markFinal markSign)
    (fun c => C2nReport.established ∈ c.reports) inferInstance connecting loginPasses
    (by decide +kernel)
  exact established_after_login connecting_new hrun hc

end Runs

/-! ## The links of `SkyNet` -/

/-- The link that `SkyNet` sees. -/
def link (c : NodeConn) : Option C2nState :=
  if c.freed then none
  else if c.state = .connected then some .connected
  else some .connecting

end NodeConn

/-- A callback of the event loop for the link; the link is closed after a report of its end. -/
def SkyNet.hear (c2n : C2n) (undelivered : Queues) (s : SkyNet) : C2nReport → SkyNet
  | .established =>
      { s with links := Function.update s.links c2n (some .connected) }.nodelinkActivated c2n
        undelivered
  | .failed error => (s.nodelinkFailed c2n error).closeC2n c2n
  | .closed _ => (s.nodelinkClosed c2n).closeC2n c2n

/-- A link that is connecting. -/
def SkyNet.oneLink : SkyNet :=
  { SkyNet.start with links := fun _ => some .connecting }

namespace NodeConn

variable {Pub Priv : Type} {ntop6 : List UInt8 → List Char}
  {final : Pub → List UInt8 → List UInt8 → Int} {sign : Priv → List UInt8 → List UInt8}
  {c c' : NodeConn} {io : C2nIo Pub Priv}

theorem Sound.pass_simulated
    {s : SkyNet} {c2n : C2n} (undelivered : Queues)
    (hsound : c.Sound) (hopen : c.freed = false) (hlink : s.links c2n = c.link)
    (h : c2nStep ntop6 final sign c (.pass io) = some c') :
    ∃ r new, c'.reports = c.reports ++ new ∧
      s.processC2n c2n r = some (new.foldl (SkyNet.hear c2n undelivered) s) ∧
      (new.foldl (SkyNet.hear c2n undelivered) s).links c2n = c'.link := by
  have hloop : c.eventLoop ntop6 final sign io = some c' ∧
      ∀ m ∈ io.msgs, msggetsize m.2 m.2.length (c2nMessages ntop6 final m.1) = m.2.length := by
    unfold c2nStep at h
    rw [if_neg (by simp [hopen])] at h
    dsimp only at h
    split_ifs at h with hall
    exact ⟨h, fun m hm => of_decide_eq_true (List.all_eq_true.mp hall m hm)⟩
  rw [link, hopen, if_neg (by decide)] at hlink
  obtain ⟨u, ret, hm, hend⟩ := eventLoop_eq hsound hopen hloop.2 hloop.1
  have hfreed : u.freed = false := hm.freed.trans hopen
  have hclosed : ∀ t : SkyNet, (t.closeC2n c2n).links c2n = none :=
    fun t => Function.update_self _ _ _
  by_cases hnow : c.state ≠ u.state ∧ u.state = .connected
  · have hst : c.state ≠ .connected := fun heq => hnow.1 (heq.trans hnow.2.symm)
    rw [if_neg hst] at hlink
    have hreports := hm.reports
    rw [if_pos hnow] at hreports
    have hup : (s.hear c2n undelivered .established).links c2n = some .connected := by
      rw [SkyNet.hear, SkyNet.nodelinkActivated_links]
      exact Function.update_self _ _ _
    rcases hend with ⟨-, rfl⟩ | ⟨-, rfl⟩
    · refine ⟨.established undelivered, [.established], hreports, if_pos hlink, ?_⟩
      rw [link, hfreed, if_neg (by decide), if_pos hnow.2]
      exact hup
    · refine ⟨.establishedFailed undelivered, [.established, .closed ret], ?_, if_pos hlink,
        hclosed _⟩
      rw [if_pos hnow.2, hreports, List.append_assoc]
      rfl
  · have hreports := hm.reports
    rw [if_neg hnow, List.append_nil] at hreports
    have hsame : u.state = .connected ↔ c.state = .connected := by
      constructor
      · intro hu
        by_contra hc
        exact hnow ⟨fun heq => hc (heq.trans hu), hu⟩
      · intro hc
        rcases hm.stage with heq | ⟨hnum, -⟩
        · exact heq.trans hc
        · rw [hc] at hnum
          cases hu : u.state <;> rw [hu] at hnum <;> cases hnum
    rcases hend with ⟨-, rfl⟩ | ⟨-, rfl⟩
    · refine ⟨.ok, [], by rw [hreports, List.append_nil], rfl, ?_⟩
      rw [link, hfreed, if_neg (by decide)]
      simp only [hsame]
      exact hlink
    · by_cases hst : c.state = .connected
      · rw [if_pos hst] at hlink
        refine ⟨.error ret, [.closed ret], ?_, ?_, hclosed _⟩
        · rw [if_pos (hsame.mpr hst), hreports]
        · simp [SkyNet.processC2n, hlink, SkyNet.hear]
      · rw [if_neg hst] at hlink
        refine ⟨.error ret, [.failed ret], ?_, ?_, hclosed _⟩
        · rw [if_neg (fun hu => hst (hsame.mp hu)), hreports]
        · simp [SkyNet.processC2n, hlink, SkyNet.hear]

/-- **What `SkyNet` assumes of a link.**  The callbacks that a pass of the event loop makes for a
connection are those of one of the results that `SkyNet` takes into account for a link, and the
link is then in the state of the connection. -/
theorem pass_as_skynet
    {srvAddr : SockAddr} {accId : Id} {multilogin done : Bool} {first : C2nIo Pub Priv}
    {c₀ : NodeConn} {es : List (C2nEvent Pub Priv)} {s : SkyNet} {c2n : C2n} (undelivered : Queues)
    (hnew : newC2n srvAddr accId multilogin done first = (c₀, 0))
    (hrun : run (c2nStep ntop6 final sign) c₀ es = some c)
    (hopen : c.freed = false) (hlink : s.links c2n = c.link)
    (h : c2nStep ntop6 final sign c (.pass io) = some c') :
    ∃ r new, c'.reports = c.reports ++ new ∧
      s.processC2n c2n r = some (new.foldl (SkyNet.hear c2n undelivered) s) ∧
      (new.foldl (SkyNet.hear c2n undelivered) s).links c2n = c'.link := by
  have hsound : c.Sound := run_invariant (fun s e t hs _ hstep => (c2nStep_sound hs hstep).1)
    (newC2n_sound hnew).1 meets_true hrun
  exact hsound.pass_simulated undelivered hopen hlink h

/-- The pass that establishes the link. -/
theorem pass_as_skynet_established :
    ∃ c c', c2nStep (fun _ => []) markFinal markSign c (.pass (loginIo [])) = some c' ∧
      ∃ r new, c'.reports = c.reports ++ new ∧
        SkyNet.oneLink.processC2n 1 r = some (new.foldl (SkyNet.hear 1 []) SkyNet.oneLink) ∧
        (new.foldl (SkyNet.hear 1 []) SkyNet.oneLink).links 1 = c'.link := by
  obtain ⟨c, hrun, hopen, hlink, hnext⟩ := @run_ends _ _ (c2nStep (fun _ => []) markFinal markSign)
    (fun c => c.freed = false ∧ c.link = some .connecting ∧
      (c2nStep (fun _ => []) markFinal markSign c (.pass (loginIo []))).isSome)
    inferInstance connecting (loginPasses.take 4) (by decide +kernel)
  obtain ⟨c', hc'⟩ := Option.isSome_iff_exists.mp hnext
  exact ⟨c, c', hc', pass_as_skynet [] connecting_new hrun hopen hlink.symm hc'⟩

end NodeConn

end Client
end PicaPica
