import PicaPica.Client.SessionSteps

/-!
# What an event does to a channel

`process_directc2c` makes three changes one after the other, and each of them is a
`DirectStep`.  With `Stage` and `FrameStep` this gives `sessionStep_ok`: an event changes the
channel in one of the ways of `Happens`, or closes it.
-/

namespace PicaPica
namespace Client

open Machine

namespace Session

/-! ## `process_directc2c` -/

/-- What a part of `process_directc2c` does to an open channel. -/
inductive DirectStep (s : Session) : Session → Prop
  | same : DirectStep s s
  | dropped (l : List Direct) :
      (∀ x ∈ l, x ∈ s.accepted) → DirectStep s { s with accepted := l }
  | taken (d : Direct) (l : List Direct) (chn : C2c) :
      d ∈ s.accepted → d.state = .active → (∀ x ∈ l, x ∈ s.accepted) →
      s.chn.directState = .waitingIncoming → C2c.Kept s.chn chn →
      DirectStep s { s with
        direct := some (d.verifiedFor s.peerId)
        accepted := l
        chn := { chn with directState := .active }
        calls := s.calls ++ [.peerCertVerify, .directC2cEstablished] }
  | announced (chn : C2c) :
      s.chn.directState = .failedToConnect → s.outgoing → C2c.Kept s.chn chn →
      DirectStep s { s with chn := { chn with directState := .waitingIncoming } }
  | gaveUp (chn : C2c) :
      s.chn.directState = .failedToConnect → s.outgoing ∨ chn = s.chn → C2c.Kept s.chn chn →
      DirectStep s { s with chn := { chn with directState := .inactive } }
  | moved (d d' : Direct) (chn : C2c) (cs : List Callback) :
      s.chn.directState = .connecting → s.direct = some d → d.state ≠ .active →
      d'.freed = false → d'.state ≠ .active →
      (d'.state = .waitingTls → s.chn.state = .active ∧ d'.ssl ≠ none) →
      chn = s.chn ∨ s.chn.state = .active → C2c.Kept s.chn chn →
      cs = [] ∨ cs = [.peerCertVerify] →
      DirectStep s { s with direct := some d', chn := chn, calls := s.calls ++ cs }
  | connected (d d' : Direct) (chn : C2c) :
      s.chn.directState = .connecting → s.direct = some d → d.freed = false →
      d.state = .waitingTls → d'.freed = false → d'.state = .active →
      (d.ssl ≠ none → d'.Trusted s.peerId) → s.chn.state = .active → C2c.Kept s.chn chn →
      DirectStep s { s with
        direct := some d', chn := chn, calls := s.calls ++ [.peerCertVerify] }
  | exhausted (d : Direct) :
      s.chn.directState = .connecting → s.direct = some d → d.state = .failed →
      DirectStep s ({ s with direct := none }.setDirectState .failedToConnect)
  | up (d : Direct) :
      s.chn.directState = .connecting → s.direct = some d → d.freed = false →
      d.state = .active →
      DirectStep s ((s.setDirectState .active).called .directC2cEstablished)

section Direct

variable {s t : Session} {io : DirectIo} {d : Direct}

theorem sendDirectc2cSwitch_ok
    {b : Bool}
    (h : s.sendDirectc2cSwitch io = .ok (t, b)) :
    ∃ chn, C2c.Kept s.chn chn ∧ t = { s with chn := chn } := by
  rw [sendDirectc2cSwitch, Client.sendDirectc2cSwitch] at h
  cases hpush : c2cWritebufPush io.mem s.chn (shortFrame Proto.DIRECTC2C_SWITCH io.r₀ io.r₁) with
  | none => simp [hpush] at h
  | some v =>
      obtain ⟨chn, mp⟩ := v
      have hkept := c2cWritebufPush_kept hpush
      rw [hpush] at h
      cases mp with
      | true =>
          cases h
          refine ⟨{ chn with barrier := chn.writePos }, ?_, rfl⟩
          exact ⟨hkept.state, hkept.directState, hkept.config, hkept.readBuf, hkept.readPos,
            hkept.switchedRead, hkept.disconnect⟩
      | false =>
          cases h
          exact ⟨chn, hkept, rfl⟩

/-- The accepted connection `d` was active, and its certificate has been verified. -/
theorem takeAccepted_ok
    {l : List Direct}
    (hd : d ∈ s.accepted) (hactive : d.state = .active) (hl : ∀ x ∈ l, x ∈ s.accepted)
    (hwaits : s.chn.directState = .waitingIncoming)
    (h : ({ s with accepted := l }.called .peerCertVerify).takeAccepted io d = .ok t) :
    DirectStep s t := by
  rw [takeAccepted] at h
  split_ifs at h
  obtain ⟨⟨u, sent⟩, hsend, hres⟩ := bind_eq_ok.mp h
  obtain ⟨chn, hkept, rfl⟩ := sendDirectc2cSwitch_ok hsend
  cases sent with
  | true =>
      cases hres
      have hcalls : s.calls ++ [.peerCertVerify, .directC2cEstablished] =
          s.calls ++ [.peerCertVerify] ++ [.directC2cEstablished] := by
        simp
      have hstep := DirectStep.taken d l chn hd hactive hl hwaits hkept
      rw [hcalls] at hstep
      exact hstep
  | false => cases hres

theorem processAccepted_ok (h : s.processAccepted io = .ok t) : DirectStep s t := by
  rw [processAccepted] at h
  cases hfind : s.accepted.find? (·.state = .active) with
  | none =>
      simp only [hfind] at h
      cases h
      exact .same
  | some d =>
      simp only [hfind] at h
      have hd : d ∈ s.accepted := List.mem_of_find?_eq_some hfind
      have hactive : d.state = .active := by
        simpa using List.find?_some hfind
      have hl : ∀ x ∈ s.accepted.eraseP (·.state = .active), x ∈ s.accepted :=
        fun x hx => List.mem_of_mem_eraseP hx
      generalize s.accepted.eraseP (·.state = .active) = l at h hl
      split_ifs at h with helsewhere hskip hok hasked
      · cases h
        exact .dropped l hl
      · exact takeAccepted_ok hd hactive hl (not_not.mp (not_or.mp hskip).1) h
      · exact absurd (verifyPeerCertCommon_ok hok) hasked

theorem processFailedtoconnect_ok (h : s.processFailedtoconnect io = .ok t) :
    DirectStep s t := by
  rw [processFailedtoconnect] at h
  split_ifs at h with hfailed hout
  · cases h
    exact .same
  · obtain ⟨⟨u, mp⟩, hpush, hres⟩ := bind_eq_ok.mp h
    obtain ⟨chn, hkept, rfl⟩ := push_ok hpush
    cases mp with
    | true =>
        cases hres
        exact .announced chn (not_not.mp hfailed) hout.1 hkept
    | false =>
        cases hres
        exact .gaveUp chn (not_not.mp hfailed) (.inl hout.1) hkept
  · cases h
    exact .gaveUp s.chn (not_not.mp hfailed) (.inr rfl) (.refl _)

/-- No callback has been called. -/
theorem DirectStep.silent
    {d' : Direct}
    (hconn : s.chn.directState = .connecting) (hd : s.direct = some d)
    (hstate : d.state ≠ .active) (hfreed : d'.freed = false) (hstate' : d'.state ≠ .active)
    (htls : d'.state = .waitingTls → s.chn.state = .active ∧ d'.ssl ≠ none) :
    DirectStep s { s with direct := some d' } := by
  have hmoved := DirectStep.moved d d' s.chn [] hconn hd hstate hfreed hstate' htls (.inl rfl)
    (.refl _) (.inl rfl)
  rw [List.append_nil] at hmoved
  exact hmoved

theorem directTlsDone_ok
    (hconn : s.chn.directState = .connecting) (hd : s.direct = some d)
    (hfreed : d.freed = false) (htls : d.state = .waitingTls) (hst : s.chn.state = .active)
    (h : s.directTlsDone io d = .ok t) :
    DirectStep s t := by
  rw [directTlsDone] at h
  have hcert := @verifyPeerCertCommon_ok io.cert s.peerId io.answer
  generalize verifyPeerCertCommon io.cert s.peerId io.answer = v at h hcert
  obtain ⟨code, asked⟩ := v
  have hinactive : d.state ≠ .active := by
    rw [htls]
    exact nofun
  by_cases hcode : code = .ok
  · obtain rfl : asked = true := hcert hcode
    rw [if_neg (by simp [hcode])] at h
    dsimp only at h
    rw [if_pos rfl] at h
    obtain ⟨⟨u, sent⟩, hsend, hres⟩ := bind_eq_ok.mp h
    obtain ⟨chn, hkept, rfl⟩ := sendDirectc2cSwitch_ok hsend
    cases sent with
    | true =>
        cases hres
        refine .connected d _ chn hconn hd hfreed htls hfreed rfl (fun hssl => ?_) hst hkept
        obtain ⟨ssl, hsome⟩ := Option.ne_none_iff_exists'.mp hssl
        exact trusted_of_verified hfreed hsome
    | false =>
        cases hres
        exact .moved d _ chn [.peerCertVerify] hconn hd hinactive hfreed nofun nofun (.inr hst)
          hkept (.inr rfl)
  · rw [if_pos hcode] at h
    cases h
    cases asked with
    | true =>
        exact .moved d _ s.chn [.peerCertVerify] hconn hd hinactive hfreed nofun nofun (.inl rfl)
          (.refl _) (.inr rfl)
    | false => exact .silent hconn hd hinactive hfreed nofun nofun

theorem startTls_ok
    (r : SslCall) :
    (d.startTls r).freed = d.freed ∧ (d.startTls r).ssl ≠ none ∧
      ((d.startTls r).state = d.state ∨ (d.startTls r).state = .waitingTls) := by
  rw [Direct.startTls]
  dsimp only
  split_ifs
  · exact ⟨rfl, nofun, .inl rfl⟩
  · exact ⟨rfl, nofun, .inr rfl⟩

theorem directSwitch_ok
    (hwatch : io.rfds || io.wfds → s.chn.state = .active)
    (hconn : s.chn.directState = .connecting) (hd : s.direct = some d) (hfreed : d.freed = false)
    (h : s.directSwitch io d = .ok t) :
    DirectStep s t := by
  rw [directSwitch] at h
  cases hstate : d.state with
  | new =>
      simp only [hstate] at h
      cases h
      exact .same
  | connecting =>
      have hinactive : d.state ≠ .active := by
        rw [hstate]
        exact nofun
      simp only [hstate] at h
      split_ifs at h with hready
      · cases h
        exact .same
      · cases h
        obtain ⟨hfreed', hssl, hst⟩ := startTls_ok io.ssl (d := d)
        rw [hstate] at hst
        refine .silent hconn hd hinactive (hfreed'.trans hfreed) ?_ fun _ => ⟨?_, hssl⟩
        · rcases hst with hst | hst
          · rw [hst]
            exact nofun
          · rw [hst]
            exact nofun
        · exact hwatch (by simp [hready])
      · cases h
        exact .silent hconn hd hinactive hfreed nofun nofun
  | waitingTls =>
      have hinactive : d.state ≠ .active := by
        rw [hstate]
        exact nofun
      simp only [hstate] at h
      split_ifs at h with hready
      · cases h
        exact .same
      · refine directTlsDone_ok hconn hd hfreed hstate (hwatch ?_) h
        rcases not_and_or.mp hready with hw | hr
        · simp [hw]
        · simp [hr]
      · cases h
        exact .same
      · cases h
        exact .silent hconn hd hinactive hfreed nofun nofun
  | failed =>
      have hinactive : d.state ≠ .active := by
        rw [hstate]
        exact nofun
      simp only [hstate] at h
      obtain ⟨⟨d', found⟩, hnext, hres⟩ := bind_eq_ok.mp h
      obtain ⟨-, hfreed', -, hst⟩ := connectNext_ok hnext
      rw [hstate] at hst
      have hearly : d'.Unshaken := by
        rcases hst with hst | hst | hst
        · exact .of_state hst nofun nofun
        · exact .of_state hst nofun nofun
        · exact .of_state hst nofun nofun
      cases found with
      | true =>
          cases hres
          exact .silent hconn hd hinactive hfreed' hearly.active
            fun htls => absurd htls hearly.waitingTls
      | false =>
          cases hres
          exact .exhausted d hconn hd hstate
  | active =>
      simp only [hstate] at h
      cases h
      exact .up d hconn hd hfreed hstate

theorem processConnecting_ok
    (hwatch : io.rfds || io.wfds → s.chn.state = .active)
    (h : s.processConnecting io = .ok t) :
    DirectStep s t := by
  rw [processConnecting] at h
  split_ifs at h with hconn
  · cases h
    exact .same
  · cases hd : s.direct with
    | none =>
        simp only [hd] at h
        cases h
    | some d =>
        simp only [hd] at h
        split_ifs at h with hfreed
        exact directSwitch_ok hwatch (not_not.mp hconn) hd (Bool.eq_false_iff.mpr hfreed) h

theorem DirectStep.state (h : DirectStep s t) : t.chn.state = s.chn.state := by
  cases h with
  | same => rfl
  | dropped => rfl
  | taken d l chn _ _ _ _ hkept => exact hkept.state
  | announced chn _ _ hkept => exact hkept.state
  | gaveUp chn _ _ hkept => exact hkept.state
  | moved d d' chn cs _ _ _ _ _ _ _ hkept => exact hkept.state
  | connected d d' chn _ _ _ _ _ _ _ _ hkept => exact hkept.state
  | exhausted => rfl
  | up => rfl

/-- **What `process_directc2c` does.** -/
theorem processDirectc2c_ok
    (hwatch : io.rfds || io.wfds → s.chn.state = .active)
    (h : s.processDirectc2c io = .ok t) :
    ∃ u v, DirectStep s u ∧ DirectStep u v ∧ DirectStep v t := by
  obtain ⟨u, hu, hrest⟩ := bind_eq_ok.mp h
  obtain ⟨v, hv, hend⟩ := bind_eq_ok.mp hrest
  have hsu := processAccepted_ok hu
  have huv := processFailedtoconnect_ok hv
  refine ⟨u, v, hsu, huv, processConnecting_ok (fun hready => ?_) hend⟩
  rw [huv.state, hsu.state]
  exact hwatch hready

end Direct

/-! ## Events -/

/-- Nothing that belongs to the direct connection differs. -/
structure SameDirect (s t : Session) : Prop where
  direct : t.direct = s.direct
  peerId : t.peerId = s.peerId
  outgoing : t.outgoing = s.outgoing
  accepted : t.accepted = s.accepted
  directState : t.chn.directState = s.chn.directState
  switchedRead : t.chn.switchedRead = s.chn.switchedRead
  active : t.chn.state = .active ↔ s.chn.state = .active

section Calls

variable {s t : Session}

theorem no_direct
    {P : Direct → Prop}
    (h : s.direct = none) :
    ∀ d, s.direct = some d → P d :=
  fun d hd => absurd (h.symm.trans hd) (Option.some_ne_none d).symm

theorem SameDirect.of_kept
    {chn : C2c} {u : Session}
    (hkept : C2c.Kept s.chn chn) (hchn : u.chn = chn) (hdirect : u.direct = s.direct)
    (hpeer : u.peerId = s.peerId) (hout : u.outgoing = s.outgoing)
    (haccepted : u.accepted = s.accepted) :
    SameDirect s u := by
  subst hchn
  exact ⟨hdirect, hpeer, hout, haccepted, hkept.directState, hkept.switchedRead,
    by rw [hkept.state]⟩

/-- The stages in front of the messages have no direct connection. -/
theorem Stage.sameDirect (h : Stage s t) : SameDirect s t := by
  have hother : ∀ {st st' : C2cState}, s.chn.state = st → st ≠ .active → st' ≠ .active →
      (st' = .active ↔ s.chn.state = .active) := by
    intro st st' hst hne hne'
    rw [hst]
    exact iff_of_false hne' hne
  cases h with
  | same => exact ⟨rfl, rfl, rfl, rfl, rfl, rfl, Iff.rfl⟩
  | stage2 hst => exact ⟨rfl, rfl, rfl, rfl, rfl, rfl, hother hst nofun nofun⟩
  | stage3 chn hst hkept =>
      exact ⟨rfl, rfl, rfl, rfl, hkept.directState, hkept.switchedRead, hother hst nofun nofun⟩
  | write chn _ hkept => exact .of_kept hkept rfl rfl rfl rfl rfl
  | stage4 chn hst hkept =>
      exact ⟨rfl, rfl, rfl, rfl, hkept.directState, hkept.switchedRead, hother hst nofun nofun⟩
  | stage5 hst => exact ⟨rfl, rfl, rfl, rfl, rfl, rfl, hother hst nofun nofun⟩
  | stage6 chn hst _ hkept =>
      exact ⟨rfl, rfl, rfl, rfl, hkept.directState, hkept.switchedRead, hother hst nofun nofun⟩
  | verified hst => exact ⟨rfl, rfl, rfl, rfl, rfl, rfl, hother hst nofun nofun⟩
  | fragment chn c cs _ hkept => exact .of_kept hkept rfl rfl rfl rfl rfl

/-- Without a transfer the messages about files are refused, except the offer of a file and a
control message that changes nothing. -/
theorem procmsgFile_fresh
    {env : FileEnv} {f : Frame} {c : FileChan} {ret : Nat}
    (hoffer : byteAt f 0 = Proto.SENDFILEREQUEST →
      validateFileName ((f.drop 12).take (load16 f 2 - 8)) = false)
    (h : Client.procmsgFile env .fresh f = .ok (c, ret)) :
    c = .fresh ∧ (ret = 0 ∨ byteAt f 0 = Proto.FILECONTROL ∧
      f.getD 2 0 = Proto.CTL_VOID ∧ f.getD 3 0 = Proto.CTL_VOID) := by
  rw [Client.procmsgFile] at h
  split_ifs at h with hreq haccepted hdenied hfragment hcontrol
  · rw [procmsgSENDFILEREQUEST, if_neg (by simp [FileChan.fresh])] at h
    split_ifs at h with hshort hname
    · cases h
      exact ⟨rfl, .inl rfl⟩
    · exact absurd (hoffer hreq) hname
  · cases h
    exact ⟨rfl, .inl rfl⟩
  · cases h
    exact ⟨rfl, .inl rfl⟩
  · cases h
    exact ⟨rfl, .inl rfl⟩
  · rw [procmsgFILECONTROL] at h
    split_ifs at h with hreceiver hsender
    · cases h
      exact ⟨rfl, .inl rfl⟩
    · cases h
      exact ⟨rfl, .inl rfl⟩
    · have hr : f.getD 3 0 = Proto.CTL_VOID := by
        by_contra hne
        exact hreceiver ⟨.inl rfl, hne⟩
      have hs : f.getD 2 0 = Proto.CTL_VOID := by
        by_contra hne
        exact hsender ⟨rfl, hne⟩
      rw [hs, hr] at h
      cases h
      exact ⟨rfl, .inr ⟨hcontrol, hs, hr⟩⟩
  · cases h
    exact ⟨rfl, .inl rfl⟩

/-- Before a file is offered there is no answer to be given. -/
theorem answer_fresh
    {a : AppCall}
    (ha : a.answers) (hfile : s.file = .fresh) (h : s.app a = .ok t) :
    t = s := by
  have hwith : ∀ {c : FileChan}, c = .fresh → s.withFile c = .ok t → t = s := by
    intro c hc hw
    obtain ⟨chn, -, rfl, hnone⟩ := withFile_ok hw
    obtain rfl : chn = s.chn := hnone (by rw [hc]; rfl)
    rw [hc, ← hfile]
    show { s with file := { s.file with out := [] } } = s
    rw [hfile]
    exact congrArg (fun c => { s with file := c }) hfile.symm
  cases a with
  | acceptFile mem opened r₀ r₁ =>
      refine hwith ?_ h
      rw [hfile]
      rfl
  | denyFile mem r₀ r₁ =>
      refine hwith ?_ h
      rw [hfile]
      rfl
  | sendMsg => cases ha
  | sendFile => cases ha
  | pauseFile => cases ha
  | resumeFile => cases ha
  | cancelFile => cases ha

theorem app_ok
    {a : AppCall}
    (h : s.app a = .ok t) :
    ∃ chn c, C2c.Kept s.chn chn ∧ t = { s with chn := chn, file := c } := by
  have hwith : ∀ {c : FileChan}, s.withFile c = .ok t →
      ∃ chn c, C2c.Kept s.chn chn ∧ t = { s with chn := chn, file := c } := by
    intro c hw
    obtain ⟨chn, hkept, rfl, -⟩ := withFile_ok hw
    exact ⟨chn, _, hkept, rfl⟩
  cases a with
  | sendMsg mem m =>
      rw [app, sendMsg] at h
      split_ifs at h
      · cases h
        exact ⟨s.chn, s.file, .refl _, rfl⟩
      · cases hpush : c2cWritebufPush mem s.chn (msgFrame m) with
        | none => simp [hpush] at h
        | some v =>
            rw [hpush] at h
            cases h
            exact ⟨v.1, s.file, c2cWritebufPush_kept hpush, rfl⟩
  | sendFile mem file path => exact hwith h
  | acceptFile mem opened r₀ r₁ => exact hwith h
  | denyFile mem r₀ r₁ => exact hwith h
  | pauseFile mem sending => exact hwith h
  | resumeFile mem sending => exact hwith h
  | cancelFile mem sending =>
      rw [app] at h
      split at h
      · cases h
      · exact hwith h

theorem c2cStart_ok
    {connected : Option Bool} {io : PollIo}
    (h : s.c2cStart connected io = .ok t) :
    (∃ st, (st = .connecting ∨ st = .waitingAnonTls) ∧ t = s.setState st) ∨
      Ended s t [.c2cFailed] := by
  have hfailed : ∀ {u : Session}, u.calls = s.calls → (u.called .c2cFailed).closeC2c = .ok t →
      Ended s t [.c2cFailed] := by
    intro u hu hclose
    obtain ⟨hclosed, hcalls⟩ := closeC2c_ok hclose
    refine ⟨hclosed, hcalls.trans ?_⟩
    rw [List.append_nil, called, hu]
  cases connected with
  | none => exact .inr (hfailed (u := s.setState .connecting) rfl h)
  | some b =>
      cases b with
      | false =>
          cases h
          exact .inl ⟨.connecting, .inl rfl, rfl⟩
      | true =>
          have hstage : ∀ r, (s.setState .connecting).stage2Startanontls io = r →
              r.1 = s.setState .waitingAnonTls ∧ r.2 = .ok ∨
                r.1 = s.setState .connecting ∧ r.2 ≠ .ok := by
            rintro r rfl
            rw [stage2Startanontls]
            split_ifs with hnew hok
            · exact .inr ⟨rfl, (by rintro ⟨⟩)⟩
            · exact .inl ⟨rfl, rfl⟩
            · exact .inr ⟨rfl, hok⟩
          rw [c2cStart] at h
          rcases hstage _ rfl with ⟨hs, hok⟩ | ⟨hs, hbad⟩
          · rw [if_pos hok, hs] at h
            cases h
            exact .inl ⟨.waitingAnonTls, .inr rfl, rfl⟩
          · rw [if_neg hbad, hs] at h
            exact .inr (hfailed (u := s.setState .connecting) rfl h)

/-- The calls before the first message. -/
theorem Stage.calls (h : Stage s t) :
    ∃ cs, t.calls = s.calls ++ cs ∧
      (s.chn.state ≠ .active → ∀ c ∈ cs, Callback.preliminary c) := by
  have hnone : t.calls = s.calls → ∃ cs, t.calls = s.calls ++ cs ∧
      (s.chn.state ≠ .active → ∀ c ∈ cs, Callback.preliminary c) :=
    fun heq => ⟨[], heq.trans (List.append_nil _).symm, fun _ => nofun⟩
  have hone : t.calls = s.calls ++ [.peerCertVerify] → ∃ cs, t.calls = s.calls ++ cs ∧
      (s.chn.state ≠ .active → ∀ c ∈ cs, Callback.preliminary c) := by
    refine fun heq => ⟨_, heq, fun _ c hc => ?_⟩
    rw [List.mem_singleton.mp hc]
    rfl
  cases h with
  | same => exact hnone rfl
  | stage2 => exact hnone rfl
  | stage3 => exact hnone rfl
  | write => exact hnone rfl
  | stage4 => exact hnone rfl
  | stage5 => exact hnone rfl
  | stage6 => exact hone rfl
  | verified => exact hone rfl
  | fragment chn c cs hst => exact ⟨cs, rfl, fun hne => absurd hst hne⟩

end Calls

/-- What an event does to a channel that stays open. -/
inductive Happens (s : Session) : SessionEvent → Session → Prop
  | start (connected : Option Bool) (io : PollIo) (st : C2cState) :
      s.chn.state = .new → st = .connecting ∨ st = .waitingAnonTls →
      Happens s (.start connected io) (s.setState st)
  | poll (io : PollIo) (t : Session) : Stage s t → Happens s (.poll io) t
  | read (io : PollIo) (t : Session) :
      Stage s t → Reads t → Happens s (.poll io) { t with reading := true }
  | frame (env : FrameEnv) (f : Frame) (t : Session) :
      FrameStep env s f t → Happens s (.frame env f) t
  | finish (late : Bool) : Happens s (.finish late) { s with reading := false }
  | listenerAdd (r : SslCall) :
      Happens s (.listenerAdd r) { s with accepted := (Direct.accepted r).toList ++ s.accepted }
  | listenerConn (i : Nat) (r : SslCall) (cert : Option PeerCert) :
      Happens s (.listenerConn i r cert) { s with
        accepted := s.accepted.take i ++
          (s.accepted[i]?.bind fun d => d.processListenerConn r cert).toList ++
          s.accepted.drop (i + 1) }
  | direct (io : DirectIo) (u v t : Session) :
      DirectStep s u → DirectStep u v → DirectStep v t → Happens s (.direct io) t
  | app (a : AppCall) (chn : C2c) (c : FileChan) :
      s.chn.state = .active → C2c.Kept s.chn chn →
      Happens s (.app a) { s with chn := chn, file := c }
  | answer (a : AppCall) (t : Session) :
      a.answers → s.app a = .ok t → Happens s (.app a) t

/-- How an event closes a channel. -/
inductive Closes (s : Session) : SessionEvent → Session → Prop
  | plain (e : SessionEvent) (t : Session) (cs : List Callback) :
      Ended s t cs → (s.chn.state ≠ .active → ∀ c ∈ cs, Callback.preliminary c) → Closes s e t
  | frame (env : FrameEnv) (f : Frame) (u t : Session) (c : Callback) :
      FrameStep env s f u ∨ Refused env s f u → c.preliminary → Ended u t [c] →
      Closes s (.frame env f) t

theorem Closes.closed {s t : Session} {e : SessionEvent} (h : Closes s e t) : t.closed = true := by
  cases h with
  | plain _ _ cs hended => exact hended.closed
  | frame env f u _ c _ _ hended => exact hended.closed

section Step

variable {s t : Session} {e : SessionEvent}

theorem ended_one
    {c : Callback}
    (hc : c.preliminary) (h : Ended s t [c]) :
    Closes s e t := by
  refine .plain e t [c] h fun _ x hx => ?_
  rw [List.mem_singleton.mp hx]
  exact hc

theorem finish_ok
    {ret : Ret} {late : Bool}
    (h : s.finishC2c ret late = .ok t) :
    t = { s with reading := false } ∨ Closes s e t := by
  rcases finishC2c_ok h with ⟨-, ht⟩ | ⟨c, hc, hended⟩
  · exact .inl ht
  · exact .inr (ended_one hc hended)

/-- The event loop calls `process_c2c`. -/
theorem poll_ok
    {io : PollIo}
    (hread : s.reading = false) (h : s.pollC2c io = .ok t) :
    Happens s (.poll io) t ∨ Closes s (.poll io) t := by
  rcases pollC2c_ok hread h with ⟨u, hstage, rfl | ⟨hreads, rfl⟩ | ⟨c, hc, hended⟩⟩ |
    ⟨cs, hended, hpre⟩
  · exact .inl (.poll io t hstage)
  · exact .inl (.read io u hstage hreads)
  · obtain ⟨cs, hcalls, hpre⟩ := hstage.calls
    refine .inr (.plain _ t (cs ++ [c]) ⟨hended.closed, ?_⟩ fun hst x hx => ?_)
    · rw [hended.calls, hcalls, List.append_assoc]
    · rcases List.mem_append.mp hx with hx | hx
      · exact hpre hst x hx
      · rw [List.mem_singleton.mp hx]
        exact hc
  · exact .inr (.plain _ t cs hended hpre)

/-- **What an event does.** -/
theorem sessionStep_ok (h : sessionStep s e = some t) :
    s.closed = false ∧ e.enabled s = true ∧ (Happens s e t ∨ Closes s e t) := by
  rw [sessionStep] at h
  split_ifs at h with hen
  have hres : s.react e = .ok t := by
    cases hr : s.react e with
    | error => simp [hr, Except.toOption] at h
    | ok v =>
        simp only [hr, Except.toOption, Option.some.injEq] at h
        rw [h]
  obtain ⟨hopen, hwhen⟩ := Bool.and_eq_true_iff.mp hen
  refine ⟨by simpa using hopen, hen, ?_⟩
  cases e with
  | start connected io =>
      rcases c2cStart_ok hres with ⟨st, hst, rfl⟩ | hended
      · exact .inl (.start connected io st (by simpa using hwhen) hst)
      · exact .inr (ended_one rfl hended)
  | poll io =>
      have hread : s.reading = false := by
        simp only [Bool.and_eq_true] at hwhen
        simpa using hwhen.1.1
      exact poll_ok hread hres
  | frame env f =>
      have hsize : msggetsize f f.length (c2cMessages env) = f.length := by
        simp only [Bool.and_eq_true] at hwhen
        simpa using hwhen.2
      rcases frameC2c_ok hsize hres with hstep | ⟨u, c, hu, hc, hended⟩
      · exact .inl (.frame env f t hstep)
      · exact .inr (.frame env f u t c hu hc hended)
  | garbage =>
      rcases finishC2c_ok hres with ⟨hok, -⟩ | ⟨c, hc, hended⟩
      · cases hok
      · exact .inr (ended_one hc hended)
  | finish late =>
      rcases finish_ok hres with rfl | hclosed
      · exact .inl (.finish late)
      · exact .inr hclosed
  | listenerAdd r =>
      cases hres
      exact .inl (.listenerAdd r)
  | listenerConn i r cert =>
      cases hres
      exact .inl (.listenerConn i r cert)
  | direct io =>
      simp only [Bool.and_eq_true] at hwhen
      have hwatch : io.rfds || io.wfds → s.chn.state = .active := by
        intro hready
        have hw := hwhen.2
        rw [hready] at hw
        simp only [watchesDirect] at hw
        exact (by simpa using hw : s.chn.state = .active ∧ _).1
      obtain ⟨u, v, hu, hv, ht⟩ := processDirectc2c_ok hwatch hres
      exact .inl (.direct io u v t hu hv ht)
  | app a =>
      rcases Bool.or_eq_true_iff.mp hwhen with hst | hans
      · obtain ⟨chn, c, hkept, rfl⟩ := app_ok hres
        exact .inl (.app a chn c (by simpa using hst) hkept)
      · exact .inl (.answer a t hans hres)
  | close => exact .inr (.plain _ t [] (closeC2c_ok hres) fun _ => nofun)

end Step

/-! ## A channel that is set up -/

/-- Everything succeeds, and the socket is readable. -/
def readable : PollIo where
  rfds := true
  wfds := false
  directRfds := false
  directWfds := false
  connected := true
  ssl := .done
  next := .wantRead
  sslNew := true
  cert := some ⟨some rsaMinKeySize, some (Id.ofByte 2)⟩
  answer := true
  mem := .enough
  write := .all
  got := true
  memFile := true
  fread := []
  late := false

def writable : PollIo :=
  { readable with rfds := false, wfds := true }

/-- The calls up to the first message. -/
def setUp : List SessionEvent :=
  [.start (some true) readable, .poll readable, .poll writable, .poll readable, .poll readable]

/-- A message is handled with memory for everything; the user decides later about a file. -/
def handle (f : Frame) : SessionEvent :=
  .frame ⟨.fine .later, .enough, .enough, true, true, true⟩ f

/-- Messages that arrive together. -/
def received (fs : List Frame) : List SessionEvent :=
  .poll readable :: fs.map handle ++ [.finish false]

def caller (config : DirectConfig) : Session :=
  init true (Id.ofByte 1) (Id.ofByte 2) config none

def callee (config : DirectConfig) : Session :=
  init false (Id.ofByte 1) (Id.ofByte 2) config none

def initRespOk : Frame :=
  head Proto.INITRESPOK ++ [79, 75]

def connReq (high low : UInt8) : Frame :=
  head Proto.C2CCONNREQ ++ [high, low]

/-- Both sides of a call become active. -/
example :
    (run sessionStep (caller .disabled) (setUp ++ received [initRespOk])).map (·.calls) =
        some [.peerCertVerify, .c2cEstablished] ∧
      (run sessionStep (callee .disabled) (setUp ++ received [connReq 0 1])).map (·.calls) =
        some [.peerCertVerify, .c2cEstablished] := by
  decide +kernel

end Session
end Client
end PicaPica
