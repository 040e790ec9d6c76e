import PicaPica.Client.SessionEvents

/-!
# `process_c2c` and the states it calls for

`process_c2c` writes in `WAITINGC2CPROTOVER` when the socket is writable, but `PICA_write_c2c`
does not accept this state, and the program exits.  The event loop asks for the socket when
something is queued; in this state that is the answer to a request for another version, or to
an offered file.  A request for another version also makes the next write close the channel,
which is used afterwards.  In all other cases the calls are right.
-/

namespace PicaPica
namespace Client

open Machine

/-- The program exits, or a closed channel is used. -/
def SessionFault.Fatal (e : SessionFault) : Prop :=
  e = .exited ∨ e = .closedChannel

theorem SessionFault.fatal_outside : ¬SessionFault.outside.Fatal := by
  simp [SessionFault.Fatal]

theorem SessionFault.fatal_freedDirect : ¬SessionFault.freedDirect.Fatal := by
  simp [SessionFault.Fatal]

namespace Session

/-- The next message asks for another version of the protocol, or offers a file. -/
def Unwelcome (f : Frame) : Prop :=
  byteAt f 0 = Proto.C2CCONNREQ ∧
      ¬(byteAt f 2 = Proto.C2C_VER_HIGH ∧ byteAt f 3 = Proto.C2C_VER_LOW) ∨
    byteAt f 0 = Proto.SENDFILEREQUEST ∧
      validateFileName ((f.drop 12).take (load16 f 2 - 8)) = true

instance (f : Frame) : Decidable (Unwelcome f) :=
  inferInstanceAs (Decidable (_ ∧ ¬(_ ∧ _) ∨ _ ∧ _))

/-- The callee that waits for the version gets no such message. -/
def Agreeable (s : Session) : SessionEvent → Prop
  | .frame _ f => s.chn.state = .waitingC2cProtoVer → ¬Unwelcome f
  | _ => True

instance (s : Session) (e : SessionEvent) : Decidable (s.Agreeable e) :=
  match e with
  | .frame _ f => inferInstanceAs (Decidable (s.chn.state = .waitingC2cProtoVer → ¬Unwelcome f))
  | .start _ _ => .isTrue trivial
  | .poll _ => .isTrue trivial
  | .garbage => .isTrue trivial
  | .finish _ => .isTrue trivial
  | .listenerAdd _ => .isTrue trivial
  | .listenerConn _ _ _ => .isTrue trivial
  | .direct _ => .isTrue trivial
  | .app _ => .isTrue trivial
  | .close => .isTrue trivial

/-- The channel is in a state in which it has nothing to say but `CONNID`. -/
def Silent (s : Session) : Prop :=
  s.chn.state ≠ .active ∧ s.chn.state ≠ .waitingRep

/-- Nothing is queued on a silent channel, and nothing will be. -/
structure SilentOk (s : Session) : Prop where
  file : s.file = .fresh
  waiting : s.chn.directState ≠ .waitingIncoming
  idle : s.outgoing = true → s.chn.directState = .inactive
  protoVer : s.chn.state = .waitingC2cProtoVer → s.outgoing = false
  empty : s.chn.state ≠ .connid → s.chn.writePos = 0

/-- The calls for an open channel fit its state. -/
structure CallsFit (s : Session) : Prop where
  stays : s.chn.disconnectOnEmptyWriteBuf = false
  reading : s.reading → Reads s
  silent : s.Silent → SilentOk s

section Invariant

variable {s t : Session} {env : FrameEnv} {f : Frame} {e : SessionEvent}

theorem SilentOk.same
    (h : SilentOk s) (hchn : t.chn = s.chn) (hfile : t.file = s.file)
    (hout : t.outgoing = s.outgoing) :
    SilentOk t := by
  refine ⟨hfile.trans h.file, ?_, ?_, ?_, ?_⟩
  · rw [hchn]
    exact h.waiting
  · rw [hchn, hout]
    exact h.idle
  · rw [hchn, hout]
    exact h.protoVer
  · rw [hchn]
    exact h.empty

theorem CallsFit.stage
    (h : CallsFit s) (hread : s.reading = false) (hstage : Stage s t) :
    CallsFit t := by
  have hread' : t.reading → Reads t := by
    intro hr
    rw [hstage.reading, hread] at hr
    cases hr
  have hquiet : ∀ {st : C2cState}, s.chn.state = st → st ≠ .active → st ≠ .waitingRep →
      SilentOk s := by
    intro st hst hne hne'
    exact h.silent ⟨hst.symm ▸ hne, hst.symm ▸ hne'⟩
  cases hstage with
  | same => exact h
  | stage2 hst =>
      have hs := hquiet hst nofun nofun
      refine ⟨h.stays, hread', fun _ => ⟨hs.file, hs.waiting, hs.idle, nofun, fun _ => ?_⟩⟩
      exact hs.empty (by rw [hst]; exact nofun)
  | stage3 chn hst hkept =>
      have hs := hquiet hst nofun nofun
      refine ⟨hkept.disconnect.trans h.stays, hread', fun _ => ?_⟩
      refine ⟨hs.file, ?_, ?_, nofun, fun hne => absurd rfl hne⟩
      · exact hkept.directState.symm ▸ hs.waiting
      · exact fun hout => hkept.directState.trans (hs.idle hout)
  | write chn hwrites hkept =>
      refine ⟨hkept.disconnect.trans h.stays, hread', fun hsilent => ?_⟩
      have hsilent' : s.Silent := by
        rw [Silent, ← hkept.state]
        exact hsilent
      have hs := h.silent hsilent'
      have hconnid : s.chn.state = .connid := by
        rcases hwrites with hst | hst | hst
        · exact absurd hst hsilent'.1
        · exact hst
        · exact absurd hst hsilent'.2
      refine ⟨hs.file, hkept.directState.symm ▸ hs.waiting,
        fun hout => hkept.directState.trans (hs.idle hout), fun hst => ?_, fun hne => ?_⟩
      · exact absurd (hconnid.symm.trans (hkept.state.symm.trans hst)) nofun
      · exact absurd (hkept.state.trans hconnid) hne
  | stage4 chn hst hkept hempty =>
      have hs := hquiet hst nofun nofun
      exact ⟨hkept.disconnect.trans h.stays, hread', fun _ => ⟨hs.file,
        hkept.directState.symm ▸ hs.waiting,
        fun hout => hkept.directState.trans (hs.idle hout), nofun, fun _ => hempty⟩⟩
  | stage5 hst =>
      have hs := hquiet hst nofun nofun
      refine ⟨h.stays, hread', fun _ => ⟨hs.file, hs.waiting, hs.idle, nofun, fun _ => ?_⟩⟩
      exact hs.empty (by rw [hst]; exact nofun)
  | stage6 chn hst hout hkept =>
      exact ⟨hkept.disconnect.trans h.stays, hread', fun hsilent => absurd rfl hsilent.2⟩
  | verified hst hin =>
      have hs := hquiet hst nofun nofun
      refine ⟨h.stays, hread', fun _ => ⟨hs.file, hs.waiting, hs.idle, fun _ => hin, fun _ => ?_⟩⟩
      exact hs.empty (by rw [hst]; exact nofun)
  | fragment chn c cs hst hkept =>
      refine ⟨hkept.disconnect.trans h.stays, hread', fun hsilent => ?_⟩
      exact absurd (hkept.state.trans hst) hsilent.1

/-- The state is the same, and so is everything that counts in a silent one. -/
theorem CallsFit.keep
    (h : CallsFit s) (hst : t.chn.state = s.chn.state) (hread : t.reading = s.reading)
    (hstays : t.chn.disconnectOnEmptyWriteBuf = s.chn.disconnectOnEmptyWriteBuf)
    (hsilent : s.Silent → SilentOk s → SilentOk t) :
    CallsFit t := by
  refine ⟨hstays.trans h.stays, ?_, fun hs => ?_⟩
  · rw [hread, Reads, hst]
    exact h.reading
  · have hs' : s.Silent := by
      rw [Silent, ← hst]
      exact hs
    exact hsilent hs' (h.silent hs')

/-- A silent channel handles messages only while the callee waits for the version. -/
theorem CallsFit.reading_silent
    (h : CallsFit s) (hread : s.reading = true) (hsilent : s.Silent) :
    s.chn.state = .waitingC2cProtoVer := by
  rcases h.reading hread with hst | hst | hst
  · exact absurd hst hsilent.2
  · exact hst
  · exact absurd hst hsilent.1

theorem CallsFit.frame
    (h : CallsFit s) (hok : s.Agreeable (.frame env f)) (hread : s.reading = true)
    (hstep : FrameStep env s f t) :
    CallsFit t := by
  cases hstep with
  | msgutf8 chn _ hst hkept =>
      exact h.keep hkept.state rfl hkept.disconnect fun hsilent => absurd hst hsilent.1
  | msgok => exact h.keep rfl rfl rfl fun _ hs => hs.same rfl rfl rfl
  | file chn c ret _ hfile hkept hnone =>
      refine h.keep hkept.state rfl hkept.disconnect fun hsilent hs => ?_
      have hwelcome := hok (h.reading_silent hread hsilent)
      have hname : byteAt f 0 = Proto.SENDFILEREQUEST →
          validateFileName ((f.drop 12).take (load16 f 2 - 8)) = false :=
        fun hreq => Bool.eq_false_iff.mpr fun hvalid => hwelcome (.inr ⟨hreq, hvalid⟩)
      rw [hs.file] at hfile
      obtain ⟨rfl, -⟩ := procmsgFile_fresh hname hfile
      obtain rfl := hnone rfl
      exact hs.same rfl hs.file.symm rfl
  | completes chn st _ hkept =>
      exact ⟨hkept.disconnect.trans h.stays, fun _ => .inr (.inr rfl),
        fun hsilent => absurd rfl hsilent.1⟩
  | differs chn hst hk hver => exact absurd (.inl ⟨hk, hver⟩) (hok hst)
  | unlisted => exact h
  | listed d st _ _ _ hst =>
      refine h.keep rfl rfl rfl fun hsilent hs => ?_
      have hin := hs.protoVer (h.reading_silent hread hsilent)
      refine ⟨hs.file, ?_, fun hout => absurd (hin.symm.trans hout) nofun, hs.protoVer, hs.empty⟩
      rcases hst with rfl | rfl | rfl
      · exact hs.waiting
      · exact nofun
      · exact nofun
  | failed d₀ d _ _ hwaits =>
      exact h.keep rfl rfl rfl fun _ hs => absurd hwaits hs.waiting
  | switched =>
      exact h.keep rfl rfl rfl fun _ hs =>
        ⟨hs.file, hs.waiting, hs.idle, hs.protoVer, hs.empty⟩

/-- On a silent channel `process_directc2c` pushes nothing. -/
theorem SilentOk.directStep
    (h : SilentOk s) (hsilent : s.Silent) (hstep : DirectStep s t) :
    SilentOk t := by
  -- the caller has no direct connection yet
  have hin : s.chn.directState ≠ .inactive → s.outgoing = false := by
    intro hne
    by_contra hout
    exact hne (h.idle (Bool.not_eq_false _ ▸ hout))
  have hset : ∀ (st : DirectState) {u : Session}, s.chn.directState ≠ .inactive →
      st ≠ .waitingIncoming → u.chn = { s.chn with directState := st } → u.file = s.file →
      u.outgoing = s.outgoing → SilentOk u := by
    intro st u hne hst hchn hfile hout
    refine ⟨hfile.trans h.file, ?_, ?_, ?_, ?_⟩
    · rw [hchn]
      exact hst
    · rw [hout, hin hne]
      exact nofun
    · rw [hchn, hout]
      exact h.protoVer
    · rw [hchn]
      exact h.empty
  cases hstep with
  | same => exact h
  | dropped => exact h.same rfl rfl rfl
  | taken _ _ _ _ _ _ hwaits => exact absurd hwaits h.waiting
  | announced chn hfailed hout =>
      exact absurd ((h.idle hout).symm.trans hfailed) nofun
  | gaveUp chn hfailed hchn =>
      have hne : s.chn.directState ≠ .inactive := by
        rw [hfailed]
        exact nofun
      rcases hchn with hout | rfl
      · exact absurd ((hin hne).symm.trans hout) nofun
      · exact hset .inactive hne nofun rfl rfl rfl
  | moved d d' chn cs hconn _ _ _ _ _ hchn =>
      rcases hchn with rfl | hst
      · exact h.same rfl rfl rfl
      · exact absurd hst hsilent.1
  | connected d d' chn _ _ _ _ _ _ _ hst => exact absurd hst hsilent.1
  | exhausted d hconn =>
      exact hset .failedToConnect (by rw [hconn]; exact nofun) nofun rfl rfl rfl
  | up d hconn =>
      exact hset .active (by rw [hconn]; exact nofun) nofun rfl rfl rfl

theorem DirectStep.kept (h : DirectStep s t) :
    t.reading = s.reading ∧
      t.chn.disconnectOnEmptyWriteBuf = s.chn.disconnectOnEmptyWriteBuf := by
  cases h with
  | same => exact ⟨rfl, rfl⟩
  | dropped => exact ⟨rfl, rfl⟩
  | taken _ _ chn _ _ _ _ hkept => exact ⟨rfl, hkept.disconnect⟩
  | announced chn _ _ hkept => exact ⟨rfl, hkept.disconnect⟩
  | gaveUp chn _ _ hkept => exact ⟨rfl, hkept.disconnect⟩
  | moved _ _ chn _ _ _ _ _ _ _ _ hkept => exact ⟨rfl, hkept.disconnect⟩
  | connected _ _ chn _ _ _ _ _ _ _ _ hkept => exact ⟨rfl, hkept.disconnect⟩
  | exhausted => exact ⟨rfl, rfl⟩
  | up => exact ⟨rfl, rfl⟩

theorem CallsFit.directStep (h : CallsFit s) (hstep : DirectStep s t) : CallsFit t :=
  h.keep hstep.state hstep.kept.1 hstep.kept.2 fun hsilent hs => hs.directStep hsilent hstep

theorem CallsFit.happens
    (h : CallsFit s) (hok : s.Agreeable e) (hen : e.enabled s = true) (hstep : Happens s e t) :
    CallsFit t := by
  obtain ⟨-, hwhen⟩ := Bool.and_eq_true_iff.mp hen
  cases hstep with
  | start connected io st hnew hst =>
      have hs := h.silent ⟨by rw [hnew]; exact nofun, by rw [hnew]; exact nofun⟩
      have hnot : s.reading ≠ true := by
        intro hread
        rcases h.reading hread with hr | hr | hr
        · exact absurd (hnew.symm.trans hr) nofun
        · exact absurd (hnew.symm.trans hr) nofun
        · exact absurd (hnew.symm.trans hr) nofun
      have hst' : st ≠ .waitingC2cProtoVer := by
        rcases hst with rfl | rfl
        · exact nofun
        · exact nofun
      refine ⟨h.stays, fun hread => absurd hread hnot, fun _ => ?_⟩
      refine ⟨hs.file, hs.waiting, hs.idle, fun hproto => absurd hproto hst', fun _ => ?_⟩
      exact hs.empty (by rw [hnew]; exact nofun)
  | poll io t hstage =>
      simp only [Bool.and_eq_true] at hwhen
      exact h.stage (by simpa using hwhen.1.1) hstage
  | read io t hstage hreads =>
      simp only [Bool.and_eq_true] at hwhen
      have ht := h.stage (by simpa using hwhen.1.1) hstage
      exact ⟨ht.stays, fun _ => hreads, fun hsilent => (ht.silent hsilent).same rfl rfl rfl⟩
  | frame env f t hstep =>
      simp only [Bool.and_eq_true] at hwhen
      exact h.frame hok hwhen.1 hstep
  | finish =>
      exact ⟨h.stays, nofun, fun hsilent => (h.silent hsilent).same rfl rfl rfl⟩
  | listenerAdd =>
      exact h.keep rfl rfl rfl fun _ hs => hs.same rfl rfl rfl
  | listenerConn =>
      exact h.keep rfl rfl rfl fun _ hs => hs.same rfl rfl rfl
  | direct io u v t hu hv ht => exact ((h.directStep hu).directStep hv).directStep ht
  | app a chn c hst hkept =>
      exact h.keep hkept.state rfl hkept.disconnect fun hsilent => absurd hst hsilent.1
  | answer a t hans happ =>
      by_cases hsilent : s.Silent
      · rw [answer_fresh hans (h.silent hsilent).file happ]
        exact h
      · obtain ⟨chn, c, hkept, rfl⟩ := app_ok happ
        exact h.keep hkept.state rfl hkept.disconnect fun hs => absurd hs hsilent

theorem callsFit_init
    {outgoing : Bool} {accId peerId : Id} {config : DirectConfig} {listener : Option (Nat × Nat)} :
    CallsFit (init outgoing accId peerId config listener) where
  stays := rfl
  reading := nofun
  silent := fun _ => ⟨rfl, nofun, fun _ => rfl, nofun, fun _ => rfl⟩

end Invariant

/-! ## `process_c2c` does not fail -/

section Fatal

variable {s t : Session} {io : PollIo} {ret : Ret}

/-- `PICA_write_c2c` in a state that it accepts. -/
theorem writeC2c_spares
    {r : SslWrite}
    (hst : s.chn.state = .active ∨ s.chn.state = .connid ∨ s.chn.state = .waitingRep) :
    Spares SessionFault.Fatal (s.writeC2c r) := by
  obtain ⟨w, hw⟩ : ∃ w, Client.writeC2c r s.chn = some w := by
    rw [Client.writeC2c, if_pos hst]
    exact ⟨_, rfl⟩
  rw [writeC2c]
  simp only [hw]
  split_ifs
  · exact spares_error (by simp [SessionFault.Fatal])
  · exact spares_error (by simp [SessionFault.Fatal])
  · exact (closeC2c_spares SessionFault.fatal_freedDirect).bind fun _ _ => spares_ok _
  · exact spares_ok _

/-- A channel that is not to be closed is open after the write. -/
theorem writeC2c_open
    {r : SslWrite}
    (hopen : s.closed = false) (hstays : s.chn.disconnectOnEmptyWriteBuf = false)
    (h : s.writeC2c r = .ok (t, ret)) :
    t.closed = false ∧ t.chn.state = s.chn.state := by
  obtain ⟨-, ⟨-, hdis⟩ | ⟨chn, hkept, rfl⟩⟩ := writeC2c_ok h
  · exact absurd (hstays.symm.trans hdis) nofun
  · exact ⟨hopen, hkept.state⟩

theorem use_spares (hopen : s.closed = false) : Spares SessionFault.Fatal s.use := by
  rw [use, if_neg (by simp [hopen])]
  exact spares_ok _

theorem pollRead_spares
    {ready : Bool}
    (hopen : s.closed = false) (hreads : Reads s) :
    Spares SessionFault.Fatal (s.pollRead io ready ret) := by
  refine (use_spares hopen).bind fun u hu => ?_
  obtain ⟨-, rfl⟩ := use_ok hu
  split_ifs
  · rw [Reads] at hreads
    rw [readC2c, if_pos hreads]
    refine Spares.bind ?_ fun _ _ => spares_ok _
    rw [sslToRead]
    split_ifs
    · split
      · exact spares_error (by simp [SessionFault.Fatal])
      · split_ifs
        · exact spares_error (by simp [SessionFault.Fatal])
        · split
          · exact spares_error (by simp [SessionFault.Fatal])
          · exact spares_ok _
    · exact spares_ok _
  · exact spares_ok _

/-- The write of `process_c2c` when it is made in a state that is accepted. -/
theorem pollWrite_spares
    (hst : io.wfds = true →
      s.chn.state = .active ∨ s.chn.state = .connid ∨ s.chn.state = .waitingRep) :
    Spares SessionFault.Fatal (s.pollWrite io) := by
  rw [pollWrite]
  split_ifs with hw
  · exact writeC2c_spares (hst hw)
  · exact spares_ok _

theorem pollWrite_open
    (hopen : s.closed = false) (hstays : s.chn.disconnectOnEmptyWriteBuf = false)
    (h : s.pollWrite io = .ok (t, ret)) :
    t.closed = false ∧ t.chn.state = s.chn.state := by
  rw [pollWrite] at h
  split_ifs at h
  · exact writeC2c_open hopen hstays h
  · cases h
    exact ⟨hopen, rfl⟩

theorem pollFragment_spares : Spares SessionFault.Fatal (s.pollFragment io) := by
  rw [pollFragment]
  split_ifs
  · rw [sendFileFragment]
    split
    · exact spares_error (by simp [SessionFault.Fatal])
    · exact (withFile_spares SessionFault.fatal_outside).bind fun _ _ => spares_ok _
  · exact spares_ok _

theorem pollActiveWrite_spares (hst : s.chn.state = .active) :
    Spares SessionFault.Fatal (s.pollActiveWrite io) := by
  rw [pollActiveWrite]
  split_ifs
  · refine pollFragment_spares.bind ?_
    rintro ⟨u, r⟩ hfrag
    obtain ⟨chn, c, cs, hkept, rfl⟩ := pollFragment_ok hfrag
    dsimp only
    split_ifs
    · exact writeC2c_spares (.inl (hkept.state.trans hst))
    · exact spares_ok _
  · exact spares_ok _

theorem pollActiveWrite_open
    (hopen : s.closed = false) (hstays : s.chn.disconnectOnEmptyWriteBuf = false)
    (h : s.pollActiveWrite io = .ok (t, ret)) :
    t.closed = false ∧ t.chn.state = s.chn.state := by
  rw [pollActiveWrite] at h
  split_ifs at h
  · obtain ⟨⟨u, r⟩, hfrag, hres⟩ := bind_eq_ok.mp h
    obtain ⟨chn, c, cs, hkept, rfl⟩ := pollFragment_ok hfrag
    dsimp only at hres
    split_ifs at hres
    · obtain ⟨hclosed, hst⟩ := writeC2c_open (by exact hopen) (hkept.disconnect.trans hstays) hres
      exact ⟨hclosed, hst.trans hkept.state⟩
    · cases hres
      exact ⟨hopen, hkept.state⟩
  · cases h
    exact ⟨hopen, rfl⟩

theorem pollConnid_spares
    (hopen : s.closed = false) (hstays : s.chn.disconnectOnEmptyWriteBuf = false)
    (hst : s.chn.state = .connid) :
    Spares SessionFault.Fatal (s.pollConnid io) := by
  refine (pollWrite_spares fun _ => .inr (.inl hst)).bind ?_
  rintro ⟨u, r⟩ hwrite
  exact (use_spares (pollWrite_open hopen hstays hwrite).1).bind fun _ _ => spares_ok _

theorem tlsDone_spares : Spares SessionFault.Fatal (s.tlsDone io) := by
  rw [tlsDone]
  split_ifs
  all_goals first | exact spares_ok _ | exact (push_spares SessionFault.fatal_outside).bind fun _ _ => spares_ok _

theorem pollTls_spares : Spares SessionFault.Fatal (s.pollTls io) := by
  rw [pollTls]
  split
  · exact tlsDone_spares
  · exact spares_ok _
  · exact spares_ok _
  · exact spares_ok _

/-- The `switch` of `process_c2c`, when the callee does not write before it knows the
version. -/
theorem pollSwitch_spares
    (hopen : s.closed = false) (hstays : s.chn.disconnectOnEmptyWriteBuf = false)
    (hquiet : s.chn.state = .waitingC2cProtoVer → io.wfds = false) :
    Spares SessionFault.Fatal (s.pollSwitch io) := by
  rw [pollSwitch]
  cases hst : s.chn.state with
  | new => exact spares_ok _
  | connecting =>
      dsimp only
      split_ifs
      · exact spares_ok _
      · exact spares_ok _
      · exact spares_ok _
  | waitingAnonTls =>
      dsimp only
      split_ifs
      · exact spares_ok _
      · exact (push_spares SessionFault.fatal_outside).bind fun _ _ => spares_ok _
      · exact spares_ok _
  | connid => exact pollConnid_spares hopen hstays hst
  | waitingAnonTlsShutdown =>
      dsimp only
      split_ifs
      · exact spares_ok _
      · split
        · exact spares_ok _
        · exact spares_ok _
        · exact spares_ok _
  | waitingTls =>
      dsimp only
      split_ifs
      · exact spares_ok _
      · exact pollTls_spares
  | waitingRep =>
      refine (pollWrite_spares fun _ => .inr (.inr hst)).bind ?_
      rintro ⟨u, r⟩ hwrite
      obtain ⟨hopen', hst'⟩ := pollWrite_open hopen hstays hwrite
      exact pollRead_spares hopen' (.inl (hst'.trans hst))
  | waitingC2cProtoVer =>
      have hnone : io.wfds = false := hquiet hst
      refine (pollWrite_spares fun hw => absurd (hnone.symm.trans hw) (by rintro ⟨⟩)).bind ?_
      rintro ⟨u, r⟩ hwrite
      obtain ⟨hopen', hst'⟩ := pollWrite_open hopen hstays hwrite
      exact pollRead_spares hopen' (.inr (.inl (hst'.trans hst)))
  | active =>
      refine (pollActiveWrite_spares hst).bind ?_
      rintro ⟨u, r⟩ hwrite
      obtain ⟨hopen', hst'⟩ := pollActiveWrite_open hopen hstays hwrite
      exact pollRead_spares hopen' (.inr (.inr (hst'.trans hst)))

theorem pollC2c_spares
    (hopen : s.closed = false) (hstays : s.chn.disconnectOnEmptyWriteBuf = false)
    (hquiet : s.chn.state = .waitingC2cProtoVer → io.wfds = false) :
    Spares SessionFault.Fatal (s.pollC2c io) := by
  refine (pollSwitch_spares hopen hstays hquiet).bind fun r _ => ?_
  dsimp only
  split_ifs
  · exact spares_ok _
  · exact finishC2c_spares SessionFault.fatal_freedDirect

/-- The event loop does not ask for the socket while the callee waits for the version. -/
theorem CallsFit.quiet
    (h : CallsFit s) (hen : (SessionEvent.poll io).enabled s = true)
    (hst : s.chn.state = .waitingC2cProtoVer) :
    io.wfds = false := by
  have hs := h.silent ⟨by rw [hst]; exact nofun, by rw [hst]; exact nofun⟩
  have hempty := hs.empty (by rw [hst]; exact nofun)
  have hwants : s.wantsWrite = false := by
    simp [wantsWrite, hst, hempty, hs.file, FileChan.fresh]
  simp only [SessionEvent.enabled, hwants, Bool.or_false, Bool.and_eq_true] at hen
  simpa using hen.2.1.2

end Fatal

/-- **The calls of `process_c2c` fit the states**, in every run in which the callee that
waits for the version gets no request for another version and no offer of a file: whenever
the event loop calls `process_c2c`, whatever sockets are ready, the program does not exit and
a channel that a write has closed is not used. -/
theorem poll_never_exits
    {outgoing : Bool} {accId peerId : Id} {config : DirectConfig} {listener : Option (Nat × Nat)}
    {es : List SessionEvent} {s : Session} {io : PollIo}
    (hok : Meets sessionStep Agreeable (init outgoing accId peerId config listener) es)
    (hrun : run sessionStep (init outgoing accId peerId config listener) es = some s)
    (hen : (SessionEvent.poll io).enabled s = true) :
    s.react (.poll io) ≠ .error .exited ∧ s.react (.poll io) ≠ .error .closedChannel := by
  have hstep : ∀ u e v, (u.closed = false → CallsFit u) → u.Agreeable e →
      sessionStep u e = some v → v.closed = false → CallsFit v := by
    intro u e v hu hagree hs hv
    obtain ⟨hopen, hen, hhappens | hcloses⟩ := sessionStep_ok hs
    · exact (hu hopen).happens hagree hen hhappens
    · exact absurd (hv.symm.trans hcloses.closed) nofun
  have hopen : s.closed = false := by
    simpa using (Bool.and_eq_true_iff.mp hen).1
  have hfit := run_invariant hstep (fun _ => callsFit_init) hok hrun hopen
  have hspares := pollC2c_spares hopen hfit.stays (hfit.quiet hen)
  exact ⟨fun h => hspares _ h (.inl rfl), fun h => hspares _ h (.inr rfl)⟩

/-- The callee sends `INITRESPOK`. -/
theorem poll_never_exits_callee :
    ∃ s, run sessionStep (callee .disabled) (setUp ++ received [connReq 0 1]) = some s ∧
      s.chn.writePos = 4 ∧ s.react (.poll writable) ≠ .error .exited ∧
        s.react (.poll writable) ≠ .error .closedChannel := by
  obtain ⟨s, hrun, hpos, hen⟩ :
      ∃ s, run sessionStep (callee .disabled) (setUp ++ received [connReq 0 1]) = some s ∧
        s.chn.writePos = 4 ∧ (SessionEvent.poll writable).enabled s = true :=
    run_ends (by decide +kernel)
  exact ⟨s, hrun, hpos, poll_never_exits (by decide +kernel) hrun hen⟩

/-! ## A peer that makes the client exit -/

/-- What a call fails with. -/
def fault (s : Session) (e : SessionEvent) : Option SessionFault :=
  match s.react e with
  | .error x => some x
  | .ok _ => none

/-- The callee exits when it writes the answer to a request for another version, or to an
offered file.  When the right version is requested after another one, the channel is closed
by the write and used. -/
theorem peer_makes_client_exit :
    (∃ s, run sessionStep (callee .disabled) (setUp ++ received [connReq 0 2]) = some s ∧
      (SessionEvent.poll writable).enabled s = true ∧ s.fault (.poll writable) = some .exited) ∧
    (∃ s, run sessionStep (callee .disabled)
        (setUp ++ received [requestFrame 1 [97]] ++ [.app (.acceptFile true true 7 7)]) = some s ∧
      (SessionEvent.poll writable).enabled s = true ∧ s.fault (.poll writable) = some .exited) ∧
    ∃ s, run sessionStep (callee .disabled)
        (setUp ++ received [connReq 0 2, connReq 0 1]) = some s ∧
      (SessionEvent.poll writable).enabled s = true ∧
      s.fault (.poll writable) = some .closedChannel :=
  ⟨run_ends (by decide +kernel), run_ends (by decide +kernel), run_ends (by decide +kernel)⟩

end Session
end Client
end PicaPica
