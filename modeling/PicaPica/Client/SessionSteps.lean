import PicaPica.Client.EventLoop

/-!
# What the calls for a channel do

One lemma for each function says what it can do to an open channel: `Stage` for
`process_c2c`, `FrameStep` for a message of the peer, and the lemmas on the three parts of
`process_directc2c`.  The results about runs are case analyses of these.
-/

namespace PicaPica
namespace Client

open Machine

/-- Callbacks that belong to the set-up of the channel. -/
def Callback.preliminary : Callback → Bool
  | .c2cEstablished => true
  | .c2cFailed => true
  | .c2cClosed => true
  | .peerCertVerify => true
  | _ => false

section Push

variable {chn t : C2c} {mem : Memory} {f : Frame} {b : Bool}

theorem C2c.Kept.refl (chn : C2c) : C2c.Kept chn chn :=
  ⟨rfl, rfl, rfl, rfl, rfl, rfl, rfl⟩

theorem C2c.Kept.trans
    {u : C2c}
    (h : C2c.Kept chn t) (h' : C2c.Kept t u) :
    C2c.Kept chn u :=
  ⟨h'.state.trans h.state, h'.directState.trans h.directState, h'.config.trans h.config,
    h'.readBuf.trans h.readBuf, h'.readPos.trans h.readPos,
    h'.switchedRead.trans h.switchedRead, h'.disconnect.trans h.disconnect⟩

theorem c2cWritebufPush_kept
    (h : c2cWritebufPush mem chn f = some (t, b)) :
    C2c.Kept chn t := by
  rw [c2cWritebufPush] at h
  split at h
  · cases h
    exact .refl _
  · dsimp only at h
    split_ifs at h
    · cases h
      exact ⟨rfl, rfl, rfl, rfl, rfl, rfl, rfl⟩
    · cases h
      exact ⟨rfl, rfl, rfl, rfl, rfl, rfl, rfl⟩
    · cases h
      exact ⟨rfl, rfl, rfl, rfl, rfl, rfl, rfl⟩

theorem writeBeforeBarrier_kept
    {r : SslWrite} :
    C2c.Kept chn (writeBeforeBarrier r chn).1 := by
  rw [writeBeforeBarrier]
  dsimp only
  split_ifs <;> exact ⟨rfl, rfl, rfl, rfl, rfl, rfl, rfl⟩

theorem writeC2c_kept
    {r : SslWrite} {w : C2cWritten}
    (h : Client.writeC2c r chn = some w) :
    (chn.state = .active ∨ chn.state = .connid ∨ chn.state = .waitingRep) ∧
      C2c.Kept chn w.chn ∧ (w.closed → chn.disconnectOnEmptyWriteBuf) := by
  have hkept : C2c.Kept chn
      (if chn.barrier ≠ 0 then writeBeforeBarrier r chn else writePlain r chn).1 := by
    split_ifs
    · exact writeBeforeBarrier_kept
    · exact ⟨rfl, rfl, rfl, rfl, rfl, rfl, rfl⟩
  by_cases hstate : chn.state = .active ∨ chn.state = .connid ∨ chn.state = .waitingRep
  · rw [Client.writeC2c, if_pos hstate] at h
    cases h
    refine ⟨hstate, hkept, fun hclosed => ?_⟩
    rw [← hkept.disconnect]
    exact (Bool.and_eq_true_iff.mp hclosed).1
  · rw [Client.writeC2c, if_neg hstate] at h
    cases h

end Push

/-- The TLS handshake of the connection is not under way and not complete. -/
structure Direct.Unshaken (d : Direct) : Prop where
  waitingTls : d.state ≠ .waitingTls
  active : d.state ≠ .active

theorem Direct.Unshaken.of_state
    {d : Direct} {st : ConnState}
    (h : d.state = st) (htls : st ≠ .waitingTls) (hactive : st ≠ .active) :
    d.Unshaken :=
  ⟨h ▸ htls, h ▸ hactive⟩

namespace Session

section Buffer

variable {s t : Session} {mem : Memory} {f : Frame} {b : Bool}

theorem push_ok
    (h : s.push mem f = .ok (t, b)) :
    ∃ chn, C2c.Kept s.chn chn ∧ t = { s with chn := chn } := by
  rw [push] at h
  split at h
  · cases h
  · rename_i chn mp hpush
    cases h
    exact ⟨chn, c2cWritebufPush_kept hpush, rfl⟩

theorem pushAll_ok
    {fs : List Frame}
    (h : pushAll fs s = .ok t) :
    ∃ chn, C2c.Kept s.chn chn ∧ t = { s with chn := chn } ∧ (fs = [] → chn = s.chn) := by
  induction fs generalizing s with
  | nil =>
      cases h
      exact ⟨_, .refl _, rfl, fun _ => rfl⟩
  | cons f fs ih =>
      obtain ⟨⟨u, b⟩, hpush, h⟩ := bind_eq_ok.mp h
      obtain ⟨chn, hkept, rfl⟩ := push_ok hpush
      obtain ⟨chn', hkept', rfl, -⟩ := ih h
      exact ⟨chn', hkept.trans hkept', rfl, nofun⟩

theorem withFile_ok
    {c : FileChan}
    (h : s.withFile c = .ok t) :
    ∃ chn, C2c.Kept s.chn chn ∧ t = { s with chn := chn, file := { c with out := [] } } ∧
      (c.out = [] → chn = s.chn) := by
  obtain ⟨chn, hkept, rfl, hnone⟩ := pushAll_ok h
  exact ⟨chn, hkept, rfl, hnone⟩

/-- The channel has been closed, and the callbacks `cs` have been called. -/
structure Ended (s t : Session) (cs : List Callback) : Prop where
  closed : t.closed = true
  calls : t.calls = s.calls ++ cs

theorem closeC2c_ok
    (h : s.closeC2c = .ok t) :
    Ended s t [] := by
  rw [closeC2c] at h
  split_ifs at h
  cases h
  exact ⟨rfl, (List.append_nil _).symm⟩

/-- The end of a call: the channel stays open, or it is closed after an error. -/
theorem finishC2c_ok
    {ret : Ret} {late : Bool}
    (h : s.finishC2c ret late = .ok t) :
    ret = .ok ∧ t = { s with reading := false } ∨
      ∃ c, c.preliminary ∧ Ended s t [c] := by
  rw [finishC2c] at h
  dsimp only at h
  by_cases hret : (if s.chn.state ≠ .active ∧ late then Ret.errTimedOut else ret) = .ok
  · rw [if_pos hret] at h
    cases h
    split_ifs at hret with hlate
    exact .inl ⟨hret, rfl⟩
  · rw [if_neg hret] at h
    obtain ⟨hclosed, hcalls⟩ := closeC2c_ok h
    refine .inr ⟨_, ?_, hclosed, hcalls.trans (List.append_nil _)⟩
    split_ifs <;> rfl

theorem finishC2c_chn
    {ret : Ret} {late : Bool}
    (h : s.finishC2c ret late = .ok t) :
    t.chn = s.chn := by
  rw [finishC2c] at h
  dsimp only at h
  by_cases hret : (if s.chn.state ≠ .active ∧ late then Ret.errTimedOut else ret) = .ok
  · rw [if_pos hret] at h
    cases h
    rfl
  · rw [if_neg hret, closeC2c] at h
    split_ifs at h
    · cases h
      rfl
    · cases h
      rfl

/-! A write outside the buffer and a freed connection are the only ways to fail. -/

variable {bad : SessionFault → Prop}

theorem push_spares (hout : ¬bad .outside) : Spares bad (s.push mem f) := by
  rw [push]
  split
  · exact spares_error hout
  · exact spares_ok _

theorem withFile_spares
    {c : FileChan}
    (hout : ¬bad .outside) :
    Spares bad (s.withFile c) := by
  have hall : ∀ (fs : List Frame) (u : Session), Spares bad (pushAll fs u) := by
    intro fs
    induction fs with
    | nil => exact fun u => spares_ok u
    | cons f fs ih => exact fun u => (push_spares hout).bind fun r _ => ih r.1
  exact hall c.out _

theorem closeC2c_spares (hfreed : ¬bad .freedDirect) : Spares bad s.closeC2c := by
  rw [closeC2c]
  split_ifs
  · exact spares_error hfreed
  · exact spares_ok _

theorem finishC2c_spares
    {ret : Ret} {late : Bool}
    (hfreed : ¬bad .freedDirect) :
    Spares bad (s.finishC2c ret late) := by
  rw [finishC2c]
  dsimp only
  by_cases hret : (if s.chn.state ≠ .active ∧ late then Ret.errTimedOut else ret) = .ok
  · rw [if_pos hret]
    exact spares_ok _
  · rw [if_neg hret]
    exact closeC2c_spares hfreed

end Buffer

/-! ## `process_c2c` -/

/-- What `process_c2c` does to an open channel before it handles messages. -/
inductive Stage (s : Session) : Session → Prop
  | same : Stage s s
  | stage2 : s.chn.state = .connecting → Stage s (s.setState .waitingAnonTls)
  | stage3 (chn : C2c) :
      s.chn.state = .waitingAnonTls → C2c.Kept s.chn chn →
      Stage s ({ s with chn := chn }.setState .connid)
  | write (chn : C2c) :
      s.chn.state = .active ∨ s.chn.state = .connid ∨ s.chn.state = .waitingRep →
      C2c.Kept s.chn chn → Stage s { s with chn := chn }
  | stage4 (chn : C2c) :
      s.chn.state = .connid → C2c.Kept s.chn chn → chn.writePos = 0 →
      Stage s ({ s with chn := chn }.setState .waitingAnonTlsShutdown)
  | stage5 : s.chn.state = .waitingAnonTlsShutdown → Stage s (s.setState .waitingTls)
  | stage6 (chn : C2c) :
      s.chn.state = .waitingTls → s.outgoing → C2c.Kept s.chn chn →
      Stage s ({ s.called .peerCertVerify with chn := chn }.setState .waitingRep)
  | verified :
      s.chn.state = .waitingTls → s.outgoing = false →
      Stage s ((s.called .peerCertVerify).setState .waitingC2cProtoVer)
  | fragment (chn : C2c) (c : FileChan) (cs : List Callback) :
      s.chn.state = .active → C2c.Kept s.chn chn →
      Stage s { s with chn := chn, file := c, calls := s.calls ++ cs }

/-- `PICA_read_c2c` accepts the state. -/
def Reads (s : Session) : Prop :=
  s.chn.state = .waitingRep ∨ s.chn.state = .waitingC2cProtoVer ∨ s.chn.state = .active

/-- A stage fails: callbacks of the set-up may have been called. -/
structure Failing (s t : Session) (ret : Ret) : Prop where
  ret : ret ≠ .ok
  reading : t.reading = s.reading
  calls : ∃ cs, t.calls = s.calls ++ cs ∧
    (s.chn.state ≠ .active → ∀ c ∈ cs, Callback.preliminary c)

section Poll

variable {s t : Session} {io : PollIo} {ret : Ret}

theorem Failing.same (hret : ret ≠ .ok) : Failing s s ret :=
  ⟨hret, rfl, [], (List.append_nil _).symm, fun _ => nofun⟩

theorem writeC2c_ok
    {r : SslWrite}
    (h : s.writeC2c r = .ok (t, ret)) :
    (s.chn.state = .active ∨ s.chn.state = .connid ∨ s.chn.state = .waitingRep) ∧
      (t.closed ∧ s.chn.disconnectOnEmptyWriteBuf ∨
        ∃ chn, C2c.Kept s.chn chn ∧ t = { s with chn := chn }) := by
  rw [writeC2c] at h
  cases hw : Client.writeC2c r s.chn with
  | none => simp [hw] at h
  | some w =>
      obtain ⟨hstate, hkept, hclosed⟩ := writeC2c_kept hw
      simp only [hw] at h
      split_ifs at h with hnull hfreed hdone
      · obtain ⟨u, hu, h⟩ := bind_eq_ok.mp h
        cases h
        exact ⟨hstate, .inl ⟨(closeC2c_ok hu).closed, hclosed hdone⟩⟩
      · cases h
        exact ⟨hstate, .inr ⟨w.chn, hkept, rfl⟩⟩

theorem use_ok (h : s.use = .ok t) : s.closed = false ∧ t = s := by
  rw [use] at h
  split_ifs at h with hclosed
  cases h
  exact ⟨Bool.eq_false_iff.mpr hclosed, rfl⟩

theorem stage2Startanontls_ok
    (hstate : s.chn.state = .connecting) (h : s.stage2Startanontls io = (t, ret)) :
    Stage s t ∨ Failing s t ret := by
  rw [stage2Startanontls] at h
  split_ifs at h with hnew hok
  · cases h
    exact .inr (.same nofun)
  · cases h
    exact .inl (.stage2 hstate)
  · cases h
    exact .inr (.same hok)

theorem stage3Connid_ok
    (hstate : s.chn.state = .waitingAnonTls) (h : s.stage3Connid io = .ok (t, ret)) :
    Stage s t ∨ Failing s t ret := by
  obtain ⟨⟨u, mp⟩, hpush, h⟩ := bind_eq_ok.mp h
  obtain ⟨chn, hkept, rfl⟩ := push_ok hpush
  cases mp with
  | true =>
      cases h
      exact .inl (.stage3 chn hstate hkept)
  | false =>
      cases h
      exact .inr ⟨nofun, rfl, [], (List.append_nil _).symm, fun _ => nofun⟩

theorem pollConnid_ok
    (hstate : s.chn.state = .connid) (h : s.pollConnid io = .ok (t, ret)) :
    Stage s t ∨ Failing s t ret := by
  obtain ⟨⟨u, r⟩, hwrite, hrest⟩ := bind_eq_ok.mp h
  obtain ⟨v, huse, hend⟩ := bind_eq_ok.mp hrest
  obtain ⟨hopen, rfl⟩ := use_ok huse
  have hu : ∃ chn, C2c.Kept s.chn chn ∧ v = { s with chn := chn } := by
    rw [pollWrite] at hwrite
    split_ifs at hwrite
    · rcases (writeC2c_ok hwrite).2 with ⟨hclosed, -⟩ | hkept
      · rw [hopen] at hclosed
        cases hclosed
      · exact hkept
    · cases hwrite
      exact ⟨_, .refl _, rfl⟩
  obtain ⟨chn, hkept, rfl⟩ := hu
  have hres := Except.ok.inj hend
  by_cases hempty : chn.writePos = 0
  · rw [if_pos hempty, stage4Shutdownanontls] at hres
    cases hssl : io.next with
    | done =>
        simp only [hssl] at hres
        cases hres
        exact .inr ⟨nofun, rfl, [], (List.append_nil _).symm, fun _ => nofun⟩
    | error =>
        simp only [hssl] at hres
        cases hres
        exact .inr ⟨nofun, rfl, [], (List.append_nil _).symm, fun _ => nofun⟩
    | closed =>
        simp only [hssl] at hres
        cases hres
        exact .inl (.stage4 chn hstate hkept hempty)
    | wantRead =>
        simp only [hssl] at hres
        cases hres
        exact .inl (.stage4 chn hstate hkept hempty)
    | wantWrite =>
        simp only [hssl] at hres
        cases hres
        exact .inl (.stage4 chn hstate hkept hempty)
  · rw [if_neg hempty] at hres
    cases hres
    exact .inl (.write chn (.inr (.inl hstate)) hkept)

theorem stage5Starttls_ok
    (hstate : s.chn.state = .waitingAnonTlsShutdown) (h : s.stage5Starttls io = (t, ret)) :
    Stage s t ∨ Failing s t ret := by
  rw [stage5Starttls] at h
  split_ifs at h
  · cases h
    exact .inr (.same nofun)
  · cases h
    exact .inl (.stage5 hstate)

/-- The callback is called when the certificate is right otherwise. -/
theorem verifyPeerCertCommon_ok
    {cert : Option PeerCert} {id : Id} {answer : Bool}
    (h : (verifyPeerCertCommon cert id answer).1 = .ok) :
    (verifyPeerCertCommon cert id answer).2 = true := by
  unfold verifyPeerCertCommon at h ⊢
  cases cert with
  | none => cases h
  | some c =>
      cases hid : c.id with
      | none => simp [hid] at h
      | some i =>
          simp only [hid] at h ⊢
          by_cases hbits : c.rsaBits.getD 0 < rsaMinKeySize
          · simp [hbits] at h
          · by_cases hne : i ≠ id
            · simp [hbits, hne] at h
            · simp [hbits, hne]

theorem tlsDone_ok
    (hstate : s.chn.state = .waitingTls) (h : s.tlsDone io = .ok (t, ret)) :
    Stage s t ∨ Failing s t ret := by
  rw [tlsDone] at h
  have hcert := @verifyPeerCertCommon_ok io.cert s.peerId io.answer
  generalize verifyPeerCertCommon io.cert s.peerId io.answer = v at h hcert
  obtain ⟨code, asked⟩ := v
  by_cases hcode : code = .ok
  · obtain rfl : asked = true := hcert hcode
    rw [if_neg (by simp [hcode])] at h
    dsimp only at h
    rw [if_pos rfl] at h
    split_ifs at h with hout
    · obtain ⟨⟨u, mp⟩, hpush, h⟩ := bind_eq_ok.mp h
      obtain ⟨chn, hkept, rfl⟩ := push_ok hpush
      cases mp with
      | true =>
          cases h
          exact .inl (.stage6 chn hstate hout hkept)
      | false =>
          cases h
          refine .inr ⟨nofun, rfl, [.peerCertVerify], rfl, fun _ c hc => ?_⟩
          rw [List.mem_singleton.mp hc]
          rfl
    · cases h
      exact .inl (.verified hstate (Bool.eq_false_iff.mpr hout))
  · rw [if_pos hcode] at h
    cases h
    cases asked with
    | true =>
        refine .inr ⟨hcode, rfl, [.peerCertVerify], rfl, fun _ c hc => ?_⟩
        rw [List.mem_singleton.mp hc]
        rfl
    | false => exact .inr (.same hcode)

theorem pollTls_ok
    (hstate : s.chn.state = .waitingTls) (h : s.pollTls io = .ok (t, ret)) :
    Stage s t ∨ Failing s t ret := by
  rw [pollTls] at h
  cases hssl : io.ssl with
  | done =>
      simp only [hssl] at h
      exact tlsDone_ok hstate h
  | closed =>
      simp only [hssl] at h
      cases h
      exact .inr (.same nofun)
  | error =>
      simp only [hssl] at h
      cases h
      exact .inr (.same nofun)
  | wantRead =>
      simp only [hssl] at h
      cases h
      exact .inl .same
  | wantWrite =>
      simp only [hssl] at h
      cases h
      exact .inl .same

theorem pollWrite_ok
    (h : s.pollWrite io = .ok (t, ret)) :
    t.closed ∨ Stage s t := by
  rw [pollWrite] at h
  split_ifs at h
  · obtain ⟨hwrites, ⟨hclosed, -⟩ | ⟨chn, hkept, rfl⟩⟩ := writeC2c_ok h
    · exact .inl hclosed
    · exact .inr (.write chn hwrites hkept)
  · cases h
    exact .inr .same

theorem pollFragment_ok
    (h : s.pollFragment io = .ok (t, ret)) :
    ∃ chn c cs, C2c.Kept s.chn chn ∧
      t = { s with chn := chn, file := c, calls := s.calls ++ cs } := by
  rw [pollFragment] at h
  split_ifs at h
  · rw [sendFileFragment] at h
    split at h
    · cases h
    · obtain ⟨u, hfile, hres⟩ := bind_eq_ok.mp h
      obtain ⟨chn, hkept, rfl, -⟩ := withFile_ok hfile
      cases hres
      exact ⟨chn, _, _, hkept, rfl⟩
  · cases h
    exact ⟨s.chn, s.file, [], .refl _, by rw [List.append_nil]⟩

theorem pollActiveWrite_ok
    (hstate : s.chn.state = .active) (h : s.pollActiveWrite io = .ok (t, ret)) :
    t.closed ∨ Stage s t := by
  rw [pollActiveWrite] at h
  split_ifs at h
  · obtain ⟨⟨u, r⟩, hfrag, hres⟩ := bind_eq_ok.mp h
    obtain ⟨chn, c, cs, hkept, rfl⟩ := pollFragment_ok hfrag
    dsimp only at hres
    split_ifs at hres
    · obtain ⟨-, ⟨hclosed, -⟩ | ⟨chn', hkept', rfl⟩⟩ := writeC2c_ok hres
      · exact .inl hclosed
      · exact .inr (.fragment chn' c cs hstate (hkept.trans hkept'))
    · cases hres
      exact .inr (.fragment chn c cs hstate hkept)
  · cases h
    exact .inr .same

/-- The channel a write has closed is used, and the program stops. -/
theorem pollRead_ok
    {u : Session} {ready : Bool} {r : Ret}
    (hu : u.closed ∨ Stage s u) (h : u.pollRead io ready r = .ok (t, ret)) :
    Stage s u ∧ (t = u ∨ Reads u ∧ t = { u with reading := true } ∧ ret = .ok) := by
  obtain ⟨v, huse, hres⟩ := bind_eq_ok.mp h
  obtain ⟨hopen, rfl⟩ := use_ok huse
  have hstage : Stage s v := by
    rcases hu with hclosed | hstage
    · rw [hopen] at hclosed
      cases hclosed
    · exact hstage
  refine ⟨hstage, ?_⟩
  split_ifs at hres
  · rw [readC2c] at hres
    split_ifs at hres with hreads hgot
    · obtain ⟨ssl, -, hend⟩ := bind_eq_ok.mp hres
      cases hend
      exact .inr ⟨hreads, rfl, rfl⟩
    · obtain ⟨ssl, -, hend⟩ := bind_eq_ok.mp hres
      cases hend
      exact .inl rfl
  · cases hres
    exact .inl rfl

/-- The `switch` of `process_c2c`. -/
theorem pollSwitch_ok
    (h : s.pollSwitch io = .ok (t, ret)) :
    (∃ u, Stage s u ∧ (t = u ∨ Reads u ∧ t = { u with reading := true } ∧ ret = .ok)) ∨
      Failing s t ret := by
  have staged : Stage s t ∨ Failing s t ret →
      (∃ u, Stage s u ∧ (t = u ∨ Reads u ∧ t = { u with reading := true } ∧ ret = .ok)) ∨
        Failing s t ret := by
    rintro (hstage | hfail)
    · exact .inl ⟨t, hstage, .inl rfl⟩
    · exact .inr hfail
  rw [pollSwitch] at h
  cases hst : s.chn.state with
  | new =>
      simp only [hst] at h
      cases h
      exact staged (.inl .same)
  | connecting =>
      simp only [hst] at h
      split_ifs at h
      · cases h
        exact staged (.inl .same)
      · exact staged (stage2Startanontls_ok hst (Except.ok.inj h))
      · cases h
        exact staged (.inr (.same nofun))
  | waitingAnonTls =>
      simp only [hst] at h
      split_ifs at h
      · cases h
        exact staged (.inl .same)
      · exact staged (stage3Connid_ok hst h)
      · cases h
        by_cases hok : processAsyncSslErrors io.ssl = .ok
        · exact staged (.inl .same)
        · exact staged (.inr (.same hok))
  | connid =>
      simp only [hst] at h
      exact staged (pollConnid_ok hst h)
  | waitingAnonTlsShutdown =>
      simp only [hst] at h
      split_ifs at h
      · cases h
        exact staged (.inl .same)
      · cases hssl : io.ssl with
        | done =>
            simp only [hssl] at h
            exact staged (stage5Starttls_ok hst (Except.ok.inj h))
        | error =>
            simp only [hssl] at h
            cases h
            exact staged (.inr (.same nofun))
        | closed =>
            simp only [hssl] at h
            cases h
            exact staged (.inl .same)
        | wantRead =>
            simp only [hssl] at h
            cases h
            exact staged (.inl .same)
        | wantWrite =>
            simp only [hssl] at h
            cases h
            exact staged (.inl .same)
  | waitingTls =>
      simp only [hst] at h
      split_ifs at h
      · cases h
        exact staged (.inl .same)
      · exact staged (pollTls_ok hst h)
  | waitingRep =>
      simp only [hst] at h
      obtain ⟨⟨u, r⟩, hwrite, hread⟩ := bind_eq_ok.mp h
      exact .inl ⟨u, pollRead_ok (pollWrite_ok hwrite) hread⟩
  | waitingC2cProtoVer =>
      simp only [hst] at h
      obtain ⟨⟨u, r⟩, hwrite, hread⟩ := bind_eq_ok.mp h
      exact .inl ⟨u, pollRead_ok (pollWrite_ok hwrite) hread⟩
  | active =>
      simp only [hst] at h
      obtain ⟨⟨u, r⟩, hwrite, hread⟩ := bind_eq_ok.mp h
      exact .inl ⟨u, pollRead_ok (pollActiveWrite_ok hst hwrite) hread⟩

theorem Stage.reading (h : Stage s t) : t.reading = s.reading := by
  cases h <;> rfl

theorem not_reading_eq (h : s.reading = false) : { s with reading := false } = s := by
  rw [← h]

/-- **What `process_c2c` does before it handles messages.** -/
theorem pollC2c_ok
    (hread : s.reading = false) (h : s.pollC2c io = .ok t) :
    (∃ u, Stage s u ∧ (t = u ∨ Reads u ∧ t = { u with reading := true } ∨
        ∃ c, c.preliminary ∧ Ended u t [c])) ∨
      ∃ cs, Ended s t cs ∧ (s.chn.state ≠ .active → ∀ c ∈ cs, Callback.preliminary c) := by
  obtain ⟨⟨v, ret⟩, hswitch, hend⟩ := bind_eq_ok.mp h
  rcases pollSwitch_ok hswitch with ⟨u, hstage, rfl | ⟨hreads, rfl, -⟩⟩ | hfail
  · have hu : v.reading = false := hstage.reading.trans hread
    dsimp only at hend
    rw [if_neg (by simp [hu])] at hend
    refine .inl ⟨v, hstage, ?_⟩
    rcases finishC2c_ok hend with ⟨-, rfl⟩ | hended
    · exact .inl (not_reading_eq hu)
    · exact .inr (.inr hended)
  · cases hend
    exact .inl ⟨u, hstage, .inr (.inl ⟨hreads, rfl⟩)⟩
  · have hv : v.reading = false := hfail.reading.trans hread
    dsimp only at hend
    rw [if_neg (by simp [hv])] at hend
    obtain ⟨cs, hcalls, hpre⟩ := hfail.calls
    rcases finishC2c_ok hend with ⟨hok, -⟩ | ⟨c, hc, hended⟩
    · exact absurd hok hfail.ret
    · refine .inr ⟨cs ++ [c], ⟨hended.closed, ?_⟩, fun hst d hd => ?_⟩
      · rw [hended.calls, hcalls, List.append_assoc]
      · rcases List.mem_append.mp hd with hd | hd
        · exact hpre hst d hd
        · rw [List.mem_singleton.mp hd]
          exact hc

end Poll

/-! ## Messages -/

/-- The message is one of the file transfer. -/
def isFileMessage (f : Frame) : Prop :=
  byteAt f 0 = Proto.SENDFILEREQUEST ∨ byteAt f 0 = Proto.ACCEPTEDFILE ∨
    byteAt f 0 = Proto.DENIEDFILE ∨ byteAt f 0 = Proto.FILEFRAGMENT ∨
    byteAt f 0 = Proto.FILECONTROL

/-- The message completes the set-up of the channel. -/
def Completes (s : Session) (f : Frame) : Prop :=
  s.chn.state = .waitingC2cProtoVer ∧ byteAt f 0 = Proto.C2CCONNREQ ∧
      byteAt f 2 = Proto.C2C_VER_HIGH ∧ byteAt f 3 = Proto.C2C_VER_LOW ∨
    s.chn.state = .waitingRep ∧ s.outgoing ∧ byteAt f 0 = Proto.INITRESPOK

/-- What a message of the peer does to a channel that stays open. -/
inductive FrameStep (env : FrameEnv) (s : Session) (f : Frame) : Session → Prop
  | msgutf8 (chn : C2c) :
      byteAt f 0 = Proto.MSGUTF8 → s.chn.state = .active → C2c.Kept s.chn chn →
      FrameStep env s f { s.called .newmsg with chn := chn }
  | msgok : byteAt f 0 = Proto.MSGOK → FrameStep env s f (s.called .msgok)
  | file (chn : C2c) (c : FileChan) (ret : Nat) :
      isFileMessage f → Client.procmsgFile env.file s.file f = .ok (c, ret) →
      C2c.Kept s.chn chn → (c.out = [] → chn = s.chn) →
      FrameStep env s f { s with
        chn := chn
        file := { c with out := [] }
        calls := s.calls ++ fileCallbacks s.file f c ret }
  | completes (chn : C2c) (st : DirectState) :
      s.Completes f → C2c.Kept s.chn chn → st = s.chn.directState ∨ st = .waitingIncoming →
      FrameStep env s f { s.called .c2cEstablished with
        chn := { chn with state := .active, directState := st } }
  | differs (chn : C2c) :
      s.chn.state = .waitingC2cProtoVer → byteAt f 0 = Proto.C2CCONNREQ →
      ¬(byteAt f 2 = Proto.C2C_VER_HIGH ∧ byteAt f 3 = Proto.C2C_VER_LOW) →
      C2c.Kept s.chn chn →
      FrameStep env s f { s with chn := { chn with disconnectOnEmptyWriteBuf := true } }
  | unlisted :
      byteAt f 0 = Proto.DIRECTC2C_ADDRLIST → s.chn.config = .disabled → FrameStep env s f s
  | listed (d : Option Direct) (st : DirectState) :
      byteAt f 0 = Proto.DIRECTC2C_ADDRLIST → s.chn.config ≠ .disabled →
      s.chn.directState = .inactive ∨ s.chn.directState = .waitingIncoming →
      st = s.chn.directState ∨ st = .connecting ∨ st = .failedToConnect →
      (∀ x, d = some x → x.freed = false ∧ x.Unshaken) →
      env.calloc ∨ s.outgoing ∨ s.chn.config = .connectOnly ∨
        d = none ∧ st = s.chn.directState →
      FrameStep env s f ({ s with direct := d }.setDirectState st)
  | failed (d₀ d : Direct) :
      byteAt f 0 = Proto.DIRECTC2C_FAILED → s.chn.config ≠ .disabled →
      s.chn.directState = .waitingIncoming → s.outgoing = false → s.direct = some d₀ →
      d₀.freed = false → d.freed = false →
      d.state = d₀.state ∨ d.state = .connecting ∨ d.state = .failed →
      FrameStep env s f ({ s with direct := some d }.setDirectState .connecting)
  | switched :
      byteAt f 0 = Proto.DIRECTC2C_SWITCH → s.chn.SwitchAllowed →
      FrameStep env s f { s with chn := { s.chn with switchedRead := true } }

/-- A message that is refused: only the application and the files may have seen it. -/
structure Refused (env : FrameEnv) (s : Session) (f : Frame) (t : Session) : Prop where
  calls : ∃ cs, t.calls = s.calls ++ cs ∧
    (cs = [] ∨ s.chn.state = .active ∨ isFileMessage f ∧
      ∃ c ret, Client.procmsgFile env.file s.file f = .ok (c, ret) ∧
        cs = fileCallbacks s.file f c ret)

section Frames

variable {s t : Session} {env : FrameEnv} {f : Frame} {r : Nat}

theorem Refused.same : Refused env s f s :=
  ⟨[], (List.append_nil _).symm, .inl rfl⟩

/-- The result of a handler. -/
def Answered (env : FrameEnv) (s : Session) (f : Frame) (t : Session) (r : Nat) : Prop :=
  FrameStep env s f t ∨ r = 0 ∧ Refused env s f t

theorem procmsgMSGUTF8_ok
    (hk : byteAt f 0 = Proto.MSGUTF8) (h : s.procmsgMSGUTF8 env f = .ok (t, r)) :
    Answered env s f t r := by
  rw [procmsgMSGUTF8] at h
  split_ifs at h with hst
  · cases h
    exact .inr ⟨rfl, .same⟩
  · obtain ⟨⟨u, mp⟩, hpush, hres⟩ := bind_eq_ok.mp h
    obtain ⟨chn, hkept, rfl⟩ := push_ok hpush
    cases hres
    exact .inl (.msgutf8 chn hk (not_not.mp hst) hkept)

theorem procmsgFile_ok
    (hk : isFileMessage f) (h : s.procmsgFile env f = .ok (t, r)) :
    Answered env s f t r := by
  rw [procmsgFile] at h
  split at h
  · cases h
  · rename_i c ret hfile
    obtain ⟨u, hwith, hres⟩ := bind_eq_ok.mp h
    obtain ⟨chn, hkept, rfl, hnone⟩ := withFile_ok hwith
    obtain ⟨rfl, rfl⟩ := Prod.mk.inj (Except.ok.inj hres)
    exact .inl (.file chn c _ hk hfile hkept hnone)

theorem sendDirectc2caddrlist_ok
    {mem : Memory}
    (h : s.sendDirectc2caddrlist mem = .ok t) :
    ∃ chn st, C2c.Kept s.chn chn ∧ (st = s.chn.directState ∨ st = .waitingIncoming) ∧
      t = { s with chn := { chn with directState := st } } := by
  rw [sendDirectc2caddrlist] at h
  split at h
  · obtain ⟨⟨u, mp⟩, hpush, hres⟩ := bind_eq_ok.mp h
    obtain ⟨chn, hkept, rfl⟩ := push_ok hpush
    cases mp with
    | true =>
        cases hres
        exact ⟨chn, .waitingIncoming, hkept, .inr rfl, rfl⟩
    | false =>
        cases hres
        refine ⟨chn, chn.directState, hkept, .inl hkept.directState, rfl⟩
  · cases h
    exact ⟨_, _, .refl _, .inl rfl, rfl⟩

theorem established_ok
    {mem : Memory}
    (h : s.established mem = .ok t) :
    ∃ chn st, C2c.Kept s.chn chn ∧ (st = s.chn.directState ∨ st = .waitingIncoming) ∧
      t = { s.called .c2cEstablished with
        chn := { chn with state := .active, directState := st } } := by
  obtain ⟨chn, st, hkept, hst, rfl⟩ := sendDirectc2caddrlist_ok h
  have hactive : chn.state = .active := hkept.state
  have heq : ({ chn with directState := st } : C2c) =
      { chn with state := .active, directState := st } := by
    rw [← hactive]
  refine ⟨{ chn with state := s.chn.state }, st, ?_, hst, ?_⟩
  · exact ⟨rfl, hkept.directState, hkept.config, hkept.readBuf, hkept.readPos,
      hkept.switchedRead, hkept.disconnect⟩
  · exact congrArg (fun x => { s.called .c2cEstablished with chn := x }) heq

theorem procmsgC2CCONNREQ_ok
    (hk : byteAt f 0 = Proto.C2CCONNREQ) (h : s.procmsgC2CCONNREQ env f = .ok (t, r)) :
    Answered env s f t r := by
  rw [procmsgC2CCONNREQ] at h
  by_cases hst : s.chn.state = .waitingC2cProtoVer
  · rw [if_neg (not_not.mpr hst)] at h
    by_cases hver : byteAt f 2 = Proto.C2C_VER_HIGH ∧ byteAt f 3 = Proto.C2C_VER_LOW
    · rw [if_pos hver] at h
      obtain ⟨⟨u, mp⟩, hpush, hres⟩ := bind_eq_ok.mp h
      obtain ⟨chn, hkept, rfl⟩ := push_ok hpush
      cases mp with
      | true =>
          obtain ⟨v, hv, hend⟩ := bind_eq_ok.mp hres
          obtain ⟨chn', st, hkept', hdirect, rfl⟩ := established_ok hv
          cases hend
          rw [hkept.directState] at hdirect
          exact .inl (.completes chn' st (.inl ⟨hst, hk, hver⟩) (hkept.trans hkept') hdirect)
      | false =>
          cases hres
          exact .inr ⟨rfl, [], (List.append_nil _).symm, .inl rfl⟩
    · rw [if_neg hver] at h
      obtain ⟨⟨u, mp⟩, hpush, hres⟩ := bind_eq_ok.mp h
      obtain ⟨chn, hkept, rfl⟩ := push_ok hpush
      cases mp with
      | true =>
          cases hres
          exact .inl (.differs chn hst hk hver hkept)
      | false =>
          cases hres
          exact .inr ⟨rfl, [], (List.append_nil _).symm, .inl rfl⟩
  · rw [if_pos hst] at h
    cases h
    exact .inr ⟨rfl, .same⟩

theorem procmsgINITRESPC2c_ok (h : s.procmsgINITRESPC2c env f = .ok (t, r)) :
    Answered env s f t r := by
  rw [procmsgINITRESPC2c] at h
  split_ifs at h with hst hin hkind
  · cases h
    exact .inr ⟨rfl, .same⟩
  · cases h
    exact .inr ⟨rfl, .same⟩
  · obtain ⟨v, hv, hend⟩ := bind_eq_ok.mp h
    obtain ⟨chn, st, hkept, hdirect, rfl⟩ := established_ok hv
    cases hend
    have hout : s.outgoing = true := Bool.not_eq_false _ ▸ hin
    exact .inl (.completes chn st (.inr ⟨not_not.mp hst, hout, hkind⟩) hkept hdirect)
  · cases h
    exact .inr ⟨rfl, .same⟩

/-- What the handler of `DIRECTC2C_ADDRLIST` leaves behind. -/
theorem directListed_ok (h : s.directListed env f = .ok (t, r)) :
    ∃ d st, t = ({ s with direct := some d } : Session).setDirectState st ∧
      (st = s.chn.directState ∨ st = .failedToConnect) ∧ d.freed = false ∧ d.Unshaken := by
  rw [directListed] at h
  dsimp only at h
  split_ifs at h
  · cases h
    exact ⟨_, s.chn.directState, rfl, .inl rfl, rfl, nofun, nofun⟩
  · obtain ⟨⟨d, found⟩, hnext, hres⟩ := bind_eq_ok.mp h
    obtain ⟨-, hfreed, -, hstate⟩ := connectNext_ok hnext
    have hearly : d.Unshaken := by
      rcases hstate with hstate | hstate | hstate
      · exact .of_state hstate nofun nofun
      · exact .of_state hstate nofun nofun
      · exact .of_state hstate nofun nofun
    cases found with
    | true =>
        cases hres
        exact ⟨d, s.chn.directState, rfl, .inl rfl, hfreed, hearly⟩
    | false =>
        cases hres
        exact ⟨d, .failedToConnect, rfl, .inr rfl, hfreed, hearly⟩

theorem procmsgDIRECTC2CADDRLIST_ok
    (hk : byteAt f 0 = Proto.DIRECTC2C_ADDRLIST)
    (h : s.procmsgDIRECTC2CADDRLIST env f = .ok (t, r)) :
    Answered env s f t r := by
  rw [procmsgDIRECTC2CADDRLIST] at h
  by_cases hconf : s.chn.config = .disabled
  · rw [if_pos hconf] at h
    cases h
    exact .inl (.unlisted hk hconf)
  rw [if_neg hconf] at h
  by_cases hbusy : s.chn.directState ≠ .inactive ∧ s.chn.directState ≠ .waitingIncoming
  · rw [if_pos hbusy] at h
    cases h
    exact .inr ⟨rfl, .same⟩
  rw [if_neg hbusy] at h
  have hfree : s.chn.directState = .inactive ∨ s.chn.directState = .waitingIncoming := by
    by_contra hne
    exact hbusy (not_or.mp hne)
  -- the state is `CONNECTING` before the list is taken
  obtain ⟨st, hst, hs⟩ : ∃ st, (st = s.chn.directState ∨
        st = .connecting ∧ (s.outgoing ∨ s.chn.config = .connectOnly)) ∧
      (if s.outgoing ∨ s.chn.config = .connectOnly then s.setDirectState .connecting else s) =
        s.setDirectState st := by
    split_ifs with hconnect
    · exact ⟨_, .inr ⟨rfl, hconnect⟩, rfl⟩
    · exact ⟨_, .inl rfl, rfl⟩
  rw [hs] at h
  dsimp only at h
  have hst' : st = s.chn.directState ∨ st = .connecting ∨ st = .failedToConnect :=
    hst.imp_right fun hconnect => .inl hconnect.1
  split_ifs at h with hcalloc hmalloc
  · cases h
    refine .inl (.listed none st hk hconf hfree hst' nofun ?_)
    rcases hst with hsame | ⟨-, hout | hconnect⟩
    · exact .inr (.inr (.inr ⟨rfl, hsame⟩))
    · exact .inr (.inl hout)
    · exact .inr (.inr (.inl hconnect))
  · cases h
    refine .inl (.listed (some .fresh) st hk hconf hfree hst' (fun x hx => ?_)
      (.inl (Bool.not_eq_false _ ▸ hcalloc)))
    cases hx
    exact ⟨rfl, nofun, nofun⟩
  · obtain ⟨d, st', rfl, hdirect, hfreed, hearly⟩ := directListed_ok h
    refine .inl (.listed (some d) st' hk hconf hfree ?_ (fun x hx => ?_)
      (.inl (Bool.not_eq_false _ ▸ hcalloc)))
    · rcases hdirect with rfl | rfl
      · exact hst'
      · exact .inr (.inr rfl)
    · cases hx
      exact ⟨hfreed, hearly⟩

theorem procmsgDIRECTC2CFAILED_ok
    (hk : byteAt f 0 = Proto.DIRECTC2C_FAILED)
    (h : s.procmsgDIRECTC2CFAILED env f = .ok (t, r)) :
    Answered env s f t r := by
  rw [procmsgDIRECTC2CFAILED] at h
  split_ifs at h with hst hconf hout
  · cases h
    exact .inr ⟨rfl, .same⟩
  · cases h
    exact .inr ⟨rfl, .same⟩
  · cases h
    exact .inr ⟨rfl, .same⟩
  · cases hd : s.direct with
    | none =>
        simp only [hd] at h
        cases h
    | some d₀ =>
        simp only [hd] at h
        obtain ⟨⟨d, found⟩, hnext, hres⟩ := bind_eq_ok.mp h
        obtain ⟨hfreed₀, hfreed, -, hstate⟩ := connectNext_ok hnext
        cases hres
        exact .inl (.failed d₀ d hk hconf (not_not.mp hst) (Bool.eq_false_iff.mpr hout) hd
          hfreed₀ hfreed hstate)

theorem procmsgDIRECTC2CSWITCH_ok
    (hk : byteAt f 0 = Proto.DIRECTC2C_SWITCH) (h : s.procmsgDIRECTC2CSWITCH f = .ok (t, r)) :
    Answered env s f t r := by
  rw [procmsgDIRECTC2CSWITCH] at h
  split_ifs at h with hallowed
  · cases h
    exact .inl (.switched hk hallowed)
  · cases h
    exact .inr ⟨rfl, .same⟩

theorem sessionFn_ok
    {h : Session → Frame → Except SessionFault (Session × Nat)}
    (heq : (sessionFn h (.ok s) f).1 = .ok t) :
    h s f = .ok (t, (sessionFn h (.ok s) f).2) := by
  rw [sessionFn] at heq ⊢
  cases hh : h s f with
  | error e =>
      simp only [hh] at heq
      cases heq
  | ok v =>
      simp only [hh] at heq ⊢
      rw [← Except.ok.inj heq]

/-- The handlers of `c2c_messages`. -/
theorem c2cMessages_ok
    {m : MsgInfo (Except SessionFault Session)}
    (hm : m ∈ c2cMessages env) (hid : byteAt f 0 = m.msgid % 256)
    (h : (m.msgprocfn (.ok s) f).1 = .ok t) :
    Answered env s f t (m.msgprocfn (.ok s) f).2 := by
  simp only [c2cMessages, List.mem_cons, List.not_mem_nil, or_false] at hm
  rcases hm with rfl | rfl | rfl | rfl | rfl | rfl | rfl | rfl | rfl | rfl | rfl | rfl | rfl
  · exact procmsgMSGUTF8_ok hid (sessionFn_ok h)
  · obtain ⟨rfl, -⟩ := Prod.mk.inj (Except.ok.inj (sessionFn_ok h))
    exact .inl (.msgok hid)
  · exact procmsgFile_ok (.inl hid) (sessionFn_ok h)
  · exact procmsgFile_ok (.inr (.inl hid)) (sessionFn_ok h)
  · exact procmsgFile_ok (.inr (.inr (.inl hid))) (sessionFn_ok h)
  · exact procmsgFile_ok (.inr (.inr (.inr (.inl hid)))) (sessionFn_ok h)
  · exact procmsgFile_ok (.inr (.inr (.inr (.inr hid)))) (sessionFn_ok h)
  · exact procmsgDIRECTC2CADDRLIST_ok hid (sessionFn_ok h)
  · exact procmsgDIRECTC2CFAILED_ok hid (sessionFn_ok h)
  · exact procmsgDIRECTC2CSWITCH_ok hid (sessionFn_ok h)
  · exact procmsgC2CCONNREQ_ok hid (sessionFn_ok h)
  · exact procmsgINITRESPC2c_ok (sessionFn_ok h)
  · exact procmsgINITRESPC2c_ok (sessionFn_ok h)

/-- **What a message of the peer does.** -/
theorem frameC2c_ok
    (hsize : msggetsize f f.length (c2cMessages env) = f.length)
    (h : s.frameC2c env f = .ok t) :
    FrameStep env s f t ∨
      ∃ u c, (FrameStep env s f u ∨ Refused env s f u) ∧ Callback.preliminary c ∧
        Ended u t [c] := by
  obtain ⟨m, hm, hid, hcall⟩ := processmsg_entry hsize
  rw [frameC2c, hcall] at h
  obtain ⟨u, hu, hres⟩ := bind_eq_ok.mp h
  have hanswered := c2cMessages_ok hm hid hu
  by_cases hret : (m.msgprocfn (.ok s) f).2 = 0
  · rw [if_pos hret] at hres
    rcases finishC2c_ok hres with ⟨hok, -⟩ | ⟨c, hc, hended⟩
    · cases hok
    · exact .inr ⟨u, c, hanswered.imp_right And.right, hc, hended⟩
  · rw [if_neg hret] at hres
    cases hres
    rcases hanswered with hstep | ⟨hzero, -⟩
    · exact .inl hstep
    · exact absurd hzero hret

end Frames

end Session
end Client
end PicaPica
