import PicaPica.Client.SessionEvents

/-!
# What happens before the version handshake

One table of messages serves a channel that waits for `INITRESPOK` or `C2CCONNREQ` and an
active one, and some handlers do not look at the state of the channel.  When the messages
that get past their own checks do not come early, only the set-up is reported before
`c2c_established_cb`, and neither a file nor a direct connection has been touched.
-/

namespace PicaPica
namespace Client

open Machine

/-- Until the channel is established, only callbacks of the set-up are called. -/
def CallsInOrder (cs : List Callback) : Prop :=
  ∀ c ∈ cs.takeWhile (· ≠ .c2cEstablished), c.preliminary

section Order

variable {cs ds : List Callback}

theorem takeWhile_append_established (h : .c2cEstablished ∈ cs) :
    (cs ++ ds).takeWhile (· ≠ .c2cEstablished) = cs.takeWhile (· ≠ .c2cEstablished) := by
  induction cs with
  | nil => cases h
  | cons c cs ih =>
      by_cases hc : c = .c2cEstablished
      · subst hc
        rw [List.cons_append, List.takeWhile_cons_of_neg (by simp),
          List.takeWhile_cons_of_neg (by simp)]
      · have hcs : .c2cEstablished ∈ cs :=
          (List.mem_cons.mp h).resolve_left fun heq => hc heq.symm
        rw [List.cons_append, List.takeWhile_cons_of_pos (by simpa using hc),
          List.takeWhile_cons_of_pos (by simpa using hc), ih hcs]

theorem CallsInOrder.append
    (h : CallsInOrder cs)
    (hds : .c2cEstablished ∈ cs ∨ ∀ d ∈ ds, Callback.preliminary d) :
    CallsInOrder (cs ++ ds) := by
  intro c hc
  by_cases hest : .c2cEstablished ∈ cs
  · rw [takeWhile_append_established hest] at hc
    exact h c hc
  · have hall : cs.takeWhile (· ≠ .c2cEstablished) = cs :=
      List.takeWhile_eq_self_iff.mpr fun x hx => by
        simpa using fun heq : x = .c2cEstablished => hest (heq ▸ hx)
    have hmem : c ∈ cs ++ ds := (List.takeWhile_sublist _).subset hc
    rcases List.mem_append.mp hmem with hold | hnew
    · exact h c (hall.symm ▸ hold)
    · exact hds.resolve_left hest c hnew

end Order

namespace Session

/-- A message that is handled although the channel is not active: the handlers of `MSGOK`,
of an offered file, of a control message without a command and of a list of addresses do
not look at the state. -/
def Premature (s : Session) (env : FrameEnv) (f : Frame) : Prop :=
  byteAt f 0 = Proto.MSGOK ∨
    byteAt f 0 = Proto.SENDFILEREQUEST ∧
      validateFileName ((f.drop 12).take (load16 f 2 - 8)) = true ∨
    byteAt f 0 = Proto.FILECONTROL ∧ f.getD 2 0 = Proto.CTL_VOID ∧ f.getD 3 0 = Proto.CTL_VOID ∨
    byteAt f 0 = Proto.DIRECTC2C_ADDRLIST ∧ s.chn.config ≠ .disabled ∧
      (env.calloc = true ∨ s.outgoing = true ∨ s.chn.config = .connectOnly)

instance (s : Session) (env : FrameEnv) (f : Frame) : Decidable (s.Premature env f) :=
  inferInstanceAs (Decidable (_ ∨ _ ∧ _ ∨ _ ∧ _ ∧ _ ∨ _ ∧ _ ∧ _))

/-- No such message comes before the channel is active. -/
def InTurn (s : Session) : SessionEvent → Prop
  | .frame env f => s.chn.state ≠ .active → ¬s.Premature env f
  | _ => True

instance (s : Session) (e : SessionEvent) : Decidable (s.InTurn e) :=
  match e with
  | .frame env f => inferInstanceAs (Decidable (s.chn.state ≠ .active → ¬s.Premature env f))
  | .start _ _ => .isTrue trivial
  | .poll _ => .isTrue trivial
  | .garbage => .isTrue trivial
  | .finish _ => .isTrue trivial
  | .listenerAdd _ => .isTrue trivial
  | .listenerConn _ _ _ => .isTrue trivial
  | .direct _ => .isTrue trivial
  | .app _ => .isTrue trivial
  | .close => .isTrue trivial

/-- Neither a file nor a direct connection has been touched. -/
structure Untouched (s : Session) : Prop where
  file : s.file = .fresh
  directState : s.chn.directState = .inactive
  direct : s.direct = none

/-- An open channel in the order of the handshake. -/
structure Ordered (s : Session) : Prop where
  before : s.chn.state ≠ .active → s.Untouched
  established : s.chn.state = .active → .c2cEstablished ∈ s.calls
  calls : CallsInOrder s.calls

section Steps

variable {s t : Session} {env : FrameEnv} {f : Frame} {e : SessionEvent}

/-- What has been called before an active channel does something is in order. -/
theorem Ordered.stay
    {cs : List Callback}
    (h : Ordered s) (hactive : s.chn.state = .active) (ht : t.chn.state = .active)
    (hcalls : t.calls = s.calls ++ cs) :
    Ordered t := by
  have hest := h.established hactive
  refine ⟨fun hne => absurd ht hne, fun _ => ?_, ?_⟩
  · rw [hcalls]
    exact List.mem_append_left cs hest
  · rw [hcalls]
    exact h.calls.append (.inl hest)

/-- A channel that is not active yet stays so. -/
theorem Ordered.early
    {cs : List Callback}
    (h : Ordered s) (hst : s.chn.state ≠ .active) (ht : t.chn.state ≠ .active)
    (hfile : t.file = s.file) (hdirectState : t.chn.directState = s.chn.directState)
    (hdirect : t.direct = s.direct) (hcalls : t.calls = s.calls ++ cs)
    (hcs : ∀ c ∈ cs, Callback.preliminary c) :
    Ordered t := by
  obtain ⟨hf, hds, hd⟩ := h.before hst
  refine ⟨fun _ => ⟨hfile.trans hf, hdirectState.trans hds, hdirect.trans hd⟩,
    fun hactive => absurd hactive ht, ?_⟩
  rw [hcalls]
  exact h.calls.append (.inr hcs)

/-- A message about a file that comes in turn is refused. -/
theorem Untouched.procmsgFile
    {c : FileChan} {ret : Nat}
    (h : s.Untouched) (hturn : ¬s.Premature env f)
    (hfile : Client.procmsgFile env.file s.file f = .ok (c, ret)) :
    c = s.file ∧ fileCallbacks s.file f c ret = [] := by
  simp only [Premature, not_or] at hturn
  obtain ⟨-, hoffer, hcontrol, -⟩ := hturn
  have hname : byteAt f 0 = Proto.SENDFILEREQUEST →
      validateFileName ((f.drop 12).take (load16 f 2 - 8)) = false :=
    fun hreq => Bool.eq_false_iff.mpr fun hvalid => hoffer ⟨hreq, hvalid⟩
  rw [h.file] at hfile ⊢
  obtain ⟨rfl, hret⟩ := procmsgFile_fresh hname hfile
  refine ⟨rfl, ?_⟩
  rw [fileCallbacks]
  by_cases hreq : byteAt f 0 = Proto.SENDFILEREQUEST
  · rw [if_pos hreq, if_neg]
    rintro ⟨-, hvalid⟩
    exact hoffer ⟨hreq, hvalid⟩
  · rw [if_neg hreq, if_pos]
    exact hret.resolve_right hcontrol

theorem FrameStep.calls (h : FrameStep env s f t) :
    (∃ cs, t.calls = s.calls ++ cs) ∧ (s.chn.state = .active → t.chn.state = .active) := by
  cases h with
  | msgutf8 chn _ _ hkept => exact ⟨⟨_, rfl⟩, hkept.state.trans⟩
  | msgok => exact ⟨⟨_, rfl⟩, id⟩
  | file chn c ret _ _ hkept => exact ⟨⟨_, rfl⟩, hkept.state.trans⟩
  | completes => exact ⟨⟨_, rfl⟩, fun _ => rfl⟩
  | differs chn _ _ _ hkept => exact ⟨⟨[], (List.append_nil _).symm⟩, hkept.state.trans⟩
  | unlisted => exact ⟨⟨[], (List.append_nil _).symm⟩, id⟩
  | listed => exact ⟨⟨[], (List.append_nil _).symm⟩, id⟩
  | failed => exact ⟨⟨[], (List.append_nil _).symm⟩, id⟩
  | switched => exact ⟨⟨[], (List.append_nil _).symm⟩, id⟩

theorem Ordered.frame
    (h : Ordered s) (hturn : s.InTurn (.frame env f)) (hstep : FrameStep env s f t) :
    Ordered t := by
  by_cases hst : s.chn.state = .active
  · obtain ⟨⟨cs, hcalls⟩, hactive⟩ := hstep.calls
    exact h.stay hst (hactive hst) hcalls
  have huntouched := h.before hst
  have hlate := hturn hst
  cases hstep with
  | msgutf8 chn _ hactive => exact absurd hactive hst
  | msgok hk => exact absurd (.inl hk) hlate
  | file chn c ret _ hfile hkept =>
      obtain ⟨rfl, hcbs⟩ := huntouched.procmsgFile hlate hfile
      refine h.early hst (by rw [hkept.state]; exact hst) ?_ hkept.directState rfl rfl ?_
      · rw [huntouched.file]
        rfl
      · rw [hcbs]
        exact nofun
  | completes chn st _ hkept hdirect =>
      refine ⟨fun hne => absurd rfl hne, fun _ => List.mem_append_right _ List.mem_cons_self, ?_⟩
      refine h.calls.append (.inr fun c hc => ?_)
      rw [List.mem_singleton.mp hc]
      rfl
  | differs chn _ _ _ hkept =>
      exact h.early hst (by rw [← hkept.state] at hst; exact hst) rfl hkept.directState rfl
        (List.append_nil _).symm nofun
  | unlisted => exact h
  | listed d st hk hconf _ _ _ hlist =>
      have hsame : d = none ∧ st = s.chn.directState := by
        rcases hlist with hcalloc | hout | hconnect | hsame
        · exact absurd (.inr (.inr (.inr ⟨hk, hconf, .inl hcalloc⟩))) hlate
        · exact absurd (.inr (.inr (.inr ⟨hk, hconf, .inr (.inl hout)⟩))) hlate
        · exact absurd (.inr (.inr (.inr ⟨hk, hconf, .inr (.inr hconnect)⟩))) hlate
        · exact hsame
      exact h.early hst hst rfl hsame.2 (hsame.1.trans huntouched.direct.symm)
        (List.append_nil _).symm nofun
  | failed d₀ d _ _ hwaits =>
      exact absurd (huntouched.directState.symm.trans hwaits) nofun
  | switched _ hallowed =>
      rcases hallowed.2 with hs | hs
      · exact absurd (huntouched.directState.symm.trans hs) nofun
      · exact absurd (huntouched.directState.symm.trans hs) nofun

theorem DirectStep.calls (h : DirectStep s t) : ∃ cs, t.calls = s.calls ++ cs := by
  cases h with
  | same => exact ⟨[], (List.append_nil _).symm⟩
  | dropped => exact ⟨[], (List.append_nil _).symm⟩
  | taken => exact ⟨_, rfl⟩
  | announced => exact ⟨[], (List.append_nil _).symm⟩
  | gaveUp => exact ⟨[], (List.append_nil _).symm⟩
  | moved => exact ⟨_, rfl⟩
  | connected => exact ⟨_, rfl⟩
  | exhausted => exact ⟨[], (List.append_nil _).symm⟩
  | up => exact ⟨_, rfl⟩

/-- A channel without a direct connection has at most its accepted connections dropped. -/
theorem DirectStep.inactive
    (h : DirectStep s t) (hinactive : s.chn.directState = .inactive) :
    ∃ l, t = { s with accepted := l } := by
  cases h with
  | same => exact ⟨s.accepted, rfl⟩
  | dropped l => exact ⟨l, rfl⟩
  | taken _ _ _ _ _ _ hwaits => exact absurd (hinactive.symm.trans hwaits) nofun
  | announced _ hfailed => exact absurd (hinactive.symm.trans hfailed) nofun
  | gaveUp _ hfailed => exact absurd (hinactive.symm.trans hfailed) nofun
  | moved _ _ _ _ hconn => exact absurd (hinactive.symm.trans hconn) nofun
  | connected _ _ _ hconn => exact absurd (hinactive.symm.trans hconn) nofun
  | exhausted _ hconn => exact absurd (hinactive.symm.trans hconn) nofun
  | up _ hconn => exact absurd (hinactive.symm.trans hconn) nofun

theorem Ordered.directStep (h : Ordered s) (hstep : DirectStep s t) : Ordered t := by
  by_cases hst : s.chn.state = .active
  · obtain ⟨cs, hcalls⟩ := hstep.calls
    exact h.stay hst (hstep.state.trans hst) hcalls
  · obtain ⟨l, rfl⟩ := hstep.inactive (h.before hst).directState
    exact h.early hst hst rfl rfl rfl (List.append_nil _).symm nofun

theorem Stage.file (h : Stage s t) (hst : s.chn.state ≠ .active) : t.file = s.file := by
  cases h with
  | fragment chn c cs hactive => exact absurd hactive hst
  | same => rfl
  | stage2 => rfl
  | stage3 => rfl
  | write => rfl
  | stage4 => rfl
  | stage5 => rfl
  | stage6 => rfl
  | verified => rfl

theorem Ordered.stage (h : Ordered s) (hstage : Stage s t) : Ordered t := by
  have hsame := hstage.sameDirect
  obtain ⟨cs, hcalls, hcs⟩ := hstage.calls
  by_cases hst : s.chn.state = .active
  · exact h.stay hst (hsame.active.mpr hst) hcalls
  · exact h.early hst (mt hsame.active.mp hst) (hstage.file hst) hsame.directState hsame.direct
      hcalls (hcs hst)

/-- The fields that the order is about are the same. -/
theorem Ordered.keep
    (h : Ordered s) (hst : t.chn.state = s.chn.state) (hfile : t.file = s.file)
    (hdirectState : t.chn.directState = s.chn.directState) (hdirect : t.direct = s.direct)
    (hcalls : t.calls = s.calls) :
    Ordered t := by
  have hcalls' : t.calls = s.calls ++ [] := hcalls.trans (List.append_nil _).symm
  by_cases hactive : s.chn.state = .active
  · exact h.stay hactive (hst.trans hactive) hcalls'
  · exact h.early hactive (hst ▸ hactive) hfile hdirectState hdirect hcalls' nofun

theorem Ordered.happens (h : Ordered s) (hturn : s.InTurn e) (hstep : Happens s e t) :
    Ordered t := by
  cases hstep with
  | start connected io st hnew hst =>
      refine h.early (by rw [hnew]; exact nofun) ?_ rfl rfl rfl (List.append_nil _).symm nofun
      rcases hst with rfl | rfl
      · exact nofun
      · exact nofun
  | poll io t hstage => exact h.stage hstage
  | read io t hstage => exact (h.stage hstage).keep rfl rfl rfl rfl rfl
  | frame env f t hstep => exact h.frame hturn hstep
  | finish => exact h.keep rfl rfl rfl rfl rfl
  | listenerAdd => exact h.keep rfl rfl rfl rfl rfl
  | listenerConn => exact h.keep rfl rfl rfl rfl rfl
  | direct io u v t hu hv ht => exact ((h.directStep hu).directStep hv).directStep ht
  | app a chn c hst hkept =>
      exact h.stay hst (hkept.state.trans hst) (List.append_nil _).symm
  | answer a t hans happ =>
      by_cases hst : s.chn.state = .active
      · obtain ⟨chn, c, hkept, rfl⟩ := app_ok happ
        exact h.stay hst (hkept.state.trans hst) (List.append_nil _).symm
      · rw [answer_fresh hans (h.before hst).file happ]
        exact h

/-- The last callbacks of a channel that is closed. -/
theorem Ordered.closes (h : Ordered s) (hturn : s.InTurn e) (hclose : Closes s e t) :
    CallsInOrder t.calls := by
  have hlast : ∀ {u : Session} {c : Callback}, CallsInOrder u.calls → c.preliminary →
      Ended u t [c] → CallsInOrder t.calls := by
    intro u c hu hc hended
    rw [hended.calls]
    refine hu.append (.inr fun x hx => ?_)
    rw [List.mem_singleton.mp hx]
    exact hc
  cases hclose with
  | plain e t cs hended hcs =>
      rw [hended.calls]
      by_cases hst : s.chn.state = .active
      · exact h.calls.append (.inl (h.established hst))
      · exact h.calls.append (.inr (hcs hst))
  | frame env f u t c hu hc hended =>
      refine hlast ?_ hc hended
      rcases hu with hstep | hrefused
      · exact (h.frame hturn hstep).calls
      · obtain ⟨cs, hcalls, hcs⟩ := hrefused.calls
        rw [hcalls]
        by_cases hst : s.chn.state = .active
        · exact h.calls.append (.inl (h.established hst))
        · rcases hcs with rfl | hactive | ⟨-, c', ret, hfile, rfl⟩
          · exact h.calls.append (.inr nofun)
          · exact absurd hactive hst
          · rw [((h.before hst).procmsgFile (hturn hst) hfile).2]
            exact h.calls.append (.inr nofun)

end Steps

/-! ## Runs -/

theorem ordered_init
    {outgoing : Bool} {accId peerId : Id} {config : DirectConfig} {listener : Option (Nat × Nat)} :
    Ordered (init outgoing accId peerId config listener) where
  before := fun _ => ⟨rfl, rfl, rfl⟩
  established := nofun
  calls := fun _ hc => absurd hc List.not_mem_nil

/-- **Nothing acts before the version handshake**, in every run in which the messages that
are handled in any state come in turn: only callbacks of the set-up are called before
`c2c_established_cb`, and as long as the channel is not active, neither its files nor its
direct connection have been touched. -/
theorem nothing_before_established
    {outgoing : Bool} {accId peerId : Id} {config : DirectConfig} {listener : Option (Nat × Nat)}
    {es : List SessionEvent} {s : Session}
    (hok : Meets sessionStep InTurn (init outgoing accId peerId config listener) es)
    (hrun : run sessionStep (init outgoing accId peerId config listener) es = some s) :
    (∀ c ∈ s.calls.takeWhile (· ≠ .c2cEstablished), c.preliminary) ∧
      (s.closed = false → s.chn.state ≠ .active →
        s.file = .fresh ∧ s.chn.directState = .inactive ∧ s.direct = none) := by
  have hstep : ∀ u e v, ((u.closed = false → Ordered u) ∧ CallsInOrder u.calls) → u.InTurn e →
      sessionStep u e = some v → (v.closed = false → Ordered v) ∧ CallsInOrder v.calls := by
    rintro u e v ⟨hu, -⟩ hturn hs
    obtain ⟨hopen, -, hhappens | hcloses⟩ := sessionStep_ok hs
    · have hv := (hu hopen).happens hturn hhappens
      exact ⟨fun _ => hv, hv.calls⟩
    · exact ⟨fun hv => absurd (hv.symm.trans hcloses.closed) nofun, (hu hopen).closes hturn hcloses⟩
  obtain ⟨hordered, hcalls⟩ :=
    run_invariant hstep ⟨fun _ => ordered_init, ordered_init.calls⟩ hok hrun
  refine ⟨hcalls, fun hopen hst => ?_⟩
  obtain ⟨hfile, hdirectState, hdirect⟩ := (hordered hopen).before hst
  exact ⟨hfile, hdirectState, hdirect⟩

def msgOk : Frame :=
  shortFrame Proto.MSGOK 7 7

/-- The callee gets an acknowledgement behind the request for the version. -/
theorem nothing_before_established_callee :
    ∃ s, run sessionStep (callee .disabled) (setUp ++ received [connReq 0 1, msgOk]) = some s ∧
      s.calls = [.peerCertVerify, .c2cEstablished, .msgok] ∧
      ∀ c ∈ s.calls.takeWhile (· ≠ .c2cEstablished), c.preliminary := by
  obtain ⟨s, hrun, hcalls⟩ :
      ∃ s, run sessionStep (callee .disabled) (setUp ++ received [connReq 0 1, msgOk]) = some s ∧
        s.calls = [.peerCertVerify, .c2cEstablished, .msgok] := run_ends (by decide +kernel)
  exact ⟨s, hrun, hcalls, (nothing_before_established (by decide +kernel) hrun).1⟩

/-! ## Messages in front of the handshake -/

/-- The callee reports an acknowledgement, an offered file or a control message in front of
the request for the version, and the caller begins to connect to an address. -/
theorem acts_before_established :
    (∃ s, run sessionStep (callee .disabled) (setUp ++ received [msgOk]) = some s ∧
      .msgok ∈ s.calls.takeWhile (· ≠ .c2cEstablished)) ∧
    (∃ s, run sessionStep (callee .disabled) (setUp ++ received [requestFrame 1 [97]]) = some s ∧
      .acceptFile ∈ s.calls.takeWhile (· ≠ .c2cEstablished) ∧
      s.closed = false ∧ s.chn.state ≠ .active ∧ s.file.recvState = .waitAccept) ∧
    (∃ s, run sessionStep (callee .disabled)
        (setUp ++ received [ctlFrame Proto.CTL_VOID Proto.CTL_VOID]) = some s ∧
      .fileControl ∈ s.calls.takeWhile (· ≠ .c2cEstablished)) ∧
    ∃ s, run sessionStep (caller .connectOnly) (setUp ++ received [addrlistFrame 1 2]) = some s ∧
      s.closed = false ∧ s.chn.state ≠ .active ∧ s.chn.directState = .connecting :=
  ⟨run_ends (by decide +kernel), run_ends (by decide +kernel), run_ends (by decide +kernel),
    run_ends (by decide +kernel)⟩

end Session
end Client
end PicaPica
