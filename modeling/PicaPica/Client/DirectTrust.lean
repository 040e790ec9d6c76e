import PicaPica.Client.SessionEvents

/-!
# Whose bytes are read from a direct connection

After the switch message of the peer, `PICA_read_c2c` reads from the direct connection.  The
handler of this message looks at the state of the channel's direct connections only, which is
`CONNECTING` from the first address on.  When the message is only accepted for an active
connection of an active channel, what is read afterwards comes from the verified peer.
-/

namespace PicaPica
namespace Client

open Machine

namespace Session

/-- The direct connection of the channel is up. -/
def Up (s : Session) : Prop :=
  ∃ d, s.direct = some d ∧ d.freed = false ∧ d.state = .active

/-- The direct connection of an open channel. -/
structure DirectOk (s : Session) : Prop where
  trusted : ∀ d, s.direct = some d → d.freed = false → d.state = .active → d.Trusted s.peerId
  shaking : ∀ d, s.direct = some d → d.freed = false → d.state = .waitingTls → d.ssl ≠ none
  active : s.chn.directState = .active → s.Up
  connecting : s.chn.directState = .connecting → ∀ d, s.direct = some d → d.freed = false
  switched : s.chn.switchedRead → s.chn.state = .active ∧
    (s.chn.directState = .active ∨ s.chn.directState = .connecting) ∧ s.Up
  callee : s.outgoing = false → s.chn.state ≠ .active →
    s.chn.directState ≠ .waitingIncoming ∧ ∀ d, s.direct = some d → d.Unshaken
  waiting : s.outgoing = false → s.chn.directState = .waitingIncoming →
    ∀ d, s.direct = some d → d.Unshaken
  accepted : ∀ d ∈ s.accepted, d.freed = false ∧
    ∃ t, d.ssl = some t ∧ (d.state = .active → t.handshake)

section Same

variable {s t : Session}

theorem DirectOk.same (h : DirectOk s) (hsame : SameDirect s t) : DirectOk t := by
  have hup : s.Up → t.Up := by
    rintro ⟨d, hd, hrest⟩
    exact ⟨d, hsame.direct.trans hd, hrest⟩
  refine ⟨?_, ?_, ?_, ?_, ?_, ?_, ?_, ?_⟩
  · rw [hsame.direct, hsame.peerId]
    exact h.trusted
  · rw [hsame.direct]
    exact h.shaking
  · rw [hsame.directState]
    exact fun hd => hup (h.active hd)
  · rw [hsame.direct, hsame.directState]
    exact h.connecting
  · rw [hsame.switchedRead, hsame.directState, hsame.active]
    intro hread
    obtain ⟨hst, hdirect, hu⟩ := h.switched hread
    exact ⟨hst, hdirect, hup hu⟩
  · rw [hsame.outgoing, hsame.directState, hsame.direct, Ne, hsame.active]
    exact h.callee
  · rw [hsame.outgoing, hsame.directState, hsame.direct]
    exact h.waiting
  · rw [hsame.accepted]
    exact h.accepted

end Same

/-! ## Messages -/

/-- The switch message is accepted for an active connection of an active channel only. -/
def SwitchExpected (s : Session) : SessionEvent → Prop
  | .frame _ f =>
      byteAt f 0 = Proto.DIRECTC2C_SWITCH → s.chn.SwitchAllowed →
        s.chn.state = .active ∧ s.direct.any (·.state = .active) = true
  | _ => True

instance (s : Session) (e : SessionEvent) : Decidable (s.SwitchExpected e) :=
  match e with
  | .frame _ f => inferInstanceAs (Decidable (byteAt f 0 = Proto.DIRECTC2C_SWITCH →
      s.chn.SwitchAllowed → s.chn.state = .active ∧ s.direct.any (·.state = .active) = true))
  | .start _ _ => .isTrue trivial
  | .poll _ => .isTrue trivial
  | .garbage => .isTrue trivial
  | .finish _ => .isTrue trivial
  | .listenerAdd _ => .isTrue trivial
  | .listenerConn _ _ _ => .isTrue trivial
  | .direct _ => .isTrue trivial
  | .app _ => .isTrue trivial
  | .close => .isTrue trivial

section Messages

variable {s t : Session} {env : FrameEnv} {f : Frame}

/-- While the client waits or does nothing, it has not switched. -/
theorem DirectOk.not_switched
    (h : DirectOk s)
    (hidle : s.chn.directState ≠ .active) (hidle' : s.chn.directState ≠ .connecting) :
    s.chn.switchedRead = false := by
  cases hread : s.chn.switchedRead with
  | false => rfl
  | true =>
      rcases (h.switched hread).2.1 with hd | hd
      · exact absurd hd hidle
      · exact absurd hd hidle'

/-- Before the channel is active, it has not switched. -/
theorem DirectOk.not_switched_yet
    (h : DirectOk s) (hst : s.chn.state ≠ .active) :
    s.chn.switchedRead = false := by
  cases hread : s.chn.switchedRead with
  | false => rfl
  | true => exact absurd (h.switched hread).1 hst

theorem DirectOk.switch
    (h : DirectOk s) (hallowed : s.chn.SwitchAllowed)
    (hst : s.chn.state = .active) (hup : s.direct.any (·.state = .active) = true) :
    DirectOk { s with chn := { s.chn with switchedRead := true } } := by
  obtain ⟨d, hd, hactive⟩ : ∃ d, s.direct = some d ∧ d.state = .active := by
    cases hd : s.direct with
    | none => simp [hd] at hup
    | some d => exact ⟨d, rfl, by simpa [hd] using hup⟩
  have hfreed : d.freed = false := by
    rcases hallowed.2 with hs | hs
    · obtain ⟨x, hx, hfreed, -⟩ := h.active hs
      obtain rfl : d = x := Option.some.inj (hd.symm.trans hx)
      exact hfreed
    · exact h.connecting hs d hd
  exact ⟨h.trusted, h.shaking, h.active, h.connecting,
    fun _ => ⟨hst, hallowed.2, d, hd, hfreed, hactive⟩, h.callee, h.waiting, h.accepted⟩

theorem Completes.not_active (h : s.Completes f) : s.chn.state ≠ .active := by
  rcases h with ⟨hst, -⟩ | ⟨hst, -⟩
  · rw [hst]
    exact nofun
  · rw [hst]
    exact nofun

/-- The channel becomes active, and may wait for a connection. -/
theorem DirectOk.complete
    {chn : C2c} {st : DirectState}
    (h : DirectOk s) (hst : s.chn.state ≠ .active) (hkept : C2c.Kept s.chn chn)
    (hdirect : st = s.chn.directState ∨ st = .waitingIncoming) :
    DirectOk { s.called .c2cEstablished with
      chn := { chn with state := .active, directState := st } } := by
  have hread : chn.switchedRead = false := hkept.switchedRead.trans (h.not_switched_yet hst)
  refine ⟨h.trusted, h.shaking, ?_, ?_, ?_, ?_, ?_, h.accepted⟩
  · rcases hdirect with rfl | rfl
    · exact h.active
    · exact nofun
  · rcases hdirect with rfl | rfl
    · exact h.connecting
    · exact nofun
  · intro hsw
    exact absurd (hread.symm.trans hsw) nofun
  · exact fun _ hne => absurd rfl hne
  · exact fun hin _ => (h.callee hin hst).2

/-- A list of addresses replaces a connection that is not in use. -/
theorem DirectOk.listed
    {d : Option Direct} {st : DirectState}
    (h : DirectOk s)
    (hfree : s.chn.directState = .inactive ∨ s.chn.directState = .waitingIncoming)
    (hst : st = s.chn.directState ∨ st = .connecting ∨ st = .failedToConnect)
    (hd : ∀ x, d = some x → x.freed = false ∧ x.Unshaken) :
    DirectOk ({ s with direct := d }.setDirectState st) := by
  have hread : s.chn.switchedRead = false := by
    rcases hfree with hs | hs
    · exact h.not_switched (by rw [hs]; exact nofun) (by rw [hs]; exact nofun)
    · exact h.not_switched (by rw [hs]; exact nofun) (by rw [hs]; exact nofun)
  have hst' : st ≠ .active ∧
      (s.outgoing = false → s.chn.state ≠ .active → st ≠ .waitingIncoming) := by
    rcases hst with rfl | rfl | rfl
    · refine ⟨?_, fun hin hne => (h.callee hin hne).1⟩
      rcases hfree with hs | hs
      · rw [hs]
        exact nofun
      · rw [hs]
        exact nofun
    · exact ⟨nofun, fun _ _ => nofun⟩
    · exact ⟨nofun, fun _ _ => nofun⟩
  refine ⟨?_, ?_, ?_, ?_, ?_, ?_, ?_, h.accepted⟩
  · exact fun x hx _ hactive => absurd hactive (hd x hx).2.active
  · exact fun x hx _ htls => absurd htls (hd x hx).2.waitingTls
  · exact fun hactive => absurd hactive hst'.1
  · exact fun _ x hx => (hd x hx).1
  · exact fun hsw => absurd (hread.symm.trans hsw) nofun
  · exact fun hin hne => ⟨hst'.2 hin hne, fun x hx => (hd x hx).2⟩
  · exact fun _ _ x hx => (hd x hx).2

/-- The peer has not connected, and the client connects instead. -/
theorem DirectOk.failed
    {d₀ d : Direct}
    (h : DirectOk s) (hwaits : s.chn.directState = .waitingIncoming) (hin : s.outgoing = false)
    (hd₀ : s.direct = some d₀) (hfreed : d.freed = false)
    (hstate : d.state = d₀.state ∨ d.state = .connecting ∨ d.state = .failed) :
    DirectOk ({ s with direct := some d }.setDirectState .connecting) := by
  have hread : s.chn.switchedRead = false :=
    h.not_switched (by rw [hwaits]; exact nofun) (by rw [hwaits]; exact nofun)
  have hd : d.Unshaken := by
    have hearly := h.waiting hin hwaits d₀ hd₀
    rcases hstate with hst | hst | hst
    · exact .of_state hst hearly.waitingTls hearly.active
    · exact .of_state hst nofun nofun
    · exact .of_state hst nofun nofun
  refine ⟨?_, ?_, nofun, ?_, ?_, ?_, nofun, h.accepted⟩
  · intro x hx _ hactive
    cases hx
    exact absurd hactive hd.active
  · intro x hx _ htls
    cases hx
    exact absurd htls hd.waitingTls
  · intro _ x hx
    cases hx
    exact hfreed
  · exact fun hsw => absurd (hread.symm.trans hsw) nofun
  · refine fun _ _ => ⟨nofun, fun x hx => ?_⟩
    cases hx
    exact hd

theorem DirectOk.frame
    (h : DirectOk s) (hok : s.SwitchExpected (.frame env f)) (hstep : FrameStep env s f t) :
    DirectOk t := by
  cases hstep with
  | msgutf8 chn _ _ hkept => exact h.same (.of_kept hkept rfl rfl rfl rfl rfl)
  | msgok => exact h.same ⟨rfl, rfl, rfl, rfl, rfl, rfl, Iff.rfl⟩
  | file chn c ret _ _ hkept => exact h.same (.of_kept hkept rfl rfl rfl rfl rfl)
  | completes chn st hcompletes hkept hdirect =>
      exact h.complete hcompletes.not_active hkept hdirect
  | differs chn _ _ _ hkept =>
      exact h.same ⟨rfl, rfl, rfl, rfl, hkept.directState, hkept.switchedRead,
        by rw [← hkept.state]⟩
  | unlisted => exact h
  | listed d st _ _ hfree hst hd => exact h.listed hfree hst hd
  | failed d₀ d _ _ hwaits hin hd₀ _ hfreed hstate => exact h.failed hwaits hin hd₀ hfreed hstate
  | switched hk hallowed =>
      obtain ⟨hst, hup⟩ := hok hk hallowed
      exact h.switch hallowed hst hup

end Messages

/-! ## Connections -/

section Connections

variable {s t : Session}

/-- The connection that is accepted or kept by the listener. -/
theorem Direct.accepted_ok
    {r : SslCall} {d : Direct}
    (h : Direct.accepted r = some d) :
    d.freed = false ∧ ∃ t, d.ssl = some t ∧ (d.state = .active → t.handshake) := by
  rw [Direct.accepted] at h
  split_ifs at h
  cases h
  exact ⟨rfl, _, rfl, nofun⟩

theorem Direct.processListenerConn_ok
    {r : SslCall} {cert : Option PeerCert} {d₀ d : Direct}
    (hd₀ : d₀.freed = false ∧ ∃ t, d₀.ssl = some t ∧ (d₀.state = .active → t.handshake))
    (h : d₀.processListenerConn r cert = some d) :
    d.freed = false ∧ ∃ t, d.ssl = some t ∧ (d.state = .active → t.handshake) := by
  obtain ⟨hfreed, t, hssl, -⟩ := id hd₀
  rw [Direct.processListenerConn] at h
  split_ifs at h
  · cases h
    exact hd₀
  · cases cert with
    | none => cases h
    | some c =>
        cases h
        exact ⟨hfreed, { t with handshake := true }, by simp [Direct.shaken, hssl], fun _ => rfl⟩
  · cases h
    exact hd₀

theorem DirectOk.setAccepted
    {l : List Direct}
    (h : DirectOk s)
    (hl : ∀ d ∈ l, d.freed = false ∧ ∃ t, d.ssl = some t ∧ (d.state = .active → t.handshake)) :
    DirectOk { s with accepted := l } :=
  ⟨h.trusted, h.shaking, h.active, h.connecting, h.switched, h.callee, h.waiting, hl⟩

theorem DirectOk.listenerConn
    {i : Nat} {r : SslCall} {cert : Option PeerCert}
    (h : DirectOk s) :
    DirectOk { s with
      accepted := s.accepted.take i ++
        (s.accepted[i]?.bind fun d => d.processListenerConn r cert).toList ++
        s.accepted.drop (i + 1) } := by
  refine h.setAccepted fun d hd => ?_
  rcases List.mem_append.mp hd with hd | hd
  · rcases List.mem_append.mp hd with hd | hd
    · exact h.accepted d (List.mem_of_mem_take hd)
    · obtain ⟨d₀, hd₀, hconn⟩ := Option.bind_eq_some_iff.mp (Option.mem_toList.mp hd)
      exact Direct.processListenerConn_ok (h.accepted d₀ (List.mem_of_getElem? hd₀)) hconn
  · exact h.accepted d (List.mem_of_mem_drop hd)

/-- An accepted connection has been verified for the peer of the channel. -/
theorem DirectOk.take
    {d : Direct} {l : List Direct} {chn : C2c} {cs : List Callback}
    (h : DirectOk s) (hd : d ∈ s.accepted) (hactive : d.state = .active)
    (hl : ∀ x ∈ l, x ∈ s.accepted) (hwaits : s.chn.directState = .waitingIncoming)
    (hkept : C2c.Kept s.chn chn) :
    DirectOk { s with
      direct := some (d.verifiedFor s.peerId)
      accepted := l
      chn := { chn with directState := .active }
      calls := cs } := by
  obtain ⟨hfreed, t, hssl, hshaken⟩ := h.accepted d hd
  have hread : chn.switchedRead = false :=
    hkept.switchedRead.trans
      (h.not_switched (by rw [hwaits]; rintro ⟨⟩) (by rw [hwaits]; rintro ⟨⟩))
  refine ⟨?_, ?_, ?_, (by rintro ⟨⟩), ?_, ?_, fun _ hw => (by cases hw),
    fun x hx => h.accepted x (hl x hx)⟩
  · rintro x hx - -
    cases hx
    refine ⟨hfreed, { t with verified := some s.peerId }, ?_, hshaken hactive, rfl⟩
    simp [Direct.verifiedFor, hssl]
  · intro x hx _ htls
    cases hx
    cases hactive.symm.trans htls
  · exact fun _ => ⟨_, rfl, hfreed, hactive⟩
  · intro hsw
    cases hread.symm.trans hsw
  · intro hin hne
    exact absurd hwaits (h.callee hin (hkept.state ▸ hne)).1

/-- `FAILEDTOCONNECT` is left. -/
theorem DirectOk.leaveFailed
    {chn : C2c} {st : DirectState}
    (h : DirectOk s) (hfailed : s.chn.directState = .failedToConnect)
    (hst : st = .inactive ∨ st = .waitingIncoming ∧ s.outgoing) (hkept : C2c.Kept s.chn chn) :
    DirectOk { s with chn := { chn with directState := st } } := by
  have hread : chn.switchedRead = false :=
    hkept.switchedRead.trans
      (h.not_switched (by rw [hfailed]; exact nofun) (by rw [hfailed]; exact nofun))
  have hst' : st ≠ .active ∧ st ≠ .connecting ∧ (s.outgoing = false → st ≠ .waitingIncoming) := by
    rcases hst with rfl | ⟨rfl, hout⟩
    · exact ⟨nofun, nofun, fun _ => nofun⟩
    · exact ⟨nofun, nofun, fun hin => absurd (hin.symm.trans hout) nofun⟩
  refine ⟨h.trusted, h.shaking, ?_, ?_, ?_, ?_, ?_, h.accepted⟩
  · exact fun hactive => absurd hactive hst'.1
  · exact fun hconn => absurd hconn hst'.2.1
  · exact fun hsw => absurd (hread.symm.trans hsw) nofun
  · intro hin hne
    exact ⟨hst'.2.2 hin, (h.callee hin (hkept.state ▸ hne)).2⟩
  · exact fun hin hwaits => absurd hwaits (hst'.2.2 hin)

/-- A connection that is not up has not been switched to. -/
theorem DirectOk.not_switched_down
    {d : Direct}
    (h : DirectOk s) (hd : s.direct = some d) (hdown : d.state ≠ .active) :
    s.chn.switchedRead = false := by
  cases hread : s.chn.switchedRead with
  | false => rfl
  | true =>
      obtain ⟨x, hx, -, hactive⟩ := (h.switched hread).2.2
      obtain rfl : d = x := Option.some.inj (hd.symm.trans hx)
      exact absurd hactive hdown

/-- The client goes on with its own connection. -/
theorem DirectOk.move
    {d d' : Direct} {chn : C2c} {cs : List Callback}
    (h : DirectOk s) (hconn : s.chn.directState = .connecting) (hd : s.direct = some d)
    (hdown : d.state ≠ .active) (hfreed : d'.freed = false)
    (htrust : d'.state = .active → d'.Trusted s.peerId)
    (htls : d'.state = .waitingTls → d'.ssl ≠ none)
    (hcallee : s.chn.state ≠ .active → d'.Unshaken) (hkept : C2c.Kept s.chn chn) :
    DirectOk { s with direct := some d', chn := chn, calls := cs } := by
  have hread : chn.switchedRead = false :=
    hkept.switchedRead.trans (h.not_switched_down hd hdown)
  have hconn' : chn.directState = .connecting := hkept.directState.trans hconn
  refine ⟨?_, ?_, ?_, ?_, ?_, ?_, ?_, h.accepted⟩
  · intro x hx _ hactive
    cases hx
    exact htrust hactive
  · intro x hx _ hshake
    cases hx
    exact htls hshake
  · exact fun hactive => absurd (hconn'.symm.trans hactive) nofun
  · intro _ x hx
    cases hx
    exact hfreed
  · exact fun hsw => absurd (hread.symm.trans hsw) nofun
  · intro _ hne
    refine ⟨fun hwaits => absurd (hconn'.symm.trans hwaits) nofun, fun x hx => ?_⟩
    cases hx
    exact hcallee (hkept.state ▸ hne)
  · exact fun _ hwaits => absurd (hconn'.symm.trans hwaits) nofun

theorem DirectOk.directStep (h : DirectOk s) (hstep : DirectStep s t) : DirectOk t := by
  cases hstep with
  | same => exact h
  | dropped l hl => exact h.setAccepted fun d hd => h.accepted d (hl d hd)
  | taken d l chn hd hactive hl hwaits hkept => exact h.take hd hactive hl hwaits hkept
  | announced chn hfailed hout hkept => exact h.leaveFailed hfailed (.inr ⟨rfl, hout⟩) hkept
  | gaveUp chn hfailed _ hkept => exact h.leaveFailed hfailed (.inl rfl) hkept
  | moved d d' chn cs hconn hd hdown hfreed hdown' htls _ hkept _ =>
      refine h.move hconn hd hdown hfreed (fun hactive => absurd hactive hdown')
        (fun hshake => (htls hshake).2) (fun hne => ⟨fun hshake => ?_, hdown'⟩) hkept
      exact hne (htls hshake).1
  | connected d d' chn hconn hd hfreed hshake hfreed' hup htrust hst hkept =>
      refine h.move hconn hd (by rw [hshake]; exact nofun) hfreed' (fun _ => ?_)
        (fun hshake' => absurd (hup.symm.trans hshake') nofun) (fun hne => absurd hst hne) hkept
      exact htrust (h.shaking d hd hfreed hshake)
  | exhausted d hconn hd hstate =>
      have hread := h.not_switched_down hd (by rw [hstate]; exact nofun)
      refine ⟨no_direct rfl, no_direct rfl, nofun, nofun, ?_, ?_, nofun, h.accepted⟩
      · exact fun hsw => absurd (hread.symm.trans hsw) nofun
      · exact fun _ _ => ⟨nofun, no_direct rfl⟩
  | up d hconn hd hfreed hstate =>
      refine ⟨h.trusted, h.shaking, fun _ => ⟨d, hd, hfreed, hstate⟩, nofun, ?_, ?_, nofun,
        h.accepted⟩
      · exact fun hsw => ⟨(h.switched hsw).1, .inl rfl, d, hd, hfreed, hstate⟩
      · exact fun hin hne => ⟨nofun, (h.callee hin hne).2⟩

end Connections

/-! ## Runs -/

section Runs

variable {s t : Session} {e : SessionEvent}

theorem DirectOk.happens
    (h : DirectOk s) (hok : s.SwitchExpected e) (hstep : Happens s e t) :
    DirectOk t := by
  cases hstep with
  | start connected io st hnew hst =>
      refine h.same ⟨rfl, rfl, rfl, rfl, rfl, rfl, ?_⟩
      rw [hnew]
      rcases hst with rfl | rfl
      · exact iff_of_false nofun nofun
      · exact iff_of_false nofun nofun
  | poll io t hstage => exact h.same hstage.sameDirect
  | read io t hstage =>
      exact (h.same hstage.sameDirect).same ⟨rfl, rfl, rfl, rfl, rfl, rfl, Iff.rfl⟩
  | frame env f t hstep => exact h.frame hok hstep
  | finish => exact h.same ⟨rfl, rfl, rfl, rfl, rfl, rfl, Iff.rfl⟩
  | listenerAdd r =>
      refine h.setAccepted fun d hd => ?_
      rcases List.mem_append.mp hd with hd | hd
      · exact Direct.accepted_ok (Option.mem_toList.mp hd)
      · exact h.accepted d hd
  | listenerConn i r cert => exact h.listenerConn
  | direct io u v t hu hv ht => exact ((h.directStep hu).directStep hv).directStep ht
  | app a chn c _ hkept => exact h.same (.of_kept hkept rfl rfl rfl rfl rfl)
  | answer a t _ happ =>
      obtain ⟨chn, c, hkept, rfl⟩ := app_ok happ
      exact h.same (.of_kept hkept rfl rfl rfl rfl rfl)

theorem directOk_init
    {outgoing : Bool} {accId peerId : Id} {config : DirectConfig} {listener : Option (Nat × Nat)} :
    DirectOk (init outgoing accId peerId config listener) where
  trusted := no_direct rfl
  shaking := no_direct rfl
  active := nofun
  connecting := nofun
  switched := nofun
  callee := fun _ _ => ⟨nofun, no_direct rfl⟩
  waiting := nofun
  accepted := fun _ hd => absurd hd List.not_mem_nil

/-- The session that is read from after the switch. -/
theorem DirectOk.sslToRead (h : DirectOk s) :
    (s.chn.switchedRead → ∃ d, s.direct = some d ∧ d.Trusted s.peerId) ∧
      ∃ ssl, s.sslToRead = .ok ssl ∧
        ∀ t, ssl = some t → t.handshake ∧ t.verified = some s.peerId := by
  rw [Session.sslToRead]
  by_cases hsw : s.chn.switchedRead
  · obtain ⟨d, hd, hfreed, hactive⟩ := (h.switched hsw).2.2
    have htrust := h.trusted d hd hfreed hactive
    obtain ⟨-, t, hssl, hshaken, hverified⟩ := id htrust
    refine ⟨fun _ => ⟨d, hd, htrust⟩, some t, ?_, fun x hx => ?_⟩
    · simp [hsw, hd, hfreed, hssl, pure, Except.pure]
    · cases hx
      exact ⟨hshaken, hverified⟩
  · exact ⟨fun hc => absurd hc hsw, none, if_neg hsw, nofun⟩

end Runs

/-- **What is read from a direct connection comes from the verified peer**, in every run in
which the switch message is only accepted for an active connection of an active channel: once
the channel has switched, its direct connection is there, with the handshake complete and the
certificate verified for the peer of the channel. -/
theorem direct_read_trusted
    {outgoing : Bool} {accId peerId : Id} {config : DirectConfig} {listener : Option (Nat × Nat)}
    {es : List SessionEvent} {s : Session}
    (hok : Meets sessionStep SwitchExpected (init outgoing accId peerId config listener) es)
    (hrun : run sessionStep (init outgoing accId peerId config listener) es = some s)
    (hopen : s.closed = false) :
    (s.chn.switchedRead → ∃ d, s.direct = some d ∧ d.Trusted s.peerId) ∧
      ∃ ssl, s.sslToRead = .ok ssl ∧
        ∀ t, ssl = some t → t.handshake ∧ t.verified = some s.peerId := by
  have hstep : ∀ u e v, (u.closed = false → DirectOk u) → u.SwitchExpected e →
      sessionStep u e = some v → v.closed = false → DirectOk v := by
    intro u e v hu hexp hs hv
    obtain ⟨hopen, -, hhappens | hcloses⟩ := sessionStep_ok hs
    · exact (hu hopen).happens hexp hhappens
    · exact absurd (hv.symm.trans hcloses.closed) nofun
  exact (run_invariant hstep (fun _ => directOk_init) hok hrun hopen).sslToRead

/-! ## The switch message comes before the connection -/

/-- A call of `process_directc2c` for a socket that is writable. -/
def directReady : DirectIo where
  rfds := false
  wfds := true
  connected := true
  ssl := .done
  cert := some ⟨some rsaMinKeySize, some (Id.ofByte 2)⟩
  answer := true
  elsewhere := false
  mem := .enough
  memFailed := .enough
  connect := true
  r₀ := 7
  r₁ := 7

def switchMsg : Frame :=
  shortFrame Proto.DIRECTC2C_SWITCH 7 7

/-- The caller connects to the address of the peer, and the peer switches when it is up. -/
def switchedLate : List SessionEvent :=
  setUp ++ received [initRespOk, addrlistFrame 1 2] ++
    [.direct directReady, .direct directReady, .direct { directReady with wfds := false }] ++
    received [switchMsg] ++ [.poll { readable with rfds := false, directRfds := true }]

theorem direct_read_trusted_late :
    ∃ s, run sessionStep (caller .connectOnly) switchedLate = some s ∧ s.reading ∧
      s.chn.switchedRead ∧ ∃ d, s.direct = some d ∧ d.Trusted (Id.ofByte 2) := by
  obtain ⟨s, hrun, hreading, hopen, hsw, hpeer⟩ :
      ∃ s, run sessionStep (caller .connectOnly) switchedLate = some s ∧
        s.reading = true ∧ s.closed = false ∧ s.chn.switchedRead = true ∧
        s.peerId = Id.ofByte 2 := run_ends (by decide +kernel)
  obtain ⟨d, hd, htrust⟩ := (direct_read_trusted (by decide +kernel) hrun hopen).1 hsw
  exact ⟨s, hrun, hreading, hsw, d, hd, hpeer ▸ htrust⟩

/-- The peer switches as soon as the caller has its address. -/
def switchedEarly : List SessionEvent :=
  setUp ++ received [initRespOk, addrlistFrame 1 2, switchMsg]

/-- The channel has switched to a connection without a session.  When the TLS handshake has
begun, what the other end of this connection sends is handled. -/
theorem switched_before_verified :
    (∃ s, run sessionStep (caller .connectOnly) switchedEarly = some s ∧
      s.closed = false ∧ s.chn.switchedRead = true ∧ ∃ d ∈ s.direct, d.ssl = none) ∧
    ∃ s, run sessionStep (caller .connectOnly)
        (switchedEarly ++ [.direct { directReady with ssl := .wantRead }, .poll readable]) =
          some s ∧
      s.closed = false ∧ s.reading = true ∧ s.sslToRead.toOption = some (some ⟨false, none⟩) :=
  ⟨run_ends (by decide +kernel), run_ends (by decide +kernel)⟩

end Session
end Client
end PicaPica
