import PicaPica.Client.SessionEvents

/-!
# Attempts to connect directly

A channel in `CONNECTING` has a connection that is on its way to one of the addresses of the
peer, or has failed to reach it.  The handlers of `DIRECTC2C_ADDRLIST` and `DIRECTC2C_FAILED`
set the state, and they do so whether or not there is an address: without memory for the list,
with a first item that is no IPv4 address, and, when the peer asks the callee to connect,
without a list or behind its end.
-/

namespace PicaPica
namespace Client

open Machine

/-- `directc2c_connect_next` reports that no address is left. -/
def Direct.Exhausted (d : Direct) (connect : Bool) : Prop :=
  ∃ d', d.connectNext connect = .ok (d', false)

/-- The next item of the list is an IPv4 address. -/
def Direct.HasNext (d : Direct) : Bool :=
  d.addrlist.any fun l =>
    d.nextPos < load16 l 0 ∧ byteAt l d.nextPos = Proto.DIRECTC2C_IPV4

section ConnectNext

variable {d d' : Direct} {connect found : Bool}

theorem connectNext_list
    (h : d.connectNext connect = .ok (d', found)) :
    d'.addrlist = d.addrlist ∧ d.addrlist ≠ none ∧ (d.state ≠ .new → d'.state ≠ .new) := by
  obtain ⟨hfreed, -, -, hstate⟩ := connectNext_ok h
  have hnew : d.state ≠ .new → d'.state ≠ .new := by
    rcases hstate with hst | hst | hst
    · rw [hst]
      exact id
    · rw [hst]
      exact fun _ => nofun
    · rw [hst]
      exact fun _ => nofun
  refine ⟨?_, ?_, hnew⟩
  · simp only [Direct.connectNext, hfreed, Bool.false_eq_true, if_false] at h
    cases hl : d.addrlist with
    | none => simp [hl] at h
    | some l =>
        simp only [hl] at h
        by_cases hend : load16 l 0 ≤ d.nextPos
        · rw [if_pos hend] at h
          cases h
          rfl
        · rw [if_neg hend] at h
          split_ifs at h
          · cases h
            rfl
          · cases h
            rfl
          · cases h
            rfl
  · intro hl
    simp [Direct.connectNext, hfreed, hl] at h

/-- With an address the attempt begins. -/
theorem connectNext_hasNext
    (hnext : d.HasNext) (h : d.connectNext connect = .ok (d', found)) :
    found = true ∧ d'.state ≠ .new := by
  obtain ⟨hfreed, -, -, -⟩ := connectNext_ok h
  obtain ⟨l, hl, hitem⟩ := (Option.any_eq_true _ _).mp hnext
  obtain ⟨hpos, hkind⟩ := of_decide_eq_true hitem
  simp only [Direct.connectNext, hfreed, hl, Bool.false_eq_true, if_false] at h
  rw [if_neg (Nat.not_le_of_lt hpos), if_pos hkind] at h
  cases h
  refine ⟨rfl, ?_⟩
  cases connect with
  | true => rintro ⟨⟩
  | false => rintro ⟨⟩

/-- The list has been set before the next address is tried. -/
theorem connectNext_spares
    (hlist : d.addrlist ≠ none) :
    Spares (· = SessionFault.nullPtr) (d.connectNext connect) := by
  obtain ⟨l, hl⟩ := Option.ne_none_iff_exists'.mp hlist
  rw [Direct.connectNext, hl]
  by_cases hfreed : d.freed
  · rw [if_pos hfreed]
    exact spares_error (by rintro ⟨⟩)
  · rw [if_neg hfreed]
    dsimp only
    by_cases hend : load16 l 0 ≤ d.nextPos
    · rw [if_pos hend]
      exact spares_ok _
    · rw [if_neg hend]
      by_cases hkind : byteAt l d.nextPos = Proto.DIRECTC2C_IPV4
      · rw [if_pos hkind]
        exact spares_ok _
      · rw [if_neg hkind]
        exact spares_ok _

end ConnectNext

namespace Session

/-- `DIRECTC2C_ADDRLIST` is handled, and the client connects at once. -/
def Connects (s : Session) : Prop :=
  s.chn.config ≠ .disabled ∧
    (s.chn.directState = .inactive ∨ s.chn.directState = .waitingIncoming) ∧
    (s.outgoing ∨ s.chn.config = .connectOnly)

instance (s : Session) : Decidable s.Connects :=
  inferInstanceAs (Decidable (_ ∧ (_ ∨ _) ∧ (_ ∨ _)))

/-- `DIRECTC2C_FAILED` is handled: the callee connects instead. -/
def ConnectsInstead (s : Session) : Prop :=
  s.chn.directState = .waitingIncoming ∧ s.chn.config ≠ .disabled ∧ s.outgoing = false

instance (s : Session) : Decidable s.ConnectsInstead :=
  inferInstanceAs (Decidable (_ ∧ _ ∧ _))

/-- There is memory for the list, and it is empty or begins with an IPv4 address; the peer
asks the callee to connect only if its list has another IPv4 address. -/
def Addressed (s : Session) : SessionEvent → Prop
  | .frame env f =>
      (byteAt f 0 = Proto.DIRECTC2C_ADDRLIST → s.Connects →
        env.calloc ∧ env.malloc ∧ (load16 f 2 ≤ 2 ∨ byteAt f 4 = Proto.DIRECTC2C_IPV4)) ∧
      (byteAt f 0 = Proto.DIRECTC2C_FAILED → s.ConnectsInstead → s.direct.any (·.HasNext))
  | _ => True

instance (s : Session) (e : SessionEvent) : Decidable (s.Addressed e) :=
  match e with
  | .frame env f => inferInstanceAs (Decidable
      ((byteAt f 0 = Proto.DIRECTC2C_ADDRLIST → s.Connects →
        env.calloc ∧ env.malloc ∧ (load16 f 2 ≤ 2 ∨ byteAt f 4 = Proto.DIRECTC2C_IPV4)) ∧
      (byteAt f 0 = Proto.DIRECTC2C_FAILED → s.ConnectsInstead → s.direct.any (·.HasNext))))
  | .start _ _ => .isTrue trivial
  | .poll _ => .isTrue trivial
  | .garbage => .isTrue trivial
  | .finish _ => .isTrue trivial
  | .listenerAdd _ => .isTrue trivial
  | .listenerConn _ _ _ => .isTrue trivial
  | .direct _ => .isTrue trivial
  | .app _ => .isTrue trivial
  | .close => .isTrue trivial

/-- The event reaches `directc2c_connect_next`, which reports that no address is left. -/
def RunsOut (s : Session) : SessionEvent → Prop
  | .frame env f =>
      (byteAt f 0 = Proto.DIRECTC2C_ADDRLIST ∧ s.Connects ∧ env.calloc ∧ env.malloc ∧
        { Direct.fresh with addrlist := some (f.drop 2) }.Exhausted env.connect) ∨
      (byteAt f 0 = Proto.DIRECTC2C_FAILED ∧ s.ConnectsInstead ∧
        ∃ d, s.direct = some d ∧ d.Exhausted env.connect)
  | .direct io =>
      ∃ u v d, s.processAccepted io = .ok u ∧ u.processFailedtoconnect io = .ok v ∧
        v.chn.directState = .connecting ∧ v.direct = some d ∧ d.state = .failed ∧
        d.Exhausted io.connect
  | _ => False

/-- The connection of a channel that is connecting has left its first state. -/
def Attempting (s : Session) : Prop :=
  s.chn.directState = .connecting →
    ∃ d, s.direct = some d ∧ d.state ≠ .new ∧ d.addrlist ≠ none

section Attempting

variable {s t : Session} {env : FrameEnv} {f : Frame} {r : Nat}

theorem Attempting.of_state (h : s.chn.directState ≠ .connecting) : Attempting s :=
  fun hconn => absurd hconn h

theorem Attempting.same
    (h : Attempting s) (hdirect : t.direct = s.direct)
    (hstate : t.chn.directState = .connecting → s.chn.directState = .connecting) :
    Attempting t := by
  intro hconn
  rw [hdirect]
  exact h (hstate hconn)

theorem Attempting.sameDirect
    (h : Attempting s) (hsame : SameDirect s t) :
    Attempting t :=
  h.same hsame.direct fun hconn => hsame.directState.symm.trans hconn

/-! ## Messages -/

/-- Messages that do not begin an attempt. -/
theorem FrameStep.attempting
    (hinv : Attempting s) (hstep : FrameStep env s f t)
    (hlist : byteAt f 0 ≠ Proto.DIRECTC2C_ADDRLIST) (hfailed : byteAt f 0 ≠ Proto.DIRECTC2C_FAILED) :
    Attempting t := by
  cases hstep with
  | msgutf8 chn _ _ hkept => exact hinv.sameDirect (.of_kept hkept rfl rfl rfl rfl rfl)
  | msgok => exact hinv.same rfl id
  | file chn c ret _ _ hkept => exact hinv.sameDirect (.of_kept hkept rfl rfl rfl rfl rfl)
  | completes chn st _ _ hdirect =>
      refine hinv.same rfl fun hconn => ?_
      rcases hdirect with rfl | rfl
      · exact hconn
      · cases hconn
  | differs chn _ _ _ hkept =>
      exact hinv.same rfl fun hconn => hkept.directState.symm.trans hconn
  | unlisted => exact hinv
  | listed d st hk => exact absurd hk hlist
  | failed d₀ d hk => exact absurd hk hfailed
  | switched => exact hinv.same rfl id

/-- The first item of the list in the message. -/
theorem hasNext_listed
    (hsize : ¬load16 f 2 ≤ 2) (hkind : byteAt f 4 = Proto.DIRECTC2C_IPV4) :
    { Direct.fresh with addrlist := some (f.drop 2) }.HasNext := by
  have hload : load16 (f.drop 2) 0 = load16 f 2 := by
    simp [load16]
  have hbyte : byteAt (f.drop 2) 2 = byteAt f 4 := by
    simp [byteAt]
  simp only [Direct.HasNext, Direct.fresh, Direct.nextPos, Option.any_some, if_true, hload, hbyte]
  exact decide_eq_true ⟨Nat.lt_of_not_le hsize, hkind⟩

theorem directListed_connects
    (hlater : ¬(s.outgoing = false ∧ s.chn.config = .allowIncoming))
    (h : s.directListed env f = .ok (t, r)) :
    ∃ d found,
      { Direct.fresh with addrlist := some (f.drop 2) }.connectNext env.connect = .ok (d, found) ∧
      t.direct = some d ∧
      t.chn.directState = if found then s.chn.directState else .failedToConnect := by
  rw [directListed] at h
  dsimp only at h
  rw [if_neg hlater] at h
  obtain ⟨⟨d, found⟩, hnext, hres⟩ := bind_eq_ok.mp h
  refine ⟨d, found, hnext, ?_⟩
  cases found with
  | true =>
      cases hres
      exact ⟨rfl, rfl⟩
  | false =>
      cases hres
      exact ⟨rfl, rfl⟩

/-- The handler of `DIRECTC2C_ADDRLIST` tries the first address. -/
theorem addrlist_connects
    (hs : s.Connects) (hcalloc : env.calloc = true) (hmalloc : env.malloc = true)
    (h : s.procmsgDIRECTC2CADDRLIST env f = .ok (t, r)) :
    ∃ d found,
      { Direct.fresh with addrlist := some (f.drop 2) }.connectNext env.connect = .ok (d, found) ∧
      t.direct = some d ∧
      t.chn.directState = if found then .connecting else .failedToConnect := by
  obtain ⟨hconf, hfree, hnow⟩ := hs
  have hbusy : ¬(s.chn.directState ≠ .inactive ∧ s.chn.directState ≠ .waitingIncoming) :=
    fun hne => hfree.elim hne.1 hne.2
  have hlater : ¬(s.outgoing = false ∧ s.chn.config = .allowIncoming) := by
    rintro ⟨hin, hallow⟩
    rcases hnow with hout | hconnect
    · exact absurd (hin.symm.trans hout) nofun
    · exact absurd (hallow.symm.trans hconnect) nofun
  rw [procmsgDIRECTC2CADDRLIST, if_neg hconf, if_neg hbusy] at h
  dsimp only at h
  rw [if_pos hnow, if_neg (by simp [hcalloc]), if_neg (by simp [hmalloc])] at h
  exact directListed_connects (s := s.setDirectState .connecting) hlater h

/-- Otherwise the state is not `CONNECTING`, or the message is refused. -/
theorem addrlist_waits
    (hs : ¬s.Connects) (h : s.procmsgDIRECTC2CADDRLIST env f = .ok (t, r)) :
    t = s ∨ t.chn.directState ≠ .connecting := by
  rw [procmsgDIRECTC2CADDRLIST] at h
  by_cases hconf : s.chn.config = .disabled
  · rw [if_pos hconf] at h
    cases h
    exact .inl rfl
  rw [if_neg hconf] at h
  by_cases hbusy : s.chn.directState ≠ .inactive ∧ s.chn.directState ≠ .waitingIncoming
  · rw [if_pos hbusy] at h
    cases h
    exact .inl rfl
  rw [if_neg hbusy] at h
  have hfree : s.chn.directState = .inactive ∨ s.chn.directState = .waitingIncoming := by
    by_contra hne
    exact hbusy (not_or.mp hne)
  have hstate : s.chn.directState ≠ .connecting := by
    rcases hfree with hst | hst
    · rw [hst]
      rintro ⟨⟩
    · rw [hst]
      rintro ⟨⟩
  have hnow : ¬(s.outgoing ∨ s.chn.config = .connectOnly) := fun hnow => hs ⟨hconf, hfree, hnow⟩
  obtain ⟨hin, hconnect⟩ := not_or.mp hnow
  have hlater : s.outgoing = false ∧ s.chn.config = .allowIncoming := by
    refine ⟨Bool.eq_false_iff.mpr hin, ?_⟩
    cases hc : s.chn.config with
    | disabled => exact absurd hc hconf
    | connectOnly => exact absurd hc hconnect
    | allowIncoming => rfl
  dsimp only at h
  rw [if_neg hnow, directListed] at h
  dsimp only at h
  rw [if_pos hlater] at h
  split_ifs at h
  · cases h
    exact .inr hstate
  · cases h
    exact .inr hstate
  · cases h
    exact .inr hstate

theorem addrlist_attempting
    (hinv : Attempting s) (hk : byteAt f 0 = Proto.DIRECTC2C_ADDRLIST)
    (hok : s.Addressed (.frame env f)) (h : s.procmsgDIRECTC2CADDRLIST env f = .ok (t, r)) :
    Attempting t := by
  by_cases hs : s.Connects
  · obtain ⟨hcalloc, hmalloc, hitem⟩ := hok.1 hk hs
    obtain ⟨d, found, hnext, hdirect, hstate⟩ := addrlist_connects hs hcalloc hmalloc h
    cases found with
    | false =>
        refine .of_state ?_
        rw [hstate]
        exact nofun
    | true =>
        have hsize : ¬load16 f 2 ≤ 2 := by
          intro hle
          have hload : load16 (f.drop 2) 0 = load16 f 2 := by
            simp [load16]
          simp [Direct.connectNext, Direct.fresh, Direct.nextPos, hload, hle] at hnext
        have hkind := hitem.resolve_left hsize
        obtain ⟨-, hnew⟩ := connectNext_hasNext (hasNext_listed hsize hkind) hnext
        obtain ⟨hlist, hsome, -⟩ := connectNext_list hnext
        exact fun _ => ⟨d, hdirect, hnew, hlist ▸ hsome⟩
  · rcases addrlist_waits hs h with rfl | hstate
    · exact hinv
    · exact .of_state hstate

/-- The handler of `DIRECTC2C_FAILED` begins an attempt, or the message is refused. -/
theorem failed_connects
    (h : s.procmsgDIRECTC2CFAILED env f = .ok (t, r)) :
    t = s ∧ ¬s.ConnectsInstead ∨
      s.ConnectsInstead ∧ ∃ d₀ d found, s.direct = some d₀ ∧
        d₀.connectNext env.connect = .ok (d, found) ∧ t.direct = some d := by
  rw [procmsgDIRECTC2CFAILED] at h
  split_ifs at h with hst hconf hout
  · cases h
    exact .inl ⟨rfl, fun hs => hst hs.1⟩
  · cases h
    exact .inl ⟨rfl, fun hs => hs.2.1 hconf⟩
  · cases h
    exact .inl ⟨rfl, fun hs => absurd (hs.2.2.symm.trans hout) (by rintro ⟨⟩)⟩
  · refine .inr ⟨⟨not_not.mp hst, hconf, Bool.eq_false_iff.mpr hout⟩, ?_⟩
    cases hd : s.direct with
    | none =>
        simp only [hd] at h
        cases h
    | some d₀ =>
        simp only [hd] at h
        obtain ⟨⟨d, found⟩, hnext, hres⟩ := bind_eq_ok.mp h
        cases hres
        exact ⟨d₀, d, found, rfl, hnext, rfl⟩

theorem failed_attempting
    (hinv : Attempting s) (hk : byteAt f 0 = Proto.DIRECTC2C_FAILED)
    (hok : s.Addressed (.frame env f)) (h : s.procmsgDIRECTC2CFAILED env f = .ok (t, r)) :
    Attempting t := by
  rcases failed_connects h with ⟨rfl, -⟩ | ⟨hs, d₀, d, found, hd₀, hnext, hd⟩
  · exact hinv
  · have hitem := hok.2 hk hs
    rw [hd₀, Option.any_some] at hitem
    obtain ⟨-, hnew⟩ := connectNext_hasNext hitem hnext
    obtain ⟨hlist, hsome, -⟩ := connectNext_list hnext
    exact fun _ => ⟨d, hd, hnew, hlist ▸ hsome⟩

/-- With an address left the handler of `DIRECTC2C_FAILED` does not run out of them. -/
theorem failed_not_exhausted
    {d : Direct}
    (hk : byteAt f 0 = Proto.DIRECTC2C_FAILED) (hok : s.Addressed (.frame env f))
    (hs : s.ConnectsInstead) (hd : s.direct = some d) :
    ¬d.Exhausted env.connect := by
  rintro ⟨d', hnext⟩
  have hitem := hok.2 hk hs
  rw [hd, Option.any_some] at hitem
  exact absurd (connectNext_hasNext hitem hnext).1 nofun

/-- The identifiers in `c2c_messages` are different. -/
theorem c2cMessages_entry
    {m m' : MsgInfo (Except SessionFault Session)}
    (hm : m ∈ c2cMessages env) (hm' : m' ∈ c2cMessages env)
    (hid : m.msgid % 256 = m'.msgid % 256) : m = m' := by
  have hids : (c2cMessages env).map (fun m => m.msgid % 256) =
      [Proto.MSGUTF8, Proto.MSGOK, Proto.SENDFILEREQUEST, Proto.ACCEPTEDFILE, Proto.DENIEDFILE,
        Proto.FILEFRAGMENT, Proto.FILECONTROL, Proto.DIRECTC2C_ADDRLIST, Proto.DIRECTC2C_FAILED,
        Proto.DIRECTC2C_SWITCH, Proto.C2CCONNREQ, Proto.INITRESPOK, Proto.VERDIFFER] := rfl
  have hdistinct : ((c2cMessages env).map fun m => m.msgid % 256).Nodup := by
    rw [hids]
    decide
  exact List.inj_on_of_nodup_map hdistinct hm hm' hid

theorem c2cMessages_addrlist
    {m : MsgInfo (Except SessionFault Session)}
    (hm : m ∈ c2cMessages env) (hid : byteAt f 0 = m.msgid % 256)
    (hk : byteAt f 0 = Proto.DIRECTC2C_ADDRLIST) :
    m.msgprocfn = sessionFn (·.procmsgDIRECTC2CADDRLIST env) :=
  congrArg MsgInfo.msgprocfn <| c2cMessages_entry hm
    (List.mem_of_getElem? (show (c2cMessages env)[7]? = some _ from rfl)) (hid.symm.trans hk)

theorem c2cMessages_failed
    {m : MsgInfo (Except SessionFault Session)}
    (hm : m ∈ c2cMessages env) (hid : byteAt f 0 = m.msgid % 256)
    (hk : byteAt f 0 = Proto.DIRECTC2C_FAILED) :
    m.msgprocfn = sessionFn (·.procmsgDIRECTC2CFAILED env) :=
  congrArg MsgInfo.msgprocfn <| c2cMessages_entry hm
    (List.mem_of_getElem? (show (c2cMessages env)[8]? = some _ from rfl)) (hid.symm.trans hk)

/-- A message goes to its handler, and the channel is closed when the handler returns 0. -/
theorem frameC2c_handled
    (hsize : msggetsize f f.length (c2cMessages env) = f.length)
    (h : s.frameC2c env f = .ok t) :
    ∃ m u, m ∈ c2cMessages env ∧ byteAt f 0 = m.msgid % 256 ∧
      (m.msgprocfn (.ok s) f).1 = .ok u ∧ t.chn = u.chn ∧
      (t.closed = false → t = u ∧ (m.msgprocfn (.ok s) f).2 ≠ 0) := by
  obtain ⟨m, hm, hid, hcall⟩ := processmsg_entry hsize
  rw [frameC2c, hcall] at h
  obtain ⟨u, hu, hres⟩ := bind_eq_ok.mp h
  refine ⟨m, u, hm, hid, hu, ?_⟩
  by_cases hret : (m.msgprocfn (.ok s) f).2 = 0
  · rw [if_pos hret] at hres
    rcases finishC2c_ok hres with ⟨hok, -⟩ | ⟨c, -, hended⟩
    · cases hok
    · refine ⟨finishC2c_chn hres, fun hopen => ?_⟩
      cases hopen.symm.trans hended.closed
  · rw [if_neg hret] at hres
    cases hres
    exact ⟨rfl, fun _ => ⟨rfl, hret⟩⟩

/-- A message of the peer. -/
theorem frame_attempting
    (hinv : Attempting s) (hok : s.Addressed (.frame env f))
    (hsize : msggetsize f f.length (c2cMessages env) = f.length)
    (h : s.frameC2c env f = .ok t) (hopen : t.closed = false) :
    Attempting t := by
  obtain ⟨m, u, hm, hid, hu, -, hresult⟩ := frameC2c_handled hsize h
  obtain ⟨rfl, hret⟩ := hresult hopen
  by_cases hlist : byteAt f 0 = Proto.DIRECTC2C_ADDRLIST
  · rw [c2cMessages_addrlist hm hid hlist] at hu
    exact addrlist_attempting hinv hlist hok (sessionFn_ok hu)
  by_cases hfailed : byteAt f 0 = Proto.DIRECTC2C_FAILED
  · rw [c2cMessages_failed hm hid hfailed] at hu
    exact failed_attempting hinv hfailed hok (sessionFn_ok hu)
  rcases c2cMessages_ok hm hid hu with hstep | ⟨hzero, -⟩
  · exact hstep.attempting hinv hlist hfailed
  · exact absurd hzero hret

/-- No address is left, and the channel is not connecting. -/
theorem frame_runsOut
    (hok : s.Addressed (.frame env f)) (hout : s.RunsOut (.frame env f))
    (hsize : msggetsize f f.length (c2cMessages env) = f.length)
    (h : s.frameC2c env f = .ok t) :
    t.chn.directState ≠ .connecting := by
  obtain ⟨m, u, hm, hid, hu, hchn, -⟩ := frameC2c_handled hsize h
  rw [hchn]
  rcases hout with ⟨hk, hs, hcalloc, hmalloc, d', hnone⟩ | ⟨hk, hs, d, hd, hnone⟩
  · rw [c2cMessages_addrlist hm hid hk] at hu
    obtain ⟨d, found, hnext, -, hstate⟩ := addrlist_connects hs hcalloc hmalloc (sessionFn_ok hu)
    obtain ⟨-, rfl⟩ := Prod.mk.inj (Except.ok.inj (hnext.symm.trans hnone))
    rw [hstate]
    exact nofun
  · exact absurd hnone (failed_not_exhausted hk hok hs hd)

/-! No handler uses a connection that is not there. -/

theorem sessionFn_spares
    {bad : SessionFault → Prop} {h : Session → Frame → Except SessionFault (Session × Nat)}
    (hh : Spares bad (h s f)) :
    Spares bad (sessionFn h (.ok s) f).1 := by
  rw [sessionFn]
  cases hr : h s f with
  | error e => exact spares_error (hh e hr)
  | ok v => exact spares_ok _

theorem established_spares
    {mem : Memory} :
    Spares (· = .nullPtr) (s.established mem) := by
  rw [established, sendDirectc2caddrlist]
  split
  · exact (push_spares (by rintro ⟨⟩)).bind fun _ _ => spares_ok _
  · exact spares_ok _

theorem procmsgC2CCONNREQ_spares : Spares (· = .nullPtr) (s.procmsgC2CCONNREQ env f) := by
  rw [procmsgC2CCONNREQ]
  split_ifs
  · exact spares_ok _
  · refine (push_spares (by rintro ⟨⟩)).bind ?_
    rintro ⟨u, mp⟩ -
    dsimp only
    split_ifs
    · exact established_spares.bind fun _ _ => spares_ok _
    · exact spares_ok _
  · refine (push_spares (by rintro ⟨⟩)).bind ?_
    rintro ⟨u, mp⟩ -
    dsimp only
    split_ifs
    · exact spares_ok _
    · exact spares_ok _

theorem procmsgINITRESPC2c_spares : Spares (· = .nullPtr) (s.procmsgINITRESPC2c env f) := by
  rw [procmsgINITRESPC2c]
  split_ifs
  · exact spares_ok _
  · exact spares_ok _
  · exact established_spares.bind fun _ _ => spares_ok _
  · exact spares_ok _

theorem procmsgMSGUTF8_spares : Spares (· = .nullPtr) (s.procmsgMSGUTF8 env f) := by
  rw [procmsgMSGUTF8]
  split_ifs
  · exact spares_ok _
  · exact (push_spares (by rintro ⟨⟩)).bind fun _ _ => spares_ok _

theorem procmsgFile_spares : Spares (· = .nullPtr) (s.procmsgFile env f) := by
  rw [procmsgFile]
  split
  · exact spares_error (by rintro ⟨⟩)
  · exact (withFile_spares (by rintro ⟨⟩)).bind fun _ _ => spares_ok _

theorem procmsgDIRECTC2CADDRLIST_spares :
    Spares (· = .nullPtr) (s.procmsgDIRECTC2CADDRLIST env f) := by
  have hlisted : ∀ u : Session, Spares (· = .nullPtr) (u.directListed env f) := by
    intro u
    rw [directListed]
    dsimp only
    split_ifs
    · exact spares_ok _
    · exact (connectNext_spares (Option.some_ne_none _)).bind fun _ _ => spares_ok _
  rw [procmsgDIRECTC2CADDRLIST]
  by_cases hconf : s.chn.config = .disabled
  · rw [if_pos hconf]
    exact spares_ok _
  rw [if_neg hconf]
  by_cases hbusy : s.chn.directState ≠ .inactive ∧ s.chn.directState ≠ .waitingIncoming
  · rw [if_pos hbusy]
    exact spares_ok _
  rw [if_neg hbusy]
  dsimp only
  generalize (if s.outgoing = true ∨ s.chn.config = .connectOnly then
    s.setDirectState .connecting else s) = u
  split_ifs
  · exact spares_ok _
  · exact spares_ok _
  · exact hlisted u

/-- The callee that is asked to connect has a list. -/
theorem procmsgDIRECTC2CFAILED_spares
    (hk : byteAt f 0 = Proto.DIRECTC2C_FAILED) (hok : s.Addressed (.frame env f)) :
    Spares (· = .nullPtr) (s.procmsgDIRECTC2CFAILED env f) := by
  rw [procmsgDIRECTC2CFAILED]
  split_ifs with hst hconf hout
  · exact spares_ok _
  · exact spares_ok _
  · exact spares_ok _
  · have hitem := hok.2 hk ⟨not_not.mp hst, hconf, Bool.eq_false_iff.mpr hout⟩
    obtain ⟨d, hd, hnext⟩ := (Option.any_eq_true _ _).mp hitem
    obtain ⟨l, hl, -⟩ := (Option.any_eq_true _ _).mp hnext
    rw [hd]
    refine (connectNext_spares ?_).bind fun _ _ => spares_ok _
    rw [hl]
    rintro ⟨⟩

theorem c2cMessages_spares
    {m : MsgInfo (Except SessionFault Session)}
    (hok : s.Addressed (.frame env f)) (hm : m ∈ c2cMessages env)
    (hid : byteAt f 0 = m.msgid % 256) :
    Spares (· = .nullPtr) (m.msgprocfn (.ok s) f).1 := by
  simp only [c2cMessages, List.mem_cons, List.not_mem_nil, or_false] at hm
  rcases hm with rfl | rfl | rfl | rfl | rfl | rfl | rfl | rfl | rfl | rfl | rfl | rfl | rfl
  · exact sessionFn_spares procmsgMSGUTF8_spares
  · exact sessionFn_spares (spares_ok _)
  · exact sessionFn_spares procmsgFile_spares
  · exact sessionFn_spares procmsgFile_spares
  · exact sessionFn_spares procmsgFile_spares
  · exact sessionFn_spares procmsgFile_spares
  · exact sessionFn_spares procmsgFile_spares
  · exact sessionFn_spares procmsgDIRECTC2CADDRLIST_spares
  · exact sessionFn_spares (procmsgDIRECTC2CFAILED_spares hid hok)
  · refine sessionFn_spares ?_
    rw [procmsgDIRECTC2CSWITCH]
    split_ifs
    · exact spares_ok _
    · exact spares_ok _
  · exact sessionFn_spares procmsgC2CCONNREQ_spares
  · exact sessionFn_spares procmsgINITRESPC2c_spares
  · exact sessionFn_spares procmsgINITRESPC2c_spares

theorem frameC2c_spares
    (hok : s.Addressed (.frame env f))
    (hsize : msggetsize f f.length (c2cMessages env) = f.length) :
    Spares (· = .nullPtr) (s.frameC2c env f) := by
  obtain ⟨m, hm, hid, hcall⟩ := processmsg_entry hsize
  rw [frameC2c, hcall]
  refine (c2cMessages_spares hok hm hid).bind fun u _ => ?_
  split_ifs
  · exact finishC2c_spares (by rintro ⟨⟩)
  · exact spares_ok _

end Attempting

/-! ## `process_directc2c` -/

section Direct

variable {s t : Session} {io : DirectIo} {d : Direct}

/-- No part of `process_directc2c` sets `CONNECTING`. -/
theorem DirectStep.not_connecting
    (h : DirectStep s t) (hstate : s.chn.directState ≠ .connecting) :
    t.chn.directState ≠ .connecting := by
  cases h with
  | same => exact hstate
  | dropped => exact hstate
  | taken => exact nofun
  | announced => exact nofun
  | gaveUp => exact nofun
  | moved d d' chn cs hconn => exact absurd hconn hstate
  | connected d d' chn hconn => exact absurd hconn hstate
  | exhausted => exact nofun
  | up => exact nofun

theorem processAccepted_attempting
    (hinv : Attempting s) (h : s.processAccepted io = .ok t) :
    Attempting t := by
  by_cases hconn : s.chn.directState = .connecting
  · have hskip : ∀ d : Direct, s.chn.directState ≠ .waitingIncoming ∨
        d.peerCert.bind PeerCert.id ≠ some s.peerId := by
      intro d
      rw [hconn]
      exact .inl nofun
    rw [processAccepted] at h
    split at h
    · cases h
      exact hinv
    · rename_i d _
      dsimp only at h
      rw [if_pos (hskip d)] at h
      split_ifs at h
      cases h
      exact hinv.same rfl id
  · exact .of_state ((processAccepted_ok h).not_connecting hconn)

theorem processFailedtoconnect_attempting
    (hinv : Attempting s) (h : s.processFailedtoconnect io = .ok t) :
    Attempting t := by
  by_cases hconn : s.chn.directState = .connecting
  · rw [processFailedtoconnect, if_pos (by rw [hconn]; rintro ⟨⟩)] at h
    cases h
    exact hinv
  · exact .of_state ((processFailedtoconnect_ok h).not_connecting hconn)

theorem directTlsDone_attempting
    (hlist : d.addrlist ≠ none) (h : s.directTlsDone io d = .ok t) :
    Attempting t := by
  rw [directTlsDone] at h
  dsimp only at h
  generalize verifyPeerCertCommon io.cert s.peerId io.answer = v at h
  obtain ⟨code, asked⟩ := v
  by_cases hcode : code = .ok
  · rw [if_neg (by simp [hcode])] at h
    obtain ⟨⟨u, sent⟩, -, hres⟩ := bind_eq_ok.mp h
    cases hres
    intro
    refine ⟨_, rfl, ?_, hlist⟩
    cases sent with
    | true => rintro ⟨⟩
    | false => rintro ⟨⟩
  · rw [if_pos hcode] at h
    cases h
    exact fun _ => ⟨_, rfl, (by rintro ⟨⟩), hlist⟩

/-- The connection moves on, and what it has become is not `NEW`. -/
theorem directSwitch_attempting
    (hnew : d.state ≠ .new) (hlist : d.addrlist ≠ none) (hd : s.direct = some d)
    (h : s.directSwitch io d = .ok t) :
    Attempting t := by
  have hsame : Attempting s := fun _ => ⟨d, hd, hnew, hlist⟩
  rw [directSwitch] at h
  cases hstate : d.state with
  | new => exact absurd hstate hnew
  | connecting =>
      simp only [hstate] at h
      split_ifs at h
      · cases h
        exact hsame
      · cases h
        refine fun _ => ⟨_, rfl, ?_, ?_⟩
        · rcases (startTls_ok io.ssl (d := d)).2.2 with hst | hst
          · exact hst ▸ hnew
          · rw [hst]
            rintro ⟨⟩
        · rw [Direct.startTls]
          dsimp only
          split_ifs
          · exact hlist
          · exact hlist
      · cases h
        exact fun _ => ⟨_, rfl, (by rintro ⟨⟩), hlist⟩
  | waitingTls =>
      simp only [hstate] at h
      split_ifs at h
      · cases h
        exact hsame
      · exact directTlsDone_attempting hlist h
      · cases h
        exact hsame
      · cases h
        exact fun _ => ⟨_, rfl, (by rintro ⟨⟩), hlist⟩
  | failed =>
      simp only [hstate] at h
      obtain ⟨⟨d', found⟩, hnext, hres⟩ := bind_eq_ok.mp h
      obtain ⟨hlist', -, hnew'⟩ := connectNext_list hnext
      cases found with
      | true =>
          cases hres
          exact fun _ => ⟨d', rfl, hnew' hnew, hlist' ▸ hlist⟩
      | false =>
          cases hres
          exact .of_state (by rintro ⟨⟩)
  | active =>
      simp only [hstate] at h
      cases h
      exact .of_state (by rintro ⟨⟩)

theorem processConnecting_attempting
    (hinv : Attempting s) (h : s.processConnecting io = .ok t) :
    Attempting t := by
  rw [processConnecting] at h
  by_cases hconn : s.chn.directState = .connecting
  · obtain ⟨d, hd, hnew, hlist⟩ := hinv hconn
    rw [if_neg (not_not.mpr hconn), hd] at h
    dsimp only at h
    split_ifs at h
    exact directSwitch_attempting hnew hlist hd h
  · rw [if_pos hconn] at h
    cases h
    exact hinv

/-- `process_directc2c` up to the connection of the channel. -/
theorem processDirectc2c_parts
    (hinv : Attempting s) (h : s.processDirectc2c io = .ok t) :
    ∃ u v, s.processAccepted io = .ok u ∧ u.processFailedtoconnect io = .ok v ∧
      v.processConnecting io = .ok t ∧ Attempting v := by
  obtain ⟨u, hu, hrest⟩ := bind_eq_ok.mp h
  obtain ⟨v, hv, hend⟩ := bind_eq_ok.mp hrest
  exact ⟨u, v, hu, hv, hend,
    processFailedtoconnect_attempting (processAccepted_attempting hinv hu) hv⟩

theorem direct_runsOut
    (hout : s.RunsOut (.direct io)) (h : s.processDirectc2c io = .ok t) :
    t.chn.directState ≠ .connecting := by
  obtain ⟨u, v, d, hu, hv, hconn, hd, hfailed, d', hnone⟩ := hout
  obtain ⟨u', hu', hrest⟩ := bind_eq_ok.mp h
  obtain rfl := Except.ok.inj (hu.symm.trans hu')
  obtain ⟨v', hv', hend⟩ := bind_eq_ok.mp hrest
  obtain rfl := Except.ok.inj (hv.symm.trans hv')
  have hfreed := (connectNext_ok hnone).1
  rw [processConnecting, if_neg (not_not.mpr hconn), hd] at hend
  dsimp only at hend
  rw [if_neg (by simp [hfreed]), directSwitch, hfailed] at hend
  obtain ⟨⟨e, found⟩, hnext, hres⟩ := bind_eq_ok.mp hend
  obtain ⟨-, rfl⟩ := Prod.mk.inj (Except.ok.inj (hnext.symm.trans hnone))
  cases hres
  rintro ⟨⟩

theorem sendDirectc2cSwitch_spares : Spares (· = .nullPtr) (s.sendDirectc2cSwitch io) := by
  rw [sendDirectc2cSwitch]
  split
  · exact spares_error (by rintro ⟨⟩)
  · exact spares_ok _

theorem processAccepted_spares : Spares (· = .nullPtr) (s.processAccepted io) := by
  have htake : ∀ (u : Session) (d : Direct), Spares (· = .nullPtr) (u.takeAccepted io d) := by
    intro u d
    rw [takeAccepted]
    split_ifs
    · exact spares_error (by rintro ⟨⟩)
    · refine sendDirectc2cSwitch_spares.bind fun r _ => ?_
      dsimp only
      split_ifs
      · exact spares_ok _
      · exact spares_error (by rintro ⟨⟩)
  rw [processAccepted]
  split
  · exact spares_ok _
  · dsimp only
    split_ifs
    · exact spares_ok _
    · exact spares_error (by rintro ⟨⟩)
    · exact htake _ _
    · exact htake _ _
    · exact spares_error (by rintro ⟨⟩)

theorem processFailedtoconnect_spares :
    Spares (· = .nullPtr) (s.processFailedtoconnect io) := by
  rw [processFailedtoconnect]
  split_ifs
  · exact spares_ok _
  · exact (push_spares (by rintro ⟨⟩)).bind fun _ _ => spares_ok _
  · exact spares_ok _

theorem directSwitch_spares
    (hlist : d.addrlist ≠ none) :
    Spares (· = .nullPtr) (s.directSwitch io d) := by
  have htls : Spares (· = .nullPtr) (s.directTlsDone io d) := by
    rw [directTlsDone]
    dsimp only
    split_ifs
    · exact spares_ok _
    · exact spares_ok _
    · exact sendDirectc2cSwitch_spares.bind fun _ _ => spares_ok _
    · exact sendDirectc2cSwitch_spares.bind fun _ _ => spares_ok _
  rw [directSwitch]
  cases d.state with
  | new => exact spares_ok _
  | connecting =>
      dsimp only
      split_ifs
      · exact spares_ok _
      · exact spares_ok _
      · exact spares_ok _
  | waitingTls =>
      dsimp only
      split_ifs
      · exact spares_ok _
      · exact htls
      · exact spares_ok _
      · exact spares_ok _
  | failed => exact (connectNext_spares hlist).bind fun _ _ => spares_ok _
  | active => exact spares_ok _

theorem processDirectc2c_spares
    (hinv : Attempting s) :
    Spares (· = .nullPtr) (s.processDirectc2c io) := by
  refine processAccepted_spares.bind fun u hu => processFailedtoconnect_spares.bind fun v hv => ?_
  have hv := processFailedtoconnect_attempting (processAccepted_attempting hinv hu) hv
  rw [processConnecting]
  split_ifs with hconn
  · exact spares_ok _
  · obtain ⟨d, hd, -, hlist⟩ := hv (not_not.mp hconn)
    rw [hd]
    dsimp only
    split_ifs
    · exact spares_error (by rintro ⟨⟩)
    · exact directSwitch_spares hlist

end Direct

/-! ## Runs -/

section Runs

variable {s t : Session} {e : SessionEvent}

theorem step_attempting
    (hinv : Attempting s) (hok : s.Addressed e) (hstep : sessionStep s e = some t)
    (hopen : t.closed = false) :
    Attempting t := by
  obtain ⟨-, hen, hhappens | hcloses⟩ := sessionStep_ok hstep
  · rw [sessionStep, if_pos hen] at hstep
    have hres : s.react e = .ok t := by
      cases hr : s.react e with
      | error => simp [hr, Except.toOption] at hstep
      | ok v =>
          simp only [hr, Except.toOption, Option.some.injEq] at hstep
          rw [hstep]
    cases hhappens with
    | start => exact hinv.same rfl id
    | poll io t hstage => exact hinv.sameDirect hstage.sameDirect
    | read io t hstage =>
        exact (hinv.sameDirect hstage.sameDirect).same rfl id
    | frame env f t =>
        obtain ⟨-, hwhen⟩ := Bool.and_eq_true_iff.mp hen
        simp only [Bool.and_eq_true] at hwhen
        exact frame_attempting hinv hok (by simpa using hwhen.2) hres hopen
    | finish => exact hinv.same rfl id
    | listenerAdd => exact hinv.same rfl id
    | listenerConn => exact hinv.same rfl id
    | direct io =>
        obtain ⟨u, v, -, -, hend, hv⟩ := processDirectc2c_parts hinv hres
        exact processConnecting_attempting hv hend
    | app a chn c _ hkept => exact hinv.sameDirect (.of_kept hkept rfl rfl rfl rfl rfl)
    | answer a t _ happ =>
        obtain ⟨chn, c, hkept, rfl⟩ := app_ok happ
        exact hinv.sameDirect (.of_kept hkept rfl rfl rfl rfl rfl)
  · cases hopen.symm.trans hcloses.closed

end Runs

/-- **An attempt is in progress while the channel is connecting**, in every run in which
every attempt has an address: in every state that is reached, a channel in `CONNECTING` has a
connection that is not `NEW`; neither the handler of a message nor `process_directc2c` uses a
connection that is not there; and the state is not `CONNECTING` after
`directc2c_connect_next` has reported that no address is left. -/
theorem attempt_in_progress
    {outgoing : Bool} {accId peerId : Id} {config : DirectConfig} {listener : Option (Nat × Nat)}
    {es : List SessionEvent} {s : Session}
    (hok : Meets sessionStep Addressed (init outgoing accId peerId config listener) es)
    (hrun : run sessionStep (init outgoing accId peerId config listener) es = some s)
    (hopen : s.closed = false) :
    (s.chn.directState = .connecting → ∃ d, s.direct = some d ∧ d.state ≠ .new) ∧
      (∀ env f, (SessionEvent.frame env f).enabled s = true → s.Addressed (.frame env f) →
        s.react (.frame env f) ≠ .error .nullPtr) ∧
      (∀ io, s.react (.direct io) ≠ .error .nullPtr) ∧
      ∀ e t, e.enabled s = true → s.Addressed e → s.RunsOut e → s.react e = .ok t →
        t.chn.directState ≠ .connecting := by
  have hstep : ∀ u e v, (u.closed = false → Attempting u) → u.Addressed e →
      sessionStep u e = some v → v.closed = false → Attempting v :=
    fun u e v hu haddr hs hv => step_attempting (hu (sessionStep_ok hs).1) haddr hs hv
  have hinit : (init outgoing accId peerId config listener).chn.directState ≠ .connecting := by
    simp [init, C2c.opened]
  have hinv : Attempting s := run_invariant hstep (fun _ => .of_state hinit) hok hrun hopen
  have hsize : ∀ {env f}, (SessionEvent.frame env f).enabled s = true →
      msggetsize f f.length (c2cMessages env) = f.length := by
    intro env f hen
    obtain ⟨-, hwhen⟩ := Bool.and_eq_true_iff.mp hen
    simp only [Bool.and_eq_true] at hwhen
    simpa using hwhen.2
  refine ⟨fun hconn => ?_, fun env f hen haddr hnull => ?_, fun io hnull => ?_, ?_⟩
  · obtain ⟨d, hd, hnew, -⟩ := hinv hconn
    exact ⟨d, hd, hnew⟩
  · exact frameC2c_spares haddr (hsize hen) _ hnull rfl
  · exact processDirectc2c_spares hinv _ hnull rfl
  · intro e t hen haddr hout hres
    cases e with
    | frame env f => exact frame_runsOut haddr hout (hsize hen) hres
    | direct io => exact direct_runsOut hout hres
    | start => exact absurd hout id
    | poll => exact absurd hout id
    | garbage => exact absurd hout id
    | finish => exact absurd hout id
    | listenerAdd => exact absurd hout id
    | listenerConn => exact absurd hout id
    | app => exact absurd hout id
    | close => exact absurd hout id

/-- A list with one item of a kind. -/
def listFrame (kind : UInt8) : Frame :=
  head Proto.DIRECTC2C_ADDRLIST ++ le16 7 ++ [kind, 127, 0, 0, 1, 0, 80]

def failedFrame : Frame :=
  shortFrame Proto.DIRECTC2C_FAILED 7 7

/-- The caller connects to the address of the callee. -/
theorem attempt_in_progress_caller :
    ∃ s, run sessionStep (caller .connectOnly)
        (setUp ++ received [initRespOk, listFrame 0xA0]) = some s ∧
      s.chn.directState = .connecting ∧ ∃ d, s.direct = some d ∧ d.state ≠ .new := by
  obtain ⟨s, hrun, hopen, hconn⟩ :
      ∃ s, run sessionStep (caller .connectOnly)
          (setUp ++ received [initRespOk, listFrame 0xA0]) = some s ∧
        s.closed = false ∧ s.chn.directState = .connecting :=
    run_ends (by decide +kernel)
  exact ⟨s, hrun, hconn, (attempt_in_progress (by decide +kernel) hrun hopen).1 hconn⟩

/-- The callee of a listener. -/
def listening : Session :=
  init false (Id.ofByte 1) (Id.ofByte 2) .allowIncoming (some (1, 80))

/-- The client is connecting, and there is no attempt. -/
def Stuck (s : Session) : Bool :=
  s.chn.directState = .connecting ∧ s.direct.any (·.state = .new)

/-- The callee that is asked to connect has no list, and uses a connection that is not there.
A list without an IPv4 address at its place leaves the client without an attempt, also when
the callee is asked to connect and when no address is left. -/
theorem attempt_without_address :
    (∃ s, run sessionStep listening (setUp ++ received [connReq 0 1] ++ [.poll readable]) = some s ∧
      (handle failedFrame).enabled s = true ∧ s.react (handle failedFrame) = .error .nullPtr) ∧
    (∃ s, run sessionStep (caller .connectOnly)
        (setUp ++ received [initRespOk, listFrame 0xA1]) = some s ∧
      s.closed = false ∧ s.Stuck = true) ∧
    ∃ s, run sessionStep listening
        (setUp ++ received [connReq 0 1, head Proto.DIRECTC2C_ADDRLIST ++ [0, 0], failedFrame]) =
          some s ∧
      s.closed = false ∧ s.Stuck = true :=
  ⟨run_ends (by decide +kernel), run_ends (by decide +kernel), run_ends (by decide +kernel)⟩

end Session
end Client
end PicaPica
