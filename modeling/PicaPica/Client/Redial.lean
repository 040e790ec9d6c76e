import PicaPica.Client.ActiveLink
import PicaPica.Client.Reconnect

/-!
# Who is asked for again, and when

`reconnect_c2c` looks at `self_aware` and then calls `PICA_new_c2c` for the active link, which
needs an established one; `self_aware_has_link` is why that never refuses the request.  The
number in `c2c_reconnect_timeouts` says how many times in a row a peer could not be reached,
so at the multiples of 64 seconds every peer with a queue is asked for.
-/

namespace PicaPica

open Machine Backoff

namespace Client

/-! ### The link that requests are sent on -/

namespace SkyNet

/-- Two states that differ in the queues and in what has been told alone. -/
def SameLinks (a b : SkyNet) : Prop :=
  ∃ queues sig, b = { a with msgqueues := queues, signals := sig }

variable {a b c : SkyNet}

theorem SameLinks.refl : SameLinks a a :=
  ⟨a.msgqueues, a.signals, rfl⟩

theorem SameLinks.trans (h : SameLinks a b) (h' : SameLinks b c) : SameLinks a c := by
  obtain ⟨q, sig, rfl⟩ := h
  obtain ⟨q', sig', rfl⟩ := h'
  exact ⟨q', sig', rfl⟩

theorem SameLinks.usable (h : SameLinks a b) (ha : a.Usable) : b.Usable := by
  obtain ⟨q, sig, rfl⟩ := h
  exact { ha with }

/-- The first link that is established makes the client online. -/
theorem established_online
    {q : Queues} (hoff : a.selfAware = false)
    (hstep : a.step (.process (.established q)) = some b) :
    b.selfAware = true ∧ b.msgqueues = if a.msgqueues.isEmpty then q else a.msgqueues := by
  obtain ⟨c2n, rest, -, hprocess⟩ := step_process hstep
  rw [processC2n] at hprocess
  split_ifs at hprocess
  have hqueues := nodelinkActivated_msgqueues
    { a with todo := some rest, links := Function.update a.links c2n (some .connected) } c2n q
  obtain ⟨sig, queues, heq⟩ := nodelinkActivated_eq
    { a with todo := some rest, links := Function.update a.links c2n (some .connected) } c2n q
  rw [← Option.some.inj hprocess]
  refine ⟨by rw [heq], hqueues.trans ?_⟩
  simp [hoff]

end SkyNet

namespace App

variable {me : Id} {isEmptyMessage : Text → Bool} {a b : App} {peer : Id}

theorem sendMsg_sky
    {ptr : Nat} {msg : Text} {mem : Bool} (h : a.sendMsg ptr msg mem = some b) :
    b.sky = a.sky := by
  unfold sendMsg at h
  split_ifs at h
  rw [← Option.some.inj h]
  rfl

theorem newC2c_sky {r : Option (Nat × Bool)} : (a.newC2c peer r).1.sky = a.sky := by
  unfold newC2c
  split
  · split_ifs <;> rfl
  · rfl

theorem flushLoop_sky
    {ptr i : Nat} {mem : Nat → Bool} {msgs : List Text} :
    SkyNet.SameLinks a.sky (flushLoop ptr peer mem a i msgs).1.sky := by
  induction msgs generalizing a i with
  | nil => exact .refl
  | cons msg msgs ih =>
      rw [flushLoop]
      split
      next b hsend => exact sendMsg_sky hsend ▸ ih
      next => exact ⟨a.sky.msgqueues, _, rfl⟩

theorem flushQueues_sky
    {mem : Nat → Bool} : SkyNet.SameLinks a.sky (a.flushQueues peer mem).sky := by
  unfold flushQueues
  split_ifs
  · split
    · dsimp only
      split_ifs
      · exact flushLoop_sky.trans ⟨_, _, rfl⟩
      · exact flushLoop_sky.trans ⟨_, _, rfl⟩
    · exact .refl
  · exact .refl

theorem sendMessage_sky
    {msg : Text} {mem : Bool} {r : Option (Nat × Bool)} :
    SkyNet.SameLinks a.sky (a.sendMessage peer msg mem r).sky := by
  unfold sendMessage
  split
  · cases hsend : a.sendMsg _ msg mem with
    | none => exact ⟨_, _, rfl⟩
    | some b => exact sendMsg_sky hsend ▸ .refl
  · have hnew : SkyNet.SameLinks (a.newC2c peer r).1.sky
        ((a.newC2c peer r).1.setQueue peer [msg]).sky := ⟨_, _, rfl⟩
    rw [newC2c_sky] at hnew
    dsimp only
    split_ifs
    · exact ⟨_, _, rfl⟩
    · exact hnew
    · exact hnew.trans ⟨_, _, rfl⟩

/-- What happens on a channel. -/
def onChannel : App.Event → Bool
  | .opened .. => true
  | .accepted _ => true
  | .msgok _ => true
  | .closed _ => true
  | _ => false

/-- What happens on a channel leaves the links and the queues. -/
theorem onChannel_sky
    {x : App.Event} (hx : onChannel x = true) (hstep : a.step me isEmptyMessage x = some b) :
    b.sky = a.sky := by
  cases x with
  | opened conn peer ptr =>
      simp only [App.step] at hstep
      split_ifs at hstep
      cases hstep
      rfl
  | accepted ptr =>
      simp only [App.step] at hstep
      split at hstep
      · split at hstep
        · cases hstep
          rfl
        · cases hstep
      · cases hstep
  | msgok ptr =>
      simp only [App.step] at hstep
      split at hstep
      · split_ifs at hstep
        cases hstep
        rfl
      · cases hstep
  | closed ptr =>
      cases hstep
      rfl
  | _ => cases hx

/-- Among what happens to the application only what happens to the links changes them. -/
theorem step_sky
    {x : App.Event} (hstep : a.step me isEmptyMessage x = some b) :
    (∃ y, a.sky.step y = some b.sky) ∨ SkyNet.SameLinks a.sky b.sky ∨ b.sky = .start := by
  have hchannel : onChannel x = true → SkyNet.SameLinks a.sky b.sky := by
    intro hx
    rw [onChannel_sky hx hstep]
    exact .refl
  cases x with
  | node y =>
      simp only [App.step] at hstep
      split_ifs at hstep
      obtain ⟨sky, hsky, rfl⟩ := Option.map_eq_some_iff.mp hstep
      exact .inl ⟨y, hsky⟩
  | typed peer msg stored mem made =>
      simp only [App.step] at hstep
      split_ifs at hstep
      all_goals cases hstep
      · exact .inr (.inl .refl)
      · exact .inr (.inl (sendMessage_sky (a := { a with history := _ })))
      · exact .inr (.inl sendMessage_sky)
  | established ptr mem =>
      simp only [App.step] at hstep
      split at hstep
      · cases hstep
        exact .inr (.inl (flushQueues_sky (a := a.modifyChan ptr _)))
      · cases hstep
  | opened conn peer ptr => exact .inr (.inl (hchannel rfl))
  | accepted ptr => exact .inr (.inl (hchannel rfl))
  | msgok ptr => exact .inr (.inl (hchannel rfl))
  | closed ptr => exact .inr (.inl (hchannel rfl))
  | restart =>
      cases hstep
      exact .inr (.inr rfl)

theorem usable_step
    {x : App.Event} (ha : a.sky.Usable) (hstep : a.step me isEmptyMessage x = some b) :
    b.sky.Usable := by
  rcases step_sky hstep with ⟨y, hy⟩ | hsame | hstart
  · exact ha.step hy
  · exact hsame.usable ha
  · rw [hstart]
    exact SkyNet.Linked.start.usable

end App

namespace Reconnecting

variable {me : Id} {isEmptyMessage : Text → Bool} {s u v : Reconnecting} {peer : Id} {made : Made}
  {t : Nat} {e : Event} {es : List Event}

/-- **The requests for channels are events of the application.** -/
theorem reconnecting_is_run
    (hrun : run (step me isEmptyMessage) start es = some s) :
    ∃ fs, run (App.step me isEmptyMessage) App.start fs = some s.app := by
  have hstep : ∀ q e r, (∃ fs, run (App.step me isEmptyMessage) App.start fs = some q.app) →
      True → step me isEmptyMessage q e = some r →
      ∃ fs, run (App.step me isEmptyMessage) App.start fs = some r.app := by
    rintro q e r ⟨fs, hfs⟩ - hstep
    obtain ⟨gs, hgs⟩ := step_run hstep
    exact ⟨fs ++ gs, by rw [run_after hfs, hgs]⟩
  exact run_invariant hstep ⟨[], rfl⟩ meets_true hrun

theorem usable_reachable
    (hrun : run (step me isEmptyMessage) start es = some s) : s.app.sky.Usable := by
  have hall : ∀ fs a, run (App.step me isEmptyMessage) App.start fs = some a → a.sky.Usable :=
    fun fs a => run_invariant (fun _ _ _ h _ => App.usable_step h) SkyNet.Linked.start.usable
      meets_true
  obtain ⟨fs, hfs⟩ := reconnecting_is_run hrun
  exact hall fs s.app hfs

/-- While the client is online, the request for a channel succeeds if there is memory. -/
theorem dialled_eq
    (h : s.app.sky.Usable) (hself : s.app.sky.selfAware = true) :
    ∃ c2n, s.app.sky.activeNodelink = some c2n ∧ ∀ p, dialled s.app made p =
      (made p).map fun r => ⟨r.1, c2n, p, false, [], 0, 0⟩ := by
  have hlinked := h.linked hself
  obtain ⟨c2n, hactive⟩ := Option.isSome_iff_exists.mp (hlinked.online ▸ hself)
  refine ⟨c2n, hactive, fun p => ?_⟩
  rw [dialled, hactive]
  cases made p with
  | none => rfl
  | some r => exact if_pos (hlinked.active c2n hactive).1

/-! ### A run -/

section Example

open App (alice bob blank)

/-- There is memory for each request, at this address. -/
def madeAt (ptr : Nat) : Made :=
  fun _ => some (ptr, true)

/-- A text is typed before there is a link to a node. -/
def typedOffline : List Event :=
  [.app (.typed bob [65] true true none), .node (.join true [(⟨"a", 2233⟩, some 1)]) 0 (madeAt 0),
    .node .eventLoop 0 (madeAt 0)]

def becomesActive : Event :=
  .node (.process (.established [(bob, [[65]])])) 0 (madeAt 1)

/-- The peer is not found on the node of the link that becomes active. -/
def notFound : List Event :=
  typedOffline ++ [becomesActive, .node .closeConnected 0 (madeAt 0), .notfound 1 bob]

def minute : List Event :=
  (List.range' 7 longest).map fun t => .timer t (madeAt 2)

end Example

/-! ### How long a peer waits -/

theorem updateC2cReconnectTimeout_timeouts :
    (s.updateC2cReconnectTimeout peer).c2cReconnectTimeouts =
      Function.update s.c2cReconnectTimeouts peer
        (some (next longest (s.c2cReconnectTimeouts peer))) := by
  have hmin : ∀ d : Nat, (if longest ≤ d then longest else d) = min d longest := by
    intro d
    split_ifs with hd
    · exact (Nat.min_eq_right hd).symm
    · exact (Nat.min_eq_left (Nat.le_of_not_le hd)).symm
  unfold updateC2cReconnectTimeout
  dsimp only
  rw [hmin]
  cases s.c2cReconnectTimeouts peer <;> rfl

/-- The link of the step gets as far as `nodelink_activated`. -/
def activates : SkyNet.Event → Bool
  | .process (.established _) => true
  | .process (.establishedFailed _) => true
  | _ => false

theorem afterNode_eq
    {aware : Bool} {x : SkyNet.Event} (h : s.afterNode aware t made x = some u) :
    ∃ cs, u = (if aware = false ∧ activates x then s.clearTimeouts else s).withChans cs := by
  have hkept : ∀ {q : Reconnecting}, some q = some u → ∃ cs, u = q.withChans cs :=
    fun hq => ⟨[], by rw [withChans_nil, Option.some.inj hq]⟩
  cases x with
  | process r =>
      cases r with
      | established q =>
          cases aware with
          | true => exact hkept h
          | false => exact reconnectC2c_frame (s := s.clearTimeouts) h
      | establishedFailed q =>
          cases aware with
          | true => exact hkept h
          | false => exact hkept h
      | ok => simpa [activates] using hkept h
      | error code => simpa [activates] using hkept h
  | join opened nodes => simpa [activates] using hkept h
  | reconnect opened nodes => simpa [activates] using hkept h
  | eventLoop => simpa [activates] using hkept h
  | closeConnected => simpa [activates] using hkept h
  | exit => simpa [activates] using hkept h

/-- The failures in a row for each peer after the event, when `n` were the failures before:
a channel that is established ends them for its peer, and for all peers a link that becomes
active. -/
def failuresAfter (s : Reconnecting) (n : Id → Nat) : Event → Id → Nat
  | .established ptr _ _ =>
      match Table.lookup Chan.ptr ptr s.app.chans with
      | some c => Function.update n c.peerId 0
      | none => n
  | .failed ptr =>
      match Table.lookup Chan.ptr ptr s.app.chans with
      | some c => Function.update n c.peerId (n c.peerId + 1)
      | none => n
  | .notfound _ peer => Function.update n peer (n peer + 1)
  | .node x _ _ => if s.app.sky.selfAware = false ∧ activates x then fun _ => 0 else n
  | .restart => fun _ => 0
  | _ => n

variable (me isEmptyMessage) in
/-- The failures in a row at the end of a run. -/
def failures : Reconnecting → (Id → Nat) → List Event → Id → Nat
  | _, n, [] => n
  | s, n, e :: es =>
      match step me isEmptyMessage s e with
      | some u => failures u (s.failuresAfter n e) es
      | none => n

/-- Every peer waits as long as its failures demand. -/
def Waits (s : Reconnecting) (n : Id → Nat) : Prop :=
  ∀ p, s.c2cReconnectTimeouts p = wait longest (n p)

theorem Waits.failed
    {n : Id → Nat} (h : s.Waits n) :
    (s.updateC2cReconnectTimeout peer).Waits (Function.update n peer (n peer + 1)) := by
  intro p
  rw [updateC2cReconnectTimeout_timeouts]
  by_cases hp : p = peer
  · subst hp
    rw [Function.update_self, Function.update_self, h p, next_wait]
  · rw [Function.update_of_ne hp, Function.update_of_ne hp]
    exact h p

theorem Waits.step
    {n : Id → Nat} (h : s.Waits n) (hstep : s.step me isEmptyMessage e = some u) :
    u.Waits (s.failuresAfter n e) := by
  cases e with
  | app x =>
      simp only [Reconnecting.step] at hstep
      split_ifs at hstep
      obtain ⟨b, hb, rfl⟩ := Option.map_eq_some_iff.mp hstep
      exact h
  | node x t made =>
      simp only [Reconnecting.step] at hstep
      obtain ⟨b, hb, hafter⟩ := Option.bind_eq_some_iff.mp hstep
      obtain ⟨cs, rfl⟩ := afterNode_eq hafter
      simp only [failuresAfter]
      split_ifs
      · exact fun _ => rfl
      · exact h
  | established ptr mem sent =>
      simp only [Reconnecting.step] at hstep
      cases hc : Table.lookup Chan.ptr ptr s.app.chans with
      | none => simp [hc] at hstep
      | some c =>
          simp only [hc] at hstep
          obtain ⟨b, hb, rfl⟩ := Option.map_eq_some_iff.mp hstep
          intro p
          rw [flushFileQueue_timeouts]
          simp only [failuresAfter, hc, resetC2cReconnectTimeout]
          by_cases hp : p = c.peerId
          · rw [hp, Function.update_self, Function.update_self]
            rfl
          · rw [Function.update_of_ne hp, Function.update_of_ne hp]
            exact h p
  | failed ptr =>
      simp only [Reconnecting.step] at hstep
      cases hc : Table.lookup Chan.ptr ptr s.app.chans with
      | none => simp [hc] at hstep
      | some c =>
          simp only [hc] at hstep
          obtain ⟨b, hb, rfl⟩ := Option.map_eq_some_iff.mp hstep
          simp only [failuresAfter, hc]
          exact Waits.failed h
  | notfound conn peer =>
      simp only [Reconnecting.step] at hstep
      split at hstep
      · obtain ⟨b, hb, rfl⟩ := Option.map_eq_some_iff.mp hstep
        exact Waits.failed (s := { s with app := b }) h
      · cases hstep
  | sendFile peer filepath r =>
      simp only [Reconnecting.step] at hstep
      split_ifs at hstep
      cases hstep
      intro p
      rw [sendFile_eq.1]
      exact h p
  | timer t made =>
      simp only [Reconnecting.step] at hstep
      split_ifs at hstep
      · obtain ⟨cs, rfl⟩ := reconnectC2c_frame hstep
        exact h
      · cases hstep
        exact h
  | restart =>
      simp only [Reconnecting.step] at hstep
      obtain ⟨b, hb, rfl⟩ := Option.map_eq_some_iff.mp hstep
      exact fun _ => rfl

/-- **The wait of a peer is the number of its failures.**  After `n + 1` failures in a row it
is 2 to the `n`, up to 64, and without a failure there is none. -/
theorem timeouts_count_failures
    (hrun : run (step me isEmptyMessage) start es = some s) :
    s.Waits (failures me isEmptyMessage start (fun _ => 0) es) := by
  have hall : ∀ {q : Reconnecting} {n : Id → Nat} {es : List Event}, q.Waits n →
      run (step me isEmptyMessage) q es = some s →
      s.Waits (failures me isEmptyMessage q n es) := by
    intro q n es hq hend
    induction es generalizing q n with
    | nil =>
        cases hend
        exact hq
    | cons e es ih =>
        obtain ⟨r, hr, hrest⟩ := run_cons hend
        rw [failures, hr]
        exact ih (hq.step hr) hrest
  exact hall (fun _ => rfl) hrun

section Example

open App (alice bob blank)

theorem timeouts_count_failures_one :
    ∃ s, run (step alice blank) start notFound = some s ∧
      s.c2cReconnectTimeouts bob = wait longest 1 := by
  obtain ⟨s, hs⟩ := Option.isSome_iff_exists.mp
    (show (run (step alice blank) start notFound).isSome = true by decide +kernel)
  have hcount : failures alice blank start (fun _ => 0) notFound bob = 1 := by decide +kernel
  exact ⟨s, hs, (timeouts_count_failures hs bob).trans (by rw [hcount])⟩

end Example

/-! ### Nobody is left out -/

/-- The second of a timer. -/
def tick : Event → Option Nat
  | .timer t _ => some t
  | _ => none

theorem tick_eq (h : tick e = some t) : ∃ made, e = .timer t made := by
  cases e with
  | timer t' made =>
      cases h
      exact ⟨made, rfl⟩
  | _ => cases h

theorem mem_asked
    {p : Id} :
    p ∈ s.asked t ↔ p ∈ s.queued ∧ s.app.hasChan p = false ∧
      due t (s.c2cReconnectTimeouts p) = true := by
  simp [asked]

/-- After the requests a peer that was due has a channel. -/
theorem asked_hasChan
    {p : Id} (h : s.app.sky.Usable) (hself : s.app.sky.selfAware = true) (hp : p ∈ s.queued)
    (hdue : due t (s.c2cReconnectTimeouts p) = true) (hmade : (made p).isSome = true) :
    (s.withChans ((s.asked t).filterMap (dialled s.app made))).app.hasChan p = true := by
  obtain ⟨c2n, hactive, hdialled⟩ := dialled_eq h hself
  cases hchan : s.app.hasChan p with
  | true =>
      rw [App.hasChan, withChans, List.any_append, Bool.or_eq_true]
      exact .inl hchan
  | false =>
      obtain ⟨r, hr⟩ := Option.isSome_iff_exists.mp hmade
      have hasked := mem_asked.mpr ⟨hp, hchan, hdue⟩
      rw [App.hasChan, List.any_eq_true]
      refine ⟨⟨r.1, c2n, p, false, [], 0, 0⟩, ?_, ?_⟩
      · refine List.mem_append_right _ (List.mem_filterMap.mpr ⟨p, hasked, ?_⟩)
        rw [hdialled, hr]
        rfl
      · simp [withChans, hactive]

/-- **What the timer does.**  While the client is online the timer requests one channel on the
active link for each peer that has a queue, has no channel on that link and is due in this
second, in the order of the identifiers; it changes nothing else. -/
theorem timer_dials
    (hrun : run (step me isEmptyMessage) start es = some s)
    (hself : s.app.sky.selfAware = true)
    (hstep : s.step me isEmptyMessage (.timer t made) = some u) :
    ∃ c2n, s.app.sky.activeNodelink = some c2n ∧
      u = s.withChans ((s.asked t).filterMap fun p =>
        (made p).map fun r => ⟨r.1, c2n, p, false, [], 0, 0⟩) ∧
      (s.asked t).Pairwise (fun i j => memcmp i.1 j.1 = .lt) ∧
      ∀ p, p ∈ s.asked t ↔ (∃ msgs, (p, msgs) ∈ s.app.sky.msgqueues ++ s.sndfilequeues) ∧
        (∀ c ∈ s.app.chans, c.conn = c2n → c.peerId ≠ p) ∧
        ∀ d ∈ s.c2cReconnectTimeouts p, d ∣ t := by
  simp only [step, hself, if_true] at hstep
  obtain ⟨c2n, hactive, hdialled⟩ := dialled_eq (usable_reachable hrun) hself
  refine ⟨c2n, hactive, ?_, ?_, ?_⟩
  · rw [reconnectC2c_eq hself hstep]
    congr 1
    exact List.filterMap_congr fun p _ => hdialled p
  · refine (queued_sorted.sublist List.filter_sublist).imp fun {i j} hlt => ?_
    exact memcmp_lt_iff.mpr hlt
  · intro p
    rw [mem_asked, mem_queued]
    refine and_congr Iff.rfl (and_congr ?_ ?_)
    · rw [App.hasChan, hactive, List.any_eq_false]
      refine forall₂_congr fun c _ => ?_
      simp only [Bool.and_eq_true, beq_iff_eq, Option.some.injEq, not_and, ne_eq]
      rw [eq_comm]
    · rw [due, Option.all_eq_true]
      simp [Nat.dvd_iff_mod_eq_zero]

section Example

open App (alice bob blank)

theorem timer_dials_found :
    ∃ s u c2n, run (step alice blank) start notFound = some s ∧
      s.step alice blank (.timer 7 (madeAt 2)) = some u ∧
      s.app.sky.activeNodelink = some c2n ∧ u.app.chans.length = 1 := by
  obtain ⟨s, hs, hself⟩ := (Option.any_eq_true _ _).mp
    (show (run (step alice blank) start notFound).any
      (fun s => s.app.sky.selfAware && (s.step alice blank (.timer 7 (madeAt 2))).any fun u =>
      u.app.chans.length == 1) = true by decide +kernel)
  obtain ⟨hself, hdial⟩ := Bool.and_eq_true_iff.mp hself
  obtain ⟨u, hu, hlen⟩ := (Option.any_eq_true _ _).mp hdial
  obtain ⟨c2n, hactive, -⟩ := timer_dials hs hself hu
  exact ⟨s, u, c2n, hs, hu, hactive, beq_iff_eq.mp hlen⟩

end Example

/-- **Nobody is left out for more than 64 seconds.**  Among the timers of 64 seconds in a row
is that of a second which 64 divides, and after it every peer with a queue has a channel on the
active link, if the client is online then and there is memory, whatever else happens in these
seconds. -/
theorem queued_peer_redialled
    {fs : List Event} (hrun : run (step me isEmptyMessage) start es = some s)
    (hfs : run (step me isEmptyMessage) s fs = some v)
    (hticks : fs.filterMap tick = List.range' t longest) :
    ∃ before t' made after q r, longest ∣ t' ∧ fs = before ++ .timer t' made :: after ∧
      run (step me isEmptyMessage) s before = some q ∧
      q.step me isEmptyMessage (.timer t' made) = some r ∧
      (q.app.sky.selfAware = true →
        ∀ p ∈ q.queued, (made p).isSome = true → r.app.hasChan p = true) := by
  obtain ⟨i, hi, hdvd⟩ := exists_dvd (show 0 < longest by decide) t
  have hmem : t + i ∈ fs.filterMap tick := by
    rw [hticks, List.mem_range'_1]
    exact ⟨Nat.le_add_right t i, Nat.add_lt_add_left hi t⟩
  obtain ⟨e, he, htick⟩ := List.mem_filterMap.mp hmem
  obtain ⟨made, rfl⟩ := tick_eq htick
  obtain ⟨before, after, rfl⟩ := List.append_of_mem he
  obtain ⟨q, hq, hrest⟩ := run_append hfs
  obtain ⟨r, hr, -⟩ := run_cons hrest
  refine ⟨before, t + i, made, after, q, r, hdvd, rfl, hq, hr, fun hself p hp hmade => ?_⟩
  have hreach : run (step me isEmptyMessage) start (es ++ before) = some q := by
    rw [run_after hrun, hq]
  simp only [step, hself, if_true] at hr
  rw [reconnectC2c_eq hself hr]
  refine asked_hasChan (usable_reachable hreach) hself hp ?_ hmade
  rw [timeouts_count_failures hreach p]
  exact due_wait hdvd

section Example

open App (alice bob blank)

theorem queued_peer_redialled_minute :
    ∃ s v, run (step alice blank) start notFound = some s ∧
      run (step alice blank) s minute = some v ∧
      ∃ before t' made after q r, longest ∣ t' ∧ minute = before ++ .timer t' made :: after ∧
        run (step alice blank) s before = some q ∧
        q.step alice blank (.timer t' made) = some r ∧
        (q.app.sky.selfAware = true →
          ∀ p ∈ q.queued, (made p).isSome = true → r.app.hasChan p = true) := by
  obtain ⟨s, hs, hminute⟩ := (Option.any_eq_true _ _).mp
    (show (run (step alice blank) start notFound).any
    (fun s => (run (step alice blank) s minute).isSome) = true by decide +kernel)
  obtain ⟨v, hv⟩ := Option.isSome_iff_exists.mp hminute
  exact ⟨s, v, hs, hv, queued_peer_redialled (t := 7) hs hv (by decide +kernel)⟩

end Example

/-! ### Coming online -/

/-- A peer that a text of the table waits for has a queue. -/
theorem undelivered_queued
    {rows : List HistoryRow} {q : Queues} {p : Id}
    (h : (∃ msgs, (p, msgs) ∈ q) ∨ ∃ r ∈ rows, r.contactId = p) :
    ∃ msgs, (p, msgs) ∈ rows.foldl
      (fun q r => q.set r.contactId (q.get r.contactId ++ [r.message])) q := by
  induction rows generalizing q with
  | nil =>
      rcases h with h | ⟨r, hr, -⟩
      · exact h
      · cases hr
  | cons d rows ih =>
      rw [List.foldl_cons]
      refine ih ?_
      by_cases hd : d.contactId = p
      · exact .inl ⟨_, List.mem_append_right _ (by rw [← hd]; exact List.mem_singleton_self _)⟩
      · rcases h with ⟨msgs, hmsgs⟩ | ⟨r, hr, hrp⟩
        · refine .inl ⟨msgs, List.mem_append_left _ (Table.mem_remove.mpr ⟨hmsgs, ?_⟩)⟩
          exact fun heq => hd heq.symm
        · rcases List.mem_cons.mp hr with rfl | hr
          · exact absurd hrp hd
          · exact .inr ⟨r, hr, hrp⟩

theorem getUndelivered_queued
    {h : History} {r : HistoryRow} (hr : r ∈ h.rows) (hme : r.accountId = me)
    (hisMe : r.isMe = true) (hwaits : r.isDelivered = false) :
    ∃ msgs, (r.contactId, msgs) ∈ h.getUndeliveredMessages me := by
  refine undelivered_queued (.inr ⟨r, ?_, rfl⟩)
  rw [HistoryRow.ordered, List.mem_insertionSort, List.mem_filter]
  exact ⟨hr, by simp [hme, hisMe, hwaits]⟩

/-- **Coming online.**  When a link becomes the active one, a channel is requested at once to
every peer that a queue waits for, and to every peer for which the table has a text that has
not been delivered if there were no queues. -/
theorem activated_dials
    {q : Queues} (hrun : run (step me isEmptyMessage) start es = some s)
    (hoff : s.app.sky.selfAware = false)
    (hstep : s.step me isEmptyMessage (.node (.process (.established q)) t made) = some u)
    (hmade : ∀ p, (made p).isSome = true) :
    u.app.sky.selfAware = true ∧ (∀ p ∈ u.queued, u.app.hasChan p = true) ∧
      (s.app.sky.msgqueues = [] → ∀ r ∈ s.app.history.rows, r.accountId = me → r.isMe = true →
        r.isDelivered = false → u.app.hasChan r.contactId = true) := by
  simp only [step] at hstep
  obtain ⟨b, hb, hafter⟩ := Option.bind_eq_some_iff.mp hstep
  have husable := App.usable_step (usable_reachable hrun) hb
  have hafter' : { s with app := b }.clearTimeouts.reconnectC2c t made = some u := by
    rw [← hafter, hoff]
    rfl
  simp only [App.step] at hb
  split_ifs at hb with hreads
  obtain ⟨sky, hsky, rfl⟩ := Option.map_eq_some_iff.mp hb
  obtain ⟨hself, hqueues⟩ := SkyNet.established_online hoff hsky
  have hall : ∀ p ∈ u.queued, u.app.hasChan p = true := by
    rw [reconnectC2c_eq hself hafter']
    intro p hp
    exact asked_hasChan (t := t) husable hself hp rfl (hmade p)
  refine ⟨?_, hall, fun hempty r hr hme hisMe hwaits => ?_⟩
  · obtain ⟨cs, rfl⟩ := reconnectC2c_frame hafter'
    exact hself
  · refine hall _ ?_
    obtain ⟨cs, rfl⟩ := reconnectC2c_frame hafter'
    obtain ⟨msgs, hmsgs⟩ := getUndelivered_queued hr hme hisMe hwaits
    rw [mem_queued]
    refine ⟨msgs, List.mem_append_left _ ?_⟩
    have hq : q = s.app.history.getUndeliveredMessages me := by simpa [App.readsHistory] using hreads
    show (r.contactId, msgs) ∈ sky.msgqueues
    rw [hqueues, hempty, hq]
    exact hmsgs

section Example

open App (alice bob blank)

theorem activated_dials_typed :
    ∃ s u, run (step alice blank) start typedOffline = some s ∧
      s.step alice blank becomesActive = some u ∧ u.app.hasChan bob = true := by
  obtain ⟨s, hs, hoff⟩ := (Option.any_eq_true _ _).mp
    (show (run (step alice blank) start typedOffline).any
    (fun s => !s.app.sky.selfAware && (s.step alice blank becomesActive).any fun u =>
      decide (bob ∈ u.queued)) = true by decide +kernel)
  obtain ⟨hoff, hdial⟩ := Bool.and_eq_true_iff.mp hoff
  obtain ⟨u, hu, hbob⟩ := (Option.any_eq_true _ _).mp hdial
  obtain ⟨-, hall, -⟩ := activated_dials hs (by simpa using hoff) hu fun _ => rfl
  exact ⟨s, u, hs, hu, hall bob (of_decide_eq_true hbob)⟩

end Example

end Reconnecting

end Client

end PicaPica
