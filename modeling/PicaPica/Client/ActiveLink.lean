import PicaPica.Client.OnlineFlag

/-!
# The link that a client takes itself to be online on

`nodelink_failed` clears `self_aware` when the last connecting link fails and leaves
`active_nodelink` as it is.  The functions that look at `self_aware` first do not notice:
while it is set, the pointer is to an established link that has not been closed, whatever
links have failed.  While it is not set no function of the links looks at the pointer, and
what it holds then makes no difference to them.
-/

namespace PicaPica

open Machine

namespace Client

namespace SkyNet

variable {s t : SkyNet} {c2n : C2n} {e : Event}

/-- The client with the pointer of another one. -/
def withActive (s : SkyNet) (active : Option C2n) : SkyNet :=
  { s with activeNodelink := active }

/-- The pointer as far as the functions look at it that look at `self_aware` first. -/
def usable (s : SkyNet) : Option C2n :=
  bif s.selfAware then s.activeNodelink else none

theorem usable_offline (hself : s.selfAware = false) : s.usable = none := by
  rw [usable, hself, cond_false]

theorem withActive_online (hself : s.selfAware = true) : s.withActive s.usable = s := by
  rw [usable, hself, cond_true]
  rfl

/-! ### A pointer that is not looked at -/

variable (s c2n) in
theorem takeConnecting_withActive
    (active : Option C2n) (report : SkyNet → NodeRecord → SkyNet)
    (h : ∀ s nr, report (s.withActive active) nr = (report s nr).withActive active) :
    (s.withActive active).takeConnecting c2n report =
      (s.takeConnecting c2n report).withActive active := by
  unfold takeConnecting
  rw [show (s.withActive active).connectingNodes = s.connectingNodes from rfl]
  split
  · rw [h]
    rfl
  · rfl

variable (c2n) in
theorem nodelinkActivated_withActive
    (hself : s.selfAware = false) (active : Option C2n) (u : Queues) :
    (s.withActive active).nodelinkActivated c2n u = s.nodelinkActivated c2n u := by
  unfold nodelinkActivated
  rw [takeConnecting_withActive s c2n active _ fun s nr => rfl]
  obtain ⟨sig, heq⟩ := takeConnecting_eq s c2n
    (fun s nr => s.nodeStatusChanged nr true) fun s nr => ⟨_, rfl⟩
  rw [heq]
  simp only [withActive, hself]
  rfl

variable (s c2n) in
/-- The queues that `nodelink_activated` loads are those of a client without any. -/
theorem nodelinkActivated_msgqueues
    (u : Queues) :
    (s.nodelinkActivated c2n u).msgqueues =
      if s.selfAware = false ∧ s.msgqueues = [] then u else s.msgqueues := by
  unfold nodelinkActivated
  obtain ⟨sig, heq⟩ := takeConnecting_eq s c2n
    (fun s nr => s.nodeStatusChanged nr true) fun s nr => ⟨_, rfl⟩
  rw [heq]
  cases s.selfAware with
  | true => rfl
  | false =>
      cases s.msgqueues with
      | nil => rfl
      | cons q queues => rfl

variable (c2n) in
theorem nodelinkClosed_withActive
    (hself : s.selfAware = false) (active : Option C2n) :
    (s.withActive active).nodelinkClosed c2n = (s.nodelinkClosed c2n).withActive active := by
  have hoff : ∀ u : SkyNet, u.selfAware = s.selfAware →
      ¬(u.selfAware = true ∧ u.activeNodelink = some c2n) := by
    intro u hu
    simp [hu, hself]
  unfold nodelinkClosed
  rw [if_neg (hoff s rfl), if_neg (hoff (s.withActive active) rfl)]
  exact takeConnecting_withActive s c2n active _ fun s nr => rfl

theorem protoMsg_withActive
    (active : Option C2n) (nr : NodeRecord) (code : Int) :
    (s.withActive active).protoMsg nr code = (s.protoMsg nr code).withActive active := by
  unfold protoMsg
  dsimp only
  split_ifs <;> rfl

theorem nodelinkFailed_withActive
    (active : Option C2n) (code : Int) :
    (s.withActive active).nodelinkFailed c2n code =
      (s.nodelinkFailed c2n code).withActive active := by
  unfold nodelinkFailed
  rw [takeConnecting_withActive s c2n active _ fun s nr => by rw [protoMsg_withActive]; rfl]
  dsimp only
  rw [show ∀ u : SkyNet, (u.withActive active).connectingNodes = u.connectingNodes from fun _ => rfl]
  split_ifs <;> rfl

theorem connectAll_withActive
    (active : Option C2n) (nodes : List (NodeRecord × Option C2n)) :
    (s.withActive active).connectAll nodes =
      (s.connectAll nodes).map fun t => t.withActive active := by
  induction nodes generalizing s with
  | nil => rfl
  | cons d rest ih =>
      obtain ⟨nr, result⟩ := d
      cases result with
      | none => exact ih (s := s.nodeStatusChanged nr false)
      | some c =>
          rw [connectAll, connectAll, show (s.withActive active).links = s.links from rfl]
          split_ifs
          · exact ih (s :=
              { s with
                links := Function.update s.links c (some .connecting)
                connectingNodes := s.connectingNodes ++ [(c, nr)] })
          · rfl

theorem join_withActive
    (active : Option C2n) (opened : Bool) (nodes : List (NodeRecord × Option C2n)) :
    (s.withActive active).join opened nodes =
      (s.join opened nodes).map fun t => t.withActive active := by
  unfold SkyNet.join
  rw [show (s.withActive active).acc = s.acc from rfl]
  dsimp only
  split_ifs
  · rfl
  · rfl
  · rw [← connectAll_withActive]
    simp only [closeAll_eq]
    rfl

theorem processC2n_offline
    {r : LinkResult} (hself : s.selfAware = false) (h : s.processC2n c2n r = some t) :
    (s.withActive none).processC2n c2n r = some (t.withActive t.usable) := by
  have hactivated := fun u : Queues => nodelinkActivated_withActive c2n
    (s := { s with links := Function.update s.links c2n (some .connected) }) hself none u
  rcases processC2n_cases h with ⟨rfl, rfl⟩ | ⟨u, rfl, hc, rfl⟩ | ⟨u, rfl, hc, rfl⟩ |
    ⟨code, rfl, hc, rfl⟩ | ⟨code, rfl, hc, rfl⟩
  · rw [usable_offline hself]
    rfl
  · have hon : ({ s with links := Function.update s.links c2n (some .connected) }.nodelinkActivated
        c2n u).selfAware = true := by
      obtain ⟨sig, queues, heq⟩ := nodelinkActivated_eq
        { s with links := Function.update s.links c2n (some .connected) } c2n u
      rw [heq]
    rw [withActive_online hon, ← hactivated u, processC2n]
    exact if_pos hc
  · -- the link that was made active is lost at once, and the pointer is null again
    have hoff : ∀ q : SkyNet, q.selfAware = true → q.activeNodelink = some c2n →
        ((q.nodelinkClosed c2n).closeC2n c2n).withActive
          ((q.nodelinkClosed c2n).closeC2n c2n).usable = (q.nodelinkClosed c2n).closeC2n c2n := by
      intro q hq hactive
      rw [nodelinkClosed, if_pos ⟨hq, hactive⟩]
      rfl
    obtain ⟨sig, queues, heq⟩ := nodelinkActivated_eq
      { s with links := Function.update s.links c2n (some .connected) } c2n u
    rw [hoff _ (by rw [heq]) (by rw [heq]; simp [hself]), ← hactivated u, processC2n]
    exact if_pos hc
  · have hclosed := nodelinkClosed_withActive c2n hself none
    obtain ⟨sig, heq⟩ := takeConnecting_eq s c2n (fun s _ => s) fun s nr => ⟨s.signals, rfl⟩
    have hoff : ((s.nodelinkClosed c2n).closeC2n c2n).selfAware = false := by
      rw [nodelinkClosed, if_neg fun hboth => Bool.false_ne_true (hself.symm.trans hboth.1), heq]
      exact hself
    rw [usable_offline hoff, processC2n, show (s.withActive none).links = s.links from rfl, hc]
    dsimp only
    rw [hclosed]
    rfl
  · obtain ⟨sig, timer, heq⟩ := nodelinkFailed_eq s c2n code
    have hoff : ((s.nodelinkFailed c2n code).closeC2n c2n).selfAware = false := by
      rw [heq]
      simp [closeC2n, hself]
    rw [usable_offline hoff, processC2n, show (s.withActive none).links = s.links from rfl, hc]
    dsimp only
    rw [nodelinkFailed_withActive]
    rfl

/-- While the flag is not set a step makes the same of any pointer, and one that sets the
flag sets the pointer. -/
theorem step_offline
    (hself : s.selfAware = false) (hstep : s.step e = some t) :
    (s.withActive none).step e = some (t.withActive t.usable) := by
  cases e with
  | process r =>
      obtain ⟨c2n, rest, htodo, hprocess⟩ := step_process hstep
      have hnext : (s.withActive none).step (.process r) =
          processC2n ({ s with todo := some rest }.withActive none) c2n r := by
        simp only [SkyNet.step]
        rw [show (s.withActive none).todo = some (c2n :: rest) from htodo]
        rfl
      rw [hnext]
      exact processC2n_offline hself hprocess
  | join opened nodes =>
      simp only [SkyNet.step] at hstep ⊢
      split_ifs at hstep with hidle
      rw [if_pos (show (s.withActive none).todo = none from hidle), join_withActive, hstep]
      obtain ⟨hflag, -⟩ := join_frame hstep
      rw [Option.map_some, usable, hflag, hself]
      rfl
  | reconnect opened nodes =>
      simp only [SkyNet.step] at hstep ⊢
      split_ifs at hstep with hidle
      obtain ⟨hflag, -⟩ := join_frame hstep
      refine (if_pos hidle).trans ?_
      refine (join_withActive (s := { s with reconnectTimer := false }) none opened nodes).trans ?_
      rw [hstep, Option.map_some, usable_offline (hflag.trans hself)]
  | eventLoop =>
      simp only [SkyNet.step] at hstep ⊢
      split_ifs at hstep with hidle
      cases hstep
      refine (if_pos hidle).trans ?_
      simp only [withActive, usable, hself, cond_false]
  | closeConnected =>
      simp only [SkyNet.step] at hstep ⊢
      split_ifs at hstep with hidle
      cases hstep
      rw [if_pos (show (s.withActive none).todo = some [] from hidle)]
      simp only [closeAll_eq, withActive, usable, hself, cond_false]
  | exit =>
      simp only [SkyNet.step] at hstep ⊢
      split_ifs at hstep with hidle
      cases hstep
      rw [if_pos (show (s.withActive none).todo = none from hidle)]
      simp only [SkyNet.exit, closeAll_eq, withActive, usable, hself, emit, cond_false]

/-! ### The pointer while it is looked at -/

/-- What the functions see that look at the flag first. -/
def Usable (s : SkyNet) : Prop :=
  (s.withActive s.usable).Linked

theorem Usable.linked (h : s.Usable) (hself : s.selfAware = true) : s.Linked := by
  rw [Usable, withActive_online hself] at h
  exact h

theorem Linked.usable (h : s.Linked) : s.Usable := by
  cases hself : s.selfAware with
  | true =>
      rw [Usable, withActive_online hself]
      exact h
  | false =>
      have hnone : s.activeNodelink = none := by
        rw [← Option.not_isSome_iff_eq_none, ← h.online, hself]
        exact Bool.false_ne_true
      rw [Usable, usable_offline hself, ← hnone]
      exact h

/-- The last connecting link may fail: then the flag is not set. -/
theorem Listed.usable
    (h : s.Listed) (hself : s.selfAware = true → s.activeNodelink.isSome) : s.Usable := by
  cases hflag : s.selfAware with
  | true => exact Linked.usable { h with online := hflag.trans (hself hflag).symm }
  | false =>
      rw [Usable, usable_offline hflag]
      exact { h with online := hflag, active := fun c hc => nomatch hc }

theorem Usable.failed
    {code : Int} (h : s.Linked) (hstep : s.step (.process (.error code)) = some t) : t.Usable := by
  obtain ⟨c2n, rest, -, hprocess⟩ := step_process hstep
  have hbusy : Linked { s with todo := some rest } := { h.listed.busy with online := h.online }
  rcases processC2n_cases hprocess with ⟨hr, -⟩ | ⟨u, hr, -, -⟩ | ⟨u, hr, -, -⟩ |
    ⟨_, hr, hc, rfl⟩ | ⟨_, hr, hc, rfl⟩
  · cases hr
  · cases hr
  · cases hr
  · exact (hbusy.closed hc).usable
  · refine (hbusy.listed.failed hc _).usable ?_
    obtain ⟨sig, timer, heq⟩ := nodelinkFailed_eq { s with todo := some rest } c2n code
    cases hr
    rw [heq]
    intro hself
    exact h.online ▸ (Bool.and_eq_true_iff.mp hself).1

theorem failureAllowed (herr : ∀ code, e ≠ .process (.error code)) : s.FailureAllowed e := by
  unfold FailureAllowed
  split
  · exact absurd rfl (herr _)
  · trivial

theorem Usable.step (h : s.Usable) (hstep : s.step e = some t) : t.Usable := by
  by_cases herr : ∃ code, e = .process (.error code)
  · obtain ⟨code, rfl⟩ := herr
    cases hself : s.selfAware with
    | true => exact Usable.failed (h.linked hself) hstep
    | false =>
        -- a failure does not lose a flag that is not set
        rw [Usable, usable_offline hself] at h
        refine Linked.step h ?_ (step_offline hself hstep)
        exact fun c _ _ hon => absurd (hself.symm.trans hon) Bool.false_ne_true
  · have hok := fun q : SkyNet => failureAllowed (s := q) fun code hcode => herr ⟨code, hcode⟩
    cases hself : s.selfAware with
    | true => exact ((h.linked hself).step (hok s) hstep).usable
    | false =>
        rw [Usable, usable_offline hself] at h
        exact Linked.step h (hok _) (step_offline hself hstep)

/-- **The link a client is online on.**  While `self_aware` is set, `active_nodelink` is an
established link that has not been closed and is not about to be, whichever links have failed. -/
theorem self_aware_has_link
    {es : List Event} (hrun : run step start es = some s) (hself : s.selfAware = true) :
    ∃ c2n, s.activeNodelink = some c2n ∧ s.links c2n = some .connected ∧
      c2n ∉ s.connectedNodesToClose := by
  have h : s.Usable :=
    run_invariant (fun _ _ _ h _ => h.step) Linked.start.usable meets_true hrun
  have hlinked := h.linked hself
  obtain ⟨c2n, hactive⟩ := Option.isSome_iff_exists.mp (hlinked.online ▸ hself)
  exact ⟨c2n, hactive, hlinked.active c2n hactive⟩

theorem self_aware_has_link_two :
    ∃ s c2n, run step start twoNodes = some s ∧ s.activeNodelink = some c2n ∧
      s.links c2n = some .connected := by
  obtain ⟨s, hs, hself⟩ := run_ends
    (show (run step start twoNodes).any (fun s => decide (s.selfAware = true)) = true by decide)
  obtain ⟨c2n, hactive, hlive, -⟩ := self_aware_has_link hs hself
  exact ⟨s, c2n, hs, hactive, hlive⟩

end SkyNet

end Client

end PicaPica
