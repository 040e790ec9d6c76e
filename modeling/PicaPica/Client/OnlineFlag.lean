import PicaPica.Lib.Run
import PicaPica.Client.LinkLists

/-!
# The flag that tells whether the client is online

`self_aware` is set exactly when there is an active link, until the last connecting link fails
while another link is active: `nodelink_failed` takes that for the loss of the connection.
-/

namespace PicaPica

open Machine

namespace Client

namespace SkyNet

/-- The flag tells the truth. -/
def Truthful (s : SkyNet) : Prop :=
  s.selfAware = true ↔ ∃ c2n, s.activeNodelink = some c2n ∧ s.links c2n = some .connected

/-- What the flag, the pointer and the lists of links have to do with each other. -/
structure Linked (s : SkyNet) : Prop where
  online : s.selfAware = s.activeNodelink.isSome
  active : ∀ c2n, s.activeNodelink = some c2n →
    s.links c2n = some .connected ∧ c2n ∉ s.connectedNodesToClose
  connecting : ∀ e ∈ s.connectingNodes, s.links e.1 = some .connecting
  distinct : (s.connectingNodes.map Prod.fst).Nodup
  toClose : ∀ c2n ∈ s.connectedNodesToClose, s.links c2n ≠ some .connecting
  idle : s.todo = none → s.connectedNodesToClose = []

variable {s t : SkyNet} {c2n : C2n} {rest : List C2n}

theorem Linked.truthful (h : s.Linked) : s.Truthful := by
  rw [Truthful, h.online, Option.isSome_iff_exists]
  constructor
  · rintro ⟨c, hc⟩
    exact ⟨c, hc, (h.active c hc).1⟩
  · rintro ⟨c, hc, -⟩
    exact ⟨c, hc⟩

theorem Linked.start : Linked start where
  online := rfl
  active := by simp [SkyNet.start]
  connecting := by simp [SkyNet.start]
  distinct := by simp [SkyNet.start]
  toClose := by simp [SkyNet.start]
  idle _ := rfl

/-! ### The flag stays right -/

theorem Linked.listed (h : s.Linked) : s.Listed :=
  { h with }

theorem Linked.established
    (h : s.Linked) (hc : s.links c2n = some .connecting) (hbusy : s.todo ≠ none)
    (u : Queues) :
    Linked ({ s with links := Function.update s.links c2n (some .connected) }.nodelinkActivated
      c2n u) := by
  refine { h.listed.established hc hbusy u with online := ?_ }
  obtain ⟨sig, queues, heq⟩ := nodelinkActivated_eq
    { s with links := Function.update s.links c2n (some .connected) } c2n u
  rw [heq]
  dsimp only
  cases hself : s.selfAware with
  | true => rw [if_pos rfl, ← h.online, hself]
  | false => rfl

theorem Linked.closed
    (h : s.Linked) (hc : s.links c2n = some .connected) :
    Linked ((s.nodelinkClosed c2n).closeC2n c2n) := by
  have hok : s.activeNodelink = some c2n → s.selfAware = true := by
    intro hactive
    rw [h.online, hactive, Option.isSome_some]
  refine { h.listed.closed hc hok with online := ?_ }
  obtain ⟨sig, timer, heq⟩ := h.listed.nodelinkClosed_eq hc hok
  rw [heq, closeC2n]
  dsimp only
  split_ifs
  · rfl
  · exact h.online

theorem Linked.failed
    (h : s.Linked) (hc : s.links c2n = some .connecting)
    (hleft : s.selfAware = true → ∃ e ∈ s.connectingNodes, e.1 ≠ c2n) (code : Int) :
    Linked ((s.nodelinkFailed c2n code).closeC2n c2n) := by
  refine { h.listed.failed hc code with online := ?_ }
  obtain ⟨sig, timer, heq⟩ := nodelinkFailed_eq s c2n code
  have hself : (s.selfAware && !(s.connectingNodes.eraseP fun e => e.1 == c2n).isEmpty) =
      s.selfAware := by
    cases hs : s.selfAware with
    | false => rfl
    | true =>
        obtain ⟨e, he⟩ := hleft hs
        have hmem := (mem_erased h.distinct).mpr he
        rw [Bool.true_and, Bool.not_eq_true', List.isEmpty_eq_false_iff_exists_mem]
        exact ⟨e, hmem⟩
  rw [heq, hself]
  exact h.online

theorem Linked.join
    {opened : Bool} {nodes : List (NodeRecord × Option C2n)}
    (h : s.Linked) (hidle : s.todo = none) (hjoin : s.join opened nodes = some t) :
    t.Linked := by
  obtain ⟨hself, hactive, -⟩ := join_frame hjoin
  refine { h.listed.join hidle hjoin with online := ?_ }
  rw [hself, hactive]
  exact h.online

theorem Linked.exit (h : s.Linked) : Linked s.exit := by
  refine { h.listed.exit with online := ?_ }
  have honline := h.online
  unfold SkyNet.exit
  simp only [closeAll_eq, emit]
  cases hself : s.selfAware with
  | false =>
      rw [hself] at honline
      exact honline
  | true =>
      cases hactive : s.activeNodelink with
      | none =>
          rw [hself, hactive] at honline
          cases honline
      | some c2n => rfl

theorem Linked.closeConnected
    (h : s.Linked) :
    Linked { s.closeAll s.connectedNodesToClose with connectedNodesToClose := [], todo := none } := by
  refine { h.listed.closeConnected with online := ?_ }
  rw [closeAll_eq]
  exact h.online

/-! ### Runs -/

/-- When a connecting link fails while the client is online, another one is still
connecting. -/
def FailureAllowed (s : SkyNet) : Event → Prop
  | .process (.error _) =>
      ∀ c2n ∈ s.todo.bind List.head?, s.links c2n = some .connecting → s.selfAware = true →
        ∃ e ∈ s.connectingNodes, e.1 ≠ c2n
  | _ => True

theorem Linked.process
    {r : LinkResult} (h : s.Linked) (hbusy : s.todo ≠ none)
    (hok : ∀ code, r = .error code → s.links c2n = some .connecting → s.selfAware = true →
      ∃ e ∈ s.connectingNodes, e.1 ≠ c2n)
    (hstep : s.processC2n c2n r = some t) :
    t.Linked := by
  rcases processC2n_cases hstep with ⟨-, rfl⟩ | ⟨u, -, hc, rfl⟩ | ⟨u, -, hc, rfl⟩ |
    ⟨code, -, hc, rfl⟩ | ⟨code, rfl, hc, rfl⟩
  · exact h
  · exact h.established hc hbusy u
  · refine (h.established hc hbusy u).closed ?_
    obtain ⟨sig, queues, heq⟩ := nodelinkActivated_eq
      { s with links := Function.update s.links c2n (some .connected) } c2n u
    rw [heq]
    exact Function.update_self ..
  · exact h.closed hc
  · exact h.failed hc (hok code rfl hc) code

theorem Linked.step
    {e : Event} (h : s.Linked) (hok : s.FailureAllowed e) (hstep : s.step e = some t) :
    t.Linked := by
  cases e with
  | process r =>
      obtain ⟨c2n, rest, htodo, hprocess⟩ := step_process hstep
      have hbusy : Linked { s with todo := some rest } := { h.listed.busy with online := h.online }
      refine hbusy.process (Option.some_ne_none rest) ?_ hprocess
      rintro code rfl
      exact hok c2n (by simp [htodo])
  | join opened nodes =>
      simp only [SkyNet.step] at hstep
      split_ifs at hstep with hidle
      exact h.join hidle hstep
  | reconnect opened nodes =>
      simp only [SkyNet.step] at hstep
      split_ifs at hstep with hidle
      have htimer : Linked { s with reconnectTimer := false } := { h with }
      exact htimer.join hidle.1 hstep
  | eventLoop =>
      simp only [SkyNet.step] at hstep
      split_ifs at hstep
      cases hstep
      exact { h.listed.busy with online := h.online }
  | closeConnected =>
      simp only [SkyNet.step] at hstep
      split_ifs at hstep
      cases hstep
      exact h.closeConnected
  | exit =>
      simp only [SkyNet.step] at hstep
      split_ifs at hstep with hidle
      cases hstep
      exact h.exit

/-- A failure of the link that is handled next leaves the flag and the pointer if and
only if it is allowed. -/
theorem Linked.failure_iff
    {code : Int} (h : s.Linked) (hbusy : s.todo = some (c2n :: rest))
    (hc : s.links c2n = some .connecting) (hstep : s.step (.process (.error code)) = some t) :
    t.selfAware = s.selfAware ∧ t.activeNodelink = s.activeNodelink ↔
      s.FailureAllowed (.process (.error code)) := by
  simp only [SkyNet.step, hbusy, processC2n, hc, Option.some.injEq] at hstep
  obtain ⟨sig, timer, heq⟩ := nodelinkFailed_eq
    { s with todo := some rest } c2n code
  rw [heq] at hstep
  have hself : t.selfAware =
      (s.selfAware && !(s.connectingNodes.eraseP fun e => e.1 == c2n).isEmpty) := by
    rw [← hstep]
    rfl
  have hactive : t.activeNodelink = s.activeNodelink := by
    rw [← hstep]
    rfl
  have hleft : (s.connectingNodes.eraseP fun e => e.1 == c2n).isEmpty = false ↔
      ∃ e ∈ s.connectingNodes, e.1 ≠ c2n := by
    rw [List.isEmpty_eq_false_iff_exists_mem]
    exact exists_congr fun e => mem_erased h.distinct
  simp only [FailureAllowed, hbusy, Option.bind_some, List.head?_cons, Option.mem_def,
    Option.some.injEq, forall_eq', hc, true_imp_iff, ← hleft, hself, hactive, and_true]
  cases s.selfAware with
  | false => simp
  | true => simp

/-- **The online flag.**  As long as no connecting link fails that is the last one while
the client is online, the flag is set exactly when `active_nodelink` is an established
link that has not been closed; those are also the failures that leave the flag and
the pointer. -/
theorem self_aware_truthful
    {es : List Event}
    (hok : Meets step FailureAllowed start es) (hrun : run step start es = some s) :
    s.Truthful ∧
      ∀ c2n rest code t, s.todo = some (c2n :: rest) → s.links c2n = some .connecting →
        s.step (.process (.error code)) = some t →
        (t.selfAware = s.selfAware ∧ t.activeNodelink = s.activeNodelink ↔
          s.FailureAllowed (.process (.error code))) := by
  have h : s.Linked := run_invariant (fun _ _ _ h => h.step) Linked.start hok hrun
  exact ⟨h.truthful, fun _ _ _ _ hbusy => h.failure_iff hbusy⟩

instance (s : SkyNet) : ∀ e, Decidable (s.FailureAllowed e)
  | .process (.error _) =>
      inferInstanceAs (Decidable (∀ c2n ∈ s.todo.bind List.head?, _ → _ → ∃ e ∈ _, _))
  | .process .ok => .isTrue trivial
  | .process (.established _) => .isTrue trivial
  | .process (.establishedFailed _) => .isTrue trivial
  | .join .. => .isTrue trivial
  | .reconnect .. => .isTrue trivial
  | .eventLoop => .isTrue trivial
  | .closeConnected => .isTrue trivial
  | .exit => .isTrue trivial

theorem self_aware_truthful_two :
    ∃ s, run step start twoNodes = some s ∧ s.Truthful ∧ s.selfAware = true := by
  have hsome : (run step start twoNodes).isSome = true := by decide
  obtain ⟨s, hs⟩ := Option.isSome_iff_exists.mp hsome
  have hself : (run step start twoNodes).map selfAware = some true := by decide
  rw [hs] at hself
  exact ⟨s, hs, (self_aware_truthful (by decide) hs).1, by simpa using hself⟩

/-- The link to the other node fails: the first one is active, and the client takes
itself for offline. -/
theorem offline_with_active_link :
    ¬ ∀ es s, run step start es = some s → s.Truthful := by
  intro h
  have hsome : (run step start (twoNodes ++ [.process (.error errSock)])).isSome = true := by decide
  obtain ⟨s, hs⟩ := Option.isSome_iff_exists.mp hsome
  have hlinks : (run step start (twoNodes ++ [.process (.error errSock)])).map
      (fun s => (s.selfAware, s.activeNodelink, s.links 1)) =
      some (false, some 1, some .connected) := by
    decide
  rw [hs, Option.map_some, Option.some.injEq, Prod.mk.injEq, Prod.mk.injEq] at hlinks
  obtain ⟨hself, hactive, hlive⟩ := hlinks
  have htrue := (h _ s hs).mpr ⟨1, hactive, hlive⟩
  rw [hself] at htrue
  cases htrue

end SkyNet

end Client

end PicaPica
