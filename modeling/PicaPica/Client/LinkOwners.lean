import PicaPica.Lib.Run
import PicaPica.Client.LinkLists

/-!
# Who closes the links to the nodes

A link is in `connecting_nodes`, is the active one, or waits in `connected_nodes_to_close`; the
event loop closes a link that fails, `SkyNet` closes the others.  Two steps leave a pointer to
a link that has been closed: a link is reported as established while another one is active and
fails at once, so that it is closed again after the loop, and the active link fails while
`self_aware` does not tell that it is active.
-/

namespace PicaPica

open Machine

namespace Client
namespace SkyNet

/-- The links that are closed in a step, in order. -/
def closes (s : SkyNet) : Event → List C2n
  | .join opened nodes =>
      if (¬s.acc ∧ ¬opened) ∨ nodes.isEmpty then [] else s.connectingNodes.map Prod.fst
  | .reconnect opened nodes =>
      if (¬s.acc ∧ ¬opened) ∨ nodes.isEmpty then [] else s.connectingNodes.map Prod.fst
  | .eventLoop => []
  | .process r =>
      match s.todo, r with
      | some (c2n :: _), .establishedFailed _ => [c2n]
      | some (c2n :: _), .error _ => [c2n]
      | _, _ => []
  | .closeConnected => s.connectedNodesToClose
  | .exit =>
      (bif s.selfAware then s.activeNodelink.toList else []) ++ s.connectingNodes.map Prod.fst

/-- Every link in a container has not been freed, and is in one container only. -/
structure Owned (s : SkyNet) : Prop where
  connecting : ∀ e ∈ s.connectingNodes, s.links e.1 ≠ none
  active : ∀ c2n, s.activeNodelink = some c2n → s.links c2n ≠ none
  toClose : ∀ c2n ∈ s.connectedNodesToClose, s.links c2n ≠ none
  once : (s.connectingNodes.map Prod.fst ++ s.activeNodelink.toList ++
    s.connectedNodesToClose).Nodup

/-- A link that is established and fails at once is not one link too many, and when the active
link fails the flag tells that it is active. -/
def CloseAllowed (s : SkyNet) : Event → Prop
  | .process (.establishedFailed _) => s.selfAware = false
  | .process (.error _) =>
      ∀ c2n ∈ s.todo.bind List.head?, s.activeNodelink = some c2n → s.selfAware = true
  | _ => True

/-- The containers between two steps of the event loop. -/
structure Held (s : SkyNet) : Prop where
  connecting : ∀ e ∈ s.connectingNodes, s.links e.1 = some .connecting
  distinct : (s.connectingNodes.map Prod.fst).Nodup
  active : ∀ c2n, s.activeNodelink = some c2n →
    s.links c2n = some .connected ∧ c2n ∉ s.connectedNodesToClose
  toClose : ∀ c2n ∈ s.connectedNodesToClose, s.links c2n = some .connected
  distinctToClose : s.connectedNodesToClose.Nodup
  todo : ∀ l, s.todo = some l →
    l.Nodup ∧ ∀ c2n ∈ l, s.links c2n ≠ none ∧ c2n ∉ s.connectedNodesToClose
  idle : s.todo = none → s.connectedNodesToClose = []

variable {s t : SkyNet} {c2n : C2n} {rest : List C2n} {e : Event}

theorem Held.start : Held start where
  connecting := by simp [SkyNet.start]
  distinct := List.nodup_nil
  active := by simp [SkyNet.start]
  toClose := by simp [SkyNet.start]
  distinctToClose := List.nodup_nil
  todo := by simp [SkyNet.start]
  idle _ := rfl

theorem Held.listed (h : s.Held) : s.Listed :=
  { h with toClose := fun c hc => by rw [h.toClose c hc]; nofun }

/-- Between two calls of the event loop no link waits to be handled or closed. -/
theorem Listed.held (h : s.Listed) (hidle : s.todo = none) : s.Held := by
  have hnone : s.connectedNodesToClose = [] := h.idle hidle
  refine { h with toClose := ?_, distinctToClose := ?_, todo := ?_ }
  · rw [hnone]
    exact fun c hc => nomatch hc
  · rw [hnone]
    exact List.nodup_nil
  · exact fun l hl => nomatch hidle.symm.trans hl

theorem Held.owned (h : s.Held) : s.Owned := by
  have hlive : ∀ {c st}, s.links c = some st → s.links c ≠ none := by
    intro c st hc
    rw [hc]
    exact Option.some_ne_none st
  refine ⟨fun e he => hlive (h.connecting e he), fun c hc => hlive (h.active c hc).1,
    fun c hc => hlive (h.toClose c hc), ?_⟩
  have hconnecting : ∀ c ∈ s.connectingNodes.map Prod.fst, s.links c = some .connecting := by
    intro c hc
    obtain ⟨e, he, rfl⟩ := List.mem_map.mp hc
    exact h.connecting e he
  have hactive : ∀ c ∈ s.activeNodelink.toList, s.links c = some .connected ∧
      c ∉ s.connectedNodesToClose := by
    intro c hc
    exact h.active c (Option.mem_toList.mp hc)
  rw [List.nodup_append, List.nodup_append]
  refine ⟨⟨h.distinct, ?_, ?_⟩, h.distinctToClose, ?_⟩
  · cases s.activeNodelink with
    | none => exact List.nodup_nil
    | some c => exact List.nodup_singleton c
  · rintro c hc d hd rfl
    have hstate := hconnecting c hc
    rw [(hactive c hd).1] at hstate
    cases hstate
  · rintro c hc d hd rfl
    rcases List.mem_append.mp hc with hc | hc
    · have hstate := hconnecting c hc
      rw [h.toClose c hd] at hstate
      cases hstate
    · exact (hactive c hc).2 hd

/-! ### The links that the event loop handles -/

theorem Held.not_toClose
    (h : s.Held) (hc : s.links c2n ≠ some .connected) : c2n ∉ s.connectedNodesToClose :=
  fun hmem => hc (h.toClose c2n hmem)

/-- A link that is in no container is closed: what remains of the vectors. -/
theorem Held.closed_of_listed
    (h : s.Held) (hlisted : Listed (t.closeC2n c2n)) (hlinks : t.links = s.links)
    (hkept : t.connectedNodesToClose = s.connectedNodesToClose) (hleft : t.todo = s.todo)
    (htoClose : c2n ∉ s.connectedNodesToClose) (htodo : ∀ l, s.todo = some l → c2n ∉ l) :
    Held (t.closeC2n c2n) := by
  have hkeep : ∀ c, c ≠ c2n → (t.closeC2n c2n).links c = s.links c := by
    intro c hne
    rw [← hlinks]
    exact Function.update_of_ne hne _ _
  refine { hlisted with toClose := ?_, distinctToClose := ?_, todo := ?_ } <;>
    rw [show (t.closeC2n c2n).connectedNodesToClose = s.connectedNodesToClose from hkept]
  · intro c hc
    rw [hkeep]
    · exact h.toClose c hc
    · rintro rfl
      exact htoClose hc
  · exact h.distinctToClose
  · intro l hl
    rw [show (t.closeC2n c2n).todo = s.todo from hleft] at hl
    obtain ⟨hnd, hlive⟩ := h.todo l hl
    refine ⟨hnd, fun c hc => ?_⟩
    rw [hkeep]
    · exact hlive c hc
    · rintro rfl
      exact htodo l hl hc

theorem Held.established
    (h : s.Held) (hc : s.links c2n = some .connecting) (hbusy : s.todo ≠ none)
    (htodo : ∀ l, s.todo = some l → c2n ∉ l) (u : Queues) :
    Held ({ s with links := Function.update s.links c2n (some .connected) }.nodelinkActivated
      c2n u) := by
  have hlisted := h.listed.established hc hbusy u
  obtain ⟨sig, queues, heq⟩ := nodelinkActivated_eq
    { s with links := Function.update s.links c2n (some .connected) } c2n u
  rw [heq] at hlisted ⊢
  refine { hlisted with toClose := ?_, distinctToClose := ?_, todo := ?_ } <;> dsimp only
  · intro c hmem
    by_cases hcc : c = c2n
    · rw [hcc, Function.update_self]
    · rw [Function.update_of_ne hcc]
      refine h.toClose c ?_
      rcases List.mem_append.mp hmem with hmem | hmem
      · exact hmem
      · split_ifs at hmem
        · exact absurd (List.mem_singleton.mp hmem) hcc
        · cases hmem
  · split_ifs
    · refine List.nodup_append.mpr ⟨h.distinctToClose, List.nodup_singleton c2n, ?_⟩
      rintro c hmem d hd rfl
      rw [List.mem_singleton.mp hd] at hmem
      exact h.not_toClose (by rw [hc]; nofun) hmem
    · rw [List.append_nil]
      exact h.distinctToClose
  · intro l hl
    obtain ⟨hnd, hlive⟩ := h.todo l hl
    refine ⟨hnd, fun c hmem => ?_⟩
    have hne : c ≠ c2n := by
      rintro rfl
      exact htodo l hl hmem
    rw [Function.update_of_ne hne]
    refine ⟨(hlive c hmem).1, fun hin => ?_⟩
    rcases List.mem_append.mp hin with hin | hin
    · exact (hlive c hmem).2 hin
    · split_ifs at hin
      · exact hne (List.mem_singleton.mp hin)
      · cases hin

/-- An established link fails, and the flag is right about it. -/
theorem Held.closed
    (h : s.Held) (hc : s.links c2n = some .connected)
    (htoClose : c2n ∉ s.connectedNodesToClose) (htodo : ∀ l, s.todo = some l → c2n ∉ l)
    (hok : s.activeNodelink = some c2n → s.selfAware = true) :
    Held ((s.nodelinkClosed c2n).closeC2n c2n) := by
  have hlisted := h.listed.closed hc hok
  obtain ⟨sig, timer, heq⟩ := h.listed.nodelinkClosed_eq hc hok
  rw [heq] at hlisted ⊢
  exact h.closed_of_listed hlisted rfl rfl rfl htoClose htodo

theorem Held.failed
    (h : s.Held) (hc : s.links c2n = some .connecting)
    (htodo : ∀ l, s.todo = some l → c2n ∉ l) (code : Int) :
    Held ((s.nodelinkFailed c2n code).closeC2n c2n) := by
  have hlisted := h.listed.failed hc code
  obtain ⟨sig, timer, heq⟩ := nodelinkFailed_eq s c2n code
  rw [heq] at hlisted ⊢
  exact h.closed_of_listed hlisted rfl rfl rfl (h.not_toClose (by rw [hc]; nofun)) htodo

/-- The vector that `timerEvent` builds holds every link once. -/
theorem Held.eventLoop
    (h : s.Held) (hidle : s.todo = none) :
    Held { s with
      todo := some (s.connectingNodes.map Prod.fst ++
        bif s.selfAware then s.activeNodelink.toList else []) } := by
  have hnone : s.connectedNodesToClose = [] := h.idle hidle
  have hconnecting : ∀ c ∈ s.connectingNodes.map Prod.fst, s.links c = some .connecting := by
    intro c hc
    obtain ⟨e, he, rfl⟩ := List.mem_map.mp hc
    exact h.connecting e he
  have hactive : ∀ c ∈ bif s.selfAware then s.activeNodelink.toList else [],
      s.links c = some .connected := by
    intro c hc
    cases hself : s.selfAware with
    | true =>
        rw [hself] at hc
        exact (h.active c (Option.mem_toList.mp hc)).1
    | false =>
        rw [hself] at hc
        cases hc
  refine { h with todo := ?_, idle := fun hbusy => nomatch hbusy }
  rintro l ⟨⟩
  refine ⟨List.nodup_append.mpr ⟨h.distinct, ?_, ?_⟩, fun c hc => ⟨?_, ?_⟩⟩
  · cases s.selfAware with
    | false => exact List.nodup_nil
    | true =>
        cases s.activeNodelink with
        | none => exact List.nodup_nil
        | some c => exact List.nodup_singleton c
  · rintro c hc d hd rfl
    have hstate := hconnecting c hc
    rw [hactive c hd] at hstate
    cases hstate
  · rcases List.mem_append.mp hc with hc | hc
    · rw [hconnecting c hc]
      exact Option.some_ne_none _
    · rw [hactive c hc]
      exact Option.some_ne_none _
  · rw [hnone]
    exact List.not_mem_nil

/-! ### Steps -/

theorem Held.join
    {opened : Bool} {nodes : List (NodeRecord × Option C2n)}
    (h : s.Held) (hidle : s.todo = none) (hjoin : s.join opened nodes = some t) :
    t.Held :=
  (h.listed.join hidle hjoin).held ((join_frame hjoin).2.2.1.trans hidle)

/-- The link that is handled next is out of the vector. -/
theorem Held.next
    (h : s.Held) (hbusy : s.todo = some (c2n :: rest)) :
    Held { s with todo := some rest } ∧ c2n ∉ rest ∧
      s.links c2n ≠ none ∧ c2n ∉ s.connectedNodesToClose := by
  obtain ⟨hnd, hlive⟩ := h.todo _ hbusy
  obtain ⟨hnot, hrest⟩ := List.nodup_cons.mp hnd
  obtain ⟨hlink, hkeep⟩ := hlive c2n List.mem_cons_self
  refine ⟨{ h with todo := ?_, idle := fun hidle => nomatch hidle }, hnot, hlink, hkeep⟩
  rintro l ⟨⟩
  exact ⟨hrest, fun c hc => hlive c (List.mem_cons_of_mem c2n hc)⟩

theorem Held.process
    {r : LinkResult} (h : s.Held) (hbusy : s.todo = some (c2n :: rest))
    (hok : s.CloseAllowed (.process r))
    (hstep : processC2n { s with todo := some rest } c2n r = some t) :
    t.Held := by
  obtain ⟨hnext, hnot, -, hkeep⟩ := h.next hbusy
  have htodo : ∀ l, some rest = some l → c2n ∉ l := by
    rintro l ⟨⟩
    exact hnot
  rcases processC2n_cases hstep with ⟨-, rfl⟩ | ⟨u, -, hc, rfl⟩ | ⟨u, rfl, hc, rfl⟩ |
    ⟨code, rfl, hc, rfl⟩ | ⟨code, -, hc, rfl⟩
  · exact hnext
  · exact hnext.established hc (Option.some_ne_none rest) htodo u
  · have hoff : s.selfAware = false := hok
    have hactivated := hnext.established hc (Option.some_ne_none rest) htodo u
    obtain ⟨sig, queues, heq⟩ := nodelinkActivated_eq
      { s with
        todo := some rest
        links := Function.update s.links c2n (some .connected) } c2n u
    dsimp only at heq hactivated ⊢
    rw [heq] at hactivated ⊢
    refine hactivated.closed (Function.update_self _ _ _) ?_ htodo fun _ => rfl
    dsimp only
    rw [hoff, if_neg Bool.false_ne_true, List.append_nil]
    exact hkeep
  · have hflag : s.activeNodelink = some c2n → s.selfAware = true :=
      hok c2n (by rw [hbusy]; rfl)
    exact hnext.closed hc hkeep htodo hflag
  · exact hnext.failed hc htodo code

theorem Held.step (h : s.Held) (hok : s.CloseAllowed e) (hstep : s.step e = some t) : t.Held := by
  cases e with
  | process r =>
      obtain ⟨c2n, rest, htodo, hprocess⟩ := step_process hstep
      exact h.process htodo hok hprocess
  | join opened nodes =>
      simp only [SkyNet.step] at hstep
      split_ifs at hstep with hidle
      exact h.join hidle hstep
  | reconnect opened nodes =>
      simp only [SkyNet.step] at hstep
      split_ifs at hstep with hidle
      have htimer : Held { s with reconnectTimer := false } := { h with }
      exact htimer.join hidle.1 hstep
  | eventLoop =>
      simp only [SkyNet.step] at hstep
      split_ifs at hstep with hidle
      cases hstep
      exact h.eventLoop hidle.1
  | closeConnected =>
      simp only [SkyNet.step] at hstep
      split_ifs at hstep
      cases hstep
      exact h.listed.closeConnected.held rfl
  | exit =>
      simp only [SkyNet.step] at hstep
      split_ifs at hstep with hidle
      cases hstep
      exact h.listed.exit.held (exit_todo.trans hidle)

/-! ### What is closed -/

variable (s c2n) in
theorem nodelinkClosed_frame :
    (s.nodelinkClosed c2n).links = s.links ∧
      (s.nodelinkClosed c2n).connectedNodesToClose = s.connectedNodesToClose := by
  obtain ⟨sig, heq⟩ := takeConnecting_eq s c2n (fun s _ => s) fun s _ => ⟨s.signals, rfl⟩
  rw [nodelinkClosed]
  split_ifs
  · exact ⟨rfl, rfl⟩
  · rw [heq]
    exact ⟨rfl, rfl⟩

variable (s c2n) in
theorem nodelinkActivated_links (u : Queues) : (s.nodelinkActivated c2n u).links = s.links := by
  obtain ⟨sig, queues, heq⟩ := nodelinkActivated_eq s c2n u
  rw [heq]

theorem connectAll_live
    {nodes : List (NodeRecord × Option C2n)}
    (hall : s.connectAll nodes = some t) (hlive : s.links c2n ≠ none) :
    t.links c2n ≠ none := by
  refine connectAll_rule (P := fun u => u.links c2n ≠ none) ?_ ?_ hlive hall
  · exact fun u nr alive h => h
  · intro u c nr h _
    dsimp only
    by_cases hc : c2n = c
    · rw [hc, Function.update_self]
      exact Option.some_ne_none _
    · rw [Function.update_of_ne hc]
      exact h

theorem join_freed
    {opened : Bool} {nodes : List (NodeRecord × Option C2n)}
    (hjoin : s.join opened nodes = some t) (hlive : s.links c2n ≠ none)
    (hfreed : t.links c2n = none) :
    c2n ∈ if (¬s.acc ∧ ¬opened) ∨ nodes.isEmpty then [] else s.connectingNodes.map Prod.fst := by
  unfold SkyNet.join at hjoin
  dsimp only at hjoin
  split_ifs at hjoin with hacc hnodes
  · cases hjoin
    exact absurd hfreed hlive
  · cases hjoin
    exact absurd hfreed hlive
  · rw [if_neg (not_or.mpr ⟨hacc, hnodes⟩)]
    by_contra hnot
    refine connectAll_live hjoin ?_ hfreed
    rw [closeAll_eq]
    dsimp only
    rw [if_neg hnot]
    exact hlive

/-- A link that is freed in a step is one of those that are closed. -/
theorem step_freed
    (hstep : s.step e = some t) (hlive : s.links c2n ≠ none) (hfreed : t.links c2n = none) :
    c2n ∈ s.closes e := by
  have hclose : ∀ {u : SkyNet} {c}, (u.closeC2n c).links c2n = none → u.links c2n ≠ none →
      c2n = c := by
    intro u c hnone hsome
    by_contra hne
    have hsame : (u.closeC2n c).links c2n = u.links c2n := Function.update_of_ne hne _ _
    exact hsome (hsame.symm.trans hnone)
  cases e with
  | join opened nodes =>
      simp only [SkyNet.step] at hstep
      split_ifs at hstep
      exact join_freed hstep hlive hfreed
  | reconnect opened nodes =>
      simp only [SkyNet.step] at hstep
      split_ifs at hstep
      exact @join_freed { s with reconnectTimer := false } t c2n opened nodes hstep hlive hfreed
  | eventLoop =>
      simp only [SkyNet.step] at hstep
      split_ifs at hstep
      cases hstep
      exact absurd hfreed hlive
  | closeConnected =>
      simp only [SkyNet.step] at hstep
      split_ifs at hstep
      cases hstep
      rw [closeAll_eq] at hfreed
      by_contra hnot
      exact hlive ((if_neg hnot).symm.trans hfreed)
  | exit =>
      simp only [SkyNet.step] at hstep
      split_ifs at hstep
      cases hstep
      by_contra hnot
      rw [closes, List.mem_append, not_or] at hnot
      obtain ⟨hactive, hconnecting⟩ := hnot
      unfold SkyNet.exit at hfreed
      cases hself : s.selfAware with
      | false =>
          simp only [hself, closeAll_eq, emit] at hfreed
          exact hlive ((if_neg hconnecting).symm.trans hfreed)
      | true =>
          rw [hself] at hactive
          cases hlink : s.activeNodelink with
          | none =>
              simp only [hself, hlink, closeAll_eq, emit] at hfreed
              exact hlive ((if_neg hconnecting).symm.trans hfreed)
          | some c =>
              rw [hlink] at hactive
              simp only [hself, hlink, closeAll_eq, emit] at hfreed
              have hnone : (s.closeC2n c).links c2n = none :=
                (if_neg hconnecting).symm.trans hfreed
              obtain rfl := hclose hnone hlive
              exact hactive (Option.mem_toList.mpr rfl)
  | process r =>
      obtain ⟨c, rest, htodo, hprocess⟩ := step_process hstep
      rcases processC2n_cases hprocess with ⟨-, rfl⟩ | ⟨u, -, -, rfl⟩ | ⟨u, rfl, -, rfl⟩ |
        ⟨code, rfl, -, rfl⟩ | ⟨code, rfl, -, rfl⟩
      · exact absurd hfreed hlive
      · rw [nodelinkActivated_links] at hfreed
        dsimp only at hfreed
        by_cases hcc : c2n = c
        · rw [hcc, Function.update_self] at hfreed
          cases hfreed
        · rw [Function.update_of_ne hcc] at hfreed
          exact absurd hfreed hlive
      · simp only [closes, htodo, List.mem_singleton]
        by_contra hcc
        refine hcc (hclose hfreed ?_)
        rw [(nodelinkClosed_frame _ _).1, nodelinkActivated_links]
        dsimp only
        rw [Function.update_of_ne hcc]
        exact hlive
      · simp only [closes, htodo, List.mem_singleton]
        refine hclose hfreed ?_
        rw [(nodelinkClosed_frame _ _).1]
        exact hlive
      · simp only [closes, htodo, List.mem_singleton]
        refine hclose hfreed ?_
        obtain ⟨sig, timer, heq⟩ := nodelinkFailed_eq { s with todo := some rest } c code
        rw [heq]
        exact hlive

/-- **A step closes live links, and each of them once.** -/
theorem Held.closes_live
    (h : s.Held) (e : Event) :
    (s.closes e).Nodup ∧ ∀ c ∈ s.closes e, s.links c ≠ none := by
  have howned := h.owned
  have hconnecting : (s.connectingNodes.map Prod.fst).Nodup ∧
      ∀ c ∈ s.connectingNodes.map Prod.fst, s.links c ≠ none := by
    refine ⟨h.distinct, fun c hc => ?_⟩
    obtain ⟨d, hd, rfl⟩ := List.mem_map.mp hc
    exact howned.connecting d hd
  have hnil : ([] : List C2n).Nodup ∧ ∀ c ∈ ([] : List C2n), s.links c ≠ none :=
    ⟨List.nodup_nil, fun c hc => nomatch hc⟩
  cases e with
  | join opened nodes =>
      rw [closes]
      split_ifs
      · exact hnil
      · exact hconnecting
  | reconnect opened nodes =>
      rw [closes]
      split_ifs
      · exact hnil
      · exact hconnecting
  | eventLoop => exact hnil
  | closeConnected => exact ⟨h.distinctToClose, howned.toClose⟩
  | exit =>
      rw [closes]
      have hboth := howned.once.sublist (List.sublist_append_left _ _)
      cases s.selfAware with
      | false => exact hconnecting
      | true =>
          refine ⟨(List.perm_append_comm.nodup_iff).mp hboth, fun c hc => ?_⟩
          rcases List.mem_append.mp hc with hc | hc
          · exact howned.active c (Option.mem_toList.mp hc)
          · exact hconnecting.2 c hc
  | process r =>
      have hnext : ∀ c rest, s.todo = some (c :: rest) →
          [c].Nodup ∧ ∀ d ∈ [c], s.links d ≠ none := by
        refine fun c rest htodo => ⟨List.nodup_singleton c, fun d hd => ?_⟩
        rw [List.mem_singleton.mp hd]
        exact (h.next htodo).2.2.1
      unfold closes
      dsimp only
      split
      next c rest u htodo => exact hnext c rest htodo
      next c rest code htodo => exact hnext c rest htodo
      next => exact hnil

/-- **The two steps that leave a pointer to a closed link in a container.** -/
theorem Held.owned_iff
    (h : s.Held) (hstep : s.step e = some t) : t.Owned ↔ s.CloseAllowed e := by
  refine ⟨fun howned => ?_, fun hok => (h.step hok hstep).owned⟩
  cases e with
  | process r =>
      obtain ⟨c, rest, htodo, hprocess⟩ := step_process hstep
      cases r with
      | ok => trivial
      | established u => trivial
      | establishedFailed u =>
          rw [processC2n] at hprocess
          split_ifs at hprocess with hc
          cases hprocess
          by_contra hself
          have hself : s.selfAware = true := (Bool.not_eq_false s.selfAware).mp hself
          obtain ⟨sig, queues, heq⟩ := nodelinkActivated_eq
            { s with
              todo := some rest
              links := Function.update s.links c (some .connected) } c u
          dsimp only at heq howned
          refine howned.toClose c ?_ (Function.update_self _ _ _)
          rw [closeC2n]
          dsimp only
          rw [(nodelinkClosed_frame _ _).2, heq, hself, if_pos rfl]
          exact List.mem_append_right _ (List.mem_singleton_self c)
      | error code =>
          intro d hd hactive
          obtain rfl : c = d := by
            rw [htodo] at hd
            exact Option.some.inj hd
          have hconn := (h.active c hactive).1
          rw [processC2n] at hprocess
          simp only [hconn, Option.some.injEq] at hprocess
          subst hprocess
          by_contra hself
          refine howned.active c ?_ (Function.update_self _ _ _)
          obtain ⟨sig, heq⟩ := takeConnecting_eq { s with todo := some rest } c (fun s _ => s)
            fun s _ => ⟨s.signals, rfl⟩
          rw [nodelinkClosed, if_neg fun hboth => hself hboth.1, heq]
          exact hactive
  | join opened nodes => trivial
  | reconnect opened nodes => trivial
  | eventLoop => trivial
  | closeConnected => trivial
  | exit => trivial

/-- **Every link is closed once.**  As long as no established link fails at once that is one
too many, and the active link fails only while the flag tells that it is active, the containers
hold live links, each of them in one place, and a step closes live links only; those are also
the steps after which the containers do so. -/
theorem links_closed_once
    {es : List Event}
    (hok : Meets step CloseAllowed start es) (hrun : run step start es = some s) :
    s.Owned ∧ ∀ e t, s.step e = some t →
      (s.closes e).Nodup ∧ (∀ c2n ∈ s.closes e, s.links c2n ≠ none) ∧
        (t.Owned ↔ s.CloseAllowed e) := by
  have h : s.Held := run_invariant (fun _ _ _ h => h.step) Held.start hok hrun
  refine ⟨h.owned, fun e t hstep => ?_⟩
  obtain ⟨hnd, hlive⟩ := h.closes_live e
  exact ⟨hnd, hlive, h.owned_iff hstep⟩

instance (s : SkyNet) : ∀ e, Decidable (s.CloseAllowed e)
  | .process (.establishedFailed _) => inferInstanceAs (Decidable (s.selfAware = false))
  | .process (.error _) =>
      inferInstanceAs (Decidable (∀ c2n ∈ s.todo.bind List.head?, _ → s.selfAware = true))
  | .process .ok => .isTrue trivial
  | .process (.established _) => .isTrue trivial
  | .join .. => .isTrue trivial
  | .reconnect .. => .isTrue trivial
  | .eventLoop => .isTrue trivial
  | .closeConnected => .isTrue trivial
  | .exit => .isTrue trivial

theorem links_closed_once_two :
    ∃ s, run step start twoNodes = some s ∧ s.Owned ∧ s.selfAware = true := by
  obtain ⟨s, hs, hself⟩ := run_ends
    (show (run step start twoNodes).any (fun s => decide (s.selfAware = true)) = true by decide)
  exact ⟨s, hs, (links_closed_once (by decide) hs).1, hself⟩

/-- Both links are established in one call of the event loop, and the second one fails at
once. -/
def establishedTwice : List Event :=
  twoNodes ++ [.process (.establishedFailed [])]

/-- The other link fails while the first one is active, and then the active one. -/
def activeFails : List Event :=
  twoNodes ++ [.process .ok, .closeConnected, .eventLoop, .process (.error errSock),
    .process (.error errSock)]

theorem links_not_closed_once :
    (∃ s, run step start establishedTwice = some s ∧ ¬s.Owned ∧
      2 ∈ s.closes .closeConnected ∧ s.links 2 = none ∧ (s.step .closeConnected).isSome) ∧
    ∃ s, run step start activeFails = some s ∧ ¬s.Owned ∧
      s.activeNodelink = some 1 ∧ s.links 1 = none := by
  constructor
  · obtain ⟨s, hs, hmem, hfreed, hnext⟩ := run_ends
      (show (run step start establishedTwice).any (fun s => decide (
        2 ∈ s.connectedNodesToClose ∧ s.links 2 = none ∧ (s.step .closeConnected).isSome)) = true
        by decide)
    exact ⟨s, hs, fun howned => howned.toClose 2 hmem hfreed, hmem, hfreed, hnext⟩
  · obtain ⟨s, hs, hactive, hfreed⟩ := run_ends
      (show (run step start activeFails).any (fun s => decide (
        s.activeNodelink = some 1 ∧ s.links 1 = none)) = true by decide)
    exact ⟨s, hs, fun howned => howned.active 1 hactive hfreed, hactive, hfreed⟩

end SkyNet
end Client
end PicaPica
