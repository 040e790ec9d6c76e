import PicaPica.Client.SkyNet

/-!
# The lists of links to the nodes

A link in `connecting_nodes` is connecting and the active one is established, whatever
`self_aware` tells; every operation of `SkyNet` and of the event loop keeps it so, as long as
the active link fails only while the flag is set.
-/

namespace PicaPica

namespace Client

namespace SkyNet

variable {s t : SkyNet} {c2n : C2n} {rest : List C2n}

/-- What the pointer and the lists of links have to do with each other, whatever the flag
tells. -/
structure Listed (s : SkyNet) : Prop where
  active : ∀ c2n, s.activeNodelink = some c2n →
    s.links c2n = some .connected ∧ c2n ∉ s.connectedNodesToClose
  connecting : ∀ e ∈ s.connectingNodes, s.links e.1 = some .connecting
  distinct : (s.connectingNodes.map Prod.fst).Nodup
  toClose : ∀ c2n ∈ s.connectedNodesToClose, s.links c2n ≠ some .connecting
  idle : s.todo = none → s.connectedNodesToClose = []

theorem Listed.not_active
    (h : s.Listed) (hc : s.links c2n ≠ some .connected) : s.activeNodelink ≠ some c2n :=
  fun hactive => hc (h.active c2n hactive).1

theorem Listed.not_connecting
    (h : s.Listed) (hc : s.links c2n ≠ some .connecting) :
    ∀ e ∈ s.connectingNodes, e.1 ≠ c2n := by
  rintro e he rfl
  exact hc (h.connecting e he)

theorem Listed.busy (h : s.Listed) {todo : List C2n} : Listed { s with todo := some todo } where
  __ := h
  idle := by simp

theorem Listed.established
    (h : s.Listed) (hc : s.links c2n = some .connecting) (hbusy : s.todo ≠ none)
    (u : Queues) :
    Listed ({ s with links := Function.update s.links c2n (some .connected) }.nodelinkActivated
      c2n u) := by
  obtain ⟨sig, queues, heq⟩ := nodelinkActivated_eq
    { s with links := Function.update s.links c2n (some .connected) } c2n u
  rw [heq]
  have hne : ∀ c, s.activeNodelink = some c → c ≠ c2n := by
    rintro c hactive rfl
    exact h.not_active (by rw [hc]; nofun) hactive
  refine ⟨?_, ?_, distinct_erased h.distinct, ?_, fun hidle => absurd hidle hbusy⟩ <;>
    dsimp only
  · intro c hactive
    cases hself : s.selfAware with
    | true =>
        simp only [hself, if_true] at hactive ⊢
        obtain ⟨hlive, hkeep⟩ := h.active c hactive
        refine ⟨by rw [Function.update_of_ne (hne c hactive), hlive], ?_⟩
        simpa using ⟨hkeep, hne c hactive⟩
    | false =>
        simp only [hself, Bool.false_eq_true, if_false, Option.some.injEq] at hactive ⊢
        subst hactive
        refine ⟨Function.update_self .., ?_⟩
        rw [List.append_nil]
        intro hmem
        exact h.toClose _ hmem hc
  · intro e he
    obtain ⟨he, hother⟩ := (mem_erased h.distinct).mp he
    rw [Function.update_of_ne hother]
    exact h.connecting e he
  · intro c hmem
    by_cases hcc : c = c2n
    · subst hcc
      simp
    · rw [Function.update_of_ne hcc]
      refine h.toClose c ?_
      cases hself : s.selfAware with
      | true => simpa [hself, hcc] using hmem
      | false => simpa [hself] using hmem

/-- What is left when a link that is not active is closed. -/
theorem Listed.close
    (h : s.Listed) (hactive : s.activeNodelink ≠ some c2n)
    (hconnecting : ∀ e ∈ s.connectingNodes, e.1 ≠ c2n) :
    Listed (s.closeC2n c2n) := by
  refine ⟨?_, ?_, h.distinct, ?_, h.idle⟩ <;> dsimp only [closeC2n]
  · intro c hc
    have hne : c ≠ c2n := by
      rintro rfl
      exact hactive hc
    rw [Function.update_of_ne hne]
    exact h.active c hc
  · intro e he
    rw [Function.update_of_ne (hconnecting e he)]
    exact h.connecting e he
  · intro c hc
    by_cases hcc : c = c2n
    · subst hcc
      simp
    · rw [Function.update_of_ne hcc]
      exact h.toClose c hc

/-- What `nodelink_closed` does with an established link when the flag is right about it. -/
theorem Listed.nodelinkClosed_eq
    (h : s.Listed) (hc : s.links c2n = some .connected)
    (hok : s.activeNodelink = some c2n → s.selfAware = true) :
    ∃ sig timer, s.nodelinkClosed c2n =
      { s with
        activeNodelink := if s.activeNodelink = some c2n then none else s.activeNodelink
        selfAware := if s.activeNodelink = some c2n then false else s.selfAware
        reconnectTimer := timer
        signals := sig } := by
  rw [nodelinkClosed]
  by_cases hactive : s.activeNodelink = some c2n
  · rw [if_pos ⟨hok hactive, hactive⟩, if_pos hactive, if_pos hactive]
    exact ⟨_, true, rfl⟩
  · obtain ⟨sig, heq⟩ := takeConnecting_eq s c2n (fun s _ => s)
      fun s _ => ⟨s.signals, rfl⟩
    have hconnecting : ∀ e ∈ s.connectingNodes, e.1 ≠ c2n :=
      h.not_connecting (by rw [hc]; nofun)
    have herase : s.connectingNodes.eraseP (fun e => e.1 == c2n) = s.connectingNodes :=
      List.eraseP_of_forall_not fun e he => by simpa using hconnecting e he
    rw [if_neg fun hboth => hactive hboth.2, heq, herase, if_neg hactive, if_neg hactive]
    exact ⟨sig, s.reconnectTimer, rfl⟩

theorem Listed.closed
    (h : s.Listed) (hc : s.links c2n = some .connected)
    (hok : s.activeNodelink = some c2n → s.selfAware = true) :
    Listed ((s.nodelinkClosed c2n).closeC2n c2n) := by
  obtain ⟨sig, timer, heq⟩ := h.nodelinkClosed_eq hc hok
  rw [heq]
  refine Listed.close { h with active := ?_ } ?_ ?_ <;> dsimp only
  · intro c hactive
    split_ifs at hactive
    exact h.active c hactive
  · split_ifs with hactive
    · exact (Option.some_ne_none c2n).symm
    · exact hactive
  · exact h.not_connecting (by rw [hc]; nofun)

theorem Listed.failed
    (h : s.Listed) (hc : s.links c2n = some .connecting) (code : Int) :
    Listed ((s.nodelinkFailed c2n code).closeC2n c2n) := by
  obtain ⟨sig, timer, heq⟩ := nodelinkFailed_eq s c2n code
  rw [heq]
  refine Listed.close ⟨h.active, ?_, distinct_erased h.distinct, h.toClose, h.idle⟩ ?_ ?_
  · intro e he
    exact h.connecting e ((mem_erased h.distinct).mp he).1
  · exact h.not_active (by rw [hc]; nofun)
  · intro e he
    exact ((mem_erased h.distinct).mp he).2

/-- Closing the connecting links. -/
theorem Listed.closeConnecting
    (h : s.Listed) :
    Listed { s.closeAll (s.connectingNodes.map Prod.fst) with connectingNodes := [] } := by
  rw [closeAll_eq]
  refine ⟨?_, by simp, List.nodup_nil, ?_, h.idle⟩ <;> dsimp only
  · intro c hc
    obtain ⟨hlive, hkeep⟩ := h.active c hc
    refine ⟨?_, hkeep⟩
    rw [if_neg, hlive]
    intro hmem
    obtain ⟨e, he, rfl⟩ := List.mem_map.mp hmem
    rw [h.connecting e he] at hlive
    cases hlive
  · intro c hc
    split_ifs
    · simp
    · exact h.toClose c hc

/-- A link that is opened at a free address. -/
theorem Listed.connect
    (h : s.Listed) (hfree : s.links c2n = none) (hidle : s.todo = none)
    {nr : NodeRecord} :
    Listed { s with
      links := Function.update s.links c2n (some .connecting)
      connectingNodes := s.connectingNodes ++ [(c2n, nr)] } := by
  have hne : ∀ c, s.links c ≠ none → c ≠ c2n := by
    rintro c hc rfl
    exact hc hfree
  refine ⟨?_, ?_, ?_, by simp [h.idle hidle], h.idle⟩ <;> dsimp only
  · intro c hc
    obtain ⟨hlive, hkeep⟩ := h.active c hc
    rw [Function.update_of_ne (hne c (by simp [hlive]))]
    exact ⟨hlive, hkeep⟩
  · intro e he
    rcases List.mem_append.mp he with he | he
    · rw [Function.update_of_ne (hne _ (by simp [h.connecting e he]))]
      exact h.connecting e he
    · rw [List.mem_singleton.mp he]
      exact Function.update_self ..
  · rw [List.map_append, List.nodup_append]
    refine ⟨h.distinct, by simp, ?_⟩
    rintro a ha b hb rfl
    obtain ⟨e, he, rfl⟩ := List.mem_map.mp ha
    refine hne e.1 (by simp [h.connecting e he]) ?_
    simpa using hb

theorem Listed.join
    {opened : Bool} {nodes : List (NodeRecord × Option C2n)}
    (h : s.Listed) (hidle : s.todo = none) (hjoin : s.join opened nodes = some t) :
    t.Listed := by
  unfold SkyNet.join at hjoin
  dsimp only at hjoin
  split_ifs at hjoin
  · cases hjoin
    exact h
  · cases hjoin
    exact { h with }
  · have hopen : Listed { s with acc := true } := { h with }
    refine (connectAll_rule (P := fun u => u.Listed ∧ u.todo = none) ?_ ?_ ?_ hjoin).1
    · exact fun u nr alive hu => ⟨{ hu.1 with }, hu.2⟩
    · exact fun u c2n nr hu hfree => ⟨hu.1.connect hfree hu.2, hu.2⟩
    · refine ⟨hopen.closeConnecting, ?_⟩
      rw [closeAll_eq]
      exact hidle

/-- `Exit` closes the active link and those that are connecting. -/
theorem Listed.exit (h : s.Listed) : Listed s.exit := by
  have hoff : ∀ {u : SkyNet}, u.Listed →
      Listed ({ u.closeAll (u.connectingNodes.map Prod.fst) with
        connectingNodes := [] }.emit .lostSelfAwareness) :=
    fun hu => { hu.closeConnecting with }
  unfold SkyNet.exit
  cases s.selfAware with
  | false => exact hoff { h with }
  | true =>
      cases hactive : s.activeNodelink with
      | none => exact hoff { h with active := fun c hc => nomatch hactive.symm.trans hc }
      | some c2n =>
          have hgone : Listed { s with activeNodelink := none } :=
            { h with active := fun c hc => nomatch hc }
          have hconnecting : ∀ e ∈ s.connectingNodes, e.1 ≠ c2n :=
            h.not_connecting (by rw [(h.active c2n hactive).1]; nofun)
          exact hoff { hgone.close (Option.some_ne_none c2n).symm hconnecting with }

/-- After the call of `PICA_event_loop` the links that are not needed are closed. -/
theorem Listed.closeConnected
    (h : s.Listed) :
    Listed { s.closeAll s.connectedNodesToClose with connectedNodesToClose := [], todo := none } := by
  rw [closeAll_eq]
  refine ⟨?_, ?_, h.distinct, by simp, fun _ => rfl⟩ <;> dsimp only
  · intro c hc
    obtain ⟨hlive, hkeep⟩ := h.active c hc
    rw [if_neg hkeep]
    exact ⟨hlive, List.not_mem_nil⟩
  · intro e he
    rw [if_neg fun hmem => h.toClose _ hmem (h.connecting e he)]
    exact h.connecting e he

end SkyNet

end Client

end PicaPica
