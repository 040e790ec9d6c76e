import PicaPica.Node.LinkRecord
import PicaPica.Node.Multilogin

/-!
# Answers to a search

Callers whose callee is not a client of the node wait for an answer from the other nodes, any
number of them for one identifier.  `procmsg_N2NFOUND` takes the first that waits, passes its
request to the node that has answered and starts again from the head of the list.  A link that
has been served does not wait again, so that the loop ends, and a second answer finds nobody
unless somebody has begun to search in the meantime.
-/

namespace PicaPica

open Table Machine

/-- The link waits for a node that knows the callee `id`. -/
def CCLink.Waits (l : CCLink) (id : Id) : Prop :=
  l.calleeId = id ∧ l.state = .n2nClrWaitSearch

instance (l : CCLink) (id : Id) : Decidable (l.Waits id) :=
  inferInstanceAs (Decidable (_ ∧ _))

namespace Node

variable (n : Node) (nl : Ptr) (id : Id)

/-- The links that wait for `id`, in list order. -/
def waiting : List CCLink :=
  n.cclinks.filter (·.Waits id)

/-- The message to the node that has answered, for one link. -/
def connreqFor (l : CCLink) : Frame :=
  head Proto.N2NCONNREQOUTG ++ l.callerId.1 ++ id.1

/-- Every link that waits for `id` is to be served by the node behind `nl`. -/
def served : Node :=
  { n with
    cclinks := n.cclinks.map fun l => if l.Waits id then l.attachRemotecleNode nl else l
    nodelinks := modify NodeLink.ptr nl (fun m =>
      { m with pushed := m.pushed ++ (n.waiting id).map (connreqFor id) }) n.nodelinks
    tick := n.tick + (n.waiting id).length }

end Node

section Loop

variable {n : Node} {nl : Ptr} {id : Id} {l : CCLink}

theorem findwaitsearch_eq : n.cclinkListFindwaitsearch id = n.cclinks.find? (·.Waits id) :=
  rfl

theorem not_waits_attached : ¬(l.attachRemotecleNode nl).Waits id := by
  rintro ⟨-, hstate⟩
  rw [CCLink.attachRemotecleNode] at hstate
  split_ifs at hstate with hwait
  exact hwait hstate

/-- Nobody waits. -/
theorem served_of_none (h : n.waiting id = []) : n.served nl id = n := by
  have hlinks : n.cclinks.map (fun l => if l.Waits id then l.attachRemotecleNode nl else l) =
      n.cclinks := by
    refine (List.map_congr_left fun l hl => if_neg fun hw => ?_).trans (List.map_id _)
    have hmem : l ∈ n.waiting id := List.mem_filter.mpr ⟨hl, decide_eq_true hw⟩
    rw [h] at hmem
    cases hmem
  have hnodes : modify NodeLink.ptr nl
      (fun m => { m with pushed := m.pushed ++ ([] : List CCLink).map (Node.connreqFor id) })
      n.nodelinks = n.nodelinks := by
    refine (List.map_congr_left fun m _ => ?_).trans (List.map_id _)
    simp
  rw [Node.served, h, hlinks, hnodes]
  rfl

/-- The node after a pass for the link `l`. -/
def Node.serveOne (n : Node) (nl : Ptr) (id : Id) (l : CCLink) : Node :=
  { n with
    cclinks := modify CCLink.ptr l.ptr (fun l => l.attachRemotecleNode nl) n.cclinks
    nodelinks := modify NodeLink.ptr nl
      (fun m => { m with pushed := m.pushed ++ [Node.connreqFor id l] }) n.nodelinks
    tick := n.tick + 1 }

theorem serveOne_pass
    (hlinked : n.Linked nl) (hmem : n.mem n.tick) :
    (n.modifyLink l.ptr fun l => l.attachRemotecleNode nl).nodelinkWbufPush (some nl)
      (head Proto.N2NCONNREQOUTG ++ l.callerId.1 ++ id.1) = .ok (n.serveOne nl id l, true) := by
  have hpush := nodelinkWbufPush_eq (n := n.modifyLink l.ptr fun l => l.attachRemotecleNode nl)
    (f := Node.connreqFor id l) hlinked
  have hgrant : (n.modifyLink l.ptr fun l => l.attachRemotecleNode nl).mem
      (n.modifyLink l.ptr fun l => l.attachRemotecleNode nl).tick = true := hmem
  rw [hgrant] at hpush
  exact hpush

/-- A pass leaves the others to be served. -/
theorem serveOne_served
    (hd : Distinct CCLink.ptr n.cclinks) (hs : n.cclinkListFindwaitsearch id = some l) :
    n.waiting id = l :: (n.serveOne nl id l).waiting id ∧
      (n.serveOne nl id l).served nl id = n.served nl id := by
  have hfirst : n.cclinks.find? (·.Waits id) = some l := hs
  obtain ⟨hfilter, hmap⟩ := hd.modify_first (f := fun l : CCLink => l.attachRemotecleNode nl) hfirst
    (decide_eq_false not_waits_attached)
  have hwaiting : n.waiting id = l :: (n.serveOne nl id l).waiting id := hfilter
  refine ⟨hwaiting, ?_⟩
  have hlinks : (n.serveOne nl id l).cclinks.map
      (fun l => if l.Waits id then l.attachRemotecleNode nl else l) =
      n.cclinks.map fun l => if l.Waits id then l.attachRemotecleNode nl else l := by
    simp only [decide_eq_true_eq] at hmap
    exact hmap
  have hnodes : modify NodeLink.ptr nl (fun m => { m with
        pushed := m.pushed ++ ((n.serveOne nl id l).waiting id).map (Node.connreqFor id) })
        (n.serveOne nl id l).nodelinks =
      modify NodeLink.ptr nl (fun m => { m with
        pushed := m.pushed ++ (n.waiting id).map (Node.connreqFor id) }) n.nodelinks := by
    have hone : (n.serveOne nl id l).nodelinks = modify NodeLink.ptr nl
        (fun m => { m with pushed := m.pushed ++ [Node.connreqFor id l] }) n.nodelinks := rfl
    rw [hone, modify_modify, hwaiting]
    · simp only [List.map_cons, List.append_assoc, List.singleton_append]
    · exact fun _ => rfl
  have htick : (n.serveOne nl id l).tick + ((n.serveOne nl id l).waiting id).length =
      n.tick + (n.waiting id).length := by
    have hone : (n.serveOne nl id l).tick = n.tick + 1 := rfl
    rw [hwaiting, List.length_cons, hone]
    omega
  rw [Node.served, hlinks, hnodes, htick]
  rfl

/-- **The loop of `procmsg_N2NFOUND` serves all that wait.** -/
theorem n2nfoundLoop_served
    {fuel : Nat}
    (hd : Distinct CCLink.ptr n.cclinks) (hlinked : n.Linked nl)
    (hmem : ∀ k < (n.waiting id).length, n.mem (n.tick + k)) (hfuel : (n.waiting id).length ≤ fuel) :
    Node.n2nfoundLoop nl id fuel n = .ok (n.served nl id) := by
  have hnobody : ∀ {m : Node} {k : Nat}, m.cclinkListFindwaitsearch id = none →
      Node.n2nfoundLoop nl id k m = .ok (m.served nl id) := by
    intro m k hs
    have hnone : m.waiting id = [] := List.filter_eq_nil_iff.mpr (List.find?_eq_none.mp hs)
    unfold Node.n2nfoundLoop
    rw [hs, served_of_none hnone]
    cases k <;> rfl
  induction fuel generalizing n with
  | zero =>
      have hnone : n.waiting id = [] := List.length_eq_zero_iff.mp (Nat.le_zero.mp hfuel)
      exact hnobody (List.find?_eq_none.mpr (List.filter_eq_nil_iff.mp hnone))
  | succ fuel ih =>
      cases hs : n.cclinkListFindwaitsearch id with
      | none => exact hnobody hs
      | some l =>
          obtain ⟨hwaiting, hserved⟩ := @serveOne_served n nl id l hd hs
          rw [hwaiting, List.length_cons] at hmem hfuel
          have hpass := @serveOne_pass n nl id l hlinked (hmem 0 (Nat.succ_pos _))
          unfold Node.n2nfoundLoop
          rw [hs]
          simp only [hpass]
          change Node.n2nfoundLoop nl id fuel (n.serveOne nl id l) = _
          rw [ih ?_ ?_ ?_ (Nat.le_of_succ_le_succ hfuel), hserved]
          · exact hd.modify fun x _ _ => endpoints_attachRemotecleNode.ptr
          · refine Node.Linked.of_ptrs (map_modify fun _ _ _ => rfl) hlinked
          · intro k hk
            have hmore := hmem (k + 1) (Nat.succ_lt_succ hk)
            rw [Node.serveOne]
            rwa [Nat.add_assoc, Nat.add_comm 1 k]

/-- A frame for an identifier that nobody waits for. -/
theorem procmsgN2NFOUND_none
    {f : Frame} (h : ∀ l ∈ n.cclinks, ¬l.Waits (idAt f 2)) :
    n.procmsgN2NFOUND nl f = .ok (n, 1) := by
  have hs : n.cclinkListFindwaitsearch (idAt f 2) = none :=
    List.find?_eq_none.mpr fun l hl hw => h l hl (of_decide_eq_true hw)
  have hloop : Node.n2nfoundLoop nl (idAt f 2) n.cclinks.length n = .ok n := by
    unfold Node.n2nfoundLoop
    rw [hs]
    cases n.cclinks.length <;> rfl
  rw [Node.procmsgN2NFOUND, hloop]
  rfl

theorem procmsgN2NFOUND_served
    {f : Frame} (hd : Distinct CCLink.ptr n.cclinks) (hlinked : n.Linked nl)
    (hmem : ∀ k < (n.waiting (idAt f 2)).length, n.mem (n.tick + k)) :
    n.procmsgN2NFOUND nl f = .ok (n.served nl (idAt f 2), 1) := by
  rw [Node.procmsgN2NFOUND,
    n2nfoundLoop_served hd hlinked hmem (List.length_filter_le _ _)]
  rfl

theorem not_waits_served (hl : l ∈ (n.served nl id).cclinks) : ¬l.Waits id := by
  obtain ⟨x, -, rfl⟩ := List.mem_map.mp hl
  split_ifs with hw
  · exact not_waits_attached
  · exact hw

end Loop

/-! ## Between two answers -/

/-- The event begins a search for `id`: a link that was not in the list waits for an answer. -/
def Node.StartsSearch (id : Id) (n : Node) (e : NodeEvent) : Prop :=
  ∃ m, nodeStep n e = some m ∧ ∃ l ∈ m.cclinks, l.Waits id ∧ ∀ x ∈ n.cclinks, x.ptr ≠ l.ptr

section Between

variable {n₀ n m : Node} {e : NodeEvent} {l l' : CCLink} {id : Id}

/-- **No change makes a link wait.** -/
theorem LinkChange.waits (h : LinkChange n₀ e n l l') (hw : l'.Waits id) : l.Waits id := by
  have hcallee := h.endpoints.calleeId
  refine ⟨hcallee ▸ hw.1, ?_⟩
  have hstate := hw.2
  cases h with
  | same => exact hstate
  | attach nl =>
      by_contra hwait
      rw [CCLink.attachRemotecleNode, if_neg hwait] at hstate
      exact hwait hstate
  | setwaitconn =>
      cases hst : l.state
      all_goals simp_all [CCLink.setwaitconn]
  | connid i f c =>
      cases hst : l.state
      all_goals simp_all [CCLink.setwaitanontlsshutdown, CCLink.allocbufs]
  | activate i io =>
      cases hst : l.state
      all_goals simp_all [CCLink.activate]
  | relay l' hst hcore hidle hby => exact (state_of_core hcore).symm.trans hstate

/-- Links that were there and did not wait still do not. -/
theorem nodeStep_waits
    (hcore : Core n) (hstep : nodeStep n e = some m) (hnone : ∀ x ∈ n.cclinks, ¬x.Waits id) :
    ∀ l ∈ m.cclinks, l.Waits id → ∀ x ∈ n.cclinks, x.ptr ≠ l.ptr := by
  have hact : ∀ u v, (Core u ∧ n.next ≤ u.next ∧
        ∀ l ∈ u.cclinks, l.Waits id → ∀ x ∈ n.cclinks, x.ptr ≠ l.ptr) → Act n e u v →
      Core v ∧ n.next ≤ v.next ∧
        ∀ l ∈ v.cclinks, l.Waits id → ∀ x ∈ n.cclinks, x.ptr ≠ l.ptr := by
    rintro u v ⟨hu, hnext, hold⟩ hact
    refine ⟨hact.core hu, Nat.le_trans hnext (hact.next_le hu), fun l' hl' hw x hx => ?_⟩
    rcases hact.link_cases hu hl' with ⟨l, hl, hchange⟩ | ⟨hstart, -, -⟩
    · rw [hchange.endpoints.ptr]
      exact hold l hl (hchange.waits hw) x hx
    · have hptr : l'.ptr = u.next := by cases hstart <;> rfl
      have hlt := hcore.linksOld x hx
      rw [hptr]
      exact Nat.ne_of_lt (Nat.lt_of_lt_of_le hlt hnext)
  have hfirst : ∀ l ∈ n.cclinks, l.Waits id → ∀ x ∈ n.cclinks, x.ptr ≠ l.ptr :=
    fun l hl hw => absurd hw (hnone l hl)
  exact (changes_invariant hact ⟨hcore, Nat.le_refl _, hfirst⟩ (nodeStep_acts hcore hstep)).2.2

/-- **As long as no search for `id` begins, nobody waits.** -/
theorem run_waits
    {es : List NodeEvent}
    (hcore : Core n) (hnone : ∀ l ∈ n.cclinks, ¬l.Waits id)
    (hok : Meets nodeStep (fun n e => ¬n.StartsSearch id e) n es)
    (hrun : run nodeStep n es = some m) :
    ∀ l ∈ m.cclinks, ¬l.Waits id := by
  have hstep : ∀ s e t, (Core s ∧ ∀ l ∈ s.cclinks, ¬l.Waits id) → ¬s.StartsSearch id e →
      nodeStep s e = some t → Core t ∧ ∀ l ∈ t.cclinks, ¬l.Waits id := by
    rintro s e t ⟨hs, hnobody⟩ hno hst
    refine ⟨nodeStep_core hs hst, fun l hl hw => ?_⟩
    exact hno ⟨t, hst, l, hl, hw, nodeStep_waits hs hst hnobody l hl hw⟩
  exact (run_invariant hstep ⟨hcore, hnone⟩ hok hrun).2

end Between

/-! ## Answers -/

/-- What an answer from the node behind `nl` for the callee `id` makes of `n`. -/
structure SearchServed (n : Node) (nl : Ptr) (id : Id) (m : Node) : Prop where
  nobody : ∀ l ∈ m.cclinks, ¬l.Waits id
  links : m.cclinks = n.cclinks.map fun l =>
    if l.Waits id then { l with state := .n2nClrWaitRep, calleeNode := some nl } else l
  /-- one message for each link that waited, in list order -/
  queued : m.nodelinks = n.nodelinks.map fun x =>
    if x.ptr = nl then
      { x with pushed := x.pushed ++ (n.waiting id).map (Node.connreqFor id) }
    else x
  others : m = { n with cclinks := m.cclinks, nodelinks := m.nodelinks, tick := m.tick }

theorem served_spec {n : Node} {nl : Ptr} {id : Id} : SearchServed n nl id (n.served nl id) := by
  refine ⟨fun l => not_waits_served, ?_, rfl, rfl⟩
  refine List.map_congr_left fun l _ => ?_
  by_cases hw : l.Waits id
  · rw [if_pos hw, if_pos hw, CCLink.attachRemotecleNode, if_pos hw.2]
  · rw [if_neg hw, if_neg hw]

/-- **An answer serves every caller that waits, once.** -/
theorem search_answer_served
    (n : Node) (nl : Ptr) (f : Frame) (hkind : byteAt f 0 = Proto.N2NFOUND)
    (hd : Distinct CCLink.ptr n.cclinks) (hlinked : n.Linked nl)
    (hmem : ∀ k < (n.waiting (idAt f 2)).length, n.mem (n.tick + k)) :
    ∃ m, n.procmsgN2NFOUND nl f = .ok (m, 1) ∧ SearchServed n nl (idAt f 2) m ∧
      ∀ es u, Core n → Meets nodeStep (fun n e => ¬n.StartsSearch (idAt f 2) e) m es →
        run nodeStep m es = some u →
        ∀ nl' f', idAt f' 2 = idAt f 2 → u.procmsgN2NFOUND nl' f' = .ok (u, 1) := by
  have hserved := procmsgN2NFOUND_served hd hlinked hmem
  refine ⟨_, hserved, served_spec, fun es u hcore hok hrun nl' f' hid => ?_⟩
  have hacts : Acts n (.n2nFrame nl f) n (n.served nl (idAt f 2)) :=
    (procmsgN2NFOUND_acts hlinked (.inl hkind) hserved).1
  have hcore' : Core (n.served nl (idAt f 2)) :=
    changes_invariant (fun _ _ hs hact => hact.core hs) hcore hacts
  refine procmsgN2NFOUND_none fun l hl => ?_
  rw [hid]
  exact run_waits hcore' (fun l => not_waits_served) hok hrun l hl

/-- A client calls one of another node, and calls again. -/
def calledTwice : List NodeEvent :=
  remoteCall ++ [.c2nFrame 1 (head Proto.CONNREQOUTG ++ (Id.ofByte 2).1)]

/-- Two links wait when the answer comes. -/
theorem search_answer_served_two :
    let n := stateAfter freshNode calledTwice
    let f := head Proto.N2NFOUND ++ (Id.ofByte 2).1
    (n.waiting (idAt f 2)).length = 2 ∧
      ∃ m, n.procmsgN2NFOUND 2 f = .ok (m, 1) ∧ SearchServed n 2 (idAt f 2) m ∧
        m.procmsgN2NFOUND 2 f = .ok (m, 1) := by
  intro n f
  have hcore : Core n := (@stateAfter_reachable calledTwice (by decide +kernel)).core
  have hlinked : ∃ m ∈ n.nodelinks, m.ptr = 2 := by decide +kernel
  have hmem : ∀ k < (n.waiting (idAt f 2)).length, n.mem (n.tick + k) := by decide +kernel
  obtain ⟨m, hm, hserved, hlater⟩ :=
    search_answer_served n 2 f (by decide +kernel) hcore.linksDistinct hlinked hmem
  exact ⟨by decide +kernel, m, hm, hserved, hlater [] m hcore trivial rfl 2 f rfl⟩

end PicaPica
