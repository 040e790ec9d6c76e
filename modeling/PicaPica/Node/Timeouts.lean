import PicaPica.Node.NewconnRefs
import PicaPica.Lib.Sweep

/-!
# A pass of `process_timeouts`

`process_timeouts` goes through the new connections, the clients, the links and the other nodes,
one loop each.  The loops over the lists follow the pointers `next` and free records on their
way.  A pass is a run of the node in which each record is looked at by an event of its own
(`timeouts_are_run`); after it nothing is overdue (`nothing_overdue`), and a client that is in
time is still there (`timeouts_spare`).

The part of `process_timeouts` that looks up the nodes again is in `Node/Nodewait.lean`.
-/

namespace PicaPica

open Table Machine Sweep

namespace Node

variable (n : Node)

/-- A client has not answered in time, or has been silent for so long that it is asked. -/
def clientOverdue (c : Client) : Bool :=
  if c.disconnectTicking then 15 < elapsed c.tmst n.now else c.tmst + 60 < n.now

/-- The same for another node. -/
def nodeOverdue (m : NodeLink) : Bool :=
  if m.disconnectTicking then 15 < elapsed m.tmst n.now else m.tmst + 60 < n.now

/-- A new connection has not become anything else in time. -/
def slotOverdue (nc : NewConn) : Bool :=
  nc.sck ≠ -1 ∧ 10 < elapsed nc.tmst n.now

/-- What the loop of `process_timeouts_c2n` does before `i_ptr = i_ptr->next`, and whether
`kill_ptr` is set. -/
def lookC2n (ci : Ptr) : Except Fault (Node × Bool) := do
  let c ← n.derefClient (some ci)
  if c.disconnectTicking then pure (n, decide (15 < elapsed c.tmst n.now))
  else if c.tmst + 60 < n.now then
    let (n, mp) ← n.clientWbufPush (some ci) (n.randomMsg Proto.PINGREQ)
    if mp then
      pure (n.modifyClient ci fun c => { c with tmst := n.now, disconnectTicking := true }, false)
    else pure (n, true)
  else pure (n, false)

/-- The condition of `process_timeouts_c2c`. -/
def lookC2c (l : Ptr) : Except Fault (Node × Bool) := do
  let l ← n.derefLink (some l)
  pure (n, n.linkExpired l)

/-- The same as `lookC2n` in `process_timeouts_n2n`. -/
def lookN2n (nl : Ptr) : Except Fault (Node × Bool) := do
  let l ← n.derefNodelink (some nl)
  if l.disconnectTicking then pure (n, decide (15 < elapsed l.tmst n.now))
  else if l.tmst + 60 < n.now then
    let (n, mp) ← n.nodelinkWbufPush (some nl) (n.randomMsg Proto.PINGREQ)
    if mp then
      pure (n.modifyNodelink nl fun l => { l with tmst := n.now, disconnectTicking := true }, false)
    else pure (n, true)
  else pure (n, false)

/-- The loop of `process_timeouts_c2n`. -/
def loopC2n : Loop Node Ptr Fault where
  keys n := n.clients.map Client.ptr
  look ci n := n.lookC2n ci
  kill ci n := n.clientListDelete (some ci)

/-- The loop of `process_timeouts_c2c`. -/
def loopC2c : Loop Node Ptr Fault where
  keys n := n.cclinks.map CCLink.ptr
  look l n := n.lookC2c l
  kill l n := n.cclinkListDelete (some l)

/-- The loop of `process_timeouts_n2n`. -/
def loopN2n : Loop Node Ptr Fault where
  keys n := n.nodelinks.map NodeLink.ptr
  look nl n := n.lookN2n nl
  kill nl n := n.nodelinkListDelete (some nl)

/-- `process_timeouts_newconn`. -/
def processTimeoutsNewconn : Except Fault Node :=
  (List.range maxNewconns).foldlM (fun n i => n.timeoutNewconn i) n

/-- `process_timeouts`. -/
def processTimeouts : Except Fault Node := do
  let n ← n.processTimeoutsNewconn
  let n ← loopC2n.pass .stuck n
  let n ← loopC2c.pass .stuck n
  loopN2n.pass .stuck n

end Node

/-! ## The bodies of the loops -/

section Bodies

variable {n u : Node} {p : Ptr}

open Node

theorem body_loopC2n : loopC2n.body p n = n.timeoutC2n p := by
  simp only [Loop.body, loopC2n, lookC2n, timeoutC2n]
  cases n.derefClient (some p) with
  | error e => rfl
  | ok c =>
      simp only [bind, Except.bind]
      split_ifs with htick hlate hidle
      · simp [hlate, pure, Except.pure]
      · simp [hlate, pure, Except.pure]
      · cases n.clientWbufPush (some p) (n.randomMsg Proto.PINGREQ) with
        | error e => rfl
        | ok r =>
            obtain ⟨m, mp⟩ := r
            cases mp <;> rfl
      · rfl

theorem body_loopC2c : loopC2c.body p n = n.timeoutC2c p := by
  simp only [Loop.body, loopC2c, lookC2c, timeoutC2c]
  cases hl : n.derefLink (some p) with
  | error e => rfl
  | ok l =>
      obtain ⟨hp, -, -⟩ := deref_eq_ok hl
      cases hp
      simp only [bind, Except.bind, pure, Except.pure]

theorem body_loopN2n : loopN2n.body p n = n.timeoutN2n p := by
  simp only [Loop.body, loopN2n, lookN2n, timeoutN2n]
  cases n.derefNodelink (some p) with
  | error e => rfl
  | ok l =>
      simp only [bind, Except.bind]
      split_ifs with htick hlate hidle
      · simp [hlate, pure, Except.pure]
      · simp [hlate, pure, Except.pure]
      · cases n.nodelinkWbufPush (some p) (n.randomMsg Proto.PINGREQ) with
        | error e => rfl
        | ok r =>
            obtain ⟨m, mp⟩ := r
            cases mp <;> rfl
      · rfl

/-- What the loop finds at a client. -/
theorem lookC2n_cases
    {t : Node} {b : Bool}
    (h : n.lookC2n p = .ok (t, b)) :
    ∃ c ∈ n.clients, c.ptr = p ∧
      (t = n ∧ b = n.clientOverdue c ∨ n.clientOverdue c = true ∧ (t = n.asked ∧ b = true ∨
        t = n.asked.modifyClient p (fun c =>
          { c with
            pushed := c.pushed ++ [n.randomMsg Proto.PINGREQ]
            tmst := n.now
            disconnectTicking := true }) ∧ b = false)) := by
  obtain ⟨c, hc, hres⟩ := bind_eq_ok.mp h
  obtain ⟨hp, hmem, -⟩ := deref_eq_ok hc
  cases hp
  refine ⟨c, hmem, rfl, ?_⟩
  split_ifs at hres with htick hidle
  · cases hres
    exact .inl ⟨rfl, by simp [clientOverdue, htick]⟩
  · obtain ⟨⟨k, mp⟩, hpush, hend⟩ := bind_eq_ok.mp hres
    obtain ⟨cl, -, hcl, -, hk⟩ := clientWbufPush_ok hpush
    rw [← Option.some.inj hcl] at hk
    refine .inr ⟨by simp [clientOverdue, htick, hidle], ?_⟩
    cases mp with
    | false =>
        cases hend
        exact .inl ⟨hk, rfl⟩
    | true =>
        cases hend
        refine .inr ⟨?_, rfl⟩
        rw [hk, if_pos rfl]
        have hsame : ∀ d : Client, ({ d with
            pushed := d.pushed ++ [n.randomMsg Proto.PINGREQ] } : Client).ptr = d.ptr := fun _ => rfl
        simp only [modifyClient, asked, modify_modify hsame]
  · cases hres
    exact .inl ⟨rfl, by simp [clientOverdue, htick, hidle]⟩

/-- What the loop finds at a link. -/
theorem lookC2c_cases
    {t : Node} {b : Bool}
    (h : n.lookC2c p = .ok (t, b)) :
    ∃ l ∈ n.cclinks, l.ptr = p ∧ t = n ∧ b = n.linkExpired l := by
  obtain ⟨l, hl, hres⟩ := bind_eq_ok.mp h
  obtain ⟨hp, hmem, -⟩ := deref_eq_ok hl
  cases hp
  cases hres
  exact ⟨l, hmem, rfl, rfl, rfl⟩

/-- What the loop finds at another node. -/
theorem lookN2n_cases
    {t : Node} {b : Bool}
    (h : n.lookN2n p = .ok (t, b)) :
    ∃ m ∈ n.nodelinks, m.ptr = p ∧
      (t = n ∧ b = n.nodeOverdue m ∨ n.nodeOverdue m = true ∧ (t = n.asked ∧ b = true ∨
        t = n.asked.modifyNodelink p (fun m =>
          { m with
            pushed := m.pushed ++ [n.randomMsg Proto.PINGREQ]
            tmst := n.now
            disconnectTicking := true }) ∧ b = false)) := by
  obtain ⟨m, hm, hres⟩ := bind_eq_ok.mp h
  obtain ⟨hp, hmem, -⟩ := deref_eq_ok hm
  cases hp
  refine ⟨m, hmem, rfl, ?_⟩
  split_ifs at hres with htick hidle
  · cases hres
    exact .inl ⟨rfl, by simp [nodeOverdue, htick]⟩
  · obtain ⟨⟨k, mp⟩, hpush, hend⟩ := bind_eq_ok.mp hres
    obtain ⟨ml, -, hml, -, hk⟩ := nodelinkWbufPush_ok hpush
    rw [← Option.some.inj hml] at hk
    refine .inr ⟨by simp [nodeOverdue, htick, hidle], ?_⟩
    cases mp with
    | false =>
        cases hend
        exact .inl ⟨hk, rfl⟩
    | true =>
        cases hend
        refine .inr ⟨?_, rfl⟩
        rw [hk, if_pos rfl]
        have hsame : ∀ d : NodeLink, ({ d with
            pushed := d.pushed ++ [n.randomMsg Proto.PINGREQ] } : NodeLink).ptr = d.ptr :=
          fun _ => rfl
        simp only [modifyNodelink, asked, modify_modify hsame]
  · cases hres
    exact .inl ⟨rfl, by simp [nodeOverdue, htick, hidle]⟩

theorem keys_remove
    {α : Type} {key : α → Ptr} {xs : List α} :
    (remove key p xs).map key = (xs.map key).filter (· ≠ p) := by
  rw [remove, List.filter_map]
  rfl

/-- Of a client that is left only the state may have changed. -/
theorem dropClient_map
    {α : Type} {g : Client → α} {c : Client}
    (hg : ∀ (d : Client) (st : ClState), g { d with state := st } = g d) :
    (n.dropClient c).clients.map g = (remove Client.ptr c.ptr n.clients).map g := by
  have hptr : ∀ d : Client, ({ d with state := c.state } : Client).ptr = d.ptr := fun _ => rfl
  have hstate : ∀ q, (remove Client.ptr c.ptr (modify Client.ptr q
      (fun d => { d with state := c.state }) n.clients)).map g =
        (remove Client.ptr c.ptr n.clients).map g := by
    intro q
    rw [remove_modify hptr]
    exact map_modify fun d _ _ => hg d c.state
  have hforget : (remove Client.ptr c.ptr (n.clientTreeForget c).clients).map g =
      (remove Client.ptr c.ptr n.clients).map g := by
    rw [clientTreeForget]
    split
    · rfl
    · split_ifs
      · split
        · rfl
        · exact hstate _
      · rfl
  exact hforget

/-! ### Each body is an event of the node -/

theorem step_timeoutC2n (hp : p ∈ loopC2n.keys n) :
    nodeStep n (.timeoutC2n p) = (loopC2n.body p n).toOption := by
  obtain ⟨c, hc, rfl⟩ := List.mem_map.mp hp
  rw [body_loopC2n, nodeStep, if_pos (by simpa [NodeEvent.enabled] using ⟨c, hc, rfl⟩)]
  rfl

theorem step_timeoutC2c (hp : p ∈ loopC2c.keys n) :
    nodeStep n (.timeoutC2c p) = (loopC2c.body p n).toOption := by
  obtain ⟨l, hl, rfl⟩ := List.mem_map.mp hp
  rw [body_loopC2c, nodeStep, if_pos (by simpa [NodeEvent.enabled] using ⟨l, hl, rfl⟩)]
  rfl

theorem step_timeoutN2n (hp : p ∈ loopN2n.keys n) :
    nodeStep n (.timeoutN2n p) = (loopN2n.body p n).toOption := by
  obtain ⟨m, hm, rfl⟩ := List.mem_map.mp hp
  rw [body_loopN2n, nodeStep, if_pos (by simpa [NodeEvent.enabled] using ⟨m, hm, rfl⟩)]
  rfl

/-! ### The bodies come to their end -/

/-- The event whose body has come to its end. -/
theorem step_ok
    {x : Except Fault Node} {e : NodeEvent}
    (hstep : nodeStep n e = x.toOption) (h : x = .ok u) :
    nodeStep n e = some u := by
  rw [hstep, h]
  rfl

theorem loopC2n_local : loopC2n.Local Core := by
  refine ⟨fun hs => hs.clientsDistinct, ?_, ?_, ?_⟩
  · intro s k t b _ _ h
    obtain ⟨c, -, -, ⟨rfl, -⟩ | ⟨-, ⟨rfl, -⟩ | ⟨rfl, -⟩⟩⟩ := lookC2n_cases h
    · rfl
    · rfl
    · exact map_modify fun _ _ _ => rfl
  · intro s k t u _ _ h hkill
    have hkeys : loopC2n.keys t = loopC2n.keys s := by
      obtain ⟨c, -, -, ⟨rfl, -⟩ | ⟨-, ⟨rfl, -⟩ | ⟨rfl, -⟩⟩⟩ := lookC2n_cases h
      · rfl
      · rfl
      · exact map_modify fun _ _ _ => rfl
    obtain ⟨c, -, hp, rfl⟩ := clientListDelete_ok hkill
    cases hp
    rw [← hkeys]
    exact (dropClient_map fun _ _ => rfl).trans keys_remove
  · intro s k u hs hk hbody
    exact nodeStep_core hs (step_ok (step_timeoutC2n hk) hbody)

theorem loopC2c_local : loopC2c.Local Core := by
  refine ⟨fun hs => hs.linksDistinct, ?_, ?_, ?_⟩
  · intro s k t b _ _ h
    obtain ⟨l, -, -, rfl, -⟩ := lookC2c_cases h
    rfl
  · intro s k t u _ _ h hkill
    obtain ⟨-, -, -, rfl, -⟩ := lookC2c_cases h
    obtain ⟨l, -, hp, rfl⟩ := cclinkListDelete_ok hkill
    cases hp
    exact keys_remove
  · intro s k u hs hk hbody
    exact nodeStep_core hs (step_ok (step_timeoutC2c hk) hbody)

theorem loopN2n_local : loopN2n.Local Core := by
  have hlooks : ∀ {s t : Node} {k : Ptr} {b : Bool}, s.lookN2n k = .ok (t, b) →
      loopN2n.keys t = loopN2n.keys s := by
    intro s t k b h
    obtain ⟨m, -, -, ⟨rfl, -⟩ | ⟨-, ⟨rfl, -⟩ | ⟨rfl, -⟩⟩⟩ := lookN2n_cases h
    · rfl
    · rfl
    · exact map_modify fun _ _ _ => rfl
  refine ⟨fun hs => hs.nodelinksDistinct, fun _ _ h => hlooks h, ?_, ?_⟩
  · intro s k t u _ _ h hkill
    obtain ⟨m, -, hp, rfl⟩ := nodelinkListDelete_ok hkill
    cases hp
    rw [← hlooks h]
    exact keys_remove
  · intro s k u hs hk hbody
    exact nodeStep_core hs (step_ok (step_timeoutN2n hk) hbody)

end Bodies

/-! ## The pass as a run -/

section Pass

variable {n : Node}

open Node

theorem step_timeoutNewconn
    {i : Nat} (hi : i < maxNewconns) :
    nodeStep n (.timeoutNewconn i) = (n.timeoutNewconn i).toOption := by
  rw [nodeStep, if_pos (by simpa [NodeEvent.enabled] using hi)]
  rfl

end Pass

/-- Client 2 has been called, and has not answered for 20 seconds. -/
def calleeSilent : List NodeEvent :=
  callRequested ++ [.clock 20]

theorem calleeSilent_reachable : Reachable (stateAfter freshNode calleeSilent) :=
  stateAfter_reachable (by decide +kernel)

/-- The pass deletes client 2 and asks nobody. -/
theorem calleeSilent_pass :
    ∃ u, (stateAfter freshNode calleeSilent).processTimeouts = .ok u ∧
      u.clients.map Client.ptr = [1] ∧ u.cclinks = [] := by
  have hany : ((stateAfter freshNode calleeSilent).processTimeouts.toOption.any fun u =>
      decide (u.clients.map Client.ptr = [1] ∧ u.cclinks = [])) = true := by decide +kernel
  obtain ⟨u, hu, hp⟩ := (Option.any_eq_true _ _).mp hany
  refine ⟨u, ?_, of_decide_eq_true hp⟩
  cases hx : (stateAfter freshNode calleeSilent).processTimeouts with
  | error er =>
      rw [hx] at hu
      cases hu
  | ok v =>
      rw [hx] at hu
      cases hu
      rfl

/-- The caller logs out before that: the connection refers to a link that is gone, and the pass
reads it. -/
example :
    (stateAfter freshNode
      (calleeArrived ++ [.c2nClosed 1, .clock 20])).processTimeouts.toOption.isNone := by
  decide +kernel

/-! ## What a pass leaves -/

/-- What the loops compare of a client. -/
def Client.stamp (c : Client) : Ptr × Nat × Bool :=
  (c.ptr, c.tmst, c.disconnectTicking)

/-- Nothing is overdue. -/
structure Node.InTime (n : Node) : Prop where
  newconns : ∀ i < maxNewconns, n.slotOverdue (n.slot i) = false
  clients : ∀ c ∈ n.clients, n.clientOverdue c = false
  cclinks : ∀ l ∈ n.cclinks, n.linkExpired l = false
  nodelinks : ∀ m ∈ n.nodelinks, n.nodeOverdue m = false

/-- What the body of `process_timeouts_c2n` does to a node. -/
structure LookedC2n (n u : Node) (p : Ptr) : Prop where
  now : u.now = n.now
  newconns : u.newconns = n.newconns
  settled : ∀ c ∈ u.clients, c.ptr = p → u.clientOverdue c = false
  others : ∀ c ∈ u.clients, c.ptr ≠ p → ∃ d ∈ n.clients, d.stamp = c.stamp
  spared : ∀ d ∈ n.clients, d.ptr ≠ p ∨ n.clientOverdue d = false → ∃ c ∈ u.clients, c.stamp = d.stamp

section Left

variable {n u : Node} {p : Ptr} {c d : Client}

open Node

theorem overdue_of_stamp (hnow : u.now = n.now) (h : d.stamp = c.stamp) :
    u.clientOverdue c = n.clientOverdue d := by
  simp only [Client.stamp, Prod.mk.injEq] at h
  obtain ⟨-, htmst, htick⟩ := h
  simp only [clientOverdue, hnow, htmst, htick]

theorem exists_of_map
    {α β : Type} {f : α → β} {xs ys : List α} {x : α}
    (h : xs.map f = ys.map f) (hx : x ∈ xs) :
    ∃ y ∈ ys, f y = f x := by
  have hmem : f x ∈ ys.map f := h ▸ List.mem_map_of_mem hx
  exact List.mem_map.mp hmem

theorem dropClient_stamps :
    (n.dropClient c).clients.map Client.stamp =
      (remove Client.ptr c.ptr n.clients).map Client.stamp :=
  dropClient_map fun _ _ => rfl

theorem dropClient_spares
    (hd : d ∈ n.clients) (hne : d.ptr ≠ c.ptr) :
    ∃ x ∈ (n.dropClient c).clients, x.stamp = d.stamp :=
  exists_of_map dropClient_stamps.symm (mem_remove.mpr ⟨hd, hne⟩)

theorem dropClient_now (hn : Core n) (hc : c ∈ n.clients) : (n.dropClient c).now = n.now := by
  rcases dropClient_cases hn hc with ⟨ms, heq⟩ | ⟨q, ms, -, -, heq⟩ <;> rw [heq] <;> rfl

/-- A client is deleted, and the others keep their stamps. -/
theorem dropClient_looked
    (hn : Core n) (hc : c ∈ n.clients) (hlate : n.clientOverdue c = true) :
    LookedC2n n ((n.dropClient c).logged (.delete c.ptr)) c.ptr := by
  have hptr : ∀ {x y : Client}, x.stamp = y.stamp → x.ptr = y.ptr := fun h => congrArg Prod.fst h
  have hothers : ∀ d ∈ (n.dropClient c).clients,
      ∃ x ∈ n.clients, x.ptr ≠ c.ptr ∧ x.stamp = d.stamp := by
    intro d hd
    obtain ⟨x, hx, hstamp⟩ := exists_of_map dropClient_stamps hd
    exact ⟨x, (mem_remove.mp hx).1, (mem_remove.mp hx).2, hstamp⟩
  refine ⟨dropClient_now hn hc, dropClient_newconns hn hc, ?_, ?_, ?_⟩
  · intro d hd hp
    obtain ⟨x, -, hne, hstamp⟩ := hothers d hd
    exact absurd ((hptr hstamp).trans hp) hne
  · intro d hd _
    obtain ⟨x, hx, -, hstamp⟩ := hothers d hd
    exact ⟨x, hx, hstamp⟩
  · intro d hd hkeep
    have hne : d.ptr ≠ c.ptr := by
      rcases hkeep with hne | hin
      · exact hne
      · intro heq
        rw [hn.clientsDistinct.eq hd hc heq, hlate] at hin
        cases hin
    exact dropClient_spares hd hne

/-- A client is asked for a sign of life, and has its time for it. -/
theorem pinged_looked
    (honly : ∀ d ∈ n.clients, d.ptr = c.ptr → d = c) (hlate : n.clientOverdue c = true) :
    LookedC2n n (n.asked.modifyClient c.ptr fun c =>
      { c with
        pushed := c.pushed ++ [n.randomMsg Proto.PINGREQ]
        tmst := n.now
        disconnectTicking := true }) c.ptr := by
  refine ⟨rfl, rfl, fun d hd hp => ?_, fun d hd hne => ?_, fun d hd hkeep => ?_⟩
  · obtain ⟨x, hx, rfl⟩ := mem_modify.mp hd
    split_ifs at hp ⊢ with hxp
    · simp [clientOverdue, elapsed, modifyClient, asked]
    · exact absurd hp hxp
  · obtain ⟨x, hx, rfl⟩ := mem_modify.mp hd
    split_ifs at hne ⊢ with hxp
    · exact absurd hxp hne
    · exact ⟨x, hx, rfl⟩
  · have hne : d.ptr ≠ c.ptr := by
      rcases hkeep with hne | hin
      · exact hne
      · intro heq
        rw [honly d hd heq, hlate] at hin
        cases hin
    exact ⟨d, mem_modify.mpr ⟨d, hd, (if_neg hne).symm⟩, rfl⟩

theorem body_looked
    (hn : Core n) (h : loopC2n.body p n = .ok u) :
    LookedC2n n u p := by
  obtain ⟨t, b, hlook, hend⟩ := Loop.body_eq_ok h
  obtain ⟨c, hc, rfl, hcases⟩ := lookC2n_cases hlook
  have honly : ∀ d ∈ n.clients, d.ptr = c.ptr → d = c :=
    fun d hd hp => hn.clientsDistinct.eq hd hc hp
  rcases hcases with ⟨rfl, rfl⟩ | ⟨hlate, ⟨rfl, rfl⟩ | ⟨rfl, rfl⟩⟩
  · rcases hend with ⟨hlate, hkill⟩ | ⟨hin, rfl⟩
    · obtain ⟨d, hd, hp, rfl⟩ := clientListDelete_ok hkill
      obtain rfl := honly d hd (Option.some.inj hp).symm
      exact dropClient_looked hn hd hlate
    · refine ⟨rfl, rfl, fun d hd hp => ?_, fun d hd _ => ⟨d, hd, rfl⟩, fun d hd _ => ⟨d, hd, rfl⟩⟩
      rw [honly d hd hp, hin]
  · rcases hend with ⟨-, hkill⟩ | ⟨hin, -⟩
    · obtain ⟨d, hd, hp, rfl⟩ := clientListDelete_ok hkill
      obtain rfl := honly d hd (Option.some.inj hp).symm
      have hasked : Core n.asked := hn.alike ⟨rfl, rfl, rfl, fun _ => rfl, rfl⟩
      have hlooked := dropClient_looked hasked hd hlate
      exact ⟨hlooked.now, hlooked.newconns, hlooked.settled, hlooked.others, hlooked.spared⟩
    · cases hin
  · rcases hend with ⟨hin, -⟩ | ⟨-, rfl⟩
    · cases hin
    · exact pinged_looked honly hlate

theorem body_loopC2c_looked
    (hn : Core n) (h : loopC2c.body p n = .ok u) :
    u.now = n.now ∧ u.newconns = n.newconns ∧ u.clients = n.clients ∧
      ∀ l ∈ u.cclinks, l ∈ n.cclinks ∧ (l.ptr = p → n.linkExpired l = false) := by
  obtain ⟨t, b, hlook, hend⟩ := Loop.body_eq_ok h
  obtain ⟨l, hl, rfl, rfl, rfl⟩ := lookC2c_cases hlook
  rcases hend with ⟨-, hkill⟩ | ⟨hin, rfl⟩
  · obtain ⟨x, -, hp, rfl⟩ := cclinkListDelete_ok hkill
    refine ⟨rfl, rfl, rfl, fun y hy => ?_⟩
    obtain ⟨hmem, hne⟩ := mem_remove.mp hy
    exact ⟨hmem, fun hyp => absurd (hyp.trans (Option.some.inj hp)) hne⟩
  · refine ⟨rfl, rfl, rfl, fun y hy => ⟨hy, fun hyp => ?_⟩⟩
    rw [hn.linksDistinct.eq hy hl hyp, hin]

theorem body_loopN2n_looked
    (hn : Core n) (h : loopN2n.body p n = .ok u) :
    u.now = n.now ∧ u.newconns = n.newconns ∧ u.clients = n.clients ∧
      (∀ l ∈ u.cclinks, l ∈ n.cclinks) ∧
      (∀ m ∈ u.nodelinks, m.ptr = p → n.nodeOverdue m = false) ∧
      ∀ m ∈ u.nodelinks, m.ptr ≠ p → m ∈ n.nodelinks := by
  obtain ⟨t, b, hlook, hend⟩ := Loop.body_eq_ok h
  obtain ⟨m, hm, rfl, hcases⟩ := lookN2n_cases hlook
  have hkilled : ∀ {t : Node}, t.nodelinks = n.nodelinks → t.cclinks = n.cclinks →
      t.now = n.now → t.newconns = n.newconns → t.clients = n.clients →
      t.nodelinkListDelete (some m.ptr) = .ok u →
      u.now = n.now ∧ u.newconns = n.newconns ∧ u.clients = n.clients ∧
        (∀ l ∈ u.cclinks, l ∈ n.cclinks) ∧
        (∀ x ∈ u.nodelinks, x.ptr = m.ptr → n.nodeOverdue x = false) ∧
        ∀ x ∈ u.nodelinks, x.ptr ≠ m.ptr → x ∈ n.nodelinks := by
    intro t hnodes hlinks hnow hslots hclients hkill
    obtain ⟨x, -, hp, rfl⟩ := nodelinkListDelete_ok hkill
    have hpx := Option.some.inj hp
    refine ⟨hnow, hslots, hclients, fun l hl => ?_, fun y hy hyp => ?_, fun y hy _ => ?_⟩
    · exact hlinks ▸ (List.mem_filter.mp hl).1
    · exact absurd (hyp.trans hpx) (mem_remove.mp hy).2
    · exact hnodes ▸ (mem_remove.mp hy).1
  rcases hcases with ⟨rfl, rfl⟩ | ⟨-, ⟨rfl, rfl⟩ | ⟨rfl, rfl⟩⟩
  · rcases hend with ⟨-, hkill⟩ | ⟨hin, rfl⟩
    · exact hkilled rfl rfl rfl rfl rfl hkill
    · refine ⟨rfl, rfl, rfl, fun l hl => hl, fun y hy hyp => ?_, fun y hy _ => hy⟩
      rw [hn.nodelinksDistinct.eq hy hm hyp, hin]
  · rcases hend with ⟨-, hkill⟩ | ⟨hin, -⟩
    · exact @hkilled n.asked rfl rfl rfl rfl rfl hkill
    · cases hin
  · rcases hend with ⟨hin, -⟩ | ⟨-, rfl⟩
    · cases hin
    · refine ⟨rfl, rfl, rfl, fun l hl => hl, fun y hy hyp => ?_, fun y hy hne => ?_⟩
      · obtain ⟨x, hx, rfl⟩ := mem_modify.mp hy
        split_ifs at hyp ⊢ with hxp
        · simp [nodeOverdue, elapsed]
        · exact absurd hyp hxp
      · obtain ⟨x, hx, rfl⟩ := mem_modify.mp hy
        split_ifs at hne ⊢ with hxp
        · exact absurd hxp hne
        · exact hx

/-- A slot is closed if it is overdue; a client that logs in by it goes with it. -/
theorem timeoutNewconn_looked
    {i : Nat}
    (hn : Core n) (h : n.timeoutNewconn i = .ok u) :
    u.now = n.now ∧ u.slotOverdue (u.slot i) = false ∧
      (∀ j, j ≠ i → u.slot j = n.slot j) ∧
      ∀ d ∈ n.clients, (n.slotOverdue (n.slot i) = true → (n.slot i).type = .c2n →
        (n.slot i).iconn ≠ some d.ptr) → ∃ c ∈ u.clients, c.stamp = d.stamp := by
  rw [timeoutNewconn] at h
  split_ifs at h with hlate
  · obtain ⟨k, hk, rfl⟩ := newconnClose_ok h
    have hover : n.slotOverdue (n.slot i) = true := by simpa [slotOverdue] using hlate
    have hk' : k.now = n.now ∧ k.newconns = n.newconns ∧
        ∀ d ∈ n.clients, ((n.slot i).type = .c2n → (n.slot i).iconn ≠ some d.ptr) →
          ∃ c ∈ k.clients, c.stamp = d.stamp := by
      rcases hk with ⟨-, rfl⟩ | ⟨c, hc, hcon, hty, rfl⟩ | ⟨l, -, -, -, rfl⟩
      · exact ⟨rfl, rfl, fun d hd _ => ⟨d, hd, rfl⟩⟩
      · refine ⟨dropClient_now hn hc, dropClient_newconns hn hc, fun d hd hother => ?_⟩
        exact dropClient_spares hd fun heq => hother hty (by rw [hcon, heq])
      · exact ⟨rfl, rfl, fun d hd _ => ⟨d, hd, rfl⟩⟩
    obtain ⟨hnow, hslots, hspares⟩ := hk'
    have hslot : ∀ j, k.slot j = n.slot j := fun j => by rw [slot, slot, hslots]
    have hself := @slot_setSlot_self k i (fun nc =>
      { nc with sck := -1, buf := [], iconn := none, type := .unknown })
      (by rw [hslot]; exact hlate.1)
    refine ⟨hnow, ?_, fun j hj => ?_, fun d hd hother => hspares d hd (hother hover)⟩
    · rw [hself]
      simp [slotOverdue]
    · rw [slot_setSlot, if_neg fun hji => hj hji.1, hslot]
  · cases h
    exact ⟨rfl, by simpa [slotOverdue] using hlate, fun _ _ => rfl, fun d hd _ => ⟨d, hd, rfl⟩⟩

/-! ### The four loops -/

theorem slotOverdue_congr
    {nc : NewConn} (hnow : u.now = n.now) :
    u.slotOverdue nc = n.slotOverdue nc := by
  simp only [slotOverdue, hnow]

theorem slot_congr {i : Nat} (h : u.newconns = n.newconns) : u.slot i = n.slot i := by
  rw [slot, slot, h]

/-- The new connections that are left are in time. -/
theorem processTimeoutsNewconn_inTime
    (hn : Core n) (h : n.processTimeoutsNewconn = .ok u) :
    (Core u ∧ u.now = n.now) ∧ ∀ i < maxNewconns, u.slotOverdue (u.slot i) = false := by
  have hstep : ∀ (s : Node) (i : Nat) (t : Node), i ∈ List.range maxNewconns →
      Core s ∧ s.now = n.now → s.timeoutNewconn i = .ok t →
      (Core t ∧ t.now = n.now) ∧ t.slotOverdue (t.slot i) = false ∧
        ∀ j, s.slotOverdue (s.slot j) = false → t.slotOverdue (t.slot j) = false := by
    intro s i t hi hs ht
    obtain ⟨hnow, hself, hothers, -⟩ := timeoutNewconn_looked hs.1 ht
    have hcore : Core t :=
      nodeStep_core hs.1 (step_ok (step_timeoutNewconn (List.mem_range.mp hi)) ht)
    refine ⟨⟨hcore, hnow.trans hs.2⟩, hself, fun j hj => ?_⟩
    by_cases hji : j = i
    · rw [hji, hself]
    · rw [hothers j hji, slotOverdue_congr hnow, hj]
  obtain ⟨hend, heach, -⟩ := foldlM_each
    (Q := fun i s => s.slotOverdue (s.slot i) = false) hstep ⟨hn, rfl⟩ h
  exact ⟨hend, fun i hi => heach i (List.mem_range.mpr hi)⟩

/-- The node after the loop over the clients. -/
theorem pass_loopC2n
    (hn : Core n) (h : loopC2n.pass .stuck n = .ok u) :
    (Core u ∧ u.now = n.now ∧ u.newconns = n.newconns) ∧
      ∀ c ∈ u.clients, u.clientOverdue c = false := by
  have hlocal := loopC2n_local.and (P := fun s => s.now = n.now ∧ s.newconns = n.newconns)
    fun hs hP _ hbody => ⟨(body_looked hs hbody).now.trans hP.1,
      (body_looked hs hbody).newconns.trans hP.2⟩
  have heach := hlocal.pass_each (Q := fun k s => ∀ c ∈ s.clients, c.ptr = k →
    s.clientOverdue c = false) (fun hs _ hbody => (body_looked hs.1 hbody).settled) ?_ ⟨hn, rfl, rfl⟩ h
  · exact ⟨heach.1, fun c hc => heach.2 c.ptr (List.mem_map_of_mem hc) c hc rfl⟩
  · intro s k j u hs _ hbody hjk hQ c hc hcj
    have hlooked := body_looked hs.1 hbody
    obtain ⟨d, hd, hstamp⟩ := hlooked.others c hc (hcj ▸ hjk)
    rw [overdue_of_stamp hlooked.now hstamp]
    exact hQ d hd ((congrArg Prod.fst hstamp).trans hcj)

theorem linkExpired_congr {l : CCLink} (hnow : u.now = n.now) :
    u.linkExpired l = n.linkExpired l := by
  simp only [linkExpired, hnow]

theorem nodeOverdue_congr {m : NodeLink} (hnow : u.now = n.now) :
    u.nodeOverdue m = n.nodeOverdue m := by
  simp only [nodeOverdue, hnow]

/-- The node after the loop over the links. -/
theorem pass_loopC2c
    (hn : Core n) (h : loopC2c.pass .stuck n = .ok u) :
    (Core u ∧ u.now = n.now ∧ u.newconns = n.newconns ∧ u.clients = n.clients) ∧
      ∀ l ∈ u.cclinks, u.linkExpired l = false := by
  have hlocal := loopC2c_local.and
    (P := fun s => s.now = n.now ∧ s.newconns = n.newconns ∧ s.clients = n.clients) ?_
  · have heach := hlocal.pass_each
      (Q := fun k s => ∀ l ∈ s.cclinks, l.ptr = k → s.linkExpired l = false) ?_ ?_ ⟨hn, rfl, rfl, rfl⟩ h
    · exact ⟨heach.1, fun l hl => heach.2 l.ptr (List.mem_map_of_mem hl) l hl rfl⟩
    · intro s k u hs _ hbody l hl hlk
      obtain ⟨hnow, -, -, hlinks⟩ := body_loopC2c_looked hs.1 hbody
      rw [linkExpired_congr hnow]
      exact (hlinks l hl).2 hlk
    · intro s k j u hs _ hbody _ hQ l hl hlj
      obtain ⟨hnow, -, -, hlinks⟩ := body_loopC2c_looked hs.1 hbody
      rw [linkExpired_congr hnow]
      exact hQ l (hlinks l hl).1 hlj
  · intro s k u hs hP _ hbody
    obtain ⟨hnow, hslots, hclients, -⟩ := body_loopC2c_looked hs hbody
    exact ⟨hnow.trans hP.1, hslots.trans hP.2.1, hclients.trans hP.2.2⟩

/-- The node after the loop over the other nodes. -/
theorem pass_loopN2n
    (hn : Core n) (h : loopN2n.pass .stuck n = .ok u) :
    (Core u ∧ u.now = n.now ∧ u.newconns = n.newconns ∧ u.clients = n.clients ∧
      ∀ l ∈ u.cclinks, l ∈ n.cclinks) ∧ ∀ m ∈ u.nodelinks, u.nodeOverdue m = false := by
  have hlocal := loopN2n_local.and (P := fun s => s.now = n.now ∧ s.newconns = n.newconns ∧
    s.clients = n.clients ∧ ∀ l ∈ s.cclinks, l ∈ n.cclinks) ?_
  · have heach := hlocal.pass_each
      (Q := fun k s => ∀ m ∈ s.nodelinks, m.ptr = k → s.nodeOverdue m = false) ?_ ?_
      ⟨hn, rfl, rfl, rfl, fun _ hl => hl⟩ h
    · exact ⟨heach.1, fun m hm => heach.2 m.ptr (List.mem_map_of_mem hm) m hm rfl⟩
    · intro s k u hs _ hbody m hm hmk
      obtain ⟨hnow, -, -, -, hself, -⟩ := body_loopN2n_looked hs.1 hbody
      rw [nodeOverdue_congr hnow]
      exact hself m hm hmk
    · intro s k j u hs _ hbody hjk hQ m hm hmj
      obtain ⟨hnow, -, -, -, -, hothers⟩ := body_loopN2n_looked hs.1 hbody
      rw [nodeOverdue_congr hnow]
      exact hQ m (hothers m hm (hmj ▸ hjk)) hmj
  · intro s k u hs hP _ hbody
    obtain ⟨hnow, hslots, hclients, hlinks, -, -⟩ := body_loopN2n_looked hs hbody
    exact ⟨hnow.trans hP.1, hslots.trans hP.2.1, hclients.trans hP.2.2.1,
      fun l hl => hP.2.2.2 l (hlinks l hl)⟩

theorem processTimeouts_ok
    (h : n.processTimeouts = .ok u) :
    ∃ n₁ n₂ n₃, n.processTimeoutsNewconn = .ok n₁ ∧ loopC2n.pass .stuck n₁ = .ok n₂ ∧
      loopC2c.pass .stuck n₂ = .ok n₃ ∧ loopN2n.pass .stuck n₃ = .ok u := by
  obtain ⟨n₁, h₁, hrest⟩ := bind_eq_ok.mp h
  obtain ⟨n₂, h₂, hrest₂⟩ := bind_eq_ok.mp hrest
  obtain ⟨n₃, h₃, h₄⟩ := bind_eq_ok.mp hrest₂
  exact ⟨n₁, n₂, n₃, h₁, h₂, h₃, h₄⟩

/-- **Nothing is overdue after a pass**: what a later loop deletes or asks does not make a record
overdue that an earlier one has looked at. -/
theorem nothing_overdue (hn : Reachable n) (h : n.processTimeouts = .ok u) : u.InTime := by
  obtain ⟨n₁, n₂, n₃, h₁, h₂, h₃, h₄⟩ := processTimeouts_ok h
  obtain ⟨⟨hcore₁, -⟩, hslots⟩ := processTimeoutsNewconn_inTime hn.core h₁
  obtain ⟨⟨hcore₂, hnow₂, hsame₂⟩, hclients⟩ := pass_loopC2n hcore₁ h₂
  obtain ⟨⟨hcore₃, hnow₃, hsame₃, hclients₃⟩, hlinks⟩ := pass_loopC2c hcore₂ h₃
  obtain ⟨⟨-, hnow₄, hsame₄, hclients₄, hlinks₄⟩, hnodes⟩ := pass_loopN2n hcore₃ h₄
  have hnow : u.now = n₁.now := hnow₄.trans (hnow₃.trans hnow₂)
  refine ⟨fun i hi => ?_, fun c hc => ?_, fun l hl => ?_, hnodes⟩
  · rw [slotOverdue_congr hnow, slot_congr (hsame₄.trans (hsame₃.trans hsame₂))]
    exact hslots i hi
  · rw [overdue_of_stamp (hnow₄.trans hnow₃) rfl]
    exact hclients c (by rwa [hclients₄, hclients₃] at hc)
  · rw [linkExpired_congr hnow₄]
    exact hlinks l (hlinks₄ l hl)

theorem nothing_overdue_silent :
    ∃ u, (stateAfter freshNode calleeSilent).processTimeouts = .ok u ∧
      u.clients.map Client.ptr = [1] ∧ u.InTime := by
  obtain ⟨u, hu, hptrs, -⟩ := calleeSilent_pass
  exact ⟨u, hu, hptrs, nothing_overdue calleeSilent_reachable hu⟩

theorem processTimeoutsNewconn_spares
    (hn : Core n) (h : n.processTimeoutsNewconn = .ok u) (hd : d ∈ n.clients)
    (hlogin : ∀ i, n.slotOverdue (n.slot i) = true → (n.slot i).type = .c2n →
      (n.slot i).iconn ≠ some d.ptr) :
    ∃ c ∈ u.clients, c.stamp = d.stamp := by
  have hstep : ∀ (s : Node) (i : Nat) (t : Node), i ∈ List.range maxNewconns →
      (Core s ∧ (∃ c ∈ s.clients, c.stamp = d.stamp) ∧ ∀ i, s.slotOverdue (s.slot i) = true →
        (s.slot i).type = .c2n → (s.slot i).iconn ≠ some d.ptr) →
      s.timeoutNewconn i = .ok t →
      Core t ∧ (∃ c ∈ t.clients, c.stamp = d.stamp) ∧ ∀ i, t.slotOverdue (t.slot i) = true →
        (t.slot i).type = .c2n → (t.slot i).iconn ≠ some d.ptr := by
    rintro s i t hi ⟨hs, ⟨c, hc, hstamp⟩, hslots⟩ ht
    obtain ⟨hnow, hself, hothers, hspares⟩ := timeoutNewconn_looked hs ht
    have hcore : Core t :=
      nodeStep_core hs (step_ok (step_timeoutNewconn (List.mem_range.mp hi)) ht)
    have hptr : c.ptr = d.ptr := congrArg Prod.fst hstamp
    obtain ⟨x, hx, hxs⟩ := hspares c hc (hptr ▸ hslots i)
    refine ⟨hcore, ⟨x, hx, hxs.trans hstamp⟩, fun j hj => ?_⟩
    by_cases hji : j = i
    · rw [hji, hself] at hj
      cases hj
    · rw [hothers j hji] at hj ⊢
      rw [slotOverdue_congr hnow] at hj
      exact hslots j hj
  exact (foldlM_invariant hstep ⟨hn, ⟨d, hd, rfl⟩, hlogin⟩ h).2.1

theorem pass_loopC2n_spares
    (hn : Core n) (h : loopC2n.pass .stuck n = .ok u)
    (hd : d ∈ n.clients) (hin : n.clientOverdue d = false) :
    ∃ c ∈ u.clients, c.stamp = d.stamp := by
  have hlocal := loopC2n_local.and
    (P := fun s => s.now = n.now ∧ ∃ c ∈ s.clients, c.stamp = d.stamp) ?_
  · have heach := hlocal.pass_each (Q := fun _ _ => True) (fun _ _ _ => trivial)
      (fun _ _ _ _ _ => trivial) ⟨hn, rfl, d, hd, rfl⟩ h
    exact heach.1.2.2
  · rintro s k u hs ⟨hnow, c, hc, hstamp⟩ _ hbody
    have hlooked := body_looked hs hbody
    have hinc : s.clientOverdue c = false := by
      rw [overdue_of_stamp hnow hstamp.symm, hin]
    obtain ⟨x, hx, hxs⟩ := hlooked.spared c hc (.inr hinc)
    exact ⟨hlooked.now.trans hnow, x, hx, hxs.trans hstamp⟩

/-- **A pass spares who is in time.**  A client whose time has not run out, and which does not
log in by a new connection whose time has, is still there after the pass, with the same stamps. -/
theorem timeouts_spare
    (hn : Reachable n) (h : n.processTimeouts = .ok u)
    (hd : d ∈ n.clients) (hin : n.clientOverdue d = false)
    (hlogin : ∀ i, n.slotOverdue (n.slot i) = true → (n.slot i).type = .c2n →
      (n.slot i).iconn ≠ some d.ptr) :
    ∃ c ∈ u.clients, c.stamp = d.stamp := by
  obtain ⟨n₁, n₂, n₃, h₁, h₂, h₃, h₄⟩ := processTimeouts_ok h
  obtain ⟨⟨hcore₁, hnow₁⟩, -⟩ := processTimeoutsNewconn_inTime hn.core h₁
  obtain ⟨⟨hcore₂, -⟩, -⟩ := pass_loopC2n hcore₁ h₂
  obtain ⟨⟨hcore₃, -, -, hclients₃⟩, -⟩ := pass_loopC2c hcore₂ h₃
  obtain ⟨⟨-, -, -, hclients₄, -⟩, -⟩ := pass_loopN2n hcore₃ h₄
  obtain ⟨c, hc, hstamp⟩ := processTimeoutsNewconn_spares hn.core h₁ hd hlogin
  have hinc : n₁.clientOverdue c = false := by rw [overdue_of_stamp hnow₁ hstamp.symm, hin]
  obtain ⟨x, hx, hxs⟩ := pass_loopC2n_spares hcore₁ h₂ hc hinc
  refine ⟨x, ?_, hxs.trans hstamp⟩
  rwa [hclients₄, hclients₃]

/-- Client 1 is still there after the pass that deletes client 2. -/
theorem timeouts_spare_caller :
    ∃ u, (stateAfter freshNode calleeSilent).processTimeouts = .ok u ∧
      ∃ d ∈ (stateAfter freshNode calleeSilent).clients, ∃ c ∈ u.clients,
        d.ptr = 1 ∧ c.stamp = d.stamp := by
  obtain ⟨u, hu, -⟩ := calleeSilent_pass
  obtain ⟨d, hd, hptr, hin⟩ : ∃ d ∈ (stateAfter freshNode calleeSilent).clients,
      d.ptr = 1 ∧ (stateAfter freshNode calleeSilent).clientOverdue d = false := by decide +kernel
  have hfree : ∀ nc ∈ (stateAfter freshNode calleeSilent).newconns, nc.sck = -1 := by
    decide +kernel
  have hslots : ∀ i, (stateAfter freshNode calleeSilent).slotOverdue
      ((stateAfter freshNode calleeSilent).slot i) = false := by
    intro i
    rw [slot, List.getD_eq_getElem?_getD]
    cases hi : (stateAfter freshNode calleeSilent).newconns[i]? with
    | none => simp [slotOverdue]
    | some nc => simp [slotOverdue, hfree nc (List.mem_of_getElem? hi)]
  obtain ⟨c, hc, hstamp⟩ := timeouts_spare calleeSilent_reachable hu hd hin
    fun i hi => absurd hi (by simp [hslots i])
  exact ⟨u, hu, d, hd, c, hc, hptr, hstamp⟩

end Left

end PicaPica
