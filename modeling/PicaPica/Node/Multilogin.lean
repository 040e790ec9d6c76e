import PicaPica.Node.LoginMap

/-!
# All logins are notified

A login is announced to the other logins with its identifier and to all nodes, and what a
node announces goes to the logins whose certificate its signature fits.  The two loops
visit what `LoginMap` says they visit; each push asks for memory once, and a receiver
without memory for the message is left out.
-/

namespace PicaPica

open Table Machine PointerTree

/-! ## Loops that push -/

section Push

variable {f : Frame} {n : Node}

theorem clientWbufPush_eq {p : Ptr} (h : ∃ c ∈ n.clients, c.ptr = p) :
    n.clientWbufPush (some p) f = .ok ({ n with
      tick := n.tick + 1
      clients := if n.mem n.tick then
          modify Client.ptr p (fun c => { c with pushed := c.pushed ++ [f] }) n.clients
        else n.clients }, n.mem n.tick) := by
  obtain ⟨c, hc⟩ := lookup_of_mem h
  have hptr := (lookup_eq_some hc).2
  simp only [Node.clientWbufPush, Node.derefClient, deref, hc]
  change (if _ then _ else _) = _
  subst hptr
  split_ifs with hm
  · simp only [hm]
    rfl
  · simp only [hm]
    rfl

theorem nodelinkWbufPush_eq {p : Ptr} (h : ∃ nl ∈ n.nodelinks, nl.ptr = p) :
    n.nodelinkWbufPush (some p) f = .ok ({ n with
      tick := n.tick + 1
      nodelinks := if n.mem n.tick then
          modify NodeLink.ptr p (fun nl => { nl with pushed := nl.pushed ++ [f] }) n.nodelinks
        else n.nodelinks }, n.mem n.tick) := by
  obtain ⟨nl, hnl⟩ := lookup_of_mem h
  have hptr := (lookup_eq_some hnl).2
  simp only [Node.nodelinkWbufPush, Node.derefNodelink, deref, hnl]
  change (if _ then _ else _) = _
  subst hptr
  split_ifs with hm
  · simp only [hm]
    rfl
  · simp only [hm]
    rfl

/-- **The loop over all nodes.** -/
theorem pushToNodes_eq
    {nls : List NodeLink}
    (h : ∀ nl ∈ nls, ∃ m ∈ n.nodelinks, m.ptr = nl.ptr) :
    Node.pushToNodes f nls n = .ok { n with
      tick := n.tick + nls.length
      nodelinks := modifyEach NodeLink.ptr n.mem
        (fun nl => { nl with pushed := nl.pushed ++ [f] }) n.tick (nls.map NodeLink.ptr)
        n.nodelinks } := by
  induction nls generalizing n with
  | nil => rfl
  | cons nl nls ih =>
      rw [Node.pushToNodes, nodelinkWbufPush_eq (h nl List.mem_cons_self)]
      change Node.pushToNodes f nls _ = _
      rw [ih]
      · simp only [List.map_cons, List.length_cons, modifyEach]
        congr 2
        omega
      · intro m hm
        dsimp only
        split_ifs
        · exact key_modify (fun _ => rfl) (h m (List.mem_cons_of_mem nl hm))
        · exact h m (List.mem_cons_of_mem nl hm)

/-- **The loop over the logins.** -/
theorem relayLogins_eq
    {tree : Id → Option Ptr} {next : Ptr → Option Ptr} {me : Option Ptr} {fuel : Nat}
    {o : Option Ptr} {ps : List Ptr}
    (hchain : Chain next o ps) (hlive : ∀ p ∈ ps, ∃ c ∈ n.clients, c.ptr = p)
    (hfuel : ps.length ≤ fuel) :
    relayLogins f me fuel o ⟨n, tree, next⟩ = .ok ⟨{ n with
      tick := n.tick + (ps.filter fun p => some p ≠ me).length
      clients := modifyEach Client.ptr n.mem (fun c => { c with pushed := c.pushed ++ [f] })
        n.tick (ps.filter fun p => some p ≠ me) n.clients }, tree, next⟩ := by
  induction ps generalizing n o fuel with
  | nil =>
      simp only [Chain] at hchain
      subst hchain
      cases fuel with
      | zero => rfl
      | succ fuel => rfl
  | cons p ps ih =>
      obtain ⟨rfl, hrest⟩ := hchain
      simp only [List.length_cons] at hfuel
      obtain ⟨fuel, rfl⟩ : ∃ k, fuel = k + 1 := ⟨fuel - 1, by omega⟩
      obtain ⟨c, hc⟩ := lookup_of_mem (hlive p List.mem_cons_self)
      have hderef : n.derefClient (some p) = .ok c := by
        simp only [Node.derefClient, deref, hc]
      rw [relayLogins, hderef]
      change (if _ then _ else _) = _
      by_cases hme : some p = me
      · rw [if_pos hme, ih hrest (fun q hq => hlive q (List.mem_cons_of_mem p hq)) (by omega)]
        simp [hme]
      · rw [if_neg hme, clientWbufPush_eq (hlive p List.mem_cons_self)]
        change relayLogins f me fuel (next p) ⟨_, tree, next⟩ = _
        rw [ih hrest ?_ (by omega)]
        · have hcons : (p :: ps).filter (fun q => some q ≠ me) =
              p :: ps.filter fun q => some q ≠ me := List.filter_cons_of_pos (by simpa using hme)
          rw [hcons]
          simp only [List.length_cons, modifyEach]
          congr 3
          omega
        · intro q hq
          dsimp only
          split_ifs
          · exact key_modify (fun _ => rfl) (hlive q (List.mem_cons_of_mem p hq))
          · exact hlive q (List.mem_cons_of_mem p hq)

end Push

namespace Logins

/-- The logins with an identifier, as a loop over `next_multi` visits them. -/
def instances (t : Logins) (id : Id) : List Ptr :=
  follow t.nextMulti t.node.clients.length (t.tree id)

/-- The logins are those the tree and the chains have. -/
structure Consistent (t : Logins) : Prop where
  distinct : Distinct Client.ptr t.node.clients
  /-- The entry of an identifier is its connected client. -/
  entry : ∀ id p, t.tree id = some p ↔
    ∃ c ∈ t.node.clients, c.ptr = p ∧ c.id = id ∧ c.state = .connected
  /-- The chain behind the entry has the other logins, and nothing else. -/
  chain : ∀ id p, t.tree id = some p → ∃ ps, Chain t.nextMulti (t.nextMulti p) ps ∧ ps.Nodup ∧
    t.instances id = p :: ps ∧
    ∀ q, q ∈ ps ↔ ∃ c ∈ t.node.clients, c.ptr = q ∧ c.id = id ∧ c.state = .multiloginSecondary
  /-- One client of each identifier with logins is connected. -/
  one : ∀ c ∈ t.node.clients, c.state.early = false →
    ∃ d ∈ t.node.clients, d.id = c.id ∧ d.state = .connected ∧ t.tree c.id = some d.ptr ∧
      ∀ d' ∈ t.node.clients, d'.id = c.id → d'.state = .connected → d' = d

/-- `f` is pushed once to each of the clients `cls` and the nodes `nls` for which there is
memory, in this order, and to no other; nothing else that logins depend on changes. -/
structure Relayed (t : Logins) (f : Frame) (cls nls : List Ptr) (t' : Logins) : Prop where
  clients : t'.node.clients = t.node.clients.map fun c =>
    if c.ptr ∈ cls ∧ t.node.mem (t.node.tick + cls.idxOf c.ptr) then
      { c with pushed := c.pushed ++ [f] }
    else c
  nodelinks : t'.node.nodelinks = t.node.nodelinks.map fun nl =>
    if nl.ptr ∈ nls ∧ t.node.mem (t.node.tick + cls.length + nls.idxOf nl.ptr) then
      { nl with pushed := nl.pushed ++ [f] }
    else nl
  tree : t'.tree = t.tree
  nextMulti : t'.nextMulti = t.nextMulti

section Relay

variable {t t' : Logins} {secs : Id → List Ptr} {ci p : Ptr} {id : Id} {f : Frame}
  {cls nls : List Ptr}

theorem Mapped.instances_eq (h : t.Mapped secs) (hp : t.tree id = some p) :
    t.instances id = p :: secs id := by
  have hchain : Chain t.nextMulti (t.tree id) (p :: secs id) := ⟨hp, h.map.chain id p hp⟩
  exact hchain.follow_eq (h.length_secs hp)

theorem Mapped.instances_nil (hp : t.tree id = none) : t.instances id = [] := by
  rw [instances, hp]
  cases t.node.clients.length with
  | zero => rfl
  | succ n => rfl

/-- The loop visits the logins with the identifier. -/
theorem Mapped.mem_instances (h : t.Mapped secs) :
    p ∈ t.instances id ↔ t.who p = some (.connected, id) ∨
      t.who p = some (.multiloginSecondary, id) := by
  rw [← h.map.entry, ← h.map.mem]
  cases htree : t.tree id with
  | none => simp [instances_nil htree, h.map.rooted id htree]
  | some q =>
      rw [h.instances_eq htree, List.mem_cons, Option.some.injEq]
      exact or_congr_left eq_comm

theorem Mapped.instances_nodup (h : t.Mapped secs) : (t.instances id).Nodup := by
  cases htree : t.tree id with
  | none => simp [instances_nil htree]
  | some q =>
      rw [h.instances_eq htree]
      exact h.map.nodup_cons htree

theorem Mapped.instances_live (h : t.Mapped secs) (hp : p ∈ t.instances id) :
    ∃ c ∈ t.node.clients, c.ptr = p := by
  rcases h.mem_instances.mp hp with hwho | hwho
  · obtain ⟨c, hc, hptr, -⟩ := (who_eq_some h.distinct).mp hwho
    exact ⟨c, hc, hptr⟩
  · obtain ⟨c, hc, hptr, -⟩ := (who_eq_some h.distinct).mp hwho
    exact ⟨c, hc, hptr⟩

/-- The loop over the logins with an identifier. -/
theorem Mapped.relay
    {me : Option Ptr}
    (h : t.Mapped secs) :
    relayLogins f me t.node.clients.length (t.tree id) t = .ok { t with node := { t.node with
      tick := t.node.tick + ((t.instances id).filter fun p => some p ≠ me).length
      clients := modifyEach Client.ptr t.node.mem
        (fun c => { c with pushed := c.pushed ++ [f] }) t.node.tick
        ((t.instances id).filter fun p => some p ≠ me) t.node.clients } } := by
  have hlive : ∀ p ∈ t.instances id, ∃ c ∈ t.node.clients, c.ptr = p :=
    fun p hp => h.instances_live hp
  cases htree : t.tree id with
  | none =>
      rw [instances_nil htree] at hlive ⊢
      exact @relayLogins_eq f t.node t.tree t.nextMulti me _ none [] rfl hlive (Nat.zero_le _)
  | some q =>
      rw [h.instances_eq htree] at hlive ⊢
      exact @relayLogins_eq f t.node t.tree t.nextMulti me _ (some q) (q :: secs id)
        ⟨rfl, h.map.chain id q htree⟩ hlive (h.length_secs htree)

theorem Mapped.consistent (h : t.Mapped secs) : t.Consistent := by
  have hwho : ∀ {p st id}, t.who p = some (st, id) ↔
      ∃ c ∈ t.node.clients, c.ptr = p ∧ c.id = id ∧ c.state = st := by
    intro p st id
    rw [who_eq_some h.distinct]
    exact exists_congr fun c => and_congr_right fun _ => and_congr_right fun _ => and_comm
  have hentry : ∀ id p, t.tree id = some p ↔
      ∃ c ∈ t.node.clients, c.ptr = p ∧ c.id = id ∧ c.state = .connected :=
    fun id p => (h.map.entry id p).trans hwho
  refine ⟨h.distinct, hentry, ?_, ?_⟩
  · intro id p hp
    exact ⟨secs id, h.map.chain id p hp, h.map.nodup id, h.instances_eq hp,
      fun q => (h.map.mem id q).trans hwho⟩
  · intro c hc hst
    obtain ⟨p, hp⟩ : ∃ p, t.tree c.id = some p := by
      cases htree : t.tree c.id with
      | some p => exact ⟨p, rfl⟩
      | none =>
          have hout := h.map.outside_of_none (hwho.mpr ⟨c, hc, rfl, rfl, rfl⟩) htree c.id
          rw [hwho.mpr ⟨c, hc, rfl, rfl, rfl⟩] at hout
          cases hcst : c.state with
          | connected => exact absurd (congrArg (fun s => some (s, c.id)) hcst) hout.1
          | multiloginSecondary => exact absurd (congrArg (fun s => some (s, c.id)) hcst) hout.2
          | waitAnonTlsShutdown =>
              rw [hcst] at hst
              cases hst
          | tlsNegotiation =>
              rw [hcst] at hst
              cases hst
    obtain ⟨d, hd, rfl, hid, hconn⟩ := (hentry c.id p).mp hp
    refine ⟨d, hd, hid, hconn, hp, ?_⟩
    intro d' hd' hid' hconn'
    have hp' := (hentry c.id d'.ptr).mpr ⟨d', hd', rfl, hid', hconn'⟩
    exact h.distinct.eq hd' hd (Option.some.inj (hp'.symm.trans hp))

/-- Messages leave the logins as they are. -/
theorem Relayed.who (h : t.Relayed f cls nls t') : t'.who = t.who := by
  funext p
  rw [Logins.who, Logins.who, h.clients, lookup, lookup, List.find?_map]
  have hfun : ((fun c : Client => decide (c.ptr = p)) ∘ fun c =>
      if c.ptr ∈ cls ∧ t.node.mem (t.node.tick + cls.idxOf c.ptr) then
        { c with pushed := c.pushed ++ [f] }
      else c) = fun c : Client => decide (c.ptr = p) := by
    funext c
    simp only [Function.comp_apply]
    split_ifs <;> rfl
  rw [hfun, Option.map_map]
  refine congrArg (Option.map · _) ?_
  funext c
  simp only [Function.comp_apply]
  split_ifs <;> rfl

theorem Relayed.sound (h : t.Relayed f cls nls t') (ht : t.Sound) : t'.Sound := by
  obtain ⟨⟨secs, hdist, hmap⟩, hnodes, hanon⟩ := ht
  refine ⟨⟨secs, ?_, ?_⟩, ?_, ?_⟩
  · rw [h.clients, Distinct, List.map_map]
    have hkey : t.node.clients.map Client.ptr = t.node.clients.map (Client.ptr ∘ fun c =>
        if c.ptr ∈ cls ∧ t.node.mem (t.node.tick + cls.idxOf c.ptr) then
          { c with pushed := c.pushed ++ [f] }
        else c) := by
      refine List.map_congr_left fun c _ => ?_
      simp only [Function.comp_apply]
      split_ifs <;> rfl
    rw [← hkey]
    exact hdist
  · rw [h.tree, h.nextMulti, h.who]
    exact hmap
  · rw [h.nodelinks, Distinct, List.map_map]
    have hkey : t.node.nodelinks.map NodeLink.ptr = t.node.nodelinks.map (NodeLink.ptr ∘ fun nl =>
        if nl.ptr ∈ nls ∧ t.node.mem (t.node.tick + cls.length + nls.idxOf nl.ptr) then
          { nl with pushed := nl.pushed ++ [f] }
        else nl) := by
      refine List.map_congr_left fun nl _ => ?_
      simp only [Function.comp_apply]
      split_ifs <;> rfl
    rw [← hkey]
    exact hnodes
  · rw [h.tree]
    exact hanon

/-! ### The two handlers -/

/-- What the two loops make of the state. -/
def pushedTo (t : Logins) (f : Frame) (cls nls : List Ptr) : Logins :=
  { t with node := { t.node with
    tick := t.node.tick + cls.length + nls.length
    clients := modifyEach Client.ptr t.node.mem (fun c => { c with pushed := c.pushed ++ [f] })
      t.node.tick cls t.node.clients
    nodelinks := modifyEach NodeLink.ptr t.node.mem
      (fun nl => { nl with pushed := nl.pushed ++ [f] }) (t.node.tick + cls.length) nls
      t.node.nodelinks } }

theorem pushedTo_relayed (hcls : cls.Nodup) (hnls : nls.Nodup) :
    t.Relayed f cls nls (t.pushedTo f cls nls) :=
  ⟨modifyEach_eq (fun _ => rfl) hcls, modifyEach_eq (fun _ => rfl) hnls, rfl, rfl⟩

/-- The message that is built from a `MULTILOGIN` message is the same one. -/
theorem isMultilogin_copy (hf : isMultilogin f) :
    head Proto.MULTILOGIN ++ f.drop 2 = f ∧ (f.drop 2).take (load16 f 2 + 2) = f.drop 2 := by
  simp only [isMultilogin, decide_eq_true_eq] at hf
  obtain ⟨h0, h1, hlen⟩ := hf
  constructor
  · match f, h0, h1, hlen with
    | [], _, _, hlen =>
        simp only [List.length_nil] at hlen
        omega
    | [_], _, _, hlen =>
        simp only [List.length_cons, List.length_nil] at hlen
        omega
    | a :: b :: rest, h0, h1, _ =>
        have ha : a = UInt8.ofNat Proto.MULTILOGIN := by
          rw [← h0]
          exact UInt8.ofNat_toNat.symm
        have hb : b = UInt8.ofNat Proto.MULTILOGIN := by
          rw [← h1]
          exact UInt8.ofNat_toNat.symm
        rw [ha, hb]
        rfl
  · refine List.take_of_length_le ?_
    rw [List.length_drop]
    omega

/-- **`procmsg_MULTILOGIN_client`.** -/
theorem procmsgMULTILOGINClient_relayed
    {st : ClState}
    (h : t.Sound) (hci : t.who ci = some (st, id)) (hf : isMultilogin f) :
    ∃ t', t.procmsgMULTILOGINClient ci f = .ok (t', 1) ∧
      t.Relayed f ((t.instances id).filter (· ≠ ci)) (t.node.nodelinks.map NodeLink.ptr) t' := by
  obtain ⟨⟨secs, hmapped⟩, hnodes, hanon⟩ := h
  obtain ⟨c, -, hderef, -, -, hid⟩ := derefClient_of_who hci
  obtain ⟨hcopy, hcopy'⟩ := isMultilogin_copy hf
  have hfilter : (t.instances id).filter (fun p => some p ≠ some ci) =
      (t.instances id).filter (· ≠ ci) := by
    refine List.filter_congr fun p _ => ?_
    simp
  have hrelay := @Mapped.relay t secs id f (some ci) hmapped
  rw [hfilter] at hrelay
  have hnd : ((t.instances id).filter (· ≠ ci)).Nodup := hmapped.instances_nodup.filter _
  refine ⟨_, ?_, pushedTo_relayed hnd hnodes⟩
  · rw [procmsgMULTILOGINClient, hderef, hcopy, hcopy', hcopy]
    change (relayLogins f (some ci) t.node.clients.length (t.tree c.id) t >>= _) = _
    rw [hid, hrelay]
    have hloop := @pushToNodes_eq f (t.pushedTo f ((t.instances id).filter (· ≠ ci)) []).node
      t.node.nodelinks fun nl hnl => ⟨nl, hnl, rfl⟩
    change (Node.pushToNodes f t.node.nodelinks
      (t.pushedTo f ((t.instances id).filter (· ≠ ci)) []).node >>= _) = _
    rw [hloop, pushedTo, pushedTo, List.length_map]
    rfl

/-- `PICA_signverify` is called for the clients that are connected. -/
def asksSignature (f : Frame) : Bool :=
  8 + Proto.NODELIST_ITEM_IPV4_SIZE < load16 f 2 ∧
    (byteAt f 12 = Proto.NEWNODE_IPV4 ∨ byteAt f 12 = Proto.NEWNODE_IPV6)

/-- The loop from a connected client on. -/
theorem relay_from_connected
    {c : Client}
    (h : t.Mapped secs) (hc : c ∈ t.node.clients) (hst : c.state = .connected) :
    relayLogins f none t.node.clients.length (some c.ptr) t =
      .ok (t.pushedTo f (t.instances c.id) []) := by
  have htree : t.tree c.id = some c.ptr :=
    (h.map.entry _ _).mpr ((who_eq_some h.distinct).mpr ⟨c, hc, rfl, hst, rfl⟩)
  have hall : (t.instances c.id).filter (fun p => some p ≠ none) = t.instances c.id := by
    refine List.filter_eq_self.mpr fun p _ => ?_
    simp
  have hrelay := @Mapped.relay t secs c.id f none h
  rw [hall, htree] at hrelay
  rw [hrelay]
  rfl

/-- **`procmsg_MULTILOGIN_node`.** -/
theorem procmsgMULTILOGINNode_relayed
    {accepts : Ptr → Bool} {c : Client}
    (h : t.Sound) (hf : asksSignature f) (hc : c ∈ t.node.clients) (hst : c.state = .connected)
    (hacc : accepts c.ptr)
    (hone : ∀ d ∈ t.node.clients, d.state = .connected → accepts d.ptr → d.id = c.id) :
    ∃ t', t.procmsgMULTILOGINNode accepts f = .ok (t', 1) ∧
      t.Relayed f (t.instances c.id) [] t' := by
  obtain ⟨⟨secs, hmapped⟩, hnodes, hanon⟩ := h
  simp only [asksSignature, decide_eq_true_eq] at hf
  have htree : t.tree c.id = some c.ptr :=
    (hmapped.map.entry _ _).mpr ((who_eq_some hmapped.distinct).mpr ⟨c, hc, rfl, hst, rfl⟩)
  -- the search ends at the only client that is accepted
  have hfind : t.node.clients.find? (fun d => d.state = .connected ∧ accepts d.ptr) = some c := by
    cases hfind : t.node.clients.find? fun d => d.state = .connected ∧ accepts d.ptr with
    | none =>
        have := List.find?_eq_none.mp hfind c hc
        simp [hst, hacc] at this
    | some d =>
        have hd := List.mem_of_find?_eq_some hfind
        have hprop := List.find?_some hfind
        simp only [decide_eq_true_eq] at hprop
        have hid := hone d hd hprop.1 hprop.2
        have htree' : t.tree d.id = some d.ptr := (hmapped.map.entry _ _).mpr
          ((who_eq_some hmapped.distinct).mpr ⟨d, hd, rfl, hprop.1, rfl⟩)
        rw [hid, htree] at htree'
        rw [hmapped.distinct.eq hd hc (Option.some.inj htree').symm]
  refine ⟨_, ?_, pushedTo_relayed hmapped.instances_nodup List.nodup_nil⟩
  rw [procmsgMULTILOGINNode, if_neg (by omega), if_pos hf.2, hfind]
  dsimp only
  rw [relay_from_connected hmapped hc hst]
  rfl

theorem procmsgMULTILOGINNode_sound
    {accepts : Ptr → Bool}
    (h : t.Sound) :
    ∃ t' r, t.procmsgMULTILOGINNode accepts f = .ok (t', r) ∧ t'.Sound ∧
      t'.node.nodelinks.map NodeLink.ptr = t.node.nodelinks.map NodeLink.ptr := by
  unfold procmsgMULTILOGINNode
  split_ifs with hshort htype
  · exact ⟨t, 0, rfl, h, rfl⟩
  · cases hfind : t.node.clients.find? fun d => d.state = .connected ∧ accepts d.ptr with
    | none => exact ⟨t, 1, rfl, h, rfl⟩
    | some c =>
        obtain ⟨secs, hmapped⟩ := h.mapped
        have hst := List.find?_some hfind
        simp only [decide_eq_true_eq] at hst
        have hrelay := @relay_from_connected t secs f c hmapped (List.mem_of_find?_eq_some hfind)
          hst.1
        refine ⟨t.pushedTo f (t.instances c.id) [], 1, ?_,
          (pushedTo_relayed hmapped.instances_nodup List.nodup_nil).sound h, rfl⟩
        dsimp only
        rw [hrelay]
        rfl
  · exact ⟨t, 1, rfl, h, rfl⟩

end Relay

/-! ### Runs -/

section Runs

variable {t : Logins}

theorem who_of_any {ci : Ptr} {P : Client → Bool}
    (hd : Distinct Client.ptr t.node.clients)
    (h : t.node.clients.any fun c => c.ptr = ci ∧ P c) :
    ∃ c ∈ t.node.clients, P c ∧ t.who ci = some (c.state, c.id) := by
  obtain ⟨c, hc, hprop⟩ := List.any_eq_true.mp h
  simp only [decide_eq_true_eq] at hprop
  exact ⟨c, hc, hprop.2, (who_eq_some hd).mpr ⟨c, hc, hprop.1, rfl, rfl⟩⟩

/-- The clients do not depend on the nodes. -/
theorem Sound.of_clients
    {n : Node}
    (h : t.Sound) (hclients : n.clients = t.node.clients)
    (hnodes : Distinct NodeLink.ptr n.nodelinks) :
    Sound { t with node := n } := by
  obtain ⟨⟨secs, hdist, hmap⟩, -, hanon⟩ := h
  refine ⟨⟨secs, ?_, ?_⟩, hnodes, hanon⟩
  · rw [hclients]
    exact hdist
  · have hwho : Logins.who { t with node := n } = t.who := by
      funext p
      rw [Logins.who, Logins.who, hclients]
    rw [hwho]
    exact hmap

theorem nodelinkListDelete_sound
    {nl : Ptr}
    (h : t.Sound) (hnl : nl ∈ t.node.nodelinks.map NodeLink.ptr) :
    ∃ n, t.node.nodelinkListDelete (some nl) = .ok n ∧ Sound { t with node := n } := by
  obtain ⟨l, hl, rfl⟩ := List.mem_map.mp hnl
  have hderef : t.node.derefNodelink (some l.ptr) = .ok l := by
    simp only [Node.derefNodelink, deref, h.nodes.lookup hl]
  refine ⟨{ t.node.cclinkListDeleteByNodelink l.ptr with
    nodelinks := remove NodeLink.ptr l.ptr t.node.nodelinks }, ?_,
    h.of_clients rfl h.nodes.remove⟩
  rw [Node.nodelinkListDelete, hderef]
  rfl

/-- **One event keeps what the operations keep.** -/
theorem react_sound (e : LoginEvent) (h : t.Sound) (he : t.enabled e) :
    ∃ t', t.react e = .ok t' ∧ t'.Sound := by
  obtain ⟨secs, hdist, hmap⟩ := h.mapped
  cases e with
  | addnew ci nc =>
      have hnew : ∀ c ∈ t.node.clients, c.ptr ≠ ci := by simpa [enabled] using he
      exact ⟨_, rfl, clientListAddnew_sound h hnew⟩
  | negotiate ci =>
      obtain ⟨c, hc, hst, hwho⟩ :=
        @who_of_any t ci (fun c => c.state = .waitAnonTlsShutdown) hdist (by simpa [enabled] using he)
      simp only [decide_eq_true_eq] at hst
      rw [hst] at hwho
      exact ⟨_, rfl, negotiate_sound h hwho⟩
  | connected ci cert =>
      obtain ⟨c, hc, hst, hwho⟩ :=
        @who_of_any t ci (fun c => c.state = .tlsNegotiation) hdist (by simpa [enabled] using he)
      simp only [decide_eq_true_eq] at hst
      rw [hst] at hwho
      exact c2nConnected_sound h hwho
  | delete ci =>
      obtain ⟨c, hc, -, hwho⟩ := @who_of_any t ci (fun _ => true) hdist (by simpa [enabled] using he)
      exact clientListDelete_sound h hwho
  | linkNode nl =>
      have hnew : ∀ m ∈ t.node.nodelinks, m.ptr ≠ nl.ptr := by simpa [enabled] using he
      exact ⟨_, rfl, h.of_clients rfl (h.nodes.concat hnew)⟩
  | unlinkNode nl =>
      have hnl : nl ∈ t.node.nodelinks.map NodeLink.ptr := by
        simpa [enabled, List.any_eq_true] using he
      obtain ⟨n, hn, hsound⟩ := nodelinkListDelete_sound h hnl
      refine ⟨_, ?_, hsound⟩
      simp only [react, hn]
      rfl
  | multiloginClient ci f =>
      simp only [enabled, decide_eq_true_eq] at he
      obtain ⟨c, hc, -, hwho⟩ := @who_of_any t ci
        (fun c => c.state = .connected ∨ c.state = .multiloginSecondary) hdist
        (by simpa using he.2)
      obtain ⟨t', hrun, hrel⟩ := procmsgMULTILOGINClient_relayed h hwho he.1
      refine ⟨t', ?_, hrel.sound h⟩
      simp only [react, hrun]
      rfl
  | multiloginNode nl f accepts =>
      simp only [enabled, decide_eq_true_eq] at he
      have hnl : nl ∈ t.node.nodelinks.map NodeLink.ptr := by
        simpa [List.any_eq_true] using he.2
      obtain ⟨t', r, hrun, hsound, hnodes⟩ := @procmsgMULTILOGINNode_sound t f accepts h
      simp only [react, hrun]
      change ∃ t'', (if r = 0 then _ else _) = _ ∧ _
      split_ifs
      · rw [← hnodes] at hnl
        obtain ⟨n, hn, hsound'⟩ := nodelinkListDelete_sound hsound hnl
        refine ⟨_, ?_, hsound'⟩
        rw [hn]
        rfl
      · exact ⟨t', rfl, hsound⟩

theorem init_sound
    {a : SockAddr} {r : Bool} {now : Nat} {mem : Nat → Bool} {rnd : Nat → UInt8}
    {verify : Ptr → Frame → Bool} :
    (Logins.init a r now mem rnd verify).Sound := by
  refine ⟨⟨fun _ => [], List.nodup_nil, ?_⟩, List.nodup_nil, rfl⟩
  refine ⟨?_, ?_, ?_, ?_, ?_, ?_⟩
  · intro id p
    exact ⟨nofun, nofun⟩
  · intro p st id hp
    cases hp
  · intro id p hp
    cases hp
  · exact fun _ => List.nodup_nil
  · intro id q
    exact ⟨nofun, nofun⟩
  · exact fun _ _ => rfl

/-- **Every run of logins and logouts.** -/
theorem run_sound
    {es : List LoginEvent}
    (h : t.Sound) (hes : Meets loginStep (fun t e => t.enabled e) t es) :
    ∃ t', run loginStep t es = some t' ∧ t'.Sound := by
  refine run_progress ?_ h hes
  intro s e hs he
  obtain ⟨s', hrun, hsound⟩ := react_sound e hs he
  refine ⟨s', ?_, hsound⟩
  rw [loginStep, if_pos he, hrun]
  rfl

end Runs

end Logins

open Logins in
/-- **Logins with one identifier stay consistent, and all of them are notified** for which
there is memory. -/
theorem multilogin_consistent
    (a : SockAddr) (r : Bool) (now : Nat) (mem : Nat → Bool) (rnd : Nat → UInt8)
    (verify : Ptr → Frame → Bool) (es : List LoginEvent)
    (hes : Meets loginStep (fun t e => t.enabled e) (Logins.init a r now mem rnd verify) es) :
    ∃ t, run loginStep (Logins.init a r now mem rnd verify) es = some t ∧ t.Consistent ∧
      (∀ ci f, t.enabled (.multiloginClient ci f) → ∃ me ∈ t.node.clients, me.ptr = ci ∧
        ∃ t', t.procmsgMULTILOGINClient ci f = .ok (t', 1) ∧
          t.Relayed f ((t.instances me.id).filter (· ≠ ci))
            (t.node.nodelinks.map NodeLink.ptr) t') ∧
      ∀ nl f accepts c, t.enabled (.multiloginNode nl f accepts) → asksSignature f →
        c ∈ t.node.clients → c.state = .connected → accepts c.ptr →
        (∀ d ∈ t.node.clients, d.state = .connected → accepts d.ptr → d.id = c.id) →
        ∃ t', t.procmsgMULTILOGINNode accepts f = .ok (t', 1) ∧
          t.Relayed f (t.instances c.id) [] t' := by
  obtain ⟨t, hrun, hsound⟩ := run_sound init_sound hes
  obtain ⟨secs, hmapped⟩ := hsound.mapped
  refine ⟨t, hrun, hmapped.consistent, ?_, ?_⟩
  · intro ci f he
    simp only [enabled, decide_eq_true_eq] at he
    obtain ⟨c, hc, hptr, -⟩ : ∃ c ∈ t.node.clients, c.ptr = ci ∧
        (c.state = .connected ∨ c.state = .multiloginSecondary) := by
      simpa [List.any_eq_true] using he.2
    have hwho := (who_eq_some hmapped.distinct).mpr ⟨c, hc, hptr, rfl, rfl⟩
    obtain ⟨t', hcall, hrel⟩ := procmsgMULTILOGINClient_relayed hsound hwho he.1
    exact ⟨c, hc, hptr, t', hcall, hrel⟩
  · intro nl f accepts c _ hf hc hst hacc hone
    exact procmsgMULTILOGINNode_relayed hsound hf hc hst hacc hone

/-- Two clients log in with one identifier. -/
def loginTwice : List LoginEvent :=
  let nc : NewConn := ⟨7, ⟨0, 0⟩, 0, [], .waitAnonTlsAccept, .unknown, none⟩
  [.addnew 1 nc, .negotiate 1, .connected 1 (some (.ofByte 1)),
    .addnew 2 nc, .negotiate 2, .connected 2 (some (.ofByte 1))]

theorem multilogin_consistent_twice :
    ∃ t, run loginStep (Logins.init ⟨0, 0⟩ false 0 (fun _ => true) (fun _ => 0) fun _ _ => true)
        loginTwice = some t ∧ t.Consistent ∧ t.tree (.ofByte 1) = some 1 ∧
      t.nextMulti 1 = some 2 := by
  obtain ⟨t, hrun, hcons, -, -⟩ := multilogin_consistent ⟨0, 0⟩ false 0 (fun _ => true)
    (fun _ => 0) (fun _ _ => true) loginTwice (by decide +kernel)
  have heval : (run loginStep (Logins.init ⟨0, 0⟩ false 0 (fun _ => true) (fun _ => 0)
      fun _ _ => true) loginTwice).all
        (fun t => t.tree (.ofByte 1) = some 1 ∧ t.nextMulti 1 = some 2) := by
    decide +kernel
  rw [hrun] at heval
  simp only [Option.all_some, decide_eq_true_eq] at heval
  exact ⟨t, hrun, hcons, heval⟩

/-- Without memory the other login is not told. -/
theorem login_not_notified :
    (run loginStep (Logins.init ⟨0, 0⟩ false 0 (fun _ => false) (fun _ => 0) fun _ _ => true)
      (loginTwice ++ [.multiloginClient 1 (head Proto.MULTILOGIN ++ [2, 0, 7, 8])])).map
        (fun t => (t.instances (.ofByte 1), t.node.clients.map fun c => (c.ptr, c.pushed))) =
      some ([1, 2], [(1, []), (2, [])]) := by
  decide +kernel

end PicaPica
