import PicaPica.Node.ClientMap
import PicaPica.Node.NewconnRefs

/-!
# The client tree of the node

To which clients the walks of the node get is a parameter of it.  `treeReached` is the one of
the source: what the pointers of `ClientTree` give after the calls that the node has made.

As long as none of these calls removes a client with two children from the tree, the tree has
the clients of the node, the chain of a client is the part of `multi` with its identifier
(`Threaded`), and `client_tree_search` of the node is the walk through the pointers, which finds
every connected client (`search_is_tree_search`).
-/

namespace PicaPica

open Table Machine PointerTree

/-- The walk for the identifier of the client at `p`, or the one along the chain of the client
that it finds, gets to `p`. -/
def ClientTree.reaches (t : ClientTree) (p : Ptr) : Bool :=
  match clientTreeSearch t (t.id p) t.list.length with
  | some (some s) => s = p ∨ p ∈ follow t.nextMulti t.list.length (t.nextMulti s)
  | _ => false

/-- The walks through the tree that the calls have made. -/
def treeReached (log : List ClientEvent) (p : Ptr) : Bool :=
  (run clientStep .empty log).any fun t => t.reaches p

/-- The further logins in `multi` with the identifier of `p`. -/
def ClientTree.loginsIn (t : ClientTree) (multi : List Ptr) (p : Ptr) : List Ptr :=
  multi.filter fun q => t.id q = t.id p

/-! ## Chains and the list of further logins -/

/-- The chain of each client in the tree is the part of `multi` with its identifier. -/
structure Threaded (t : ClientTree) (multi : List Ptr) (tr : PointerTree.Tree Ptr) : Prop where
  shape : Shape t tr (t.loginsIn multi)
  labelled : Labelled t tr (t.loginsIn multi) t.list
  nodup : multi.Nodup
  secondary : ∀ q ∈ multi, q ∈ t.list ∧ t.state q = .multiloginSecondary

section Threads

variable {t t' : ClientTree} {multi : List Ptr} {tr : PointerTree.Tree Ptr} {p q ci : Ptr}
  {id : Id}

theorem mem_loginsIn : q ∈ t.loginsIn multi p ↔ q ∈ multi ∧ t.id q = t.id p := by
  simp [ClientTree.loginsIn]

theorem loginsIn_erase : t.loginsIn (multi.erase q) p = (t.loginsIn multi p).erase q :=
  List.erase_filter.symm

theorem loginsIn_congr (hid : t'.id = t.id) : t'.loginsIn multi = t.loginsIn multi := by
  funext p
  rw [ClientTree.loginsIn, hid]
  rfl

theorem Threaded.mem_tree (h : Threaded t multi tr) :
    p ∈ tr.toList ↔ p ∈ t.list ∧ t.state p = .connected := by
  constructor
  · intro hp
    exact ⟨h.shape.live p hp, (h.labelled p (h.shape.live p hp)).1.mpr hp⟩
  · rintro ⟨hlive, hst⟩
    exact (h.labelled p hlive).1.mp hst

/-- The client whose chain the login is in. -/
theorem Threaded.primary (h : Threaded t multi tr) (hq : q ∈ multi) :
    ∃ p ∈ tr.toList, t.id q = t.id p := by
  obtain ⟨hlive, hst⟩ := h.secondary q hq
  obtain ⟨p, hp, hqp⟩ := (h.labelled q hlive).2.mp hst
  exact ⟨p, hp, (mem_loginsIn.mp hqp).2⟩

theorem Threaded.not_mem (h : Threaded t multi tr) (hst : t.state p ≠ .multiloginSecondary) :
    p ∉ multi :=
  fun hp => hst (h.secondary p hp).2

theorem Threaded.search_eq (h : Threaded t multi tr) :
    clientTreeSearch t id t.list.length = some (tr.find t.key id.rank) :=
  h.shape.search_eq id h.shape.length_tree

theorem Threaded.find_iff (h : Threaded t multi tr) :
    tr.find t.key id.rank = some p ↔ p ∈ tr.toList ∧ t.id p = id := by
  rw [h.shape.sorted.find_eq_some_iff, ClientTree.key, Id.rank_inj]

theorem Threaded.follow_eq (h : Threaded t multi tr) (hp : p ∈ tr.toList) :
    follow t.nextMulti t.list.length (t.nextMulti p) = t.loginsIn multi p :=
  (h.shape.chain p hp).follow_eq (Nat.le_of_lt (h.shape.length_secs hp))

/-- The walks get to the clients that are in the tree or in a chain. -/
theorem Threaded.reaches_iff (h : Threaded t multi tr) (hp : p ∈ t.list) :
    t.reaches p = true ↔ t.state p = .connected ∨ t.state p = .multiloginSecondary := by
  rw [ClientTree.reaches, h.search_eq]
  constructor
  · cases hfind : tr.find t.key (t.id p).rank with
    | none => simp
    | some s =>
        obtain ⟨hs, -⟩ := h.find_iff.mp hfind
        simp only [h.follow_eq hs, decide_eq_true_eq]
        rintro (rfl | hps)
        · exact .inl (h.mem_tree.mp hs).2
        · exact .inr (h.secondary p (mem_loginsIn.mp hps).1).2
  · rintro (hst | hst)
    · rw [h.find_iff.mpr ⟨h.mem_tree.mpr ⟨hp, hst⟩, rfl⟩]
      simp
    · obtain ⟨s, hs, hps⟩ := (h.labelled p hp).2.mp hst
      rw [h.find_iff.mpr ⟨hs, (mem_loginsIn.mp hps).2.symm⟩]
      simp [h.follow_eq hs, hps]

theorem threaded_empty : Threaded .empty [] .leaf :=
  ⟨shape_empty, labelled_empty, List.nodup_nil, fun q hq => by cases hq⟩

/-! ## The calls -/

/-- **`client_list_addnew`.** -/
theorem Threaded.addnew (h : Threaded t multi tr) (hfresh : ci ∉ t.list) :
    Threaded (clientListAddnew t ci) multi tr := by
  have hne : ∀ p ∈ t.list, p ≠ ci := by
    rintro p hp rfl
    exact hfresh hp
  have hid : ∀ p ∈ t.list, (clientListAddnew t ci).id p = t.id p :=
    fun p hp => Function.update_of_ne (hne p hp) _ _
  have hsecs : ∀ p ∈ tr.toList,
      (clientListAddnew t ci).loginsIn multi p = t.loginsIn multi p := by
    intro p hp
    refine List.filter_congr fun q hq => ?_
    rw [hid q (h.secondary q hq).1, hid p (h.shape.live p hp)]
  refine ⟨(h.shape.addnew hfresh).congr hsecs, (h.labelled.addnew h.shape hfresh).congr hsecs,
    h.nodup, fun q hq => ?_⟩
  obtain ⟨hlive, hst⟩ := h.secondary q hq
  exact ⟨List.mem_append_left _ hlive, (Function.update_of_ne (hne q hlive) _ _).trans hst⟩

/-- A client starts to negotiate. -/
theorem Threaded.negotiate
    (h : Threaded t multi tr) (hlive : ci ∈ t.list) (hst : t.state ci = .waitAnonTlsShutdown) :
    Threaded (t.setState ci .tlsNegotiation) multi tr := by
  refine ⟨h.shape.setState _ _, h.labelled.negotiate hlive hst, h.nodup, fun q hq => ?_⟩
  obtain ⟨hqlive, hqst⟩ := h.secondary q hq
  refine ⟨hqlive, (Function.update_of_ne ?_ _ _).trans hqst⟩
  rintro rfl
  simp [hst] at hqst

/-- **The end of `process_c2n_write`**, for a certificate that may be refused. -/
theorem Threaded.connected
    (h : Threaded t multi tr) (hlive : ci ∈ t.list) (hst : t.state ci = .tlsNegotiation)
    (cert : Option Id) :
    ∃ t' tr' secs', c2nConnected t ci cert = some t' ∧
      t'.id = Function.update t.id ci (cert.getD (t.id ci)) ∧
      (∀ p, p ≠ ci → t'.id p = t.id p) ∧ (∀ p ∈ tr.toList, p ≠ ci) ∧
      (∀ p ∈ tr.toList, t'.loginsIn multi p = t.loginsIn multi p) ∧
      Shape t' tr' secs' ∧ Labelled t' tr' secs' t'.list ∧
      Shape.LoggedIn { t with id := t'.id } ci (cert.isNone ||
        memcmp (Id.ofByte 0).1 (t'.id ci).1 == .eq) tr (t.loginsIn multi) t' tr' secs' := by
  obtain ⟨hci, hsec⟩ := h.labelled.outside hlive (by simp [hst]) (by simp [hst])
  have hset := h.shape.setId (cert.getD (t.id ci)) hci hsec
  obtain ⟨t', tr', secs', hrun, hid, hshape, hlogin⟩ := c2nLogin_spec (cert.isNone ||
    memcmp (Id.ofByte 0).1 (Function.update t.id ci (cert.getD (t.id ci)) ci).1 == .eq)
    hset hlive hci hsec
  change t'.id = Function.update t.id ci (cert.getD (t.id ci)) at hid
  have hkeep : ∀ p, p ≠ ci → t'.id p = t.id p := by
    intro p hp
    rw [hid, Function.update_of_ne hp]
  have hne : ∀ p ∈ tr.toList, p ≠ ci := by
    rintro p hp rfl
    exact hci hp
  refine ⟨t', tr', secs', hrun, hid, hkeep, hne, ?_, hshape,
    hlogin.labelled hset h.labelled hci hsec, ?_⟩
  · intro p hp
    refine List.filter_congr fun q hq => ?_
    have hqci : q ≠ ci := fun heq => h.not_mem (by simp [hst]) (heq ▸ hq)
    rw [hkeep q hqci, hkeep p (hne p hp)]
  · rw [hid]
    exact hlogin

theorem not_killed (hid : id ≠ .ofByte 0) :
    ¬((some id).isNone || memcmp (Id.ofByte 0).1 id.1 == .eq) = true := by
  simp only [Option.isNone_some, Bool.false_or, beq_iff_eq, memcmp_eq_iff]
  exact fun heq => hid heq.symm

/-- A certificate with an identifier that is not in the tree. -/
theorem Threaded.login
    (h : Threaded t multi tr) (hlive : ci ∈ t.list) (hst : t.state ci = .tlsNegotiation)
    (hid : id ≠ .ofByte 0) (hno : ∀ p ∈ tr.toList, t.id p ≠ id) :
    ∃ t' tr', c2nConnected t ci (some id) = some t' ∧ t'.list = t.list ∧
      t'.id = Function.update t.id ci id ∧
      t'.state = Function.update t.state ci .connected ∧ Threaded t' multi tr' := by
  obtain ⟨t', tr', secs', hrun, hids, hkeep, hne, hsame, hshape, hlab, hlogin⟩ :=
    h.connected hlive hst (some id)
  have hself : t'.id ci = id := by
    rw [hids, Function.update_self]
    rfl
  cases hlogin with
  | attached p _ hp hpid =>
      rw [show t'.id p = t.id p from hkeep p (hne p hp)] at hpid
      exact absurd (hpid.trans hself) (hno p hp)
  | killed _ hkill =>
      rw [hself] at hkill
      exact absurd hkill (not_killed hid)
  | added _ _ _ hmem hlist hstate =>
      have hsecs : ∀ p ∈ tr'.toList,
          t'.loginsIn multi p = Function.update (t.loginsIn multi) ci [] p := by
        intro p hp
        rcases (hmem p).mp hp with rfl | hold
        · rw [Function.update_self]
          refine List.filter_eq_nil_iff.mpr fun q hq => ?_
          obtain ⟨y, hy, hqy⟩ := h.primary hq
          have hqp : q ≠ p := fun heq => h.not_mem (by simp [hst]) (heq ▸ hq)
          rw [decide_eq_true_eq, hself, hkeep q hqp, hqy]
          exact hno y hy
        · rw [Function.update_of_ne (hne p hold)]
          exact hsame p hold
      refine ⟨t', tr', hrun, hlist, hids, hstate, hshape.congr hsecs, hlab.congr hsecs, h.nodup,
        fun q hq => ?_⟩
      have hqci : q ≠ ci := fun heq => h.not_mem (by simp [hst]) (heq ▸ hq)
      rw [hlist, hstate, Function.update_of_ne hqci]
      exact h.secondary q hq

/-- A certificate with the identifier of a client in the tree. -/
theorem Threaded.loginMulti
    (h : Threaded t multi tr) (hlive : ci ∈ t.list) (hst : t.state ci = .tlsNegotiation)
    (hid : id ≠ .ofByte 0) (hp : p ∈ tr.toList) (hpid : t.id p = id) :
    ∃ t' tr', c2nConnected t ci (some id) = some t' ∧ t'.list = t.list ∧
      t'.id = Function.update t.id ci id ∧
      t'.state = Function.update t.state ci .multiloginSecondary ∧
      Threaded t' (ci :: multi) tr' := by
  obtain ⟨t', tr', secs', hrun, hids, hkeep, hne, hsame, hshape, hlab, hlogin⟩ :=
    h.connected hlive hst (some id)
  have hself : t'.id ci = id := by
    rw [hids, Function.update_self]
    rfl
  have hout : ci ∉ multi := h.not_mem (by simp [hst])
  cases hlogin with
  | added _ _ hno =>
      refine absurd ?_ (hno p hp)
      exact (hkeep p (hne p hp)).trans (hpid.trans hself.symm)
  | killed _ hkill =>
      rw [hself] at hkill
      exact absurd hkill (not_killed hid)
  | attached y _ hy hyid hlist hstate =>
      replace hyid : t'.id y = t'.id ci := hyid
      have hsecs : ∀ x ∈ tr.toList, t'.loginsIn (ci :: multi) x =
          Function.update (t.loginsIn multi) y (ci :: t.loginsIn multi y) x := by
        intro x hx
        rcases eq_or_ne x y with rfl | hxy
        · rw [Function.update_self, ← hsame x hx]
          exact List.filter_cons_of_pos (by simpa using hyid.symm)
        · rw [Function.update_of_ne hxy, ← hsame x hx]
          refine List.filter_cons_of_neg ?_
          rw [decide_eq_true_eq, ← hyid, hkeep y (hne y hy), hkeep x (hne x hx)]
          exact fun heq => hxy (h.shape.eq_of_id hy hx heq).symm
      refine ⟨t', tr, hrun, hlist, hids, hstate, hshape.congr hsecs, hlab.congr hsecs,
        List.nodup_cons.mpr ⟨hout, h.nodup⟩, fun q hq => ?_⟩
      rw [hlist, hstate]
      rcases List.mem_cons.mp hq with rfl | hq
      · exact ⟨hlive, Function.update_self _ _ _⟩
      · have hqci : q ≠ ci := fun heq => hout (heq ▸ hq)
        rw [Function.update_of_ne hqci]
        exact h.secondary q hq

/-- A certificate that is refused. -/
theorem Threaded.refused
    (h : Threaded t multi tr) (hlive : ci ∈ t.list) (hst : t.state ci = .tlsNegotiation)
    {cert : Option Id} (hcert : cert = none ∨ cert = some (.ofByte 0)) :
    ∃ t' tr', c2nConnected t ci cert = some t' ∧ t'.list = t.list.erase ci ∧
      (∀ p, p ≠ ci → t'.id p = t.id p ∧ t'.state p = t.state p) ∧
      Threaded t' (multi.erase ci) tr' := by
  obtain ⟨t', tr', secs', hrun, hids, hkeep, -, hsame, hshape, hlab, hlogin⟩ :=
    h.connected hlive hst cert
  have hkill : (cert.isNone || memcmp (Id.ofByte 0).1 (t'.id ci).1 == .eq) = true := by
    rcases hcert with rfl | rfl
    · rfl
    · rw [hids, Function.update_self]
      show (memcmp (Id.ofByte 0).1 (Id.ofByte 0).1 == .eq) = true
      decide
  have hout : ci ∉ multi := h.not_mem (by simp [hst])
  rw [hkill] at hlogin
  cases hlogin with
  | attached _ hno => cases hno
  | added _ hno => cases hno
  | killed _ _ hmem hlist hstate =>
      have hsecs : ∀ p ∈ tr'.toList, t'.loginsIn multi p = t.loginsIn multi p :=
        fun p hp => hsame p ((hmem p).mp hp)
      rw [List.erase_of_not_mem hout]
      refine ⟨t', tr', hrun, hlist, fun p hp => ⟨hkeep p hp, hstate p hp⟩, hshape.congr hsecs,
        hlab.congr hsecs, h.nodup, fun q hq => ?_⟩
      have hqci : q ≠ ci := fun heq => hout (heq ▸ hq)
      rw [hlist, hstate q hqci, h.shape.mem_unlisted]
      exact ⟨⟨hqci, (h.secondary q hq).1⟩, (h.secondary q hq).2⟩

/-- **`client_list_delete`.**  The newest further login takes the place of a client in the
tree; else the deleted client leaves its chain. -/
theorem Threaded.delete
    (h : Threaded t multi tr) (hone : (ClientEvent.delete ci).RemovesOneChild t) :
    ∃ t' tr', clientListDelete t ci = some t' ∧ t'.list = t.list.erase ci ∧ t'.id = t.id ∧
      ((∃ q qs, ci ∈ tr.toList ∧ t.loginsIn multi ci = q :: qs ∧
          t'.state = Function.update t.state q .connected ∧ Threaded t' (multi.erase q) tr') ∨
        (ci ∈ tr.toList → t.loginsIn multi ci = []) ∧ t'.state = t.state ∧
          Threaded t' (multi.erase ci) tr') := by
  obtain ⟨t', tr', secs', hrun, hlist, hids, hshape, hdel⟩ := clientListDelete_spec h.shape hone
  have hlab := hdel.labelled h.shape (fun p hp => h.labelled p (h.shape.mem_unlisted.mp hp).2)
    fun hci => (h.mem_tree.mp hci).2
  rw [← hlist] at hlab
  refine ⟨t', tr', hrun, hlist, hids, ?_⟩
  -- what is left of `multi` when the deleted client and no other goes
  have hleft : ∀ q ∈ multi.erase ci, q ∈ t'.list ∧ t.state q = .multiloginSecondary := by
    intro q hq
    obtain ⟨hne, hq⟩ := h.nodup.mem_erase_iff.mp hq
    rw [hlist, h.shape.mem_unlisted]
    exact ⟨⟨hne, (h.secondary q hq).1⟩, (h.secondary q hq).2⟩
  have hall : ci ∉ multi → ∀ p, t'.loginsIn (multi.erase ci) p = t.loginsIn multi p := by
    intro hout p
    rw [List.erase_of_not_mem hout, loginsIn_congr hids]
  cases hdel with
  | removed _ hci hsecs hmem hst =>
      have hsame := hall (h.not_mem (by simp [(h.mem_tree.mp hci).2]))
      exact .inr ⟨fun _ => hsecs, hst, hshape.congr fun p _ => hsame p,
        hlab.congr fun p _ => hsame p, h.nodup.erase ci, hst ▸ hleft⟩
  | outside hci hsec hst =>
      have hsame := hall fun hmem => by
        obtain ⟨p, hp, hid⟩ := h.primary hmem
        exact hsec p hp (mem_loginsIn.mpr ⟨hmem, hid⟩)
      exact .inr ⟨fun hin => absurd hin hci, hst, hshape.congr fun p _ => hsame p,
        hlab.congr fun p _ => hsame p, h.nodup.erase ci, hst ▸ hleft⟩
  | unlinked p hp hmem hst =>
      have hsecs : ∀ x ∈ tr.toList, t'.loginsIn (multi.erase ci) x =
          Function.update (t.loginsIn multi) p ((t.loginsIn multi p).erase ci) x := by
        intro x hx
        rw [loginsIn_congr hids, loginsIn_erase]
        rcases eq_or_ne x p with rfl | hne
        · rw [Function.update_self]
        · rw [Function.update_of_ne hne]
          exact List.erase_of_not_mem fun hin => hne (h.shape.sec_unique hx hp hin hmem)
      refine .inr ⟨fun hin => absurd hin (h.shape.sec p hp ci hmem).2.1, hst,
        hshape.congr hsecs, hlab.congr hsecs, h.nodup.erase ci, hst ▸ hleft⟩
  | replaced q qs _ hci hqs hmem hst =>
      have hq : q ∈ t.loginsIn multi ci := by simp [hqs]
      rw [(h.mem_tree.mp hci).2] at hst
      have hsecs : ∀ x ∈ tr'.toList, t'.loginsIn (multi.erase q) x =
          Function.update (t.loginsIn multi) q qs x := by
        intro x hx
        rw [loginsIn_congr hids, loginsIn_erase]
        rcases eq_or_ne x q with rfl | hne
        · have hchain : t.loginsIn multi x = t.loginsIn multi ci := by
            rw [ClientTree.loginsIn, (mem_loginsIn.mp hq).2]
            rfl
          rw [Function.update_self, hchain, hqs, List.erase_cons_head]
        · obtain ⟨hold, hxci⟩ := ((hmem x).mp hx).resolve_left hne
          rw [Function.update_of_ne hne]
          exact List.erase_of_not_mem fun hin => hxci (h.shape.sec_unique hold hci hin hq)
      refine .inl ⟨q, qs, hci, hqs, hst, hshape.congr hsecs, hlab.congr hsecs, h.nodup.erase q,
        fun x hx => ?_⟩
      obtain ⟨hne, hx⟩ := h.nodup.mem_erase_iff.mp hx
      have hxci : x ≠ ci := fun heq => h.not_mem (by simp [(h.mem_tree.mp hci).2]) (heq ▸ hx)
      rw [hlist, hst, Function.update_of_ne hne, h.shape.mem_unlisted]
      exact ⟨⟨hxci, (h.secondary x hx).1⟩, (h.secondary x hx).2⟩

end Threads

/-! ## The node and its tree -/

/-- The tree has the records of the list. -/
structure Mirrors (cs : List Client) (t : ClientTree) : Prop where
  list : t.list = cs.map Client.ptr
  ids : ∀ c ∈ cs, t.id c.ptr = c.id
  states : ∀ c ∈ cs, t.state c.ptr = c.state

section Mirror

variable {cs cs' : List Client} {t t' : ClientTree} {p : Ptr} {g : Client → Client}

theorem Mirrors.mem (h : Mirrors cs t) {c : Client} (hc : c ∈ cs) : c.ptr ∈ t.list := by
  rw [h.list]
  exact List.mem_map_of_mem hc

theorem Mirrors.exists_client (h : Mirrors cs t) (hp : p ∈ t.list) : ∃ c ∈ cs, c.ptr = p := by
  rw [h.list] at hp
  exact List.mem_map.mp hp

theorem Mirrors.of_core (h : Mirrors cs t) (hcs : cs'.map Client.core = cs.map Client.core) :
    Mirrors cs' t := by
  have hmem : ∀ c' ∈ cs', ∃ c ∈ cs, c.core = c'.core := fun c' hc' => mem_of_map_eq hcs hc'
  refine ⟨?_, ?_, ?_⟩
  · have hptrs := congrArg (List.map Prod.fst) hcs
    rw [List.map_map, List.map_map] at hptrs
    rw [h.list]
    exact hptrs.symm
  · intro c' hc'
    obtain ⟨c, hc, heq⟩ := hmem c' hc'
    simp only [Client.core, Prod.mk.injEq] at heq
    rw [← heq.1, ← heq.2.1, h.ids c hc]
  · intro c' hc'
    obtain ⟨c, hc, heq⟩ := hmem c' hc'
    simp only [Client.core, Prod.mk.injEq] at heq
    rw [← heq.1, ← heq.2.2, h.states c hc]

/-- A record is added. -/
theorem Mirrors.concat
    (h : Mirrors cs t) {c : Client} (hlist : t'.list = t.list ++ [c.ptr])
    (hother : ∀ d ∈ cs, t'.id d.ptr = t.id d.ptr ∧ t'.state d.ptr = t.state d.ptr)
    (hid : t'.id c.ptr = c.id) (hst : t'.state c.ptr = c.state) :
    Mirrors (cs ++ [c]) t' := by
  refine ⟨by rw [hlist, h.list, List.map_append]; rfl, ?_, ?_⟩
  · intro d hd
    rcases List.mem_append.mp hd with hd | hd
    · rw [(hother d hd).1, h.ids d hd]
    · rw [List.mem_singleton.mp hd, hid]
  · intro d hd
    rcases List.mem_append.mp hd with hd | hd
    · rw [(hother d hd).2, h.states d hd]
    · rw [List.mem_singleton.mp hd, hst]

/-- A record changes. -/
theorem Mirrors.modify
    (h : Mirrors cs t) (hptr : ∀ c, (g c).ptr = c.ptr) (hlist : t'.list = t.list)
    (hother : ∀ q, q ≠ p → t'.id q = t.id q ∧ t'.state q = t.state q)
    (hself : ∀ c ∈ cs, c.ptr = p → t'.id p = (g c).id ∧ t'.state p = (g c).state) :
    Mirrors (modify Client.ptr p g cs) t' := by
  refine ⟨?_, ?_, ?_⟩
  · rw [hlist, h.list]
    exact (map_modify fun c _ _ => hptr c).symm
  · intro d hd
    obtain ⟨c, hc, rfl⟩ := mem_modify.mp hd
    split_ifs with hp
    · rw [hptr, hp, (hself c hc hp).1]
    · rw [(hother _ hp).1, h.ids c hc]
  · intro d hd
    obtain ⟨c, hc, rfl⟩ := mem_modify.mp hd
    split_ifs with hp
    · rw [hptr, hp, (hself c hc hp).2]
    · rw [(hother _ hp).2, h.states c hc]

/-- A client gets its identifier. -/
theorem Mirrors.named
    (h : Mirrors cs t) {id : Id} {st : ClState} (hlist : t'.list = t.list)
    (hids : t'.id = Function.update t.id p id) (hst : t'.state = Function.update t.state p st) :
    Mirrors (Table.modify Client.ptr p (fun c => { c with id := id, state := st }) cs) t' := by
  refine h.modify (fun _ => rfl) hlist ?_ ?_
  · intro q hq
    rw [hids, hst, Function.update_of_ne hq, Function.update_of_ne hq]
    exact ⟨rfl, rfl⟩
  · intro c _ _
    rw [hids, hst, Function.update_self, Function.update_self]
    exact ⟨rfl, rfl⟩

theorem Mirrors.setState
    (h : Mirrors cs t) {st : ClState} (hlist : t'.list = t.list) (hids : t'.id = t.id)
    (hst : t'.state = Function.update t.state p st) :
    Mirrors (Table.modify Client.ptr p (fun c => { c with state := st }) cs) t' := by
  refine h.modify (fun _ => rfl) hlist ?_ ?_
  · intro q hq
    rw [hids, hst, Function.update_of_ne hq]
    exact ⟨rfl, rfl⟩
  · intro c hc hp
    rw [hids, hst, Function.update_self, ← hp]
    exact ⟨h.ids c hc, rfl⟩

/-- A record is taken out. -/
theorem Mirrors.remove
    (h : Mirrors cs t) (hdist : Distinct Client.ptr cs) (hlist : t'.list = t.list.erase p)
    (hother : ∀ q, q ≠ p → t'.id q = t.id q ∧ t'.state q = t.state q) :
    Mirrors (Table.remove Client.ptr p cs) t' := by
  refine ⟨?_, ?_, ?_⟩
  · rw [hlist, h.list, hdist.erase_eq_filter, Table.remove, List.filter_map]
    refine congrArg _ (List.filter_congr fun c _ => ?_)
    rw [Bool.eq_iff_iff]
    simp
  · intro c hc
    obtain ⟨hc, hne⟩ := mem_remove.mp hc
    rw [(hother _ hne).1, h.ids c hc]
  · intro c hc
    obtain ⟨hc, hne⟩ := mem_remove.mp hc
    rw [(hother _ hne).2, h.states c hc]

end Mirror

section Search

variable {n : Node} {t : ClientTree} {tr : PointerTree.Tree Ptr} {c : Client} {id : Id}

/-- The tree is the one of the node. -/
structure TreeOf (n : Node) (t : ClientTree) (tr : PointerTree.Tree Ptr) : Prop where
  mirrors : Mirrors n.clients t
  threaded : Threaded t n.multi tr
  reaches : ∀ p, n.reaches p = t.reaches p

theorem TreeOf.reaches_iff (h : TreeOf n t tr) (hc : c ∈ n.clients) :
    n.reaches c.ptr = true ↔ c.state = .connected ∨ c.state = .multiloginSecondary := by
  rw [h.reaches, h.threaded.reaches_iff (h.mirrors.mem hc), h.mirrors.states c hc]

theorem TreeOf.mem_tree (h : TreeOf n t tr) (hc : c ∈ n.clients) :
    c.ptr ∈ tr.toList ↔ c.state = .connected := by
  rw [h.threaded.mem_tree, h.mirrors.states c hc]
  exact and_iff_right (h.mirrors.mem hc)

/-- The search finds the connected clients, each by its identifier. -/
theorem TreeOf.search_iff (h : TreeOf n t tr) (hdist : Distinct Client.ptr n.clients) :
    n.clientTreeSearch id = some c ↔ c ∈ n.clients ∧ c.state = .connected ∧ c.id = id := by
  constructor
  · exact clientTreeSearch_primary
  · rintro ⟨hc, hst, rfl⟩
    cases hfind : n.clientTreeSearch c.id with
    | none =>
        have hno := List.find?_eq_none.mp hfind c hc
        simp [hst, (h.reaches_iff hc).mpr (.inl hst)] at hno
    | some d =>
        obtain ⟨hd, hdst, hid⟩ := clientTreeSearch_primary hfind
        have heq := h.threaded.shape.eq_of_id ((h.mem_tree hd).mpr hdst) ((h.mem_tree hc).mpr hst)
          (by rw [h.mirrors.ids d hd, h.mirrors.ids c hc, hid])
        rw [hdist.eq hd hc heq]

theorem TreeOf.search_none (h : TreeOf n t tr) (hdist : Distinct Client.ptr n.clients)
    (hnone : n.clientTreeSearch id = none) : ∀ p ∈ tr.toList, t.id p ≠ id := by
  rintro p hp rfl
  obtain ⟨c, hc, rfl⟩ := h.mirrors.exists_client (h.threaded.shape.live p hp)
  rw [(h.search_iff hdist).mpr ⟨hc, (h.mem_tree hc).mp hp, (h.mirrors.ids c hc).symm⟩] at hnone
  cases hnone

/-- **`client_tree_search`** of the node is the walk through the pointers. -/
theorem TreeOf.search_eq (h : TreeOf n t tr) (hdist : Distinct Client.ptr n.clients) :
    clientTreeSearch t id t.list.length = some ((n.clientTreeSearch id).map Client.ptr) := by
  rw [h.threaded.search_eq, Option.some.injEq]
  cases hfind : n.clientTreeSearch id with
  | none =>
      cases htree : tr.find t.key id.rank with
      | none => rfl
      | some p =>
          obtain ⟨hp, hid⟩ := h.threaded.find_iff.mp htree
          exact absurd hid (h.search_none hdist hfind p hp)
  | some c =>
      obtain ⟨hc, hst, rfl⟩ := clientTreeSearch_primary hfind
      exact h.threaded.find_iff.mpr ⟨(h.mem_tree hc).mpr hst, h.mirrors.ids c hc⟩

/-- The chain of a client is the part of `multi` with its identifier. -/
theorem TreeOf.nextMulti_eq
    (h : TreeOf n t tr) (hdist : Distinct Client.ptr n.clients) (hc : c ∈ n.clients) :
    n.nextMulti c.id = t.loginsIn n.multi c.ptr := by
  refine List.filter_congr fun q hq => ?_
  obtain ⟨hlive, hst⟩ := h.threaded.secondary q hq
  obtain ⟨d, hd, rfl⟩ := h.mirrors.exists_client hlive
  rw [h.mirrors.states d hd] at hst
  rw [hdist.lookup hd, h.mirrors.ids d hd, h.mirrors.ids c hc,
    (h.reaches_iff hd).mpr (.inr hst)]
  simp

/-- What `client_list_delete` leaves, when the tree is the one of the node. -/
theorem TreeOf.dropClient_eq
    (h : TreeOf n t tr) (hdist : Distinct Client.ptr n.clients) (hc : c ∈ n.clients) :
    (∃ q qs, c.state = .connected ∧ t.loginsIn n.multi c.ptr = q :: qs ∧
        n.dropClient c = { (n.withoutClient c.ptr).modifyClient q fun d =>
          { d with state := .connected } with multi := n.multi.erase q }) ∨
      (c.state = .connected → t.loginsIn n.multi c.ptr = []) ∧
        n.dropClient c = { n.withoutClient c.ptr with multi := n.multi.erase c.ptr } := by
  rw [Node.dropClient, Node.clientTreeForget]
  cases hs : n.clientTreeSearch c.id with
  | none =>
      have hnot : ∀ x, t.id x = t.id c.ptr → x ∉ tr.toList := fun x hx hin =>
        h.search_none hdist hs x hin (hx.trans (h.mirrors.ids c hc))
      refine .inr ⟨fun hst => absurd ((h.mem_tree hc).mpr hst) (hnot _ rfl), ?_⟩
      rw [List.erase_of_not_mem]
      · rfl
      · intro hmem
        obtain ⟨x, hx, hid⟩ := h.threaded.primary hmem
        exact hnot x hid.symm hx
  | some s =>
      obtain ⟨hsmem, hst, hid⟩ := clientTreeSearch_primary hs
      dsimp only
      split_ifs with hself
      · obtain rfl := hdist.eq hsmem hc hself
        have hout : s.ptr ∉ n.multi := h.threaded.not_mem (by simp [h.mirrors.states s hc, hst])
        rw [h.nextMulti_eq hdist hc]
        cases hchain : t.loginsIn n.multi s.ptr with
        | nil =>
            refine .inr ⟨fun _ => rfl, ?_⟩
            rw [List.erase_of_not_mem hout]
            rfl
        | cons q qs =>
            refine .inl ⟨q, qs, hst, rfl, ?_⟩
            have hcomm := @remove_modify _ _ Client.ptr _ s.ptr
              (fun d => { d with state := .connected }) n.clients q fun _ => rfl
            simp only [Node.cclinkListDeleteByClient, Node.modifyClient, Node.withoutClient,
              hcomm, hst]
      · refine .inr ⟨fun hcst => absurd ?_ hself, rfl⟩
        have hfound := (h.search_iff hdist).mpr ⟨hc, hcst, rfl⟩
        rw [hs] at hfound
        rw [Option.some.inj hfound]

end Search

/-! ## All runs -/

/-- The walks of the node are those of the source, and the tree is the one of the node as long
as no call has removed a client with two children. -/
structure Traced (n : Node) : Prop where
  reached : n.reached = treeReached
  tree : Meets clientStep (fun t e => e.RemovesOneChild t) .empty n.log →
    ∃ t tr, run clientStep .empty n.log = some t ∧ Mirrors n.clients t ∧ Threaded t n.multi tr

section Runs

variable {n₀ n n' : Node} {e : NodeEvent}

theorem Traced.treeOf
    (h : Traced n) (hone : Meets clientStep (fun t e => e.RemovesOneChild t) .empty n.log) :
    ∃ t tr, run clientStep .empty n.log = some t ∧ TreeOf n t tr := by
  obtain ⟨t, tr, hrun, hmirror, hthread⟩ := h.tree hone
  refine ⟨t, tr, hrun, hmirror, hthread, fun p => ?_⟩
  rw [Node.reaches, h.reached, treeReached, hrun]
  rfl

/-- A change that the tree does not see. -/
theorem Traced.alike
    (h : Traced n) (hreached : n'.reached = n.reached) (hlog : n'.log = n.log)
    (hmulti : n'.multi = n.multi)
    (hclients : n'.clients.map Client.core = n.clients.map Client.core) :
    Traced n' := by
  refine ⟨hreached.trans h.reached, fun hone => ?_⟩
  rw [hlog] at hone
  obtain ⟨t, tr, hrun, hmirror, hthread⟩ := h.tree hone
  rw [hlog, hmulti]
  exact ⟨t, tr, hrun, hmirror.of_core hclients, hthread⟩

theorem Traced.touchClient
    {p : Ptr} {g : Client → Client} (h : Traced n) (hg : ∀ c, (g c).core = c.core) :
    Traced (n.modifyClient p g) :=
  h.alike rfl rfl rfl (map_modify fun c _ _ => hg c)

/-- A call for the tree. -/
theorem Traced.call
    {call : ClientEvent} (h : Traced n) (hreached : n'.reached = n.reached)
    (hlog : n'.log = n.log ++ [call])
    (hstep : ∀ t tr, call.RemovesOneChild t → TreeOf n t tr →
      ∃ t' tr', clientStep t call = some t' ∧ Mirrors n'.clients t' ∧ Threaded t' n'.multi tr') :
    Traced n' := by
  refine ⟨hreached.trans h.reached, fun hone => ?_⟩
  rw [hlog] at hone ⊢
  obtain ⟨t, tr, hrun, htree⟩ := h.treeOf hone.of_append
  obtain ⟨t', tr', hcall, hmirror, hthread⟩ := hstep t tr (hone.next hrun) htree
  exact ⟨t', tr', run_concat hrun hcall, hmirror, hthread⟩

theorem Traced.dropClient
    {c : Client} {call : ClientEvent} (hcore : Core n) (h : Traced n) (hc : c ∈ n.clients)
    (hleave : c.LeavesBy call) :
    Traced ((n.dropClient c).logged call) := by
  have hframe : (n.dropClient c).reached = n.reached ∧ (n.dropClient c).log = n.log := by
    rcases dropClient_cases hcore hc with ⟨ms, heq⟩ | ⟨q, ms, -, -, heq⟩
    · rw [heq]
      exact ⟨rfl, rfl⟩
    · rw [heq]
      exact ⟨rfl, rfl⟩
  refine h.call hframe.1 (congrArg (· ++ [call]) hframe.2) fun t tr hone ht => ?_
  have hdist := hcore.clientsDistinct
  have hin := ht.mem_tree hc
  rcases hleave with rfl | ⟨cert, rfl, hst, hcert⟩
  · obtain ⟨t', tr', hrun, hlist, hids, hres⟩ := ht.threaded.delete hone
    refine ⟨t', tr', hrun, ?_⟩
    rcases hres with ⟨q, qs, htree, hqs, hst, hthread⟩ | ⟨hnil, hst, hthread⟩
    · rcases ht.dropClient_eq hdist hc with ⟨q', qs', -, hqs', heq⟩ | ⟨hnil, -⟩
      · obtain ⟨rfl, rfl⟩ := List.cons.inj (hqs.symm.trans hqs')
        have hgone : Mirrors (n.withoutClient c.ptr).clients
            { t with list := t.list.erase c.ptr } :=
          ht.mirrors.remove hdist rfl fun _ _ => ⟨rfl, rfl⟩
        rw [Node.logged, heq]
        exact ⟨hgone.setState hlist hids hst, hthread⟩
      · rw [hnil (hin.mp htree)] at hqs
        cases hqs
    · rcases ht.dropClient_eq hdist hc with ⟨q', qs', hcst, hqs', -⟩ | ⟨-, heq⟩
      · rw [hnil (hin.mpr hcst)] at hqs'
        cases hqs'
      · rw [Node.logged, heq]
        refine ⟨ht.mirrors.remove hdist hlist fun x _ => ?_, hthread⟩
        rw [hids, hst]
        exact ⟨rfl, rfl⟩
  · obtain ⟨t', tr', hrun, hlist, hother, hthread⟩ :=
      ht.threaded.refused (ht.mirrors.mem hc) (by rw [ht.mirrors.states c hc, hst]) hcert
    refine ⟨t', tr', hrun, ?_⟩
    rcases ht.dropClient_eq hdist hc with ⟨-, -, hcst, -⟩ | ⟨-, heq⟩
    · rw [hst] at hcst
      cases hcst
    · rw [Node.logged, heq]
      exact ⟨ht.mirrors.remove hdist hlist hother, hthread⟩

/-- **Every change keeps the tree the one of the node.** -/
theorem Act.traced (hcore : Core n) (h : Traced n) (hact : Act n₀ e n n') : Traced n' := by
  cases hact with
  | tickClient p t b => exact h.touchClient fun _ => rfl
  | push p f hf hlong => exact h.touchClient fun _ => rfl
  | login c id hc hst hid hno hmiss =>
      refine h.call rfl rfl fun t tr _ ht => ?_
      obtain ⟨t', tr', hrun, hlist, hids, hstate, hthread⟩ :=
        ht.threaded.login (ht.mirrors.mem hc) (by rw [ht.mirrors.states c hc, hst]) hid
          (ht.search_none hcore.clientsDistinct hno)
      exact ⟨t', tr', hrun, ht.mirrors.named hlist hids hstate, hthread⟩
  | loginMulti c s id hc hst hid hs =>
      refine h.call rfl rfl fun t tr _ ht => ?_
      obtain ⟨hsmem, hsst, hsid⟩ := clientTreeSearch_primary hs
      obtain ⟨t', tr', hrun, hlist, hids, hstate, hthread⟩ :=
        ht.threaded.loginMulti (ht.mirrors.mem hc) (by rw [ht.mirrors.states c hc, hst]) hid
          ((ht.mem_tree hsmem).mpr hsst) ((ht.mirrors.ids s hsmem).trans hsid)
      exact ⟨t', tr', hrun, ht.mirrors.named hlist hids hstate, hthread⟩
  | deleteClient c call hc hdel hleave => exact h.dropClient hcore hc hleave
  | initreq i he hocc hone =>
      refine h.call rfl rfl fun t tr _ ht => ?_
      have hfresh : n.next ∉ t.list := by
        intro hin
        obtain ⟨c, hc, hptr⟩ := ht.mirrors.exists_client hin
        exact absurd hptr (Nat.ne_of_lt (hcore.clientsOld c hc))
      refine ⟨_, tr, rfl, ht.mirrors.concat rfl ?_ (Function.update_self _ _ _)
        (Function.update_self _ _ _), ht.threaded.addnew hfresh⟩
      intro d hd
      have hne : d.ptr ≠ n.next := Nat.ne_of_lt (hcore.clientsOld d hd)
      exact ⟨Function.update_of_ne hne _ _, Function.update_of_ne hne _ _⟩
  | close i g n' he hg htype hclose =>
      obtain ⟨k, hk, rfl⟩ := newconnClose_ok hclose
      rcases hk with ⟨-, rfl⟩ | ⟨c, hc, -, -, rfl⟩ | ⟨l, -, -, -, rfl⟩
      · exact h.alike rfl rfl rfl rfl
      · rw [dropClient_setSlot]
        exact (h.dropClient hcore hc (.inl rfl)).alike rfl rfl rfl rfl
      · exact h.alike rfl rfl rfl rfl
  | clientReady i c he hi hty hc =>
      refine h.call rfl rfl fun t tr _ ht => ?_
      have hwait := (hcore.slots i).client c.ptr hi c hc rfl
      exact ⟨_, tr, rfl, ht.mirrors.setState rfl rfl rfl,
        ht.threaded.negotiate (ht.mirrors.mem hc) (by rw [ht.mirrors.states c hc, hwait])⟩
  | _ => exact h.alike rfl rfl rfl rfl

theorem nodeStep_traced (hcore : Core n) (h : Traced n) (hstep : nodeStep n e = some n') :
    Core n' ∧ Traced n' := by
  have hact : ∀ u v, Core u ∧ Traced u → Act n e u v → Core v ∧ Traced v :=
    fun _ _ hu hact => ⟨hact.core hu.1, hact.traced hu.1 hu.2⟩
  exact changes_invariant hact ⟨hcore, h⟩ (nodeStep_acts hcore hstep)

theorem mirrors_empty : Mirrors [] .empty where
  list := rfl
  ids _ hc := by cases hc
  states _ hc := by cases hc

theorem traced_init
    {a : SockAddr} {r : Bool} {now : Nat} {mem : Nat → Bool} {rnd : Nat → UInt8}
    {verify : Ptr → Frame → Bool} :
    Traced (Node.init a r now mem rnd verify treeReached) :=
  ⟨rfl, fun _ => ⟨.empty, .leaf, rfl, mirrors_empty, threaded_empty⟩⟩

/-- **The search of the node is the walk through its tree.**  In every run whose calls remove no
client with two children, the pointers hold the clients of the node, `client_tree_search` finds
every connected client, and the chain behind it has its further logins; so no login misses one. -/
theorem search_is_tree_search
    {a : SockAddr} {r : Bool} {now : Nat} {mem : Nat → Bool} {rnd : Nat → UInt8}
    {verify : Ptr → Frame → Bool} {es : List NodeEvent}
    (hrun : run nodeStep (Node.init a r now mem rnd verify treeReached) es = some n)
    (hone : Meets clientStep (fun t e => e.RemovesOneChild t) .empty n.log) :
    (∃ t, run clientStep .empty n.log = some t ∧ t.list = n.clients.map Client.ptr ∧
      (∀ id, clientTreeSearch t id t.list.length =
        some ((n.clientTreeSearch id).map Client.ptr)) ∧
      ∀ id c, n.clientTreeSearch id = some c →
        follow t.nextMulti t.list.length (t.nextMulti c.ptr) = n.nextMulti id) ∧
      (∀ c ∈ n.clients, c.state = .connected → n.clientTreeSearch c.id = some c) ∧
      ∀ e : NodeEvent, e.loginMissed n = false := by
  have hinv : ∀ s e t, (Core s ∧ Traced s) → True → nodeStep s e = some t → Core t ∧ Traced t :=
    fun _ _ _ hs _ hstep => nodeStep_traced hs.1 hs.2 hstep
  obtain ⟨hcore, htraced⟩ := run_invariant hinv ⟨core_init, traced_init⟩ meets_true hrun
  have hdist := hcore.clientsDistinct
  obtain ⟨t, tr, hlog, ht⟩ := htraced.treeOf hone
  refine ⟨⟨t, hlog, ht.mirrors.list, fun _ => ht.search_eq hdist, ?_⟩, ?_, ?_⟩
  · intro id c hfound
    obtain ⟨hc, hst, rfl⟩ := clientTreeSearch_primary hfound
    rw [ht.threaded.follow_eq ((ht.mem_tree hc).mpr hst), ht.nextMulti_eq hdist hc]
  · exact fun c hc hst => (ht.search_iff hdist).mpr ⟨hc, hst, rfl⟩
  · intro e
    cases e with
    | c2nConnected ci cert =>
        cases cert with
        | none => rfl
        | some id =>
            rw [NodeEvent.loginMissed, decide_eq_false_iff_not]
            rintro ⟨-, hnone, hany⟩
            obtain ⟨c, hc, hsame⟩ := List.any_eq_true.mp hany
            obtain ⟨hst, rfl⟩ := of_decide_eq_true hsame
            rw [(ht.search_iff hdist).mpr ⟨hc, hst, rfl⟩] at hnone
            cases hnone
    | _ => rfl

end Runs

/-- A node with its tree, and memory for everything. -/
def treeNode : Node :=
  Node.init ⟨0x01020304, 2299⟩ false 0 (fun _ => true) (fun _ => 0) (fun _ _ => false) treeReached

/-- The client at the root has two children and another login, and leaves; so does a leaf. -/
def rootReplaced : List NodeEvent :=
  clientLogin 10 0 1 (.ofByte 2) ++ clientLogin 11 1 2 (.ofByte 1) ++
    clientLogin 12 2 3 (.ofByte 3) ++ clientLogin 13 3 4 (.ofByte 2) ++
    [.c2nClosed 1, .c2nClosed 3]

theorem search_is_tree_search_replaced :
    ∃ n, run nodeStep treeNode rootReplaced = some n ∧ n.clients.map Client.ptr = [2, 4] ∧
      (∃ t, run clientStep .empty n.log = some t ∧ t.list = n.clients.map Client.ptr ∧
        (∀ id, clientTreeSearch t id t.list.length =
          some ((n.clientTreeSearch id).map Client.ptr)) ∧
        ∀ id c, n.clientTreeSearch id = some c →
          follow t.nextMulti t.list.length (t.nextMulti c.ptr) = n.nextMulti id) ∧
      (∀ c ∈ n.clients, c.state = .connected → n.clientTreeSearch c.id = some c) ∧
      ∀ e : NodeEvent, e.loginMissed n = false := by
  have hrun := @stateAfter_run treeNode rootReplaced (by decide +kernel)
  exact ⟨_, hrun, by decide +kernel, search_is_tree_search hrun (by decide +kernel)⟩

/-- The client at the root leaves two children and no other login.  Client 6 moves in the tree,
but its `up` field does not, so that it takes the clients 3 and 5 out of the tree when it leaves;
the search misses client 3 then, and a second client can be connected with its identifier. -/
example :
    (NodeEvent.c2nConnected 7 (some (.ofByte 8))).loginMissed
      (stateAfter treeNode (clientLogin 10 0 1 (.ofByte 4) ++ clientLogin 11 1 2 (.ofByte 2) ++
        clientLogin 12 2 3 (.ofByte 8) ++ clientLogin 13 3 4 (.ofByte 6) ++
        clientLogin 14 4 5 (.ofByte 9) ++ clientLogin 15 5 6 (.ofByte 7) ++
        [.c2nClosed 1, .c2nClosed 6])) = true := by
  decide +kernel

end PicaPica
