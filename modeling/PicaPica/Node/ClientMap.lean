import PicaPica.Lib.Chain
import PicaPica.Node.ClientTree

/-!
# The client tree is a finite map

In every run in which no client with two children is removed, the records
reachable from `client_tree_root` are a search tree of exactly the connected
clients, with right `up` fields, and `client_tree_search` finds the connected
client with a given identifier.

`Shape` describes the tree and the chains of further logins; each operation has
a lemma saying how it changes the shape, and `ClientInv` adds what the states of
the clients have to do with it.
-/

namespace PicaPica

open PointerTree PointerTree.Ctx Machine

/-- Clients are ordered by their identifiers. -/
def ClientTree.key (t : ClientTree) (p : Ptr) : Nat :=
  (t.id p).rank

section Descent

variable {t : ClientTree} {ci : Ptr} {id : Id} {fuel : Nat}

theorem clientTreeSearchFrom_eq
    {s : Slot Ptr} {tr : PointerTree.Tree Ptr} (hrep : Rep t.store s tr)
    (hfuel : tr.toList.length ≤ fuel) :
    clientTreeSearchFrom t id fuel (t.store.get s) = some (tr.find t.key id.rank) := by
  induction tr generalizing s fuel with
  | leaf =>
      rw [show t.store.get s = none from hrep]
      cases fuel <;> rfl
  | node l p r ihl ihr =>
      obtain ⟨hp, -, hl, hr⟩ := hrep
      simp only [Tree.toList, List.length_append, List.length_cons] at hfuel
      obtain ⟨fuel, rfl⟩ : ∃ n, fuel = n + 1 := ⟨fuel - 1, by omega⟩
      rw [hp, clientTreeSearchFrom, Tree.find]
      cases hcmp : memcmp id.1 (t.id p).1 with
      | eq =>
          obtain rfl := memcmp_eq_iff.mp hcmp
          simp [ClientTree.key]
      | lt =>
          have hlt : id.rank < t.key p := memcmp_lt_iff.mp hcmp
          rw [if_neg (Nat.ne_of_lt hlt), if_pos hlt]
          exact ihl hl (by omega)
      | gt =>
          have hne : id.rank ≠ t.key p := by
            intro heq
            rw [memcmp_eq_iff.mpr (Id.rank_inj.mp heq)] at hcmp
            cases hcmp
          have hnlt : ¬ id.rank < t.key p := by
            intro hlt
            rw [memcmp_lt_iff.mpr hlt] at hcmp
            cases hcmp
          rw [if_neg hne, if_neg hnlt]
          exact ihr hr (by omega)

/-- Where the loop of `client_tree_add` ends: at a client with the same
identifier, or at the gap into which the new client belongs. -/
theorem clientTreeAddFrom_cases
    {s : Slot Ptr} {tr : PointerTree.Tree Ptr} {i : Ptr} (hrep : Rep t.store s tr)
    (hsorted : Sorted t.key tr) (hi : t.store.get s = some i)
    (hfuel : tr.toList.length ≤ fuel) :
    ((∃ p ∈ tr.toList, t.id p = t.id ci) ∧ clientTreeAddFrom t ci fuel i = some (t, 0)) ∨
      ∃ c, tr = plug c .leaf ∧ (∀ q ∈ before c, t.key q < t.key ci) ∧
        (∀ q ∈ after c, t.key ci < t.key q) ∧
        clientTreeAddFrom t ci fuel i =
          some ({ t with
            store := (t.store.set (hole s c) (some ci)).setUp ci (hole s c).owner }, 1) := by
  induction tr generalizing s i fuel with
  | leaf => simp [PointerTree.Rep, hi] at hrep
  | node l p r ihl ihr =>
      obtain ⟨hp, -, hl, hr⟩ := hrep
      obtain rfl : p = i := Option.some.inj (hp.symm.trans hi)
      obtain ⟨hsl, hsr, hlp, hpr⟩ := sorted_node.mp hsorted
      simp only [Tree.toList, List.length_append, List.length_cons] at hfuel
      obtain ⟨fuel, rfl⟩ : ∃ n, fuel = n + 1 := ⟨fuel - 1, by omega⟩
      rw [clientTreeAddFrom]
      cases hcmp : memcmp (t.id ci).1 (t.id p).1 with
      | eq =>
          left
          exact ⟨⟨p, by simp [Tree.toList], (memcmp_eq_iff.mp hcmp).symm⟩, rfl⟩
      | lt =>
          have hlt : t.key ci < t.key p := memcmp_lt_iff.mp hcmp
          cases hleft : (t.store.cell p).left with
          | none =>
              right
              obtain rfl : l = .leaf := by
                cases l with
                | leaf => rfl
                | node a q b => exact absurd (hl.1.symm.trans hleft) (by simp)
              refine ⟨[⟨.left, p, r⟩], rfl, by simp [before], ?_, rfl⟩
              simp only [after, List.nil_append, List.mem_cons]
              rintro q (rfl | hq)
              · exact hlt
              · exact hlt.trans (hpr q hq)
          | some j =>
              rcases ihl hl hsl hleft (show l.toList.length ≤ fuel by omega) with ⟨⟨q, hq, hid⟩, hdup⟩ |
                ⟨c, rfl, hbefore, hafter, hadd⟩
              · left
                exact ⟨⟨q, by simp [Tree.toList, hq], hid⟩, hdup⟩
              · right
                refine ⟨⟨.left, p, r⟩ :: c, rfl, hbefore, ?_, hadd⟩
                simp only [after, List.mem_append, List.mem_cons]
                rintro q (hq | rfl | hq)
                · exact hafter q hq
                · exact hlt
                · exact hlt.trans (hpr q hq)
      | gt =>
          have hgt : t.key p < t.key ci := by
            rw [memcmp_eq_compare (by simp), Nat.compare_eq_gt] at hcmp
            exact hcmp
          cases hright : (t.store.cell p).right with
          | none =>
              right
              obtain rfl : r = .leaf := by
                cases r with
                | leaf => rfl
                | node a q b => exact absurd (hr.1.symm.trans hright) (by simp)
              refine ⟨[⟨.right, p, l⟩], rfl, ?_, by simp [after], rfl⟩
              simp only [before, List.mem_append, List.mem_singleton]
              rintro q (hq | rfl)
              · exact (hlp q hq).trans hgt
              · exact hgt
          | some j =>
              rcases ihr hr hsr hright (show r.toList.length ≤ fuel by omega) with ⟨⟨q, hq, hid⟩, hdup⟩ |
                ⟨c, rfl, hbefore, hafter, hadd⟩
              · left
                exact ⟨⟨q, by simp [Tree.toList, hq], hid⟩, hdup⟩
              · right
                refine ⟨⟨.right, p, l⟩ :: c, rfl, ?_, hafter, hadd⟩
                simp only [before, List.mem_append, List.mem_cons]
                rintro q (hq | rfl | hq)
                · exact (hlp q hq).trans hgt
                · exact hgt
                · exact hbefore q hq

end Descent

section Chains

variable {t : ClientTree} {ci s : Ptr} {ps : List Ptr} {fuel : Nat}

theorem unlinkMulti_eq :
    unlinkMulti t ci fuel s =
      (unlinkFrom t.nextMulti ci fuel s).map fun next => { t with nextMulti := next } := by
  induction fuel generalizing s with
  | zero => rfl
  | succ fuel ih =>
      rw [unlinkMulti, unlinkFrom]
      split_ifs with hlast
      · rfl
      · cases t.nextMulti s with
        | none => rfl
        | some s' => exact ih

theorem unlinkMulti_of_not_mem
    (hchain : Chain t.nextMulti (t.nextMulti s) ps) (hci : ci ∉ ps) (hfuel : ps.length < fuel) :
    unlinkMulti t ci fuel s = some t := by
  rw [unlinkMulti_eq, unlinkFrom_of_not_mem hchain hci hfuel]
  rfl

/-- The loop takes a login out of the chain it is in. -/
theorem unlinkMulti_of_mem
    (hchain : Chain t.nextMulti (t.nextMulti s) ps) (hnd : (s :: ps).Nodup) (hci : ci ∈ ps)
    (hfuel : ps.length < fuel) :
    ∃ x ∈ s :: ps, x ≠ ci ∧
      unlinkMulti t ci fuel s = some (t.setNextMulti x (t.nextMulti ci)) ∧
      Chain (t.setNextMulti x (t.nextMulti ci)).nextMulti
        ((t.setNextMulti x (t.nextMulti ci)).nextMulti s) (ps.erase ci) := by
  obtain ⟨x, hx, hxci, hun, hch⟩ := unlinkFrom_of_mem hchain hnd hci hfuel
  refine ⟨x, hx, hxci, ?_, hch⟩
  rw [unlinkMulti_eq, hun]
  rfl

end Chains

/-- The tree `tr` of clients and, for each of them, the other logins. -/
structure Shape (t : ClientTree) (tr : PointerTree.Tree Ptr) (secs : Ptr → List Ptr) : Prop where
  rep : Rep t.store .root tr
  sorted : Sorted t.key tr
  list : t.list.Nodup
  live : ∀ p ∈ tr.toList, p ∈ t.list
  chain : ∀ p ∈ tr.toList, Chain t.nextMulti (t.nextMulti p) (secs p)
  nodup : ∀ p ∈ tr.toList, (secs p).Nodup
  sec : ∀ p ∈ tr.toList, ∀ q ∈ secs p, q ∈ t.list ∧ q ∉ tr.toList ∧ t.id q = t.id p
  idle : ∀ p ∈ t.list, p ∉ tr.toList → t.store.cell p = ⟨none, none, none⟩
  lone : ∀ p ∈ t.list, p ∉ tr.toList → (∀ q ∈ tr.toList, p ∉ secs q) →
    t.nextMulti p = none

/-- The states of the clients `ps` tell where they are. -/
def Labelled
    (t : ClientTree) (tr : PointerTree.Tree Ptr) (secs : Ptr → List Ptr) (ps : List Ptr) : Prop :=
  ∀ p ∈ ps, (t.state p = .connected ↔ p ∈ tr.toList) ∧
    (t.state p = .multiloginSecondary ↔ ∃ q ∈ tr.toList, p ∈ secs q)

namespace Shape

variable {t : ClientTree} {tr : PointerTree.Tree Ptr} {secs : Ptr → List Ptr} {p q : Ptr}

/-- Two clients of the tree differ in their identifiers. -/
theorem eq_of_id (h : Shape t tr secs) (hp : p ∈ tr.toList) (hq : q ∈ tr.toList)
    (hid : t.id p = t.id q) : p = q := by
  have hfp := h.sorted.find_eq_some_iff.mpr ⟨hp, congrArg Id.rank hid⟩
  have hfq := h.sorted.find_eq_some_iff.mpr ⟨hq, rfl⟩
  exact Option.some.inj (hfp.symm.trans hfq)

theorem length_tree (h : Shape t tr secs) : tr.toList.length ≤ t.list.length :=
  (List.subperm_of_subset h.sorted.nodup h.live).length_le

theorem nodup_cons (h : Shape t tr secs) (hp : p ∈ tr.toList) : (p :: secs p).Nodup :=
  List.nodup_cons.mpr ⟨fun hmem => (h.sec p hp p hmem).2.1 hp, h.nodup p hp⟩

theorem length_secs (h : Shape t tr secs) (hp : p ∈ tr.toList) :
    (secs p).length < t.list.length := by
  have hsub : p :: secs p ⊆ t.list := by
    intro x hx
    rcases List.mem_cons.mp hx with rfl | hx
    · exact h.live x hp
    · exact (h.sec p hp x hx).1
  exact (List.subperm_of_subset (h.nodup_cons hp) hsub).length_le

/-- A login belongs to one client. -/
theorem sec_unique (h : Shape t tr secs) {a : Ptr} (hp : p ∈ tr.toList) (hq : q ∈ tr.toList)
    (hap : a ∈ secs p) (haq : a ∈ secs q) : p = q :=
  h.eq_of_id hp hq ((h.sec p hp a hap).2.2.symm.trans (h.sec q hq a haq).2.2)

theorem search_eq (h : Shape t tr secs) (id : Id) {fuel : Nat}
    (hfuel : tr.toList.length ≤ fuel) :
    clientTreeSearch t id fuel = some (tr.find t.key id.rank) :=
  clientTreeSearchFrom_eq h.rep hfuel

theorem setState (h : Shape t tr secs) (a : Ptr) (s : ClState) :
    Shape (t.setState a s) tr secs :=
  ⟨h.rep, h.sorted, h.list, h.live, h.chain, h.nodup, h.sec, h.idle, h.lone⟩

/-- Only the chains of the clients in the tree matter. -/
theorem congr (h : Shape t tr secs) {secs' : Ptr → List Ptr}
    (hsecs : ∀ p ∈ tr.toList, secs' p = secs p) : Shape t tr secs' where
  rep := h.rep
  sorted := h.sorted
  list := h.list
  live := h.live
  chain p hp := by
    rw [hsecs p hp]
    exact h.chain p hp
  nodup p hp := by
    rw [hsecs p hp]
    exact h.nodup p hp
  sec p hp := by
    rw [hsecs p hp]
    exact h.sec p hp
  idle := h.idle
  lone p hp hout hno := h.lone p hp hout fun q hq => hsecs q hq ▸ hno q hq

/-- A client that is in no tree and no chain may get another identifier. -/
theorem setId (h : Shape t tr secs) {ci : Ptr} (id : Id) (hci : ci ∉ tr.toList)
    (hsec : ∀ q ∈ tr.toList, ci ∉ secs q) :
    Shape { t with id := Function.update t.id ci id } tr secs := by
  have hkeep : ∀ p, p ≠ ci → Function.update t.id ci id p = t.id p :=
    fun p hp => Function.update_of_ne hp _ _
  have htree : ∀ p ∈ tr.toList, Function.update t.id ci id p = t.id p := by
    intro p hp
    refine hkeep p ?_
    rintro rfl
    exact hci hp
  refine ⟨h.rep, ?_, h.list, h.live, h.chain, h.nodup, ?_, h.idle, h.lone⟩
  · refine h.sorted.imp_of_mem ?_
    intro a b ha hb hab
    simpa only [ClientTree.key, htree a ha, htree b hb] using hab
  · intro p hp q hq
    obtain ⟨hlive, hout, hid⟩ := h.sec p hp q hq
    refine ⟨hlive, hout, ?_⟩
    change Function.update t.id ci id q = Function.update t.id ci id p
    rw [htree p hp, ← hid]
    refine hkeep q ?_
    rintro rfl
    exact hsec p hp hq

/-- **`client_tree_add`** of a client that is in no tree and no chain. -/
theorem add (h : Shape t tr secs) {ci : Ptr} {fuel : Nat} (hlive : ci ∈ t.list)
    (hci : ci ∉ tr.toList) (hsec : ∀ q ∈ tr.toList, ci ∉ secs q)
    (hfuel : tr.toList.length ≤ fuel) :
    ((∃ p ∈ tr.toList, t.id p = t.id ci) ∧ clientTreeAdd t ci fuel = some (t, 0)) ∨
      ∃ st tr', clientTreeAdd t ci fuel = some ({ t with store := st }, 1) ∧
        (∀ p, p ∈ tr'.toList ↔ p = ci ∨ p ∈ tr.toList) ∧
        (st.cell ci).left = none ∧ (st.cell ci).right = none ∧
        Shape { t with store := st } tr' (Function.update secs ci []) := by
  have hidle := h.idle ci hlive hci
  -- both ways to attach the client amount to filling the hole of a context
  have hattach : ∀ c : Ctx Ptr, tr = plug c .leaf →
      (∀ q ∈ before c, t.key q < t.key ci) → (∀ q ∈ after c, t.key ci < t.key q) →
      ∀ st, st = (t.store.set (hole .root c) (some ci)).setUp ci (hole .root c).owner →
      ∃ tr' : PointerTree.Tree Ptr, (∀ p, p ∈ tr'.toList ↔ p = ci ∨ p ∈ tr.toList) ∧
        (st.cell ci).left = none ∧ (st.cell ci).right = none ∧
        Shape { t with store := st } tr' (Function.update secs ci []) := by
    rintro c rfl hbefore hafter st rfl
    have hrep := rep_attach h.rep h.sorted.nodup hci (by rw [hidle]) (by rw [hidle])
    have hmem : ∀ p, p ∈ (plug c (.node .leaf ci .leaf)).toList ↔
        p = ci ∨ p ∈ (plug c .leaf).toList := by
      intro p
      simp only [toList_plug, Tree.toList, List.mem_append, List.nil_append,
        List.mem_singleton, List.append_nil]
      tauto
    have hsecs : ∀ p ∈ (plug c .leaf).toList, Function.update secs ci [] p = secs p := by
      intro p hp
      refine Function.update_of_ne ?_ _ _
      rintro rfl
      exact hci hp
    refine ⟨plug c (.node .leaf ci .leaf), hmem, ?_, ?_, hrep,
      sorted_attach h.sorted hbefore hafter, h.list, ?_, ?_, ?_, ?_, ?_, ?_⟩
    · obtain ⟨-, -, -, hl, -⟩ := (rep_plug _ _ _ _).mp hrep
      exact hl
    · obtain ⟨-, -, -, -, hr⟩ := (rep_plug _ _ _ _).mp hrep
      exact hr
    · intro p hp
      rcases (hmem p).mp hp with rfl | hp
      · exact hlive
      · exact h.live p hp
    · intro p hp
      rcases (hmem p).mp hp with rfl | hp
      · rw [Function.update_self]
        exact h.lone p hlive hci hsec
      · rw [hsecs p hp]
        exact h.chain p hp
    · intro p hp
      rcases (hmem p).mp hp with rfl | hp
      · rw [Function.update_self]
        exact List.nodup_nil
      · rw [hsecs p hp]
        exact h.nodup p hp
    · intro p hp q hq
      rcases (hmem p).mp hp with rfl | hold
      · rw [Function.update_self] at hq
        cases hq
      · rw [hsecs p hold] at hq
        obtain ⟨hql, hqt, hid⟩ := h.sec p hold q hq
        refine ⟨hql, ?_, hid⟩
        rw [hmem, not_or]
        refine ⟨?_, hqt⟩
        rintro rfl
        exact hsec p hold hq
    · intro p hp hout
      rw [hmem, not_or] at hout
      have hcell := h.idle p hp hout.2
      have hctx : p ∉ nodes c := fun hn =>
        hout.2 ((plug_perm c .leaf).mem_iff.mpr (List.mem_append_left _ hn))
      have hup : ((t.store.set (hole .root c) (some ci)).setUp ci (hole .root c).owner).cell p =
          (t.store.set (hole .root c) (some ci)).cell p :=
        Store.cell_adopt_of_ne _ (hole .root c).owner
          (o := some ci) (fun e => hout.1 (Option.some.inj e).symm)
      exact (hup.trans (Store.cell_set_of_ne _ _ (owner_hole_ne hctx))).trans hcell
    · intro p hp hout hno
      rw [hmem, not_or] at hout
      refine h.lone p hp hout.2 ?_
      intro q hq
      have := hno q ((hmem q).mpr (.inr hq))
      rwa [hsecs q hq] at this
  rw [clientTreeAdd]
  cases hroot : t.store.root with
  | none =>
      right
      have htr : tr = .leaf := by
        cases tr with
        | leaf => rfl
        | node l p r => exact absurd (h.rep.1.symm.trans hroot) (by simp)
      have hst : t.store.set .root (some ci) =
          (t.store.set (hole .root []) (some ci)).setUp ci (hole .root []).owner := by
        refine (Store.setUp_eq_self _ ?_).symm
        simp [hole, Slot.owner, hidle]
      obtain ⟨tr', hmem, hl, hr, hshape⟩ :=
        hattach [] htr (by simp [before]) (by simp [after]) _ hst
      exact ⟨_, tr', rfl, hmem, hl, hr, hshape⟩
  | some i =>
      rcases @clientTreeAddFrom_cases t ci fuel _ _ _ h.rep h.sorted hroot hfuel with hdup |
        ⟨c, htr, hbefore, hafter, hadd⟩
      · exact .inl hdup
      · right
        obtain ⟨tr', hmem, hl, hr, hshape⟩ := hattach c htr hbefore hafter _ rfl
        exact ⟨_, tr', hadd, hmem, hl, hr, hshape⟩

end Shape

namespace Shape

variable {t : ClientTree} {tr : PointerTree.Tree Ptr} {secs : Ptr → List Ptr} {primary ci : Ptr}

/-- **`client_attach_multi_secondary`.** -/
theorem attachMulti (h : Shape t tr secs) (hp : primary ∈ tr.toList) (hlive : ci ∈ t.list)
    (hci : ci ∉ tr.toList) (hsec : ∀ q ∈ tr.toList, ci ∉ secs q)
    (hid : t.id ci = t.id primary) :
    Shape (clientAttachMultiSecondary t primary ci) tr
      (Function.update secs primary (ci :: secs primary)) := by
  have hne : primary ≠ ci := by
    rintro rfl
    exact hci hp
  have hnext : ∀ x, x ≠ primary → x ≠ ci →
      (clientAttachMultiSecondary t primary ci).nextMulti x = t.nextMulti x := by
    intro x hxp hxci
    exact (Function.update_of_ne hxp _ _).trans (Function.update_of_ne hxci _ _)
  have hnextci : (clientAttachMultiSecondary t primary ci).nextMulti ci =
      t.nextMulti primary :=
    (Function.update_of_ne hne.symm _ _).trans (Function.update_self _ _ _)
  have hkeep : ∀ p ∈ tr.toList, ∀ q ∈ secs p,
      (clientAttachMultiSecondary t primary ci).nextMulti q = t.nextMulti q := by
    intro p hmem q hq
    refine hnext q ?_ ?_
    · rintro rfl
      exact (h.sec p hmem q hq).2.1 hp
    · rintro rfl
      exact hsec p hmem hq
  refine ⟨h.rep, h.sorted, h.list, h.live, ?_, ?_, ?_, h.idle, ?_⟩
  · intro p hmem
    rcases eq_or_ne p primary with rfl | hpp
    · rw [Function.update_self]
      refine ⟨Function.update_self _ _ _, ?_⟩
      rw [hnextci]
      exact (h.chain p hmem).congr (hkeep p hmem)
    · have hpci : p ≠ ci := by
        rintro rfl
        exact hci hmem
      rw [Function.update_of_ne hpp, hnext p hpp hpci]
      exact (h.chain p hmem).congr (hkeep p hmem)
  · intro p hmem
    rcases eq_or_ne p primary with rfl | hpp
    · rw [Function.update_self]
      exact List.nodup_cons.mpr ⟨hsec p hmem, h.nodup p hmem⟩
    · rw [Function.update_of_ne hpp]
      exact h.nodup p hmem
  · intro p hmem q hq
    rcases eq_or_ne p primary with rfl | hpp
    · rw [Function.update_self] at hq
      rcases List.mem_cons.mp hq with rfl | hq
      · exact ⟨hlive, hci, hid⟩
      · exact h.sec p hmem q hq
    · rw [Function.update_of_ne hpp] at hq
      exact h.sec p hmem q hq
  · intro p hmem hout hno
    have hno' : ∀ q ∈ tr.toList, p ∉ secs q := by
      intro q hq hpq
      refine hno q hq ?_
      rcases eq_or_ne q primary with rfl | hqp
      · rw [Function.update_self]
        exact List.mem_cons_of_mem _ hpq
      · rw [Function.update_of_ne hqp]
        exact hpq
    rw [hnext p]
    · exact h.lone p hmem hout hno'
    · rintro rfl
      exact hout hp
    · rintro rfl
      refine hno primary hp ?_
      rw [Function.update_self]
      exact List.mem_cons_self

end Shape

/-- The state of the client list after the first lines of `client_list_delete`. -/
def ClientTree.unlisted (t : ClientTree) (ci : Ptr) : ClientTree :=
  { t with list := t.list.erase ci }

namespace Shape

variable {t : ClientTree} {tr : PointerTree.Tree Ptr} {secs : Ptr → List Ptr} {ci : Ptr}
  {fuel : Nat}

theorem mem_unlisted (h : Shape t tr secs) {p : Ptr} :
    p ∈ t.list.erase ci ↔ p ≠ ci ∧ p ∈ t.list :=
  h.list.mem_erase_iff

/-- A client on the middle of the list of records. -/
theorem mem_plug_node
    {c : Ctx Ptr} {l r : PointerTree.Tree Ptr} (hnd : (plug c (.node l ci r)).toList.Nodup)
    {p : Ptr} :
    p ∈ before c ++ l.toList ++ (r.toList ++ after c) ↔
      p ∈ (plug c (.node l ci r)).toList ∧ p ≠ ci := by
  have hlist : (plug c (.node l ci r)).toList =
      before c ++ l.toList ++ ci :: (r.toList ++ after c) := by
    simp [toList_plug, Tree.toList]
  rw [hlist] at hnd ⊢
  have hout := (List.nodup_cons.mp (List.nodup_middle.mp hnd)).1
  constructor
  · intro hp
    refine ⟨?_, ?_⟩
    · simp only [List.mem_append, List.mem_cons] at hp ⊢
      tauto
    · rintro rfl
      exact hout hp
  · rintro ⟨hp, hne⟩
    simp only [List.mem_append, List.mem_cons] at hp ⊢
    tauto

/-- **`client_tree_remove`** of a client with at most one child. -/
theorem remove (h : Shape t tr secs) (hci : ci ∈ tr.toList) (hnext : t.nextMulti ci = none)
    (hone : (t.store.cell ci).left = none ∨ (t.store.cell ci).right = none) :
    ∃ st tr', clientTreeRemove (t.unlisted ci) ci fuel =
        some { t.unlisted ci with store := st } ∧
      (∀ p, p ∈ tr'.toList ↔ p ∈ tr.toList ∧ p ≠ ci) ∧ secs ci = [] ∧
      Shape { t.unlisted ci with store := st } tr' secs := by
  obtain ⟨c, l, r, rfl⟩ := exists_plug_of_mem hci
  have hnd := h.sorted.nodup
  obtain ⟨-, -, -, hl, hr⟩ := (rep_plug _ _ _ _).mp h.rep
  have hsecs : secs ci = [] := by
    have hchain := h.chain ci hci
    rw [hnext] at hchain
    cases hs : secs ci with
    | nil => rfl
    | cons q qs =>
        rw [hs] at hchain
        cases hchain.1
  -- the side whose subtree takes the place of the client; the other is empty
  obtain ⟨d, hother, hremove⟩ : ∃ d : Side, d.pick r l = .leaf ∧
      clientTreeRemove (t.unlisted ci) ci fuel = some { t.unlisted ci with
        store := (t.store.adopt (t.store.get (.child d ci)) (t.store.cell ci).up).set
          (t.store.link ci) (t.store.get (.child d ci)) } := by
    have hleaf : ∀ {e : Side} {u : PointerTree.Tree Ptr}, Rep t.store (.child e ci) u →
        (t.store.cell ci).child e = none → u = .leaf := by
      intro e u hu hnone
      cases u with
      | leaf => rfl
      | node a q b => exact absurd (hu.1.symm.trans hnone) (by simp)
    cases hleft : (t.store.cell ci).left with
    | none =>
        refine ⟨.right, hleaf hl hleft, ?_⟩
        cases hright : (t.store.cell ci).right <;>
          simp [clientTreeRemove, ClientTree.unlisted, hleft, hright, Store.get, Cell.child,
            Store.adopt]
    | some a =>
        have hright : (t.store.cell ci).right = none := by
          rcases hone with hone | hone
          · rw [hleft] at hone
            cases hone
          · exact hone
        refine ⟨.left, hleaf hr hright, ?_⟩
        simp [clientTreeRemove, ClientTree.unlisted, hleft, hright, Store.get, Cell.child,
          Store.adopt]
  have hrep := rep_detach h.rep hnd d
  have hlist : (plug c (d.pick l r)).toList = before c ++ l.toList ++ (r.toList ++ after c) := by
    cases d <;> simp_all [Side.pick, toList_plug, Tree.toList]
  have hmem : ∀ p, p ∈ (plug c (d.pick l r)).toList ↔
      p ∈ (plug c (.node l ci r)).toList ∧ p ≠ ci := by
    intro p
    rw [hlist]
    exact mem_plug_node hnd
  have hsorted : Sorted t.key (plug c (d.pick l r)) := by
    refine sorted_detach h.sorted ?_
    cases d <;> simp [Side.pick, Tree.toList]
  refine ⟨_, plug c (d.pick l r), hremove, hmem, hsecs, hrep, hsorted, h.list.erase ci,
    ?_, ?_, ?_, ?_, ?_, ?_⟩
  · intro p hp
    obtain ⟨hold, hne⟩ := (hmem p).mp hp
    exact h.mem_unlisted.mpr ⟨hne, h.live p hold⟩
  · intro p hp
    exact h.chain p ((hmem p).mp hp).1
  · intro p hp
    exact h.nodup p ((hmem p).mp hp).1
  · intro p hp q hq
    obtain ⟨hlive, hout, hid⟩ := h.sec p ((hmem p).mp hp).1 q hq
    have hne : q ≠ ci := by
      rintro rfl
      exact hout hci
    exact ⟨h.mem_unlisted.mpr ⟨hne, hlive⟩, fun hq' => hout ((hmem q).mp hq').1, hid⟩
  · intro p hp hout
    obtain ⟨hne, hlive⟩ := h.mem_unlisted.mp hp
    have hold : p ∉ (plug c (.node l ci r)).toList := fun hin => hout ((hmem p).mpr ⟨hin, hne⟩)
    have hctx : p ∉ nodes c := fun hn =>
      hold ((plug_perm c _).mem_iff.mpr (List.mem_append_left _ hn))
    change ((t.store.adopt _ _).set _ _).cell p = _
    rw [link_eq_hole h.rep hnd, Store.cell_set_of_ne _ _ (owner_hole_ne hctx),
      Store.cell_adopt_of_ne, h.idle p hlive hold]
    intro hchild
    refine hold ((plug_perm c _).mem_iff.mpr (List.mem_append_right _ ?_))
    simp only [Tree.toList, List.mem_append, List.mem_cons]
    cases d with
    | left => exact .inl (hl.mem_of_get hchild)
    | right => exact .inr (.inr (hr.mem_of_get hchild))
  · intro p hp hout hno
    obtain ⟨hne, hlive⟩ := h.mem_unlisted.mp hp
    refine h.lone p hlive (fun hin => hout ((hmem p).mpr ⟨hin, hne⟩)) ?_
    intro q hq
    rcases eq_or_ne q ci with rfl | hqci
    · rw [hsecs]
      exact List.not_mem_nil
    · exact hno q ((hmem q).mpr ⟨hq, hqci⟩)

/-- **`client_tree_replace_multi`.** -/
theorem replaceMulti (h : Shape t tr secs) {q : Ptr} {qs : List Ptr} (hci : ci ∈ tr.toList)
    (hsecs : secs ci = q :: qs) :
    ∃ tr', (∀ p, p ∈ tr'.toList ↔ p = q ∨ p ∈ tr.toList ∧ p ≠ ci) ∧
      Shape (clientTreeReplaceMulti (t.unlisted ci) ci q) tr' (Function.update secs q qs) := by
  obtain ⟨hqlive, hqout, hqid⟩ := h.sec ci hci q (by simp [hsecs])
  have hqci : q ≠ ci := by
    rintro rfl
    exact hqout hci
  obtain ⟨c, l, r, rfl⟩ := exists_plug_of_mem hci
  have hnd := h.sorted.nodup
  have hlink := link_eq_hole h.rep hnd
  obtain ⟨-, -, -, hl, hr⟩ := (rep_plug _ _ _ _).mp h.rep
  have hcictx : ci ∉ nodes c := not_mem_nodes hnd (by simp [Tree.toList])
  -- the source reads the fields of `ci` between the assignments, none of which changes them
  have hstore : (clientTreeReplaceMulti (t.unlisted ci) ci q).store =
      ((((t.store.set (t.store.link ci) (some q)).setCell q (t.store.cell ci)).adopt
        (t.store.cell ci).left (some q)).adopt (t.store.cell ci).right (some q)) := by
    have hcell : (t.store.set (t.store.link ci) (some q)).cell ci = t.store.cell ci := by
      rw [hlink]
      exact Store.cell_set_of_ne _ _ (owner_hole_ne hcictx)
    have hright : ∀ o v : Option Ptr, ∀ st : Store Ptr,
        ((st.adopt o v).cell ci).right = (st.cell ci).right :=
      fun o v st => st.get_adopt o v (.child .right ci)
    simp only [clientTreeReplaceMulti, ClientTree.unlisted, hcell, hright,
      Store.cell_setCell_of_ne _ _ hqci.symm]
  have hrep := rep_replace h.rep hnd hqout
  have hlist : ∀ x, (plug c (.node l x r)).toList =
      before c ++ l.toList ++ x :: (r.toList ++ after c) := by
    intro x
    simp [toList_plug, Tree.toList]
  have hmem : ∀ p, p ∈ (plug c (.node l q r)).toList ↔
      p = q ∨ p ∈ (plug c (.node l ci r)).toList ∧ p ≠ ci := by
    intro p
    rw [← mem_plug_node hnd, hlist]
    simp only [List.mem_append, List.mem_cons]
    tauto
  have hkey : t.key q = t.key ci := congrArg Id.rank hqid
  have hsorted : Sorted t.key (plug c (.node l q r)) := by
    have hold := h.sorted
    rw [Sorted, hlist] at hold ⊢
    simp only [List.pairwise_append, List.pairwise_cons, List.mem_append, List.mem_cons, hkey]
      at hold ⊢
    refine ⟨hold.1, hold.2.1, ?_⟩
    rintro a ha b (rfl | hb)
    · rw [hkey]
      exact hold.2.2 a ha ci (.inl rfl)
    · exact hold.2.2 a ha b (.inr hb)
  have hupd : ∀ p, p ≠ q → Function.update secs q qs p = secs p :=
    fun p hp => Function.update_of_ne hp _ _
  have hold : ∀ p, p ∈ (plug c (.node l ci r)).toList → p ≠ q := by
    rintro p hp rfl
    exact hqout hp
  have hqnd := h.nodup ci hci
  have hchain := h.chain ci hci
  rw [hsecs] at hqnd hchain
  obtain ⟨hqqs, hqsnd⟩ := List.nodup_cons.mp hqnd
  refine ⟨plug c (.node l q r), hmem, hstore ▸ hrep, hsorted, h.list.erase ci,
    ?_, ?_, ?_, ?_, ?_, ?_⟩
  · intro p hp
    rcases (hmem p).mp hp with rfl | ⟨hin, hne⟩
    · exact h.mem_unlisted.mpr ⟨hqci, hqlive⟩
    · exact h.mem_unlisted.mpr ⟨hne, h.live p hin⟩
  · intro p hp
    rcases (hmem p).mp hp with rfl | ⟨hin, hne⟩
    · rw [Function.update_self]
      exact hchain.2
    · rw [hupd p (hold p hin)]
      exact h.chain p hin
  · intro p hp
    rcases (hmem p).mp hp with rfl | ⟨hin, hne⟩
    · rw [Function.update_self]
      exact hqsnd
    · rw [hupd p (hold p hin)]
      exact h.nodup p hin
  · intro p hp x hx
    have hxold : ∃ y ∈ (plug c (.node l ci r)).toList, x ∈ secs y ∧ t.id y = t.id p ∧ x ≠ q := by
      rcases (hmem p).mp hp with rfl | ⟨hin, hne⟩
      · rw [Function.update_self] at hx
        refine ⟨ci, hci, by simp [hsecs, hx], hqid.symm, ?_⟩
        rintro rfl
        exact hqqs hx
      · rw [hupd p (hold p hin)] at hx
        refine ⟨p, hin, hx, rfl, ?_⟩
        rintro rfl
        exact hne (h.sec_unique hin hci hx (by simp [hsecs]))
    obtain ⟨y, hy, hxy, hyid, hxq⟩ := hxold
    obtain ⟨hxlive, hxout, hxid⟩ := h.sec y hy x hxy
    refine ⟨h.mem_unlisted.mpr ⟨?_, hxlive⟩, ?_, hxid.trans hyid⟩
    · rintro rfl
      exact hxout hci
    · rw [hmem, not_or]
      exact ⟨hxq, fun hx' => hxout hx'.1⟩
  · intro p hp hout
    obtain ⟨hne, hlive⟩ := h.mem_unlisted.mp hp
    rw [hmem, not_or] at hout
    have hpout : p ∉ (plug c (.node l ci r)).toList := fun hin => hout.2 ⟨hin, hne⟩
    have hctx : p ∉ nodes c := fun hn =>
      hpout ((plug_perm c _).mem_iff.mpr (List.mem_append_left _ hn))
    have hsub : ∀ x, x ∈ l.toList ∨ x ∈ r.toList → x ≠ p := by
      rintro x hx rfl
      refine hpout ((plug_perm c _).mem_iff.mpr (List.mem_append_right _ ?_))
      simp only [Tree.toList, List.mem_append, List.mem_cons]
      tauto
    rw [hstore, hlink, Store.cell_adopt_of_ne, Store.cell_adopt_of_ne,
      Store.cell_setCell_of_ne _ _ hout.1, Store.cell_set_of_ne _ _ (owner_hole_ne hctx),
      h.idle p hlive hpout]
    · intro hleft
      exact hsub p (.inl (hl.mem_of_get hleft)) rfl
    · intro hright
      exact hsub p (.inr (hr.mem_of_get hright)) rfl
  · intro p hp hout hno
    obtain ⟨hne, hlive⟩ := h.mem_unlisted.mp hp
    rw [hmem, not_or] at hout
    refine h.lone p hlive (fun hin => hout.2 ⟨hin, hne⟩) ?_
    intro y hy hpy
    rcases eq_or_ne y ci with rfl | hyci
    · rw [hsecs] at hpy
      refine hno q ((hmem q).mpr (.inl rfl)) ?_
      rw [Function.update_self]
      exact (List.mem_cons.mp hpy).resolve_left hout.1
    · refine hno y ((hmem y).mpr (.inr ⟨hy, hyci⟩)) ?_
      rw [hupd y (hold y hy)]
      exact hpy

/-- Deleting a login from the chain of `p`. -/
theorem unlink (h : Shape t tr secs) {p : Ptr} (hp : p ∈ tr.toList) (hci : ci ∈ secs p)
    (hfuel : (secs p).length < fuel) :
    ∃ t', unlinkMulti (t.unlisted ci) ci fuel p = some t' ∧ t'.list = t.list.erase ci ∧
      t'.state = t.state ∧ t'.id = t.id ∧
      Shape t' tr (Function.update secs p ((secs p).erase ci)) := by
  obtain ⟨hcilive, hciout, hciid⟩ := h.sec p hp ci hci
  obtain ⟨x, hx, hxci, hun, hchain⟩ := @unlinkMulti_of_mem (t.unlisted ci) ci p (secs p) fuel
    (h.chain p hp) (h.nodup_cons hp) hci hfuel
  have hxid : t.id x = t.id p := by
    rcases List.mem_cons.mp hx with rfl | hx
    · rfl
    · exact (h.sec p hp x hx).2.2
  have hsub : ∀ y ∈ tr.toList, ∀ z ∈ Function.update secs p ((secs p).erase ci) y,
      z ∈ secs y ∧ z ≠ ci := by
    intro y hy z hz
    rcases eq_or_ne y p with rfl | hne
    · rw [Function.update_self] at hz
      obtain ⟨hzci, hz⟩ := (h.nodup y hy).mem_erase_iff.mp hz
      exact ⟨hz, hzci⟩
    · rw [Function.update_of_ne hne] at hz
      refine ⟨hz, ?_⟩
      rintro rfl
      exact hne (h.sec_unique hy hp hz hci)
  refine ⟨_, hun, rfl, rfl, rfl, h.rep, h.sorted, h.list.erase ci, ?_, ?_, ?_, ?_, ?_, ?_⟩
  · intro y hy
    refine h.mem_unlisted.mpr ⟨?_, h.live y hy⟩
    rintro rfl
    exact hciout hy
  · intro y hy
    rcases eq_or_ne y p with rfl | hne
    · rw [Function.update_self]
      exact hchain
    · -- the field that changed belongs to a client with another identifier
      have hkeep : ∀ z, t.id z = t.id y →
          ((t.unlisted ci).setNextMulti x ((t.unlisted ci).nextMulti ci)).nextMulti z =
            t.nextMulti z := by
        intro z hz
        refine Function.update_of_ne ?_ _ _
        rintro rfl
        exact hne (h.eq_of_id hy hp (hz.symm.trans hxid))
      rw [Function.update_of_ne hne, hkeep y rfl]
      exact (h.chain y hy).congr fun z hz => hkeep z (h.sec y hy z hz).2.2
  · intro y hy
    rcases eq_or_ne y p with rfl | hne
    · rw [Function.update_self]
      exact (h.nodup y hy).erase ci
    · rw [Function.update_of_ne hne]
      exact h.nodup y hy
  · intro y hy z hz
    obtain ⟨hz, hzci⟩ := hsub y hy z hz
    obtain ⟨hzlive, hzout, hzid⟩ := h.sec y hy z hz
    exact ⟨h.mem_unlisted.mpr ⟨hzci, hzlive⟩, hzout, hzid⟩
  · intro y hy hout
    exact h.idle y (h.mem_unlisted.mp hy).2 hout
  · intro y hy hout hno
    obtain ⟨hyci, hylive⟩ := h.mem_unlisted.mp hy
    have hno' : ∀ z ∈ tr.toList, y ∉ secs z := by
      intro z hz hyz
      refine hno z hz ?_
      rcases eq_or_ne z p with rfl | hne
      · rw [Function.update_self]
        exact (h.nodup z hz).mem_erase_iff.mpr ⟨hyci, hyz⟩
      · rw [Function.update_of_ne hne]
        exact hyz
    have hyx : y ≠ x := by
      rintro rfl
      rcases List.mem_cons.mp hx with rfl | hx
      · exact hout hp
      · exact hno' p hp hx
    exact (Function.update_of_ne hyx _ _).trans (h.lone y hylive hout hno')

/-- Deleting a client that is in no tree and no chain. -/
theorem unlisted (h : Shape t tr secs) (hci : ci ∉ tr.toList)
    (hsec : ∀ q ∈ tr.toList, ci ∉ secs q) : Shape (t.unlisted ci) tr secs := by
  refine ⟨h.rep, h.sorted, h.list.erase ci, ?_, h.chain, h.nodup, ?_, ?_, ?_⟩
  · intro p hp
    refine h.mem_unlisted.mpr ⟨?_, h.live p hp⟩
    rintro rfl
    exact hci hp
  · intro p hp q hq
    obtain ⟨hlive, hout, hid⟩ := h.sec p hp q hq
    refine ⟨h.mem_unlisted.mpr ⟨?_, hlive⟩, hout, hid⟩
    rintro rfl
    exact hsec p hp hq
  · intro p hp hout
    exact h.idle p (h.mem_unlisted.mp hp).2 hout
  · intro p hp hout hno
    exact h.lone p (h.mem_unlisted.mp hp).2 hout hno

end Shape

theorem Labelled.congr
    {t : ClientTree} {tr : PointerTree.Tree Ptr} {secs secs' : Ptr → List Ptr} {ps : List Ptr}
    (hlab : Labelled t tr secs ps) (hsecs : ∀ p ∈ tr.toList, secs' p = secs p) :
    Labelled t tr secs' ps := by
  intro p hp
  obtain ⟨hconn, hsec⟩ := hlab p hp
  rw [hconn, hsec]
  exact ⟨Iff.rfl, exists_congr fun q => and_congr_right fun hq => by rw [hsecs q hq]⟩

/-- **Invariant.**  The tree and the chains are in shape, and the states of the
clients tell where they are. -/
def ClientInv (t : ClientTree) : Prop :=
  ∃ tr secs, Shape t tr secs ∧ Labelled t tr secs t.list

theorem clientListDelete_eq
    {t : ClientTree} {tr : PointerTree.Tree Ptr} {secs : Ptr → List Ptr}
    (h : Shape t tr secs) (ci : Ptr) :
    clientListDelete t ci =
      match tr.find t.key (t.key ci) with
      | none => some (t.unlisted ci)
      | some s =>
          if s = ci then
            match t.nextMulti ci with
            | some q => some (clientTreeReplaceMulti (t.unlisted ci) ci q)
            | none => clientTreeRemove (t.unlisted ci) ci t.list.length
          else unlinkMulti (t.unlisted ci) ci t.list.length s := by
  have hsearch : clientTreeSearch (t.unlisted ci) (t.id ci) t.list.length =
      some (tr.find t.key (t.key ci)) :=
    clientTreeSearchFrom_eq (t := t.unlisted ci) h.rep h.length_tree
  simp only [ClientTree.unlisted] at hsearch
  simp only [clientListDelete, hsearch, Option.bind_eq_bind, Option.bind_some]
  cases tr.find t.key (t.key ci) with
  | none => rfl
  | some s => rfl

section Labels

variable {t t' : ClientTree} {tr tr' : PointerTree.Tree Ptr} {secs : Ptr → List Ptr}
  {ci p q : Ptr} {qs : List Ptr}

/-- One chain changes, and not for the client `p`. -/
theorem exists_mem_update
    (hsame : q ∈ tr.toList → (p ∈ qs ↔ p ∈ secs q)) :
    (∃ y ∈ tr.toList, p ∈ Function.update secs q qs y) ↔ ∃ y ∈ tr.toList, p ∈ secs y := by
  refine exists_congr fun y => and_congr_right fun hy => ?_
  rcases eq_or_ne y q with rfl | hyq
  · rw [Function.update_self]
    exact hsame hy
  · rw [Function.update_of_ne hyq]

/-- A client without further logins leaves the tree. -/
theorem Labelled.remove
    (h : Shape t tr secs) (hlab : Labelled t tr secs (t.list.erase ci))
    (hmem : ∀ p, p ∈ tr'.toList ↔ p ∈ tr.toList ∧ p ≠ ci) (hsecs : secs ci = [])
    (hstate : t'.state = t.state) :
    Labelled t' tr' secs (t.list.erase ci) := by
  intro p hp
  obtain ⟨hconn, hsec⟩ := hlab p hp
  have hne : p ≠ ci := (h.mem_unlisted.mp hp).1
  rw [hstate, hconn, hsec, hmem]
  refine ⟨by tauto, ?_⟩
  constructor
  · rintro ⟨q, hq, hpq⟩
    refine ⟨q, (hmem q).mpr ⟨hq, ?_⟩, hpq⟩
    rintro rfl
    simp [hsecs] at hpq
  · rintro ⟨q, hq, hpq⟩
    exact ⟨q, ((hmem q).mp hq).1, hpq⟩

/-- The first further login `q` takes the place of the client. -/
theorem Labelled.replaceMulti
    (h : Shape t tr secs) (hlab : Labelled t tr secs (t.list.erase ci)) (hci : ci ∈ tr.toList)
    (hqs : secs ci = q :: qs) (hmem : ∀ p, p ∈ tr'.toList ↔ p = q ∨ p ∈ tr.toList ∧ p ≠ ci)
    (hstate : t'.state = Function.update t.state q .connected) :
    Labelled t' tr' (Function.update secs q qs) (t.list.erase ci) := by
  obtain ⟨-, hqout, -⟩ := h.sec ci hci q (by simp [hqs])
  have hqnd := h.nodup ci hci
  rw [hqs] at hqnd
  have hqqs := (List.nodup_cons.mp hqnd).1
  intro p hp
  obtain ⟨hconn, hsec⟩ := hlab p hp
  have hne : p ≠ ci := (h.mem_unlisted.mp hp).1
  rcases eq_or_ne p q with rfl | hpq
  · rw [hstate, Function.update_self, hmem]
    refine ⟨by simp, ?_⟩
    simp only [reduceCtorEq, false_iff]
    rintro ⟨y, hy, hpy⟩
    rcases eq_or_ne y p with rfl | hyp
    · rw [Function.update_self] at hpy
      exact hqqs hpy
    · rw [Function.update_of_ne hyp] at hpy
      rcases (hmem y).mp hy with rfl | ⟨hy, hyci⟩
      · exact hyp rfl
      · exact hyci (h.sec_unique hy hci hpy (by simp [hqs]))
  · rw [hstate, Function.update_of_ne hpq, hconn, hsec, hmem]
    refine ⟨by tauto, ?_⟩
    constructor
    · rintro ⟨y, hy, hpy⟩
      rcases eq_or_ne y ci with rfl | hyci
      · rw [hqs] at hpy
        refine ⟨q, (hmem q).mpr (.inl rfl), ?_⟩
        rw [Function.update_self]
        exact (List.mem_cons.mp hpy).resolve_left hpq
      · refine ⟨y, (hmem y).mpr (.inr ⟨hy, hyci⟩), ?_⟩
        rw [Function.update_of_ne]
        · exact hpy
        · rintro rfl
          exact hqout hy
    · rintro ⟨y, hy, hpy⟩
      rcases (hmem y).mp hy with rfl | ⟨hy, hyci⟩
      · rw [Function.update_self] at hpy
        exact ⟨ci, hci, by simp [hqs, hpy]⟩
      · rw [Function.update_of_ne] at hpy
        · exact ⟨y, hy, hpy⟩
        · rintro rfl
          exact hqout hy

/-- A further login leaves the chain of the client `p`. -/
theorem Labelled.unlink
    (h : Shape t tr secs) (hlab : Labelled t tr secs (t.list.erase ci))
    (hstate : t'.state = t.state) :
    Labelled t' tr (Function.update secs p ((secs p).erase ci)) (t.list.erase ci) := by
  intro x hx
  obtain ⟨hconn, hsec⟩ := hlab x hx
  have hne : x ≠ ci := (h.mem_unlisted.mp hx).1
  rw [hstate, hconn, hsec]
  refine ⟨Iff.rfl, (exists_mem_update fun hp => ?_).symm⟩
  rw [(h.nodup p hp).mem_erase_iff]
  exact and_iff_right hne

end Labels

section Operations

variable {t t' : ClientTree} {tr tr' : PointerTree.Tree Ptr} {secs secs' : Ptr → List Ptr}
  {ci : Ptr} {kill : Bool}

/-- How `client_list_delete` changes the tree and the chains. -/
inductive Shape.Deleted (t : ClientTree) (ci : Ptr) (tr : PointerTree.Tree Ptr)
    (secs : Ptr → List Ptr) (t' : ClientTree) :
    PointerTree.Tree Ptr → (Ptr → List Ptr) → Prop
  | removed (tr' : PointerTree.Tree Ptr) :
      ci ∈ tr.toList → secs ci = [] → (∀ p, p ∈ tr'.toList ↔ p ∈ tr.toList ∧ p ≠ ci) →
      t'.state = t.state → Shape.Deleted t ci tr secs t' tr' secs
  | replaced (q : Ptr) (qs : List Ptr) (tr' : PointerTree.Tree Ptr) :
      ci ∈ tr.toList → secs ci = q :: qs →
      (∀ p, p ∈ tr'.toList ↔ p = q ∨ p ∈ tr.toList ∧ p ≠ ci) →
      t'.state = Function.update t.state q (t.state ci) →
      Shape.Deleted t ci tr secs t' tr' (Function.update secs q qs)
  | unlinked (p : Ptr) :
      p ∈ tr.toList → ci ∈ secs p → t'.state = t.state →
      Shape.Deleted t ci tr secs t' tr (Function.update secs p ((secs p).erase ci))
  | outside :
      ci ∉ tr.toList → (∀ p ∈ tr.toList, ci ∉ secs p) → t'.state = t.state →
      Shape.Deleted t ci tr secs t' tr secs

/-- **`client_list_delete`.**  The deleted client may be anywhere. -/
theorem clientListDelete_spec
    (h : Shape t tr secs)
    (hone : t.nextMulti ci ≠ none ∨ (t.store.cell ci).left = none ∨
      (t.store.cell ci).right = none) :
    ∃ t' tr' secs', clientListDelete t ci = some t' ∧ t'.list = t.list.erase ci ∧
      t'.id = t.id ∧ Shape t' tr' secs' ∧ Shape.Deleted t ci tr secs t' tr' secs' := by
  rw [clientListDelete_eq h]
  by_cases hci : ci ∈ tr.toList
  · rw [h.sorted.find_eq_some_iff.mpr ⟨hci, rfl⟩]
    simp only [if_true]
    cases hnext : t.nextMulti ci with
    | none =>
        obtain ⟨st, tr', hremove, hmem, hsecs, hshape⟩ :=
          @Shape.remove _ _ _ _ t.list.length h hci hnext (by simpa [hnext] using hone)
        exact ⟨_, tr', secs, hremove, rfl, rfl, hshape, .removed tr' hci hsecs hmem rfl⟩
    | some q =>
        have hchain := h.chain ci hci
        rw [hnext] at hchain
        obtain ⟨qs, hqs⟩ : ∃ qs, secs ci = q :: qs := by
          cases hs : secs ci with
          | nil =>
              rw [hs] at hchain
              cases hchain
          | cons a as =>
              rw [hs] at hchain
              exact ⟨as, by rw [Option.some.inj hchain.1]⟩
        obtain ⟨tr', hmem, hshape⟩ := h.replaceMulti hci hqs
        exact ⟨_, tr', _, rfl, rfl, rfl, hshape, .replaced q qs tr' hci hqs hmem rfl⟩
  · by_cases hsec : ∃ p ∈ tr.toList, ci ∈ secs p
    · obtain ⟨p, hp, hmem⟩ := hsec
      obtain ⟨-, -, hid⟩ := h.sec p hp ci hmem
      have hpci : p ≠ ci := by
        rintro rfl
        exact hci hp
      have hfind : tr.find t.key (t.key ci) = some p :=
        h.sorted.find_eq_some_iff.mpr ⟨hp, congrArg Id.rank hid.symm⟩
      rw [hfind]
      simp only [if_neg hpci]
      obtain ⟨t', hun, hlist, hst, hids, hshape⟩ := h.unlink hp hmem (h.length_secs hp)
      exact ⟨t', tr, _, hun, hlist, hids, hshape, .unlinked p hp hmem hst⟩
    · have hsec' : ∀ p ∈ tr.toList, ci ∉ secs p := by
        intro p hp hmem
        exact hsec ⟨p, hp, hmem⟩
      refine ⟨t.unlisted ci, tr, secs, ?_, rfl, rfl, h.unlisted hci hsec',
        .outside hci hsec' rfl⟩
      cases hfind : tr.find t.key (t.key ci) with
      | none => rfl
      | some s =>
          obtain ⟨hs, -⟩ := h.sorted.find_eq_some_iff.mp hfind
          have hsci : s ≠ ci := by
            rintro rfl
            exact hci hs
          simp only [if_neg hsci]
          exact @unlinkMulti_of_not_mem (t.unlisted ci) ci s (secs s) _ (h.chain s hs)
            (hsec' s hs) (h.length_secs hs)

/-- The states of the other clients tell where they are. -/
theorem Shape.Deleted.labelled
    (hdel : Shape.Deleted t ci tr secs t' tr' secs') (h : Shape t tr secs)
    (hlab : Labelled t tr secs (t.list.erase ci))
    (hstate : ci ∈ tr.toList → t.state ci = .connected) :
    Labelled t' tr' secs' (t.list.erase ci) := by
  cases hdel with
  | removed _ hci hsecs hmem hst => exact hlab.remove h hmem hsecs hst
  | replaced q qs _ hci hqs hmem hst =>
      rw [hstate hci] at hst
      exact hlab.replaceMulti h hci hqs hmem hst
  | unlinked p hp hmem hst => exact hlab.unlink h hst
  | outside hci hsec hst =>
      intro p hp
      rw [hst]
      exact hlab p hp

/-- A client that is neither connected nor a further login is in no tree and no
chain. -/
theorem Labelled.outside
    (hlab : Labelled t tr secs t.list) (hlive : ci ∈ t.list)
    (hconn : t.state ci ≠ .connected) (hmulti : t.state ci ≠ .multiloginSecondary) :
    ci ∉ tr.toList ∧ ∀ q ∈ tr.toList, ci ∉ secs q := by
  obtain ⟨htree, hsec⟩ := hlab ci hlive
  refine ⟨fun hci => hconn (htree.mpr hci), ?_⟩
  intro q hq hci
  exact hmulti (hsec.mpr ⟨q, hq, hci⟩)

/-- What the end of `process_c2n_write` makes of a client that is in no tree and no
chain: a further login, the client of its identifier, or nothing. -/
inductive Shape.LoggedIn (t : ClientTree) (ci : Ptr) (kill : Bool) (tr : PointerTree.Tree Ptr)
    (secs : Ptr → List Ptr) (t' : ClientTree) :
    PointerTree.Tree Ptr → (Ptr → List Ptr) → Prop
  | attached (p : Ptr) :
      kill = false → p ∈ tr.toList → t.id p = t.id ci → t'.list = t.list →
      t'.state = Function.update t.state ci .multiloginSecondary →
      Shape.LoggedIn t ci kill tr secs t' tr (Function.update secs p (ci :: secs p))
  | added (tr' : PointerTree.Tree Ptr) :
      kill = false → (∀ p ∈ tr.toList, t.id p ≠ t.id ci) →
      (∀ p, p ∈ tr'.toList ↔ p = ci ∨ p ∈ tr.toList) → t'.list = t.list →
      t'.state = Function.update t.state ci .connected →
      Shape.LoggedIn t ci kill tr secs t' tr' (Function.update secs ci [])
  | killed (tr' : PointerTree.Tree Ptr) :
      kill = true → (∀ p, p ∈ tr'.toList ↔ p ∈ tr.toList) → t'.list = t.list.erase ci →
      (∀ p, p ≠ ci → t'.state p = t.state p) →
      Shape.LoggedIn t ci kill tr secs t' tr' secs

/-- **The end of `process_c2n_write`.** -/
theorem c2nLogin_spec
    (kill : Bool) (h : Shape t tr secs) (hlive : ci ∈ t.list)
    (hci : ci ∉ tr.toList) (hsec : ∀ q ∈ tr.toList, ci ∉ secs q) :
    ∃ t' tr' secs', c2nLogin t ci kill = some t' ∧ t'.id = t.id ∧ Shape t' tr' secs' ∧
      Shape.LoggedIn t ci kill tr secs t' tr' secs' := by
  have hidle := h.idle ci hlive hci
  have hother : ∀ p, p ≠ ci → Function.update t.state ci .connected p = t.state p :=
    fun p hp => Function.update_of_ne hp _ _
  by_cases hdup : kill = false ∧ ∃ p ∈ tr.toList, t.id p = t.id ci
  · obtain ⟨rfl, p, hp, hid⟩ := hdup
    have hsearch : clientTreeSearch t (t.id ci) t.list.length = some (some p) := by
      rw [h.search_eq _ h.length_tree, h.sorted.find_eq_some_iff.mpr ⟨hp, congrArg Id.rank hid⟩]
    refine ⟨clientAttachMultiSecondary (t.setState ci .multiloginSecondary) p ci, tr, _, ?_, rfl,
      (h.setState ci .multiloginSecondary).attachMulti hp hlive hci hsec hid.symm,
      .attached p rfl hp hid rfl rfl⟩
    simp [c2nLogin, hsearch]
  · have hnone : kill = false → clientTreeSearch t (t.id ci) t.list.length = some none := by
      intro hkill
      rw [h.search_eq _ h.length_tree, Option.some.injEq]
      cases hf : tr.find t.key (t.id ci).rank with
      | none => rfl
      | some p =>
          obtain ⟨hp, hkey⟩ := h.sorted.find_eq_some_iff.mp hf
          exact absurd ⟨hkill, p, hp, Id.rank_inj.mp hkey⟩ hdup
    have heq : c2nLogin t ci kill = (clientTreeAdd t ci t.list.length).bind fun r =>
        if r.2 = 0 ∨ kill then clientListDelete (r.1.setState ci .connected) ci
        else some (r.1.setState ci .connected) := by
      cases kill with
      | true => rfl
      | false => simp [c2nLogin, hnone]
    rw [heq]
    rcases h.add hlive hci hsec h.length_tree with ⟨hex, hadd⟩ |
      ⟨st, tr', hadd, hmem, hleft, -, hshape⟩
    · -- a certificate that will be rejected, with an identifier that is in the tree
      have hkill : kill = true := by
        cases kill with
        | true => rfl
        | false => exact absurd ⟨rfl, hex⟩ hdup
      simp only [hadd, Option.bind_some, true_or, if_true]
      have hempty : ((t.setState ci .connected).store.cell ci).left = none := by
        change (t.store.cell ci).left = none
        rw [hidle]
      obtain ⟨t', tr', secs', hrun, hlist, hids, hshape, hdel⟩ :=
        clientListDelete_spec (h.setState ci .connected) (.inr (.inl hempty))
      refine ⟨t', tr', secs', hrun, hids, hshape, ?_⟩
      cases hdel with
      | removed _ hin => exact absurd hin hci
      | replaced _ _ _ hin => exact absurd hin hci
      | unlinked p hp hin => exact absurd hin (hsec p hp)
      | outside _ _ hst =>
          refine .killed tr hkill (fun _ => Iff.rfl) hlist fun p hp => ?_
          rw [hst]
          exact hother p hp
    · simp only [hadd, Option.bind_some]
      cases kill with
      | true =>
          simp only [or_true, if_true]
          obtain ⟨t', tr'', secs', hrun, hlist, hids, hshape', hdel⟩ :=
            clientListDelete_spec (hshape.setState ci .connected) (.inr (.inl hleft))
          have hin : ci ∈ tr'.toList := (hmem ci).mpr (.inl rfl)
          have hout : ∀ p ∈ tr'.toList, ci ∉ Function.update secs ci [] p := by
            intro p hp
            rcases (hmem p).mp hp with rfl | hp
            · simp
            · rw [Function.update_of_ne]
              · exact hsec p hp
              · rintro rfl
                exact hci hp
          cases hdel with
          | removed _ _ _ hmem' hst =>
              have hback : ∀ p, p ∈ tr''.toList ↔ p ∈ tr.toList := by
                intro p
                rw [hmem', hmem]
                constructor
                · rintro ⟨rfl | hp, hne⟩
                  · exact absurd rfl hne
                  · exact hp
                · intro hp
                  refine ⟨.inr hp, ?_⟩
                  rintro rfl
                  exact hci hp
              refine ⟨t', tr'', secs, hrun, hids, hshape'.congr fun p hp => ?_,
                .killed tr'' rfl hback hlist fun p hp => ?_⟩
              · rw [Function.update_of_ne]
                exact ((hmem' p).mp hp).2
              · rw [hst]
                exact hother p hp
          | replaced q qs _ _ hqs =>
              rw [Function.update_self] at hqs
              cases hqs
          | unlinked p hp hmem' => exact absurd hmem' (hout p hp)
          | outside hno => exact absurd hin hno
      | false =>
          refine ⟨({ t with store := st } : ClientTree).setState ci .connected, tr', _, by simp,
            rfl, hshape.setState ci .connected, .added tr' rfl ?_ hmem rfl rfl⟩
          exact fun p hp hid => hdup ⟨rfl, p, hp, hid⟩

/-- The states of the clients that are left tell where they are. -/
theorem Shape.LoggedIn.labelled
    (hlogin : Shape.LoggedIn t ci kill tr secs t' tr' secs') (h : Shape t tr secs)
    (hlab : Labelled t tr secs t.list) (hci : ci ∉ tr.toList)
    (hsec : ∀ q ∈ tr.toList, ci ∉ secs q) :
    Labelled t' tr' secs' t'.list := by
  cases hlogin with
  | attached p hkill hp hid hlist hst =>
      rw [hlist]
      intro x hx
      rcases eq_or_ne x ci with rfl | hne
      · rw [hst, Function.update_self]
        refine ⟨by simpa using hci, ?_⟩
        simp only [true_iff]
        exact ⟨p, hp, by simp⟩
      · obtain ⟨hconn, hmulti⟩ := hlab x hx
        rw [hst, Function.update_of_ne hne, hconn, hmulti]
        refine ⟨Iff.rfl, (exists_mem_update fun _ => ?_).symm⟩
        rw [List.mem_cons, or_iff_right hne]
  | added _ hkill hno hmem hlist hst =>
      rw [hlist]
      have hold : ∀ q ∈ tr.toList, Function.update secs ci [] q = secs q := by
        intro q hq
        refine Function.update_of_ne ?_ _ _
        rintro rfl
        exact hci hq
      -- whoever is in a chain now has been in it before
      have hin : ∀ x, (∃ q ∈ tr'.toList, x ∈ Function.update secs ci [] q) ↔
          ∃ q ∈ tr.toList, x ∈ secs q := by
        intro x
        constructor
        · rintro ⟨q, hq, hxq⟩
          rcases (hmem q).mp hq with rfl | hq
          · simp at hxq
          · exact ⟨q, hq, hold q hq ▸ hxq⟩
        · rintro ⟨q, hq, hxq⟩
          exact ⟨q, (hmem q).mpr (.inr hq), (hold q hq).symm ▸ hxq⟩
      intro x hx
      rw [hst, hin, hmem]
      rcases eq_or_ne x ci with rfl | hne
      · rw [Function.update_self]
        refine ⟨by simp, ?_⟩
        simp only [reduceCtorEq, false_iff, not_exists, not_and]
        exact hsec
      · obtain ⟨hconn, hmulti⟩ := hlab x hx
        rw [Function.update_of_ne hne, hconn, hmulti, or_iff_right hne]
        exact ⟨Iff.rfl, Iff.rfl⟩
  | killed _ hkill hmem hlist hst =>
      rw [hlist]
      intro x hx
      obtain ⟨hne, hxlive⟩ := h.mem_unlisted.mp hx
      obtain ⟨hconn, hmulti⟩ := hlab x hxlive
      rw [hst x hne, hconn, hmulti, hmem]
      exact ⟨Iff.rfl, exists_congr fun q => and_congr_left fun _ => (hmem q).symm⟩

/-- **`client_list_addnew`.** -/
theorem Shape.addnew (h : Shape t tr secs) (hfresh : ci ∉ t.list) :
    Shape (clientListAddnew t ci) tr secs := by
  have hne : ∀ p ∈ t.list, p ≠ ci := by
    rintro p hp rfl
    exact hfresh hp
  have htree : ∀ p ∈ tr.toList, p ≠ ci := fun p hp => hne p (h.live p hp)
  have hsecs : ∀ p ∈ tr.toList, ∀ q ∈ secs p, q ≠ ci :=
    fun p hp q hq => hne q (h.sec p hp q hq).1
  have hid : ∀ p, p ≠ ci → (clientListAddnew t ci).id p = t.id p :=
    fun p hp => Function.update_of_ne hp _ _
  have hnext : ∀ p, p ≠ ci → (clientListAddnew t ci).nextMulti p = t.nextMulti p :=
    fun p hp => Function.update_of_ne hp _ _
  have hmem : ∀ p, p ∈ (clientListAddnew t ci).list ↔ p ∈ t.list ∨ p = ci := by
    intro p
    simp [clientListAddnew]
  refine ⟨?_, ?_, ?_, ?_, ?_, h.nodup, ?_, ?_, ?_⟩
  · refine h.rep.congr rfl ?_ ?_
    · intro d p hp
      exact Store.get_setCell_of_ne _ _ fun e => htree p hp (Option.some.inj e)
    · intro p hp
      exact congrArg Cell.up (Store.cell_setCell_of_ne _ _ (htree p hp))
  · refine h.sorted.imp_of_mem ?_
    intro a b ha hb hab
    simpa only [ClientTree.key, hid a (htree a ha), hid b (htree b hb)] using hab
  · exact List.nodup_append.mpr ⟨h.list, List.nodup_singleton ci,
      fun a ha b hb => by rw [List.mem_singleton.mp hb]; exact hne a ha⟩
  · intro p hp
    exact (hmem p).mpr (.inl (h.live p hp))
  · intro p hp
    rw [hnext p (htree p hp)]
    exact (h.chain p hp).congr fun q hq => hnext q (hsecs p hp q hq)
  · intro p hp q hq
    obtain ⟨hlive, hout, heq⟩ := h.sec p hp q hq
    refine ⟨(hmem q).mpr (.inl hlive), hout, ?_⟩
    rw [hid p (htree p hp), hid q (hsecs p hp q hq), heq]
  · intro p hp hout
    rcases (hmem p).mp hp with hp | rfl
    · exact (Store.cell_setCell_of_ne _ _ (hne p hp)).trans (h.idle p hp hout)
    · exact Store.cell_setCell_self _ _ _
  · intro p hp hout hno
    rcases (hmem p).mp hp with hp | rfl
    · rw [hnext p (hne p hp)]
      exact h.lone p hp hout hno
    · exact Function.update_self _ _ _

theorem Labelled.addnew
    (hlab : Labelled t tr secs t.list) (h : Shape t tr secs) (hfresh : ci ∉ t.list) :
    Labelled (clientListAddnew t ci) tr secs (clientListAddnew t ci).list := by
  intro p hp
  rcases List.mem_append.mp hp with hold | hnew
  · have hne : p ≠ ci := by
      rintro rfl
      exact hfresh hold
    have hstate : (clientListAddnew t ci).state p = t.state p := Function.update_of_ne hne _ _
    rw [hstate]
    exact hlab p hold
  · obtain rfl := List.mem_singleton.mp hnew
    have hstate : (clientListAddnew t p).state p = .waitAnonTlsShutdown :=
      Function.update_self _ _ _
    rw [hstate]
    simp only [reduceCtorEq, false_iff, not_exists, not_and]
    exact ⟨fun hin => hfresh (h.live p hin), fun q hq hin => hfresh (h.sec q hq p hin).1⟩

/-- A client that starts to negotiate stays outside the tree. -/
theorem Labelled.negotiate
    (hlab : Labelled t tr secs t.list) (hlive : ci ∈ t.list)
    (hstate : t.state ci = .waitAnonTlsShutdown) :
    Labelled (t.setState ci .tlsNegotiation) tr secs t.list := by
  obtain ⟨hci, hsec⟩ := hlab.outside hlive (by simp [hstate]) (by simp [hstate])
  intro p hp
  rcases eq_or_ne p ci with rfl | hne
  · have hself : (t.setState p .tlsNegotiation).state p = .tlsNegotiation :=
      Function.update_self _ _ _
    rw [hself]
    simp only [reduceCtorEq, false_iff, not_exists, not_and]
    exact ⟨hci, hsec⟩
  · have hkeep : (t.setState ci .tlsNegotiation).state p = t.state p :=
      Function.update_of_ne hne _ _
    rw [hkeep]
    exact hlab p hp

/-- **Step lemma.**  Every event that can happen and removes no client with two
children ends, and keeps the invariant. -/
theorem clientStep_inv
    {e : ClientEvent} (hinv : ClientInv t) (hen : e.Enabled t)
    (hone : e.RemovesOneChild t) :
    ∃ t', clientStep t e = some t' ∧ ClientInv t' := by
  obtain ⟨tr, secs, h, hlab⟩ := hinv
  cases e with
  | addnew ci => exact ⟨_, rfl, tr, secs, h.addnew hen, hlab.addnew h hen⟩
  | negotiate ci =>
      exact ⟨_, rfl, tr, secs, h.setState ci .tlsNegotiation, hlab.negotiate hen.1 hen.2⟩
  | connected ci cert =>
      obtain ⟨hci, hsec⟩ := hlab.outside hen.1 (by simp [hen.2]) (by simp [hen.2])
      have hset := h.setId (cert.getD (t.id ci)) hci hsec
      obtain ⟨t', tr', secs', hrun, -, hshape, hlogin⟩ := c2nLogin_spec _ hset hen.1 hci hsec
      exact ⟨t', hrun, tr', secs', hshape, hlogin.labelled hset hlab hci hsec⟩
  | delete ci =>
      obtain ⟨t', tr', secs', hrun, hlist, -, hshape, hdel⟩ := clientListDelete_spec h hone
      refine ⟨t', hrun, tr', secs', hshape, ?_⟩
      rw [hlist]
      exact hdel.labelled h (fun p hp => hlab p (h.mem_unlisted.mp hp).2)
        fun hci => (hlab ci (h.live ci hci)).1.mpr hci

end Operations

theorem shape_empty {secs : Ptr → List Ptr} : Shape .empty .leaf secs := by
  refine ⟨rfl, List.Pairwise.nil, List.nodup_nil, ?_, ?_, ?_, ?_, ?_, ?_⟩ <;>
    simp [Tree.toList, ClientTree.empty]

theorem labelled_empty {secs : Ptr → List Ptr} :
    Labelled .empty .leaf secs ClientTree.empty.list := by
  intro p hp
  cases hp

theorem clientInv_empty : ClientInv .empty :=
  ⟨.leaf, fun _ => [], shape_empty, labelled_empty⟩

/-- **The client tree is a finite map.**  In every run of possible events that
removes no client with two children, every operation ends, and in the state
reached the tree is a search tree with right `up` fields that holds exactly the
connected clients; `client_tree_search` returns the connected client with the
given identifier if there is one and `NULL` otherwise. -/
theorem clientTree_is_map
    {es : List ClientEvent}
    (hok : Meets clientStep (fun t e => e.Enabled t ∧ e.RemovesOneChild t) .empty es) :
    ∃ t, run clientStep .empty es = some t ∧
      ∃ tr : PointerTree.Tree Ptr, Rep t.store .root tr ∧
        tr.toList.Pairwise (fun p q => memcmp (t.id p).1 (t.id q).1 = .lt) ∧
        (∀ p, p ∈ tr.toList ↔ p ∈ t.list ∧ t.state p = .connected) ∧
        ∀ id, ∃ r, clientTreeSearch t id t.list.length = some r ∧
          ∀ p, r = some p ↔ p ∈ t.list ∧ t.state p = .connected ∧ t.id p = id := by
  obtain ⟨t, hrun, tr, secs, h, hlab⟩ :=
    @run_progress _ _ clientStep (fun t e => e.Enabled t ∧ e.RemovesOneChild t) ClientInv
      (fun _ _ hinv hok => clientStep_inv hinv hok.1 hok.2) _ _ clientInv_empty hok
  have hmem : ∀ p, p ∈ tr.toList ↔ p ∈ t.list ∧ t.state p = .connected := by
    intro p
    constructor
    · intro hp
      exact ⟨h.live p hp, (hlab p (h.live p hp)).1.mpr hp⟩
    · rintro ⟨hp, hstate⟩
      exact (hlab p hp).1.mp hstate
  refine ⟨t, hrun, tr, h.rep, ?_, hmem, ?_⟩
  · refine h.sorted.imp ?_
    intro p q hpq
    exact memcmp_lt_iff.mpr hpq
  · intro id
    refine ⟨_, h.search_eq id h.length_tree, ?_⟩
    intro p
    rw [h.sorted.find_eq_some_iff, hmem, ClientTree.key, Id.rank_inj]
    tauto

/-- Three clients log in, the first of them as the root of the tree. -/
def sampleLogins : List ClientEvent :=
  [.addnew 1, .negotiate 1, .connected 1 (some (.ofByte 2)),
   .addnew 2, .negotiate 2, .connected 2 (some (.ofByte 1)),
   .addnew 3, .negotiate 3, .connected 3 (some (.ofByte 3))]

/-- A second login of the first client takes its place, and a leaf leaves. -/
theorem clientTree_is_map_sample :
    ∃ t, run clientStep .empty (sampleLogins ++
        [.addnew 4, .negotiate 4, .connected 4 (some (.ofByte 2)), .delete 1, .delete 3]) =
        some t ∧
      ∃ tr : PointerTree.Tree Ptr, Rep t.store .root tr ∧
        ∀ p, p ∈ tr.toList ↔ p ∈ t.list ∧ t.state p = .connected := by
  obtain ⟨t, hrun, tr, hrep, -, hmem, -⟩ := @clientTree_is_map (sampleLogins ++
    [.addnew 4, .negotiate 4, .connected 4 (some (.ofByte 2)), .delete 1, .delete 3])
    (by decide +kernel)
  exact ⟨t, hrun, tr, hrep, hmem⟩

/-- The root, which has two children, is removed; its left child still has it in
`up`, so that the left child, when removed in turn, stays in the tree. -/
theorem clientTree_twoChildren_search_deleted :
    Meets clientStep (fun t e => e.Enabled t) .empty (sampleLogins ++ [.delete 1, .delete 2]) ∧
      ∃ t, run clientStep .empty (sampleLogins ++ [.delete 1, .delete 2]) = some t ∧
        2 ∉ t.list ∧ clientTreeSearch t (.ofByte 1) 3 = some (some 2) := by
  refine ⟨by decide +kernel, ?_⟩
  have hany : ((run clientStep .empty (sampleLogins ++ [.delete 1, .delete 2])).any fun t =>
      2 ∉ t.list ∧ clientTreeSearch t (.ofByte 1) 3 = some (some 2)) = true := by
    decide +kernel
  obtain ⟨t, ht, hbad⟩ := (Option.any_eq_true _ _).mp hany
  exact ⟨t, ht, of_decide_eq_true hbad⟩

end PicaPica
