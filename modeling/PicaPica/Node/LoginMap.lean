import PicaPica.Lib.Chain
import PicaPica.Node.Logins
import PicaPica.Node.Invariant

/-!
# Logins are a map from identifiers to chains

`LoginMap` relates the tree, the field `next_multi` and the states and identifiers of the
clients: the entry of an identifier is its connected client, and the chain behind it has
every further login once and nothing else.  There is one lemma for each change, in terms
of functions from addresses, and one lemma for each operation of the source.
-/

namespace PicaPica

open Table Machine PointerTree

/-- The tree has the connected clients, the chain behind each of them the further logins
`secs` with its identifier; `who` tells the state and the identifier of the client at an
address. -/
structure LoginMap (tree : Id → Option Ptr) (next : Ptr → Option Ptr)
    (who : Ptr → Option (ClState × Id)) (secs : Id → List Ptr) : Prop where
  entry : ∀ id p, tree id = some p ↔ who p = some (.connected, id)
  early : ∀ p st id, who p = some (st, id) → st.early → id = .ofByte 0 ∧ next p = none
  chain : ∀ id p, tree id = some p → Chain next (next p) (secs id)
  nodup : ∀ id, (secs id).Nodup
  mem : ∀ id q, q ∈ secs id ↔ who q = some (.multiloginSecondary, id)
  rooted : ∀ id, tree id = none → secs id = []

namespace LoginMap

variable {tree : Id → Option Ptr} {next : Ptr → Option Ptr}
  {who : Ptr → Option (ClState × Id)} {secs : Id → List Ptr} {ci p : Ptr} {id : Id}

theorem not_mem_of_connected (h : LoginMap tree next who secs) (hp : tree id = some p)
    (id' : Id) : p ∉ secs id' := by
  intro hmem
  have := ((h.entry id p).mp hp).symm.trans ((h.mem id' p).mp hmem)
  simp at this

theorem nodup_cons (h : LoginMap tree next who secs) (hp : tree id = some p) :
    (p :: secs id).Nodup :=
  List.nodup_cons.mpr ⟨h.not_mem_of_connected hp id, h.nodup id⟩

theorem early_not {st : ClState} {id₀ : Id} (hci : who ci = some (st, id₀)) (hst : st.early) :
    who ci ≠ some (.connected, id) ∧ who ci ≠ some (.multiloginSecondary, id) := by
  rw [hci]
  constructor
  · rintro ⟨⟩
    cases hst
  · rintro ⟨⟩
    cases hst

/-- A client that is no login yet is neither in the tree nor in a chain. -/
theorem outside (h : LoginMap tree next who secs)
    (hci : ∀ id, who ci ≠ some (.connected, id) ∧ who ci ≠ some (.multiloginSecondary, id)) :
    (∀ id, tree id ≠ some ci) ∧ ∀ id, ci ∉ secs id :=
  ⟨fun id htree => (hci id).1 ((h.entry id ci).mp htree),
    fun id hmem => (hci id).2 ((h.mem id ci).mp hmem)⟩

/-- A client whose identifier has no entry is no login. -/
theorem outside_of_none (h : LoginMap tree next who secs) {st : ClState}
    (hci : who ci = some (st, id)) (hno : tree id = none) (id' : Id) :
    who ci ≠ some (.connected, id') ∧ who ci ≠ some (.multiloginSecondary, id') := by
  constructor
  · intro hconn
    cases hci.symm.trans hconn
    rw [(h.entry id ci).mpr hconn] at hno
    cases hno
  · intro hmulti
    cases hci.symm.trans hmulti
    have hmem := (h.mem id ci).mpr hmulti
    rw [h.rooted id hno] at hmem
    cases hmem

/-- A client outside the tree and the chains changes. -/
theorem update_outside (h : LoginMap tree next who secs) {v : Option (ClState × Id)}
    {w : Option Ptr}
    (hci : ∀ id, who ci ≠ some (.connected, id) ∧ who ci ≠ some (.multiloginSecondary, id))
    (hv : ∀ st id, v = some (st, id) → st.early ∧ id = .ofByte 0 ∧ w = none) :
    LoginMap tree (Function.update next ci w) (Function.update who ci v) secs := by
  obtain ⟨htree, hsecs⟩ := h.outside hci
  have hnot : ∀ st id, st.early = false → v ≠ some (st, id) := by
    intro st id hst hsome
    rw [(hv st id hsome).1] at hst
    cases hst
  refine ⟨?_, ?_, ?_, h.nodup, ?_, h.rooted⟩
  · intro id p
    rcases eq_or_ne p ci with rfl | hp
    · rw [Function.update_self]
      exact ⟨fun hp => absurd hp (htree id), fun hp => absurd hp (hnot _ id rfl)⟩
    · rw [Function.update_of_ne hp]
      exact h.entry id p
  · intro p st id hp hst
    rcases eq_or_ne p ci with rfl | hne
    · rw [Function.update_self] at hp ⊢
      exact (hv st id hp).2
    · rw [Function.update_of_ne hne] at hp ⊢
      exact h.early p st id hp hst
  · intro id p hp
    have hne : p ≠ ci := by
      rintro rfl
      exact htree id hp
    rw [Function.update_of_ne hne]
    refine (h.chain id p hp).congr fun q hq => Function.update_of_ne ?_ _ _
    rintro rfl
    exact hsecs id hq
  · intro id q
    rcases eq_or_ne q ci with rfl | hq
    · rw [Function.update_self]
      exact ⟨fun hq => absurd hq (hsecs id), fun hq => absurd hq (hnot _ id rfl)⟩
    · rw [Function.update_of_ne hq]
      exact h.mem id q

/-- The first login with an identifier. -/
theorem login (h : LoginMap tree next who secs) {st : ClState} {id₀ : Id}
    (hci : who ci = some (st, id₀)) (hst : st.early) (hno : tree id = none) :
    LoginMap (Function.update tree id (some ci)) next
      (Function.update who ci (some (.connected, id))) secs := by
  obtain ⟨htree, hsecs⟩ := h.outside fun id => early_not hci hst
  refine ⟨?_, ?_, ?_, h.nodup, ?_, ?_⟩
  · intro id' p
    rcases eq_or_ne id' id with rfl | hne
    · rw [Function.update_self]
      rcases eq_or_ne p ci with rfl | hp
      · rw [Function.update_self]
        simp
      · rw [Function.update_of_ne hp, ← h.entry, hno]
        simpa using Ne.symm hp
    · rw [Function.update_of_ne hne]
      rcases eq_or_ne p ci with rfl | hp
      · rw [Function.update_self]
        simpa [Ne.symm hne] using htree id'
      · rw [Function.update_of_ne hp]
        exact h.entry id' p
  · intro p st' id' hp hst'
    rcases eq_or_ne p ci with rfl | hne
    · rw [Function.update_self] at hp
      cases hp
      cases hst'
    · rw [Function.update_of_ne hne] at hp
      exact h.early p st' id' hp hst'
  · intro id' p hp
    rcases eq_or_ne id' id with rfl | hne
    · rw [Function.update_self] at hp
      cases hp
      rw [h.rooted id' hno]
      exact (h.early ci st id₀ hci hst).2
    · rw [Function.update_of_ne hne] at hp
      exact h.chain id' p hp
  · intro id' q
    rcases eq_or_ne q ci with rfl | hq
    · rw [Function.update_self]
      simpa using hsecs id'
    · rw [Function.update_of_ne hq]
      exact h.mem id' q
  · intro id' hnone
    rcases eq_or_ne id' id with rfl | hne
    · exact h.rooted id' hno
    · rw [Function.update_of_ne hne] at hnone
      exact h.rooted id' hnone

/-- A further login with an identifier. -/
theorem attach (h : LoginMap tree next who secs) {st : ClState} {id₀ : Id}
    (hci : who ci = some (st, id₀)) (hst : st.early) (hp : tree id = some p) :
    LoginMap tree (Function.update (Function.update next ci (next p)) p (some ci))
      (Function.update who ci (some (.multiloginSecondary, id)))
      (Function.update secs id (ci :: secs id)) := by
  obtain ⟨htree, hsecs⟩ := h.outside fun id => early_not hci hst
  have hpci : p ≠ ci := by
    rintro rfl
    exact htree id hp
  refine ⟨?_, ?_, ?_, ?_, ?_, ?_⟩
  · intro id' q
    rcases eq_or_ne q ci with rfl | hq
    · rw [Function.update_self]
      simpa using htree id'
    · rw [Function.update_of_ne hq]
      exact h.entry id' q
  · intro q st' id' hq hst'
    rcases eq_or_ne q ci with rfl | hne
    · rw [Function.update_self] at hq
      cases hq
      cases hst'
    · rw [Function.update_of_ne hne] at hq
      have hqp : q ≠ p := by
        rintro rfl
        rw [(h.entry id q).mp hp] at hq
        cases hq
        cases hst'
      rw [Function.update_of_ne hqp, Function.update_of_ne hne]
      exact h.early q st' id' hq hst'
  · intro id' q hq
    rcases eq_or_ne id' id with rfl | hne
    · obtain rfl : q = p := Option.some.inj (hq.symm.trans hp)
      have hsec : Function.update secs id' (ci :: secs id') id' = ci :: secs id' :=
        Function.update_self _ _ _
      rw [hsec]
      refine (h.chain id' q hq).insert (h.not_mem_of_connected hq id') ?_
      simp [Ne.symm hpci, hsecs id']
    · have hqp : q ≠ p := by
        rintro rfl
        have := ((h.entry id' q).mp hq).symm.trans ((h.entry id q).mp hp)
        simp only [Option.some.injEq, Prod.mk.injEq, true_and] at this
        exact hne this
      have hqci : q ≠ ci := by
        rintro rfl
        exact htree id' hq
      rw [Function.update_of_ne hne, Function.update_of_ne hqp, Function.update_of_ne hqci]
      refine (h.chain id' q hq).congr fun x hx => ?_
      rw [Function.update_of_ne, Function.update_of_ne]
      · rintro rfl
        exact hsecs id' hx
      · rintro rfl
        exact h.not_mem_of_connected hp id' hx
  · intro id'
    rcases eq_or_ne id' id with rfl | hne
    · rw [Function.update_self]
      exact List.nodup_cons.mpr ⟨hsecs id', h.nodup id'⟩
    · rw [Function.update_of_ne hne]
      exact h.nodup id'
  · intro id' q
    rcases eq_or_ne q ci with rfl | hq
    · rw [Function.update_self]
      rcases eq_or_ne id' id with rfl | hne
      · simp
      · rw [Function.update_of_ne hne]
        simpa [Ne.symm hne] using hsecs id'
    · rw [Function.update_of_ne hq, ← h.mem]
      rcases eq_or_ne id' id with rfl | hne
      · simp [hq]
      · rw [Function.update_of_ne hne]
  · intro id' hnone
    have hne : id' ≠ id := by
      rintro rfl
      rw [hp] at hnone
      cases hnone
    rw [Function.update_of_ne hne]
    exact h.rooted id' hnone

/-- The only login with an identifier leaves. -/
theorem remove (h : LoginMap tree next who secs) (hci : tree id = some ci)
    (hlast : next ci = none) :
    LoginMap (Function.update tree id none) next (Function.update who ci none) secs := by
  have hnone : secs id = [] := by
    have hchain := h.chain id ci hci
    cases hs : secs id with
    | nil => rfl
    | cons q qs =>
        rw [hs, hlast] at hchain
        cases hchain.1
  refine ⟨?_, ?_, ?_, h.nodup, ?_, ?_⟩
  · intro id' p
    rcases eq_or_ne p ci with rfl | hp
    · rw [Function.update_self]
      rcases eq_or_ne id' id with rfl | hne
      · simp
      · rw [Function.update_of_ne hne, h.entry, (h.entry id p).mp hci]
        simpa using Ne.symm hne
    · rw [Function.update_of_ne hp, ← h.entry]
      rcases eq_or_ne id' id with rfl | hne
      · rw [Function.update_self, hci]
        simpa using Ne.symm hp
      · rw [Function.update_of_ne hne]
  · intro p st id' hp hst
    rcases eq_or_ne p ci with rfl | hne
    · rw [Function.update_self] at hp
      cases hp
    · rw [Function.update_of_ne hne] at hp
      exact h.early p st id' hp hst
  · intro id' p hp
    have hne : id' ≠ id := by
      rintro rfl
      rw [Function.update_self] at hp
      cases hp
    rw [Function.update_of_ne hne] at hp
    exact h.chain id' p hp
  · intro id' q
    rcases eq_or_ne q ci with rfl | hq
    · rw [Function.update_self]
      simpa using h.not_mem_of_connected hci id'
    · rw [Function.update_of_ne hq]
      exact h.mem id' q
  · intro id' hnone'
    rcases eq_or_ne id' id with rfl | hne
    · exact hnone
    · rw [Function.update_of_ne hne] at hnone'
      exact h.rooted id' hnone'

/-- What is behind the first login of an identifier. -/
theorem secs_of_next (h : LoginMap tree next who secs) {q : Ptr}
    (hci : tree id = some ci) (hq : next ci = some q) :
    ∃ qs, secs id = q :: qs := by
  have hchain := h.chain id ci hci
  cases hs : secs id with
  | nil =>
      rw [hs, hq] at hchain
      cases hchain
  | cons q' qs =>
      rw [hs, hq] at hchain
      exact ⟨qs, by rw [Option.some.inj hchain.1]⟩

/-- The first login leaves, and the next one takes its place. -/
theorem replace (h : LoginMap tree next who secs) {q : Ptr}
    (hci : tree id = some ci) (hq : next ci = some q) :
    LoginMap (Function.update tree id (some q)) next
      (Function.update (Function.update who ci none) q (some (.connected, id)))
      (Function.update secs id (secs id).tail) := by
  have hchain := h.chain id ci hci
  have hnd := h.nodup id
  obtain ⟨qs, hsecs⟩ := h.secs_of_next hci hq
  rw [hsecs] at hchain hnd
  have hwq : who q = some (.multiloginSecondary, id) :=
    (h.mem id q).mp (by rw [hsecs]; exact List.mem_cons_self)
  have hwci := (h.entry id ci).mp hci
  have hqci : q ≠ ci := by
    rintro rfl
    rw [hwq] at hwci
    cases hwci
  refine ⟨?_, ?_, ?_, ?_, ?_, ?_⟩
  · intro id' p
    rcases eq_or_ne p q with rfl | hpq
    · rw [Function.update_self]
      rcases eq_or_ne id' id with rfl | hne
      · rw [Function.update_self]
        simp
      · rw [Function.update_of_ne hne, h.entry, hwq]
        simp [Ne.symm hne]
    · rw [Function.update_of_ne hpq]
      rcases eq_or_ne p ci with rfl | hp
      · rw [Function.update_self]
        rcases eq_or_ne id' id with rfl | hne
        · rw [Function.update_self]
          simpa using Ne.symm hpq
        · rw [Function.update_of_ne hne, h.entry, hwci]
          simpa using Ne.symm hne
      · rw [Function.update_of_ne hp, ← h.entry]
        rcases eq_or_ne id' id with rfl | hne
        · rw [Function.update_self, hci]
          simp [Ne.symm hpq, Ne.symm hp]
        · rw [Function.update_of_ne hne]
  · intro p st id' hp hst
    rcases eq_or_ne p q with rfl | hpq
    · rw [Function.update_self] at hp
      cases hp
      cases hst
    · rw [Function.update_of_ne hpq] at hp
      rcases eq_or_ne p ci with rfl | hne
      · rw [Function.update_self] at hp
        cases hp
      · rw [Function.update_of_ne hne] at hp
        exact h.early p st id' hp hst
  · intro id' p hp
    rcases eq_or_ne id' id with rfl | hne
    · rw [Function.update_self] at hp ⊢
      cases hp
      rw [hsecs]
      exact hchain.2
    · rw [Function.update_of_ne hne] at hp ⊢
      exact h.chain id' p hp
  · intro id'
    rcases eq_or_ne id' id with rfl | hne
    · rw [Function.update_self, hsecs]
      exact (List.nodup_cons.mp hnd).2
    · rw [Function.update_of_ne hne]
      exact h.nodup id'
  · intro id' x
    rcases eq_or_ne x q with rfl | hxq
    · rw [Function.update_self]
      rcases eq_or_ne id' id with rfl | hne
      · rw [Function.update_self, hsecs]
        simpa using (List.nodup_cons.mp hnd).1
      · rw [Function.update_of_ne hne, h.mem, hwq]
        simpa using Ne.symm hne
    · rw [Function.update_of_ne hxq]
      rcases eq_or_ne x ci with rfl | hxci
      · rw [Function.update_self]
        have hout := h.not_mem_of_connected hci id'
        rcases eq_or_ne id' id with rfl | hne
        · rw [Function.update_self]
          simpa using fun hx => hout (List.mem_of_mem_tail hx)
        · rw [Function.update_of_ne hne]
          simpa using hout
      · rw [Function.update_of_ne hxci, ← h.mem]
        rcases eq_or_ne id' id with rfl | hne
        · rw [Function.update_self, hsecs]
          simp [hxq]
        · rw [Function.update_of_ne hne]
  · intro id' hnone
    have hne : id' ≠ id := by
      rintro rfl
      rw [Function.update_self] at hnone
      cases hnone
    rw [Function.update_of_ne hne] at hnone ⊢
    exact h.rooted id' hnone

/-- A further login leaves: `y` is the one in front of it. -/
theorem unlink (h : LoginMap tree next who secs) {s y : Ptr}
    (hci : who ci = some (.multiloginSecondary, id)) (hs : tree id = some s)
    (hy : y ∈ s :: secs id)
    (hchain : Chain (Function.update next y (next ci)) (Function.update next y (next ci) s)
      ((secs id).erase ci)) :
    LoginMap tree (Function.update next y (next ci)) (Function.update who ci none)
      (Function.update secs id ((secs id).erase ci)) := by
  have hwy : who y = some (.connected, id) ∨ who y = some (.multiloginSecondary, id) := by
    rcases List.mem_cons.mp hy with rfl | hy
    · exact .inl ((h.entry id y).mp hs)
    · exact .inr ((h.mem id y).mp hy)
  -- the field that changes belongs to a login with this identifier
  have hother : ∀ x st id', who x = some (st, id') → st.early ∨ id' ≠ id → x ≠ y := by
    rintro x st id' hx hst rfl
    rcases hwy with hwy | hwy
    · rw [hx] at hwy
      cases hwy
      rcases hst with hst | hst
      · cases hst
      · exact hst rfl
    · rw [hx] at hwy
      cases hwy
      rcases hst with hst | hst
      · cases hst
      · exact hst rfl
  refine ⟨?_, ?_, ?_, ?_, ?_, ?_⟩
  · intro id' p
    rcases eq_or_ne p ci with rfl | hp
    · rw [Function.update_self, h.entry, hci]
      simp
    · rw [Function.update_of_ne hp]
      exact h.entry id' p
  · intro p st id' hp hst
    rcases eq_or_ne p ci with rfl | hne
    · rw [Function.update_self] at hp
      cases hp
    · rw [Function.update_of_ne hne] at hp
      rw [Function.update_of_ne (hother p st id' hp (.inl hst))]
      exact h.early p st id' hp hst
  · intro id' p hp
    rcases eq_or_ne id' id with rfl | hne
    · obtain rfl : p = s := Option.some.inj (hp.symm.trans hs)
      have hsec : Function.update secs id' ((secs id').erase ci) id' = (secs id').erase ci :=
        Function.update_self _ _ _
      rw [hsec]
      exact hchain
    · have hpy := hother p _ id' ((h.entry id' p).mp hp) (.inr hne)
      rw [Function.update_of_ne hne, Function.update_of_ne hpy]
      refine (h.chain id' p hp).congr fun x hx => Function.update_of_ne ?_ _ _
      exact hother x _ id' ((h.mem id' x).mp hx) (.inr hne)
  · intro id'
    rcases eq_or_ne id' id with rfl | hne
    · rw [Function.update_self]
      exact (h.nodup id').erase ci
    · rw [Function.update_of_ne hne]
      exact h.nodup id'
  · intro id' x
    rcases eq_or_ne id' id with rfl | hne
    · rw [Function.update_self, (h.nodup id').mem_erase_iff, h.mem]
      rcases eq_or_ne x ci with rfl | hx
      · rw [Function.update_self]
        simp
      · rw [Function.update_of_ne hx]
        simp [hx]
    · rw [Function.update_of_ne hne, h.mem]
      rcases eq_or_ne x ci with rfl | hx
      · rw [Function.update_self, hci]
        simpa using Ne.symm hne
      · rw [Function.update_of_ne hx]
  · intro id' hnone
    have hne : id' ≠ id := by
      rintro rfl
      rw [hs] at hnone
      cases hnone
    rw [Function.update_of_ne hne]
    exact h.rooted id' hnone

end LoginMap

/-! ## Operations -/

namespace Logins

/-- The state and the identifier of the client at an address. -/
def who (t : Logins) (p : Ptr) : Option (ClState × Id) :=
  (lookup Client.ptr p t.node.clients).map fun c => (c.state, c.id)

section Lookup

variable {t : Logins} {p ci : Ptr}

theorem who_eq_some (hd : Distinct Client.ptr t.node.clients) {st : ClState} {id : Id} :
    t.who p = some (st, id) ↔
      ∃ c ∈ t.node.clients, c.ptr = p ∧ c.state = st ∧ c.id = id := by
  rw [who, Option.map_eq_some_iff]
  constructor
  · rintro ⟨c, hc, heq⟩
    obtain ⟨hmem, hptr⟩ := lookup_eq_some hc
    cases heq
    exact ⟨c, hmem, hptr, rfl, rfl⟩
  · rintro ⟨c, hc, rfl, rfl, rfl⟩
    exact ⟨c, hd.lookup hc, rfl⟩

/-- A client at an address can be read. -/
theorem derefClient_of_who {st : ClState} {id : Id} (h : t.who p = some (st, id)) :
    ∃ c ∈ t.node.clients, t.node.derefClient (some p) = .ok c ∧ c.ptr = p ∧ c.state = st ∧
      c.id = id := by
  obtain ⟨c, hc, heq⟩ := Option.map_eq_some_iff.mp h
  obtain ⟨hmem, hptr⟩ := lookup_eq_some hc
  cases heq
  refine ⟨c, hmem, ?_, hptr, rfl, rfl⟩
  simp only [Node.derefClient, deref, hc]

theorem who_modifyClient {f : Client → Client} {st : ClState} {id : Id} {g : ClState × Id}
    (hf : ∀ c, (f c).ptr = c.ptr) (h : t.who p = some (st, id))
    (hg : ∀ c, c.state = st → c.id = id → ((f c).state, (f c).id) = g) :
    (t.modifyClient p f).who = Function.update t.who p (some g) := by
  obtain ⟨c, hc, heq⟩ := Option.map_eq_some_iff.mp h
  cases heq
  funext q
  simp only [who, modifyClient, Node.modifyClient, lookup_modify hf, hc]
  rcases eq_or_ne q p with rfl | hq
  · rw [if_pos rfl, Function.update_self]
    simp [hg c rfl rfl]
  · rw [if_neg hq, Function.update_of_ne hq]
    rfl

theorem who_setState {st st' : ClState} {id : Id} (h : t.who p = some (st, id)) :
    (t.modifyClient p fun c => { c with state := st' }).who =
      Function.update t.who p (some (st', id)) :=
  who_modifyClient (fun _ => rfl) h fun _ _ hid => congrArg (st', ·) hid

theorem who_setId {st : ClState} {id id' : Id} (h : t.who p = some (st, id)) :
    (t.modifyClient p fun c => { c with id := id' }).who =
      Function.update t.who p (some (st, id')) :=
  who_modifyClient (fun _ => rfl) h fun _ hst _ => congrArg (·, id') hst

theorem who_remove :
    ({ t with node := { t.node with
      clients := remove Client.ptr p t.node.clients } } : Logins).who =
        Function.update t.who p none := by
  funext q
  simp only [who, lookup_remove]
  rcases eq_or_ne q p with rfl | hq
  · rw [if_pos rfl, Function.update_self]
    rfl
  · rw [if_neg hq, Function.update_of_ne hq]
    rfl

theorem who_clientListAddnew {nc : NewConn} (h : t.who ci = none) :
    (t.clientListAddnew ci nc).who =
      Function.update t.who ci (some (.waitAnonTlsShutdown, .ofByte 0)) := by
  have hnone : lookup Client.ptr ci t.node.clients = none := Option.map_eq_none_iff.mp h
  funext q
  simp only [who, clientListAddnew]
  rw [lookup_concat hnone]
  rcases eq_or_ne q ci with rfl | hq
  · rw [if_pos rfl, Function.update_self]
    rfl
  · rw [if_neg hq, Function.update_of_ne hq]
    rfl

end Lookup

/-- The tree and the chains are as the clients say. -/
structure Mapped (t : Logins) (secs : Id → List Ptr) : Prop where
  distinct : Distinct Client.ptr t.node.clients
  map : LoginMap t.tree t.nextMulti t.who secs

section Delete

variable {t : Logins} {secs : Id → List Ptr} {ci p : Ptr} {id : Id}

/-- A chain is shorter than the list of clients. -/
theorem Mapped.length_secs (h : t.Mapped secs) (hp : t.tree id = some p) :
    (secs id).length < t.node.clients.length := by
  have hsub : p :: secs id ⊆ t.node.clients.map Client.ptr := by
    intro q hq
    have hwho : ∃ st, t.who q = some (st, id) := by
      rcases List.mem_cons.mp hq with rfl | hq
      · exact ⟨_, (h.map.entry id q).mp hp⟩
      · exact ⟨_, (h.map.mem id q).mp hq⟩
    obtain ⟨st, hwho⟩ := hwho
    obtain ⟨c, hc, hptr, -⟩ := (who_eq_some h.distinct).mp hwho
    exact List.mem_map.mpr ⟨c, hc, hptr⟩
  have hlen := (List.subperm_of_subset (h.map.nodup_cons hp) hsub).length_le
  rw [List.length_map] at hlen
  exact hlen

/-- The loop reads the clients in front of the one it looks for. -/
theorem unlinkMulti_eq
    {fuel : Nat} {s : Ptr} {ps : List Ptr}
    (hlive : ∀ x ∈ s :: ps, x ≠ ci → ∃ c, t.node.derefClient (some x) = .ok c) (hs : s ≠ ci)
    (hchain : Chain t.nextMulti (t.nextMulti s) ps) (hfuel : ps.length < fuel) :
    t.unlinkMulti ci fuel s = .ok { t with
      nextMulti := (unlinkFrom t.nextMulti ci fuel s).getD t.nextMulti } := by
  induction ps generalizing s fuel with
  | nil =>
      obtain ⟨fuel, rfl⟩ : ∃ n, fuel = n + 1 := ⟨fuel - 1, by omega⟩
      obtain ⟨c, hc⟩ := hlive s List.mem_cons_self hs
      simp only [Chain] at hchain
      simp [unlinkMulti, unlinkFrom, hc, hchain, bind, Except.bind, pure, Except.pure]
  | cons q qs ih =>
      obtain ⟨fuel, rfl⟩ : ∃ n, fuel = n + 1 := ⟨fuel - 1, by omega⟩
      obtain ⟨c, hc⟩ := hlive s List.mem_cons_self hs
      obtain ⟨hq, hrest⟩ := hchain
      simp only [List.length_cons] at hfuel
      rw [unlinkMulti, unlinkFrom, hc, hq]
      rcases eq_or_ne q ci with rfl | hne
      · rw [if_pos rfl]
        simp [setNextMulti, bind, Except.bind, pure, Except.pure]
      · rw [if_neg (by simpa using hne)]
        have hrec := ih (fun x hx => hlive x (List.mem_cons_of_mem s hx)) hne hrest
          (show qs.length < fuel by omega)
        simpa [bind, Except.bind, pure, Except.pure, hne] using hrec

/-- The list of clients without the one at `ci`. -/
def unlisted (t : Logins) (ci : Ptr) : Logins :=
  { t with node := { t.node with clients := remove Client.ptr ci t.node.clients } }

@[simp] theorem unlisted_nextMulti : (t.unlisted ci).nextMulti = t.nextMulti := rfl

/-- What the tree and the chains become when the client `c` leaves. -/
theorem clientTreeForget_mapped
    {c : Client}
    (h : t.Mapped secs) (hc : t.who c.ptr = some (c.state, c.id))
    (hearly : c.state.early → t.tree c.id = none) :
    ∃ t' secs', (t.unlisted c.ptr).clientTreeForget c t.node.clients.length (t.tree c.id) =
        .ok t' ∧ t'.Mapped secs' ∧ t'.node.nodelinks = t.node.nodelinks ∧
      (∀ id, t.tree id = none → t'.tree id = none) ∧
      (t.tree c.id = some c.ptr → t.nextMulti c.ptr = none → t'.tree c.id = none) := by
  have hwho : (t.unlisted c.ptr).who = Function.update t.who c.ptr none := who_remove
  have hdist : Distinct Client.ptr (t.unlisted c.ptr).node.clients := h.distinct.remove
  cases htree : t.tree c.id with
  | none =>
      refine ⟨t.unlisted c.ptr, secs, rfl, ⟨hdist, ?_⟩, rfl, fun _ h => h, nofun⟩
      have hmap := @LoginMap.update_outside _ _ _ _ c.ptr h.map none (t.nextMulti c.ptr)
        (h.map.outside_of_none hc htree) nofun
      rw [Function.update_eq_self, ← hwho] at hmap
      exact hmap
  | some s =>
      rcases eq_or_ne s c.ptr with rfl | hs
      · have hconn := (h.map.entry c.id c.ptr).mp htree
        have hst : c.state = .connected := by
          rw [hc] at hconn
          exact congrArg Prod.fst (Option.some.inj hconn)
        cases hnext : t.nextMulti c.ptr with
        | none =>
            have hmap := h.map.remove htree hnext
            rw [← hwho] at hmap
            refine ⟨(t.unlisted c.ptr).setTree c.id none, secs, ?_, ⟨hdist, hmap⟩, rfl, ?_, ?_⟩
            · simp only [clientTreeForget, if_true, unlisted_nextMulti, hnext]
              rfl
            · intro id hid
              rcases eq_or_ne id c.id with rfl | hne
              · exact Function.update_self _ _ _
              · exact (Function.update_of_ne hne _ _).trans hid
            · exact fun _ _ => Function.update_self _ _ _
        | some q =>
            obtain ⟨qs, hsecs⟩ := h.map.secs_of_next htree hnext
            have hwq : t.who q = some (.multiloginSecondary, c.id) :=
              (h.map.mem c.id q).mp (by rw [hsecs]; exact List.mem_cons_self)
            have hq : q ≠ c.ptr := by
              rintro rfl
              rw [hconn] at hwq
              cases hwq
            have hwq' : (t.unlisted c.ptr).who q = some (.multiloginSecondary, c.id) := by
              rw [hwho, Function.update_of_ne hq]
              exact hwq
            obtain ⟨d, -, hderef, -⟩ := derefClient_of_who hwq'
            have hmap := h.map.replace htree hnext
            have hnew := @who_modifyClient ((t.unlisted c.ptr).setTree c.id (some q)) q
              (fun s => { s with state := c.state }) _ _ (.connected, c.id) (fun _ => rfl) hwq'
              fun d _ hid => by rw [hst, hid]
            change _ = Function.update (t.unlisted c.ptr).who q _ at hnew
            rw [hwho] at hnew
            rw [← hnew] at hmap
            refine ⟨((t.unlisted c.ptr).setTree c.id (some q)).modifyClient q fun s =>
              { s with state := c.state }, _, ?_, ⟨hdist.modify fun _ _ _ => rfl, hmap⟩, rfl, ?_,
              nofun⟩
            · simp only [clientTreeForget, if_true, unlisted_nextMulti, hnext,
                clientTreeReplaceMulti, hderef]
              rfl
            · intro id hid
              have hne : id ≠ c.id := by
                rintro rfl
                rw [htree] at hid
                cases hid
              exact (Function.update_of_ne hne _ _).trans hid
      · have hst : c.state = .multiloginSecondary := by
          cases hst : c.state with
          | multiloginSecondary => rfl
          | connected =>
              rw [hst] at hc
              rw [(h.map.entry c.id c.ptr).mpr hc] at htree
              exact absurd (Option.some.inj htree).symm hs
          | _ =>
              rw [hst] at hearly
              rw [hearly rfl] at htree
              cases htree
        rw [hst] at hc
        have hmem := (h.map.mem c.id c.ptr).mpr hc
        have hlen := h.length_secs htree
        obtain ⟨y, hy, -, hun, hchain⟩ := unlinkFrom_of_mem (h.map.chain c.id s htree)
          (h.map.nodup_cons htree) hmem hlen
        have hlive : ∀ x ∈ s :: secs c.id, x ≠ c.ptr →
            ∃ d, (t.unlisted c.ptr).node.derefClient (some x) = .ok d := by
          intro x hx hne
          have hwx : ∃ st, t.who x = some (st, c.id) := by
            rcases List.mem_cons.mp hx with rfl | hx
            · exact ⟨_, (h.map.entry c.id x).mp htree⟩
            · exact ⟨_, (h.map.mem c.id x).mp hx⟩
          obtain ⟨st, hwx⟩ := hwx
          obtain ⟨d, -, hd, -⟩ := @derefClient_of_who (t.unlisted c.ptr) x st c.id (by
            rw [hwho, Function.update_of_ne hne]
            exact hwx)
          exact ⟨d, hd⟩
        have hloop := unlinkMulti_eq hlive hs (h.map.chain c.id s htree) hlen
        have hmap := h.map.unlink hc htree hy hchain
        rw [← hwho] at hmap
        rw [unlisted_nextMulti, hun, Option.getD_some] at hloop
        refine ⟨{ t.unlisted c.ptr with
          nextMulti := Function.update t.nextMulti y (t.nextMulti c.ptr) }, _, ?_, ⟨hdist, hmap⟩,
          rfl, fun _ h => h, ?_⟩
        · simp only [clientTreeForget, if_neg hs]
          exact hloop
        · intro heq
          exact absurd (Option.some.inj heq) hs

/-- **`client_list_delete`.** -/
theorem clientListDelete_mapped
    {st : ClState}
    (h : t.Mapped secs) (hci : t.who ci = some (st, id)) (hearly : st.early → t.tree id = none) :
    ∃ t' secs', t.clientListDelete ci = .ok t' ∧ t'.Mapped secs' ∧
      t'.node.nodelinks = t.node.nodelinks ∧
      (∀ id', t.tree id' = none → t'.tree id' = none) ∧
      (t.tree id = some ci → t.nextMulti ci = none → t'.tree id = none) := by
  obtain ⟨c, hc, hderef, rfl, rfl, rfl⟩ := derefClient_of_who hci
  obtain ⟨t', secs', hforget, hmapped, hnodes, hkeep, hlast⟩ :=
    clientTreeForget_mapped h hci hearly
  refine ⟨{ t' with node := t'.node.cclinkListDeleteByClient c.ptr }, secs', ?_,
    ⟨hmapped.distinct, hmapped.map⟩, hnodes, hkeep, hlast⟩
  rw [clientListDelete, hderef]
  change (((t.unlisted c.ptr).clientTreeForget c t.node.clients.length (t.tree c.id)) >>= _) = _
  rw [hforget]
  rfl

end Delete

/-! ### Logins and logouts -/

/-- What the operations keep: no client with the identifier of all zeroes stays in the
tree. -/
structure Sound (t : Logins) : Prop where
  mapped : ∃ secs, t.Mapped secs
  nodes : Distinct NodeLink.ptr t.node.nodelinks
  anon : t.tree (.ofByte 0) = none

section Sound

variable {t : Logins} {ci : Ptr}

theorem clientListAddnew_sound
    {nc : NewConn}
    (h : t.Sound) (hnew : ∀ c ∈ t.node.clients, c.ptr ≠ ci) :
    (t.clientListAddnew ci nc).Sound := by
  obtain ⟨⟨secs, hdist, hmap⟩, hnodes, hanon⟩ := h
  have hnone : t.who ci = none := Option.map_eq_none_iff.mpr (lookup_eq_none.mpr hnew)
  refine ⟨⟨secs, hdist.concat hnew, ?_⟩, hnodes, hanon⟩
  rw [who_clientListAddnew hnone]
  refine hmap.update_outside (fun id => by simp [hnone]) ?_
  rintro st id ⟨⟩
  exact ⟨rfl, rfl, rfl⟩

theorem negotiate_sound
    {id : Id}
    (h : t.Sound) (hci : t.who ci = some (.waitAnonTlsShutdown, id)) :
    (t.modifyClient ci fun c => { c with state := .tlsNegotiation }).Sound := by
  obtain ⟨⟨secs, hdist, hmap⟩, hnodes, hanon⟩ := h
  obtain ⟨rfl, hnext⟩ := hmap.early ci _ id hci rfl
  refine ⟨⟨secs, hdist.modify fun _ _ _ => rfl, ?_⟩, hnodes, hanon⟩
  rw [who_setState hci]
  have hout := @LoginMap.update_outside _ _ _ _ ci hmap (some (.tlsNegotiation, .ofByte 0)) none
    (fun id => LoginMap.early_not hci rfl) (by
      rintro st id ⟨⟩
      exact ⟨rfl, rfl, rfl⟩)
  rw [← hnext, Function.update_eq_self] at hout
  exact hout

theorem clientListDelete_sound
    {st : ClState} {id : Id}
    (h : t.Sound) (hci : t.who ci = some (st, id)) :
    ∃ t', t.clientListDelete ci = .ok t' ∧ t'.Sound := by
  obtain ⟨⟨secs, hmapped⟩, hnodes, hanon⟩ := h
  have hearly : st.early → t.tree id = none := by
    intro hst
    rw [(hmapped.map.early ci st id hci hst).1]
    exact hanon
  obtain ⟨t', secs', hdel, hmapped', hlinks, hkeep, -⟩ :=
    clientListDelete_mapped hmapped hci hearly
  exact ⟨t', hdel, ⟨secs', hmapped'⟩, hlinks ▸ hnodes, hkeep _ hanon⟩

/-- The client at `ci` with its identifier and its state. -/
def identified (t : Logins) (ci : Ptr) (id : Id) (st : ClState) : Logins :=
  (t.modifyClient ci fun c => { c with id := id }).modifyClient ci fun c => { c with state := st }

theorem who_identified
    {st st' : ClState} {id id' : Id}
    (hci : t.who ci = some (st, id)) :
    (t.identified ci id' st').who = Function.update t.who ci (some (st', id')) := by
  have hwho := @who_setId t ci st id id' hci
  have hself : (t.modifyClient ci fun c => { c with id := id' }).who ci = some (st, id') := by
    rw [hwho, Function.update_self]
  rw [identified, who_setState hself, hwho, Function.update_idem]

theorem identified_distinct
    {st : ClState} {id : Id}
    (h : Distinct Client.ptr t.node.clients) :
    Distinct Client.ptr (t.identified ci id st).node.clients := by
  refine Distinct.modify (Distinct.modify h ?_) ?_
  · exact fun _ _ _ => rfl
  · exact fun _ _ _ => rfl

/-- A client whose identifier has an entry becomes a further login. -/
theorem c2nLogin_further
    {id id₀ : Id} {primary : Ptr}
    (h : t.Sound) (hci : t.who ci = some (.tlsNegotiation, id₀))
    (hp : t.tree id = some primary) :
    ∃ t', (t.modifyClient ci fun c => { c with id := id }).c2nLogin ci id false = .ok t' ∧
      t'.Sound := by
  obtain ⟨⟨secs, hdist, hmap⟩, hnodes, hanon⟩ := h
  have hmap' := @LoginMap.attach _ _ _ _ ci primary id hmap _ _ hci rfl hp
  rw [← who_identified hci] at hmap'
  refine ⟨(t.identified ci id .multiloginSecondary).clientAttachMultiSecondary primary ci, ?_,
    ⟨_, identified_distinct hdist, hmap'⟩, hnodes, hanon⟩
  have htree : (t.modifyClient ci fun c => { c with id := id }).tree id = some primary := hp
  rw [c2nLogin, if_neg Bool.false_ne_true, htree]
  rfl

/-- A client whose identifier has no entry is added to the tree, and deleted in the same
call when it is not accepted. -/
theorem c2nLogin_first
    {id id₀ : Id} {kill : Bool}
    (h : t.Sound) (hci : t.who ci = some (.tlsNegotiation, id₀)) (hp : t.tree id = none)
    (hkill : kill ↔ id = .ofByte 0) :
    ∃ t', (t.modifyClient ci fun c => { c with id := id }).c2nLogin ci id kill = .ok t' ∧
      t'.Sound := by
  obtain ⟨⟨secs, hdist, hmap⟩, hnodes, hanon⟩ := h
  have hnext := (hmap.early ci _ id₀ hci rfl).2
  have hmap' := @LoginMap.login _ _ _ _ ci id hmap _ _ hci rfl hp
  rw [← who_identified hci] at hmap'
  set t₁ := (t.identified ci id .connected).setTree id (some ci) with ht₁
  have hmapped : t₁.Mapped secs := ⟨identified_distinct hdist, hmap'⟩
  have hlogin : (t.modifyClient ci fun c => { c with id := id }).c2nLogin ci id kill =
      if kill then t₁.clientListDelete ci else pure t₁ := by
    have hfound : (if kill then none
        else (t.modifyClient ci fun c => { c with id := id }).tree id) = none := by
      split_ifs
      · rfl
      · exact hp
    have hadd : (t.modifyClient ci fun c => { c with id := id }).clientTreeAdd ci id =
        ((t.modifyClient ci fun c => { c with id := id }).setTree id (some ci), 1) := by
      have htree : (t.modifyClient ci fun c => { c with id := id }).tree id = none := hp
      rw [clientTreeAdd, htree]
    rw [c2nLogin, hfound]
    dsimp only
    rw [hadd]
    simp [ht₁, identified, modifyClient, setTree]
  rw [hlogin]
  by_cases hk : kill = true
  · have hid := hkill.mp hk
    have hwci : t₁.who ci = some (.connected, id) := by
      change (t.identified ci id .connected).who ci = _
      rw [who_identified hci, Function.update_self]
    obtain ⟨t', secs', hdel, hmapped', hlinks, -, hlast⟩ :=
      clientListDelete_mapped hmapped hwci (by rintro ⟨⟩)
    rw [if_pos hk]
    refine ⟨t', hdel, ⟨secs', hmapped'⟩, ?_, ?_⟩
    · rw [hlinks]
      exact hnodes
    · rw [← hid]
      exact hlast (Function.update_self _ _ _) hnext
  · rw [if_neg hk]
    have hne : Id.ofByte 0 ≠ id := fun heq => hk (hkill.mpr heq.symm)
    exact ⟨t₁, rfl, ⟨secs, hmapped⟩, hnodes, (Function.update_of_ne hne _ _).trans hanon⟩

/-- **The end of `process_c2n_write`.** -/
theorem c2nConnected_sound
    {cert : Option Id} {id₀ : Id}
    (h : t.Sound) (hci : t.who ci = some (.tlsNegotiation, id₀)) :
    ∃ t', t.c2nConnected ci cert = .ok t' ∧ t'.Sound := by
  obtain ⟨c, -, hderef, -, -, hid⟩ := derefClient_of_who hci
  obtain ⟨secs, hmapped⟩ := h.mapped
  have hzero : c.id = .ofByte 0 := hid.trans (hmapped.map.early ci _ id₀ hci rfl).1
  have hconn : t.c2nConnected ci cert =
      (t.modifyClient ci fun d => { d with id := cert.getD c.id }).c2nLogin ci (cert.getD c.id)
        (cert.isNone || cert.getD c.id = .ofByte 0) := by
    rw [c2nConnected, hderef]
    rfl
  have hkill : (cert.isNone || cert.getD c.id = .ofByte 0 : Bool) ↔
      cert.getD c.id = .ofByte 0 := by
    cases cert with
    | none => simp [hzero]
    | some id => simp
  rw [hconn]
  cases hp : t.tree (cert.getD c.id) with
  | none => exact c2nLogin_first h hci hp hkill
  | some primary =>
      have hne : cert.getD c.id ≠ .ofByte 0 := by
        intro heq
        rw [heq, h.anon] at hp
        cases hp
      rw [Bool.eq_false_iff.mpr fun hk => hne (hkill.mp hk)]
      exact c2nLogin_further h hci hp

end Sound

end Logins

end PicaPica
