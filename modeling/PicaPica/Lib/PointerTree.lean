import Mathlib

/-!
# Binary trees of linked records

Records linked by `left`, `right` and `up` fields are a `Store`; a `Slot` is a
place that holds a link to a subtree (the root variable or a field of a record).
`Rep st s t` says that the slot `s` holds the abstract tree `t` and that every
`up` field in it is right.

An operation that changes a tree in one place is described by a context: `plug`
puts a subtree into the hole of a context, `rep_plug` takes a represented tree
apart, and `RepCtx.congr` is the frame rule for what surrounds the hole.  The
rules `rep_attach`, `rep_detach` and `rep_replace` cover the three changes.

`Sorted` is the search-tree order, and `Chain` a list linked by a single field.
-/

namespace PointerTree

variable {P : Type*}

/-- Shape of a tree of records. -/
inductive Tree (P : Type*)
  | leaf
  | node (l : Tree P) (p : P) (r : Tree P)

/-- The records from left to right. -/
def Tree.toList : Tree P → List P
  | leaf => []
  | node l p r => l.toList ++ p :: r.toList

/-- The two link fields to subtrees. -/
inductive Side
  | left
  | right
deriving DecidableEq

def Side.other : Side → Side
  | left => right
  | right => left

def Side.pick {α : Type*} : Side → α → α → α
  | left, a, _ => a
  | right, _, b => b

theorem Side.ne_other (d : Side) : d.other ≠ d := by
  cases d <;> decide

/-- The link fields of a record. -/
structure Cell (P : Type*) where
  left : Option P
  right : Option P
  up : Option P

def Cell.child (c : Cell P) : Side → Option P
  | .left => c.left
  | .right => c.right

def Cell.setChild (c : Cell P) : Side → Option P → Cell P
  | .left, v => { c with left := v }
  | .right, v => { c with right := v }

/-- The root variable and the link fields of all records. -/
structure Store (P : Type*) where
  root : Option P
  cell : P → Cell P

/-- A place that links to a subtree. -/
inductive Slot (P : Type*)
  | root
  | child (d : Side) (q : P)
deriving DecidableEq

/-- The record a slot is a field of. -/
def Slot.owner : Slot P → Option P
  | root => none
  | child _ q => some q

namespace Store

variable (st : Store P)

def get : Slot P → Option P
  | .root => st.root
  | .child d q => (st.cell q).child d

variable [DecidableEq P]

def set : Slot P → Option P → Store P
  | .root, v => { st with root := v }
  | .child d q, v =>
      { st with cell := Function.update st.cell q ((st.cell q).setChild d v) }

def setUp (p : P) (v : Option P) : Store P :=
  { st with cell := Function.update st.cell p { st.cell p with up := v } }

/-- Set the `up` field of a record, if there is one. -/
def adopt : Option P → Option P → Store P
  | none, _ => st
  | some p, v => st.setUp p v

/-- Overwrite all link fields of a record. -/
def setCell (p : P) (x : Cell P) : Store P :=
  { st with cell := Function.update st.cell p x }

/-- The slot that links to a record, found from its `up` field. -/
def link (p : P) : Slot P :=
  match (st.cell p).up with
  | none => .root
  | some q => if (st.cell q).left = some p then .child .left q else .child .right q

@[simp] theorem get_set_self (s : Slot P) (v : Option P) : (st.set s v).get s = v := by
  cases s with
  | root => rfl
  | child d q => cases d <;> simp [set, get, Cell.child, Cell.setChild]

theorem get_set_of_ne {s s' : Slot P} (v : Option P) (h : s' ≠ s) :
    (st.set s v).get s' = st.get s' := by
  cases s with
  | root =>
      cases s' with
      | root => exact absurd rfl h
      | child d q => rfl
  | child d p =>
      cases s' with
      | root => rfl
      | child e q =>
          rcases eq_or_ne q p with rfl | hqp
          · have hed : e ≠ d := fun hed => h (by rw [hed])
            cases d <;> cases e <;>
              first
                | exact absurd rfl hed
                | simp [set, get, Cell.child, Cell.setChild]
          · simp [set, get, Function.update_of_ne hqp]

@[simp] theorem up_set (s : Slot P) (v : Option P) (p : P) :
    ((st.set s v).cell p).up = (st.cell p).up := by
  cases s with
  | root => rfl
  | child d q =>
      rcases eq_or_ne p q with rfl | hpq
      · cases d <;> simp [set, Cell.setChild]
      · simp [set, Function.update_of_ne hpq]

@[simp] theorem get_setUp (p : P) (v : Option P) (s : Slot P) :
    (st.setUp p v).get s = st.get s := by
  cases s with
  | root => rfl
  | child d q =>
      rcases eq_or_ne q p with rfl | hqp
      · cases d <;> simp [setUp, get, Cell.child]
      · simp [setUp, get, Function.update_of_ne hqp]

@[simp] theorem up_setUp_self (p : P) (v : Option P) : ((st.setUp p v).cell p).up = v := by
  simp [setUp]

theorem up_setUp_of_ne {p q : P} (v : Option P) (h : q ≠ p) :
    ((st.setUp p v).cell q).up = (st.cell q).up := by
  simp [setUp, Function.update_of_ne h]

@[simp] theorem get_adopt (o v : Option P) (s : Slot P) : (st.adopt o v).get s = st.get s := by
  cases o with
  | none => rfl
  | some p => exact st.get_setUp p v s

theorem up_adopt_self {o : Option P} {p : P} (v : Option P) (h : o = some p) :
    ((st.adopt o v).cell p).up = v := by
  rw [h]
  exact st.up_setUp_self p v

theorem up_adopt_of_ne {o : Option P} {p : P} (v : Option P) (h : o ≠ some p) :
    ((st.adopt o v).cell p).up = (st.cell p).up := by
  cases o with
  | none => rfl
  | some q => exact st.up_setUp_of_ne v fun e => h (by rw [e])

theorem cell_adopt_of_ne {o : Option P} {p : P} (v : Option P) (h : o ≠ some p) :
    (st.adopt o v).cell p = st.cell p := by
  cases o with
  | none => rfl
  | some q =>
      have hpq : p ≠ q := fun e => h (by rw [e])
      simp [adopt, setUp, Function.update_of_ne hpq]

theorem setUp_eq_self {p : P} {v : Option P} (h : (st.cell p).up = v) : st.setUp p v = st := by
  subst h
  simp [setUp]

theorem get_setCell_self (p : P) (x : Cell P) (d : Side) :
    (st.setCell p x).get (.child d p) = x.child d := by
  simp [setCell, get]

theorem get_setCell_of_ne {s : Slot P} {p : P} (x : Cell P) (h : s.owner ≠ some p) :
    (st.setCell p x).get s = st.get s := by
  cases s with
  | root => rfl
  | child d q =>
      have hqp : q ≠ p := fun e => h (by rw [e, Slot.owner])
      simp [setCell, get, Function.update_of_ne hqp]

theorem cell_setCell_self (p : P) (x : Cell P) : (st.setCell p x).cell p = x := by
  simp [setCell]

theorem cell_setCell_of_ne {p q : P} (x : Cell P) (h : q ≠ p) :
    (st.setCell p x).cell q = st.cell q := by
  simp [setCell, Function.update_of_ne h]

theorem cell_set_of_ne {s : Slot P} {p : P} (v : Option P) (h : s.owner ≠ some p) :
    (st.set s v).cell p = st.cell p := by
  cases s with
  | root => rfl
  | child d q =>
      have hpq : p ≠ q := fun e => h (by rw [e, Slot.owner])
      simp [set, Function.update_of_ne hpq]

end Store

/-- The slot holds the tree, with every `up` field in it pointing to the owner
of the slot the record hangs in. -/
def Rep (st : Store P) : Slot P → Tree P → Prop
  | s, .leaf => st.get s = none
  | s, .node l p r =>
      st.get s = some p ∧ (st.cell p).up = s.owner ∧
        Rep st (.child .left p) l ∧ Rep st (.child .right p) r

/-- **Frame rule for trees.** -/
theorem Rep.congr
    {st st' : Store P} {s : Slot P} {t : Tree P} (h : Rep st s t)
    (hs : st'.get s = st.get s)
    (hget : ∀ d, ∀ p ∈ t.toList, st'.get (.child d p) = st.get (.child d p))
    (hup : ∀ p ∈ t.toList, (st'.cell p).up = (st.cell p).up) :
    Rep st' s t := by
  induction t generalizing s with
  | leaf => exact hs.trans h
  | node l p r ihl ihr =>
      obtain ⟨hp, hpup, hl, hr⟩ := h
      simp only [Tree.toList, List.mem_append, List.mem_cons] at hget hup
      refine ⟨hs.trans hp, ?_, ?_, ?_⟩
      · rw [hup p (.inr (.inl rfl)), hpup]
      · exact ihl hl (hget _ p (.inr (.inl rfl)))
          (fun d q hq => hget d q (.inl hq)) (fun q hq => hup q (.inl hq))
      · exact ihr hr (hget _ p (.inr (.inl rfl)))
          (fun d q hq => hget d q (.inr (.inr hq)))
          (fun q hq => hup q (.inr (.inr hq)))

/-- What a slot holds is in its tree. -/
theorem Rep.mem_of_get
    {st : Store P} {s : Slot P} {t : Tree P} {p : P} (h : Rep st s t)
    (hp : st.get s = some p) : p ∈ t.toList := by
  cases t with
  | leaf => simp [Rep, hp] at h
  | node l q r =>
      obtain rfl : q = p := Option.some.inj (h.1.symm.trans hp)
      simp [Tree.toList]

/-- One step of a path from the root: the side taken, the record passed and the
subtree that was not taken. -/
structure Frame (P : Type*) where
  side : Side
  passed : P
  sibling : Tree P

/-- A tree with a hole, the steps from the root first. -/
abbrev Ctx (P : Type*) := List (Frame P)

namespace Ctx

/-- Put a tree into the hole. -/
def plug : Ctx P → Tree P → Tree P
  | [], t => t
  | ⟨.left, p, u⟩ :: c, t => .node (plug c t) p u
  | ⟨.right, p, u⟩ :: c, t => .node u p (plug c t)

/-- The slot of the hole, for a context that stands in the slot `s`. -/
def hole : Slot P → Ctx P → Slot P
  | s, [] => s
  | _, f :: c => hole (.child f.side f.passed) c

/-- Records left of the hole. -/
def before : Ctx P → List P
  | [] => []
  | ⟨.left, _, _⟩ :: c => before c
  | ⟨.right, p, u⟩ :: c => u.toList ++ p :: before c

/-- Records right of the hole. -/
def after : Ctx P → List P
  | [] => []
  | ⟨.left, p, u⟩ :: c => after c ++ p :: u.toList
  | ⟨.right, _, _⟩ :: c => after c

/-- All records of a context. -/
def nodes : Ctx P → List P
  | [] => []
  | f :: c => f.passed :: (f.sibling.toList ++ nodes c)

theorem toList_plug (c : Ctx P) (t : Tree P) :
    (plug c t).toList = before c ++ t.toList ++ after c := by
  induction c with
  | nil => simp [plug, before, after]
  | cons f c ih =>
      rcases f with ⟨_ | _, p, u⟩ <;> simp [plug, before, after, Tree.toList, ih]

theorem plug_perm (c : Ctx P) (t : Tree P) :
    (plug c t).toList.Perm (nodes c ++ t.toList) := by
  induction c with
  | nil => exact .refl _
  | cons f c ih =>
      rcases f with ⟨_ | _, p, u⟩
      · simp only [plug, Tree.toList, nodes, List.cons_append]
        refine List.perm_middle.trans (.cons p ?_)
        rw [List.append_assoc]
        exact List.perm_append_comm.trans (ih.append_left _)
      · simp only [plug, Tree.toList, nodes, List.cons_append]
        refine List.perm_middle.trans (.cons p ?_)
        rw [List.append_assoc]
        exact ih.append_left _

/-- Every record of a tree is the root of the tree in the hole of a context. -/
theorem exists_plug_of_mem {t : Tree P} {p : P} (h : p ∈ t.toList) :
    ∃ c l r, t = plug c (.node l p r) := by
  induction t with
  | leaf => simp [Tree.toList] at h
  | node l q r ihl ihr =>
      simp only [Tree.toList, List.mem_append, List.mem_cons] at h
      rcases h with h | rfl | h
      · obtain ⟨c, l', r', rfl⟩ := ihl h
        exact ⟨⟨.left, q, r⟩ :: c, l', r', rfl⟩
      · exact ⟨[], l, r, rfl⟩
      · obtain ⟨c, l', r', rfl⟩ := ihr h
        exact ⟨⟨.right, q, l⟩ :: c, l', r', rfl⟩

theorem owner_hole_cons (s : Slot P) (f : Frame P) (c : Ctx P) :
    ∃ q ∈ f.passed :: nodes c, (hole s (f :: c)).owner = some q := by
  induction c generalizing s f with
  | nil => exact ⟨f.passed, by simp, rfl⟩
  | cons g c ih =>
      obtain ⟨q, hq, h⟩ := ih s g
      refine ⟨q, ?_, h⟩
      simp only [nodes, List.mem_cons, List.mem_append] at hq ⊢
      tauto

end Ctx

open Ctx

/-- The slot holds the context, whatever its hole holds. -/
def RepCtx (st : Store P) : Slot P → Ctx P → Prop
  | _, [] => True
  | s, f :: c =>
      st.get s = some f.passed ∧ (st.cell f.passed).up = s.owner ∧
        Rep st (.child f.side.other f.passed) f.sibling ∧ RepCtx st (.child f.side f.passed) c

theorem rep_plug (st : Store P) (s : Slot P) (c : Ctx P) (t : Tree P) :
    Rep st s (plug c t) ↔ RepCtx st s c ∧ Rep st (hole s c) t := by
  induction c generalizing s with
  | nil => simp [plug, RepCtx, hole]
  | cons f c ih =>
      rcases f with ⟨_ | _, p, u⟩ <;>
        simp only [plug, Rep, RepCtx, hole, ih, Side.other] <;> tauto

/-- **Frame rule for contexts.**  What surrounds the hole stays represented when
only the slot of the hole and other records change. -/
theorem RepCtx.congr
    {st st' : Store P} {s : Slot P} {c : Ctx P} (h : RepCtx st s c)
    (hnd : (nodes c).Nodup) (hs : ∀ p, s.owner = some p → p ∉ nodes c)
    (hget : ∀ s', s' ≠ hole s c → (s' = s ∨ ∃ p ∈ nodes c, s'.owner = some p) →
      st'.get s' = st.get s')
    (hup : ∀ p ∈ nodes c, (st'.cell p).up = (st.cell p).up) :
    RepCtx st' s c := by
  induction c generalizing s with
  | nil => trivial
  | cons f c ih =>
      obtain ⟨hp, hpup, hsib, hc⟩ := h
      obtain ⟨q, hq, howner⟩ := owner_hole_cons s f c
      simp only [nodes, List.mem_cons, List.mem_append] at hs hget hup
      simp only [nodes, List.nodup_cons, List.mem_append, List.nodup_append] at hnd
      obtain ⟨hfresh, -, hcnd, hdisj⟩ := hnd
      -- the slot of the hole is a field of the record passed or of one below it
      have hne : ∀ s', (∀ p, s'.owner = some p → p ≠ q) → s' ≠ hole s (f :: c) := by
        rintro s' h rfl
        exact h q howner rfl
      refine ⟨?_, ?_, ?_, ?_⟩
      · rw [hget s (hne s ?_) (.inl rfl), hp]
        rintro p hso rfl
        rcases List.mem_cons.mp hq with rfl | hq
        · exact hs _ hso (.inl rfl)
        · exact hs _ hso (.inr (.inr hq))
      · rw [hup _ (.inl rfl), hpup]
      · refine hsib.congr ?_ ?_ ?_
        · refine hget _ ?_ (.inr ⟨f.passed, .inl rfl, rfl⟩)
          cases c with
          | nil =>
              intro heq
              injection heq with hside
              exact f.side.ne_other hside
          | cons g c =>
              obtain ⟨q', hq', howner'⟩ := owner_hole_cons (.child f.side f.passed) g c
              intro heq
              have : f.passed = q' := by
                have := congrArg Slot.owner heq
                simpa [hole, Slot.owner, howner'] using this.trans howner'
              refine hfresh (.inr ?_)
              rw [this]
              simp only [nodes, List.mem_cons, List.mem_append] at hq' ⊢
              tauto
        · intro d p hp
          refine hget _ (hne _ ?_) (.inr ⟨p, .inr (.inl hp), rfl⟩)
          rintro p' hp' rfl
          obtain rfl : p = p' := Option.some.inj hp'
          rcases List.mem_cons.mp hq with rfl | hq
          · exact hfresh (.inl hp)
          · exact hdisj _ hp _ hq rfl
        · intro p hp
          exact hup p (.inr (.inl hp))
      · refine ih hc hcnd ?_ ?_ ?_
        · intro p hp hmem
          obtain rfl : f.passed = p := Option.some.inj hp
          exact hfresh (.inr hmem)
        · intro s' hs' hcase
          refine hget s' hs' (.inr ?_)
          rcases hcase with rfl | ⟨p, hp, ho⟩
          · exact ⟨f.passed, .inl rfl, rfl⟩
          · exact ⟨p, .inr (.inr hp), ho⟩
        · intro p hp
          exact hup p (.inr (.inr hp))

/-- A tree can move to another slot if its root is told the new owner. -/
theorem Rep.move
    {st st' : Store P} {s s' : Slot P} {t : Tree P} (h : Rep st s t)
    (hnd : t.toList.Nodup)
    (hs : st'.get s' = st.get s)
    (hroot : ∀ p, st.get s = some p → (st'.cell p).up = s'.owner)
    (hget : ∀ d, ∀ p ∈ t.toList, st'.get (.child d p) = st.get (.child d p))
    (hup : ∀ p ∈ t.toList, st.get s ≠ some p → (st'.cell p).up = (st.cell p).up) :
    Rep st' s' t := by
  cases t with
  | leaf => exact hs.trans h
  | node l p r =>
      obtain ⟨hp, hpup, hl, hr⟩ := h
      simp only [Tree.toList, List.mem_append, List.mem_cons] at hget hup
      simp only [Tree.toList, List.nodup_append, List.nodup_cons, List.mem_cons] at hnd
      obtain ⟨-, ⟨hpr, -⟩, hdisj⟩ := hnd
      refine ⟨hs.trans hp, hroot p hp, ?_, ?_⟩
      · refine hl.congr (hget _ p (.inr (.inl rfl))) (fun d q hq => hget d q (.inl hq)) ?_
        intro q hq
        refine hup q (.inl hq) ?_
        rw [hp]
        rintro ⟨rfl⟩
        exact hdisj _ hq _ (.inl rfl) rfl
      · refine hr.congr (hget _ p (.inr (.inl rfl)))
          (fun d q hq => hget d q (.inr (.inr hq))) ?_
        intro q hq
        refine hup q (.inr (.inr hq)) ?_
        rw [hp]
        rintro ⟨rfl⟩
        exact hpr hq

/-- **Change in the hole.** -/
theorem rep_refill
    {st st' : Store P} {c : Ctx P} {t t' : Tree P}
    (h : Rep st .root (plug c t)) (hnd : (plug c t).toList.Nodup)
    (hget : ∀ s', s' ≠ hole .root c → (s' = .root ∨ ∃ p ∈ nodes c, s'.owner = some p) →
      st'.get s' = st.get s')
    (hup : ∀ p ∈ nodes c, (st'.cell p).up = (st.cell p).up)
    (ht : Rep st' (hole .root c) t') :
    Rep st' .root (plug c t') := by
  obtain ⟨hc, -⟩ := (rep_plug st .root c t).mp h
  have hcnd : (nodes c).Nodup := ((plug_perm c t).nodup_iff.mp hnd).of_append_left
  refine (rep_plug st' .root c t').mpr ⟨?_, ht⟩
  refine hc.congr hcnd ?_ hget hup
  rintro p ⟨⟩

/-- A hole on the right of a record has a represented tree on the left. -/
theorem RepCtx.left_of_hole_right
    {st : Store P} {s : Slot P} {c : Ctx P} {q : P} (h : RepCtx st s c)
    (hhole : hole s c = .child .right q) (hs : s ≠ .child .right q) :
    ∃ u : Tree P, Rep st (.child .left q) u ∧ ∀ p ∈ u.toList, p ∈ nodes c := by
  induction c generalizing s with
  | nil => exact absurd hhole hs
  | cons f c ih =>
      obtain ⟨-, -, hsib, hc⟩ := h
      by_cases hhere : Slot.child f.side f.passed = .child .right q
      · obtain ⟨hside, rfl⟩ := Slot.child.inj hhere
        rw [hside] at hsib
        exact ⟨f.sibling, hsib, fun p hp => by simp [nodes, hp]⟩
      · obtain ⟨u, hu, hmem⟩ := ih hc hhole hhere
        exact ⟨u, hu, fun p hp => by simp [nodes, hmem p hp]⟩

section Surgery

variable {st : Store P} {c : Ctx P} {l r : Tree P} {p : P}

/-- The records around a hole are not those in it. -/
theorem not_mem_nodes (hnd : (plug c (.node l p r)).toList.Nodup) {q : P}
    (hq : q ∈ (Tree.node l p r).toList) : q ∉ nodes c := by
  intro hmem
  exact List.disjoint_of_nodup_append ((plug_perm c _).nodup_iff.mp hnd) hmem hq

theorem owner_hole_ne {q : P} (hq : q ∉ nodes c) : (hole .root c).owner ≠ some q := by
  intro heq
  cases c with
  | nil => cases heq
  | cons f c =>
      obtain ⟨q', hq', howner⟩ := owner_hole_cons .root f c
      obtain rfl : q' = q := Option.some.inj (howner.symm.trans heq)
      refine hq ?_
      simp only [nodes, List.mem_cons, List.mem_append] at hq' ⊢
      tauto

theorem child_ne_hole {q : P} (hq : q ∉ nodes c) (d : Side) :
    Slot.child d q ≠ hole .root c := by
  intro heq
  exact owner_hole_ne hq (by rw [← heq, Slot.owner])

variable [DecidableEq P]

/-- The slot found from the `up` field of a record is the one that links to it. -/
theorem link_eq_hole
    (h : Rep st .root (plug c (.node l p r))) (hnd : (plug c (.node l p r)).toList.Nodup) :
    st.link p = hole .root c := by
  obtain ⟨hc, hp, hpup, -, -⟩ := (rep_plug st .root c _).mp h
  have hfresh : p ∉ nodes c := not_mem_nodes hnd (by simp [Tree.toList])
  rw [Store.link, hpup]
  generalize hs : hole .root c = s at hp hpup
  cases s with
  | root => rfl
  | child d q =>
      cases d with
      | left => exact if_pos hp
      | right =>
          refine if_neg ?_
          intro hleft
          obtain ⟨u, hu, hmem⟩ := hc.left_of_hole_right hs (by simp)
          exact hfresh (hmem p (hu.mem_of_get hleft))

/-- **Attach** a fresh record without children. -/
theorem rep_attach
    (h : Rep st .root (plug c .leaf)) (hnd : (plug c .leaf).toList.Nodup)
    (hfresh : p ∉ (plug c .leaf).toList)
    (hleft : (st.cell p).left = none) (hright : (st.cell p).right = none) :
    Rep ((st.set (hole .root c) (some p)).setUp p (hole .root c).owner) .root
      (plug c (.node .leaf p .leaf)) := by
  have hout : p ∉ nodes c := fun hmem =>
    hfresh ((plug_perm c .leaf).mem_iff.mpr (List.mem_append_left _ hmem))
  refine rep_refill h hnd ?_ ?_ ⟨?_, ?_, ?_, ?_⟩
  · intro s' hs' _
    rw [Store.get_setUp, Store.get_set_of_ne _ _ hs']
  · intro q hq
    rw [Store.up_setUp_of_ne, Store.up_set]
    rintro rfl
    exact hout hq
  · rw [Store.get_setUp, Store.get_set_self]
  · rw [Store.up_setUp_self]
  · simp only [Rep, Store.get_setUp, Store.get_set_of_ne _ _ (child_ne_hole hout _)]
    exact hleft
  · simp only [Rep, Store.get_setUp, Store.get_set_of_ne _ _ (child_ne_hole hout _)]
    exact hright

/-- **Detach** a record and let the subtree on one side take its place. -/
theorem rep_detach
    (h : Rep st .root (plug c (.node l p r))) (hnd : (plug c (.node l p r)).toList.Nodup)
    (d : Side) :
    Rep ((st.adopt (st.get (.child d p)) (st.cell p).up).set (st.link p)
      (st.get (.child d p))) .root (plug c (d.pick l r)) := by
  rw [link_eq_hole h hnd]
  obtain ⟨-, -, hpup, hl, hr⟩ := (rep_plug st .root c _).mp h
  have hnd' := ((plug_perm c _).nodup_iff.mp hnd).of_append_right
  simp only [Tree.toList, List.nodup_append, List.nodup_cons] at hnd'
  have hu : Rep st (.child d p) (d.pick l r) ∧ (d.pick l r).toList.Nodup ∧
      ∀ q ∈ (d.pick l r).toList, q ∈ (Tree.node l p r).toList := by
    cases d with
    | left => exact ⟨hl, hnd'.1, fun q hq => by simp_all [Side.pick, Tree.toList]⟩
    | right => exact ⟨hr, hnd'.2.1.2, fun q hq => by simp_all [Side.pick, Tree.toList]⟩
  obtain ⟨hu, hund, hsub⟩ := hu
  refine rep_refill h hnd ?_ ?_ ?_
  · intro s' hs' _
    rw [Store.get_set_of_ne _ _ hs', Store.get_adopt]
  · intro q hq
    rw [Store.up_set, Store.up_adopt_of_ne]
    intro hget
    exact not_mem_nodes hnd (hsub q (hu.mem_of_get hget)) hq
  · refine hu.move hund (Store.get_set_self _ _ _) ?_ ?_ ?_
    · intro q hq
      rw [Store.up_set, Store.up_adopt_self _ _ hq, hpup]
    · intro e q hq
      rw [Store.get_set_of_ne _ _ (child_ne_hole (not_mem_nodes hnd (hsub q hq)) e),
        Store.get_adopt]
    · intro q hq hne
      rw [Store.up_set, Store.up_adopt_of_ne _ _ hne]

/-- **Replace** a record by one that is not in the tree and takes over its
links. -/
theorem rep_replace
    (h : Rep st .root (plug c (.node l p r))) (hnd : (plug c (.node l p r)).toList.Nodup)
    {q : P} (hq : q ∉ (plug c (.node l p r)).toList) :
    Rep ((((st.set (st.link p) (some q)).setCell q (st.cell p)).adopt (st.cell p).left
      (some q)).adopt (st.cell p).right (some q)) .root (plug c (.node l q r)) := by
  rw [link_eq_hole h hnd]
  obtain ⟨-, hp, hpup, hl, hr⟩ := (rep_plug st .root c _).mp h
  have hqmem : q ∉ nodes c ∧ q ∉ (Tree.node l p r).toList := by
    rw [(plug_perm c _).mem_iff, List.mem_append, not_or] at hq
    exact hq
  obtain ⟨hqc, hqt⟩ := hqmem
  have hnd' := ((plug_perm c _).nodup_iff.mp hnd).of_append_right
  simp only [Tree.toList, List.nodup_append, List.nodup_cons, List.mem_cons] at hnd'
  obtain ⟨hlnd, ⟨hpr, hrnd⟩, hdisj⟩ := hnd'
  have hlmem : ∀ x, (st.cell p).left = some x → x ∈ l.toList := fun x hx => hl.mem_of_get hx
  have hrmem : ∀ x, (st.cell p).right = some x → x ∈ r.toList := fun x hx => hr.mem_of_get hx
  have hin : ∀ x, x ∈ l.toList ∨ x ∈ r.toList → x ∉ nodes c ∧ x ≠ q := by
    intro x hx
    have hxt : x ∈ (Tree.node l p r).toList := by
      simp only [Tree.toList, List.mem_append, List.mem_cons]
      tauto
    refine ⟨not_mem_nodes hnd hxt, ?_⟩
    rintro rfl
    exact hqt hxt
  refine rep_refill h hnd ?_ ?_ ⟨?_, ?_, ?_, ?_⟩
  · rintro s' hs' hcase
    rw [Store.get_adopt, Store.get_adopt, Store.get_setCell_of_ne, Store.get_set_of_ne _ _ hs']
    rcases hcase with rfl | ⟨x, hx, howner⟩
    · rintro ⟨⟩
    · rw [howner]
      rintro ⟨rfl⟩
      exact hqc hx
  · intro x hx
    rw [Store.up_adopt_of_ne, Store.up_adopt_of_ne, Store.cell_setCell_of_ne, Store.up_set]
    · rintro rfl
      exact hqc hx
    · intro hleft
      exact (hin x (.inl (hlmem x hleft))).1 hx
    · intro hright
      exact (hin x (.inr (hrmem x hright))).1 hx
  · rw [Store.get_adopt, Store.get_adopt, Store.get_setCell_of_ne, Store.get_set_self]
    exact owner_hole_ne hqc
  · rw [Store.up_adopt_of_ne, Store.up_adopt_of_ne, Store.cell_setCell_self, hpup]
    · intro hleft
      exact (hin q (.inl (hlmem q hleft))).2 rfl
    · intro hright
      exact (hin q (.inr (hrmem q hright))).2 rfl
  · refine hl.move hlnd ?_ ?_ ?_ ?_
    · rw [Store.get_adopt, Store.get_adopt, Store.get_setCell_self]
      rfl
    · intro x hx
      change (st.cell p).left = some x at hx
      rw [Store.up_adopt_of_ne, Store.up_adopt_self _ _ hx]
      · rfl
      · intro hright
        exact hdisj x (hlmem x hx) x (.inr (hrmem x hright)) rfl
    · intro d x hx
      obtain ⟨hxc, hxq⟩ := hin x (.inl hx)
      rw [Store.get_adopt, Store.get_adopt, Store.get_setCell_of_ne,
        Store.get_set_of_ne _ _ (child_ne_hole hxc d)]
      exact fun e => hxq (Option.some.inj e)
    · intro x hx hne
      change (st.cell p).left ≠ some x at hne
      rw [Store.up_adopt_of_ne, Store.up_adopt_of_ne _ _ hne,
        Store.cell_setCell_of_ne _ _ (hin x (.inl hx)).2, Store.up_set]
      intro hright
      exact hdisj x hx x (.inr (hrmem x hright)) rfl
  · refine hr.move hrnd ?_ ?_ ?_ ?_
    · rw [Store.get_adopt, Store.get_adopt, Store.get_setCell_self]
      rfl
    · intro x hx
      change (st.cell p).right = some x at hx
      rw [Store.up_adopt_self _ _ hx]
      rfl
    · intro d x hx
      obtain ⟨hxc, hxq⟩ := hin x (.inr hx)
      rw [Store.get_adopt, Store.get_adopt, Store.get_setCell_of_ne,
        Store.get_set_of_ne _ _ (child_ne_hole hxc d)]
      exact fun e => hxq (Option.some.inj e)
    · intro x hx hne
      change (st.cell p).right ≠ some x at hne
      rw [Store.up_adopt_of_ne _ _ hne, Store.up_adopt_of_ne,
        Store.cell_setCell_of_ne _ _ (hin x (.inr hx)).2, Store.up_set]
      intro hleft
      exact hdisj x (hlmem x hleft) x (.inr hx) rfl

end Surgery

section Search

variable {K : Type*} [LinearOrder K] (key : P → K)

/-- A search tree: the keys increase from left to right. -/
def Sorted (t : Tree P) : Prop :=
  t.toList.Pairwise fun p q => key p < key q

/-- The record a search for the key ends at. -/
def Tree.find (k : K) : Tree P → Option P
  | .leaf => none
  | .node l p r => if k = key p then some p else if k < key p then l.find k else r.find k

variable {key} {l r t : Tree P} {p : P} {k : K}

theorem sorted_node :
    Sorted key (.node l p r) ↔
      Sorted key l ∧ Sorted key r ∧ (∀ q ∈ l.toList, key q < key p) ∧
        ∀ q ∈ r.toList, key p < key q := by
  simp only [Sorted, Tree.toList, List.pairwise_append, List.pairwise_cons, List.mem_cons]
  constructor
  · rintro ⟨hl, ⟨hp, hr⟩, hlr⟩
    exact ⟨hl, hr, fun q hq => hlr q hq p (.inl rfl), hp⟩
  · rintro ⟨hl, hr, hlp, hpr⟩
    refine ⟨hl, ⟨hpr, hr⟩, ?_⟩
    rintro a ha b (rfl | hb)
    · exact hlp a ha
    · exact (hlp a ha).trans (hpr b hb)

theorem Sorted.nodup (h : Sorted key t) : t.toList.Nodup := by
  refine List.Pairwise.imp ?_ h
  rintro a b hab rfl
  exact lt_irrefl _ hab

theorem Sorted.find_eq_some_iff (h : Sorted key t) :
    t.find key k = some p ↔ p ∈ t.toList ∧ key p = k := by
  induction t with
  | leaf => simp [Tree.find, Tree.toList]
  | node l q r ihl ihr =>
      obtain ⟨hl, hr, hlq, hqr⟩ := sorted_node.mp h
      simp only [Tree.find, Tree.toList, List.mem_append, List.mem_cons]
      split_ifs with heq hlt
      · subst heq
        constructor
        · rintro ⟨rfl⟩
          exact ⟨.inr (.inl rfl), rfl⟩
        · rintro ⟨hp | rfl | hp, hkey⟩
          · exact absurd hkey (hlq p hp).ne
          · rfl
          · exact absurd hkey (hqr p hp).ne'
      · rw [ihl hl]
        constructor
        · rintro ⟨hp, hkey⟩
          exact ⟨.inl hp, hkey⟩
        · rintro ⟨hp | rfl | hp, hkey⟩
          · exact ⟨hp, hkey⟩
          · exact absurd hkey.symm heq
          · exact absurd (hkey ▸ hqr p hp) hlt.asymm
      · rw [ihr hr]
        constructor
        · rintro ⟨hp, hkey⟩
          exact ⟨.inr (.inr hp), hkey⟩
        · rintro ⟨hp | rfl | hp, hkey⟩
          · exact absurd (hkey ▸ hlq p hp) hlt
          · exact absurd hkey.symm heq
          · exact ⟨hp, hkey⟩

/-- A record whose key lies in the gap of a context. -/
theorem sorted_attach {c : Ctx P}
    (h : Sorted key (plug c .leaf))
    (hbefore : ∀ q ∈ before c, key q < key p) (hafter : ∀ q ∈ after c, key p < key q) :
    Sorted key (plug c (.node .leaf p .leaf)) := by
  rw [Sorted, toList_plug] at h ⊢
  simp only [Tree.toList, List.append_nil, List.nil_append, List.pairwise_append] at h ⊢
  obtain ⟨hb, ha, hba⟩ := h
  refine ⟨⟨hb, by simp, ?_⟩, ha, ?_⟩
  · simpa using hbefore
  · intro a hmem b hb'
    rcases List.mem_append.mp hmem with hmem | hmem
    · exact hba a hmem b hb'
    · obtain rfl : a = p := by simpa using hmem
      exact hafter b hb'

/-- Fewer records. -/
theorem sorted_detach {c : Ctx P} {u : Tree P}
    (h : Sorted key (plug c t)) (hsub : u.toList.Sublist t.toList) :
    Sorted key (plug c u) := by
  rw [Sorted, toList_plug] at h ⊢
  exact h.sublist ((hsub.append_left _).append_right _)

end Search

/-- The list of records linked by one field, from a given link on. -/
def Chain (next : P → Option P) : Option P → List P → Prop
  | o, [] => o = none
  | o, p :: ps => o = some p ∧ Chain next (next p) ps

/-- **Frame rule for chains.** -/
theorem Chain.congr
    {next next' : P → Option P} {o : Option P} {ps : List P} (h : Chain next o ps)
    (hsame : ∀ p ∈ ps, next' p = next p) : Chain next' o ps := by
  induction ps generalizing o with
  | nil => exact h
  | cons p ps ih =>
      obtain ⟨hp, hrest⟩ := h
      refine ⟨hp, ?_⟩
      rw [hsame p (by simp)]
      exact ih hrest fun q hq => hsame q (by simp [hq])

end PointerTree
