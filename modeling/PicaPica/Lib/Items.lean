import Mathlib

/-!
# Sequences of items

A code writes an item as a non-empty list of symbols and reads the first item of a list
back.  Every list is a sequence of complete items followed by a rest that begins with none,
in exactly one way (`exists_splits`, `Splits.unique`); it is a sequence of items when the rest
is empty.
-/

namespace Items

/-- How an item is written, and how the first item of a list is read. -/
structure Code (ι β : Type*) where
  enc : ι → List β
  read : List β → Option (ι × List β)
  read_enc : ∀ i rest, read (enc i ++ rest) = some (i, rest)
  enc_of_read : ∀ x i rest, read x = some (i, rest) → x = enc i ++ rest
  enc_ne : ∀ i, enc i ≠ []

variable {ι β : Type*} (c : Code ι β)

/-- The items `x` begins with are `l`, and what follows the last of them is `rest`. -/
structure Splits (x : List β) (l : List ι) (rest : List β) : Prop where
  eq : x = l.flatMap c.enc ++ rest
  stop : c.read rest = none

variable {c}

theorem Code.enc_length (i : ι) : 0 < (c.enc i).length :=
  List.length_pos_iff.mpr (c.enc_ne i)

theorem Code.read_nil : c.read [] = none := by
  cases h : c.read [] with
  | none => rfl
  | some r =>
      have hnil := c.enc_of_read [] r.1 r.2 h
      exact absurd (List.append_eq_nil_iff.mp hnil.symm).1 (c.enc_ne r.1)

theorem Splits.nil {rest : List β} (h : c.read rest = none) : Splits c rest [] rest :=
  ⟨rfl, h⟩

theorem Splits.cons
    {i : ι} {x rest : List β} {l : List ι}
    (h : Splits c x l rest) :
    Splits c (c.enc i ++ x) (i :: l) rest :=
  ⟨by rw [List.flatMap_cons, List.append_assoc, ← h.eq], h.stop⟩

theorem exists_splits (x : List β) : ∃ l rest, Splits c x l rest := by
  induction hn : x.length using Nat.strongRecOn generalizing x with
  | ind n ih =>
      cases hread : c.read x with
      | none => exact ⟨[], x, .nil hread⟩
      | some r =>
          have heq := c.enc_of_read x r.1 r.2 hread
          have hshorter : r.2.length < n := by
            rw [← hn, heq, List.length_append]
            exact Nat.lt_add_of_pos_left (c.enc_length r.1)
          obtain ⟨l, rest, hsplits⟩ := ih r.2.length hshorter r.2 rfl
          refine ⟨r.1 :: l, rest, ?_⟩
          rw [heq]
          exact hsplits.cons

/-- The first item, and the items behind it. -/
theorem Splits.exists_tail
    {i : ι} {x rest : List β} {l : List ι}
    (h : Splits c x (i :: l) rest) :
    ∃ y, x = c.enc i ++ y ∧ Splits c y l rest := by
  refine ⟨l.flatMap c.enc ++ rest, ?_, rfl, h.stop⟩
  rw [h.eq, List.flatMap_cons, List.append_assoc]

/-- What the first item of a split list is. -/
theorem Splits.read_cons
    {x rest : List β} {i : ι} {l : List ι}
    (h : Splits c x (i :: l) rest) :
    c.read x = some (i, l.flatMap c.enc ++ rest) := by
  rw [h.eq, List.flatMap_cons, List.append_assoc]
  exact c.read_enc _ _

theorem Splits.unique
    {x rest rest' : List β} {l l' : List ι}
    (h : Splits c x l rest) (h' : Splits c x l' rest') :
    l = l' ∧ rest = rest' := by
  induction l generalizing x l' with
  | nil =>
      obtain rfl : x = rest := h.eq
      cases l' with
      | nil => exact ⟨rfl, h'.eq⟩
      | cons i' l' => exact absurd (h.stop.symm.trans h'.read_cons) nofun
  | cons i l ih =>
      cases l' with
      | nil =>
          obtain rfl : x = rest' := h'.eq
          exact absurd (h'.stop.symm.trans h.read_cons) nofun
      | cons i' l' =>
          have hfirst := Option.some.inj (h.read_cons.symm.trans h'.read_cons)
          obtain ⟨rfl, htail⟩ := Prod.mk.inj hfirst
          obtain ⟨rfl, rfl⟩ := ih ⟨rfl, h.stop⟩ ⟨htail, h'.stop⟩
          exact ⟨rfl, rfl⟩

theorem Splits.nil_left
    {rest : List β} {l : List ι}
    (h : Splits c [] l rest) :
    l = [] ∧ rest = [] :=
  h.unique (.nil Code.read_nil)

theorem Splits.of_sequence
    {x rest : List β} {l items : List ι}
    (h : Splits c x l rest) (hitems : x = items.flatMap c.enc) :
    l = items ∧ rest = [] :=
  h.unique ⟨by rw [List.append_nil, hitems], Code.read_nil⟩

end Items
