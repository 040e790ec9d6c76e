import Mathlib

/-!
# Adding up over a list of records

Each record of a list weighs a number.  The lemmas say how the sum moves when one record is
replaced, added or dropped.
-/

namespace Tally

variable {α : Type*} (w : α → Nat)

/-- The weights of all records together. -/
def tally (xs : List α) : Nat :=
  (xs.map w).sum

variable {w} {xs ys : List α} {i : Nat} {x a : α}

@[simp]
theorem tally_nil : tally w [] = 0 :=
  rfl

@[simp]
theorem tally_cons : tally w (x :: xs) = w x + tally w xs := by
  simp [tally]

@[simp]
theorem tally_append : tally w (xs ++ ys) = tally w xs + tally w ys := by
  simp [tally]

theorem tally_perm (h : xs.Perm ys) : tally w xs = tally w ys :=
  (h.map w).sum_nat

theorem tally_eraseIdx (h : xs[i]? = some x) :
    tally w (xs.eraseIdx i) + w x = tally w xs := by
  obtain ⟨hi, rfl⟩ := List.getElem?_eq_some_iff.mp h
  rw [← tally_perm (List.getElem_cons_eraseIdx_perm hi), tally_cons, Nat.add_comm]

theorem tally_set (h : xs[i]? = some x) :
    tally w (xs.set i a) + w x = tally w xs + w a := by
  have hi : i < xs.length := (List.getElem?_eq_some_iff.mp h).1
  have hset := tally_perm (w := w) (List.set_perm_cons_eraseIdx hi a)
  have herase := tally_eraseIdx (w := w) h
  rw [tally_cons] at hset
  omega

theorem tally_eq_zero : tally w xs = 0 ↔ ∀ x ∈ xs, w x = 0 := by
  induction xs with
  | nil => simp
  | cons x xs ih => simp [ih]

/-- What is dropped weighs what is missing. -/
theorem tally_filter (p : α → Bool) :
    tally w (xs.filter p) + tally w (xs.filter fun x => !p x) = tally w xs := by
  induction xs with
  | nil => rfl
  | cons x xs ih =>
      cases hp : p x with
      | true =>
          simp only [List.filter_cons, hp, Bool.not_true, if_true, tally_cons]
          simp only [Bool.false_eq_true, if_false]
          omega
      | false =>
          simp only [List.filter_cons, hp, Bool.not_false, if_true, tally_cons]
          simp only [Bool.false_eq_true, if_false]
          omega

theorem tally_filter_eq_iff (p : α → Bool) :
    tally w (xs.filter p) = tally w xs ↔ ∀ x ∈ xs, p x = false → w x = 0 := by
  have hsum := @tally_filter _ w xs p
  have hzero := @tally_eq_zero _ w (xs.filter fun x => !p x)
  simp only [List.mem_filter, Bool.not_eq_true', and_imp] at hzero
  rw [← hzero]
  omega

theorem tally_filter_eq_zero_iff (p : α → Bool) :
    tally w (xs.filter p) = 0 ↔ ∀ x ∈ xs, p x = true → w x = 0 := by
  simp only [tally_eq_zero, List.mem_filter, and_imp]

end Tally
