import Mathlib

/-!
# Ranges of positions in a list

A range is a position and a length.  Ranges that follow each other from one position to another
cover what lies between the two, and stay inside it (`Tiles.bounds`).
-/

/-- The positions `off`, …, `off + len - 1`. -/
structure Span where
  off : Nat
  len : Nat
deriving DecidableEq

namespace Span

variable {β : Type*}

def stop (s : Span) : Nat :=
  s.off + s.len

/-- The entries of a list at the positions of a range. -/
def slice (s : Span) (x : List β) : List β :=
  (x.drop s.off).take s.len

/-- Every position of the range is one of a list of length `n`. -/
def Inside (s : Span) (n : Nat) : Prop :=
  s.stop ≤ n

instance (s : Span) (n : Nat) : Decidable (s.Inside n) :=
  inferInstanceAs (Decidable (_ ≤ _))

theorem slice_eq_slice_iff {a b len : Nat} {x : List β} :
    (⟨a, len⟩ : Span).slice x = (⟨b, len⟩ : Span).slice x ↔
      ∀ i < len, x[a + i]? = x[b + i]? := by
  have hget : ∀ (off i : Nat), i < len →
      ((⟨off, len⟩ : Span).slice x)[i]? = x[off + i]? := by
    intro off i hi
    rw [slice, List.getElem?_take_of_lt hi, List.getElem?_drop]
  constructor
  · intro h i hi
    rw [← hget a i hi, h, hget b i hi]
  · intro h
    refine List.ext_getElem? fun i => ?_
    by_cases hi : i < len
    · rw [hget a i hi, hget b i hi, h i hi]
    · rw [slice, slice, List.getElem?_take_eq_none (Nat.le_of_not_lt hi),
        List.getElem?_take_eq_none (Nat.le_of_not_lt hi)]

/-- The ranges follow each other from `a` to `b`. -/
def Tiles : List Span → Nat → Nat → Prop
  | [], a, b => a = b
  | s :: l, a, b => s.off = a ∧ Tiles l s.stop b

theorem Tiles.le {l : List Span} {a b : Nat} (h : Tiles l a b) : a ≤ b := by
  induction l generalizing a with
  | nil => exact Nat.le_of_eq h
  | cons s l ih =>
      obtain ⟨rfl, hrest⟩ := h
      exact Nat.le_trans (Nat.le_add_right s.off s.len) (ih hrest)

theorem Tiles.bounds
    {l : List Span} {a b : Nat} {s : Span} (h : Tiles l a b) (hs : s ∈ l) :
    a ≤ s.off ∧ s.Inside b := by
  induction l generalizing a with
  | nil => cases hs
  | cons t l ih =>
      obtain ⟨rfl, hrest⟩ := h
      cases hs with
      | head => exact ⟨Nat.le_refl _, hrest.le⟩
      | tail _ hs =>
          have hfrom := ih hrest hs
          exact ⟨Nat.le_trans (Nat.le_add_right t.off t.len) hfrom.1, hfrom.2⟩

end Span
