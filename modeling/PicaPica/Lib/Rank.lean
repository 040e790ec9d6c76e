import Mathlib

/-!
# The entry at a place of the sorted list

`AtRank l k v` says of a list in any order that `v` is its entry number `k` when it is sorted: at
most `k` entries are less than `v`, and more than `k` are not greater.  Sorting finds this entry
(`getElem?_insertionSort_iff`), and there is only one (`AtRank.unique`).
-/

namespace Rank

variable {α : Type*} [LinearOrder α]

/-- The number of entries that are less than `v`. -/
def below (l : List α) (v : α) : Nat :=
  l.countP fun x => decide (x < v)

/-- The number of entries that are not greater than `v`. -/
def upTo (l : List α) (v : α) : Nat :=
  l.countP fun x => decide (x ≤ v)

def AtRank (l : List α) (k : Nat) (v : α) : Prop :=
  below l v ≤ k ∧ k < upTo l v

instance (l : List α) (k : Nat) (v : α) : Decidable (AtRank l k v) :=
  inferInstanceAs (Decidable (_ ∧ _))

variable {l s : List α} {k : Nat} {v w x : α}

theorem upTo_le_below (h : x < v) : upTo l x ≤ below l v :=
  List.countP_mono_left fun y _ hy => by
    simp only [decide_eq_true_eq] at hy ⊢
    exact lt_of_le_of_lt hy h

theorem upTo_mono (h : v ≤ w) : upTo l v ≤ upTo l w :=
  List.countP_mono_left fun y _ hy => by
    simp only [decide_eq_true_eq] at hy ⊢
    exact le_trans hy h

theorem AtRank.le (hv : AtRank l k v) (hw : AtRank l k w) : w ≤ v := by
  refine le_of_not_gt fun h => ?_
  have hle : upTo l v ≤ below l w := upTo_le_below h
  have hk := hv.2
  have hk' := hw.1
  omega

/-- **There is one entry at a place.** -/
theorem AtRank.unique (hv : AtRank l k v) (hw : AtRank l k w) : v = w :=
  le_antisymm (hw.le hv) (hv.le hw)

theorem atRank_perm (h : l.Perm s) : AtRank l k v ↔ AtRank s k v := by
  rw [AtRank, AtRank, below, below, upTo, upTo, h.countP_eq, h.countP_eq]

/-- In a sorted list the entries in front are not greater and the entries behind not less. -/
theorem atRank_of_sorted (hs : s.Pairwise (· ≤ ·)) (hk : s[k]? = some v) : AtRank s k v := by
  obtain ⟨hlt, hget⟩ := List.getElem?_eq_some_iff.mp hk
  have hdrop : s.drop k = v :: s.drop (k + 1) := by
    rw [← hget]
    exact List.drop_eq_getElem_cons hlt
  have hsplit : s = s.take k ++ v :: s.drop (k + 1) := by
    rw [← hdrop, List.take_append_drop]
  have hfront : (s.take k).length = k := List.length_take_of_le (Nat.le_of_lt hlt)
  rw [hsplit] at hs
  obtain ⟨-, hback, hcross⟩ := List.pairwise_append.mp hs
  have hbelow : (v :: s.drop (k + 1)).countP (fun x => decide (x < v)) = 0 := by
    refine List.countP_eq_zero.mpr fun y hy => ?_
    rw [decide_eq_true_eq]
    rcases List.mem_cons.mp hy with rfl | hy
    · exact lt_irrefl y
    · exact not_lt.mpr ((List.pairwise_cons.mp hback).1 y hy)
  have hupTo : (s.take k).countP (fun x => decide (x ≤ v)) = (s.take k).length := by
    refine List.countP_eq_length.mpr fun y hy => ?_
    rw [decide_eq_true_eq]
    exact hcross y hy v List.mem_cons_self
  refine ⟨?_, ?_⟩
  · rw [below, hsplit, List.countP_append, hbelow, Nat.add_zero]
    exact Nat.le_trans List.countP_le_length (Nat.le_of_eq hfront)
  · rw [upTo, hsplit, List.countP_append, hupTo, hfront,
      List.countP_cons_of_pos (by simp)]
    omega

/-- **Sorting finds the entry.** -/
theorem getElem?_insertionSort_iff :
    (l.insertionSort (· ≤ ·))[k]? = some v ↔ AtRank l k v := by
  have hperm : (l.insertionSort (· ≤ ·)).Perm l := List.perm_insertionSort _ l
  have hrank : ∀ {u}, (l.insertionSort (· ≤ ·))[k]? = some u → AtRank l k u := fun hu =>
    (atRank_perm hperm).mp (atRank_of_sorted (List.pairwise_insertionSort _ l) hu)
  constructor
  · exact hrank
  · intro hv
    have hlt : k < (l.insertionSort (· ≤ ·)).length := by
      rw [hperm.length_eq]
      exact Nat.lt_of_lt_of_le hv.2 List.countP_le_length
    have hget := List.getElem?_eq_getElem hlt
    rw [hget, hv.unique (hrank hget)]

/-- Some entry is less than the one at a place, if an entry and those not greater are few
enough. -/
theorem AtRank.exists_lt_iff (hv : AtRank l k v) :
    (∃ x ∈ l, x < v) ↔ ∃ x ∈ l, upTo l x ≤ k := by
  refine exists_congr fun x => and_congr_right fun _ => ?_
  constructor
  · intro h
    exact Nat.le_trans (upTo_le_below h) hv.1
  · intro h
    refine lt_of_not_ge fun hle => ?_
    have hmono : upTo l v ≤ upTo l x := upTo_mono hle
    have hk := hv.2
    omega

end Rank
