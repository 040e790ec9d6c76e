import Mathlib

/-!
# Lists of records with keys

A list of records in which each record is identified by a key: a heap of
records of one kind in list order.  `lookup`, `modify` and `remove` act on the
record with a given key.
-/

namespace Table

variable {α K : Type*} (key : α → K)

/-- No two records have the same key. -/
def Distinct (xs : List α) : Prop :=
  (xs.map key).Nodup

section

variable {key} {xs : List α} {x y : α}

theorem Distinct.eq (h : Distinct key xs) (hx : x ∈ xs) (hy : y ∈ xs)
    (hk : key x = key y) : x = y :=
  List.inj_on_of_nodup_map h hx hy hk

theorem Distinct.concat (h : Distinct key xs) (hx : ∀ y ∈ xs, key y ≠ key x) :
    Distinct key (xs ++ [x]) := by
  rw [Distinct, List.map_append, List.nodup_append]
  refine ⟨h, by simp, ?_⟩
  rintro a ha b hb rfl
  obtain ⟨y, hy, rfl⟩ := List.mem_map.mp ha
  exact hx y hy (by simpa using hb)

end

variable [DecidableEq K]

/-- The record with the given key. -/
def lookup (k : K) (xs : List α) : Option α :=
  xs.find? fun x => key x = k

/-- Change the record with the given key. -/
def modify (k : K) (f : α → α) (xs : List α) : List α :=
  xs.map fun x => if key x = k then f x else x

/-- Drop the record with the given key. -/
def remove (k : K) (xs : List α) : List α :=
  xs.filter fun x => key x ≠ k

variable {key} {k : K} {f : α → α} {xs : List α} {x y : α}

theorem lookup_eq_some (h : lookup key k xs = some x) : x ∈ xs ∧ key x = k := by
  refine ⟨List.mem_of_find?_eq_some h, ?_⟩
  have := List.find?_some h
  simpa using this

theorem lookup_eq_none : lookup key k xs = none ↔ ∀ x ∈ xs, key x ≠ k := by
  simp [lookup]

theorem lookup_of_mem (h : ∃ x ∈ xs, key x = k) : ∃ x, lookup key k xs = some x := by
  cases hl : lookup key k xs with
  | none =>
      obtain ⟨x, hx, hk⟩ := h
      exact absurd hk (lookup_eq_none.mp hl x hx)
  | some x => exact ⟨x, rfl⟩

theorem mem_modify : y ∈ modify key k f xs ↔ ∃ x ∈ xs, y = if key x = k then f x else x := by
  simp only [modify, List.mem_map]
  constructor
  · rintro ⟨x, hx, rfl⟩
    exact ⟨x, hx, rfl⟩
  · rintro ⟨x, hx, rfl⟩
    exact ⟨x, hx, rfl⟩

theorem mem_remove : x ∈ remove key k xs ↔ x ∈ xs ∧ key x ≠ k := by
  simp [remove]

theorem Distinct.lookup (h : Distinct key xs) (hx : x ∈ xs) :
    Table.lookup key (key x) xs = some x := by
  cases hl : Table.lookup key (key x) xs with
  | none => exact absurd rfl (lookup_eq_none.mp hl x hx)
  | some y =>
      obtain ⟨hy, hkey⟩ := lookup_eq_some hl
      rw [h.eq hy hx hkey]

/-- A change of records leaves their keys. -/
theorem key_modify {j : K} (hf : ∀ x, key (f x) = key x) (h : ∃ x ∈ xs, key x = j) :
    ∃ x ∈ modify key k f xs, key x = j := by
  obtain ⟨x, hx, rfl⟩ := h
  refine ⟨_, mem_modify.mpr ⟨x, hx, rfl⟩, ?_⟩
  split_ifs
  · exact hf x
  · rfl

/-- What the change leaves as it is in the record it is for, it leaves everywhere. -/
theorem map_modify
    {β : Type*} {g : α → β}
    (hf : ∀ x ∈ xs, key x = k → g (f x) = g x) :
    (modify key k f xs).map g = xs.map g := by
  rw [modify, List.map_map]
  refine List.map_congr_left ?_
  intro x hx
  simp only [Function.comp_apply]
  split_ifs with hk
  · exact hf x hx hk
  · rfl

/-- Two changes of one record. -/
theorem modify_modify
    {g : α → α} (hf : ∀ x, key (f x) = key x) :
    modify key k g (modify key k f xs) = modify key k (fun x => g (f x)) xs := by
  rw [modify, modify, List.map_map, modify]
  refine List.map_congr_left fun x _ => ?_
  simp only [Function.comp_apply]
  split_ifs with hk hf'
  · rfl
  · exact absurd ((hf x).trans hk) hf'
  · rfl

theorem Distinct.modify (h : Distinct key xs) (hf : ∀ x ∈ xs, key x = k → key (f x) = key x) :
    Distinct key (Table.modify key k f xs) := by
  rw [Distinct, map_modify hf]
  exact h

/-- The change happens at one place of the list. -/
theorem Distinct.split (h : Distinct key xs) (hl : Table.lookup key k xs = some x) (f : α → α) :
    ∃ before after, xs = before ++ x :: after ∧
      Table.modify key k f xs = before ++ f x :: after := by
  obtain ⟨hx, hk⟩ := lookup_eq_some hl
  obtain ⟨before, after, rfl⟩ := List.append_of_mem hx
  refine ⟨before, after, rfl, ?_⟩
  have hother : ∀ y ∈ before ++ after, key y ≠ k := by
    intro y hy hyk
    have hnodup : ((before ++ x :: after).map key).Nodup := h
    rw [List.map_append, List.map_cons, List.nodup_middle, ← List.map_append] at hnodup
    exact (List.nodup_cons.mp hnodup).1 (List.mem_map.mpr ⟨y, hy, hyk.trans hk.symm⟩)
  have hsame : ∀ ys : List α, (∀ y ∈ ys, key y ≠ k) → ys.map (fun y => if key y = k then f y else y) = ys :=
    fun ys hys => (List.map_congr_left fun y hy => if_neg (hys y hy)).trans (List.map_id ys)
  rw [Table.modify, List.map_append, List.map_cons, if_pos hk,
    hsame before fun y hy => hother y (List.mem_append_left _ hy),
    hsame after fun y hy => hother y (List.mem_append_right _ hy)]

theorem remove_modify {j : K} (hf : ∀ x, key (f x) = key x) :
    remove key k (modify key j f xs) = modify key j f (remove key k xs) := by
  rw [remove, modify, List.filter_map, remove, modify]
  congr 1
  refine List.filter_congr ?_
  intro x _
  simp only [Function.comp_apply]
  split_ifs
  · rw [hf x]
  · rfl

theorem Distinct.remove (h : Distinct key xs) : Distinct key (Table.remove key k xs) :=
  h.sublist (List.filter_sublist.map key)

/-! ### Lookup after a change -/

theorem lookup_modify
    {j : K} (hf : ∀ x, key (f x) = key x) :
    lookup key j (modify key k f xs) =
      if j = k then (lookup key k xs).map f else lookup key j xs := by
  induction xs with
  | nil => simp [lookup, modify]
  | cons x xs ih =>
      simp only [lookup, modify, List.map_cons, List.find?_cons] at ih ⊢
      have hkey : key (if key x = k then f x else x) = key x := by
        split_ifs
        · exact hf x
        · rfl
      rw [hkey]
      by_cases hj : key x = j
      · subst hj
        by_cases hk : key x = k
        · simp [hk]
        · simp [hk]
      · by_cases hjk : j = k
        · subst hjk
          simpa [hj] using ih
        · simpa [hj, hjk] using ih

theorem lookup_remove
    {j : K} :
    lookup key j (remove key k xs) = if j = k then none else lookup key j xs := by
  induction xs with
  | nil => simp [lookup, remove]
  | cons x xs ih =>
      by_cases hk : key x = k
      · rw [show remove key k (x :: xs) = remove key k xs by simp [remove, hk], ih]
        split_ifs with hj
        · rfl
        · simp [lookup, hk, Ne.symm hj]
      · rw [show remove key k (x :: xs) = x :: remove key k xs by simp [remove, hk]]
        by_cases hj : key x = j
        · subst hj
          simp [lookup, hk]
        · simpa [lookup, hj] using ih

theorem lookup_concat
    {j : K} (hx : lookup key (key x) xs = none) :
    lookup key j (xs ++ [x]) = if j = key x then some x else lookup key j xs := by
  rw [lookup, List.find?_append]
  split_ifs with hj
  · subst hj
    have hnone : xs.find? (fun y => key y = key x) = none := hx
    simp [hnone]
  · have hne : key x ≠ j := Ne.symm hj
    simp [lookup, hne]

/-! ### The first record of a kind -/

/-- The first record of a kind is changed so that it is of the kind no more: the others of the
kind are left, and changing all of them in place comes to the same. -/
theorem Distinct.modify_first
    {p : α → Bool} (h : Distinct key xs) (hx : xs.find? p = some x) (hf : p (f x) = false) :
    xs.filter p = x :: (Table.modify key (key x) f xs).filter p ∧
      (Table.modify key (key x) f xs).map (fun y => if p y then f y else y) =
        xs.map fun y => if p y then f y else y := by
  induction xs with
  | nil => cases hx
  | cons y ys ih =>
      obtain ⟨hy, hrest⟩ := List.nodup_cons.mp (show (key y :: ys.map key).Nodup from h)
      have hcons : ∀ k, Table.modify key k f (y :: ys) =
          (if key y = k then f y else y) :: Table.modify key k f ys := fun _ => rfl
      by_cases hp : p y
      · rw [List.find?_cons_of_pos hp] at hx
        obtain rfl := Option.some.inj hx
        have hsame : Table.modify key (key y) f ys = ys := by
          refine (List.map_congr_left fun z hz => if_neg fun hk => ?_).trans (List.map_id ys)
          exact hy (List.mem_map.mpr ⟨z, hz, hk⟩)
        rw [hcons, if_pos rfl, hsame]
        refine ⟨?_, ?_⟩
        · rw [List.filter_cons_of_pos hp, List.filter_cons_of_neg (by simp [hf])]
        · rw [List.map_cons, List.map_cons, if_neg (by simp [hf]), if_pos hp]
      · rw [List.find?_cons_of_neg hp] at hx
        have hne : key y ≠ key x := fun hk =>
          hy (List.mem_map.mpr ⟨x, List.mem_of_find?_eq_some hx, hk.symm⟩)
        obtain ⟨hfilter, hmap⟩ := ih hrest hx
        rw [hcons, if_neg hne]
        refine ⟨?_, ?_⟩
        · rw [List.filter_cons_of_neg hp, List.filter_cons_of_neg hp]
          exact hfilter
        · rw [List.map_cons, List.map_cons, hmap]

/-! ### One change for each of several keys -/

/-- Change the records with the given keys one after another; `grant` tells, for the
number of the attempt, whether the change is made. -/
def modifyEach (key : α → K) (grant : Nat → Bool) (f : α → α) :
    Nat → List K → List α → List α
  | _, [], xs => xs
  | i, k :: ks, xs =>
      modifyEach key grant f (i + 1) ks (if grant i then modify key k f xs else xs)

/-- Each record is changed at most once, at its own attempt. -/
theorem modifyEach_eq
    {grant : Nat → Bool} {i : Nat} {ks : List K}
    (hf : ∀ x, key (f x) = key x) (hks : ks.Nodup) :
    modifyEach key grant f i ks xs =
      xs.map fun x => if key x ∈ ks ∧ grant (i + ks.idxOf (key x)) then f x else x := by
  induction ks generalizing i xs with
  | nil => simp [modifyEach]
  | cons k ks ih =>
      obtain ⟨hk, hrest⟩ := List.nodup_cons.mp hks
      have hfirst : (if grant i then modify key k f xs else xs) =
          xs.map fun x => if key x = k ∧ grant i then f x else x := by
        split_ifs with hg
        · simp [modify, hg]
        · simp [hg]
      rw [modifyEach, ih hrest, hfirst, List.map_map]
      refine List.map_congr_left fun x _ => ?_
      simp only [Function.comp_apply]
      rcases eq_or_ne (key x) k with rfl | hne
      · split_ifs with hg <;> simp_all
      · have hidx : (k :: ks).idxOf (key x) = ks.idxOf (key x) + 1 :=
          List.idxOf_cons_ne _ (Ne.symm hne)
        have hsum : i + (ks.idxOf (key x) + 1) = i + 1 + ks.idxOf (key x) := by omega
        simp [hne, hidx, hsum]

end Table
