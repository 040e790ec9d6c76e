import PicaPica.Lib.PointerTree

/-!
# Chains of linked records

Rules for chains that are linked by a single field: a record is put behind the first
one, a record is taken out by a loop that looks for it, and the records are visited one
after another.
-/

namespace PointerTree

variable {P : Type*}

/-- The records that a loop over the field visits. -/
def follow (next : P → Option P) : Nat → Option P → List P
  | 0, _ => []
  | _ + 1, none => []
  | fuel + 1, some p => p :: follow next fuel (next p)

section Chain

variable {next : P → Option P} {o : Option P} {p x : P} {ps : List P} {fuel : Nat}

theorem Chain.follow_eq (h : Chain next o ps) (hfuel : ps.length ≤ fuel) :
    follow next fuel o = ps := by
  induction ps generalizing o fuel with
  | nil =>
      simp only [Chain] at h
      subst h
      cases fuel with
      | zero => rfl
      | succ fuel => rfl
  | cons q qs ih =>
      obtain ⟨rfl, hrest⟩ := h
      simp only [List.length_cons] at hfuel
      obtain ⟨fuel, rfl⟩ : ∃ n, fuel = n + 1 := ⟨fuel - 1, by omega⟩
      rw [follow, ih hrest (by omega)]

/-- A chain visits one list of records. -/
theorem Chain.unique {qs : List P} (h : Chain next o ps) (h' : Chain next o qs) : ps = qs := by
  rw [← h.follow_eq (Nat.le_max_left ps.length qs.length),
    h'.follow_eq (Nat.le_max_right ps.length qs.length)]

variable [DecidableEq P]

/-- A record is put behind the first one. -/
theorem Chain.insert (h : Chain next (next p) ps) (hp : p ∉ ps) (hx : x ∉ p :: ps) :
    Chain (Function.update (Function.update next x (next p)) p (some x))
      (Function.update (Function.update next x (next p)) p (some x) p) (x :: ps) := by
  simp only [List.mem_cons, not_or] at hx
  refine ⟨Function.update_self _ _ _, ?_⟩
  rw [Function.update_of_ne hx.1, Function.update_self]
  refine h.congr fun q hq => ?_
  rw [Function.update_of_ne, Function.update_of_ne]
  · rintro rfl
    exact hx.2 hq
  · rintro rfl
    exact hp hq

/-- The loop that takes the record `x` out of the chain behind `s`. -/
def unlinkFrom (next : P → Option P) (x : P) : Nat → P → Option (P → Option P)
  | 0, _ => none
  | fuel + 1, s =>
      if next s = some x then some (Function.update next s (next x))
      else
        match next s with
        | some s' => unlinkFrom next x fuel s'
        | none => some next

theorem unlinkFrom_of_not_mem
    (hchain : Chain next (next p) ps) (hx : x ∉ ps) (hfuel : ps.length < fuel) :
    unlinkFrom next x fuel p = some next := by
  induction ps generalizing p fuel with
  | nil =>
      obtain ⟨fuel, rfl⟩ : ∃ n, fuel = n + 1 := ⟨fuel - 1, by omega⟩
      simp only [Chain] at hchain
      simp [unlinkFrom, hchain]
  | cons q qs ih =>
      obtain ⟨fuel, rfl⟩ : ∃ n, fuel = n + 1 := ⟨fuel - 1, by omega⟩
      obtain ⟨hq, hrest⟩ := hchain
      simp only [List.mem_cons, not_or] at hx
      simp only [List.length_cons] at hfuel
      rw [unlinkFrom, hq, if_neg (by simpa using Ne.symm hx.1)]
      exact ih hrest hx.2 (by omega)

/-- **The loop takes a record out of the chain it is in.** -/
theorem unlinkFrom_of_mem
    (hchain : Chain next (next p) ps) (hnd : (p :: ps).Nodup) (hx : x ∈ ps)
    (hfuel : ps.length < fuel) :
    ∃ y ∈ p :: ps, y ≠ x ∧
      unlinkFrom next x fuel p = some (Function.update next y (next x)) ∧
      Chain (Function.update next y (next x)) (Function.update next y (next x) p)
        (ps.erase x) := by
  induction ps generalizing p fuel with
  | nil => simp at hx
  | cons q qs ih =>
      obtain ⟨fuel, rfl⟩ : ∃ n, fuel = n + 1 := ⟨fuel - 1, by omega⟩
      obtain ⟨hq, hrest⟩ := hchain
      simp only [List.length_cons] at hfuel
      obtain ⟨hpq, hqnd⟩ := List.nodup_cons.mp hnd
      rw [unlinkFrom, hq]
      rcases eq_or_ne q x with rfl | hne
      · refine ⟨p, by simp, ?_, by simp, ?_⟩
        · rintro rfl
          simp at hpq
        · simp only [Function.update_self, List.erase_cons_head]
          refine hrest.congr ?_
          intro z hz
          refine Function.update_of_ne ?_ _ _
          rintro rfl
          simp [hz] at hpq
      · have hmem : x ∈ qs := (List.mem_cons.mp hx).resolve_left (Ne.symm hne)
        obtain ⟨y, hy, hyx, hun, hch⟩ := ih hrest hqnd hmem (show qs.length < fuel by omega)
        refine ⟨y, List.mem_cons_of_mem p hy, hyx, ?_, ?_⟩
        · rw [if_neg (by simpa using hne)]
          exact hun
        · have hpy : p ≠ y := by
            rintro rfl
            exact hpq hy
          rw [List.erase_cons_tail (by simpa using hne)]
          refine ⟨?_, hch⟩
          rw [Function.update_of_ne hpy, hq]

end Chain

end PointerTree
