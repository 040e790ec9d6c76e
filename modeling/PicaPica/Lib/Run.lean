import Mathlib

/-!
# Runs of a state machine

A machine is a step function that may have no successor (the process stopped or
its behaviour is undefined).  `run` executes a list of events, `Meets` says that
a condition holds at every step of the execution, and `run_invariant` is the
induction rule: what every step under the condition preserves holds in every
state that is reached.

What may happen to a state can also be given as transitions labelled with events;
`Trace` follows them along a list of events that are still to come.

A step that is itself a sequence of small changes is described by a relation
between the states before and after one change; `changes_invariant` is the
induction rule for it, and `bind_eq_ok` takes the computation apart.  `Spares` says that a
computation does not fail in certain ways, and `Spares.bind` puts computations together.
-/

namespace Machine

variable {S E : Type*} (step : S → E → Option S)

/-- Execute the events one after another. -/
def run : S → List E → Option S
  | s, [] => some s
  | s, e :: es => (step s e).bind fun t => run t es

/-- Every step of the execution meets the condition `ok`, a condition on the
event and on the state before it. -/
def Meets (ok : S → E → Prop) : S → List E → Prop
  | _, [] => True
  | s, e :: es => ok s e ∧ ∀ t, step s e = some t → Meets ok t es

/-- A condition that can be evaluated can be evaluated along an execution. -/
def decidableMeets (ok : S → E → Prop) [∀ s e, Decidable (ok s e)] :
    ∀ s es, Decidable (Meets step ok s es)
  | _, [] => .isTrue trivial
  | s, e :: es =>
      match h : step s e with
      | none => decidable_of_iff (ok s e) (by simp [Meets, h])
      | some t =>
          have := decidableMeets ok t es
          decidable_of_iff (ok s e ∧ Meets step ok t es) (by simp [Meets, h])

instance (ok : S → E → Prop) [∀ s e, Decidable (ok s e)] (s : S) (es : List E) :
    Decidable (Meets step ok s es) :=
  decidableMeets step ok s es

variable {step}

/-- A condition on the events alone. -/
theorem meets_of_forall
    {P : E → Prop} {s : S} {es : List E} (h : ∀ e ∈ es, P e) :
    Meets step (fun _ e => P e) s es := by
  induction es generalizing s with
  | nil => trivial
  | cons e es ih =>
      have hrest : ∀ d ∈ es, P d := fun d hd => h d (List.mem_cons_of_mem e hd)
      exact ⟨h e List.mem_cons_self, fun _ _ => ih hrest⟩

theorem meets_true {s : S} {es : List E} : Meets step (fun _ _ => True) s es :=
  meets_of_forall fun _ _ => trivial

theorem run_cons
    {s u : S} {e : E} {es : List E}
    (h : run step s (e :: es) = some u) :
    ∃ t, step s e = some t ∧ run step t es = some u :=
  Option.bind_eq_some_iff.mp h

theorem run_append
    {s u : S} {es fs : List E}
    (h : run step s (es ++ fs) = some u) :
    ∃ t, run step s es = some t ∧ run step t fs = some u := by
  induction es generalizing s with
  | nil => exact ⟨s, rfl, h⟩
  | cons e es ih =>
      obtain ⟨t, ht, hrest⟩ := run_cons h
      obtain ⟨v, hv, hu⟩ := ih hrest
      exact ⟨v, by simp [run, ht, hv], hu⟩

theorem run_after
    {s t : S} {es fs : List E}
    (h : run step s es = some t) :
    run step s (es ++ fs) = run step t fs := by
  induction es generalizing s with
  | nil =>
      cases h
      rfl
  | cons e es ih =>
      obtain ⟨u, hu, hrest⟩ := run_cons h
      rw [List.cons_append, run, hu, Option.bind_some, ih hrest]

theorem Meets.of_append
    {ok : S → E → Prop} {s : S} {es fs : List E}
    (h : Meets step ok s (es ++ fs)) :
    Meets step ok s es := by
  induction es generalizing s with
  | nil => trivial
  | cons e es ih => exact ⟨h.1, fun t ht => ih (h.2 t ht)⟩

/-- What holds at the step after a run. -/
theorem Meets.next
    {ok : S → E → Prop} {s t : S} {e : E} {es : List E}
    (h : Meets step ok s (es ++ [e])) (hrun : run step s es = some t) :
    ok t e := by
  induction es generalizing s with
  | nil =>
      simp only [run, Option.some.injEq] at hrun
      exact hrun ▸ h.1
  | cons d es ih =>
      obtain ⟨u, hu, hrest⟩ := run_cons hrun
      exact ih (h.2 u hu) hrest

theorem run_concat
    {s t u : S} {e : E} {es : List E}
    (hrun : run step s es = some t) (hstep : step t e = some u) :
    run step s (es ++ [e]) = some u := by
  induction es generalizing s with
  | nil =>
      simp only [run, Option.some.injEq] at hrun
      simp [run, hrun, hstep]
  | cons d es ih =>
      obtain ⟨v, hv, hrest⟩ := run_cons hrun
      simp [run, hv, ih hrest]

/-- **Invariant rule.** -/
theorem run_invariant
    {ok : S → E → Prop} {Inv : S → Prop}
    (hstep : ∀ s e t, Inv s → ok s e → step s e = some t → Inv t)
    {s t : S} {es : List E}
    (h0 : Inv s) (hok : Meets step ok s es) (hrun : run step s es = some t) :
    Inv t := by
  induction es generalizing s with
  | nil =>
      simp only [run, Option.some.injEq] at hrun
      exact hrun ▸ h0
  | cons e es ih =>
      obtain ⟨u, hu, hrest⟩ := run_cons hrun
      exact ih (hstep s e u h0 hok.1 hu) (hok.2 u hu) hrest

/-- **Progress rule.**  When every step under the condition has a successor that
keeps the invariant, the execution reaches its end. -/
theorem run_progress
    {ok : S → E → Prop} {Inv : S → Prop}
    (hstep : ∀ s e, Inv s → ok s e → ∃ t, step s e = some t ∧ Inv t)
    {s : S} {es : List E}
    (h0 : Inv s) (hok : Meets step ok s es) :
    ∃ t, run step s es = some t ∧ Inv t := by
  induction es generalizing s with
  | nil => exact ⟨s, rfl, h0⟩
  | cons e es ih =>
      obtain ⟨u, hu, hinv⟩ := hstep s e h0 hok.1
      obtain ⟨t, ht, hend⟩ := ih hinv (hok.2 u hu)
      exact ⟨t, by simp [run, hu, ht], hend⟩

/-- **Exact condition.**  When a step keeps the property exactly under the condition, the
property holds all along a run exactly when every step meets the condition. -/
theorem meets_iff_prefixes
    {ok : S → E → Prop} {P : S → Prop}
    (hstep : ∀ s e t, P s → step s e = some t → (P t ↔ ok s e))
    {s t : S} {es : List E} (h0 : P s) (hrun : run step s es = some t) :
    Meets step ok s es ↔
      ∀ before after u, es = before ++ after → run step s before = some u → P u := by
  induction es generalizing s with
  | nil =>
      refine ⟨?_, fun _ => trivial⟩
      intro _ before after u hes hu
      obtain ⟨rfl, -⟩ := List.append_eq_nil_iff.mp hes.symm
      cases hu
      exact h0
  | cons e es ih =>
      obtain ⟨v, hv, hrest⟩ := run_cons hrun
      have hfirst := hstep s e v h0 hv
      constructor
      · rintro ⟨hok, hmeets⟩ before after u hes hu
        cases before with
        | nil =>
            cases hu
            exact h0
        | cons d before =>
            obtain ⟨rfl, rfl⟩ := List.cons.inj hes
            simp only [run, hv, Option.bind_some] at hu
            exact (ih (hfirst.mpr hok) hrest).mp (hmeets v hv) before after u rfl hu
      · intro hall
        have hP : P v := hall [e] es v rfl (by simp [run, hv])
        refine ⟨hfirst.mp hP, ?_⟩
        intro t' ht'
        cases hv.symm.trans ht'
        refine (ih hP hrest).mpr ?_
        intro before after u hes hu
        exact hall (e :: before) after u (by rw [hes]; rfl) (by simpa [run, hv] using hu)

/-- **First cause.**  What does not hold at first and holds at the end was brought
about by one of the steps. -/
theorem run_cause
    {P : S → Prop} {Cause : S → E → Prop} {ok : S → E → Prop} {Inv : S → Prop}
    (hinv : ∀ s e t, Inv s → ok s e → step s e = some t → Inv t)
    (hcause : ∀ s e t, Inv s → ok s e → step s e = some t → P t → P s ∨ Cause s e)
    {s t : S} {es : List E}
    (h0 : Inv s) (hok : Meets step ok s es) (hrun : run step s es = some t) (ht : P t) :
    P s ∨ ∃ before e after u, es = before ++ e :: after ∧
      run step s before = some u ∧ Cause u e := by
  induction es generalizing s with
  | nil =>
      simp only [run, Option.some.injEq] at hrun
      exact .inl (hrun ▸ ht)
  | cons e es ih =>
      obtain ⟨u, hu, hrest⟩ := run_cons hrun
      rcases ih (hinv s e u h0 hok.1 hu) (hok.2 u hu) hrest with hP | ⟨bs, f, as, v, rfl, hv, hc⟩
      · rcases hcause s e u h0 hok.1 hu hP with hP | hc
        · exact .inl hP
        · exact .inr ⟨[], e, es, s, rfl, rfl, hc⟩
      · exact .inr ⟨e :: bs, f, as, v, rfl, by simp [run, hu, hv], hc⟩

/-- A property of the state at the end can be evaluated. -/
theorem run_ends
    {P : S → Prop} [DecidablePred P] {s : S} {es : List E}
    (h : (run step s es).any (fun t => decide (P t)) = true) :
    ∃ t, run step s es = some t ∧ P t := by
  obtain ⟨t, hrun, ht⟩ := (Option.any_eq_true _ _).mp h
  exact ⟨t, hrun, of_decide_eq_true ht⟩

/-- The transitions `R` for a sequence of events, from the first state to the last. -/
inductive Trace (R : S → E → S → Prop) : S → List E → S → Prop
  | nil (s : S) : Trace R s [] s
  | cons {s t u : S} {e : E} {es : List E} (h : R s e t) (hrest : Trace R t es u) :
      Trace R s (e :: es) u

theorem Trace.concat
    {R : S → E → S → Prop} {s t u : S} {e : E} {es : List E}
    (h : Trace R s es t) (hlast : R t e u) :
    Trace R s (es ++ [e]) u := by
  induction h with
  | nil s => exact .cons hlast (.nil u)
  | cons hfirst _ ih => exact .cons hfirst (ih hlast)

/-- **Invariant rule for transitions.** -/
theorem Trace.invariant
    {R : S → E → S → Prop} {Inv : S → Prop} {s t : S} {es : List E}
    (h : Trace R s es t) (hstep : ∀ s e t, e ∈ es → Inv s → R s e t → Inv t) (h0 : Inv s) :
    Inv t := by
  induction h with
  | nil s => exact h0
  | cons hfirst _ ih =>
      refine ih (fun s e t he => hstep s e t (List.mem_cons_of_mem _ he)) ?_
      exact hstep _ _ _ List.mem_cons_self h0 hfirst

/-- Successful computations one after the other. -/
theorem bind_eq_ok
    {α β ε : Type} {x : Except ε α} {f : α → Except ε β} {b : β} :
    (x >>= f) = .ok b ↔ ∃ a, x = .ok a ∧ f a = .ok b := by
  cases x with
  | error e => simp [bind, Except.bind]
  | ok a => simp [bind, Except.bind]

theorem map_eq_ok
    {α β ε : Type} {x : Except ε α} {f : α → β} {b : β} :
    x.map f = .ok b ↔ ∃ a, x = .ok a ∧ f a = b := by
  cases x with
  | error e => simp [Except.map]
  | ok a => simp [Except.map]

/-- A computation does not fail with an error of the kind `bad`. -/
def Spares {α ε : Type} (bad : ε → Prop) (x : Except ε α) : Prop :=
  ∀ e, x = .error e → ¬bad e

section Spares

variable {α β ε : Type} {bad : ε → Prop}

theorem spares_ok (a : α) : Spares bad (.ok a : Except ε α) :=
  nofun

theorem spares_error {e : ε} (h : ¬bad e) : Spares bad (.error e : Except ε α) := by
  intro d hd
  cases hd
  exact h

theorem Spares.bind
    {x : Except ε α} {f : α → Except ε β}
    (hx : Spares bad x) (hf : ∀ a, x = .ok a → Spares bad (f a)) :
    Spares bad (x >>= f) := by
  cases x with
  | error e => exact spares_error (hx e rfl)
  | ok a => exact hf a rfl

end Spares

/-- **Invariant rule for changes.** -/
theorem changes_invariant
    {R : S → S → Prop} {Inv : S → Prop}
    (hstep : ∀ s t, Inv s → R s t → Inv t)
    {s t : S}
    (h0 : Inv s) (h : Relation.ReflTransGen R s t) :
    Inv t := by
  induction h with
  | refl => exact h0
  | tail _ hlast ih => exact hstep _ _ ih hlast

end Machine
