import PicaPica.Lib.Run

/-!
# Machines that go through stages

Every state has a stage, and a step keeps the stage or goes to the next one, which it does for
a reason.  A run that has gone through some stages contains the events that did it, one for each
stage and in the order of the stages (`run_climbs`).
-/

namespace Machine

variable {S E : Type*} {step : S → E → Option S} {Inv : S → Prop} {stage : S → Nat}
  {Reason : Nat → E → Prop} {s t : S} {es : List E}

/-- No stage is left out, and none comes back. -/
theorem run_climbs
    (hstep : ∀ s e t, Inv s → step s e = some t →
      Inv t ∧ (stage t = stage s ∨ stage t = stage s + 1 ∧ Reason (stage s) e))
    (h0 : Inv s) (hrun : run step s es = some t) :
    stage s ≤ stage t ∧ ∃ fs, fs.Sublist es ∧
      List.Forall₂ Reason (List.range' (stage s) (stage t - stage s)) fs := by
  induction es generalizing s with
  | nil =>
      simp only [run, Option.some.injEq] at hrun
      subst hrun
      refine ⟨Nat.le_refl _, [], .slnil, ?_⟩
      rw [Nat.sub_self]
      exact .nil
  | cons e es ih =>
      obtain ⟨u, hu, hrest⟩ := run_cons hrun
      obtain ⟨hinv, hnext⟩ := hstep s e u h0 hu
      obtain ⟨hle, fs, hsub, hfs⟩ := ih hinv hrest
      rcases hnext with hsame | ⟨hnext, hreason⟩
      · rw [hsame] at hle hfs
        exact ⟨hle, fs, hsub.cons e, hfs⟩
      · rw [hnext] at hle hfs
        refine ⟨by omega, e :: fs, hsub.cons_cons e, ?_⟩
        have hlen : stage t - stage s = (stage t - (stage s + 1)) + 1 := by omega
        rw [hlen, List.range'_succ]
        exact .cons hreason hfs

end Machine
