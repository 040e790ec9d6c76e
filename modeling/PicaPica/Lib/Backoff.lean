import Mathlib

/-!
# Waiting longer after each failure

What fails is tried again, and each failure in a row doubles the wait up to a bound.  There is
no timer for each of them: one clock ticks, and a wait of `d` means that the attempt is made
at the ticks that `d` divides.  When the bound is a power of two it is a multiple of every
wait, so at its multiples all of them are over at once.
-/

namespace Backoff

/-- The wait after one more failure; there is none before the first one. -/
def next (bound : Nat) : Option Nat → Nat
  | none => min 1 bound
  | some d => min (d * 2) bound

/-- The wait after so many failures in a row. -/
def wait (bound : Nat) : Nat → Option Nat
  | 0 => none
  | n + 1 => some (min (2 ^ n) bound)

/-- The attempt is made at this tick. -/
def due (t : Nat) (d : Option Nat) : Bool :=
  d.all fun d => t % d == 0

variable {bound t n k : Nat}

theorem next_wait : some (next bound (wait bound n)) = wait bound (n + 1) := by
  cases n with
  | zero => rfl
  | succ n =>
      simp only [wait, next, Option.some.injEq]
      rw [pow_succ]
      omega

theorem wait_dvd {d : Nat} (hd : d ∈ wait (2 ^ k) n) : d ∣ 2 ^ k := by
  cases n with
  | zero => cases hd
  | succ n =>
      cases hd
      rcases Nat.le_total n k with hle | hle
      · rw [Nat.min_eq_left (Nat.pow_le_pow_right Nat.two_pos hle)]
        exact Nat.pow_dvd_pow 2 hle
      · rw [Nat.min_eq_right (Nat.pow_le_pow_right Nat.two_pos hle)]

/-- At the multiples of the bound every wait is over. -/
theorem due_wait (ht : 2 ^ k ∣ t) : due t (wait (2 ^ k) n) = true := by
  rw [due, Option.all_eq_true]
  intro d hd
  exact beq_iff_eq.mpr (Nat.mod_eq_zero_of_dvd ((wait_dvd hd).trans ht))

/-- Among as many ticks in a row as the bound is one at which every wait is over. -/
theorem exists_dvd (hbound : 0 < bound) (t : Nat) : ∃ i < bound, bound ∣ t + i := by
  have hr : t % bound < bound := Nat.mod_lt t hbound
  have ht : bound * (t / bound) + t % bound = t := Nat.div_add_mod t bound
  rcases Nat.eq_zero_or_pos (t % bound) with hzero | hpos
  · exact ⟨0, hbound, Nat.dvd_of_mod_eq_zero hzero⟩
  · refine ⟨bound - t % bound, Nat.sub_lt hbound hpos, t / bound + 1, ?_⟩
    rw [Nat.mul_succ]
    omega

end Backoff
