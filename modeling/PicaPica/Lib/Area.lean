import Mathlib

/-!
# Memory areas written at an offset and shifted to the front

A buffer of a C program is a memory area together with a fill position: new
data is written behind the position (`recv`, `memcpy`), and consumed data is
removed by moving the rest to the front (`memmove`).  The area is a list of
cells, the operations below are the two memory primitives, and the lemmas say
what they do to the cells in front of the position.  What a primitive does outside
the area is not part of it: such cells are not written, and none are moved in.
-/

namespace Area

variable {β : Type*}

/-- The first cells become `xs`. -/
def overwrite : List β → List β → List β
  | [], m => m
  | _ :: _, [] => []
  | x :: xs, _ :: m => x :: overwrite xs m

/-- `memcpy(m + off, xs, length xs)`. -/
def writeAt (m : List β) (off : Nat) (xs : List β) : List β :=
  m.take off ++ overwrite xs (m.drop off)

/-- `memmove(m, m + src, n)`. -/
def moveDown (m : List β) (src n : Nat) : List β :=
  overwrite ((m.drop src).take n) m

@[simp] theorem length_overwrite {xs m : List β} : (overwrite xs m).length = m.length := by
  fun_induction overwrite xs m with
  | case1 m => rfl
  | case2 x xs => rfl
  | case3 x xs a m ih => simp [ih]

theorem overwrite_eq {xs m : List β} (h : xs.length ≤ m.length) :
    overwrite xs m = xs ++ m.drop xs.length := by
  fun_induction overwrite xs m with
  | case1 m => rfl
  | case2 x xs => simp at h
  | case3 x xs a m ih =>
      rw [ih (Nat.le_of_succ_le_succ h)]
      rfl

@[simp] theorem length_writeAt
    {m xs : List β} {off : Nat} :
    (writeAt m off xs).length = m.length := by
  simp only [writeAt, List.length_append, List.length_take, length_overwrite, List.length_drop]
  omega

/-- Writing behind the position appends to the cells in front of it. -/
theorem take_writeAt
    {m : List β} {off : Nat} (xs : List β)
    (h : off + xs.length ≤ m.length) :
    (writeAt m off xs).take (off + xs.length) = m.take off ++ xs := by
  have hlen : (m.take off ++ xs).length = off + xs.length := by
    rw [List.length_append, List.length_take]
    omega
  have hfits : xs.length ≤ (m.drop off).length := by
    rw [List.length_drop]
    omega
  rw [writeAt, overwrite_eq hfits, ← List.append_assoc, ← hlen, List.take_left]

@[simp] theorem length_moveDown
    {m : List β} {src n : Nat} :
    (moveDown m src n).length = m.length :=
  length_overwrite

theorem moveDown_eq
    {m : List β} {src n : Nat}
    (h : src + n ≤ m.length) :
    moveDown m src n = (m.drop src).take n ++ m.drop n := by
  have hlen : ((m.drop src).take n).length = n := by
    rw [List.length_take, List.length_drop]
    omega
  rw [moveDown, overwrite_eq (by omega), hlen]

/-- Moving `n` cells down makes them the first `n` cells. -/
theorem take_moveDown
    {m : List β} {src n : Nat}
    (h : src + n ≤ m.length) :
    (moveDown m src n).take n = (m.take (src + n)).drop src := by
  have hlen : ((m.drop src).take n).length = n := by
    simp only [List.length_take, List.length_drop]
    omega
  rw [moveDown_eq h, List.take_append_of_le_length (by omega),
    List.take_take, Nat.min_self, List.drop_take]
  congr 1
  omega

/-- Cells behind the target range of a move keep their contents. -/
theorem drop_moveDown
    {m : List β} {src n k : Nat}
    (hk : n ≤ k) (h : src + n ≤ m.length) :
    (moveDown m src n).drop k = m.drop k := by
  have hlen : ((m.drop src).take n).length = n := by
    simp only [List.length_take, List.length_drop]
    omega
  rw [moveDown_eq h, List.drop_append, List.drop_eq_nil_of_le (by omega), hlen,
    List.nil_append, List.drop_drop]
  congr 1
  omega

end Area
