import Mathlib

/-!
# Base64

The encoding of bytes with the letters `A`..`Z`, `a`..`z`, `0`..`9`, `+` and `/`, and a decoder that
passes over all other characters.  The decoder inverts the encoder (`decode_encode`), also when
characters that are no digits, such as line breaks, are put in between (`decode_of_digits`).
-/

namespace Base64

/-- The digits in the order of their values. -/
def alphabet : List Char :=
  "ABCDEFGHIJKLMNOPQRSTUVWXYZabcdefghijklmnopqrstuvwxyz0123456789+/".toList

/-- The digit with a value. -/
def digit (v : Nat) : Char :=
  alphabet.getD v '='

/-- The value of a digit. -/
def value (c : Char) : Option Nat :=
  if c ∈ alphabet then some (alphabet.idxOf c) else none

def encode : List UInt8 → List Char
  | [] => []
  | [a] => [digit (a.toNat / 4), digit (a.toNat % 4 * 16), '=', '=']
  | [a, b] =>
      [digit (a.toNat / 4), digit (a.toNat % 4 * 16 + b.toNat / 16), digit (b.toNat % 16 * 4), '=']
  | a :: b :: c :: xs =>
      digit (a.toNat / 4) :: digit (a.toNat % 4 * 16 + b.toNat / 16) ::
        digit (b.toNat % 16 * 4 + c.toNat / 64) :: digit (c.toNat % 64) :: encode xs

/-- The decoder with `n` bits of value `buf` that have not made a byte yet. -/
def decodeFrom (buf n : Nat) : List Char → List UInt8
  | [] => []
  | c :: cs =>
      match value c with
      | none => decodeFrom buf n cs
      | some v =>
          if n < 2 then decodeFrom (buf * 64 + v) (n + 6) cs
          else
            UInt8.ofNat ((buf * 64 + v) / 2 ^ (n - 2)) ::
              decodeFrom ((buf * 64 + v) % 2 ^ (n - 2)) (n - 2) cs

def decode (cs : List Char) : List UInt8 :=
  decodeFrom 0 0 cs

/-- The digits of a text. -/
def digits (cs : List Char) : List Char :=
  cs.filter fun c => (value c).isSome

variable {buf n v : Nat} {c : Char} {cs ds : List Char} {xs : List UInt8}

theorem value_digit (h : v < 64) : value (digit v) = some v := by
  have hall : ∀ v : Fin 64, value (digit v) = some v.val := by decide +kernel
  exact hall ⟨v, h⟩

theorem value_pad : value '=' = none := by decide +kernel

theorem decodeFrom_none (h : value c = none) :
    decodeFrom buf n (c :: cs) = decodeFrom buf n cs := by
  rw [decodeFrom, h]

theorem decodeFrom_few (hv : v < 64) (hn : n < 2) :
    decodeFrom buf n (digit v :: cs) = decodeFrom (buf * 64 + v) (n + 6) cs := by
  rw [decodeFrom, value_digit hv]
  exact if_pos hn

theorem decodeFrom_byte (hv : v < 64) (hn : 2 ≤ n) :
    decodeFrom buf n (digit v :: cs) = UInt8.ofNat ((buf * 64 + v) / 2 ^ (n - 2)) ::
      decodeFrom ((buf * 64 + v) % 2 ^ (n - 2)) (n - 2) cs := by
  rw [decodeFrom, value_digit hv]
  exact if_neg (Nat.not_lt.mpr hn)

/-- Only the digits count. -/
theorem decodeFrom_digits : decodeFrom buf n cs = decodeFrom buf n (digits cs) := by
  induction cs generalizing buf n with
  | nil => rfl
  | cons c cs ih =>
      cases hc : value c with
      | none =>
          rw [decodeFrom_none hc, ih, digits, digits, List.filter_cons_of_neg (by simp [hc])]
      | some v =>
          have hcons : digits (c :: cs) = c :: digits cs :=
            List.filter_cons_of_pos (by simp [hc])
          rw [hcons, decodeFrom, decodeFrom, hc]
          dsimp only
          rw [ih, ih]

/-- Two digits make the first byte of a group. -/
theorem decode_first {a : UInt8} {r : Nat} (hr : r < 16) :
    decodeFrom 0 0 (digit (a.toNat / 4) :: digit (a.toNat % 4 * 16 + r) :: cs) =
      a :: decodeFrom r 4 cs := by
  have ha := a.toNat_lt
  rw [decodeFrom_few (by omega) (by decide), decodeFrom_byte (by omega) (by decide)]
  have hbyte : (((0 * 64 + a.toNat / 4) * 64) + (a.toNat % 4 * 16 + r)) / 2 ^ (0 + 6 - 2) =
      a.toNat := by
    omega
  have hrest : (((0 * 64 + a.toNat / 4) * 64) + (a.toNat % 4 * 16 + r)) % 2 ^ (0 + 6 - 2) = r := by
    omega
  rw [hbyte, hrest, UInt8.ofNat_toNat]

theorem decode_second {b : UInt8} {r : Nat} (hr : r < 4) :
    decodeFrom (b.toNat / 16) 4 (digit (b.toNat % 16 * 4 + r) :: cs) = b :: decodeFrom r 2 cs := by
  have hb := b.toNat_lt
  rw [decodeFrom_byte (by omega) (by decide)]
  have hbyte : (b.toNat / 16 * 64 + (b.toNat % 16 * 4 + r)) / 2 ^ (4 - 2) = b.toNat := by omega
  have hrest : (b.toNat / 16 * 64 + (b.toNat % 16 * 4 + r)) % 2 ^ (4 - 2) = r := by omega
  rw [hbyte, hrest, UInt8.ofNat_toNat]

theorem decode_third {c : UInt8} :
    decodeFrom (c.toNat / 64) 2 (digit (c.toNat % 64) :: cs) = c :: decodeFrom 0 0 cs := by
  have hc := c.toNat_lt
  rw [decodeFrom_byte (by omega) (by decide)]
  have hbyte : (c.toNat / 64 * 64 + c.toNat % 64) / 2 ^ (2 - 2) = c.toNat := by omega
  have hrest : (c.toNat / 64 * 64 + c.toNat % 64) % 2 ^ (2 - 2) = 0 := by omega
  rw [hbyte, hrest, UInt8.ofNat_toNat]

/-- **The decoder inverts the encoder.** -/
theorem decode_encode : decode (encode xs) = xs := by
  rw [decode]
  induction xs using encode.induct with
  | case1 => rfl
  | case2 a =>
      have hfirst := @decode_first ['=', '='] a 0 (by decide)
      rw [Nat.add_zero] at hfirst
      rw [encode, hfirst, decodeFrom_none value_pad, decodeFrom_none value_pad, decodeFrom]
  | case3 a b =>
      have hb := b.toNat_lt
      have hsecond := @decode_second ['='] b 0 (by decide)
      rw [Nat.add_zero] at hsecond
      rw [encode, decode_first (by omega), hsecond, decodeFrom_none value_pad, decodeFrom]
  | case4 a b c xs ih =>
      have hb := b.toNat_lt
      have hc := c.toNat_lt
      rw [encode, decode_first (by omega), decode_second (by omega), decode_third, ih]

/-- A text with the digits of an encoding. -/
theorem decode_of_digits (h : digits cs = digits (encode xs)) : decode cs = xs := by
  rw [decode, decodeFrom_digits, h, ← decodeFrom_digits]
  exact decode_encode

theorem digits_append : digits (cs ++ ds) = digits cs ++ digits ds :=
  List.filter_append ..

/-- The characters of an encoding are digits or padding. -/
theorem mem_encode (h : c ∈ encode xs) : c ∈ alphabet ∨ c = '=' := by
  have hdigit : ∀ v, digit v ∈ alphabet ∨ digit v = '=' := by
    intro v
    rw [digit, List.getD_eq_getElem?_getD]
    cases hv : alphabet[v]? with
    | none => exact .inr rfl
    | some c => exact .inl (List.mem_of_getElem? hv)
  induction xs using encode.induct with
  | case1 => cases h
  | case2 a =>
      simp only [encode, List.mem_cons, List.not_mem_nil, or_false] at h
      rcases h with rfl | rfl | rfl | rfl <;> first | exact hdigit _ | exact .inr rfl
  | case3 a b =>
      simp only [encode, List.mem_cons, List.not_mem_nil, or_false] at h
      rcases h with rfl | rfl | rfl | rfl <;> first | exact hdigit _ | exact .inr rfl
  | case4 a b d xs ih =>
      simp only [encode, List.mem_cons] at h
      rcases h with rfl | rfl | rfl | rfl | h <;> first | exact hdigit _ | exact ih h

end Base64
