import Mathlib

/-!
# Protocol constants, identifiers and raw bytes

The numbers of `PICA_proto.h`, the 28-byte user identifier of `PICA_id.h`, and
the byte-level reads and writes the handlers perform.  Machine words are stored
least significant byte first, as the protocol and the usual hosts do.
-/

namespace PicaPica

/-- A message as it stands in a buffer. -/
abbrev Frame := List UInt8

/-- `UINT_MAX` of a 32-bit `unsigned int`. -/
def uintMax : Nat := 4294967295

/-- Number of values of an `unsigned int`. -/
def uintMod : Nat := 4294967296

/-- `a + b` on `unsigned int`, for values `a` and `b` of that type. -/
def uadd (a b : Nat) : Nat :=
  if a + b < uintMod then a + b else a + b - uintMod

/-- `a - b` on `unsigned int`, for values `a` and `b` of that type. -/
def usub (a b : Nat) : Nat :=
  if b ≤ a then a - b else a + uintMod - b

theorem uadd_eq {a b : Nat} (h : a + b < uintMod) : uadd a b = a + b :=
  if_pos h

theorem uadd_lt {a b : Nat} (ha : a < uintMod) (hb : b < uintMod) : uadd a b < uintMod := by
  rw [uadd]
  split_ifs <;> omega

theorem uadd_ne {a b : Nat} (hpos : 0 < b) (hlt : b < uintMod) : uadd a b ≠ a := by
  rw [uadd]
  split_ifs <;> omega

theorem usub_eq {a b : Nat} (h : b ≤ a) : usub a b = a - b :=
  if_pos h

/-- `PICA_ID_SIZE`, the length of a SHA-224 digest. -/
def idSize : Nat := 28

/-- User hash: the digest of a certificate. -/
def Id : Type :=
  { l : List UInt8 // l.length = idSize }
deriving DecidableEq

/-- `DEFAULT_BUF_SIZE`. -/
def defaultBufSize : Nat := 4096

namespace Proto

def INITREQ : Nat := 0xCA
def INITRESPOK : Nat := 0x01
def VERDIFFER : Nat := 0x02
def CONNREQOUTG : Nat := 0x03
def CONNREQINC : Nat := 0x04
def NOTFOUND : Nat := 0x05
def CONNALLOW : Nat := 0x06
def FOUND : Nat := 0x07
def CONNDENY : Nat := 0x08
def CLNODELISTREQ : Nat := 0x09
def CLNODELIST : Nat := 0x0A
def CONNID : Nat := 0x20
def C2CCONNREQ : Nat := 0xCC
def DIRECTC2C_ADDRLIST : Nat := 0x0B
def DIRECTC2C_FAILED : Nat := 0x0C
def DIRECTC2C_SWITCH : Nat := 0x0D
def MULTILOGIN : Nat := 0x0E
def MSGUTF8 : Nat := 0x30
def MSGOK : Nat := 0x40
def SENDFILEREQUEST : Nat := 0x50
def ACCEPTEDFILE : Nat := 0x51
def DENIEDFILE : Nat := 0x52
def FILEFRAGMENT : Nat := 0x53
def FILECONTROL : Nat := 0x54
def PINGREQ : Nat := 0x68
def PINGREP : Nat := 0x69
def NODECONNREQ : Nat := 0xCB
def NEWNODE_IPV4 : Nat := 0xA0
def NEWNODE_IPV6 : Nat := 0xA1
def NEWNODE_DNS : Nat := 0xA2
def NODELIST : Nat := 0xA4
def NODELISTREQ : Nat := 0x90
def SEARCH : Nat := 0xA5
def N2NFOUND : Nat := 0xA8
def N2NFOUNDCACHE : Nat := 0xA9
def N2NCONNREQOUTG : Nat := 0xAA
def N2NALLOW : Nat := 0xAB
def N2NNOTFOUND : Nat := 0xB8
def N2NMSG : Nat := 0xD0

/-- `PICA_PROTO_VER_HIGH`, `PICA_PROTO_VER_LOW`. -/
def VER_HIGH : Nat := 0
def VER_LOW : Nat := 5

def N2NMSG_MAXDATASIZE : Nat := 65476
def C2CMSG_MAXDATASIZE : Nat := 65532
def NODELIST_ITEM_IPV4_SIZE : Nat := 7
def NODELIST_ITEM_IPV6_SIZE : Nat := 19

end Proto

/-- The value of `buf[i]`. -/
def byteAt (buf : List UInt8) (i : Nat) : Nat :=
  (buf.getD i 0).toNat

/-- A little-endian unsigned number. -/
def leNat : List UInt8 → Nat
  | [] => 0
  | b :: bs => b.toNat + 256 * leNat bs

/-- `*(uint16_t*)p = n`. -/
def le16 (n : Nat) : List UInt8 :=
  [UInt8.ofNat n, UInt8.ofNat (n / 256)]

/-- `*(uint16_t*)(buf + off)`. -/
def load16 (buf : List UInt8) (off : Nat) : Nat :=
  leNat ((buf.drop off).take 2)

@[simp] theorem length_le16 (n : Nat) : (le16 n).length = 2 := rfl

theorem leNat_le16 {n : Nat} (h : n < 65536) : leNat (le16 n) = n := by
  simp only [leNat, le16, UInt8.toNat_ofNat']
  omega

theorem leNat_two_lt {l : List UInt8} (h : l.length ≤ 2) : leNat l < 65536 := by
  match l, h with
  | [], _ => simp [leNat]
  | [a], _ =>
      have := a.toNat_lt
      simp only [leNat]
      omega
  | [a, b], _ =>
      have := a.toNat_lt
      have := b.toNat_lt
      simp only [leNat]
      omega

/-- The two equal header bytes of message `msgid`. -/
def head (msgid : Nat) : List UInt8 :=
  [UInt8.ofNat msgid, UInt8.ofNat msgid]

@[simp] theorem length_head (msgid : Nat) : (head msgid).length = 2 := rfl

/-- The number with the given digits in base 256, most significant first. -/
def beNat : List UInt8 → Nat
  | [] => 0
  | b :: bs => b.toNat * 256 ^ bs.length + beNat bs

theorem beNat_lt (bs : List UInt8) : beNat bs < 256 ^ bs.length := by
  induction bs with
  | nil => simp [beNat]
  | cons b bs ih =>
      have hb : b.toNat < 256 := b.toNat_lt
      have hmul := Nat.mul_le_mul_right (256 ^ bs.length) hb
      simp only [beNat, List.length_cons, Nat.pow_succ]
      rw [Nat.succ_mul] at hmul
      omega

namespace Id

@[simp] theorem length_val (i : Id) : i.1.length = idSize := i.2

/-- The identifier made of equal bytes. -/
def ofByte (b : UInt8) : Id :=
  ⟨List.replicate idSize b, by simp⟩

/-- The identifier read as a number, most significant byte first. -/
def rank (i : Id) : Nat :=
  beNat i.1

end Id

/-- `memcmp` on two blocks of the same length: the first different byte decides. -/
def memcmp : List UInt8 → List UInt8 → Ordering
  | a :: as, b :: bs => (compare a.toNat b.toNat).then (memcmp as bs)
  | _, _ => .eq

theorem compare_leading
    {a b n x y : Nat} (hx : x < n) (hy : y < n) :
    compare (a * n + x) (b * n + y) = (compare a b).then (compare x y) := by
  rcases Nat.lt_trichotomy a b with hab | rfl | hab
  · have hmul := Nat.mul_le_mul_right n hab
    rw [Nat.succ_mul] at hmul
    have hlt : a * n + x < b * n + y := by omega
    rw [Nat.compare_eq_lt.mpr hab, Nat.compare_eq_lt.mpr hlt]
    rfl
  · rw [Nat.compare_eq_eq.mpr (rfl : a = a)]
    simp only [Nat.compare_eq_ite_lt, Nat.add_lt_add_iff_left, Ordering.then]
  · have hmul := Nat.mul_le_mul_right n hab
    rw [Nat.succ_mul] at hmul
    have hgt : b * n + y < a * n + x := by omega
    rw [Nat.compare_eq_gt.mpr hab, Nat.compare_eq_gt.mpr hgt]
    rfl

theorem memcmp_eq_compare
    {as bs : List UInt8} (h : as.length = bs.length) :
    memcmp as bs = compare (beNat as) (beNat bs) := by
  induction as generalizing bs with
  | nil =>
      obtain rfl := List.length_eq_zero_iff.mp h.symm
      rfl
  | cons a as ih =>
      cases bs with
      | nil => cases h
      | cons b bs =>
          have hlen : as.length = bs.length := Nat.succ.inj h
          have hla := beNat_lt as
          rw [hlen] at hla
          simp only [memcmp, beNat, hlen, ih hlen]
          exact (compare_leading hla (beNat_lt bs)).symm

theorem eq_of_memcmp_eq
    {as bs : List UInt8} (hlen : as.length = bs.length) (h : memcmp as bs = .eq) :
    as = bs := by
  induction as generalizing bs with
  | nil => exact (List.length_eq_zero_iff.mp hlen.symm).symm
  | cons a as ih =>
      cases bs with
      | nil => cases hlen
      | cons b bs =>
          obtain ⟨hab, hrest⟩ := Ordering.then_eq_eq.mp h
          rw [ih (Nat.succ.inj hlen) hrest, UInt8.toNat.inj (Nat.compare_eq_eq.mp hab)]

theorem memcmp_lt_iff {i j : Id} : memcmp i.1 j.1 = .lt ↔ i.rank < j.rank := by
  rw [memcmp_eq_compare (by simp), Nat.compare_eq_lt]
  rfl

theorem memcmp_eq_iff {i j : Id} : memcmp i.1 j.1 = .eq ↔ i = j := by
  constructor
  · intro h
    exact Subtype.ext (eq_of_memcmp_eq (by simp) h)
  · rintro rfl
    rw [memcmp_eq_compare rfl, Nat.compare_eq_eq]

theorem Id.rank_inj {i j : Id} : i.rank = j.rank ↔ i = j := by
  rw [← memcmp_eq_iff, memcmp_eq_compare (by simp), Nat.compare_eq_eq]
  rfl

end PicaPica
