import PicaPica.ByteOrder
import PicaPica.Lib.Spans

/-!
# What the handlers take from inter-node messages

`procmsg_N2NMSG`, `procmsg_MULTILOGIN_node` and `procmsg_N2NFOUND` find the fields of a message
by offsets and lengths which they compute from its bytes.  Each is written here with the ranges
it reads; the lengths are computed on `unsigned int` and on `size_t`.
-/

namespace PicaPica

open Span

/-- `a - b` on a `size_t` of 64 bits, for values `a` and `b` of that type. -/
def sizeSub (a b : Nat) : Nat :=
  if b ≤ a then a - b else a + 2 ^ 64 - b

/-- What a handler takes from a message: it refuses it, leaves it without an effect, relays its
data, verifies its signature, or looks for a callee. -/
inductive Taken
  | refused
  | ignored
  | relay (sender receiver data : Span)
  | signed (timestamp address sig : Span)
  | search (callee : Span)
deriving DecidableEq

def Taken.spans : Taken → List Span
  | refused => []
  | ignored => []
  | relay sender receiver data => [sender, receiver, data]
  | signed timestamp address sig => [timestamp, address, sig]
  | search callee => [callee]

def procmsgN2NMSGTaken (buf : Frame) : Taken :=
  let len := load16 buf 2
  if len < 2 * idSize then .refused
  else
    let datalen := usub len (2 * idSize)
    .relay ⟨4, idSize⟩ ⟨4 + idSize, idSize⟩ ⟨4 + 2 * idSize, datalen⟩

/-- `sigdatalengths[2]`.  The branch for a DNS name has no `break`: it computes a length and
ends like an unknown type. -/
def multiloginAddrLen (buf : Frame) : Option Nat :=
  if byteAt buf 12 = Proto.NEWNODE_IPV4 then some Proto.NODELIST_ITEM_IPV4_SIZE
  else if byteAt buf 12 = Proto.NEWNODE_IPV6 then some Proto.NODELIST_ITEM_IPV6_SIZE
  else none

def procmsgMULTILOGINNodeTaken (buf : Frame) : Taken :=
  let payloadLen := load16 buf 2
  if payloadLen ≤ 8 + Proto.NODELIST_ITEM_IPV4_SIZE then .refused
  else
    match multiloginAddrLen buf with
    | none => .ignored
    | some addrLen =>
        let siglen := sizeSub (sizeSub payloadLen 8) addrLen
        .signed ⟨4, 8⟩ ⟨12, addrLen⟩ ⟨12 + addrLen, siglen⟩

/-- The identifier stands at this place in `N2NFOUND`, which has no length field. -/
def procmsgN2NFOUNDTaken (_buf : Frame) : Taken :=
  .search ⟨2, idSize⟩

/-- The bytes that are read before the fields are known: the length, and in a `MULTILOGIN`
message the type of the address and the length of a name. -/
def headerSpans (buf : Frame) : List Span :=
  if byteAt buf 0 = Proto.N2NMSG then [⟨2, 2⟩]
  else if byteAt buf 0 = Proto.MULTILOGIN then
    if load16 buf 2 ≤ 8 + Proto.NODELIST_ITEM_IPV4_SIZE then [⟨2, 2⟩]
    else if byteAt buf 12 = Proto.NEWNODE_DNS then [⟨2, 2⟩, ⟨12, 1⟩, ⟨13, 1⟩]
    else [⟨2, 2⟩, ⟨12, 1⟩]
  else []

/-- What the handler of the message takes from it. -/
def taken (buf : Frame) : Taken :=
  if byteAt buf 0 = Proto.N2NMSG then procmsgN2NMSGTaken buf
  else if byteAt buf 0 = Proto.MULTILOGIN then procmsgMULTILOGINNodeTaken buf
  else procmsgN2NFOUNDTaken buf

section Handlers

variable {n : Node} {nl : Ptr} {f : Frame}

/-- **The handlers in `Handlers.lean` take these ranges.** -/
theorem procmsgN2NMSG_taken :
    n.procmsgN2NMSG nl f =
      match procmsgN2NMSGTaken f with
      | .relay sender receiver data => (
          match n.cclinkListSearch (idAt f sender.off) (idAt f receiver.off) with
          | some cc =>
              if cc.state = .n2nCleActive then n.n2nmsgInto .p1p2 (data.slice f) cc
              else n.n2nmsgBack nl (idAt f sender.off) (idAt f receiver.off) (data.slice f)
          | none => n.n2nmsgBack nl (idAt f sender.off) (idAt f receiver.off) (data.slice f))
      | _ => pure (n, 0) := by
  rw [Node.procmsgN2NMSG, procmsgN2NMSGTaken]
  dsimp only
  by_cases hlen : load16 f 2 < 2 * idSize
  · rw [if_pos hlen, if_pos hlen]
  · rw [if_neg hlen, if_neg hlen]
    have hdata : usub (load16 f 2) (2 * idSize) = load16 f 2 - 2 * idSize :=
      if_pos (Nat.le_of_not_lt hlen)
    dsimp only [Span.slice]
    rewrite [hdata]
    rfl

theorem procmsgMULTILOGINNode_taken :
    n.procmsgMULTILOGINNode nl f =
      match procmsgMULTILOGINNodeTaken f with
      | .refused => pure (n, 0)
      | .ignored => pure (n, 1)
      | _ => (
          match n.clients.find? fun c => c.state = .connected ∧ n.verify c.ptr f with
          | none => pure (n, 1)
          | some c => do
              let n ← Node.pushToLogins f none (n.logins c) n
              pure (n, 1)) := by
  rw [Node.procmsgMULTILOGINNode, procmsgMULTILOGINNodeTaken, multiloginAddrLen]
  dsimp only
  by_cases hlen : load16 f 2 ≤ 8 + Proto.NODELIST_ITEM_IPV4_SIZE
  · rw [if_pos hlen, if_pos hlen]
  · rw [if_neg hlen, if_neg hlen]
    by_cases h4 : byteAt f 12 = Proto.NEWNODE_IPV4
    · rewrite [if_pos (.inl h4), if_pos h4]
      rfl
    · rw [if_neg h4]
      by_cases h6 : byteAt f 12 = Proto.NEWNODE_IPV6
      · rewrite [if_pos (.inr h6), if_pos h6]
        rfl
      · rw [if_neg (not_or.mpr ⟨h4, h6⟩), if_neg h6]

theorem procmsgN2NFOUND_taken :
    n.procmsgN2NFOUND nl f =
      match procmsgN2NFOUNDTaken f with
      | .search callee => do
          let n ← Node.n2nfoundLoop nl (idAt f callee.off) n.cclinks.length n
          pure (n, 1)
      | _ => pure (n, 1) :=
  rfl

end Handlers

/-- The length of an address of a node in the protocol. -/
def nodeAddrLen (buf : Frame) : Option Nat :=
  if byteAt buf 12 = Proto.NEWNODE_IPV4 then some Proto.NODELIST_ITEM_IPV4_SIZE
  else if byteAt buf 12 = Proto.NEWNODE_IPV6 then some Proto.NODELIST_ITEM_IPV6_SIZE
  else if byteAt buf 12 = Proto.NEWNODE_DNS then some (4 + byteAt buf 13)
  else none

/-- The identifier in a message with a length field. -/
def idField : Span :=
  ⟨4, idSize⟩

/-- Nothing is read outside the message, the lengths are differences of numbers, the fields of
a `MULTILOGIN` message with an address of the protocol are its payload unless it is refused, and
the callee is the one that `N2NFOUNDCACHE` names. -/
structure ReadRight (f : Frame) : Prop where
  inside : ∀ s ∈ headerSpans f ++ (taken f).spans, s.Inside f.length
  datalen : byteAt f 0 = Proto.N2NMSG → ∀ sender receiver data,
    taken f = .relay sender receiver data → (data.len : Int) = load16 f 2 - 2 * idSize
  siglen : byteAt f 0 = Proto.MULTILOGIN → ∀ timestamp address sig,
    taken f = .signed timestamp address sig → (sig.len : Int) = load16 f 2 - 8 - address.len
  fields : byteAt f 0 = Proto.MULTILOGIN → taken f ≠ .refused → ∀ addrLen,
    nodeAddrLen f = some addrLen →
      ∃ timestamp address sig, taken f = .signed timestamp address sig ∧
        timestamp.len = 8 ∧ address.len = addrLen ∧
          Tiles [timestamp, address, sig] 4 f.length
  callee : byteAt f 0 = Proto.N2NFOUNDCACHE → ∀ s, taken f = .search s →
    idField.Inside f.length ∧ s.slice f = idField.slice f

/-- A `MULTILOGIN` message long enough for an IPv4 address holds no name, and is long enough for
its address if that is an IPv6 address; the identifier in `N2NFOUNDCACHE` repeats the length
field. -/
structure ReadRightWhen (f : Frame) : Prop where
  multilogin : byteAt f 0 = Proto.MULTILOGIN →
    8 + Proto.NODELIST_ITEM_IPV4_SIZE < load16 f 2 →
      byteAt f 12 ≠ Proto.NEWNODE_DNS ∧
        (byteAt f 12 = Proto.NEWNODE_IPV6 → 8 + Proto.NODELIST_ITEM_IPV6_SIZE ≤ load16 f 2)
  foundcache : byteAt f 0 = Proto.N2NFOUNDCACHE →
    idSize ≤ load16 f 2 ∧ ∀ i < idSize, byteAt f (2 + i) = byteAt f (4 + i)

section Frames

variable {f : Frame} {addrLen : Nat}

theorem procmsgN2NMSGTaken_short
    (h : load16 f 2 < 2 * idSize) : procmsgN2NMSGTaken f = .refused :=
  if_pos h

theorem procmsgN2NMSGTaken_long
    (h : 2 * idSize ≤ load16 f 2) :
    procmsgN2NMSGTaken f = .relay ⟨4, idSize⟩ ⟨4 + idSize, idSize⟩
      ⟨4 + 2 * idSize, load16 f 2 - 2 * idSize⟩ := by
  rw [procmsgN2NMSGTaken]
  dsimp only
  rw [if_neg (Nat.not_lt.mpr h), usub, if_pos h]

theorem n2nmsg_right
    (hid : byteAt f 0 = Proto.N2NMSG) (hlen : f.length = 4 + load16 f 2) :
    ReadRight f := by
  have hids : idSize = 28 := rfl
  have htaken : taken f = procmsgN2NMSGTaken f := if_pos hid
  have hheader : headerSpans f = [⟨2, 2⟩] := if_pos hid
  have hnot : byteAt f 0 ≠ Proto.MULTILOGIN ∧ byteAt f 0 ≠ Proto.N2NFOUNDCACHE := by
    rw [hid]
    decide
  refine ⟨?_, ?_, fun h => absurd h hnot.1, fun h => absurd h hnot.1, fun h => absurd h hnot.2⟩
  · intro s hs
    rw [hheader, htaken] at hs
    by_cases hshort : load16 f 2 < 2 * idSize
    · rw [procmsgN2NMSGTaken_short hshort] at hs
      obtain rfl : s = ⟨2, 2⟩ := List.mem_singleton.mp hs
      change 2 + 2 ≤ f.length
      omega
    · rw [procmsgN2NMSGTaken_long (Nat.le_of_not_lt hshort)] at hs
      simp only [Taken.spans, List.cons_append, List.nil_append, List.mem_cons,
        List.not_mem_nil, or_false] at hs
      rcases hs with rfl | rfl | rfl | rfl <;>
      · dsimp only [Span.Inside, Span.stop]
        omega
  · intro _ sender receiver data hrelay
    rw [htaken] at hrelay
    by_cases hshort : load16 f 2 < 2 * idSize
    · rw [procmsgN2NMSGTaken_short hshort] at hrelay
      cases hrelay
    · rw [procmsgN2NMSGTaken_long (Nat.le_of_not_lt hshort)] at hrelay
      cases hrelay
      dsimp only
      omega

/-! ## Signed addresses -/

theorem multiloginTaken_short
    (h : load16 f 2 ≤ 8 + Proto.NODELIST_ITEM_IPV4_SIZE) :
    procmsgMULTILOGINNodeTaken f = .refused :=
  if_pos h

theorem multiloginTaken_ignored
    (h : 8 + Proto.NODELIST_ITEM_IPV4_SIZE < load16 f 2) (haddr : multiloginAddrLen f = none) :
    procmsgMULTILOGINNodeTaken f = .ignored := by
  rw [procmsgMULTILOGINNodeTaken]
  dsimp only
  rw [if_neg (Nat.not_le.mpr h), haddr]

theorem multiloginTaken_signed
    (h : 8 + Proto.NODELIST_ITEM_IPV4_SIZE < load16 f 2)
    (haddr : multiloginAddrLen f = some addrLen) :
    procmsgMULTILOGINNodeTaken f = .signed ⟨4, 8⟩ ⟨12, addrLen⟩
      ⟨12 + addrLen, sizeSub (load16 f 2 - 8) addrLen⟩ := by
  have hts : sizeSub (load16 f 2) 8 = load16 f 2 - 8 :=
    if_pos (Nat.le_trans (Nat.le_add_right 8 _) (Nat.le_of_lt h))
  rw [procmsgMULTILOGINNodeTaken]
  dsimp only
  rw [if_neg (Nat.not_le.mpr h), haddr, hts]

theorem nodeAddrLen_of_multilogin
    (h : multiloginAddrLen f = some addrLen) : nodeAddrLen f = some addrLen := by
  rw [multiloginAddrLen] at h
  rw [nodeAddrLen]
  split_ifs at h ⊢
  · exact h
  · exact h

/-- The kind of a `MULTILOGIN` message decides its header. -/
theorem multilogin_header
    (hid : byteAt f 0 = Proto.MULTILOGIN) (hlen : f.length = 4 + load16 f 2) :
    taken f = procmsgMULTILOGINNodeTaken f ∧ ∀ s ∈ headerSpans f, s.Inside f.length := by
  have hv4 : Proto.NODELIST_ITEM_IPV4_SIZE = 7 := rfl
  have hnot : byteAt f 0 ≠ Proto.N2NMSG := by
    rw [hid]
    decide
  refine ⟨by rw [taken, if_neg hnot, if_pos hid], ?_⟩
  intro s hs
  rw [headerSpans, if_neg hnot, if_pos hid] at hs
  split_ifs at hs with hshort hdns
  · obtain rfl : s = ⟨2, 2⟩ := List.mem_singleton.mp hs
    change 2 + 2 ≤ f.length
    omega
  · simp only [List.mem_cons, List.not_mem_nil, or_false] at hs
    rcases hs with rfl | rfl | rfl <;>
    · dsimp only [Span.Inside, Span.stop]
      omega
  · simp only [List.mem_cons, List.not_mem_nil, or_false] at hs
    rcases hs with rfl | rfl <;>
    · dsimp only [Span.Inside, Span.stop]
      omega

theorem signed_tiles
    (hfit : 8 + addrLen ≤ load16 f 2) (hlen : f.length = 4 + load16 f 2) :
    Tiles [⟨4, 8⟩, ⟨12, addrLen⟩, ⟨12 + addrLen, load16 f 2 - 8 - addrLen⟩] 4 f.length := by
  refine ⟨rfl, rfl, rfl, ?_⟩
  change 12 + addrLen + (load16 f 2 - 8 - addrLen) = f.length
  omega

/-- What is left to show of a `MULTILOGIN` message. -/
theorem multilogin_right
    (hid : byteAt f 0 = Proto.MULTILOGIN) (hlen : f.length = 4 + load16 f 2)
    (hfits : ∀ addrLen, multiloginAddrLen f = some addrLen →
      8 + Proto.NODELIST_ITEM_IPV4_SIZE < load16 f 2 → 8 + addrLen ≤ load16 f 2)
    (hnone : 8 + Proto.NODELIST_ITEM_IPV4_SIZE < load16 f 2 → multiloginAddrLen f = none →
      nodeAddrLen f = none) :
    ReadRight f := by
  have hnot : byteAt f 0 ≠ Proto.N2NMSG ∧ byteAt f 0 ≠ Proto.N2NFOUNDCACHE := by
    rw [hid]
    decide
  obtain ⟨htaken, hheader⟩ := multilogin_header hid hlen
  have hcases : taken f = .refused ∨
      taken f = .ignored ∧ nodeAddrLen f = none ∨
      ∃ addrLen, nodeAddrLen f = some addrLen ∧ 8 + addrLen ≤ load16 f 2 ∧
        taken f = .signed ⟨4, 8⟩ ⟨12, addrLen⟩
          ⟨12 + addrLen, load16 f 2 - 8 - addrLen⟩ := by
    rw [htaken]
    by_cases hshort : load16 f 2 ≤ 8 + Proto.NODELIST_ITEM_IPV4_SIZE
    · exact .inl (multiloginTaken_short hshort)
    · have hlong := Nat.lt_of_not_le hshort
      cases haddr : multiloginAddrLen f with
      | none => exact .inr (.inl ⟨multiloginTaken_ignored hlong haddr, hnone hlong haddr⟩)
      | some addrLen =>
          have hfit := hfits addrLen haddr hlong
          have hsig : sizeSub (load16 f 2 - 8) addrLen = load16 f 2 - 8 - addrLen :=
            if_pos (by omega)
          refine .inr (.inr ⟨addrLen, nodeAddrLen_of_multilogin haddr, hfit, ?_⟩)
          rw [multiloginTaken_signed hlong haddr, hsig]
  refine ⟨?_, fun h => absurd h hnot.1, ?_, ?_, fun h => absurd h hnot.2⟩
  · intro s hs
    rcases List.mem_append.mp hs with hs | hs
    · exact hheader s hs
    · rcases hcases with hrefused | ⟨hignored, -⟩ | ⟨addrLen, -, hfit, hsigned⟩
      · rw [hrefused] at hs
        cases hs
      · rw [hignored] at hs
        cases hs
      · rw [hsigned] at hs
        exact ((signed_tiles hfit hlen).bounds hs).2
  · intro _ timestamp address sig hsigned'
    rcases hcases with hrefused | ⟨hignored, -⟩ | ⟨addrLen, -, hfit, hsigned⟩
    · exact nomatch hrefused.symm.trans hsigned'
    · exact nomatch hignored.symm.trans hsigned'
    · cases hsigned.symm.trans hsigned'
      dsimp only
      omega
  · intro _ hnotRefused addrLen haddr
    rcases hcases with hrefused | ⟨-, hnoAddr⟩ | ⟨addrLen', haddr', hfit, hsigned⟩
    · exact absurd hrefused hnotRefused
    · exact nomatch hnoAddr.symm.trans haddr
    · obtain rfl : addrLen = addrLen' := Option.some.inj (haddr.symm.trans haddr')
      exact ⟨_, _, _, hsigned, rfl, rfl, signed_tiles hfit hlen⟩

theorem multilogin_right_iff
    (hid : byteAt f 0 = Proto.MULTILOGIN) (hlen : f.length = 4 + load16 f 2) :
    ReadRight f ↔
      (8 + Proto.NODELIST_ITEM_IPV4_SIZE < load16 f 2 →
        byteAt f 12 ≠ Proto.NEWNODE_DNS ∧
          (byteAt f 12 = Proto.NEWNODE_IPV6 →
            8 + Proto.NODELIST_ITEM_IPV6_SIZE ≤ load16 f 2)) := by
  obtain ⟨htaken, -⟩ := multilogin_header hid hlen
  constructor
  · intro hright hlong
    constructor
    · intro hdns
      have haddr : multiloginAddrLen f = none := by
        rw [multiloginAddrLen, hdns]
        rfl
      have hnode : nodeAddrLen f = some (4 + byteAt f 13) := by
        rw [nodeAddrLen, hdns]
        rfl
      have hignored : taken f = .ignored := htaken.trans (multiloginTaken_ignored hlong haddr)
      have hnotRefused : taken f ≠ .refused := by
        rw [hignored]
        exact Taken.noConfusion
      obtain ⟨_, _, _, hsigned, -⟩ := hright.fields hid hnotRefused _ hnode
      exact nomatch hignored.symm.trans hsigned
    · intro hipv6
      have haddr : multiloginAddrLen f = some Proto.NODELIST_ITEM_IPV6_SIZE := by
        rw [multiloginAddrLen, hipv6]
        rfl
      have hsiglen := hright.siglen hid _ _ _
        (htaken.trans (multiloginTaken_signed hlong haddr))
      -- a shorter payload wraps
      rw [sizeSub] at hsiglen
      dsimp only at hsiglen
      split_ifs at hsiglen with hfit
      · omega
      · omega
  · intro hwhen
    refine multilogin_right hid hlen ?_ ?_
    · intro addrLen haddr hlong
      rw [multiloginAddrLen] at haddr
      split_ifs at haddr with h4 h6
      · cases haddr
        exact Nat.le_of_lt hlong
      · cases haddr
        exact (hwhen hlong).2 h6
    · intro hlong haddr
      rw [multiloginAddrLen] at haddr
      rw [nodeAddrLen]
      split_ifs at haddr with h4 h6
      rw [if_neg h4, if_neg h6, if_neg (hwhen hlong).1]

/-! ## Identifiers -/

theorem getElem?_eq_iff_byteAt
    {i j : Nat} (hi : i < f.length) (hj : j < f.length) :
    f[i]? = f[j]? ↔ byteAt f i = byteAt f j := by
  have hbyte : ∀ k, k < f.length → f[k]? = some (f.getD k 0) := by
    intro k hk
    rw [List.getElem?_eq_getElem hk, ← List.getElem_eq_getD 0]
  rw [hbyte i hi, hbyte j hj, Option.some_inj, byteAt, byteAt, UInt8.toNat_inj]

theorem foundcache_right_iff
    (hid : byteAt f 0 = Proto.N2NFOUNDCACHE) (hlen : f.length = 4 + load16 f 2) :
    ReadRight f ↔
      idSize ≤ load16 f 2 ∧ ∀ i < idSize, byteAt f (2 + i) = byteAt f (4 + i) := by
  have hnot : byteAt f 0 ≠ Proto.N2NMSG ∧ byteAt f 0 ≠ Proto.MULTILOGIN := by
    rw [hid]
    decide
  have htaken : taken f = .search ⟨2, idSize⟩ := by
    rw [taken, if_neg hnot.1, if_neg hnot.2]
    rfl
  have hheader : headerSpans f = [] := by
    rw [headerSpans, if_neg hnot.1, if_neg hnot.2]
  have hbytes : idSize ≤ load16 f 2 →
      ((⟨2, idSize⟩ : Span).slice f = idField.slice f ↔
        ∀ i < idSize, byteAt f (2 + i) = byteAt f (4 + i)) := by
    intro hlong
    rw [idField, slice_eq_slice_iff]
    refine forall₂_congr fun i hi => ?_
    exact getElem?_eq_iff_byteAt (by omega) (by omega)
  constructor
  · intro hright
    obtain ⟨hinside, hslice⟩ := hright.callee hid _ htaken
    have hlong : idSize ≤ load16 f 2 := by
      have hstop : 4 + idSize ≤ f.length := hinside
      omega
    exact ⟨hlong, (hbytes hlong).mp hslice⟩
  · rintro ⟨hlong, hsame⟩
    refine ⟨?_, fun h => absurd h hnot.1, fun h => absurd h hnot.2, fun h => absurd h hnot.2, ?_⟩
    · intro s hs
      rw [hheader, htaken] at hs
      obtain rfl : s = ⟨2, idSize⟩ := List.mem_singleton.mp hs
      change 2 + idSize ≤ f.length
      omega
    · intro _ s hs
      cases htaken.symm.trans hs
      refine ⟨?_, (hbytes hlong).mpr hsame⟩
      change 4 + idSize ≤ f.length
      omega

end Frames

theorem length_of_linked
    {f : Frame} {nl : Ptr}
    (hid : byteAt f 0 = Proto.N2NMSG ∨ byteAt f 0 = Proto.MULTILOGIN ∨
      byteAt f 0 = Proto.N2NFOUNDCACHE)
    (hsize : msggetsize f f.length (msginfoNode nl) = f.length) :
    f.length = 4 + load16 f 2 := by
  refine length_of_entry ?_ hsize
  rcases hid with hid | hid | hid <;>
  · rw [hid]
    rfl

/-- **Which variable-length messages between nodes are read as they should be.** -/
theorem linked_frame_right_iff
    {f : Frame} {nl : Ptr}
    (hid : byteAt f 0 = Proto.N2NMSG ∨ byteAt f 0 = Proto.MULTILOGIN ∨
      byteAt f 0 = Proto.N2NFOUNDCACHE)
    (hsize : msggetsize f f.length (msginfoNode nl) = f.length) :
    ReadRight f ↔ ReadRightWhen f := by
  have hlen := length_of_linked hid hsize
  rcases hid with hmsg | hlogin | hfound
  · have hnot : byteAt f 0 ≠ Proto.MULTILOGIN ∧ byteAt f 0 ≠ Proto.N2NFOUNDCACHE := by
      rw [hmsg]
      decide
    exact ⟨fun _ => ⟨fun h => absurd h hnot.1, fun h => absurd h hnot.2⟩,
      fun _ => n2nmsg_right hmsg hlen⟩
  · have hnot : byteAt f 0 ≠ Proto.N2NFOUNDCACHE := by
      rw [hlogin]
      decide
    have hiff := multilogin_right_iff hlogin hlen
    exact ⟨fun h => ⟨fun _ => hiff.mp h, fun h => absurd h hnot⟩,
      fun h => hiff.mpr (h.multilogin hlogin)⟩
  · have hnot : byteAt f 0 ≠ Proto.MULTILOGIN := by
      rw [hfound]
      decide
    have hiff := foundcache_right_iff hfound hlen
    exact ⟨fun h => ⟨fun h => absurd h hnot, fun _ => hiff.mp h⟩,
      fun h => hiff.mpr (h.foundcache hfound)⟩

/-- A `MULTILOGIN` message with `payload` bytes and an address of the given type. -/
def loginFrom (type : UInt8) (payload : Nat) : Frame :=
  head Proto.MULTILOGIN ++ le16 payload ++ List.replicate 8 0 ++
    type :: List.replicate (payload - 9) 1

def foundInCache (callee : Id) : Frame :=
  head Proto.N2NFOUNDCACHE ++ le16 idSize ++ callee.1

theorem linked_frame_right_ipv4 : ReadRight (loginFrom 0xA0 40) :=
  (@linked_frame_right_iff (loginFrom 0xA0 40) 0 (.inr (.inl (by decide))) (by decide)).mpr
    ⟨fun _ _ => ⟨by decide, fun h => absurd h (by decide)⟩, fun h => absurd h (by decide)⟩

/-- An IPv6 address that ends behind the message, a name, and an identifier that is not the
one in the message. -/
theorem linked_frame_not_right :
    (msggetsize (loginFrom 0xA1 16) 20 (msginfoNode 0) = 20 ∧ ¬ReadRight (loginFrom 0xA1 16)) ∧
    (msggetsize (loginFrom 0xA2 40) 44 (msginfoNode 0) = 44 ∧ ¬ReadRight (loginFrom 0xA2 40)) ∧
    (msggetsize (foundInCache (Id.ofByte 7)) 32 (msginfoNode 0) = 32 ∧
      ¬ReadRight (foundInCache (Id.ofByte 7))) := by
  refine ⟨⟨by decide, ?_⟩, ⟨by decide, ?_⟩, ⟨by decide, ?_⟩⟩
  · rw [multilogin_right_iff (by decide) (by decide)]
    decide
  · rw [multilogin_right_iff (by decide) (by decide)]
    decide
  · rw [foundcache_right_iff (by decide) (by decide)]
    decide

end PicaPica
