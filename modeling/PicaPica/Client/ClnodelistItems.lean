import PicaPica.Client.Clnodelist
import PicaPica.Node.NodeItems

/-!
# The bytes that `procmsg_CLNODELIST` touches

The loop of `procmsg_CLNODELIST` with its buffer: behind a name a byte is overwritten with
a zero for the callback and put back.  The loop handles items of all three types.  It reads
in front of the test for the end, and it does not test whether an item is complete.
-/

namespace PicaPica

open Items Machine

namespace Client

/-- What the loop of `procmsg_CLNODELIST` has done. -/
structure ClnodelistPass where
  buf : Frame
  calls : List NodelistCall

/-- The call of `nodelist_cb` for an item; `ntop6` is `inet_ntop` for an IPv6 address. -/
def nodelistCallOf (ntop6 : List UInt8 → List Char) : NodeItem → NodelistCall
  | .ipv4 addr port =>
      ⟨Proto.NEWNODE_IPV4, addr.1, inetNtoa (leNat addr.1), ntohs (leNat port.1)⟩
  | .ipv6 addr port => ⟨Proto.NEWNODE_IPV6, addr.1, ntop6 addr.1, ntohs (leNat port.1)⟩
  | .dns name port => ⟨Proto.NEWNODE_DNS, name.1, cString name.1, ntohs (leNat port.1)⟩

/-- The loop of `procmsg_CLNODELIST` for a message of `nb` bytes. -/
def clnodelistRun (ntop6 : List UInt8 → List Char) (nb : Nat) :
    Nat → Nat → ClnodelistPass → LoopEnd ClnodelistPass
  | 0, _, s => .running s
  | fuel + 1, pos, s =>
      -- the callback, and the end of the loop
      let go (size : Nat) (call : NodelistCall) (buf : Frame) : LoopEnd ClnodelistPass :=
        if pos + size < nb then clnodelistRun ntop6 nb fuel (pos + size) ⟨buf, s.calls ++ [call]⟩
        else .returned ⟨buf, s.calls ++ [call]⟩ 1
      if nb ≤ pos then .outside s
      else if byteAt s.buf pos = Proto.NEWNODE_IPV4 then
        if nb < pos + Proto.NODELIST_ITEM_IPV4_SIZE then .outside s
        else
          let a := addrAt s.buf (pos + 1)
          go Proto.NODELIST_ITEM_IPV4_SIZE
            ⟨Proto.NEWNODE_IPV4, (s.buf.drop (pos + 1)).take 4, inetNtoa a.addr, ntohs a.port⟩ s.buf
      else if byteAt s.buf pos = Proto.NEWNODE_IPV6 then
        if nb < pos + Proto.NODELIST_ITEM_IPV6_SIZE then .outside s
        else
          go Proto.NODELIST_ITEM_IPV6_SIZE
            ⟨Proto.NEWNODE_IPV6, (s.buf.drop (pos + 1)).take 16,
              ntop6 ((s.buf.drop (pos + 1)).take 16), ntohs (load16 s.buf (pos + 17))⟩ s.buf
      else if byteAt s.buf pos = Proto.NEWNODE_DNS then
        if nb < pos + 2 ∨ nb < pos + byteAt s.buf (pos + 1) + 4 then .outside s
        else
          let port := ntohs (load16 s.buf (pos + byteAt s.buf (pos + 1) + 2))
          let swap := s.buf.getD (pos + 2 + byteAt s.buf (pos + 1)) 0
          let during := s.buf.set (pos + 2 + byteAt s.buf (pos + 1)) 0
          let call := ⟨Proto.NEWNODE_DNS, (during.drop (pos + 2)).take (byteAt during (pos + 1)),
            cString (during.drop (pos + 2)), port⟩
          let restored := during.set (pos + 2 + byteAt during (pos + 1)) swap
          go (4 + byteAt restored (pos + 1)) call restored
      else .returned s 0

/-- `procmsg_CLNODELIST` with a bound on the passes of its loop. -/
def procmsgCLNODELISTRun (ntop6 : List UInt8 → List Char) (f : Frame) (fuel : Nat) :
    LoopEnd ClnodelistPass :=
  clnodelistRun ntop6 f.length fuel 4 ⟨f, []⟩

/-! ## The byte behind a name -/

section Swap

variable {pre name post : List UInt8} {t len z b : UInt8}

/-- The byte behind a name is replaced. -/
theorem set_behind_name
    (hlen : len.toNat = name.length) :
    (pre ++ t :: len :: (name ++ z :: post)).set (pre.length + 2 + len.toNat) b =
      pre ++ t :: len :: (name ++ b :: post) := by
  have hpos : pre.length + 2 + len.toNat - pre.length = name.length + 2 := by omega
  rw [List.set_append_right _ _ (by omega), hpos, List.set_cons_succ, List.set_cons_succ,
    List.set_append_right _ _ (Nat.le_refl _), Nat.sub_self, List.set_cons_zero]

theorem getD_behind_name
    (hlen : len.toNat = name.length) :
    (pre ++ t :: len :: (name ++ z :: post)).getD (pre.length + 2 + len.toNat) 0 = z := by
  have hbuf : pre ++ t :: len :: (name ++ z :: post) =
      (pre ++ t :: len :: name) ++ z :: post := by
    rw [List.append_assoc, List.cons_append, List.cons_append]
  have hpos : pre.length + 2 + len.toNat = (pre ++ t :: len :: name).length := by
    rw [List.length_append, List.length_cons, List.length_cons]
    omega
  rw [hbuf, hpos, List.getD_eq_getElem?_getD, List.getElem?_append_right (Nat.le_refl _),
    Nat.sub_self]
  rfl

/-- The name that the callback finds ends with the zero. -/
theorem cString_name : cString (name ++ 0 :: post) = cString name := by
  have htake : (name ++ 0 :: post).takeWhile (· ≠ 0) = name.takeWhile (· ≠ 0) := by
    induction name with
    | nil => rfl
    | cons c name ih =>
        rw [List.cons_append, List.takeWhile_cons, List.takeWhile_cons, ih]
  rw [cString, cString, htake]

end Swap

/-! ## One pass of the loop -/

section Pass

variable {ntop6 : List UInt8 → List Char} {fuel : Nat} {pre post : List UInt8}
  {calls : List NodelistCall}

theorem enc_length_ipv4 (addr : Bytes 4) (port : Bytes 2) :
    (NodeItem.ipv4 addr port).enc.length = Proto.NODELIST_ITEM_IPV4_SIZE := by
  rw [NodeItem.enc, List.length_cons, List.length_append, addr.2, port.2]
  rfl

theorem enc_length_ipv6 (addr : Bytes 16) (port : Bytes 2) :
    (NodeItem.ipv6 addr port).enc.length = Proto.NODELIST_ITEM_IPV6_SIZE := by
  rw [NodeItem.enc, List.length_cons, List.length_append, addr.2, port.2]
  rfl

theorem enc_length_dns (name : { l : List UInt8 // l.length < 256 }) (port : Bytes 2) :
    (NodeItem.dns name port).enc.length = 4 + name.1.length := by
  rw [NodeItem.enc, List.length_cons, List.length_cons, List.length_append, port.2]
  omega

/-- The end of a pass, behind an item. -/
theorem clnodelistRun_behind
    {x : List UInt8} {s : ClnodelistPass} {k : Nat}
    (hx : x.length = k) :
    (if pre.length + k < (pre ++ (x ++ post)).length then
        clnodelistRun ntop6 (pre ++ (x ++ post)).length fuel (pre.length + k) s
      else .returned s 1) =
      if post ≠ [] then
        clnodelistRun ntop6 (pre ++ (x ++ post)).length fuel (pre ++ x).length s
      else .returned s 1 := by
  subst hx
  have hmore : pre.length + x.length < (pre ++ (x ++ post)).length ↔ post ≠ [] := by
    rw [List.length_append, List.length_append, ← List.length_pos_iff]
    omega
  have hpos : pre.length + x.length = (pre ++ x).length := List.length_append.symm
  simp only [hmore]
  rw [hpos]

theorem clnodelistRun_ipv4 (addr : Bytes 4) (port : Bytes 2) :
    let x := (NodeItem.ipv4 addr port).enc
    let s : ClnodelistPass :=
      ⟨pre ++ (x ++ post), calls ++ [nodelistCallOf ntop6 (.ipv4 addr port)]⟩
    clnodelistRun ntop6 (pre ++ (x ++ post)).length (fuel + 1) pre.length
        ⟨pre ++ (x ++ post), calls⟩ =
      if pre.length + Proto.NODELIST_ITEM_IPV4_SIZE < (pre ++ (x ++ post)).length then
        clnodelistRun ntop6 (pre ++ (x ++ post)).length fuel
          (pre.length + Proto.NODELIST_ITEM_IPV4_SIZE) s
      else .returned s 1 := by
  intro x s
  have hlen : (pre ++ (x ++ post)).length = pre.length + (7 + post.length) := by
    rw [List.length_append, List.length_append, enc_length_ipv4]
    rfl
  have hseven : Proto.NODELIST_ITEM_IPV4_SIZE = 7 := rfl
  have hkind : byteAt (pre ++ (x ++ post)) pre.length = Proto.NEWNODE_IPV4 := byteAt_suffix
  have haddr : addrAt (pre ++ (x ++ post)) (pre.length + 1) = ⟨leNat addr.1, leNat port.1⟩ :=
    addrAt_suffix addr port
  have hbin : ((pre ++ (x ++ post)).drop (pre.length + 1)).take 4 = addr.1 := by
    rw [← List.drop_drop, List.drop_left]
    change ((addr.1 ++ port.1) ++ post).take 4 = addr.1
    rw [List.append_assoc, List.take_left' addr.2]
  rw [clnodelistRun]
  dsimp only
  rw [if_neg (by omega), if_pos hkind, if_neg (by omega), haddr, hbin]
  rfl

theorem clnodelistRun_ipv6 (addr : Bytes 16) (port : Bytes 2) :
    let x := (NodeItem.ipv6 addr port).enc
    let s : ClnodelistPass :=
      ⟨pre ++ (x ++ post), calls ++ [nodelistCallOf ntop6 (.ipv6 addr port)]⟩
    clnodelistRun ntop6 (pre ++ (x ++ post)).length (fuel + 1) pre.length
        ⟨pre ++ (x ++ post), calls⟩ =
      if pre.length + Proto.NODELIST_ITEM_IPV6_SIZE < (pre ++ (x ++ post)).length then
        clnodelistRun ntop6 (pre ++ (x ++ post)).length fuel
          (pre.length + Proto.NODELIST_ITEM_IPV6_SIZE) s
      else .returned s 1 := by
  intro x s
  have hlen : (pre ++ (x ++ post)).length = pre.length + (19 + post.length) := by
    rw [List.length_append, List.length_append, enc_length_ipv6]
    rfl
  have hsize : Proto.NODELIST_ITEM_IPV6_SIZE = 19 := rfl
  have hkind : byteAt (pre ++ (x ++ post)) pre.length = Proto.NEWNODE_IPV6 := byteAt_suffix
  have hdrop : (pre ++ (x ++ post)).drop (pre.length + 1) = addr.1 ++ (port.1 ++ post) := by
    rw [← List.drop_drop, List.drop_left]
    exact List.append_assoc _ _ _
  have hbin : ((pre ++ (x ++ post)).drop (pre.length + 1)).take 16 = addr.1 := by
    rw [hdrop, List.take_left' addr.2]
  have hport : load16 (pre ++ (x ++ post)) (pre.length + 17) = leNat port.1 := by
    have hoff : pre.length + 17 = pre.length + 1 + 16 := rfl
    rw [load16, hoff, ← List.drop_drop, hdrop, List.drop_left' addr.2, List.take_left' port.2]
  rw [clnodelistRun]
  dsimp only
  rw [if_neg (by omega), if_neg (by rw [hkind]; decide), if_pos hkind, if_neg (by omega), hbin,
    hport]
  rfl

/-- The byte behind the name has been put back. -/
theorem clnodelistRun_dns (name : { l : List UInt8 // l.length < 256 }) (port : Bytes 2) :
    let x := (NodeItem.dns name port).enc
    let s : ClnodelistPass :=
      ⟨pre ++ (x ++ post), calls ++ [nodelistCallOf ntop6 (.dns name port)]⟩
    clnodelistRun ntop6 (pre ++ (x ++ post)).length (fuel + 1) pre.length
        ⟨pre ++ (x ++ post), calls⟩ =
      if pre.length + (4 + name.1.length) < (pre ++ (x ++ post)).length then
        clnodelistRun ntop6 (pre ++ (x ++ post)).length fuel (pre.length + (4 + name.1.length)) s
      else .returned s 1 := by
  intro x s
  obtain ⟨p₀, p₁, hport⟩ : ∃ p₀ p₁, port.1 = [p₀, p₁] := List.length_eq_two.mp port.2
  set len := UInt8.ofNat name.1.length with hlen
  have hname : len.toNat = name.1.length := by
    rw [hlen, UInt8.toNat_ofNat', Nat.mod_eq_of_lt name.2]
  have hx : x ++ post =
      UInt8.ofNat Proto.NEWNODE_DNS :: len :: (name.1 ++ p₀ :: (p₁ :: post)) := by
    simp [x, NodeItem.enc, hport, hlen]
  have hsize : (pre ++ (x ++ post)).length = pre.length + (4 + name.1.length + post.length) := by
    rw [List.length_append, List.length_append, enc_length_dns]
  have hkind : ∀ b, byteAt (pre ++ UInt8.ofNat Proto.NEWNODE_DNS :: len ::
      (name.1 ++ b :: (p₁ :: post))) pre.length = Proto.NEWNODE_DNS := fun b => byteAt_suffix
  have hbyte : ∀ b, byteAt (pre ++ UInt8.ofNat Proto.NEWNODE_DNS :: len ::
      (name.1 ++ b :: (p₁ :: post))) (pre.length + 1) = len.toNat := by
    intro b
    simp [byteAt, List.getD_eq_getElem?_getD]
  have hdrop : ∀ b, (pre ++ UInt8.ofNat Proto.NEWNODE_DNS :: len ::
      (name.1 ++ b :: (p₁ :: post))).drop (pre.length + 2) = name.1 ++ b :: (p₁ :: post) := by
    intro b
    rw [← List.drop_drop, List.drop_left]
    rfl
  have hload : load16 (pre ++ UInt8.ofNat Proto.NEWNODE_DNS :: len ::
      (name.1 ++ p₀ :: (p₁ :: post))) (pre.length + len.toNat + 2) = leNat port.1 := by
    have hoff : pre.length + len.toNat + 2 = pre.length + 2 + len.toNat := by omega
    rw [load16, hoff, ← List.drop_drop, hdrop, List.drop_left' hname.symm, hport]
    rfl
  rw [clnodelistRun]
  dsimp only
  rw [if_neg (by omega), hx, if_neg (by rw [hkind]; decide), if_neg (by rw [hkind]; decide),
    if_pos (hkind _), hbyte, ← hx, hsize, if_neg (by omega), hx, hload,
    getD_behind_name hname, set_behind_name hname, hbyte, set_behind_name hname, hbyte, hdrop,
    cString_name, List.take_left' hname.symm, ← hx, hname, ← hsize]
  rfl

/-- A complete item is handled, and the loop goes on if something is left. -/
theorem clnodelistRun_item (i : NodeItem) :
    clnodelistRun ntop6 (pre ++ (i.enc ++ post)).length (fuel + 1) pre.length
        ⟨pre ++ (i.enc ++ post), calls⟩ =
      if post ≠ [] then
        clnodelistRun ntop6 (pre ++ (i.enc ++ post)).length fuel (pre ++ i.enc).length
          ⟨pre ++ (i.enc ++ post), calls ++ [nodelistCallOf ntop6 i]⟩
      else .returned ⟨pre ++ (i.enc ++ post), calls ++ [nodelistCallOf ntop6 i]⟩ 1 := by
  cases i with
  | ipv4 addr port =>
      rw [clnodelistRun_ipv4]
      exact clnodelistRun_behind (enc_length_ipv4 addr port)
  | ipv6 addr port =>
      rw [clnodelistRun_ipv6]
      exact clnodelistRun_behind (enc_length_ipv6 addr port)
  | dns name port =>
      rw [clnodelistRun_dns]
      exact clnodelistRun_behind (enc_length_dns name port)

/-- What is left is no complete item of a known type. -/
theorem clnodelistRun_rest
    {t : UInt8} {x : List UInt8} {s : ClnodelistPass}
    (hbuf : s.buf = pre ++ t :: x) (hstop : NodeItem.read (t :: x) = none) :
    clnodelistRun ntop6 (pre ++ t :: x).length (fuel + 1) pre.length s =
      if NodeItem.Known t then .outside s else .returned s 0 := by
  have hlen : (pre ++ t :: x).length = pre.length + (x.length + 1) := by
    rw [List.length_append, List.length_cons]
  have hkind : byteAt s.buf pre.length = t.toNat := by
    rw [hbuf]
    exact byteAt_suffix
  rw [clnodelistRun]
  dsimp only
  rw [if_neg (by omega), hkind]
  rw [NodeItem.read] at hstop
  by_cases h4 : t.toNat = Proto.NEWNODE_IPV4
  · have hshort : ¬4 + 2 ≤ x.length := by
      intro hlong
      rw [if_pos h4, dif_pos hlong] at hstop
      cases hstop
    have hsize : Proto.NODELIST_ITEM_IPV4_SIZE = 7 := rfl
    rw [if_pos h4, if_pos (by omega), if_pos (.inl h4)]
  rw [if_neg h4] at hstop ⊢
  by_cases h6 : t.toNat = Proto.NEWNODE_IPV6
  · have hshort : ¬16 + 2 ≤ x.length := by
      intro hlong
      rw [if_pos h6, dif_pos hlong] at hstop
      cases hstop
    have hsize : Proto.NODELIST_ITEM_IPV6_SIZE = 19 := rfl
    rw [if_pos h6, if_pos (by omega), if_pos (.inr (.inl h6))]
  rw [if_neg h6] at hstop ⊢
  by_cases hdns : t.toNat = Proto.NEWNODE_DNS
  · rw [if_pos hdns] at hstop ⊢
    have hshort : (pre ++ t :: x).length < pre.length + 2 ∨
        (pre ++ t :: x).length < pre.length + byteAt s.buf (pre.length + 1) + 4 := by
      cases x with
      | nil =>
          rw [List.length_nil] at hlen
          exact .inl (by omega)
      | cons len y =>
          have hbyte : byteAt s.buf (pre.length + 1) = len.toNat := by
            rw [hbuf]
            simp [byteAt, List.getD_eq_getElem?_getD]
          have hname : ¬len.toNat + 2 ≤ y.length := by
            intro hlong
            rw [NodeItem.readName, dif_pos hlong] at hstop
            cases hstop
          rw [List.length_cons] at hlen
          exact .inr (by omega)
    rw [if_pos hshort, if_pos (.inr (.inr hdns))]
  · rw [if_neg hdns, if_neg]
    rintro (h | h | h)
    · exact h4 h
    · exact h6 h
    · exact hdns h

/-! ## The loop -/

/-- The list ends with an item, or with something of unknown type. -/
def Closed (rest : List UInt8) : Prop :=
  ∀ t ∈ rest.head?, ¬NodeItem.Known t

/-- A list that is not empty and ends so: the loop handles the items in front of the end. -/
theorem clnodelistRun_closed
    {x rest : List UInt8} {l : List NodeItem}
    (hsplits : Splits NodeItem.code x l rest) (hne : x ≠ []) (hclosed : Closed rest) :
    (l.length < fuel →
      clnodelistRun ntop6 (pre ++ x).length fuel pre.length ⟨pre ++ x, calls⟩ =
        .returned ⟨pre ++ x, calls ++ l.map (nodelistCallOf ntop6)⟩ (if rest = [] then 1 else 0)) ∧
      ∀ s, clnodelistRun ntop6 (pre ++ x).length fuel pre.length ⟨pre ++ x, calls⟩ ≠ .outside s := by
  induction fuel generalizing pre x l calls with
  | zero => exact ⟨fun h => absurd h (Nat.not_lt_zero _), fun s => nofun⟩
  | succ fuel ih =>
      cases l with
      | nil =>
          obtain rfl : x = rest := hsplits.eq
          obtain ⟨t, x, rfl⟩ := List.exists_cons_of_ne_nil hne
          have hunknown : ¬NodeItem.Known t := hclosed t rfl
          rw [clnodelistRun_rest rfl hsplits.stop, if_neg hunknown]
          refine ⟨fun _ => ?_, fun s => nofun⟩
          rw [List.map_nil, List.append_nil, if_neg (List.cons_ne_nil _ _)]
      | cons i l =>
          obtain ⟨y, rfl, hy⟩ := hsplits.exists_tail
          have hitem := @clnodelistRun_item ntop6 fuel pre y calls i
          change (_ → clnodelistRun ntop6 (pre ++ (i.enc ++ y)).length (fuel + 1) pre.length
              ⟨pre ++ (i.enc ++ y), calls⟩ = .returned ⟨pre ++ (i.enc ++ y), _⟩ _) ∧
            ∀ s, clnodelistRun ntop6 (pre ++ (i.enc ++ y)).length (fuel + 1) pre.length
              ⟨pre ++ (i.enc ++ y), calls⟩ ≠ .outside s
          rw [hitem]
          by_cases hnil : y = []
          · subst hnil
            obtain ⟨rfl, rfl⟩ := hy.nil_left
            rw [if_neg (not_not.mpr rfl)]
            exact ⟨fun _ => rfl, fun s => nofun⟩
          · have hrec := @ih (pre ++ i.enc) (calls ++ [nodelistCallOf ntop6 i]) y l hy hnil
            rw [List.append_assoc, List.append_assoc] at hrec
            rw [if_pos hnil]
            exact ⟨fun hfuel => hrec.1 (Nat.lt_of_succ_lt_succ hfuel), hrec.2⟩

/-- A list that is empty or ends with a part of an item: the loop leaves the message. -/
theorem clnodelistRun_open
    {x rest : List UInt8} {l : List NodeItem}
    (hsplits : Splits NodeItem.code x l rest) (hopen : ¬(x ≠ [] ∧ Closed rest)) :
    ∃ fuel s, clnodelistRun ntop6 (pre ++ x).length fuel pre.length ⟨pre ++ x, calls⟩ =
      .outside s := by
  induction l generalizing pre x calls with
  | nil =>
      obtain rfl : x = rest := hsplits.eq
      cases x with
      | nil =>
          refine ⟨1, ⟨pre ++ [], calls⟩, ?_⟩
          rw [clnodelistRun]
          dsimp only
          rw [if_pos (Nat.le_of_eq (by rw [List.append_nil]))]
      | cons t x =>
          have hknown : NodeItem.Known t := by
            by_contra hunknown
            refine hopen ⟨List.cons_ne_nil _ _, fun t' ht' => ?_⟩
            obtain rfl : t = t' := Option.some.inj ht'
            exact hunknown
          refine ⟨1, ⟨pre ++ t :: x, calls⟩, ?_⟩
          rw [clnodelistRun_rest rfl hsplits.stop, if_pos hknown]
  | cons i l ih =>
      obtain ⟨y, rfl, hy⟩ := hsplits.exists_tail
      have hnotclosed : ¬Closed rest := by
        intro hclosed
        refine hopen ⟨?_, hclosed⟩
        intro hnil
        exact NodeItem.code.enc_ne i (List.append_eq_nil_iff.mp hnil).1
      have hne : y ≠ [] := by
        rintro rfl
        obtain ⟨-, rfl⟩ := hy.nil_left
        exact hnotclosed nofun
      obtain ⟨fuel, s, hout⟩ := @ih (pre ++ i.enc) (calls ++ [nodelistCallOf ntop6 i]) y hy
        fun hboth => hnotclosed hboth.2
      refine ⟨fuel + 1, s, ?_⟩
      have hitem := @clnodelistRun_item ntop6 fuel pre y calls i
      rw [if_pos hne] at hitem
      rw [List.append_assoc] at hout
      exact hitem.trans hout

/-! ## The loop in `Clnodelist.lean` -/

theorem swap_back {buf : Frame} {z : Nat} {b : UInt8} (hz : z < buf.length) :
    (buf.set z b).set z (buf.getD z 0) = buf := by
  rw [List.set_set, List.getD_eq_getElem?_getD, List.getElem?_eq_getElem hz, Option.getD_some,
    List.set_getElem_self]

theorem byteAt_set_ne {buf : Frame} {i z : Nat} {b : UInt8} (h : z ≠ i) :
    byteAt (buf.set z b) i = byteAt buf i := by
  rw [byteAt, byteAt, List.getD_eq_getElem?_getD, List.getD_eq_getElem?_getD,
    List.getElem?_set_ne h]

theorem drop_set_zero {buf : Frame} {off n : Nat} (h : off + n < buf.length) :
    (buf.set (off + n) 0).drop off =
      (buf.drop off).take n ++ 0 :: (buf.drop (off + n + 1)) := by
  rw [List.set_eq_take_append_cons_drop, if_pos h, List.drop_append_of_le_length, List.drop_take,
    Nat.add_sub_cancel_left]
  rw [List.length_take]
  omega

/-- **The loop in `Clnodelist.lean`, which keeps the buffer as it is, is this one.** -/
theorem clnodelistRun_of_loop
    {buf : Frame} {pos r : Nat} {called : List NodelistCall}
    (h : clnodelistLoop ntop6 buf fuel pos = .ok (called, r)) :
    clnodelistRun ntop6 buf.length fuel pos ⟨buf, calls⟩ = .returned ⟨buf, calls ++ called⟩ r := by
  induction fuel generalizing pos calls called r with
  | zero => cases h
  | succ fuel ih =>
      -- the end of a pass
      have hgo : ∀ {size : Nat} {call : NodelistCall}, ¬buf.length < pos + size →
          (if buf.length < pos + size then (.error .bounds : Except Fault (List NodelistCall × Nat))
            else if pos + size < buf.length then do
              let r ← clnodelistLoop ntop6 buf fuel (pos + size)
              pure (call :: r.1, r.2)
            else pure ([call], 1)) = .ok (called, r) →
          (if pos + size < buf.length then
              clnodelistRun ntop6 buf.length fuel (pos + size) ⟨buf, calls ++ [call]⟩
            else .returned ⟨buf, calls ++ [call]⟩ 1) = .returned ⟨buf, calls ++ called⟩ r := by
        intro size call hroom hres
        rw [if_neg hroom] at hres
        by_cases hmore : pos + size < buf.length
        · rw [if_pos hmore] at hres ⊢
          obtain ⟨⟨rest, r'⟩, hrest, hend⟩ := bind_eq_ok.mp hres
          cases hend
          rw [ih hrest, List.append_assoc]
          rfl
        · rw [if_neg hmore] at hres ⊢
          cases hres
          rfl
      have hroom : ∀ {size : Nat} {y : Except Fault (List NodelistCall × Nat)},
          (if buf.length < pos + size then .error .bounds else y) = .ok (called, r) →
          ¬buf.length < pos + size := by
        intro size y hres hshort
        rw [if_pos hshort] at hres
        cases hres
      rw [clnodelistLoop] at h
      rw [clnodelistRun]
      dsimp only at h ⊢
      by_cases hend : buf.length ≤ pos
      · rw [if_pos hend] at h
        cases h
      rw [if_neg hend] at h ⊢
      by_cases h4 : byteAt buf pos = Proto.NEWNODE_IPV4
      · rw [if_pos h4] at h ⊢
        rw [if_neg (hroom h)]
        exact hgo (hroom h) h
      rw [if_neg h4] at h ⊢
      by_cases h6 : byteAt buf pos = Proto.NEWNODE_IPV6
      · rw [if_pos h6] at h ⊢
        rw [if_neg (hroom h)]
        exact hgo (hroom h) h
      rw [if_neg h6] at h ⊢
      by_cases hdns : byteAt buf pos = Proto.NEWNODE_DNS
      · rw [if_pos hdns] at h ⊢
        have hlong := hroom h
        have hname : pos + 2 + byteAt buf (pos + 1) ≠ pos + 1 := by omega
        rw [if_neg (by omega), byteAt_set_ne hname, swap_back (by omega), drop_set_zero (by omega),
          cString_name]
        have htake : ((buf.drop (pos + 2)).take (byteAt buf (pos + 1)) ++
            0 :: buf.drop (pos + 2 + byteAt buf (pos + 1) + 1)).take (byteAt buf (pos + 1)) =
              (buf.drop (pos + 2)).take (byteAt buf (pos + 1)) := by
          refine List.take_left' ?_
          rw [List.length_take, List.length_drop]
          omega
        rw [htake]
        exact hgo hlong h
      · rw [if_neg hdns] at h ⊢
        cases h
        rw [List.append_nil]

end Pass

/-- `procmsg_CLNODELIST` reads and writes nothing outside the message and leaves the buffer as
it was; it calls `nodelist_cb` once for each item of a list of complete items, in order, and
rejects every other list after calls for the items in front of the first malformed one. -/
structure ClnodelistExact (ntop6 : List UInt8 → List Char) (f : Frame) : Prop where
  inside : ∀ fuel s, procmsgCLNODELISTRun ntop6 f fuel ≠ .outside s
  exact : ∀ items : List NodeItem, f.drop 4 = items.flatMap NodeItem.enc →
    ∃ fuel, procmsgCLNODELISTRun ntop6 f fuel =
      .returned ⟨f, items.map (nodelistCallOf ntop6)⟩ 1
  rejects : ∀ items rest, Splits NodeItem.code (f.drop 4) items rest → rest ≠ [] →
    ∃ fuel calls, procmsgCLNODELISTRun ntop6 f fuel = .returned ⟨f, calls⟩ 0 ∧
      calls <+: items.map (nodelistCallOf ntop6)

/-- **`procmsg_CLNODELIST` is exact** when the list is not empty and does not end with a part
of an item of a known type, and only then. -/
theorem clnodelist_exact_iff
    {σ : Type} (h : Nat → σ → Frame → σ × Nat) (ntop6 : List UInt8 → List Char) (f : Frame)
    (hid : byteAt f 0 = Proto.CLNODELIST)
    (hsize : msggetsize f f.length (c2nTable h) = f.length) :
    ClnodelistExact ntop6 f ↔
      f.drop 4 ≠ [] ∧ ∃ items rest, Splits NodeItem.code (f.drop 4) items rest ∧
        ∀ t ∈ rest.head?, ¬NodeItem.Known t := by
  have hentry : entryOf (c2nTable h) (byteAt f 0) = some (.varSize, 2) := by
    rw [hid]
    rfl
  have hlen := length_of_entry hentry hsize
  have hpre : (f.take 4).length = 4 := by
    rw [List.length_take]
    omega
  have hrun : ∀ fuel, procmsgCLNODELISTRun ntop6 f fuel =
      clnodelistRun ntop6 (f.take 4 ++ f.drop 4).length fuel (f.take 4).length
        ⟨f.take 4 ++ f.drop 4, []⟩ := by
    intro fuel
    rw [procmsgCLNODELISTRun, hpre, List.take_append_drop]
  constructor
  · intro hexact
    obtain ⟨items, rest, hsplits⟩ := exists_splits (c := NodeItem.code) (f.drop 4)
    by_contra hother
    have hopen : ¬(f.drop 4 ≠ [] ∧ Closed rest) := fun hboth =>
      hother ⟨hboth.1, items, rest, hsplits, hboth.2⟩
    obtain ⟨fuel, s, hout⟩ := clnodelistRun_open hsplits hopen
    exact hexact.inside fuel s ((hrun fuel).trans hout)
  · rintro ⟨hne, items, rest, hsplits, hclosed⟩
    have hreturned : procmsgCLNODELISTRun ntop6 f (items.length + 1) =
        .returned ⟨f, items.map (nodelistCallOf ntop6)⟩ (if rest = [] then 1 else 0) := by
      rw [hrun, (clnodelistRun_closed hsplits hne hclosed).1 (Nat.lt_succ_self _),
        List.take_append_drop, List.nil_append]
    refine ⟨fun fuel s => ?_, fun others hothers => ?_, fun others rest' hothers hne' => ?_⟩
    · rw [hrun]
      exact (clnodelistRun_closed hsplits hne hclosed).2 s
    · obtain ⟨rfl, rfl⟩ := hsplits.of_sequence hothers
      exact ⟨_, hreturned⟩
    · obtain ⟨rfl, rfl⟩ := hsplits.unique hothers
      rw [if_neg hne'] at hreturned
      exact ⟨_, _, hreturned, List.prefix_rfl⟩

/-- A frame with a list. -/
def clnodelistOf (list : List UInt8) : Frame :=
  head Proto.CLNODELIST ++ le16 list.length ++ list

/-- A name of two letters. -/
theorem clnodelist_exact_name :
    ClnodelistExact (fun _ => []) (clnodelistOf [162, 2, 97, 98, 0, 80]) :=
  (clnodelist_exact_iff (fun _ (s : Unit) _ => (s, 1)) (fun _ => [])
    (clnodelistOf [162, 2, 97, 98, 0, 80]) (by decide) (by decide)).mpr
    ⟨by decide, [.dns ⟨[97, 98], by decide⟩ ⟨[0, 80], rfl⟩], [], ⟨rfl, rfl⟩, nofun⟩

/-- An empty list, and a list that ends with two bytes of an IPv4 address: bytes behind the
message are read. -/
theorem clnodelist_outside :
    (∃ s, procmsgCLNODELISTRun (fun _ => []) (clnodelistOf []) 1 = .outside s) ∧
      ∃ s, procmsgCLNODELISTRun (fun _ => []) (clnodelistOf [160, 1]) 1 = .outside s :=
  ⟨⟨_, rfl⟩, ⟨_, rfl⟩⟩

end Client
end PicaPica
