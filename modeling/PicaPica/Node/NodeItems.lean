import PicaPica.ByteOrder
import PicaPica.Lib.Items

/-!
# Items of a list of nodes

An item is an IPv4 address, an IPv6 address or a name, with a port.  `NodeItem.code` writes
and reads them as the protocol says, and `nodelistRun` is the loop of `procmsg_NODELIST` on
`unsigned int`, for lists of all contents.  The loop handles IPv4 addresses only; an item of
another type does not advance it, and a short item makes it leave the message.
-/

namespace PicaPica

open Items

/-- A number of bytes. -/
abbrev Bytes (n : Nat) : Type :=
  { l : List UInt8 // l.length = n }

/-- An address of a node; the bytes stand as in the message. -/
inductive NodeItem
  | ipv4 (addr : Bytes 4) (port : Bytes 2)
  | ipv6 (addr : Bytes 16) (port : Bytes 2)
  | dns (name : { l : List UInt8 // l.length < 256 }) (port : Bytes 2)
deriving DecidableEq

namespace NodeItem

def enc : NodeItem → List UInt8
  | ipv4 addr port => UInt8.ofNat Proto.NEWNODE_IPV4 :: (addr.1 ++ port.1)
  | ipv6 addr port => UInt8.ofNat Proto.NEWNODE_IPV6 :: (addr.1 ++ port.1)
  | dns name port =>
      UInt8.ofNat Proto.NEWNODE_DNS :: UInt8.ofNat name.1.length :: (name.1 ++ port.1)

/-- The bytes `[off, off + n)` of a list that is long enough. -/
def field (x : List UInt8) (off n : Nat) (h : off + n ≤ x.length) : Bytes n :=
  ⟨(x.drop off).take n, by
    rw [List.length_take, List.length_drop]
    omega⟩

/-- A name behind its length, and the port. -/
def readName : List UInt8 → Option (NodeItem × List UInt8)
  | [] => none
  | len :: y =>
      if h : len.toNat + 2 ≤ y.length then
        some (dns ⟨y.take len.toNat, Nat.lt_of_le_of_lt (List.length_take_le _ _) len.toNat_lt⟩
          (field y len.toNat 2 h), y.drop (len.toNat + 2))
      else none

def read : List UInt8 → Option (NodeItem × List UInt8)
  | [] => none
  | t :: x =>
      if t.toNat = Proto.NEWNODE_IPV4 then
        if h : 4 + 2 ≤ x.length then
          some (ipv4 (field x 0 4 (by omega)) (field x 4 2 h), x.drop 6)
        else none
      else if t.toNat = Proto.NEWNODE_IPV6 then
        if h : 16 + 2 ≤ x.length then
          some (ipv6 (field x 0 16 (by omega)) (field x 16 2 h), x.drop 18)
        else none
      else if t.toNat = Proto.NEWNODE_DNS then readName x
      else none

theorem field_append
    {pre x rest : List UInt8} {n : Nat} (b : Bytes n) {off : Nat} (hoff : pre.length = off)
    (hx : x = pre ++ (b.1 ++ rest)) (h : off + n ≤ x.length) :
    field x off n h = b := by
  subst hx hoff
  apply Subtype.ext
  rw [field]
  dsimp only
  rw [List.drop_left, List.take_left' b.2]

theorem field_front
    {x rest : List UInt8} {n : Nat} (b : Bytes n) (hx : x = b.1 ++ rest)
    (h : 0 + n ≤ x.length) :
    field x 0 n h = b := by
  have hpre : ([] : List UInt8).length = 0 := rfl
  exact field_append b hpre hx h

theorem drop_fields
    {a b rest : List UInt8} {n : Nat} (h : a.length + b.length = n) :
    (a ++ (b ++ rest)).drop n = rest := by
  rw [← List.append_assoc, List.drop_left' (by rw [List.length_append, h])]

theorem read_enc (i : NodeItem) (rest : List UInt8) :
    read (i.enc ++ rest) = some (i, rest) := by
  cases i with
  | ipv4 addr port =>
      have hx : addr.1 ++ port.1 ++ rest = addr.1 ++ (port.1 ++ rest) := List.append_assoc _ _ _
      have hlen : 4 + 2 ≤ (addr.1 ++ port.1 ++ rest).length := by
        rw [List.length_append, List.length_append, addr.2, port.2]
        omega
      rw [enc, List.cons_append, read, if_pos (by decide), dif_pos hlen,
        field_front addr hx, field_append port addr.2 hx]
      rw [hx, drop_fields (by rw [addr.2, port.2])]
  | ipv6 addr port =>
      have hx : addr.1 ++ port.1 ++ rest = addr.1 ++ (port.1 ++ rest) := List.append_assoc _ _ _
      have hlen : 16 + 2 ≤ (addr.1 ++ port.1 ++ rest).length := by
        rw [List.length_append, List.length_append, addr.2, port.2]
        omega
      rw [enc, List.cons_append, read, if_neg (by decide), if_pos (by decide), dif_pos hlen,
        field_front addr hx, field_append port addr.2 hx]
      rw [hx, drop_fields (by rw [addr.2, port.2])]
  | dns name port =>
      have hx : name.1 ++ port.1 ++ rest = name.1 ++ (port.1 ++ rest) := List.append_assoc _ _ _
      have hbyte : (UInt8.ofNat name.1.length).toNat = name.1.length := by
        rw [UInt8.toNat_ofNat', Nat.mod_eq_of_lt name.2]
      have hlen : (UInt8.ofNat name.1.length).toNat + 2 ≤ (name.1 ++ port.1 ++ rest).length := by
        rw [List.length_append, List.length_append, port.2, hbyte]
        omega
      rw [enc, List.cons_append, List.cons_append, read, if_neg (by decide), if_neg (by decide),
        if_pos (by decide), readName, dif_pos hlen, field_append port hbyte.symm hx]
      have hname : (name.1 ++ port.1 ++ rest).take (UInt8.ofNat name.1.length).toNat = name.1 := by
        rw [hx, hbyte, List.take_left]
      have hrest : (name.1 ++ port.1 ++ rest).drop ((UInt8.ofNat name.1.length).toNat + 2) =
          rest := by
        rw [hx, hbyte, drop_fields (by rw [port.2])]
      rw [hrest]
      congr 3
      exact Subtype.ext hname

/-- The two fields and what follows them. -/
theorem fields_eq
    {x : List UInt8} (m n : Nat) :
    x = x.take m ++ (x.drop m).take n ++ x.drop (m + n) := by
  rw [List.append_assoc, ← List.drop_drop, List.take_append_drop, List.take_append_drop]

theorem enc_of_read (x : List UInt8) (i : NodeItem) (rest : List UInt8)
    (h : read x = some (i, rest)) :
    x = i.enc ++ rest := by
  cases x with
  | nil => cases h
  | cons t x =>
      have htype : ∀ {k : Nat}, k < 256 → t.toNat = k → UInt8.ofNat k = t := by
        rintro k - rfl
        exact UInt8.ofNat_toNat
      rw [read] at h
      split_ifs at h with h4 hlen h6 hlen hdns
      · cases h
        rw [enc, htype (by decide) h4, List.cons_append]
        exact congrArg (t :: ·) (fields_eq 4 2)
      · cases h
        rw [enc, htype (by decide) h6, List.cons_append]
        exact congrArg (t :: ·) (fields_eq 16 2)
      · cases x with
        | nil => cases h
        | cons len y =>
            rw [readName] at h
            split_ifs at h with hlen
            cases h
            have hname : (y.take len.toNat).length = len.toNat := by
              rw [List.length_take]
              omega
            rw [enc, htype (by decide) hdns]
            dsimp only
            rw [hname, UInt8.ofNat_toNat, List.cons_append, List.cons_append]
            exact congrArg (t :: len :: ·) (fields_eq len.toNat 2)

/-- The type of an item. -/
def Known (t : UInt8) : Prop :=
  t.toNat = Proto.NEWNODE_IPV4 ∨ t.toNat = Proto.NEWNODE_IPV6 ∨ t.toNat = Proto.NEWNODE_DNS

instance (t : UInt8) : Decidable (Known t) :=
  inferInstanceAs (Decidable (_ ∨ _ ∨ _))

/-- The items of a list, as the protocol defines them. -/
def code : Code NodeItem UInt8 where
  enc := enc
  read := read
  read_enc := read_enc
  enc_of_read := enc_of_read
  enc_ne i := by cases i <;> exact List.cons_ne_nil _ _

end NodeItem

/-- How a loop ends, with a bound on the number of its passes. -/
inductive LoopEnd (σ : Type)
  | returned (s : σ) (ret : Nat)
  /-- a byte outside the message is read or written -/
  | outside (s : σ)
  /-- the bound is reached -/
  | running (s : σ)

/-- The address of an item with an IPv4 address. -/
def NodeItem.sockAddr : NodeItem → Option SockAddr
  | ipv4 addr port => some ⟨leNat addr.1, leNat port.1⟩
  | _ => none

/-! ## `procmsg_NODELIST` -/

/-- What the loop of `procmsg_NODELIST` has done. -/
structure NodelistPass where
  node : Node
  /-- what has been given to `PICA_nodeaddr_save` -/
  saved : List Nodeaddr
  /-- the bytes of the items -/
  handled : List (List UInt8)

/-- An IPv4 address is the one of the sender, or is saved. -/
def NodelistPass.takeAddr (s : NodelistPass) (nl : Ptr) (first : Bool) (a : SockAddr)
    (item : List UInt8) : NodelistPass where
  node := if first then s.node.nodelinkAttachNodeaddr nl a else s.node
  saved :=
    if first ∨ s.node.disableReservedAddrs ∧ isReservedAddrIpv4 a.addr then s.saved
    else s.saved ++ [nodeaddrOf a]
  handled := s.handled ++ [item]

/-- The loop of `procmsg_NODELIST`.  Behind the first item an address of unknown type is saved
as well: its text is empty, and its port has not been set. -/
def nodelistRun (nl : Ptr) (unset : Nat) (buf : Frame) (listsize : Nat) :
    Nat → Nat → NodelistPass → LoopEnd NodelistPass
  | _, 0, s => .returned s 1
  | 0, _, s => .running s
  | fuel + 1, listleft, s =>
      let pos := usub buf.length listleft
      if buf.length ≤ pos then .outside s
      else if byteAt buf pos = Proto.NEWNODE_IPV4 then
        if buf.length < pos + Proto.NODELIST_ITEM_IPV4_SIZE then .outside s
        else
          nodelistRun nl unset buf listsize fuel (usub listleft Proto.NODELIST_ITEM_IPV4_SIZE)
            (s.takeAddr nl (listleft = listsize) (addrAt buf (pos + 1))
              ((buf.drop pos).take Proto.NODELIST_ITEM_IPV4_SIZE))
      else if listleft = listsize then nodelistRun nl unset buf listsize fuel listleft s
      else
        nodelistRun nl unset buf listsize fuel listleft
          { s with saved := s.saved ++ [⟨[], unset⟩] }

/-- `procmsg_NODELIST` with a bound on the passes of its loop. -/
def procmsgNODELISTRun (n : Node) (nl : Ptr) (unset : Nat) (buf : Frame) (fuel : Nat) :
    LoopEnd NodelistPass :=
  nodelistRun nl unset buf (usub buf.length 4) fuel (usub buf.length 4) ⟨n, [], []⟩

section Run

variable {nl : Ptr} {unset : Nat} {buf : Frame} {listsize listleft fuel : Nat} {s : NodelistPass}

theorem nodelistRun_zero : nodelistRun nl unset buf listsize fuel 0 s = .returned s 1 := by
  cases fuel with
  | zero => rfl
  | succ fuel => rfl

theorem takeAddr_pair
    {first : Bool} {a : SockAddr} {item : List UInt8} :
    ((s.takeAddr nl first a item).node, (s.takeAddr nl first a item).saved) =
      if first then (s.node.nodelinkAttachNodeaddr nl a, s.saved)
      else if s.node.disableReservedAddrs ∧ isReservedAddrIpv4 a.addr then (s.node, s.saved)
      else (s.node, s.saved ++ [nodeaddrOf a]) := by
  cases first with
  | true => rfl
  | false =>
      by_cases hres : s.node.disableReservedAddrs ∧ isReservedAddrIpv4 a.addr
      · simp [NodelistPass.takeAddr, hres]
      · simp [NodelistPass.takeAddr, hres]

/-- **The loop in `NodeList.lean`, which stops at an item it cannot handle, is this one.** -/
theorem nodelistRun_of_saving
    {r : Node × List Nodeaddr}
    (hle : listleft ≤ buf.length)
    (h : nodelistLoopSaving nl buf buf.length listsize fuel listleft (s.node, s.saved) = .ok r) :
    ∃ t, nodelistRun nl unset buf listsize fuel listleft s = .returned t 1 ∧
      (t.node, t.saved) = r := by
  induction fuel generalizing listleft s with
  | zero =>
      cases listleft with
      | zero =>
          cases h
          exact ⟨s, rfl, rfl⟩
      | succ k => cases h
  | succ fuel ih =>
      by_cases hzero : listleft = 0
      · subst hzero
        cases h
        exact ⟨s, rfl, rfl⟩
      have hpos : usub buf.length listleft = buf.length - listleft := usub_eq hle
      have hseven : Proto.NODELIST_ITEM_IPV4_SIZE = 7 := rfl
      rw [nodelistLoopSaving] at h
      · by_cases hkind : byteAt buf (buf.length - listleft) = Proto.NEWNODE_IPV4
        · rw [if_neg (not_not.mpr hkind)] at h
          by_cases hroom : listleft < Proto.NODELIST_ITEM_IPV4_SIZE
          · rw [if_pos hroom] at h
            cases h
          · rw [if_neg hroom] at h
            rw [nodelistRun, hpos]
            · rw [if_neg (by omega), if_pos hkind, if_neg (by omega),
                usub_eq (Nat.le_of_not_lt hroom)]
              refine ih (by omega) ?_
              simp only [takeAddr_pair, decide_eq_true_eq]
              exact h
            · exact hzero
        · rw [if_pos hkind] at h
          cases h
      · exact hzero

/-! One pass, at the place where the list `x` begins. -/

theorem usub_suffix {pre x : List UInt8} : usub (pre ++ x).length x.length = pre.length := by
  rw [List.length_append, usub_eq (Nat.le_add_left _ _), Nat.add_sub_cancel]

theorem byteAt_suffix {pre x : List UInt8} {t : UInt8} :
    byteAt (pre ++ t :: x) pre.length = t.toNat := by
  simp [byteAt, List.getD_eq_getElem?_getD]

theorem addrAt_suffix
    {pre post : List UInt8} {t : UInt8} (addr : Bytes 4) (port : Bytes 2) :
    addrAt (pre ++ t :: (addr.1 ++ port.1 ++ post)) (pre.length + 1) =
      ⟨leNat addr.1, leNat port.1⟩ := by
  have hdrop : (pre ++ t :: (addr.1 ++ port.1 ++ post)).drop (pre.length + 1) =
      addr.1 ++ (port.1 ++ post) := by
    rw [← List.drop_drop, List.drop_left, List.drop_succ_cons, List.drop_zero, List.append_assoc]
  have hport : (pre ++ t :: (addr.1 ++ port.1 ++ post)).drop (pre.length + 1 + 4) =
      port.1 ++ post := by
    rw [← List.drop_drop, hdrop, List.drop_left' addr.2]
  rw [addrAt, load16, hport, hdrop, List.take_left' addr.2, List.take_left' port.2]

/-- What an item does to the state of the loop. -/
def NodelistPass.takeItem (s : NodelistPass) (nl : Ptr) (first : Bool) (i : NodeItem) :
    NodelistPass :=
  match i.sockAddr with
  | some a => s.takeAddr nl first a i.enc
  | none => s

theorem nodelistRun_ipv4
    {pre post : List UInt8} {addr : Bytes 4} {port : Bytes 2} :
    let x := (NodeItem.ipv4 addr port).enc ++ post
    nodelistRun nl unset (pre ++ x) listsize (fuel + 1) x.length s =
      nodelistRun nl unset (pre ++ x) listsize fuel post.length
        (s.takeItem nl (x.length = listsize) (.ipv4 addr port)) := by
  intro x
  have hseven : Proto.NODELIST_ITEM_IPV4_SIZE = 7 := rfl
  have hitem : (NodeItem.ipv4 addr port).enc.length = 7 := by
    rw [NodeItem.enc, List.length_cons, List.length_append, addr.2, port.2]
  have hx : x.length = 7 + post.length := by rw [List.length_append, hitem]
  have hkind : byteAt (pre ++ x) pre.length = Proto.NEWNODE_IPV4 := byteAt_suffix
  have haddr : addrAt (pre ++ x) (pre.length + 1) = ⟨leNat addr.1, leNat port.1⟩ :=
    addrAt_suffix addr port
  have htake : ((pre ++ x).drop pre.length).take Proto.NODELIST_ITEM_IPV4_SIZE =
      (NodeItem.ipv4 addr port).enc := by
    rw [List.drop_left, hseven, List.take_left' hitem]
  have hnext : usub x.length Proto.NODELIST_ITEM_IPV4_SIZE = post.length := by
    rw [hseven, usub_eq (by omega), hx, Nat.add_sub_cancel_left]
  have hlen : (pre ++ x).length = pre.length + (7 + post.length) := by
    rw [List.length_append, hx]
  rw [nodelistRun, usub_suffix]
  · rw [if_neg (by omega), if_pos hkind, if_neg (by omega), haddr, htake, hnext]
    rfl
  · omega

/-- A short item with an IPv4 address. -/
theorem nodelistRun_short
    {pre x : List UInt8} {t : UInt8}
    (ht : t.toNat = Proto.NEWNODE_IPV4) (hshort : x.length < 6) :
    nodelistRun nl unset (pre ++ t :: x) listsize (fuel + 1) (t :: x).length s = .outside s := by
  have hkind : byteAt (pre ++ t :: x) pre.length = Proto.NEWNODE_IPV4 := by
    rw [byteAt_suffix, ht]
  have hseven : Proto.NODELIST_ITEM_IPV4_SIZE = 7 := rfl
  have hlen : (pre ++ t :: x).length = pre.length + (x.length + 1) := by
    rw [List.length_append, List.length_cons]
  rw [nodelistRun, usub_suffix]
  · rw [if_neg (by omega), if_pos hkind, if_pos (by omega)]
  · exact nofun

/-- An item of another type. -/
theorem nodelistRun_unknown
    {pre x : List UInt8} {t : UInt8}
    (ht : t.toNat ≠ Proto.NEWNODE_IPV4) :
    ∃ s', nodelistRun nl unset (pre ++ t :: x) listsize fuel (t :: x).length s = .running s' := by
  have hkind : byteAt (pre ++ t :: x) pre.length ≠ Proto.NEWNODE_IPV4 := by
    rwa [byteAt_suffix]
  have hlen : (pre ++ t :: x).length = pre.length + (x.length + 1) := by
    rw [List.length_append, List.length_cons]
  induction fuel generalizing s with
  | zero => exact ⟨s, rfl⟩
  | succ fuel ih =>
      rw [nodelistRun, usub_suffix]
      · rw [if_neg (by omega), if_neg hkind]
        split_ifs
        · exact ih
        · exact ih
      · exact nofun

/-! The loop. -/

def NodelistPass.takeItems (nl : Ptr) : Bool → NodelistPass → List NodeItem → NodelistPass
  | _, s, [] => s
  | first, s, i :: l => takeItems nl false (s.takeItem nl first i) l

theorem length_flatMap_enc_lt
    {i : NodeItem} {x : List UInt8} :
    x.length < (i.enc ++ x).length := by
  rw [List.length_append]
  exact Nat.lt_add_of_pos_left (NodeItem.code.enc_length i)

/-- IPv4 addresses up to the end. -/
theorem nodelistRun_items
    {pre : List UInt8} {l : List NodeItem} {first : Bool}
    (hall : ∀ i ∈ l, i.sockAddr ≠ none)
    (hfirst : first = decide ((l.flatMap NodeItem.enc).length = listsize))
    (hle : (l.flatMap NodeItem.enc).length ≤ listsize) (hfuel : l.length ≤ fuel) :
    nodelistRun nl unset (pre ++ l.flatMap NodeItem.enc) listsize fuel
        (l.flatMap NodeItem.enc).length s =
      .returned (s.takeItems nl first l) 1 := by
  induction l generalizing pre fuel s first with
  | nil => exact nodelistRun_zero
  | cons i l ih =>
      obtain ⟨fuel, rfl⟩ : ∃ k, fuel = k + 1 := ⟨fuel - 1, by
        rw [List.length_cons] at hfuel
        omega⟩
      rw [List.flatMap_cons] at hfirst hle ⊢
      have hlt := @length_flatMap_enc_lt i (l.flatMap NodeItem.enc)
      cases i with
      | ipv4 addr port =>
          rw [nodelistRun_ipv4, ← hfirst, ← List.append_assoc]
          refine ih (fun j hj => hall j (List.mem_cons_of_mem _ hj)) ?_ (by omega) ?_
          · exact (decide_eq_false (by omega)).symm
          · exact Nat.le_of_succ_le_succ hfuel
      | ipv6 addr port => exact absurd rfl (hall _ List.mem_cons_self)
      | dns name port => exact absurd rfl (hall _ List.mem_cons_self)

/-- With fewer passes than items the loop is still running. -/
theorem nodelistRun_few
    {pre : List UInt8} {l : List NodeItem}
    (hall : ∀ i ∈ l, i.sockAddr ≠ none) (hfuel : fuel < l.length) :
    ∃ s', nodelistRun nl unset (pre ++ l.flatMap NodeItem.enc) listsize fuel
      (l.flatMap NodeItem.enc).length s = .running s' := by
  induction l generalizing pre fuel s with
  | nil => cases hfuel
  | cons i l ih =>
      rw [List.flatMap_cons]
      cases i with
      | ipv4 addr port =>
          cases fuel with
          | zero => exact ⟨s, rfl⟩
          | succ fuel =>
              rw [nodelistRun_ipv4, ← List.append_assoc]
              refine ih (fun j hj => hall j (List.mem_cons_of_mem _ hj)) ?_
              exact Nat.lt_of_succ_lt_succ hfuel
      | ipv6 addr port => exact absurd rfl (hall _ List.mem_cons_self)
      | dns name port => exact absurd rfl (hall _ List.mem_cons_self)

/-- A list that contains anything else. -/
theorem nodelistRun_other
    {pre x rest : List UInt8} {l : List NodeItem}
    (hsplits : Splits NodeItem.code x l rest)
    (hother : ¬(rest = [] ∧ ∀ i ∈ l, i.sockAddr ≠ none)) :
    (∃ fuel s', nodelistRun nl unset (pre ++ x) listsize fuel x.length s = .outside s') ∨
      ∀ fuel, ∃ s', nodelistRun nl unset (pre ++ x) listsize fuel x.length s = .running s' := by
  induction l generalizing pre x s with
  | nil =>
      obtain rfl : x = rest := hsplits.eq
      cases x with
      | nil => exact absurd ⟨rfl, nofun⟩ hother
      | cons t x =>
          by_cases ht : t.toNat = Proto.NEWNODE_IPV4
          · have hshort : x.length < 6 := by
              by_contra hlong
              have hstop : NodeItem.read (t :: x) = none := hsplits.stop
              rw [NodeItem.read, if_pos ht, dif_pos (by omega)] at hstop
              cases hstop
            exact .inl ⟨1, s, nodelistRun_short ht hshort⟩
          · exact .inr fun fuel => nodelistRun_unknown ht
  | cons i l ih =>
      obtain ⟨y, rfl, hy⟩ := hsplits.exists_tail
      change (∃ fuel s', nodelistRun nl unset (pre ++ (i.enc ++ y)) listsize fuel
          (i.enc ++ y).length s = .outside s') ∨
        ∀ fuel, ∃ s', nodelistRun nl unset (pre ++ (i.enc ++ y)) listsize fuel
          (i.enc ++ y).length s = .running s'
      cases i with
      | ipv4 addr port =>
          have hrest : ¬(rest = [] ∧ ∀ i ∈ l, i.sockAddr ≠ none) := by
            rintro ⟨hnil, hall⟩
            refine hother ⟨hnil, fun j hj => ?_⟩
            rcases List.mem_cons.mp hj with rfl | hj
            · exact nofun
            · exact hall j hj
          rcases @ih (s.takeItem nl (((NodeItem.ipv4 addr port).enc ++ y).length = listsize)
            (.ipv4 addr port)) (pre ++ (NodeItem.ipv4 addr port).enc) y hy hrest with
            ⟨fuel, s', hout⟩ | hrun
          · refine .inl ⟨fuel + 1, s', ?_⟩
            rw [nodelistRun_ipv4, ← List.append_assoc]
            exact hout
          · refine .inr fun fuel => ?_
            cases fuel with
            | zero => exact ⟨s, rfl⟩
            | succ fuel =>
                rw [nodelistRun_ipv4, ← List.append_assoc]
                exact hrun fuel
      | ipv6 addr port => exact .inr fun fuel => nodelistRun_unknown (by decide)
      | dns name port => exact .inr fun fuel => nodelistRun_unknown (by decide)

end Run

/-! ## The lists that are handled -/

/-- What the items of a list are to become: the first is the address of the sender, and the
others are saved, unless they are reserved. -/
def NodelistPass.expected (n : Node) (nl : Ptr) (items : List NodeItem) : NodelistPass where
  node :=
    match items.head?.bind NodeItem.sockAddr with
    | some own => n.nodelinkAttachNodeaddr nl own
    | none => n
  saved := offered n (items.tail.filterMap NodeItem.sockAddr)
  handled := items.map NodeItem.enc

/-- `procmsg_NODELIST` ends and reads nothing outside the message; it handles each item of a
list of complete items once and in order, and rejects every other list without saving an
address that is not in it. -/
structure NodelistExact (n : Node) (nl : Ptr) (unset : Nat) (f : Frame) : Prop where
  ends : ∃ fuel, ∀ s, procmsgNODELISTRun n nl unset f fuel ≠ .running s
  inside : ∀ fuel s, procmsgNODELISTRun n nl unset f fuel ≠ .outside s
  exact : ∀ items : List NodeItem, f.drop 4 = items.flatMap NodeItem.enc →
    ∃ fuel, procmsgNODELISTRun n nl unset f fuel = .returned (.expected n nl items) 1
  rejects : ∀ items rest, Splits NodeItem.code (f.drop 4) items rest → rest ≠ [] →
    ∃ fuel s, procmsgNODELISTRun n nl unset f fuel = .returned s 0 ∧
      ∀ a ∈ s.saved, a ∈ (items.filterMap NodeItem.sockAddr).map nodeaddrOf

section Exact

variable {n : Node} {nl : Ptr} {unset : Nat} {f : Frame}

theorem takeItems_false
    {s : NodelistPass} {l : List NodeItem}
    (hall : ∀ i ∈ l, i.sockAddr ≠ none) :
    s.takeItems nl false l =
      ⟨s.node, s.saved ++ offered s.node (l.filterMap NodeItem.sockAddr),
        s.handled ++ l.map NodeItem.enc⟩ := by
  induction l generalizing s with
  | nil => simp [NodelistPass.takeItems, offered]
  | cons i l ih =>
      obtain ⟨a, ha⟩ := Option.ne_none_iff_exists'.mp (hall i List.mem_cons_self)
      rw [NodelistPass.takeItems, ih fun j hj => hall j (List.mem_cons_of_mem _ hj),
        NodelistPass.takeItem, ha, List.filterMap_cons_some ha, offered_cons]
      by_cases hres : s.node.disableReservedAddrs ∧ isReservedAddrIpv4 a.addr
      · simp [NodelistPass.takeAddr, hres]
      · simp [NodelistPass.takeAddr, hres]

theorem takeItems_expected
    {items : List NodeItem}
    (hall : ∀ i ∈ items, i.sockAddr ≠ none) :
    NodelistPass.takeItems nl true ⟨n, [], []⟩ items = .expected n nl items := by
  cases items with
  | nil => rfl
  | cons own others =>
      obtain ⟨a, ha⟩ := Option.ne_none_iff_exists'.mp (hall own List.mem_cons_self)
      rw [NodelistPass.takeItems, takeItems_false fun j hj => hall j (List.mem_cons_of_mem _ hj),
        NodelistPass.takeItem, ha]
      simp [NodelistPass.takeAddr, NodelistPass.expected, ha, offered_attach]

/-- The list behind the length field. -/
theorem nodelist_frame
    (hid : byteAt f 0 = Proto.NODELIST)
    (hsize : msggetsize f f.length (msginfoNode nl) = f.length) :
    usub f.length 4 = (f.drop 4).length ∧ f = f.take 4 ++ f.drop 4 := by
  have hentry : entryOf (msginfoNode nl) (byteAt f 0) = some (.varSize, 2) := by
    rw [hid]
    rfl
  have hlen := length_of_entry hentry hsize
  refine ⟨?_, (List.take_append_drop _ _).symm⟩
  rw [usub_eq (by omega), List.length_drop]

end Exact

/-- **`procmsg_NODELIST` is total and exact for lists of IPv4 addresses, and for no others.** -/
theorem nodelist_exact_iff
    (n : Node) (nl : Ptr) (unset : Nat) (f : Frame) (hid : byteAt f 0 = Proto.NODELIST)
    (hsize : msggetsize f f.length (msginfoNode nl) = f.length) :
    NodelistExact n nl unset f ↔
      ∃ items : List NodeItem, f.drop 4 = items.flatMap NodeItem.enc ∧
        ∀ i ∈ items, i.sockAddr ≠ none := by
  obtain ⟨hlen, hframe⟩ := nodelist_frame hid hsize
  have hrun : ∀ fuel, procmsgNODELISTRun n nl unset f fuel =
      nodelistRun nl unset (f.take 4 ++ f.drop 4) (f.drop 4).length fuel (f.drop 4).length
        ⟨n, [], []⟩ := by
    intro fuel
    rw [procmsgNODELISTRun, hlen, ← hframe]
  constructor
  · intro hexact
    obtain ⟨l, rest, hsplits⟩ := exists_splits (c := NodeItem.code) (f.drop 4)
    by_contra hother
    have hnot : ¬(rest = [] ∧ ∀ i ∈ l, i.sockAddr ≠ none) := by
      rintro ⟨rfl, hall⟩
      refine hother ⟨l, ?_, hall⟩
      rw [← List.append_nil (l.flatMap NodeItem.enc)]
      exact hsplits.eq
    rcases nodelistRun_other hsplits hnot with ⟨fuel, s, hout⟩ | hrunning
    · exact hexact.inside fuel s ((hrun fuel).trans hout)
    · obtain ⟨fuel, hends⟩ := hexact.ends
      obtain ⟨s, hs⟩ := hrunning fuel
      exact hends s ((hrun fuel).trans hs)
  · rintro ⟨items, hitems, hall⟩
    have hsplits : Splits NodeItem.code (f.drop 4) items [] :=
      ⟨by rw [List.append_nil, hitems]; rfl, Code.read_nil⟩
    have hreturned : ∀ fuel, items.length ≤ fuel →
        procmsgNODELISTRun n nl unset f fuel = .returned (.expected n nl items) 1 := by
      intro fuel hfuel
      rw [hrun, hitems, nodelistRun_items hall (decide_eq_true rfl).symm (Nat.le_refl _) hfuel,
        takeItems_expected hall]
    refine ⟨⟨items.length, fun s hs => ?_⟩, fun fuel s hs => ?_, fun others hothers => ?_, ?_⟩
    · exact absurd ((hreturned _ (Nat.le_refl _)).symm.trans hs) nofun
    · rcases Nat.lt_or_ge fuel items.length with hfew | henough
      · obtain ⟨s', hs'⟩ := @nodelistRun_few nl unset (f.drop 4).length fuel ⟨n, [], []⟩
          (f.take 4) items hall hfew
        rw [← hitems, ← hrun] at hs'
        exact absurd (hs'.symm.trans hs) nofun
      · exact absurd ((hreturned fuel henough).symm.trans hs) nofun
    · obtain ⟨rfl, -⟩ := hsplits.of_sequence hothers
      exact ⟨items.length, hreturned _ (Nat.le_refl _)⟩
    · intro others rest hothers hne
      exact absurd (hsplits.unique hothers).2.symm hne

/-- A frame with a list. -/
def nodelistOf (list : List UInt8) : Frame :=
  head Proto.NODELIST ++ le16 list.length ++ list

/-- The address of the sender and another one. -/
theorem nodelist_exact_two :
    NodelistExact twoNodes 1 0 (nodelistOf [160, 1, 2, 3, 4, 0, 80, 160, 8, 8, 8, 8, 0, 80]) :=
  (nodelist_exact_iff twoNodes 1 0
    (nodelistOf [160, 1, 2, 3, 4, 0, 80, 160, 8, 8, 8, 8, 0, 80]) (by decide) (by decide)).mpr
    ⟨[.ipv4 ⟨[1, 2, 3, 4], rfl⟩ ⟨[0, 80], rfl⟩, .ipv4 ⟨[8, 8, 8, 8], rfl⟩ ⟨[0, 80], rfl⟩], rfl, by
      simp [NodeItem.sockAddr]⟩

/-- With a list of one byte 1 the loop does not end.  A short address is read behind the end of
the message.  An IPv6 address behind the first one is not handled, and an address without
a text is saved in every pass. -/
theorem nodelist_malformed :
    (∀ fuel, ∃ s, procmsgNODELISTRun twoNodes 1 0 (nodelistOf [1]) fuel = .running s) ∧
    (∃ s, procmsgNODELISTRun twoNodes 1 0 (nodelistOf [160, 1, 2]) 1 = .outside s) ∧
    ∃ s, procmsgNODELISTRun twoNodes 1 0
        (nodelistOf ([160, 1, 2, 3, 4, 0, 80, 161] ++ List.replicate 18 0)) 3 = .running s ∧
      s.saved = [⟨[], 0⟩, ⟨[], 0⟩] :=
  ⟨fun fuel => @nodelistRun_unknown 1 0 1 fuel ⟨twoNodes, [], []⟩ [164, 164, 1, 0] [] 1 (by decide),
    ⟨_, rfl⟩, ⟨_, rfl, rfl⟩⟩

end PicaPica
