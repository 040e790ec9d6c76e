import PicaPica.Node.Effects

/-!
# The slots of new connections

`newconn_add` hands out the slot at the rotating position when it is free, else the first free
slot of the array, else the oldest one, whose connection is closed.  Whatever the slots hold, a
slot in use is not touched while there is a free one (`newconnAdd_safe`).

The functions are those of `State.lean`, with the sockets that are closed and the records that are
deleted, and they have a result for any contents; `Represents` connects the two.
-/

namespace PicaPica

open Machine

/-- The fields of `struct newconn` that these functions use. -/
structure NewconnSlot where
  sck : Socket
  tmst : Int
  /-- the number of bytes that have been read -/
  pos : Nat
  type : NcType
  iconn : Option Ptr
deriving DecidableEq

/-- A call of `client_list_delete` or `cclink_list_delete`. -/
inductive Deleted
  | client (ci : Ptr)
  | cclink (l : Ptr)
deriving DecidableEq

/-- What `newconn_close` deletes with the slot. -/
def NewconnSlot.held (nc : NewconnSlot) : List Deleted :=
  match nc.iconn, nc.type with
  | some p, .c2n => [.client p]
  | some p, .c2c => [.cclink p]
  | _, _ => []

/-- The arrays `newconns`, with `newconns_pos`. -/
structure NewconnArray where
  slots : List NewconnSlot
  size : slots.length = maxNewconns
  pos : Nat
  pos_le : pos ≤ maxNewconns
  /-- the sockets that have been closed, and the records that have been deleted -/
  closed : List Socket
  deleted : List Deleted

namespace NewconnArray

variable (a : NewconnArray)

def slot (i : Nat) : NewconnSlot :=
  a.slots.getD i ⟨-1, 0, 0, .unknown, none⟩

def setSlot (i : Nat) (f : NewconnSlot → NewconnSlot) : NewconnArray :=
  { a with
    slots := a.slots.modify i f
    size := by rw [List.length_modify, a.size] }

/-- `newconns_init`. -/
def init : NewconnArray where
  slots := List.replicate maxNewconns ⟨-1, 0, 0, .unknown, none⟩
  size := List.length_replicate
  pos := 0
  pos_le := Nat.zero_le _
  closed := []
  deleted := []

/-- `newconn_close`. -/
def newconnClose (i : Nat) : NewconnArray :=
  { a.setSlot i fun nc => { nc with sck := -1, pos := 0, iconn := none, type := .unknown } with
    closed := a.closed ++ [(a.slot i).sck]
    deleted := a.deleted ++ (a.slot i).held }

/-- `newconn_free`. -/
def newconnFree (i : Nat) : NewconnArray :=
  a.setSlot i fun nc => { nc with sck := -1, iconn := none }

/-- The loop of `newconn_add`: where it ends, and the oldest slot before. -/
def scan : List NewconnSlot → Nat → Int → Nat → Nat × Nat
  | [], pos, _, minPos => (pos, minPos)
  | nc :: ncs, pos, min, minPos =>
      if nc.sck = -1 then (pos, minPos)
      else if nc.tmst < min then scan ncs (pos + 1) nc.tmst pos
      else scan ncs (pos + 1) min minPos

/-- The slot that `newconn_add` chooses. -/
def newconnFind : NewconnArray × Nat :=
  if a.pos < maxNewconns ∧ (a.slot a.pos).sck = -1 then (a, a.pos)
  else
    let r := scan a.slots 0 (a.slot 0).tmst 0
    if r.1 = maxNewconns then (a.newconnClose r.2, r.2) else (a, r.1)

end NewconnArray

/-! ## The search -/

section Search

variable {a : NewconnArray} {i j : Nat}

/-- The loop ends at a free slot, or at the end with the oldest slot. -/
theorem scan_spec
    {pre ncs : List NewconnSlot} {min : Int} {minPos : Nat}
    (hmin : ∃ x, (pre ++ ncs)[minPos]? = some x ∧ x.tmst = min)
    (hpre : ∀ y ∈ pre, y.sck ≠ -1 ∧ min ≤ y.tmst) :
    (∃ x, (pre ++ ncs)[(NewconnArray.scan ncs pre.length min minPos).1]? = some x ∧ x.sck = -1) ∨
      (NewconnArray.scan ncs pre.length min minPos).1 = (pre ++ ncs).length ∧
        (∀ y ∈ pre ++ ncs, y.sck ≠ -1) ∧
        ∃ x, (pre ++ ncs)[(NewconnArray.scan ncs pre.length min minPos).2]? = some x ∧
          ∀ y ∈ pre ++ ncs, x.tmst ≤ y.tmst := by
  induction ncs generalizing pre min minPos with
  | nil =>
      obtain ⟨x, hx, rfl⟩ := hmin
      rw [List.append_nil] at hx ⊢
      exact .inr ⟨rfl, fun y hy => (hpre y hy).1, x, hx, fun y hy => (hpre y hy).2⟩
  | cons nc ncs ih =>
      have hmove : pre ++ nc :: ncs = (pre ++ [nc]) ++ ncs := by
        rw [List.append_assoc, List.singleton_append]
      have hlen : (pre ++ [nc]).length = pre.length + 1 := List.length_append
      have hhere : (pre ++ nc :: ncs)[pre.length]? = some nc := by simp
      rw [NewconnArray.scan]
      by_cases hfree : nc.sck = -1
      · rw [if_pos hfree]
        exact .inl ⟨nc, hhere, hfree⟩
      rw [if_neg hfree]
      by_cases hold : nc.tmst < min
      · rw [if_pos hold]
        rw [hmove] at hhere ⊢
        rw [← hlen]
        refine ih ⟨nc, hhere, rfl⟩ fun y hy => ?_
        rcases List.mem_append.mp hy with hy | hy
        · exact ⟨(hpre y hy).1, Int.le_trans (Int.le_of_lt hold) (hpre y hy).2⟩
        · obtain rfl := List.mem_singleton.mp hy
          exact ⟨hfree, Int.le_refl _⟩
      · rw [if_neg hold]
        rw [hmove] at hmin ⊢
        rw [← hlen]
        refine ih hmin fun y hy => ?_
        rcases List.mem_append.mp hy with hy | hy
        · exact hpre y hy
        · obtain rfl := List.mem_singleton.mp hy
          exact ⟨hfree, Int.not_lt.mp hold⟩

theorem slot_eq {x : NewconnSlot} (h : a.slots[i]? = some x) : a.slot i = x := by
  rw [NewconnArray.slot, List.getD_eq_getElem?_getD, h]
  rfl

theorem mem_slots (hi : i < maxNewconns) : a.slot i ∈ a.slots := by
  have hlt : i < a.slots.length := a.size ▸ hi
  rw [slot_eq (List.getElem?_eq_getElem hlt)]
  exact List.getElem_mem hlt

/-- The search from the first slot. -/
theorem scan_slots :
    ((NewconnArray.scan a.slots 0 (a.slot 0).tmst 0).1 < maxNewconns ∧
      (a.slot (NewconnArray.scan a.slots 0 (a.slot 0).tmst 0).1).sck = -1) ∨
    (NewconnArray.scan a.slots 0 (a.slot 0).tmst 0).1 = maxNewconns ∧
      (NewconnArray.scan a.slots 0 (a.slot 0).tmst 0).2 < maxNewconns ∧
      (∀ k < maxNewconns, (a.slot k).sck ≠ -1) ∧
      ∀ k < maxNewconns,
        (a.slot (NewconnArray.scan a.slots 0 (a.slot 0).tmst 0).2).tmst ≤ (a.slot k).tmst := by
  have hzero : 0 < a.slots.length := by
    rw [a.size]
    decide
  have hfirst := List.getElem?_eq_getElem hzero
  have hspec := @scan_spec [] a.slots (a.slot 0).tmst 0
    ⟨_, hfirst, by rw [slot_eq hfirst]⟩ nofun
  rw [List.nil_append, List.length_nil] at hspec
  rcases hspec with ⟨x, hx, hfree⟩ | ⟨hend, hocc, x, hx, hold⟩
  · refine .inl ⟨?_, by rw [slot_eq hx]; exact hfree⟩
    rw [← a.size]
    exact (List.getElem?_eq_some_iff.mp hx).1
  · refine .inr ⟨hend.trans a.size, ?_, fun k hk => hocc _ (mem_slots hk), fun k hk => ?_⟩
    · rw [← a.size]
      exact (List.getElem?_eq_some_iff.mp hx).1
    · rw [slot_eq hx]
      exact hold _ (mem_slots hk)

/-- **The slot that is chosen** is free, or the oldest one of an array without a free slot. -/
theorem newconnFind_cases :
    (∃ i < maxNewconns, a.newconnFind = (a, i) ∧ (a.slot i).sck = -1) ∨
    ∃ i < maxNewconns, a.newconnFind = (a.newconnClose i, i) ∧
      (∀ k < maxNewconns, (a.slot k).sck ≠ -1) ∧
      ∀ k < maxNewconns, (a.slot i).tmst ≤ (a.slot k).tmst := by
  rw [NewconnArray.newconnFind]
  by_cases hpos : a.pos < maxNewconns ∧ (a.slot a.pos).sck = -1
  · rw [if_pos hpos]
    exact .inl ⟨_, hpos.1, rfl, hpos.2⟩
  rw [if_neg hpos]
  rcases @scan_slots a with ⟨hlt, hfree⟩ | ⟨hend, hlt, hocc, hold⟩
  · dsimp only
    rw [if_neg (Nat.ne_of_lt hlt)]
    exact .inl ⟨_, hlt, rfl, hfree⟩
  · dsimp only
    rw [if_pos hend]
    exact .inr ⟨_, hlt, rfl, hocc, hold⟩

theorem newconnFind_lt : a.newconnFind.2 < maxNewconns := by
  rcases @newconnFind_cases a with ⟨i, hi, heq, -⟩ | ⟨i, hi, heq, -⟩
  · rw [heq]
    exact hi
  · rw [heq]
    exact hi

end Search

/-- `newconn_add` at the time `now`, with the position of the slot it returns. -/
def NewconnArray.newconnAdd (a : NewconnArray) (now : Int) : NewconnArray × Nat :=
  let r := a.newconnFind
  ({ r.1.setSlot r.2 fun nc => { nc with sck := -1, pos := 0, tmst := now } with
    pos := r.2 + 1
    pos_le := newconnFind_lt }, r.2)

/-! ## What `newconn_add` does -/

/-- `b` and the position `i` after `newconn_add` on `a`. -/
structure AddedSafely (a b : NewconnArray) (i : Nat) : Prop where
  inside : i < maxNewconns
  free : (b.slot i).sck = -1
  others : ∀ j, j ≠ i → b.slot j = a.slot j
  spared : (∃ j < maxNewconns, (a.slot j).sck = -1) →
    (a.slot i).sck = -1 ∧ b.closed = a.closed ∧ b.deleted = a.deleted
  evicted : (∀ j < maxNewconns, (a.slot j).sck ≠ -1) →
    b.closed = a.closed ++ [(a.slot i).sck] ∧ b.deleted = a.deleted ++ (a.slot i).held ∧
      ∀ j < maxNewconns, (a.slot i).tmst ≤ (a.slot j).tmst
  position : b.pos = i + 1 ∧ b.pos ≤ maxNewconns

section Add

variable {a : NewconnArray} {i j : Nat} {f : NewconnSlot → NewconnSlot}

theorem slot_setSlot_of_lt (hi : i < maxNewconns) : (a.setSlot i f).slot i = f (a.slot i) := by
  have hlt : i < a.slots.length := a.size ▸ hi
  simp [NewconnArray.slot, NewconnArray.setSlot, List.getD_eq_getElem?_getD, hlt]

theorem slot_setSlot_ne (h : j ≠ i) : (a.setSlot i f).slot j = a.slot j := by
  have hne : ¬i = j := fun heq => h heq.symm
  simp [NewconnArray.slot, NewconnArray.setSlot, List.getD_eq_getElem?_getD, hne]

/-- **`newconn_add` for any contents of the array.** -/
theorem newconnAdd_safe (now : Int) :
    AddedSafely a (a.newconnAdd now).1 (a.newconnAdd now).2 := by
  rw [NewconnArray.newconnAdd]
  rcases @newconnFind_cases a with ⟨i, hi, heq, hfree⟩ | ⟨i, hi, heq, hocc, hold⟩
  · simp only [heq]
    refine ⟨hi, ?_, fun j hj => ?_, fun _ => ⟨hfree, rfl, rfl⟩, fun hocc => ?_, rfl, hi⟩
    · exact congrArg NewconnSlot.sck (slot_setSlot_of_lt hi)
    · exact slot_setSlot_ne hj
    · exact absurd hfree (hocc i hi)
  · simp only [heq]
    refine ⟨hi, ?_, fun j hj => ?_, fun ⟨j, hj, hfree⟩ => ?_, fun _ => ⟨rfl, rfl, hold⟩, rfl, hi⟩
    · exact congrArg NewconnSlot.sck (slot_setSlot_of_lt hi)
    · exact (slot_setSlot_ne hj).trans (slot_setSlot_ne hj)
    · exact absurd hfree (hocc j hj)

end Add

/-! ## The slots of the node -/

/-- The fields of a slot of `State.lean`. -/
def NewconnSlot.of (nc : NewConn) : NewconnSlot :=
  ⟨nc.sck, nc.tmst, nc.buf.length, nc.type, nc.iconn⟩

/-- The array holds the slots of a node. -/
structure NewconnArray.Represents (a : NewconnArray) (n : Node) : Prop where
  slots : a.slots = n.newconns.map NewconnSlot.of
  pos : a.pos = n.newconnsPos

section Represents

variable {a : NewconnArray} {n m : Node} {i : Nat}

theorem represents_init
    {addr : SockAddr} {reserved : Bool} {now : Nat} {mem : Nat → Bool} {rnd : Nat → UInt8}
    {verify : Ptr → Frame → Bool} {reached : List ClientEvent → Ptr → Bool} :
    NewconnArray.init.Represents (Node.init addr reserved now mem rnd verify reached) :=
  ⟨List.map_replicate.symm, rfl⟩

theorem NewconnArray.Represents.slot (h : a.Represents n) : a.slot i = NewconnSlot.of (n.slot i) := by
  rw [NewconnArray.slot, h.slots, Node.slot]
  exact List.getD_map n.newconns ⟨-1, ⟨0, 0⟩, 0, [], .waitAnonTlsAccept, .unknown, none⟩
    NewconnSlot.of

theorem NewconnArray.Represents.setSlot
    {f : NewconnSlot → NewconnSlot} {g : NewConn → NewConn}
    (h : a.Represents n) (hfg : ∀ nc, NewconnSlot.of (g nc) = f (.of nc)) :
    (a.setSlot i f).Represents (n.setSlot i g) := by
  refine ⟨?_, h.pos⟩
  change a.slots.modify i f = (n.newconns.modify i g).map NewconnSlot.of
  rw [h.slots]
  refine List.ext_getElem? fun k => ?_
  by_cases hk : i = k
  · subst hk
    cases hx : n.newconns[i]? with
    | none => simp [hx]
    | some nc => simp [hx, hfg]
  · simp [hk]

theorem NewconnArray.Represents.newconnFree (h : a.Represents n) :
    (a.newconnFree i).Represents (n.newconnFree i) :=
  h.setSlot fun _ => rfl

theorem NewconnArray.Represents.newconnClose
    (h : a.Represents n) (hclose : n.newconnClose i = .ok m) :
    (a.newconnClose i).Represents m := by
  obtain ⟨hslots, hpos, -⟩ := newconnClose_newconns hclose
  have hset := h.setSlot (i := i)
    (f := fun nc => { nc with sck := -1, pos := 0, iconn := none, type := .unknown })
    (g := fun nc => { nc with sck := -1, buf := [], iconn := none, type := .unknown }) fun _ => rfl
  exact ⟨hset.slots.trans (by rw [hslots]), h.pos.trans hpos.symm⟩

/-- The two loops end at the same place. -/
theorem scan_of
    {ncs : List NewConn} {pos minPos : Nat} {min : Nat} :
    NewconnArray.scan (ncs.map NewconnSlot.of) pos min minPos =
      match Node.newconnScan ncs pos min minPos with
      | (some p, q) => (p, q)
      | (none, q) => (pos + ncs.length, q) := by
  induction ncs generalizing pos min minPos with
  | nil => rfl
  | cons nc ncs ih =>
      have hlen : pos + 1 + ncs.length = pos + (nc :: ncs).length := by
        rw [List.length_cons]
        omega
      rw [List.map_cons, NewconnArray.scan, Node.newconnScan]
      change (if nc.sck = -1 then (pos, minPos)
        else if (nc.tmst : Int) < min then
          NewconnArray.scan (ncs.map NewconnSlot.of) (pos + 1) nc.tmst pos
        else NewconnArray.scan (ncs.map NewconnSlot.of) (pos + 1) min minPos) = _
      by_cases hfree : nc.sck = -1
      · rw [if_pos hfree, if_pos hfree]
      rw [if_neg hfree, if_neg hfree]
      by_cases hold : nc.tmst < min
      · rw [if_pos (Int.ofNat_lt.mpr hold), if_pos hold, ← hlen]
        exact ih
      · rw [if_neg (fun h => hold (Int.ofNat_lt.mp h)), if_neg hold, ← hlen]
        exact ih

theorem NewconnArray.Represents.newconnFind
    (h : a.Represents n) (hfind : n.newconnFind = .ok (m, i)) :
    a.newconnFind.2 = i ∧ a.newconnFind.1.Represents m ∧ m.now = n.now := by
  have hsize : n.newconns.length = maxNewconns := by
    rw [← a.size, h.slots, List.length_map]
  have hpos : (a.pos < maxNewconns ∧ (a.slot a.pos).sck = -1) ↔
      n.newconnsPos < maxNewconns ∧ (n.slot n.newconnsPos).sck = -1 := by
    rw [h.slot, h.pos]
    rfl
  have hscan : NewconnArray.scan a.slots 0 (a.slot 0).tmst 0 =
      match Node.newconnScan n.newconns 0 (n.slot 0).tmst 0 with
      | (some p, q) => (p, q)
      | (none, q) => (0 + n.newconns.length, q) := by
    rw [h.slot, h.slots]
    exact scan_of
  rw [Node.newconnFind] at hfind
  rw [NewconnArray.newconnFind]
  by_cases hfast : n.newconnsPos < maxNewconns ∧ (n.slot n.newconnsPos).sck = -1
  · rw [if_pos hfast] at hfind
    rw [if_pos (hpos.mpr hfast)]
    cases hfind
    exact ⟨h.pos, h, rfl⟩
  rw [if_neg hfast] at hfind
  rw [if_neg (fun hyes => hfast (hpos.mp hyes)), hscan]
  rcases hs : Node.newconnScan n.newconns 0 (n.slot 0).tmst 0 with ⟨_ | p, q⟩
  · rw [hs] at hfind
    obtain ⟨k, hclose, hres⟩ := bind_eq_ok.mp hfind
    cases hres
    dsimp only
    rw [if_pos (by rw [Nat.zero_add, hsize])]
    exact ⟨rfl, h.newconnClose hclose, (newconnClose_newconns hclose).2.2⟩
  · rw [hs] at hfind
    cases hfind
    obtain ⟨-, nc, hget, -⟩ := newconnScan_free hs
    have hlt : i < n.newconns.length := (List.getElem?_eq_some_iff.mp hget).1
    dsimp only
    rw [if_neg (by omega)]
    exact ⟨rfl, h, rfl⟩

/-- **`newconn_add` of the node.**  When it has a result, this is the slot, and the array holds the
slots that result. -/
theorem NewconnArray.Represents.newconnAdd
    (h : a.Represents n) (hadd : n.newconnAdd = .ok (m, i)) :
    (a.newconnAdd n.now).2 = i ∧ (a.newconnAdd n.now).1.Represents m := by
  obtain ⟨⟨k, j⟩, hfind, hres⟩ := bind_eq_ok.mp hadd
  cases hres
  obtain ⟨hi, hk, hnow⟩ := h.newconnFind hfind
  have hset := hk.setSlot (i := i) (f := fun nc => { nc with sck := -1, pos := 0, tmst := n.now })
    (g := fun nc => { nc with sck := -1, buf := [], tmst := k.now })
    fun nc => by rw [hnow]; rfl
  rw [NewconnArray.newconnAdd]
  refine ⟨hi, ?_, ?_⟩
  · rw [← hi] at hset ⊢
    exact hset.slots
  · exact congrArg Nat.succ hi

end Represents

/-! ## Runs -/

/-- The calls, and what other code makes of a slot. -/
inductive NewconnCall
  | add (now : Int)
  | close (i : Fin maxNewconns)
  | free (i : Fin maxNewconns)
  | use (i : Fin maxNewconns) (nc : NewconnSlot)

def newconnStep (a : NewconnArray) : NewconnCall → Option NewconnArray
  | .add now => some (a.newconnAdd now).1
  | .close i => some (a.newconnClose i)
  | .free i => some (a.newconnFree i)
  | .use i nc => some (a.setSlot i fun _ => nc)

theorem newconnStep_some (a : NewconnArray) (e : NewconnCall) : ∃ b, newconnStep a e = some b := by
  cases e with
  | add now => exact ⟨_, rfl⟩
  | close i => exact ⟨_, rfl⟩
  | free i => exact ⟨_, rfl⟩
  | use i nc => exact ⟨_, rfl⟩

/-- **Slots are handed out safely.**  From any contents of the array and any position, after any
run of the calls, whatever the slots are used for in between: `newconn_add` returns a slot without
a connection, leaves the slots in use alone while one is free, closes just one, of the least time,
when none is, and the position stays between 1 and 64. -/
theorem slots_handed_out_safely (a : NewconnArray) (es : List NewconnCall) :
    ∃ b, run newconnStep a es = some b ∧
      ∀ now, AddedSafely b (b.newconnAdd now).1 (b.newconnAdd now).2 ∧
        1 ≤ (b.newconnAdd now).1.pos ∧ (b.newconnAdd now).1.pos ≤ maxNewconns := by
  induction es generalizing a with
  | nil =>
      refine ⟨a, rfl, fun now => ?_⟩
      have hsafe := @newconnAdd_safe a now
      refine ⟨hsafe, ?_, hsafe.position.2⟩
      rw [hsafe.position.1]
      exact Nat.le_add_left 1 _
  | cons e es ih =>
      obtain ⟨b, hb⟩ := newconnStep_some a e
      obtain ⟨c, hrun, hsafe⟩ := ih b
      refine ⟨c, ?_, hsafe⟩
      rw [run, hb]
      exact hrun

end PicaPica
