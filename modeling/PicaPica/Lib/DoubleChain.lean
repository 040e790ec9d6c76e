import PicaPica.Lib.PointerTree

/-!
# Doubly linked lists of records

Records linked by `next` and `prev` fields, with variables for the first and the last one.
`Linked l ps` says that the records are `ps` in both directions.  A record is put at the end
(`Linked.append`) and taken out (`Linked.unlink`); each of the two directions is a chain of its
own, and one rule for chains serves both.  A loop over the list that looks for a record finds
the first one it meets (`Linked.findBack`).
-/

namespace DoubleChain

open PointerTree

variable {P : Type*}

section Chain

variable {next : P → Option P} {o : Option P} {p x : P} {ps qs : List P}

theorem Chain.head_eq (h : Chain next o ps) : o = ps.head? := by
  cases ps with
  | nil => exact h
  | cons p ps => exact h.1

/-- What follows a record. -/
theorem Chain.next_eq (h : Chain next o (ps ++ x :: qs)) : next x = qs.head? := by
  induction ps generalizing o with
  | nil => exact Chain.head_eq h.2
  | cons p ps ih => exact ih h.2

variable [DecidableEq P]

/-- The field of a record is set, if there is one. -/
def setAt (next : P → Option P) (p v : Option P) : P → Option P :=
  match p with
  | some p => Function.update next p v
  | none => next

/-- The variable for the first record is set, if no record is in front. -/
def headAt (o p v : Option P) : Option P :=
  match p with
  | some _ => o
  | none => v

/-- A record is passed over: the one in front, or the variable for the first one, links to
what follows it. -/
theorem Chain.skip
    (h : Chain next o (ps ++ x :: qs)) (hnd : (ps ++ x :: qs).Nodup) :
    Chain (setAt next ps.getLast? (next x)) (headAt o ps.getLast? (next x)) (ps ++ qs) := by
  induction ps generalizing o with
  | nil => exact h.2
  | cons p ps ih =>
      obtain ⟨ho, hrest⟩ := h
      have hp : p ∉ ps ++ x :: qs := (List.nodup_cons.mp hnd).1
      have hlast : ∀ (p : P) ps, headAt o (p :: ps).getLast? (next x) = o := by
        intro p ps
        rw [List.getLast?_eq_some_getLast (List.cons_ne_nil p ps)]
        rfl
      refine ⟨(hlast p ps).trans ho, ?_⟩
      cases ps with
      | nil =>
          have hnext : next p = some x := hrest.1
          rw [List.getLast?_singleton, setAt, Function.update_self]
          refine hrest.2.congr fun q hq => Function.update_of_ne ?_ _ _
          rintro rfl
          exact hp (List.mem_cons_of_mem x hq)
      | cons p' ps =>
          have hchain := ih hrest (List.nodup_cons.mp hnd).2
          rw [List.getLast?_cons_cons]
          have hsame : setAt next (p' :: ps).getLast? (next x) p = next p := by
            rw [List.getLast?_eq_some_getLast (List.cons_ne_nil p' ps)]
            refine Function.update_of_ne ?_ _ _
            intro heq
            refine hp (List.mem_append_left _ ?_)
            rw [heq]
            exact List.getLast_mem _
          rw [hsame]
          exact hchain

/-- A record is put behind the last one. -/
theorem Chain.concat
    (h : Chain next o (ps ++ [p])) (hnd : (ps ++ [p]).Nodup) (hx : x ∉ ps ++ [p])
    (hend : next x = none) :
    Chain (Function.update next p (some x)) o (ps ++ [p, x]) := by
  have hne : x ≠ p := by
    rintro rfl
    exact hx (by simp)
  induction ps generalizing o with
  | nil =>
      refine ⟨h.1, by rw [Function.update_self], ?_⟩
      rw [Function.update_of_ne hne, hend]
      rfl
  | cons q ps ih =>
      obtain ⟨ho, hrest⟩ := h
      have hq : q ∉ ps ++ [p] := (List.nodup_cons.mp hnd).1
      have hqp : q ≠ p := by
        rintro rfl
        exact hq (by simp)
      refine ⟨ho, ?_⟩
      rw [Function.update_of_ne hqp]
      exact ih hrest (List.nodup_cons.mp hnd).2 fun h => hx (List.mem_cons_of_mem q h)

end Chain

/-- The variables for the first and the last record, and the fields of all records. -/
structure Links (P : Type*) where
  head : Option P
  last : Option P
  next : P → Option P
  prev : P → Option P

namespace Links

def empty : Links P :=
  ⟨none, none, fun _ => none, fun _ => none⟩

variable [DecidableEq P] (l : Links P) (x : P)

/-- A new record, whose fields are null, is put at the end; there is no result when the first
record is known and the last one is not. -/
def append : Option (Links P) :=
  let next := Function.update l.next x none
  let prev := Function.update l.prev x none
  match l.head with
  | none => some ⟨some x, some x, next, prev⟩
  | some _ => l.last.map fun e =>
      ⟨l.head, some x, Function.update next e (some x), Function.update prev x (some e)⟩

/-- A record is taken out. -/
def unlink : Links P :=
  let l := match l.next x with
    | some n => { l with prev := Function.update l.prev n (l.prev x) }
    | none => { l with last := l.prev x }
  match l.prev x with
  | some p => { l with next := Function.update l.next p (l.next x) }
  | none => { l with head := l.next x }

theorem unlink_eq {l : Links P} {x : P} (h : l.next x ≠ some x) :
    l.unlink x = ⟨headAt l.head (l.prev x) (l.next x), headAt l.last (l.next x) (l.prev x),
      setAt l.next (l.prev x) (l.next x), setAt l.prev (l.next x) (l.prev x)⟩ := by
  rw [unlink]
  cases hn : l.next x with
  | none =>
      dsimp only
      cases hp : l.prev x with
      | none =>
          dsimp only
          rw [hn]
          rfl
      | some p =>
          dsimp only
          rw [hn]
          rfl
  | some n =>
      have hne : x ≠ n := by
        rintro rfl
        exact h hn
      dsimp only
      rw [Function.update_of_ne hne]
      cases hp : l.prev x with
      | none =>
          dsimp only
          rw [hn]
          rfl
      | some p =>
          dsimp only
          rw [hn]
          rfl

/-- The loop along a field that looks for a record with a property. -/
def findAlong (f : P → Bool) (prev : P → Option P) : Nat → Option P → Option P
  | 0, _ => none
  | _ + 1, none => none
  | fuel + 1, some p => if f p then some p else findAlong f prev fuel (prev p)

end Links

/-- The records of the list, from the first one to the last one. -/
structure Linked (l : Links P) (ps : List P) : Prop where
  forth : Chain l.next l.head ps
  back : Chain l.prev l.last ps.reverse
  nodup : ps.Nodup

namespace Linked

variable {l l' : Links P} {ps : List P} {x : P}

theorem empty : Linked (Links.empty : Links P) [] :=
  ⟨rfl, rfl, List.nodup_nil⟩

theorem find_chain
    {f : P → Bool} {prev : P → Option P} {o : Option P} {fuel : Nat}
    (h : Chain prev o ps) (hfuel : ps.length ≤ fuel) :
    Links.findAlong f prev fuel o = ps.find? f := by
  induction ps generalizing o fuel with
  | nil =>
      obtain rfl : o = none := h
      cases fuel with
      | zero => rfl
      | succ fuel => rfl
  | cons p ps ih =>
      obtain ⟨rfl, hrest⟩ := h
      cases fuel with
      | zero => exact absurd hfuel (by simp)
      | succ fuel =>
          rw [Links.findAlong, List.find?_cons]
          cases f p with
          | true => rfl
          | false => exact ih hrest (Nat.le_of_succ_le_succ hfuel)

/-- **The loop finds the last record with the property.** -/
theorem findBack
    {f : P → Bool} {fuel : Nat} (h : Linked l ps) (hfuel : ps.length ≤ fuel) :
    Links.findAlong f l.prev fuel l.last = ps.reverse.find? f :=
  find_chain h.back (by rw [List.length_reverse]; exact hfuel)

variable [DecidableEq P]

/-- **A new record becomes the last one.** -/
theorem append (h : Linked l ps) (hx : x ∉ ps) :
    ∃ l', l.append x = some l' ∧ Linked l' (ps ++ [x]) := by
  have hne : ∀ q ∈ ps, q ≠ x := by
    rintro q hq rfl
    exact hx hq
  have hforth : Chain (Function.update l.next x none) l.head ps :=
    h.forth.congr fun q hq => Function.update_of_ne (hne q hq) _ _
  have hback : Chain (Function.update l.prev x none) l.last ps.reverse :=
    h.back.congr fun q hq => Function.update_of_ne (hne q (List.mem_reverse.mp hq)) _ _
  have hnd : (ps ++ [x]).Nodup :=
    List.nodup_append.mpr ⟨h.nodup, List.nodup_singleton x, by
      intro a ha b hb
      rw [List.mem_singleton.mp hb]
      exact hne a ha⟩
  rw [Links.append]
  rcases List.eq_nil_or_concat ps with rfl | ⟨qs, e, rfl⟩
  · have hhead : l.head = none := h.forth
    rw [hhead]
    refine ⟨_, rfl, ⟨rfl, ?_⟩, ⟨rfl, ?_⟩, hnd⟩
    · exact Function.update_self _ _ _
    · exact Function.update_self _ _ _
  · rw [List.concat_eq_append] at *
    have hlast : l.last = some e := by
      rw [Chain.head_eq h.back, List.reverse_concat]
      rfl
    have hhead := Chain.head_eq h.forth
    obtain ⟨a, ha⟩ : ∃ a, (qs ++ [e]).head? = some a := by
      cases qs with
      | nil => exact ⟨e, rfl⟩
      | cons a qs => exact ⟨a, rfl⟩
    rw [hhead, ha, hlast]
    refine ⟨_, rfl, ?_, ?_, hnd⟩
    · have hend : Function.update l.next x none x = none := Function.update_self _ _ _
      rw [List.append_assoc]
      rw [hhead, ha] at hforth
      exact Chain.concat hforth h.nodup hx hend
    · rw [List.reverse_concat]
      refine ⟨rfl, ?_⟩
      dsimp only
      rw [Function.update_self, ← hlast]
      refine hback.congr fun q hq => Function.update_of_ne ?_ _ _
      exact hne q (List.mem_reverse.mp hq)

/-- **A record is taken out of the list.** -/
theorem unlink {qs : List P} (h : Linked l (ps ++ x :: qs)) : Linked (l.unlink x) (ps ++ qs) := by
  have hreverse : (ps ++ x :: qs).reverse = qs.reverse ++ x :: ps.reverse := by
    rw [List.reverse_append, List.reverse_cons, List.append_assoc]
    rfl
  have hback := h.back
  have hndr : (ps ++ x :: qs).reverse.Nodup := List.nodup_reverse.mpr h.nodup
  rw [hreverse] at hback hndr
  have hnext : l.next x = qs.head? := Chain.next_eq h.forth
  have hprev : l.prev x = ps.getLast? := by
    rw [Chain.next_eq hback, List.head?_reverse]
  have hself : l.next x ≠ some x := by
    intro heq
    have hx : x ∉ qs := (List.nodup_cons.mp (List.nodup_append.mp h.nodup).2.1).1
    exact hx (List.mem_of_mem_head? (hnext.symm.trans heq))
  rw [Links.unlink_eq hself]
  refine ⟨?_, ?_, h.nodup.sublist ((List.sublist_cons_self x qs).append_left ps)⟩
  · have hskip := Chain.skip h.forth h.nodup
    rw [← hprev] at hskip
    exact hskip
  · have hskip := Chain.skip hback hndr
    rw [List.getLast?_reverse, ← hnext, ← List.reverse_append] at hskip
    exact hskip

end Linked

end DoubleChain
