import Mathlib

/-!
# Messages by two routes

Messages are offered to a connection as they are written, or wait in a queue while the
connection is down; when it comes up the whole queue is offered to it.  An offer may be
refused.  Then everything is offered in the order in which it was written (`InOrder`): what is
accepted is a part of what is written in the same order, and nothing waits while the connection
is up.
-/

namespace Outbox

variable {α : Type*}

/-- What waits, and whether the connection is up. -/
structure State (α : Type*) where
  waiting : List α
  up : Bool

/-- One event, with the messages that are written and those that are offered; an offer is
accepted or refused. -/
inductive Step : State α → List α → List (α × Bool) → State α → Prop
  | direct (q : List α) (m : α) (ok : Bool) : Step ⟨q, true⟩ [m] [(m, ok)] ⟨q, true⟩
  | queued (q : List α) (m : α) : Step ⟨q, false⟩ [m] [] ⟨q ++ [m], false⟩
  | flushed (q : List α) (up : Bool) : Step ⟨q, up⟩ [] (q.map fun m => (m, true)) ⟨[], true⟩
  | idle (q : List α) {up up' : Bool} (h : up' = true → up = true) : Step ⟨q, up⟩ [] [] ⟨q, up'⟩

/-- Everything written has been offered, in order, or waits, and it waits only while the
connection is down. -/
structure InOrder (s : State α) (written : List α) (offered : List (α × Bool)) : Prop where
  all : offered.map Prod.fst ++ s.waiting = written
  down : s.up = true → s.waiting = []

variable {s t : State α} {written w : List α} {offered o : List (α × Bool)}

/-- **The order is kept by every event.** -/
theorem Step.inOrder (h : Step s w o t) (hs : InOrder s written offered) :
    InOrder t (written ++ w) (offered ++ o) := by
  cases h with
  | direct q m ok =>
      have hempty : q = [] := hs.down rfl
      refine ⟨?_, hs.down⟩
      rw [← hs.all, hempty, List.map_append]
      simp
  | queued q m =>
      refine ⟨?_, fun h => nomatch h⟩
      rw [← hs.all, List.append_nil, List.append_assoc]
  | flushed q up =>
      refine ⟨?_, fun _ => rfl⟩
      have hsame : (q.map fun m => (m, true)).map Prod.fst = q := by
        rw [List.map_map]
        exact List.map_id q
      rw [← hs.all, List.map_append, hsame, List.append_nil]
  | idle q hup =>
      refine ⟨?_, fun h => hs.down (hup h)⟩
      rw [List.append_nil, List.append_nil]
      exact hs.all

/-- What is accepted is a part of what is written, in the same order. -/
theorem InOrder.accepted_sublist (h : InOrder s written offered) :
    ((offered.filter fun x => x.2).map Prod.fst).Sublist written := by
  have haccepted : ((offered.filter fun x => x.2).map Prod.fst).Sublist (offered.map Prod.fst) :=
    List.filter_sublist.map Prod.fst
  exact haccepted.trans (h.all ▸ List.sublist_append_left _ _)

/-- While the connection is up everything that is written has been offered. -/
theorem InOrder.offered_eq (h : InOrder s written offered) (hup : s.up = true) :
    offered.map Prod.fst = written := by
  have hall := h.all
  rw [h.down hup, List.append_nil] at hall
  exact hall

end Outbox
