import PicaPica.Client.SkyNet
import PicaPica.Lib.Rank
import PicaPica.Lib.Table

/-!
# The nodes a client knows (`nodes.cpp`)

`Nodes::MakeClean` deletes the nodes whose `inactive_count` is at least the one in the middle of
the table.  Nodes with the lowest count are in the middle when they are more than half of the
table, and then nothing remains; otherwise exactly the nodes with the higher counts go
(`makeClean_kept_iff`).

The counts are natural numbers: a row is inserted with 0, and `UpdateStatus` adds one or sets 0.
-/

namespace PicaPica
namespace Client

open Rank Table

/-- A row of the table `nodes`. -/
structure NodeRow where
  address : String
  port : UInt16
  lastActive : Nat
  inactiveCount : Nat
deriving DecidableEq

/-- The primary key. -/
def NodeRow.key (r : NodeRow) : NodeRecord :=
  ⟨r.address, r.port⟩

/-- `class Nodes` with its table. -/
structure Nodes where
  rows : List NodeRow
  keys : Distinct NodeRow.key rows
  /-- `lasterr` is an error -/
  lasterr : Bool

/-- `toUInt`. -/
def toUInt (n : Nat) : Nat :=
  n % 4294967296

namespace Nodes

variable (t : Nodes)

/-- The column `inactive_count`. -/
def counts : List Nat :=
  t.rows.map NodeRow.inactiveCount

/-- `delete from nodes where` … -/
def deleteWhere (p : NodeRow → Bool) : Nodes where
  rows := t.rows.filter fun r => !p r
  keys := t.keys.sublist (List.filter_sublist.map NodeRow.key)
  lasterr := t.lasterr

/-- `Nodes::UpdateStatus` at the time `now`. -/
def updateStatus (n : NodeRecord) (alive : Bool) (now : Nat) : Nodes where
  rows := modify NodeRow.key n (fun r =>
    if alive then { r with lastActive := now, inactiveCount := 0 }
    else { r with inactiveCount := r.inactiveCount + 1 }) t.rows
  keys := t.keys.modify fun _ _ _ => by cases alive <;> rfl
  lasterr := false

/-- `Nodes::MakeClean`. -/
def makeClean : Nodes :=
  if t.lasterr then t
  else
    let count := toUInt t.rows.length
    if 32 < count then
      match (t.counts.insertionSort (· ≤ ·))[count / 2]? with
      | none => t
      | some v => t.deleteWhere fun r => toUInt v ≤ r.inactiveCount
    else t

/-- What the table makes of a signal of `SkyNet`. -/
def hear (now : Nat) : Signal → Nodes
  | .updateStatus nr alive => t.updateStatus nr alive now
  | .makeClean => t.makeClean
  | _ => t

/-- What a clean-up may do: nodes that work are kept, some node is kept, the others are at least
as inactive as those kept, and the rows that remain are as they were. -/
structure CleanKept (t' : Nodes) : Prop where
  working : ∀ r ∈ t.rows, r.inactiveCount = 0 → r ∈ t'.rows
  nonempty : t.rows ≠ [] → t'.rows ≠ []
  worst : ∀ r ∈ t.rows, r ∉ t'.rows → ∀ s ∈ t'.rows, s.inactiveCount ≤ r.inactiveCount
  unchanged : t'.rows.Sublist t.rows

/-- There is nothing to clean, or some count is less than the one in the middle. -/
def SomeBelowMiddle : Prop :=
  t.lasterr = true ∨ toUInt t.rows.length ≤ 32 ∨
    ∃ v, AtRank t.counts (toUInt t.rows.length / 2) v ∧ ∃ r ∈ t.rows, r.inactiveCount < toUInt v

end Nodes

section Clean

variable {t : Nodes}

theorem Nodes.CleanKept.refl : t.CleanKept t :=
  ⟨fun _ hr _ => hr, fun h => h, fun _ hr hno => absurd hr hno, List.Sublist.refl _⟩

/-- What `MakeClean` does with a table that is large enough. -/
theorem makeClean_large
    (herr : t.lasterr = false) (hlarge : 32 < toUInt t.rows.length) :
    ∃ v, AtRank t.counts (toUInt t.rows.length / 2) v ∧
      t.makeClean.rows = t.rows.filter fun r => r.inactiveCount < toUInt v := by
  have hmod : toUInt t.rows.length ≤ t.rows.length := Nat.mod_le _ _
  have hlt : toUInt t.rows.length / 2 < (t.counts.insertionSort (· ≤ ·)).length := by
    rw [List.length_insertionSort, Nodes.counts, List.length_map]
    omega
  have hget := List.getElem?_eq_getElem hlt
  refine ⟨_, getElem?_insertionSort_iff.mp hget, ?_⟩
  rw [Nodes.makeClean, if_neg (by simp [herr])]
  dsimp only
  rw [if_pos hlarge, hget]
  refine List.filter_congr fun _ _ => ?_
  rw [← decide_not, decide_eq_decide]
  exact Nat.not_le

theorem makeClean_small (h : t.lasterr = true ∨ toUInt t.rows.length ≤ 32) :
    t.makeClean = t := by
  rw [Nodes.makeClean]
  rcases h with herr | hsmall
  · rw [if_pos herr]
  · dsimp only
    rw [if_neg (Nat.not_lt.mpr hsmall), ite_self]

theorem mem_makeClean
    {v : Nat} (hrows : t.makeClean.rows = t.rows.filter fun r => r.inactiveCount < toUInt v)
    {r : NodeRow} : r ∈ t.makeClean.rows ↔ r ∈ t.rows ∧ r.inactiveCount < toUInt v := by
  rw [hrows, List.mem_filter, decide_eq_true_eq]

theorem clean_kept (h : t.SomeBelowMiddle) : t.CleanKept t.makeClean := by
  by_cases hsmall : t.lasterr = true ∨ toUInt t.rows.length ≤ 32
  · rw [makeClean_small hsmall]
    exact .refl
  obtain ⟨herr, hlarge⟩ := not_or.mp hsmall
  obtain ⟨v, hv, hrows⟩ := makeClean_large (Bool.eq_false_of_not_eq_true herr) (Nat.not_le.mp hlarge)
  obtain ⟨u, hu, r, hr, hlow⟩ := (h.resolve_left herr).resolve_left hlarge
  obtain rfl := hv.unique hu
  refine ⟨fun x hx hzero => ?_, fun _ hnil => ?_, fun x hx hno s hs => ?_, ?_⟩
  · exact (mem_makeClean hrows).mpr ⟨hx, by omega⟩
  · exact absurd ((mem_makeClean hrows).mpr ⟨hr, hlow⟩) (by rw [hnil]; exact List.not_mem_nil)
  · have hgone : ¬x.inactiveCount < toUInt v :=
      fun hless => hno ((mem_makeClean hrows).mpr ⟨hx, hless⟩)
    have hkept := ((mem_makeClean hrows).mp hs).2
    omega
  · rw [hrows]
    exact List.filter_sublist

/-- A table that is not emptied has a row below the cut-off. -/
theorem someBelow_of_kept (h : t.CleanKept t.makeClean) : t.SomeBelowMiddle := by
  by_cases hsmall : t.lasterr = true ∨ toUInt t.rows.length ≤ 32
  · exact hsmall.imp_right Or.inl
  obtain ⟨herr, hlarge⟩ := not_or.mp hsmall
  obtain ⟨v, hv, hrows⟩ := makeClean_large (Bool.eq_false_of_not_eq_true herr) (Nat.not_le.mp hlarge)
  have hne : t.rows ≠ [] := by
    intro hnil
    rw [hnil] at hlarge
    exact hlarge (Nat.zero_le _)
  obtain ⟨r, hr⟩ := List.exists_mem_of_ne_nil _ (h.nonempty hne)
  exact .inr (.inr ⟨v, hv, r, (mem_makeClean hrows).mp hr⟩)

/-- Counts that fit 32 bits: the nodes with the lowest count are at most half of the table. -/
theorem someBelowMiddle_iff
    (hcounts : ∀ r ∈ t.rows, r.inactiveCount < 4294967296) (hsize : t.rows.length < 4294967296) :
    t.SomeBelowMiddle ↔ t.lasterr = true ∨ t.rows.length ≤ 32 ∨
      ∃ r ∈ t.rows, upTo t.counts r.inactiveCount ≤ t.rows.length / 2 := by
  have hlen : toUInt t.rows.length = t.rows.length := Nat.mod_eq_of_lt hsize
  rw [Nodes.SomeBelowMiddle, hlen]
  refine or_congr_right ?_
  by_cases hsmall : t.rows.length ≤ 32
  · exact iff_of_true (.inl hsmall) (.inl hsmall)
  refine or_congr_right ?_
  have hlt : t.rows.length / 2 < (t.counts.insertionSort (· ≤ ·)).length := by
    rw [List.length_insertionSort, Nodes.counts, List.length_map]
    omega
  have hget := List.getElem?_eq_getElem hlt
  have hrank := getElem?_insertionSort_iff.mp hget
  have hmem := (List.mem_insertionSort (· ≤ ·)).mp (List.getElem_mem hlt)
  generalize (t.counts.insertionSort (· ≤ ·))[t.rows.length / 2] = v at hrank hmem
  obtain ⟨x, hx, hxv⟩ := List.mem_map.mp hmem
  have hfit : toUInt v = v := Nat.mod_eq_of_lt (hxv ▸ hcounts x hx)
  have hlow := hrank.exists_lt_iff
  simp only [Nodes.counts, List.mem_map, exists_exists_and_eq_and] at hlow
  rw [Nodes.counts, ← hlow]
  constructor
  · rintro ⟨u, hu, r, hr, hless⟩
    obtain rfl := hrank.unique hu
    rw [hfit] at hless
    exact ⟨r, hr, hless⟩
  · rintro ⟨r, hr, hless⟩
    refine ⟨v, hrank, r, hr, ?_⟩
    rwa [hfit]

/-! ## A link that is established -/

/-- A client without a link updates the node of the new link and cleans the table. -/
theorem nodelinkActivated_signals
    {s : SkyNet} {c2n : C2n} {queues : Queues} {nr : NodeRecord}
    (hself : s.selfAware = false)
    (hnode : s.connectingNodes.find? (fun e => e.1 == c2n) = some (c2n, nr)) :
    (s.nodelinkActivated c2n queues).signals =
      s.signals ++ [.updateStatus nr true, .makeClean, .becameSelfAware] := by
  rw [SkyNet.nodelinkActivated, SkyNet.takeConnecting, hnode]
  simp [SkyNet.nodeStatusChanged, SkyNet.emit, hself]

/-- The node of the new link has the count 0 when the table is cleaned. -/
theorem mem_updateStatus
    {r : NodeRow} {now : Nat} (hr : r ∈ t.rows) :
    { r with lastActive := now, inactiveCount := 0 } ∈ (t.updateStatus r.key true now).rows := by
  refine mem_modify.mpr ⟨r, hr, ?_⟩
  rw [if_pos rfl, if_pos rfl]

/-- The node of the new link stays in the table, when some count is less than the one in the
middle. -/
theorem heard_keeps_node
    {r : NodeRow} {now : Nat} (hr : r ∈ t.rows)
    (hsome : (t.updateStatus r.key true now).SomeBelowMiddle) :
    { r with lastActive := now, inactiveCount := 0 } ∈
      (([.updateStatus r.key true, .makeClean, .becameSelfAware] : List Signal).foldl
        (fun t x => t.hear now x) t).rows :=
  (clean_kept hsome).working _ (mem_updateStatus hr) rfl

/-- **When cleaning keeps what works.**  No node with the count 0 is deleted, the table is not
emptied, the nodes deleted are at least as inactive as those kept, and the others are as they
were: just when the table is not cleaned or some count is less than the one in the middle. -/
theorem makeClean_kept_iff (t : Nodes) : t.CleanKept t.makeClean ↔ t.SomeBelowMiddle :=
  ⟨someBelow_of_kept, clean_kept⟩

theorem distinct_ports :
    Distinct NodeRow.key
      ((List.range 33).map fun i => ⟨"n", UInt16.ofNat i, 0, if i < 17 then 0 else 5⟩) := by
  rw [Distinct]
  decide +kernel

/-- A table of 33 nodes, 17 of which have the count 0. -/
def manyWorking : Nodes where
  rows := (List.range 33).map fun i => ⟨"n", UInt16.ofNat i, 0, if i < 17 then 0 else 5⟩
  keys := distinct_ports
  lasterr := false

/-- The first node has been reached, and all nodes are deleted. -/
theorem clean_deletes_working :
    manyWorking.rows.length = 33 ∧
      (manyWorking.updateStatus ⟨"n", 0⟩ true 7).makeClean.rows = [] ∧
      ¬(manyWorking.updateStatus ⟨"n", 0⟩ true 7).CleanKept
        (manyWorking.updateStatus ⟨"n", 0⟩ true 7).makeClean := by
  have hempty : (manyWorking.updateStatus ⟨"n", 0⟩ true 7).makeClean.rows = [] := by
    decide +kernel
  refine ⟨rfl, hempty, fun hkept => hkept.nonempty ?_ hempty⟩
  decide +kernel

end Clean

end Client
end PicaPica
