import PicaPica.Client.Redial
import PicaPica.Client.SendOrder

/-!
# A text that blocks the queue behind it

`flush_queues` writes the texts of a queue in order and stops at the first one that
`PICA_send_msg` does not take; that one stays the first of the queue.  A text of more than
`PICA_PROTO_C2CMSG_MAXDATASIZE` bytes is never taken, and `SendMessage` puts it into the queue
without looking at its length.  So from then on the queue only grows, whatever channels are
established, until the client exits or is started again.
-/

namespace PicaPica

open Machine

namespace Client

namespace SkyNet

variable {s t : SkyNet}

/-- The links that come and go leave queues that are not empty. -/
theorem step_queues
    {e : Event} (hq : s.msgqueues ≠ []) (hexit : e ≠ .exit) (hstep : s.step e = some t) :
    t.msgqueues = s.msgqueues := by
  have hactivated : ∀ (q : SkyNet) c u, q.msgqueues = s.msgqueues →
      (q.nodelinkActivated c u).msgqueues = s.msgqueues := by
    intro q c u hsame
    rw [nodelinkActivated_msgqueues, if_neg fun hboth => hq (hsame ▸ hboth.2), hsame]
  cases e with
  | process r =>
      obtain ⟨c, rest, -, hprocess⟩ := step_process hstep
      rcases processC2n_cases hprocess with ⟨-, rfl⟩ | ⟨u, -, -, rfl⟩ | ⟨u, -, -, rfl⟩ |
        ⟨code, -, -, rfl⟩ | ⟨code, -, -, rfl⟩
      · rfl
      · exact hactivated _ c u rfl
      · exact (App.nodelink_msgqueues _ c).2.1.trans (hactivated _ c u rfl)
      · exact (App.nodelink_msgqueues _ c).2.1
      · exact (App.nodelink_msgqueues _ c).2.2 code
  | join opened nodes =>
      simp only [SkyNet.step] at hstep
      split_ifs at hstep
      exact (join_frame hstep).2.2.2
  | reconnect opened nodes =>
      simp only [SkyNet.step] at hstep
      split_ifs at hstep
      exact (join_frame hstep).2.2.2
  | eventLoop =>
      simp only [SkyNet.step] at hstep
      split_ifs at hstep
      cases hstep
      rfl
  | closeConnected =>
      simp only [SkyNet.step] at hstep
      split_ifs at hstep
      cases hstep
      rw [closeAll_eq]
  | exit => exact absurd rfl hexit

end SkyNet

namespace App

variable {me : Id} {isEmptyMessage : Text → Bool} {a b : App} {p peer : Id} {q : List Text}

/-- The first text is longer than any that a channel takes. -/
def Overlong (q : List Text) : Prop :=
  ∃ msg rest, q = msg :: rest ∧ Proto.C2CMSG_MAXDATASIZE < msg.length

theorem Overlong.of_prefix {q' : List Text} (h : Overlong q) (hq : q <+: q') : Overlong q' := by
  obtain ⟨msg, rest, rfl, hlong⟩ := h
  obtain ⟨more, rfl⟩ := hq
  exact ⟨msg, rest ++ more, rfl, hlong⟩

/-- Nothing of a queue is written whose first text is too long. -/
theorem flushLoop_overlong
    {ptr i : Nat} {mem : Nat → Bool} {msgs : List Text} (h : Overlong msgs) :
    (flushLoop ptr p mem a i msgs).2 = msgs := by
  obtain ⟨msg, rest, rfl, hlong⟩ := h
  have hnone : a.sendMsg ptr msg (mem i) = none := if_pos (.inl hlong)
  rw [flushLoop, hnone]

theorem flushQueues_overlong
    {mem : Nat → Bool} (h : Overlong (a.sky.msgqueues.get peer)) :
    (a.flushQueues p mem).sky.msgqueues.get peer = a.sky.msgqueues.get peer := by
  by_cases hp : peer = p
  · subst hp
    unfold flushQueues
    split_ifs
    · cases a.findActiveChan peer with
      | none => rfl
      | some chan =>
          obtain ⟨msg, rest, hq, -⟩ := id h
          dsimp only
          rw [flushLoop_overlong h, if_neg (by simp [hq]), setQueue]
          dsimp only
          rw [Queues.get_set, if_pos rfl]
    · rfl
  · exact flushQueues_queue hp

/-- A text that is typed goes to the end of the queue. -/
theorem sendMessage_overlong
    {msg : Text} {mem : Bool} {r : Option (Nat × Bool)}
    (h : Overlong (a.sky.msgqueues.get peer)) :
    a.sky.msgqueues.get peer <+: (a.sendMessage p msg mem r).sky.msgqueues.get peer := by
  have hkept : ∀ b : App, b.sky.msgqueues = a.sky.msgqueues →
      a.sky.msgqueues.get peer <+: b.sky.msgqueues.get peer := by
    intro b hb
    rw [hb]
  unfold sendMessage
  cases a.findActiveChan p with
  | some chan =>
      dsimp only
      cases hsend : a.sendMsg chan.ptr msg mem with
      | some b => exact hkept b (sendMsg_same hsend).2
      | none => exact hkept _ rfl
  | none =>
      dsimp only
      by_cases hcontains : a.sky.msgqueues.contains p = true
      · rw [if_pos hcontains, setQueue]
        dsimp only
        rw [Queues.get_set]
        split_ifs with hp
        · rw [hp]
          exact List.prefix_append _ _
        · exact List.prefix_rfl
      · -- the queue that is new is that of another peer
        have hne : peer ≠ p := by
          rintro rfl
          obtain ⟨first, rest, hq, -⟩ := h
          rw [Queues.contains, Bool.not_eq_true, Option.isSome_eq_false_iff,
            Option.isNone_iff_eq_none] at hcontains
          rw [Queues.get, hcontains] at hq
          cases hq
        have hset : ((a.newC2c p r).1.setQueue p [msg]).sky.msgqueues.get peer =
            a.sky.msgqueues.get peer := by
          rw [setQueue]
          dsimp only
          rw [Queues.get_set, if_neg hne, newC2c_sky]
        rw [if_neg hcontains, ← hset]
        split_ifs
        · exact List.prefix_rfl
        · exact List.prefix_rfl

/-- The client goes on. -/
def goesOn : Event → Bool
  | .node .exit => false
  | .restart => false
  | _ => true

theorem step_overlong
    {e : Event} (h : Overlong (a.sky.msgqueues.get peer)) (he : goesOn e = true)
    (hstep : a.step me isEmptyMessage e = some b) :
    a.sky.msgqueues.get peer <+: b.sky.msgqueues.get peer := by
  have hsame : b.sky.msgqueues = a.sky.msgqueues →
      a.sky.msgqueues.get peer <+: b.sky.msgqueues.get peer := by
    intro hb
    rw [hb]
  cases e with
  | node y =>
      simp only [App.step] at hstep
      split_ifs at hstep
      obtain ⟨sky, hsky, rfl⟩ := Option.map_eq_some_iff.mp hstep
      refine hsame (SkyNet.step_queues ?_ ?_ hsky)
      · intro hempty
        obtain ⟨msg, rest, hq, -⟩ := h
        rw [hempty] at hq
        cases hq
      · rintro rfl
        cases he
  | typed p msg stored mem made =>
      simp only [App.step] at hstep
      split_ifs at hstep
      · cases hstep
        exact hsame rfl
      · cases hstep
        exact sendMessage_overlong (a := { a with history := a.history.add me p msg true }) h
      · cases hstep
        exact sendMessage_overlong h
  | established ptr mem =>
      simp only [App.step] at hstep
      cases hc : Table.lookup Chan.ptr ptr a.chans with
      | none => simp [hc] at hstep
      | some c =>
          simp only [hc, Option.some.injEq] at hstep
          rw [← hstep, flushQueues_overlong (a := a.modifyChan ptr _) h]
          exact List.prefix_rfl
  | opened conn p ptr => exact hsame (by rw [onChannel_sky rfl hstep])
  | accepted ptr => exact hsame (by rw [onChannel_sky rfl hstep])
  | msgok ptr => exact hsame (by rw [onChannel_sky rfl hstep])
  | closed ptr => exact hsame (by rw [onChannel_sky rfl hstep])
  | restart => cases he

/-- **A text that is too long blocks the queue.**  Once the queue of a peer begins with such a
text, every text that is in it stays in it as long as the client goes on, whatever channels
are established and whatever else is typed. -/
theorem overlong_blocks_queue
    {es : List Event} (h : Overlong (a.sky.msgqueues.get peer))
    (hes : ∀ e ∈ es, goesOn e = true)
    (hrun : run (step me isEmptyMessage) a es = some b) :
    a.sky.msgqueues.get peer <+: b.sky.msgqueues.get peer := by
  induction es generalizing a with
  | nil =>
      cases hrun
      exact List.prefix_rfl
  | cons e es ih =>
      obtain ⟨c, hc, hrest⟩ := run_cons hrun
      have hfirst := step_overlong h (hes e List.mem_cons_self) hc
      have hrest' := ih (h.of_prefix hfirst) (fun d hd => hes d (List.mem_cons_of_mem e hd)) hrest
      exact hfirst.trans hrest'

section Example

/-- A text of 65533 bytes is typed while the client is offline, and then another one. -/
def longFirst : App :=
  { start with
    sky := { SkyNet.start with msgqueues := [(bob, [List.replicate 65533 65, [66]])] } }

theorem overlong_blocks_queue_typed :
    ∃ b, run (step alice fun _ => false) longFirst [.typed bob [67] true true none] = some b ∧
      [List.replicate 65533 65, [66]] <+: b.sky.msgqueues.get bob := by
  have hlong : Proto.C2CMSG_MAXDATASIZE < (List.replicate 65533 (65 : UInt8)).length := by
    rw [List.length_replicate]
    decide
  have hq : longFirst.sky.msgqueues.get bob = [List.replicate 65533 65, [66]] := rfl
  obtain ⟨b, hb⟩ : ∃ b, run (step alice fun _ => false) longFirst
      [.typed bob [67] true true none] = some b := ⟨_, rfl⟩
  exact ⟨b, hb, hq ▸ overlong_blocks_queue ⟨_, _, hq, hlong⟩ (by simp [goesOn]) hb⟩

end Example

end App

end Client

end PicaPica
