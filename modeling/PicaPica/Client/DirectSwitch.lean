import PicaPica.Client.Duplex

/-!
# Switching to a direct connection

One client has accepted the direct connection, the other one has connected.  Each
side queues one switch message once the direct connection is up on it, in any order
with everything else.  The connection through the node carries the messages pushed
up to and including the switch, the direct one the messages pushed afterwards, and
the handlers of the other side are called with all of them in the order of the
pushes.

The accepting client waits in `WAITINGINCOMING` until `process_directc2c` has matched
the accepted connection with the channel.  A switch message of the connecting client
that is read before that is refused, and the channel is closed: `Duplex.Allowed`
excludes this, and `switch_refused_while_waiting` is a run where it happens.
-/

namespace PicaPica
namespace Client

open Framing Machine

/-- `directc2c_state` when the direct connection comes up. -/
def comingUp (acceptor s : Side) : DirectState :=
  if s = acceptor then .waitingIncoming else .connecting

variable {φ : Type}

/-- **The switch loses, duplicates and reorders nothing.**  As long as every action
is allowed, none of them fails.  What a connection has carried and what is queued for
it are the messages of its part, and the handlers of the peer have been called with
the first of the pushed messages: with all of them once nothing is buffered or under
way. -/
theorem direct_switch_in_order
    (rcv : Others φ) (acceptor : Side) (config : Side → DirectConfig) (others : Side → φ)
    (rnd : Side → Nat → UInt8) (es : List (Side × Event))
    (hok : Meets (Duplex.step rcv) (Duplex.Allowed rcv)
      (Duplex.start (comingUp acceptor) config others rnd) es) :
    ∃ d, run (Duplex.step rcv) (Duplex.start (comingUp acceptor) config others rnd) es = some d ∧
      ∀ s,
        (d s).nodeOut ++ (d s).party.chn.toNode = (upToSwitch (d s).party.pushed).flatten ∧
        (d s).directOut ++ (d s).party.chn.toDirect = (afterSwitch (d s).party.pushed).flatten ∧
        (d s.other).calls <+: (d s).party.pushed ∧
        ((d s).party.chn.writePos = 0 → (d s.other).nodeIn = (d s).nodeOut.length →
          (d s.other).directIn = (d s).directOut.length →
          (d s).nodeOut = (upToSwitch (d s).party.pushed).flatten ∧
            (d s).directOut = (afterSwitch (d s).party.pushed).flatten ∧
            (d s.other).calls = (d s).party.pushed) := by
  obtain ⟨d, hrun, hinv⟩ := run_progress (fun _ _ h hok => Duplex.step_inv h hok)
    (Duplex.start_inv rcv (comingUp acceptor) config others rnd) hok
  refine ⟨d, hrun, fun s => ?_⟩
  have hs := hinv.sending s
  have hr := hinv.receiving s.other
  rw [Side.other_other] at hr
  refine ⟨hs.node, hs.direct, ?_, ?_⟩
  · obtain ⟨todo, hpushed, -⟩ := hr.todo
    exact ⟨todo, hpushed.symm⟩
  · intro hempty hnode hdirect
    obtain ⟨hn, hd⟩ := hs.nothing_queued hempty
    refine ⟨?_, ?_, hr.complete hs hempty hnode hdirect⟩
    · rw [← hs.node, hn, List.append_nil]
    · rw [← hs.direct, hd, List.append_nil]

/-- Both sides switch: a message is queued before and after each switch message, and
a write of the accepting side must be retried when the switch is queued. -/
def bothSwitch : List (Side × Event) :=
  [(.b, .sendMsg [1]), (.b, .write .retry), (.b, .sendSwitch 8 9), (.b, .sendMsg [2]),
   (.a, .sendSwitch 6 7), (.a, .established), (.a, .sendMsg [3]), (.b, .write .all),
   (.b, .write .all), (.b, .write .all), (.a, .read 20), (.a, .read 20), (.a, .write .all),
   (.a, .write .all), (.b, .read 20), (.b, .read 20), (.b, .write .all), (.a, .read 20)]

theorem direct_switch_in_order_both :
    ∃ d, run (Duplex.step fun (_ : Unit) _ => ((), [], 0))
        (Duplex.start (comingUp .b) (fun _ => .allowIncoming) (fun _ => ()) fun _ _ => 7)
        bothSwitch = some d ∧
      (d .a).calls = (d .b).party.pushed ∧
      (d .b).directOut = (afterSwitch (d .b).party.pushed).flatten := by
  obtain ⟨d, hrun, hd⟩ := direct_switch_in_order (fun (_ : Unit) _ => ((), [], 0)) .b
    (fun _ => .allowIncoming) (fun _ => ()) (fun _ _ => 7) bothSwitch (by decide +kernel)
  have hend : (run (Duplex.step fun (_ : Unit) _ => ((), [], 0))
      (Duplex.start (comingUp .b) (fun _ => .allowIncoming) (fun _ => ()) fun _ _ => 7)
      bothSwitch).map (fun d => ((d .b).party.chn.writePos,
        (d .a).nodeIn == (d .b).nodeOut.length, (d .a).directIn == (d .b).directOut.length)) =
        some (0, true, true) := by
    decide +kernel
  rw [hrun, Option.map_some, Option.some.injEq, Prod.mk.injEq, Prod.mk.injEq, beq_iff_eq,
    beq_iff_eq] at hend
  obtain ⟨-, hdirect, hcalls⟩ := (hd .b).2.2.2 hend.1 hend.2.1 hend.2.2
  exact ⟨d, hrun, hcalls, hdirect⟩

/-- The connecting side has switched and its switch message arrives while the
accepting side still waits for `process_directc2c`. -/
def earlySwitch : List (Side × Event) :=
  [(.a, .sendSwitch 6 7), (.a, .write .all)]

/-- **A switch message that comes early closes the channel.** -/
theorem switch_refused_while_waiting :
    ((run (Duplex.step fun (_ : Unit) _ => ((), [], 0))
        (Duplex.start (comingUp .b) (fun _ => .allowIncoming) (fun _ => ()) fun _ _ => 7)
        earlySwitch).map fun d =>
          ((d .a).nodeOut, (d .b).party.chn.directState)) =
        some (shortFrame Proto.DIRECTC2C_SWITCH 6 7, .waitingIncoming) ∧
      (run (Duplex.step fun (_ : Unit) _ => ((), [], 0))
        (Duplex.start (comingUp .b) (fun _ => .allowIncoming) (fun _ => ()) fun _ _ => 7)
        (earlySwitch ++ [(.b, .read 4)])).isNone = true := by
  decide +kernel

end Client
end PicaPica
