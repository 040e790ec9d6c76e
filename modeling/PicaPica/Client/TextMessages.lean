import PicaPica.Client.Duplex

/-!
# Text messages arrive intact, in order and once

Both clients call `PICA_send_msg`, `PICA_write_c2c` and `PICA_read_c2c` in any order
on an open channel.  The messages given to `newmsg_cb` on one side are the first of
those passed to `PICA_send_msg` on the other side, and each has been answered by one
`MSGOK`.

`c2c_writebuf_push` computes the end of a message as an `unsigned int` without
looking for an overflow, and `PICA_write_ssl` passes an `unsigned int` to
`SSL_write`, which takes an `int`.  `TextAllowed` keeps away from both limits, and
`send_overflow` shows what happens at the first one.
-/

namespace PicaPica
namespace Client

open Framing Machine

/-- The frame is a text message. -/
def isText (f : Frame) : Bool :=
  byteAt f 0 == Proto.MSGUTF8

/-- The frame reports the delivery of one. -/
def isOk (f : Frame) : Bool :=
  byteAt f 0 == Proto.MSGOK

/-- The texts in a sequence of messages. -/
def texts (fs : List Frame) : List (List UInt8) :=
  (fs.filter isText).map (List.drop 4)

theorem texts_append (fs gs : List Frame) : texts (fs ++ gs) = texts fs ++ texts gs := by
  simp [texts]

variable {φ : Type} (rcv : Others φ)

/-- The condition on an action of a client that only sends text messages: the end of
what it queues, by itself or as an answer to what it reads, is an `unsigned int`,
and `SSL_write` is offered an `int`. -/
def TextAllowed (d : Duplex φ) (e : Side × Event) : Prop :=
  let me := d e.1
  match e.2 with
  | .sendMsg m => m.length ≤ Proto.C2CMSG_MAXDATASIZE ∧
      me.party.chn.writePos + (m.length + 4) < uintMod
  | .write r => (r = .all ∨ r = .retry) ∧ me.party.chn.offered < intMod
  | .read n =>
      let bytes := me.incoming (d e.1.other).nodeOut (d e.1.other).directOut n
      me.party.chn.writePos + 4 * (texts (framesIn rcv (me.party.left ++ bytes))).length < uintMod
  | _ => False

instance (d : Duplex φ) : ∀ e : Side × Event, Decidable (TextAllowed rcv d e)
  | (_, .push _) => inferInstanceAs (Decidable False)
  | (_, .sendMsg _) => inferInstanceAs (Decidable (_ ∧ _))
  | (_, .sendSwitch _ _) => inferInstanceAs (Decidable False)
  | (_, .established) => inferInstanceAs (Decidable False)
  | (_, .write _) => inferInstanceAs (Decidable (_ ∧ _))
  | (_, .read _) => inferInstanceAs (Decidable (_ < _))

/-- Only text messages and their reports are under way, and the logs agree with
them. -/
structure TextLog (me : Endpoint φ) : Prop where
  kinds : ∀ f ∈ me.party.pushed, isText f = true ∨ isOk f = true
  sent : me.sent = texts me.party.pushed
  newmsg : me.party.newmsg = texts me.calls
  reports : (me.party.pushed.filter isOk).length = me.party.newmsg.length

variable {rcv}

theorem answers_text
    {fs : List Frame} (h : ∀ f ∈ fs, isText f = true ∨ isOk f = true) (s : φ) :
    answers rcv s fs = some (4 * (texts fs).length) := by
  induction fs with
  | nil => rfl
  | cons f fs ih =>
      have hrest := ih fun g hg => h g (List.mem_cons_of_mem f hg)
      rcases h f List.mem_cons_self with hf | hf
      · have hid : byteAt f 0 = Proto.MSGUTF8 := by simpa [isText] using hf
        rw [answers, if_pos hid, hrest]
        simp only [texts, List.filter_cons, hf, if_true, List.map_cons, List.length_cons,
          Option.map_some, Option.some.injEq]
        omega
      · have hid : byteAt f 0 = Proto.MSGOK := by simpa [isOk] using hf
        have hn : isText f = false := by
          simp only [isText, hid]
          decide
        rw [answers, if_neg (by rw [hid]; decide), if_pos (Or.inl hid), hrest]
        simp [texts, hn]

theorem handler_text
    {p : Party φ} {f : Frame} (hf : Sendable rcv f) (hid : byteAt f 0 = Proto.MSGUTF8) :
    processmsg f f.length p (c2cMessages .enough rcv) = procmsgMSGUTF8 .enough p f := by
  rcases processmsg_kind hf with ⟨-, hcall⟩ | ⟨h, -⟩ | ⟨h, -⟩ | ⟨h, -⟩
  · exact hcall p
  · exact absurd (hid.symm.trans h) (by decide)
  · exact absurd (hid.symm.trans h) (by decide)
  · exact absurd hid h

theorem handler_report
    {p : Party φ} {f : Frame} (hf : Sendable rcv f) (hid : byteAt f 0 = Proto.MSGOK) :
    processmsg f f.length p (c2cMessages .enough rcv) = procmsgMSGOK p f := by
  rcases processmsg_kind hf with ⟨h, -⟩ | ⟨-, hcall⟩ | ⟨h, -⟩ | ⟨-, h, -⟩
  · exact absurd (hid.symm.trans h) (by decide)
  · exact hcall p
  · exact absurd (hid.symm.trans h) (by decide)
  · exact absurd hid h

/-- A text message that is accepted is given to the application and reported. -/
theorem procmsgMSGUTF8_accepts
    {p : Party φ} {f : Frame} {mem : Memory} (h : (procmsgMSGUTF8 mem p f).2 ≠ 0) :
    (procmsgMSGUTF8 mem p f).1.newmsg = p.newmsg ++ [f.drop 4] ∧
      ∃ report, (procmsgMSGUTF8 mem p f).1.pushed = p.pushed ++ [report] ∧ isOk report = true := by
  simp only [procmsgMSGUTF8, Party.push] at h ⊢
  by_cases hstate : p.chn.state ≠ .active
  · exact absurd (by simp [hstate]) h
  · simp only [if_neg hstate] at h ⊢
    generalize c2cWritebufPush mem p.chn
      (shortFrame Proto.MSGOK (p.rnd p.rndPos) (p.rnd (p.rndPos + 1))) = r at h ⊢
    rcases r with _ | ⟨chn, _ | _⟩
    · exact absurd rfl h
    · exact absurd rfl h
    · exact ⟨rfl, _, rfl, rfl⟩

/-- What the handlers of text messages and reports record. -/
theorem handleAll_text
    {p u : Party φ} {fs : List Frame}
    (hfs : ∀ f ∈ fs, Sendable rcv f)
    (hkinds : ∀ f ∈ fs, isText f = true ∨ isOk f = true)
    (hall : handleAll (handler (c2cMessages .enough rcv)) p fs = some u) :
    u.newmsg = p.newmsg ++ texts fs ∧
      ∃ reports, u.pushed = p.pushed ++ reports ∧ reports.length = (texts fs).length ∧
        ∀ f ∈ reports, isOk f = true := by
  induction fs generalizing p with
  | nil =>
      obtain rfl : p = u := by simpa [handleAll] using hall
      exact ⟨by simp [texts], [], by simp, rfl, by simp⟩
  | cons f fs ih =>
      rw [handleAll] at hall
      split_ifs at hall with hacc
      obtain ⟨hnew, reports, hpushed, hlen, hok⟩ :=
        ih (fun g hg => hfs g (List.mem_cons_of_mem f hg))
          (fun g hg => hkinds g (List.mem_cons_of_mem f hg)) hall
      have hf := hfs f List.mem_cons_self
      rcases hkinds f List.mem_cons_self with htext | hrep
      · have hid : byteAt f 0 = Proto.MSGUTF8 := by simpa [isText] using htext
        simp only [handler, handler_text hf hid, decide_eq_true_eq] at hacc hnew hpushed
        obtain ⟨hnew₁, report, hpushed₁, hok₁⟩ := procmsgMSGUTF8_accepts hacc
        have htexts : texts (f :: fs) = f.drop 4 :: texts fs := by simp [texts, htext]
        refine ⟨?_, report :: reports, ?_, ?_, ?_⟩
        · rw [hnew, hnew₁, htexts, List.append_assoc]
          rfl
        · rw [hpushed, hpushed₁, List.append_assoc]
          rfl
        · rw [htexts, List.length_cons, List.length_cons, hlen]
        · intro g hg
          rcases List.mem_cons.mp hg with rfl | hg
          · exact hok₁
          · exact hok g hg
      · have hid : byteAt f 0 = Proto.MSGOK := by simpa [isOk] using hrep
        have hn : isText f = false := by
          simp only [isText, hid]
          decide
        have htexts : texts (f :: fs) = texts fs := by simp [texts, hn]
        simp only [handler, handler_report hf hid] at hnew hpushed
        rw [htexts]
        exact ⟨hnew, reports, hpushed, hlen, hok⟩

theorem isText_of_isOk {f : Frame} (h : isOk f = true) : isText f = false := by
  have hid : byteAt f 0 = Proto.MSGOK := by simpa [isOk] using h
  simp only [isText, hid]
  decide

theorem texts_reports {fs : List Frame} (h : ∀ f ∈ fs, isOk f = true) : texts fs = [] := by
  have hnone : fs.filter isText = [] :=
    List.filter_eq_nil_iff.mpr fun f hf => by simp [isText_of_isOk (h f hf)]
  rw [texts, hnone]
  rfl

theorem isSwitch_of_kind {f : Frame} (h : isText f = true ∨ isOk f = true) :
    isSwitch f = false := by
  rcases h with h | h
  · have hid : byteAt f 0 = Proto.MSGUTF8 := by simpa [isText] using h
    simp only [isSwitch, hid]
    decide
  · have hid : byteAt f 0 = Proto.MSGOK := by simpa [isOk] using h
    simp only [isSwitch, hid]
    decide

/-- Among text messages nothing is refused, so the condition for them is enough. -/
theorem TextAllowed.allowed
    {d : Duplex φ} {e : Side × Event}
    (h : d.Inv rcv) (hlog : ∀ s, TextLog (d s)) (hok : TextAllowed rcv d e) :
    d.Allowed rcv e := by
  obtain ⟨s, e⟩ := e
  cases e with
  | push f => exact hok.elim
  | sendMsg m => exact hok
  | sendSwitch r₀ r₁ => exact hok.elim
  | established => exact hok.elim
  | write r => exact hok
  | read n =>
      obtain ⟨todo, hpushed⟩ := (h.receiving s).framesIn_next (n := n) (h.sending s.other)
      have hkinds : ∀ f ∈ framesIn rcv ((d s).party.left ++
          (d s).incoming (d s.other).nodeOut (d s.other).directOut n),
          isText f = true ∨ isOk f = true := by
        intro f hf
        refine (hlog s.other).kinds f ?_
        rw [hpushed]
        exact List.mem_append_left _ (List.mem_append_right _ hf)
      refine ⟨?_, _, answers_text hkinds _, hok⟩
      intro hany
      obtain ⟨f, hf, hsw⟩ := List.any_eq_true.mp hany
      rw [isSwitch_of_kind (hkinds f hf)] at hsw
      cases hsw

/-- The messages an action passes to `PICA_send_msg`. -/
def Event.sends : Event → List (List UInt8)
  | .sendMsg m => [m]
  | _ => []

/-- What a client has passed to `PICA_send_msg` during a run. -/
def sentBy (s : Side) (es : List (Side × Event)) : List (List UInt8) :=
  es.flatMap fun e => if e.1 = s then e.2.sends else []

section Log

variable {peer me t : Endpoint φ} {node direct : List UInt8}

theorem step_sendMsg_log
    {m : List UInt8} (h : me.step rcv node direct (.sendMsg m) = some t) :
    t.party.pushed = me.party.pushed ++ [msgFrame m] ∧ t.sent = me.sent ++ [m] ∧
      t.calls = me.calls ∧ t.party.newmsg = me.party.newmsg := by
  simp only [Endpoint.step] at h
  split at h
  · cases h
    exact ⟨rfl, rfl, rfl, rfl⟩
  · cases h

theorem step_write_log
    {r : SslWrite} (h : me.step rcv node direct (.write r) = some t) :
    t.party.pushed = me.party.pushed ∧ t.sent = me.sent ∧ t.calls = me.calls ∧
      t.party.newmsg = me.party.newmsg := by
  simp only [Endpoint.step] at h
  split at h
  · split_ifs at h
    cases h
    exact ⟨rfl, rfl, rfl, rfl⟩
  · cases h

/-- The logs stay in agreement. -/
theorem TextLog.step
    {d : Duplex φ} {s : Side} {e : Event}
    (h : d.Inv rcv) (hlog : ∀ s, TextLog (d s)) (hok : TextAllowed rcv d (s, e))
    (hstep : (d s).step rcv (d s.other).nodeOut (d s.other).directOut e = some t) :
    TextLog t := by
  have hme := hlog s
  cases e with
  | push f => exact hok.elim
  | sendSwitch r₀ r₁ => exact hok.elim
  | established => exact hok.elim
  | sendMsg m =>
      obtain ⟨hpushed, hsent, hcalls, hnew⟩ := step_sendMsg_log hstep
      have htext : isText (msgFrame m) = true := rfl
      have hnok : isOk (msgFrame m) = false := rfl
      have hone : texts [msgFrame m] = [m] := by
        rw [texts, List.filter_cons, if_pos htext]
        rfl
      refine ⟨?_, ?_, by rw [hnew, hcalls, hme.newmsg], ?_⟩
      · intro f hf
        rw [hpushed] at hf
        rcases List.mem_append.mp hf with hf | hf
        · exact hme.kinds f hf
        · rw [List.mem_singleton.mp hf]
          exact .inl htext
      · rw [hsent, hpushed, texts_append, hme.sent, hone]
      · rw [hpushed, hnew, ← hme.reports]
        simp [hnok]
  | write r =>
      obtain ⟨hpushed, hsent, hcalls, hnew⟩ := step_write_log hstep
      exact ⟨by rw [hpushed]; exact hme.kinds, by rw [hsent, hpushed, hme.sent],
        by rw [hnew, hcalls, hme.newmsg], by rw [hpushed, hnew, hme.reports]⟩
  | read n =>
      have hallowed : ReadAllowed rcv (d s) _ := TextAllowed.allowed h hlog hok
      obtain ⟨t', u, hstep', hdone⟩ :=
        read_step (h.sending s.other) (h.sending s) (h.receiving s) hallowed
      obtain rfl : t' = t := Option.some.inj (hstep'.symm.trans hstep)
      obtain ⟨todo, hpushed⟩ := (h.receiving s).framesIn_next (n := n) (h.sending s.other)
      generalize framesIn rcv ((d s).party.left ++
        (d s).incoming (d s.other).nodeOut (d s.other).directOut n) = fs at *
      have hmem : ∀ f ∈ fs, f ∈ (d s.other).party.pushed := fun f hf => by
        rw [hpushed]
        exact List.mem_append_left _ (List.mem_append_right _ hf)
      obtain ⟨hnew, reports, hrep, hlen, hoks⟩ :=
        handleAll_text (fun f hf => (h.sending s.other).sendable f (hmem f hf))
          (fun f hf => (hlog s.other).kinds f (hmem f hf)) hdone.handled
      obtain ⟨buf, pos, hparty⟩ := hdone.party
      have hp : t'.party.pushed = (d s).party.pushed ++ reports := by rw [hparty]; exact hrep
      have hn : t'.party.newmsg = (d s).party.newmsg ++ texts fs := by rw [hparty]; exact hnew
      refine ⟨?_, ?_, ?_, ?_⟩
      · intro f hf
        rw [hp] at hf
        rcases List.mem_append.mp hf with hf | hf
        · exact hme.kinds f hf
        · exact .inr (hoks f hf)
      · rw [hdone.sent, hp, texts_append, texts_reports hoks, List.append_nil, hme.sent]
      · rw [hn, hdone.calls, texts_append, hme.newmsg]
      · rw [hp, hn, List.filter_append, List.length_append, List.length_append, hme.reports,
          List.filter_eq_self.mpr hoks, hlen]

theorem step_sent
    {e : Event} (h : me.step rcv node direct e = some t) :
    t.sent = me.sent ++ e.sends := by
  cases e with
  | sendMsg m => exact (step_sendMsg_log h).2.1
  | write r =>
      rw [(step_write_log h).2.1]
      exact (List.append_nil _).symm
  | push f =>
      obtain ⟨p, -, rfl⟩ := Option.map_eq_some_iff.mp h
      exact (List.append_nil _).symm
  | sendSwitch r₀ r₁ =>
      simp only [Endpoint.step] at h
      split at h
      · cases h
        exact (List.append_nil _).symm
      · cases h
  | established =>
      simp only [Endpoint.step] at h
      split_ifs at h
      · cases h
        exact (List.append_nil _).symm
      · cases h
        exact (List.append_nil _).symm
  | read n =>
      simp only [Endpoint.step] at h
      split at h
      · split at h
        · cases h
          exact (List.append_nil _).symm
        · cases h
      · cases h

end Log

/-- The log of sent messages is what the run has passed to `PICA_send_msg`. -/
theorem run_sent
    {d t : Duplex φ} {es : List (Side × Event)}
    (h : run (Duplex.step rcv) d es = some t) (s : Side) :
    (t s).sent = (d s).sent ++ sentBy s es := by
  induction es generalizing d with
  | nil =>
      obtain rfl : d = t := by simpa [run] using h
      simp [sentBy]
  | cons e es ih =>
      obtain ⟨u, hu, hrest⟩ := run_cons h
      obtain ⟨r, e⟩ := e
      obtain ⟨me, hme, rfl⟩ := Duplex.step_eq hu
      rw [ih hrest, sentBy, sentBy, List.flatMap_cons, ← List.append_assoc]
      congr 1
      by_cases hs : r = s
      · subst hs
        rw [Function.update_self, step_sent hme]
        simp
      · rw [Function.update_of_ne (Ne.symm hs)]
        simp [hs]

/-- **Step lemma.**  An allowed action of a client that only sends text messages
succeeds and keeps the logs. -/
theorem text_step
    {d : Duplex φ} {e : Side × Event}
    (h : d.Inv rcv ∧ ∀ s, TextLog (d s)) (hok : TextAllowed rcv d e) :
    ∃ t, d.step rcv e = some t ∧ t.Inv rcv ∧ ∀ s, TextLog (t s) := by
  obtain ⟨hinv, hlog⟩ := h
  obtain ⟨t, hstep, ht⟩ := Duplex.step_inv hinv (hok.allowed hinv hlog)
  refine ⟨t, hstep, ht, ?_⟩
  obtain ⟨s, e⟩ := e
  obtain ⟨me, hme, rfl⟩ := Duplex.step_eq hstep
  intro r
  rcases s.eq_or r with rfl | rfl
  · rw [Function.update_self]
    exact TextLog.step hinv hlog hok hme
  · rw [Function.update_of_ne s.other_ne]
    exact hlog _

/-- **Text messages arrive intact, in order and once.**  As long as the ends of the
queued messages are `unsigned int` values and `SSL_write` is offered an `int`, no
push, write or read fails, there is always room for a read, and each side is given
the messages the other side has sent: the first ones at any time, all of them once
nothing is buffered or under way.  Each is answered by one `MSGOK`. -/
theorem text_messages_arrive
    (rcv : Others φ) (direct : Side → DirectState) (config : Side → DirectConfig)
    (others : Side → φ) (rnd : Side → Nat → UInt8) (es : List (Side × Event))
    (hok : Meets (Duplex.step rcv) (TextAllowed rcv) (Duplex.start direct config others rnd) es) :
    ∃ d, run (Duplex.step rcv) (Duplex.start direct config others rnd) es = some d ∧
      ∀ s, (d s.other).party.newmsg <+: sentBy s es ∧
        ((d s.other).party.pushed.filter isOk).length = (d s.other).party.newmsg.length ∧
        (d s).party.chn.readPos < chanReadBufSize ∧
        ((d s).party.chn.writePos = 0 → (d s.other).nodeIn = (d s).nodeOut.length →
          (d s.other).party.newmsg = sentBy s es) := by
  have hstart : (Duplex.start direct config others rnd).Inv rcv ∧
      ∀ s, TextLog (Duplex.start direct config others rnd s) :=
    ⟨Duplex.start_inv rcv direct config others rnd, fun _ => ⟨nofun, rfl, rfl, rfl⟩⟩
  have hstep : ∀ (d : Duplex φ) e, (d.Inv rcv ∧ ∀ s, TextLog (d s)) → TextAllowed rcv d e →
      ∃ t, d.step rcv e = some t ∧ t.Inv rcv ∧ ∀ s, TextLog (t s) :=
    fun _ _ h hok => text_step h hok
  obtain ⟨d, hrun, hinv, hlog⟩ := run_progress hstep hstart hok
  refine ⟨d, hrun, fun s => ⟨?_, (hlog s.other).reports, ?_, ?_⟩⟩
  · obtain ⟨todo, hpushed, -⟩ := (hinv.receiving s.other).todo
    rw [Side.other_other] at hpushed
    have hsent := run_sent hrun s
    rw [(hlog s).sent, hpushed, texts_append, ← (hlog s.other).newmsg] at hsent
    exact ⟨_, hsent.trans (List.nil_append _)⟩
  · exact (hinv.receiving s).room (hinv.sending s.other).sendable
  · intro hempty hnode
    have hr := hinv.receiving s.other
    rw [Side.other_other] at hr
    have hsent := run_sent hrun s
    have hdirect : (d s).directOut = [] := by
      have hno : (d s).party.pushed.any isSwitch = false := by
        rw [List.any_eq_false]
        intro f hf
        rw [isSwitch_of_kind ((hlog s).kinds f hf)]
        simp
      have := (hinv.sending s).direct
      rw [afterSwitch_of_none hno, List.flatten_nil, List.append_eq_nil_iff] at this
      exact this.1
    have hzero : (d s.other).directIn = (d s).directOut.length := by
      have := hr.directIn
      rw [hdirect] at this ⊢
      exact Nat.le_zero.mp this
    have hcalls := hr.complete (hinv.sending s) hempty hnode hzero
    rw [(hlog s.other).newmsg, hcalls, ← (hlog s).sent, hsent]
    rfl

/-- One client sends two messages, the other one reads them in three pieces. -/
def twoTexts : List (Side × Event) :=
  [(.a, .sendMsg [104, 105]), (.a, .write .retry), (.a, .sendMsg []), (.a, .write .all),
   (.b, .read 3), (.b, .read 5), (.a, .write .all), (.b, .read 9), (.b, .write .all),
   (.a, .read 9)]

theorem text_messages_arrive_two :
    ∃ d, run (Duplex.step fun (_ : Unit) _ => ((), [], 0))
        (Duplex.start (fun _ => .inactive) (fun _ => .disabled) (fun _ => ()) fun _ _ => 7)
        twoTexts = some d ∧
      (d .b).party.newmsg = [[104, 105], []] := by
  obtain ⟨d, hrun, hd⟩ := text_messages_arrive (fun (_ : Unit) _ => ((), [], 0))
    (fun _ => .inactive) (fun _ => .disabled) (fun _ => ()) (fun _ _ => 7) twoTexts
    (by decide +kernel)
  have hend : (run (Duplex.step fun (_ : Unit) _ => ((), [], 0))
      (Duplex.start (fun _ => .inactive) (fun _ => .disabled) (fun _ => ()) fun _ _ => 7)
      twoTexts).map (fun d => ((d .a).party.chn.writePos, (d .b).nodeIn, (d .a).nodeOut.length)) =
        some (0, 10, 10) := by
    decide +kernel
  rw [hrun, Option.map_some, Option.some.injEq, Prod.mk.injEq, Prod.mk.injEq] at hend
  exact ⟨d, hrun, (hd .a).2.2.2 hend.1 (hend.2.1.trans hend.2.2.symm)⟩

section Overflow

variable {m : List UInt8}

/-- Sending without writing fills the buffer. -/
theorem run_largestTexts
    {d : Duplex φ} (k : Nat) (hm : m.length = Proto.C2CMSG_MAXDATASIZE)
    (h : d.Inv rcv) (hroom : (d .a).party.chn.writePos + k * 65536 < uintMod) :
    ∃ t, run (Duplex.step rcv) d (List.replicate k (.a, .sendMsg m)) = some t ∧
      t.Inv rcv ∧ (t .a).party.chn.writePos = (d .a).party.chn.writePos + k * 65536 ∧
      ((d .a).party.chn.writeBuf ≠ none → (t .a).party.chn.writeBuf ≠ none) := by
  induction k generalizing d with
  | zero => exact ⟨d, rfl, h, by omega, id⟩
  | succ k ih =>
      have hlen : (msgFrame m).length = 65536 := by rw [length_msgFrame, hm]; rfl
      have hallowed : d.Allowed rcv (.a, .sendMsg m) := by
        refine ⟨Nat.le_of_eq hm, ?_⟩
        rw [← length_msgFrame, hlen]
        show (d .a).party.chn.writePos + 65536 < uintMod
        omega
      obtain ⟨u, hstep, hu⟩ := Duplex.step_inv h hallowed
      obtain ⟨chn, hpush, hp, -⟩ := c2cWritebufPush_spec (f := msgFrame m)
        (h.sending .a).writeOk (by rw [hlen]; omega)
      have hchn : (u .a).party.chn = chn := by
        obtain ⟨me, hme, rfl⟩ := Duplex.step_eq hstep
        have hmax : ¬ Proto.C2CMSG_MAXDATASIZE < m.length := by omega
        simp only [Endpoint.step, sendMsg, hmax, if_false, hpush, Option.map_some, if_true,
          Option.some.injEq] at hme
        rw [Function.update_self, ← hme]
      have hpos := hp.writePos
      rw [← hchn, hlen] at hpos
      obtain ⟨t, hrun, ht, hend, hbuf⟩ := ih hu (by rw [hpos]; omega)
      refine ⟨t, by rw [List.replicate_succ, run, hstep]; exact hrun, ht, by omega, ?_⟩
      intro _
      exact hbuf (hchn ▸ hp.writeBuf)

/-- The message that would end beyond the range of `unsigned int` cannot be placed. -/
theorem step_overflow
    {d : Duplex φ} (hm : m.length = Proto.C2CMSG_MAXDATASIZE) (h : d.Inv rcv)
    (hbuf : (d .a).party.chn.writeBuf ≠ none)
    (hover : uintMod ≤ (d .a).party.chn.writePos + 65536) :
    d.step rcv (.a, .sendMsg m) = none := by
  have hlen : (msgFrame m).length = 65536 := by rw [length_msgFrame, hm]; rfl
  have hpush := c2cWritebufPush_overflow (f := msgFrame m) (h.sending .a).writeOk hbuf
    (by rw [hlen]; exact hover)
  have hmax : ¬ Proto.C2CMSG_MAXDATASIZE < m.length := by omega
  simp [Duplex.step, Endpoint.step, sendMsg, hmax, hpush]

/-- An empty message and 65536 of the largest ones. -/
def fillingTexts (m : List UInt8) : List (Side × Event) :=
  (.a, .sendMsg []) :: List.replicate 65536 (.a, .sendMsg m)

theorem run_fillingTexts
    {d u : Duplex φ} (hm : m.length = Proto.C2CMSG_MAXDATASIZE)
    (hfirst : d.step rcv (.a, .sendMsg []) = some u) (hu : u.Inv rcv)
    (hpos : (u .a).party.chn.writePos = 4) (hbuf : (u .a).party.chn.writeBuf ≠ none) :
    run (Duplex.step rcv) d (fillingTexts m) = none := by
  obtain ⟨v, hrun, hv, hposV, hbufV⟩ :=
    run_largestTexts 65535 hm hu (by rw [hpos]; decide)
  rw [Option.eq_none_iff_forall_ne_some]
  intro t hall
  obtain ⟨u', hu', hrest⟩ := run_cons hall
  obtain rfl : u' = u := Option.some.inj (hu'.symm.trans hfirst)
  have hsplit : List.replicate 65536 (Side.a, Event.sendMsg m) =
      List.replicate 65535 (.a, .sendMsg m) ++ [(.a, .sendMsg m)] := List.replicate_succ'
  rw [hsplit] at hrest
  obtain ⟨v', hv', hlast⟩ := run_append hrest
  obtain rfl : v' = v := Option.some.inj (hv'.symm.trans hrun)
  obtain ⟨w, hw, -⟩ := run_cons hlast
  rw [step_overflow hm hv (hbufV hbuf) (by rw [hposV, hpos]; decide)] at hw
  cases hw

/-- The largest message `PICA_send_msg` takes. -/
def largestText : List UInt8 :=
  List.replicate Proto.C2CMSG_MAXDATASIZE 0

theorem length_largestText : largestText.length = Proto.C2CMSG_MAXDATASIZE :=
  List.length_replicate

theorem sentBy_fillingTexts {x : List UInt8} (h : x ∈ sentBy .a (fillingTexts m)) :
    x = [] ∨ x = m := by
  simp only [sentBy, fillingTexts, List.flatMap_cons, List.mem_append, List.mem_flatMap,
    List.mem_replicate] at h
  rcases h with h | ⟨e, ⟨-, rfl⟩, h⟩
  · exact .inl (by simpa [Event.sends] using h)
  · exact .inr (by simpa [Event.sends] using h)

/-- **The write buffer overflows.**  Sent without a write in between, these messages
make `size + write_pos` wrap around: the last one would end at `2^32 + 4`, the buffer
is shrunk to 4 bytes and the message is written outside it. -/
theorem send_overflow :
    (∀ m ∈ sentBy .a (fillingTexts largestText), m.length ≤ Proto.C2CMSG_MAXDATASIZE) ∧
      run (Duplex.step fun (_ : Unit) _ => ((), [], 0))
        (Duplex.start (fun _ => .inactive) (fun _ => .disabled) (fun _ => ()) fun _ _ => 7)
        (fillingTexts largestText) = none := by
  constructor
  · intro m hm
    rcases sentBy_fillingTexts hm with rfl | rfl
    · exact Nat.zero_le _
    · exact Nat.le_of_eq length_largestText
  · obtain ⟨u, hu, hinv⟩ := Duplex.step_inv (e := (.a, .sendMsg []))
      (Duplex.start_inv (fun (_ : Unit) _ => ((), [], 0)) (fun _ => .inactive)
        (fun _ => .disabled) (fun _ => ()) fun _ _ => 7) (by decide +kernel)
    have hfirst : ((Duplex.step (fun (_ : Unit) _ => ((), [], 0)))
        (Duplex.start (fun _ => .inactive) (fun _ => .disabled) (fun _ => ()) fun _ _ => 7)
        (.a, .sendMsg [])).map (fun d => ((d .a).party.chn.writePos,
          (d .a).party.chn.writeBuf.isSome)) = some (4, true) := by
      decide +kernel
    rw [hu, Option.map_some, Option.some.injEq, Prod.mk.injEq] at hfirst
    exact run_fillingTexts length_largestText hu hinv hfirst.1
      (Option.isSome_iff_ne_none.mp hfirst.2)

end Overflow

end Client
end PicaPica
