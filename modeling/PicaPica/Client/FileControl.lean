import PicaPica.Client.FileLink

/-!
# Commands during a file transfer

Either end can pause, resume and cancel.  It does so at once and tells the other end,
which refuses a command that does not suit its own state and then closes the channel.
Commands that meet on their way do not suit.  Without such meetings everything that is
delivered is accepted.
-/

namespace PicaPica
namespace Client

open Machine

namespace FileLink

/-- Nobody gives a command that takes effect while something on its way does not suit it:

* a command while a command of the other end is on its way,
* a command of the receiver when the sender has already sent the whole file,
* a cancel of the receiver while anything is on its way to it,
* a fragment while a cancel is on its way, and the last one while a command is.

There is one transfer, and reading the file does not fail. -/
def Calm (l : FileLink) : FileEvent → Prop
  | .sendFile _ => False
  | .accept _ _ => True
  | .pause true => l.snd.sendState = .sending → ∀ f ∈ l.toSnd, isControl f = false
  | .resume true => l.snd.sendState = .paused → ∀ f ∈ l.toSnd, isControl f = false
  | .cancel true => l.snd.Sending → ∀ f ∈ l.toSnd, isControl f = false
  | .pause false =>
      l.rcv.recvState = .receiving →
        l.snd.sendState ≠ .idle ∧ ∀ f ∈ l.toRcv, isControl f = false
  | .resume false =>
      l.rcv.recvState = .paused →
        l.snd.sendState ≠ .idle ∧ ∀ f ∈ l.toRcv, isControl f = false
  | .cancel false => l.rcv.Receiving → l.toRcv = []
  | .fragment =>
      l.snd.sendState = .sending →
        l.nextData ≠ [] ∧ (∀ f ∈ l.toSnd, isCancel f = false) ∧
          (l.snd.sendPos + l.nextData.length = l.file.length →
            ∀ f ∈ l.toSnd, isControl f = false)
  | .toReceiver _ => True
  | .toSender => True

instance (c : FileChan) : Decidable c.Sending :=
  inferInstanceAs (Decidable (_ ∨ _))

instance (c : FileChan) : Decidable c.Receiving :=
  inferInstanceAs (Decidable (_ ∨ _))

instance (l : FileLink) : ∀ e, Decidable (l.Calm e)
  | .sendFile _ => .isFalse id
  | .accept _ _ | .toReceiver _ | .toSender => .isTrue trivial
  | .pause true | .resume true | .cancel true => inferInstanceAs (Decidable (_ → _))
  | .pause false | .resume false | .cancel false => inferInstanceAs (Decidable (_ → _))
  | .fragment => inferInstanceAs (Decidable (_ → _))

variable {l : FileLink}

/-- The command of the sender goes out behind everything else. -/
theorem sender_push
    {c : FileChan} {senderctl receiverctl : UInt8} (hout : c.out = []) :
    l.sender (sendFilecontrol true c senderctl receiverctl).1 =
      { l with snd := c, toRcv := l.toRcv ++ [ctlFrame senderctl receiverctl] } := by
  have hc : ({ c with out := [] } : FileChan) = c := by rw [← hout]
  simp [sender, sendFilecontrol, FileChan.push, hout, hc]

theorem receiver_push
    {c : FileChan} {senderctl receiverctl : UInt8} (hout : c.out = []) :
    l.receiver (sendFilecontrol true c senderctl receiverctl).1 =
      { l with rcv := c, toSnd := l.toSnd ++ [ctlFrame senderctl receiverctl] } := by
  have hc : ({ c with out := [] } : FileChan) = c := by rw [← hout]
  simp [receiver, sendFilecontrol, FileChan.push, hout, hc]

section Sender

theorem fit_running {r : RecvState} (h : Fit .sending r) : r = .receiving := by
  cases h
  rfl

theorem fit_paused {r : RecvState} (h : Fit .paused r) : r = .paused := by
  cases h
  rfl

theorem Inv.pause_sender
    (h : l.Inv) (hok : l.Calm (.pause true)) :
    ∃ t, l.step (.pause true) = some t ∧ t.Inv := by
  by_cases hstate : l.snd.sendState = .sending
  · have hstep : l.step (.pause true) = some { l with
        snd := { l.snd with sendState := .paused }
        toRcv := l.toRcv ++ [ctlFrame Proto.CTL_PAUSE Proto.CTL_VOID] } := by
      rw [step, pauseFile, if_pos rfl, if_neg (fun hn => hn hstate), sender_push]
      exact h.sndOut
    have hopen := FileChan.Sending.isOpen (.inl hstate) h.sndAgree
    refine ⟨_, hstep, ?_⟩
    refine h.sender_command (.inl hstate) (hok hstate) ⟨h.sndAgree.recv, by simp [hopen]⟩
      h.sndOut rfl rfl fun r hr hfit => ?_
    rw [hstate] at hfit
    exact ⟨_, .pause (fit_running hfit), .paused, rfl, rfl⟩
  · exact ⟨l, by rw [step, pauseFile, if_pos rfl, if_pos hstate, sender_self h.sndOut], h⟩

theorem Inv.resume_sender
    (h : l.Inv) (hok : l.Calm (.resume true)) :
    ∃ t, l.step (.resume true) = some t ∧ t.Inv := by
  by_cases hstate : l.snd.sendState = .paused
  · have hstep : l.step (.resume true) = some { l with
        snd := { l.snd with sendState := .sending }
        toRcv := l.toRcv ++ [ctlFrame Proto.CTL_RESUME Proto.CTL_VOID] } := by
      rw [step, resumeFile, if_pos rfl, if_neg (fun hn => hn hstate), sender_push]
      exact h.sndOut
    have hopen := FileChan.Sending.isOpen (.inr hstate) h.sndAgree
    refine ⟨_, hstep, ?_⟩
    refine h.sender_command (.inr hstate) (hok hstate) ⟨h.sndAgree.recv, by simp [hopen]⟩
      h.sndOut rfl rfl fun r hr hfit => ?_
    rw [hstate] at hfit
    exact ⟨_, .resume (fit_paused hfit), .running, rfl, rfl⟩
  · exact ⟨l, by rw [step, resumeFile, if_pos rfl, if_pos hstate, sender_self h.sndOut], h⟩

theorem Inv.cancel_sender
    (h : l.Inv) (hok : l.Calm (.cancel true)) :
    ∃ t, l.step (.cancel true) = some t ∧ t.Inv := by
  by_cases hstate : l.snd.Sending
  · have hopen := hstate.isOpen h.sndAgree
    have hnot : ¬ (l.snd.sendState ≠ .sending ∧ l.snd.sendState ≠ .paused) := by
      rcases hstate with hs | hs <;> simp [hs]
    have hcall : cancelFile true true l.snd = .ok (sendFilecontrol true
        { l.snd with sendOpen := false, sendState := .idle } Proto.CTL_CANCEL Proto.CTL_VOID) := by
      rw [cancelFile, if_pos rfl, if_neg hnot, FileChan.closeSend, if_pos hopen]
      rfl
    have hstep : l.step (.cancel true) = some { l with
        snd := { l.snd with sendState := .idle, sendOpen := false }
        toRcv := l.toRcv ++ [ctlFrame Proto.CTL_CANCEL Proto.CTL_VOID] } := by
      rw [step, hcall, Except.toOption, Option.map_some, sender_push]
      exact h.sndOut
    refine ⟨_, hstep, ?_⟩
    refine h.sender_command hstate (hok hstate) ⟨h.sndAgree.recv, by simp⟩
      h.sndOut rfl rfl fun r hr hfit => ?_
    have hrecv : r.Receiving := by
      rcases hstate with hs | hs
      · rw [hs] at hfit
        exact .inl (fit_running hfit)
      · rw [hs] at hfit
        exact .inr (fit_paused hfit)
    exact ⟨_, .cancel hrecv, .over, rfl, rfl⟩
  · have hidle : l.snd.sendState ≠ .sending ∧ l.snd.sendState ≠ .paused := by
      simpa [FileChan.Sending, not_or] using hstate
    refine ⟨l, ?_, h⟩
    rw [step, cancelFile, if_pos rfl, if_pos hidle, Except.toOption, Option.map_some,
      sender_self h.sndOut]

end Sender

section Receiver

theorem running_fit {s : SendState} (h : Fit s .receiving) : s = .sending := by
  cases h
  rfl

theorem paused_fit {s : SendState} (h : Fit s .paused) : s = .paused := by
  cases h
  rfl

theorem Inv.pause_receiver
    (h : l.Inv) (hok : l.Calm (.pause false)) :
    ∃ t, l.step (.pause false) = some t ∧ t.Inv := by
  by_cases hstate : l.rcv.recvState = .receiving
  · obtain ⟨hbusy, hctl⟩ := hok hstate
    have hstep : l.step (.pause false) = some { l with
        rcv := { l.rcv with recvState := .paused }
        toSnd := l.toSnd ++ [ctlFrame Proto.CTL_VOID Proto.CTL_PAUSE] } := by
      rw [step, pauseFile, if_neg (by rintro ⟨⟩), if_neg (fun hn => hn hstate), receiver_push]
      exact h.rcvOut
    refine ⟨_, hstep, ?_⟩
    refine h.receiver_command (.inr rfl) hbusy hctl (.inl hstate) fun s hfit => ?_
    rw [hstate] at hfit
    exact ⟨_, .pause (running_fit hfit), .paused⟩
  · exact ⟨l, by rw [step, pauseFile, if_neg (by rintro ⟨⟩), if_pos hstate, receiver_self h.rcvOut], h⟩

theorem Inv.resume_receiver
    (h : l.Inv) (hok : l.Calm (.resume false)) :
    ∃ t, l.step (.resume false) = some t ∧ t.Inv := by
  by_cases hstate : l.rcv.recvState = .paused
  · obtain ⟨hbusy, hctl⟩ := hok hstate
    have hstep : l.step (.resume false) = some { l with
        rcv := { l.rcv with recvState := .receiving }
        toSnd := l.toSnd ++ [ctlFrame Proto.CTL_VOID Proto.CTL_RESUME] } := by
      rw [step, resumeFile, if_neg (by rintro ⟨⟩), if_neg (fun hn => hn hstate), receiver_push]
      exact h.rcvOut
    refine ⟨_, hstep, ?_⟩
    refine h.receiver_command (.inl rfl) hbusy hctl (.inr hstate) fun s hfit => ?_
    rw [hstate] at hfit
    exact ⟨_, .resume (paused_fit hfit), .running⟩
  · exact ⟨l, by rw [step, resumeFile, if_neg (by rintro ⟨⟩), if_pos hstate, receiver_self h.rcvOut], h⟩

theorem Inv.cancel_receiver
    (h : l.Inv) (hok : l.Calm (.cancel false)) :
    ∃ t, l.step (.cancel false) = some t ∧ t.Inv := by
  by_cases hstate : l.rcv.Receiving
  · have hopen := hstate.isOpen h.rcvAgree
    have hnot : ¬ (l.rcv.recvState ≠ .receiving ∧ l.rcv.recvState ≠ .paused) := by
      rcases hstate with hs | hs <;> simp [hs]
    have hcall : cancelFile true false l.rcv = .ok (sendFilecontrol true
        { l.rcv with recvOpen := false, recvState := .idle } Proto.CTL_VOID Proto.CTL_CANCEL) := by
      rw [cancelFile, if_neg (by rintro ⟨⟩), if_neg hnot, FileChan.closeRecv, if_pos hopen]
      rfl
    have hstep : l.step (.cancel false) = some { l with
        rcv := { l.rcv with recvState := .idle, recvOpen := false }
        toSnd := l.toSnd ++ [ctlFrame Proto.CTL_VOID Proto.CTL_CANCEL] } := by
      rw [step, hcall, Except.toOption, Option.map_some, receiver_push]
      exact h.rcvOut
    exact ⟨_, hstep, h.receiver_cancel (hok hstate) hstate⟩
  · have hidle : l.rcv.recvState ≠ .receiving ∧ l.rcv.recvState ≠ .paused := by
      simpa [FileChan.Receiving, not_or] using hstate
    refine ⟨l, ?_, h⟩
    rw [step, cancelFile, if_neg (by rintro ⟨⟩), if_pos hidle, Except.toOption, Option.map_some,
      receiver_self h.rcvOut]

end Receiver

/-- Accepting once more changes nothing. -/
theorem Inv.accept (h : l.Inv) (r₀ r₁ : UInt8) : l.step (.accept r₀ r₁) = some l := by
  rw [step, acceptFile, if_pos h.not_waitAccept, receiver_self h.rcvOut]

theorem Inv.fragment_step
    (h : l.Inv) (hok : l.Calm .fragment) :
    ∃ t, l.step .fragment = some t ∧ t.Inv := by
  by_cases hstate : l.snd.sendState = .sending
  · obtain ⟨hne, hcancel, hlast⟩ := hok hstate
    exact ⟨_, step_fragment h hstate hne, h.fragment hstate hne hcancel hlast⟩
  · exact ⟨l, step_fragment_idle h.sndOut hstate, h⟩

theorem step_calm
    (l : FileLink) (e : FileEvent) (h : l.Inv) (hok : l.Calm e) :
    ∃ t, l.step e = some t ∧ t.Inv := by
  cases e with
  | sendFile path => exact hok.elim
  | accept r₀ r₁ => exact ⟨l, h.accept r₀ r₁, h⟩
  | pause sending =>
      cases sending with
      | true => exact h.pause_sender hok
      | false => exact h.pause_receiver hok
  | resume sending =>
      cases sending with
      | true => exact h.resume_sender hok
      | false => exact h.resume_receiver hok
  | cancel sending =>
      cases sending with
      | true => exact h.cancel_sender hok
      | false => exact h.cancel_receiver hok
  | fragment => exact h.fragment_step hok
  | toReceiver answer =>
      obtain ⟨t, hstep, hinv, -⟩ := h.toReceiver answer
      exact ⟨t, hstep, hinv⟩
  | toSender =>
      obtain ⟨t, hstep, hinv, -⟩ := h.toSender
      exact ⟨t, hstep, hinv⟩

end FileLink

/-- **Commands do not close the channel.**  While commands do not meet, no handler
refuses what it is given and no fragment fails, whatever the order of events. -/
theorem file_control_accepted
    (file : List UInt8) (r₀ r₁ : UInt8) (es : List FileEvent)
    (hsize : file.length < offMod)
    (hok : Meets FileLink.step FileLink.Calm (FileLink.accepted file r₀ r₁) es) :
    ∃ l, run FileLink.step (FileLink.accepted file r₀ r₁) es = some l ∧ l.Inv :=
  run_progress FileLink.step_calm (FileLink.accepted_inv r₀ r₁ hsize) hok

/-- The receiver pauses and resumes, then the sender pauses, resumes and sends the file. -/
theorem file_control_accepted_pauses :
    ∃ l, run FileLink.step (FileLink.accepted [1, 2, 3] 7 7)
      [.toSender, .pause false, .toSender, .resume false, .toSender, .pause true, .resume true,
        .toReceiver .later, .fragment, .toReceiver .later, .toReceiver .later] = some l ∧ l.Inv :=
  file_control_accepted [1, 2, 3] 7 7 _ (by decide) (by decide +kernel)

/-- Both ends pause, each with success, and the receiver closes the channel on the
command of the sender. -/
theorem both_pause_refused :
    ∃ l, run FileLink.step (FileLink.accepted [1] 7 7)
        [.toSender, .pause true, .pause false] = some l ∧
      l.toRcv = [ctlFrame Proto.CTL_PAUSE Proto.CTL_VOID] ∧
      (pauseFile true true { l.snd with sendState := .sending }).2 = .ok ∧
      (pauseFile true false { l.rcv with recvState := .receiving }).2 = .ok ∧
      procmsgFile (.fine .later) l.rcv (ctlFrame Proto.CTL_PAUSE Proto.CTL_VOID) =
        .ok (l.rcv, 0) ∧
      run FileLink.step (FileLink.accepted [1] 7 7)
        [.toSender, .pause true, .pause false, .toReceiver .later] = none := by
  refine ⟨_, rfl, ?_⟩
  decide +kernel

end Client
end PicaPica
