import PicaPica.Client.TransferMessages

/-!
# Runs and the counter of transfers

The calls of the user, fragments that are sent, links and channels that are closed: together
with the messages of the peer, one step keeps the counter right exactly under the condition
of `StepCounted`, and so does a whole run.
-/

namespace PicaPica

open Machine Tally

namespace Client

section Calls

variable {mem sending : Bool} {c : FileChan}

theorem sendFilecontrol_activeCount (snd rcv : UInt8) :
    (sendFilecontrol mem c snd rcv).1.activeCount = c.activeCount := by
  unfold sendFilecontrol FileChan.push
  cases mem <;> rfl

theorem pauseFile_activeCount :
    (pauseFile mem sending c).1.activeCount = c.activeCount ↔
      UserSpares c sending .sending .receiving := by
  unfold pauseFile UserSpares
  cases sending with
  | true =>
      simp only [if_true]
      by_cases hs : c.sendState = .sending
      · simp only [hs, ne_eq, not_true_eq_false, if_false, sendFilecontrol_activeCount]
        simp [hs, FileChan.activeCount]
      · simp [hs]
  | false =>
      simp only [Bool.false_eq_true, if_false]
      by_cases hr : c.recvState = .receiving
      · simp only [hr, ne_eq, not_true_eq_false, if_false, sendFilecontrol_activeCount]
        simp [hr, FileChan.activeCount]
      · simp [hr]

theorem resumeFile_activeCount :
    (resumeFile mem sending c).1.activeCount = c.activeCount ↔
      UserSpares c sending .paused .paused := by
  unfold resumeFile UserSpares
  cases sending with
  | true =>
      simp only [if_true]
      by_cases hs : c.sendState = .paused
      · simp only [hs, ne_eq, not_true_eq_false, if_false, sendFilecontrol_activeCount]
        simp [hs, FileChan.activeCount]
      · simp [hs]
  | false =>
      simp only [Bool.false_eq_true, if_false]
      by_cases hr : c.recvState = .paused
      · simp only [hr, ne_eq, not_true_eq_false, if_false, sendFilecontrol_activeCount]
        simp [hr, FileChan.activeCount]
      · simp [hr]

theorem cancelFile_activeCount
    {r : FileChan × FileCode} (h : cancelFile mem sending c = .ok r) :
    r.1.activeCount = c.activeCount ↔ UserSpares c sending .sending .receiving := by
  unfold cancelFile at h
  unfold UserSpares
  cases sending with
  | true =>
      simp only [if_true] at h ⊢
      split at h
      · next hno =>
        cases h
        exact iff_of_true rfl hno.1
      · unfold FileChan.closeSend at h
        split at h
        · cases h
          rw [sendFilecontrol_activeCount]
          rw [FileChan.activeCount, FileChan.activeCount, ← SendState.transfers_eq_zero]
          simp [eq_comm]
        · cases h
  | false =>
      simp only [Bool.false_eq_true, if_false] at h ⊢
      split at h
      · next hno =>
        cases h
        exact iff_of_true rfl hno.1
      · unfold FileChan.closeRecv at h
        split at h
        · cases h
          rw [sendFilecontrol_activeCount]
          rw [FileChan.activeCount, FileChan.activeCount, ← RecvState.transfers_eq_zero]
          simp [eq_comm]
        · cases h

theorem denyFile_activeCount {r₀ r₁ : UInt8} :
    (denyFile mem r₀ r₁ c).1.activeCount = c.activeCount := by
  unfold denyFile FileChan.push
  split
  · rfl
  · next hstate =>
    have hwait := not_not.mp hstate
    cases mem <;> simp [FileChan.activeCount, hwait]

theorem sendFile_activeCount {file : OpenRead} {path : Option (List UInt8)} :
    (sendFile mem file path c).1.activeCount = c.activeCount := by
  unfold sendFile FileChan.push
  split
  · rfl
  · next hstate =>
    have hidle := not_not.mp hstate
    cases path with
    | none => rfl
    | some path =>
        dsimp only
        split
        · rfl
        · cases file with
          | failed => rfl
          | unsized => rfl
          | sized n => cases mem <;> simp [FileChan.activeCount, hidle]

/-- An offer that is accepted is received from then on. -/
theorem acceptFile_activeCount {opened : Bool} {r₀ r₁ : UInt8} :
    (acceptFile mem opened r₀ r₁ c).1.activeCount =
      c.activeCount + if (acceptFile mem opened r₀ r₁ c).2 = .ok then 1 else 0 := by
  unfold acceptFile FileChan.push
  split
  · rfl
  · next hstate =>
    have hwait := not_not.mp hstate
    cases opened with
    | false => simp [FileChan.activeCount]
    | true => cases mem <;> simp [FileChan.activeCount, RecvState.transfers, hwait]

theorem acceptFile_ok_iff {opened : Bool} {r₀ r₁ : UInt8} :
    (acceptFile mem opened r₀ r₁ c).2 = .ok ↔
      c.recvState = .waitAccept ∧ opened = true ∧ mem = true := by
  unfold acceptFile FileChan.push
  by_cases hwait : c.recvState = .waitAccept
  · cases opened <;> cases mem <;> simp [hwait]
  · simp [hwait]

end Calls

namespace Transfers

section Steps

variable {s t : Transfers} {i : Nat} {p : PeerChan} {c : FileChan} {peer : Id}

theorem findActiveChan_getElem (h : s.findActiveChan peer = some (p, i)) :
    s.chans[i]? = some p :=
  List.mem_zipIdx_iff_getElem?.mp (List.mem_of_find?_eq_some h)

theorem activeTransfers_setFile (h : s.chans[i]? = some p) :
    (s.setFile i p c).activeTransfers + p.file.activeCount =
      s.activeTransfers + c.activeCount :=
  tally_set h

theorem activeTransfers_closeC2c (h : s.chans[i]? = some p) :
    (s.closeC2c i).activeTransfers + p.file.activeCount = s.activeTransfers :=
  tally_eraseIdx h

theorem setFile_counted (hs : s.Counted) (h : s.chans[i]? = some p) :
    (s.setFile i p c).Counted ↔ c.activeCount = p.file.activeCount :=
  TransferCounter.Counts.kept_iff hs (activeTransfers_setFile h)

theorem userFile_counted {f : FileChan → FileChan} (hs : s.Counted) :
    (s.userFile peer f).Counted ↔
      ∀ e ∈ s.findActiveChan peer, (f e.1.file).activeCount = e.1.file.activeCount := by
  unfold userFile
  cases hfind : s.findActiveChan peer with
  | none => simp [hs]
  | some e =>
      have hchan := findActiveChan_getElem hfind
      dsimp only
      rw [setFile_counted hs hchan]
      simp

theorem acceptFile_counted {mem opened : Bool} {r₀ r₁ : UInt8} (hs : s.Counted) :
    (s.acceptFile peer mem opened r₀ r₁).Counted ↔
      ∀ e ∈ s.findActiveChan peer, e.1.file.recvState = .waitAccept → opened = true →
        mem = true → s.counter.Room := by
  unfold acceptFile
  cases hfind : s.findActiveChan peer with
  | none => simp [hs]
  | some e =>
      obtain ⟨p, i⟩ := e
      have hchan := findActiveChan_getElem hfind
      have hcount := @acceptFile_activeCount mem p.file opened r₀ r₁
      have hok := @acceptFile_ok_iff mem p.file opened r₀ r₁
      have hsum := @activeTransfers_setFile s i p (Client.acceptFile mem opened r₀ r₁ p.file).1 hchan
      simp only [Option.mem_some_iff, forall_eq']
      by_cases hcode : (Client.acceptFile mem opened r₀ r₁ p.file).2 = .ok
      · rw [hcount, if_pos hcode] at hsum
        have hone : (s.setFile i p (Client.acceptFile mem opened r₀ r₁ p.file).1).activeTransfers =
            s.activeTransfers + 1 := by omega
        rw [if_neg (not_not.mpr hcode)]
        obtain ⟨hwait, hopened, hmem⟩ := hok.mp hcode
        have hup : s.counter.up.Counts (s.activeTransfers + 1) ↔ s.counter.Room :=
          TransferCounter.Counts.up_iff hs
        rw [← hone] at hup
        exact hup.trans ⟨fun hroom _ _ _ => hroom, fun h => h hwait hopened hmem⟩
      · rw [hcount, if_neg hcode, Nat.add_zero] at hsum
        rw [if_pos hcode, setFile_counted hs hchan, hcount, if_neg hcode]
        exact iff_of_true rfl fun hwait hopened hmem => absurd (hok.mpr ⟨hwait, hopened, hmem⟩) hcode

theorem cancelFile_counted
    {mem sending : Bool} (hs : s.Counted) (h : s.cancelFile peer mem sending = some t) :
    t.Counted ↔ ∀ e ∈ s.findActiveChan peer, UserSpares e.1.file sending .sending .receiving := by
  unfold cancelFile at h
  cases hfind : s.findActiveChan peer with
  | none =>
      rw [hfind] at h
      cases h
      simp [hs]
  | some e =>
      obtain ⟨p, i⟩ := e
      simp only [hfind] at h
      split at h
      · cases h
      · next r hr =>
        cases h
        rw [setFile_counted hs (findActiveChan_getElem hfind), cancelFile_activeCount hr]
        simp

theorem message_counted
    {env : FileEnv} {buf : Frame} (hs : s.Counted) (h : s.message i env buf = some t) :
    t.Counted ↔ ∀ p ∈ s.chans[i]?, MessageCounted s.counter env p.file buf := by
  unfold message at h
  split at h
  · cases h
  · next p hp =>
    split at h
    · next hkind =>
      split at h
      · cases h
      · next c ret hok =>
        cases h
        rw [hp]
        simp only [Option.mem_some_iff, forall_eq']
        have hmsg := fun m hm => @message_counts _ _ m ret _ _ c buf hs hkind rfl hok hm
        by_cases hret : ret = 0
        · rw [if_pos hret]
          refine hmsg _ ?_
          rw [if_pos hret]
          exact activeTransfers_closeC2c hp
        · rw [if_neg hret]
          refine hmsg _ ?_
          rw [if_neg hret]
          exact activeTransfers_setFile hp
    · cases h

/-- What `PICA_send_file_fragment` does when it is called. -/
theorem sendFileFragment_spec
    {mem : Bool} {got : List UInt8} {code : FileCode} {c' : FileChan}
    (hsending : c.sendState = .sending) (h : sendFileFragment mem got c = .ok (c', code)) :
    c'.recvState = c.recvState ∧
      (got ≠ [] ∧ mem = true → ¬(code ≠ .ok ∧ c'.out = c.out) ∧
        (c'.finishedSend = c.finishedSend ∧ c'.sendState = .sending ∨
          c'.finishedSend = c.finishedSend + 1 ∧ c'.sendState = .idle)) ∧
      (¬(got ≠ [] ∧ mem = true) → c'.finishedSend = c.finishedSend ∧
        ((code ≠ .ok ∧ c'.out = c.out) ∨ c'.sendState = .idle)) := by
  unfold sendFileFragment at h
  rw [if_neg (not_not.mpr hsending)] at h
  split at h
  · cases h
  · have hdata : got.take maxFragment = [] ↔ got = [] := by
      simp [List.take_eq_nil_iff, maxFragment]
    dsimp only at h
    split at h
    · next hempty =>
      have hgot := hdata.mp hempty
      unfold FileChan.closeSend at h
      split at h
      · cases h
        have hframe : ctlFrame Proto.CTL_IOERROR Proto.CTL_VOID ≠ [] := by simp [ctlFrame, head]
        cases mem with
        | false => simp [sendFilecontrol, FileChan.push, hgot]
        | true => simp [sendFilecontrol, FileChan.push, hgot]
      · cases h
    · next hne =>
      have hgot := mt hdata.mpr hne
      cases mem with
      | false =>
          simp only [FileChan.push, Bool.false_eq_true, if_false] at h
          cases h
          simp
      | true =>
          simp only [FileChan.push, if_true] at h
          unfold FileChan.closeSend at h
          dsimp only at h
          have hframe : fragmentFrame (got.take maxFragment) ≠ [] := by simp [fragmentFrame, head]
          split at h
          · split at h
            · cases h
              simp [hgot]
            · cases h
          · cases h
            simp [hgot, hsending]

theorem sendFragment_counted
    {mem : Bool} {got : List UInt8} (hs : s.Counted) (h : s.sendFragment i mem got = some t) :
    t.Counted ↔ ∀ p ∈ s.chans[i]?, p.active = true → p.file.sendState = .sending →
      got ≠ [] ∧ mem = true := by
  unfold sendFragment at h
  split at h
  · cases h
  · next p hp =>
    rw [hp]
    simp only [Option.mem_some_iff, forall_eq']
    split at h
    · next hguard =>
      obtain ⟨hactive, hsending⟩ := hguard
      split at h
      · cases h
      · next c code hok =>
        cases h
        obtain ⟨hrecv, hgood, hbad⟩ := sendFileFragment_spec hsending hok
        have hsum := @activeTransfers_setFile s i p c hp
        rw [FileChan.activeCount, FileChan.activeCount, hrecv, hsending] at hsum
        by_cases hcond : got ≠ [] ∧ mem = true
        · obtain ⟨hopen, hstate⟩ := hgood hcond
          refine iff_of_true ?_ fun _ _ => hcond
          rw [if_neg hopen]
          rcases hstate with ⟨hsame, hstate⟩ | ⟨hfinished, hstate⟩
          · rw [hstate] at hsum
            rw [if_neg (not_not.mpr hsame)]
            exact (setFile_counted hs hp).mpr (by
              rw [FileChan.activeCount, FileChan.activeCount, hrecv, hstate, hsending])
          · rw [hstate] at hsum
            rw [if_pos (by omega)]
            refine (TransferCounter.Counts.down_iff hs).mpr ?_
            simp only [SendState.transfers] at hsum
            change (s.setFile i p c).activeTransfers + 1 = s.activeTransfers
            omega
        · obtain ⟨hsame, hstate⟩ := hbad hcond
          refine iff_of_false ?_ fun hc => hcond (hc hactive hsending)
          rw [if_neg (not_not.mpr hsame)]
          by_cases hclosed : code ≠ .ok ∧ c.out = p.file.out
          · rw [if_pos hclosed]
            intro hcounted
            exact (TransferCounter.Counts.closed_iff hs (activeTransfers_closeC2c hp)).mp hcounted |>.1
              hsending
          · rw [if_neg hclosed]
            intro hcounted
            have heq := (setFile_counted hs hp).mp hcounted
            rw [FileChan.activeCount, FileChan.activeCount, hrecv, hsending,
              hstate.resolve_left hclosed] at heq
            simp at heq
    · next hguard =>
      cases h
      exact iff_of_true hs fun hactive hsending => absurd ⟨hactive, hsending⟩ hguard

theorem netStep_counted
    {e : SkyNet.Event} (hs : s.Counted) (h : s.netStep e = some t) :
    t.Counted ↔ s.StepCounted (.net e) := by
  unfold netStep at h
  split at h
  · cases h
  · next net hnet =>
    dsimp only at h
    have hkept : tally (fun p => p.file.activeCount)
        (s.chans.filter fun p => decide (p.conn ∉ s.net.closes e)) = s.activeTransfers ↔
          ∀ p ∈ s.chans, p.conn ∈ s.net.closes e → p.file.Quiet := by
      rw [activeTransfers, tally_filter_eq_iff]
      simp [FileChan.activeCount_eq_zero]
    have hreset : tally (fun p => p.file.activeCount)
        (s.chans.filter fun p => decide (p.conn ∉ s.net.closes e)) = 0 ↔
          ∀ p ∈ s.chans, p.conn ∉ s.net.closes e → p.file.Quiet := by
      rw [tally_filter_eq_zero_iff]
      simp [FileChan.activeCount_eq_zero]
    cases e with
    | exit =>
        cases h
        exact (TransferCounter.Counts.same_iff (TransferCounter.reset_counts hs.above)).trans hreset
    | _ =>
        cases h
        exact (TransferCounter.Counts.same_iff hs).trans hkept

/-- **Steps.**  A step keeps the counter right exactly under the condition. -/
theorem counted_step_iff
    {e : TransferEvent} (hs : s.Counted) (h : s.step e = some t) :
    t.Counted ↔ s.StepCounted e := by
  cases e with
  | net e => exact netStep_counted hs h
  | opened conn peer =>
      simp only [step] at h
      split at h
      · cases h
        refine iff_of_true ?_ trivial
        have hsum : tally (fun p => p.file.activeCount)
            (s.chans ++ [⟨conn, peer, false, .fresh⟩]) = s.activeTransfers := by
          rw [tally_append, tally_cons, tally_nil]
          rfl
        exact (TransferCounter.Counts.same_iff hs).mpr hsum
      · cases h
  | established i =>
      simp only [step] at h
      split at h
      · cases h
      · next p hp =>
        cases h
        have hsum : tally (fun p => p.file.activeCount)
            (s.chans.set i { p with active := true }) = s.activeTransfers :=
          Nat.add_right_cancel (@tally_set _ (fun p => p.file.activeCount) _ i p _ hp)
        exact iff_of_true ((TransferCounter.Counts.same_iff hs).mpr hsum) trivial
  | sendFile peer mem file path =>
      cases h
      exact iff_of_true ((userFile_counted hs).mpr fun e _ => sendFile_activeCount) trivial
  | acceptFile peer mem opened r₀ r₁ =>
      cases h
      exact acceptFile_counted hs
  | denyFile peer mem r₀ r₁ =>
      cases h
      exact iff_of_true ((userFile_counted hs).mpr fun e _ => denyFile_activeCount) trivial
  | pauseFile peer mem sending =>
      cases h
      exact (userFile_counted hs).trans (forall₂_congr fun e _ => pauseFile_activeCount)
  | resumeFile peer mem sending =>
      cases h
      exact (userFile_counted hs).trans (forall₂_congr fun e _ => resumeFile_activeCount)
  | cancelFile peer mem sending => exact cancelFile_counted hs h
  | message i env buf => exact message_counted hs h
  | fragment i mem got => exact sendFragment_counted hs h
  | close i =>
      simp only [step] at h
      split at h
      · cases h
      · next p hp =>
        cases h
        simp only [StepCounted, hp, Option.mem_some_iff, forall_eq']
        exact TransferCounter.Counts.closed_iff hs (activeTransfers_closeC2c hp)

end Steps

theorem start_counted : start.Counted :=
  TransferCounter.Counts.init

/-- **The counter.**  It counts the active transfers in every state of a run exactly when all
steps meet the condition. -/
theorem transfers_counted_iff
    {es : List TransferEvent} {t : Transfers} (hrun : run step start es = some t) :
    Meets step StepCounted start es ↔
      ∀ before after u, es = before ++ after → run step start before = some u → u.Counted :=
  meets_iff_prefixes (fun _ _ _ => counted_step_iff) start_counted hrun

/-- A link to a node with a channel, on which the peer offers a file of three bytes that
the user accepts. -/
def receiving : List TransferEvent :=
  [.net (.join true [(⟨"node", 2299⟩, some 1)]), .net .eventLoop, .net (.process (.established [])),
    .net .closeConnected, .opened 1 ⟨List.replicate 28 5, by decide⟩, .established 0,
    .message 0 (.fine .later) (requestFrame 3 [0x61]),
    .acceptFile ⟨List.replicate 28 5, by decide⟩ true true 7 7]

/-- The peer pauses the file, resumes it and sends it. -/
def received : List TransferEvent :=
  receiving ++ [.message 0 (.fine .later) (ctlFrame Proto.CTL_PAUSE Proto.CTL_VOID),
    .message 0 (.fine .later) (ctlFrame Proto.CTL_RESUME Proto.CTL_VOID),
    .message 0 (.fine .later) (fragmentFrame [1, 2, 3])]

theorem transfers_counted_received :
    ∃ t, run step start received = some t ∧
      ∀ before after u, received = before ++ after → run step start before = some u →
        u.Counted := by
  obtain ⟨t, hrun, -⟩ := run_ends (show (run step start received).any
    (fun s => decide (s.counter.activeFiletransfers = 0)) = true by decide +kernel)
  exact ⟨t, hrun, (transfers_counted_iff hrun).mp (by decide +kernel)⟩

/-- The peer pauses the file and cancels it. -/
def cancelledPaused : List TransferEvent :=
  receiving ++ [.message 0 (.fine .later) (ctlFrame Proto.CTL_PAUSE Proto.CTL_VOID),
    .message 0 (.fine .later) (ctlFrame Proto.CTL_CANCEL Proto.CTL_VOID)]

/-- The counter goes below 0. -/
theorem transfers_not_counted :
    ∃ t, run step start cancelledPaused = some t ∧ t.activeTransfers = 0 ∧
      t.counter.activeFiletransfers = 4294967295 ∧ t.counter.belowZero = true ∧ ¬t.Counted := by
  obtain ⟨t, hrun, hactive, hcount, hbelow⟩ := run_ends (show (run step start cancelledPaused).any
    (fun s => decide (s.activeTransfers = 0 ∧ s.counter.activeFiletransfers = 4294967295 ∧
      s.counter.belowZero = true)) = true by decide +kernel)
  refine ⟨t, hrun, hactive, hcount, hbelow, fun h => ?_⟩
  have habove := h.above
  rw [hbelow] at habove
  cases habove

end Transfers

end Client
end PicaPica
