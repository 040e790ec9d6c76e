import PicaPica.Client.TransferCount

/-!
# Messages of the peer and the counter of transfers

For each message of the file transfer: what its handler does to the number of active transfers
of the channel, what the callbacks of `SkyNet` do to the counter, and when the two agree.
-/

namespace PicaPica

open Machine Tally

namespace Client

section Handlers

variable {k : TransferCounter} {n m ret : Nat} {env : FileEnv} {c c' : FileChan} {buf : Frame}

@[simp]
theorem SendState.transfers_eq_zero {x : SendState} : x.transfers = 0 ↔ x ≠ .sending := by
  cases x <;> simp [transfers]

@[simp]
theorem RecvState.transfers_eq_zero {x : RecvState} : x.transfers = 0 ↔ x ≠ .receiving := by
  cases x <;> simp [transfers]

@[simp]
theorem SendState.transfers_of_ne {x : SendState} (h : x ≠ .sending) : x.transfers = 0 :=
  transfers_eq_zero.mpr h

@[simp]
theorem RecvState.transfers_of_ne {x : RecvState} (h : x ≠ .receiving) : x.transfers = 0 :=
  transfers_eq_zero.mpr h

theorem FileChan.activeCount_eq_zero : c.activeCount = 0 ↔ c.Quiet := by
  rw [activeCount, Quiet, Nat.add_eq_zero_iff, SendState.transfers_eq_zero,
    RecvState.transfers_eq_zero]

/-- A channel is closed without a callback. -/
theorem TransferCounter.Counts.closed_iff
    (h : k.Counts n) (hm : m + c.activeCount = n) : k.Counts m ↔ c.Quiet := by
  rw [h.same_iff, ← FileChan.activeCount_eq_zero]
  omega

/-- Nothing changes for the counter. -/
theorem TransferCounter.Counts.kept_iff
    (h : k.Counts n) (hm : m + c.activeCount = n + c'.activeCount) :
    k.Counts m ↔ c'.activeCount = c.activeCount := by
  rw [h.same_iff]
  omega

theorem sendfilerequest_counts
    (h : k.Counts n) (hlater : env.answer = .later)
    (hok : procmsgSENDFILEREQUEST env c buf = .ok (c', ret))
    (hm : m + c.activeCount = n + (if ret = 0 then 0 else c'.activeCount)) :
    k.Counts m ↔
      (¬(c.recvState = .idle ∧ validateFileName ((buf.drop 12).take (load16 buf 2 - 8)) = true) →
        c.Quiet) := by
  unfold procmsgSENDFILEREQUEST at hok
  split at hok
  · next hidle =>
    cases hok
    rw [h.closed_iff (by simpa using hm)]
    simp [hidle]
  · next hidle =>
    split at hok
    · cases hok
    · split at hok
      · next hname =>
        cases hok
        rw [h.closed_iff (by simpa using hm)]
        simp [hname]
      · next hname =>
        simp only [hlater] at hok
        cases hok
        have hname' := Bool.not_eq_false _ ▸ hname
        have hrecv : c.recvState = .idle := not_not.mp hidle
        rw [h.kept_iff (by simpa using hm)]
        refine iff_of_true ?_ fun hno => absurd ⟨hrecv, hname'⟩ hno
        simp [FileChan.activeCount, hrecv]

theorem acceptedfile_counts
    (h : k.Counts n) (hok : procmsgACCEPTEDFILE c = (c', ret))
    (hm : m + c.activeCount = n + (if ret = 0 then 0 else c'.activeCount)) :
    (if ret = 0 then k else k.up).Counts m ↔
      (c.sendState = .sentReq → k.Room) ∧ (c.sendState ≠ .sentReq → c.Quiet) := by
  unfold procmsgACCEPTEDFILE at hok
  split at hok
  · next hstate =>
    cases hok
    rw [if_pos rfl, h.closed_iff (by simpa using hm)]
    simp [hstate]
  · next hstate =>
    cases hok
    have hsent : c.sendState = .sentReq := not_not.mp hstate
    have hm' : m = n + 1 := by
      simp only [FileChan.activeCount, hsent, SendState.transfers, if_neg Nat.one_ne_zero] at hm
      omega
    rw [if_neg Nat.one_ne_zero, hm', h.up_iff]
    simp [hsent]

theorem deniedfile_counts
    (h : k.Counts n) (hok : procmsgDENIEDFILE c = .ok (c', ret))
    (hm : m + c.activeCount = n + (if ret = 0 then 0 else c'.activeCount)) :
    k.Counts m ↔ (c.sendState ≠ .sentReq → c.Quiet) := by
  unfold procmsgDENIEDFILE at hok
  split at hok
  · next hstate =>
    cases hok
    rw [h.closed_iff (by simpa using hm)]
    simp [hstate]
  · next hstate =>
    have hsent : c.sendState = .sentReq := not_not.mp hstate
    unfold FileChan.closeSend at hok
    dsimp only at hok
    split at hok
    · cases hok
      rw [h.kept_iff (by simpa using hm)]
      refine iff_of_true ?_ fun hno => absurd hsent hno
      simp [FileChan.activeCount, hsent]
    · cases hok

theorem FragmentCounted.refused_iff
    (h : (c.recvState ≠ .receiving ∧ c.recvState ≠ .paused) ∨ buf.length - 4 ≠ load16 buf 2) :
    FragmentCounted env.fwrite env.mem c buf ↔ c.Quiet := by
  have hno : (c.recvState = .receiving ∨ c.recvState = .paused) →
      buf.length - 4 = load16 buf 2 → False := by
    rintro hstate hlen
    rcases h with ⟨h1, h2⟩ | h
    · exact hstate.elim h1 h2
    · exact h hlen
  refine ⟨fun hc => hc.refused h, fun hq => ⟨fun _ => hq, fun _ => hq, ?_, ?_⟩⟩
  · exact fun hstate hlen => (hno hstate hlen).elim
  · exact fun hstate hlen => (hno hstate hlen).elim

section Fragments

variable (hstate : c.recvState = .receiving ∨ c.recvState = .paused)
  (hlen : buf.length - 4 = load16 buf 2)

include hstate hlen

theorem FragmentCounted.written_iff (hw : env.fwrite = true ∧ buf.drop 4 ≠ []) :
    FragmentCounted env.fwrite env.mem c buf ↔
      (c.recvSize < add64 c.recvPos (buf.drop 4).length → c.Quiet) ∧
        (add64 c.recvPos (buf.drop 4).length = c.recvSize → c.recvState = .receiving) := by
  constructor
  · intro hc
    exact ⟨hc.tooLong, hc.last hstate hlen hw⟩
  · rintro ⟨hlong, hlast⟩
    refine ⟨?_, hlong, fun _ _ _ => hlast, fun _ _ hno => absurd hw hno⟩
    rintro (⟨h1, h2⟩ | h)
    · exact (hstate.elim h1 h2).elim
    · exact absurd hlen h

theorem FragmentCounted.unwritten_iff (hw : ¬(env.fwrite = true ∧ buf.drop 4 ≠ [])) :
    FragmentCounted env.fwrite env.mem c buf ↔
      (c.recvSize < add64 c.recvPos (buf.drop 4).length → c.Quiet) ∧
        c.recvState = .paused ∧ (env.mem = false → c.Quiet) := by
  constructor
  · intro hc
    exact ⟨hc.tooLong, hc.unwritten hstate hlen hw⟩
  · rintro ⟨hlong, hpaused⟩
    refine ⟨?_, hlong, fun _ _ hyes => absurd hyes hw, fun _ _ _ => hpaused⟩
    rintro (⟨h1, h2⟩ | h)
    · exact (hstate.elim h1 h2).elim
    · exact absurd hlen h

end Fragments

/-- What `file_finished_cb` does to the counter. -/
def TransferCounter.finished (k : TransferCounter) (c c' : FileChan) (ret : Nat) :
    TransferCounter :=
  if ret = 0 then k else if c'.finishedRecv ≠ c.finishedRecv then k.down else k

theorem filefragment_counts
    (h : k.Counts n) (hok : procmsgFILEFRAGMENT env c buf = .ok (c', ret))
    (hm : m + c.activeCount = n + (if ret = 0 then 0 else c'.activeCount)) :
    (k.finished c c' ret).Counts m ↔ FragmentCounted env.fwrite env.mem c buf := by
  unfold procmsgFILEFRAGMENT at hok
  split at hok
  · next hstate =>
    cases hok
    rw [FragmentCounted.refused_iff (.inl hstate)]
    exact h.closed_iff (by simpa using hm)
  · next hstate =>
    have htaken : c.recvState = .receiving ∨ c.recvState = .paused := by
      rw [not_and_or, not_not, not_not] at hstate
      exact hstate
    split at hok
    · next hlen =>
      cases hok
      rw [FragmentCounted.refused_iff (.inr hlen)]
      exact h.closed_iff (by simpa using hm)
    · next hlen =>
      have hlen' := not_not.mp hlen
      split at hok
      · cases hok
      · dsimp only at hok
        split at hok
        · next hw =>
          rw [FragmentCounted.written_iff htaken hlen' hw]
          unfold fragmentReceived at hok
          dsimp only at hok
          split at hok
          · next hlong =>
            cases hok
            rw [TransferCounter.finished, if_pos rfl, h.closed_iff (by simpa using hm)]
            exact ⟨fun hq => ⟨fun _ => hq, fun heq => absurd heq (Nat.ne_of_gt hlong)⟩,
              fun hc => hc.1 hlong⟩
          · next hlong =>
            split at hok
            · next hlast =>
              unfold FileChan.closeRecv at hok
              dsimp only at hok
              split at hok
              · cases hok
                have hne : c.finishedRecv + 1 ≠ c.finishedRecv := Nat.succ_ne_self _
                rw [TransferCounter.finished, if_neg Nat.one_ne_zero, if_pos hne, h.down_iff]
                simp only [FileChan.activeCount, RecvState.transfers, if_neg Nat.one_ne_zero] at hm
                rcases htaken with hr | hr
                · simp only [hr] at hm
                  exact iff_of_true (by omega) ⟨fun hl => absurd hl hlong, fun _ => hr⟩
                · simp only [hr] at hm
                  refine iff_of_false (by omega) ?_
                  rintro ⟨-, hrecv⟩
                  cases hr.symm.trans (hrecv hlast)
              · cases hok
            · next hlast =>
              cases hok
              rw [TransferCounter.finished, if_neg Nat.one_ne_zero, if_neg (by simp),
                h.kept_iff (by simpa using hm)]
              exact iff_of_true rfl ⟨fun hl => absurd hl hlong, fun hl => absurd hl hlast⟩
        · next hw =>
          rw [FragmentCounted.unwritten_iff htaken hlen' hw]
          have hpaused : c.Quiet → c.recvState = .paused := fun hq => htaken.resolve_left hq.2
          cases hmem : env.mem with
          | false =>
              simp only [sendFilecontrol, FileChan.push, hmem, Bool.false_eq_true, if_false] at hok
              cases hok
              rw [TransferCounter.finished, if_pos rfl, h.closed_iff (by simpa using hm)]
              exact ⟨fun hq => ⟨fun _ => hq, hpaused hq, fun _ => hq⟩, fun hc => hc.2.2 rfl⟩
          | true =>
              simp only [sendFilecontrol, FileChan.push, hmem, if_true] at hok
              unfold fragmentReceived at hok
              dsimp only at hok
              split at hok
              · next hlong =>
                cases hok
                rw [TransferCounter.finished, if_pos rfl, h.closed_iff (by simpa using hm)]
                exact ⟨fun hq => ⟨fun _ => hq, hpaused hq, nofun⟩, fun hc => hc.1 hlong⟩
              · next hlong =>
                split at hok
                · cases hok
                · cases hok
                  rw [TransferCounter.finished, if_neg Nat.one_ne_zero, if_neg (by simp),
                    h.kept_iff (by simpa using hm)]
                  rcases htaken with hr | hr
                  · refine iff_of_false (by simp [FileChan.activeCount, hr]) ?_
                    rintro ⟨-, hrecv, -⟩
                    cases hr.symm.trans hrecv
                  · exact iff_of_true (by simp [FileChan.activeCount, hr])
                      ⟨fun hl => absurd hl hlong, hr, nofun⟩

/-! ### `FILECONTROL` -/

/-- The transfers of a direction after a command. -/
def afterCommand (cmd : UInt8) (old : Nat) : Nat :=
  if cmd = Proto.CTL_VOID then old else if cmd = Proto.CTL_RESUME then 1 else 0

theorem afterCommand_ends {cmd : UInt8} (h : EndsFile cmd) (old : Nat) :
    afterCommand cmd old = 0 := by
  rcases h with rfl | rfl <;> rfl

section Fits

variable {active paused : Prop} {cmd : UInt8}

theorem commandFits_pause : CommandFits active paused Proto.CTL_PAUSE ↔ active := by
  simp [CommandFits, Proto.CTL_PAUSE, Proto.CTL_VOID, Proto.CTL_RESUME, Proto.CTL_CANCEL,
    Proto.CTL_IOERROR]

theorem commandFits_resume : CommandFits active paused Proto.CTL_RESUME ↔ paused := by
  simp [CommandFits, Proto.CTL_PAUSE, Proto.CTL_VOID, Proto.CTL_RESUME, Proto.CTL_CANCEL,
    Proto.CTL_IOERROR]

theorem commandFits_other
    (hpause : cmd ≠ Proto.CTL_PAUSE) (hresume : cmd ≠ Proto.CTL_RESUME) (hends : ¬EndsFile cmd) :
    CommandFits active paused cmd ↔ cmd = Proto.CTL_VOID := by
  refine ⟨?_, .inl⟩
  rintro (hvoid | ⟨hcmd, -⟩ | ⟨hcmd, -⟩ | hcmd)
  · exact hvoid
  · exact absurd hcmd hpause
  · exact absurd hcmd hresume
  · exact absurd hcmd hends

end Fits

section OneCommand

variable {σ : Type} [DecidableEq σ] {active paused idle : σ} {state : FileChan → σ}
  {set : σ → FileChan → FileChan} {close : FileChan → Except FileFault FileChan}

/-- A command for one direction, which is in the state `state`. -/
def oneCommand (active paused idle : σ) (state : FileChan → σ)
    (set : σ → FileChan → FileChan) (close : FileChan → Except FileFault FileChan)
    (c : FileChan) (cmd : UInt8) : Except FileFault (FileChan × Bool) :=
  if cmd = Proto.CTL_PAUSE then
    if state c = active then .ok (set paused c, true) else .ok (c, false)
  else if cmd = Proto.CTL_RESUME then
    if state c = paused then .ok (set active c, true) else .ok (c, false)
  else if cmd = Proto.CTL_CANCEL ∨ cmd = Proto.CTL_IOERROR then
    (close (set idle c)).map fun c => (c, true)
  else .ok (c, cmd = Proto.CTL_VOID)

theorem oneCommand_spec
    {cmd : UInt8} {took : Bool} {count : σ → Nat} {Same : FileChan → Prop}
    (hset : ∀ x c, state (set x c) = x) (hclose : ∀ {c d}, close c = .ok d → state d = state c)
    (hactive : count active = 1) (hpaused : count paused = 0) (hidle : count idle = 0)
    (hsame : Same c) (hsameSet : ∀ x, Same (set x c))
    (hsameClose : ∀ {d}, close (set idle c) = .ok d → Same d)
    (h : oneCommand active paused idle state set close c cmd = .ok (c', took)) :
    Same c' ∧ (took = true ↔ CommandFits (state c = active) (state c = paused) cmd) ∧
      (took = true → count (state c') = afterCommand cmd (count (state c))) := by
  unfold oneCommand at h
  split at h
  · next hcmd =>
    rw [hcmd, commandFits_pause]
    split at h
    · next hstate =>
      cases h
      exact ⟨hsameSet paused, iff_of_true rfl hstate, fun _ => by rw [hset, hpaused]; rfl⟩
    · next hstate =>
      cases h
      exact ⟨hsame, iff_of_false nofun hstate, nofun⟩
  · next hpause =>
    split at h
    · next hcmd =>
      rw [hcmd, commandFits_resume]
      split at h
      · next hstate =>
        cases h
        exact ⟨hsameSet active, iff_of_true rfl hstate, fun _ => by rw [hset, hactive]; rfl⟩
      · next hstate =>
        cases h
        exact ⟨hsame, iff_of_false nofun hstate, nofun⟩
    · next hresume =>
      split at h
      · next hends =>
        cases hd : close (set idle c) with
        | error e =>
            rw [hd] at h
            cases h
        | ok d =>
            rw [hd] at h
            cases h
            refine ⟨hsameClose hd, iff_of_true rfl (.inr (.inr (.inr hends))), fun _ => ?_⟩
            rw [hclose hd, hset, hidle, afterCommand_ends hends]
      · next hends =>
        cases h
        rw [commandFits_other hpause hresume hends, decide_eq_true_eq]
        refine ⟨hsame, Iff.rfl, fun hvoid => ?_⟩
        rw [afterCommand, if_pos hvoid]

end OneCommand

theorem closeRecv_states {d : FileChan} (h : c.closeRecv = .ok d) :
    d.recvState = c.recvState ∧ d.sendState = c.sendState := by
  unfold FileChan.closeRecv at h
  split at h
  · cases h
    exact ⟨rfl, rfl⟩
  · cases h

theorem closeSend_states {d : FileChan} (h : c.closeSend = .ok d) :
    d.sendState = c.sendState ∧ d.recvState = c.recvState := by
  unfold FileChan.closeSend at h
  split at h
  · cases h
    exact ⟨rfl, rfl⟩
  · cases h

theorem senderCommand_spec
    {cmd : UInt8} {took : Bool} (h : senderCommand c cmd = .ok (c', took)) :
    c'.sendState = c.sendState ∧
      (took = true ↔ CommandFits (c.recvState = .receiving) (c.recvState = .paused) cmd) ∧
      (took = true → c'.recvState.transfers = afterCommand cmd c.recvState.transfers) := by
  have hone : oneCommand .receiving .paused .idle FileChan.recvState
      (fun x c => { c with recvState := x }) FileChan.closeRecv c cmd = .ok (c', took) := h
  exact @oneCommand_spec c c' RecvState _ .receiving .paused .idle _ _ _ cmd took
    RecvState.transfers (fun d => d.sendState = c.sendState) (fun _ _ => rfl)
    (fun hd => (closeRecv_states hd).1) rfl rfl rfl rfl (fun _ => rfl)
    (fun hd => (closeRecv_states hd).2) hone

theorem receiverCommand_spec
    {cmd : UInt8} {took : Bool} (h : receiverCommand c cmd = .ok (c', took)) :
    c'.recvState = c.recvState ∧
      (took = true ↔ CommandFits (c.sendState = .sending) (c.sendState = .paused) cmd) ∧
      (took = true → c'.sendState.transfers = afterCommand cmd c.sendState.transfers) := by
  have hone : oneCommand .sending .paused .idle FileChan.sendState
      (fun x c => { c with sendState := x }) FileChan.closeSend c cmd = .ok (c', took) := h
  exact @oneCommand_spec c c' SendState _ .sending .paused .idle _ _ _ cmd took
    SendState.transfers (fun d => d.recvState = c.recvState) (fun _ _ => rfl)
    (fun hd => (closeSend_states hd).1) rfl rfl rfl rfl (fun _ => rfl)
    (fun hd => (closeSend_states hd).2) hone

theorem filecontrol_spec (hok : procmsgFILECONTROL c buf = .ok (c', ret)) :
    (ret ≠ 0 ↔ ControlTaken c (buf.getD 2 0) (buf.getD 3 0)) ∧
      (ret ≠ 0 → c'.activeCount =
        afterCommand (buf.getD 3 0) c.sendState.transfers +
          afterCommand (buf.getD 2 0) c.recvState.transfers) := by
  unfold procmsgFILECONTROL at hok
  dsimp only at hok
  generalize buf.getD 2 0 = snd at hok ⊢
  generalize buf.getD 3 0 = rcv at hok ⊢
  split at hok
  · next hrefused =>
    cases hok
    refine ⟨iff_of_false (fun h => h rfl) fun htaken => ?_, fun h => absurd rfl h⟩
    obtain ⟨hstate, hcmd⟩ := hrefused
    obtain ⟨h1, h2⟩ := htaken.toSender hcmd
    exact hstate.elim h1 h2
  · next hsender =>
    split at hok
    · next hrefused =>
      cases hok
      refine ⟨iff_of_false (fun h => h rfl) fun htaken => ?_, fun h => absurd rfl h⟩
      exact htaken.toReceiver hrefused.2 hrefused.1
    · next hreceiver =>
      have htaken : ControlTaken c snd rcv ↔
          CommandFits (c.recvState = .receiving) (c.recvState = .paused) snd ∧
            CommandFits (c.sendState = .sending) (c.sendState = .paused) rcv := by
        refine ⟨fun h => ⟨h.sender, h.receiver⟩, fun ⟨h1, h2⟩ => ⟨?_, ?_, h1, h2⟩⟩
        · intro hcmd
          rw [← not_or]
          exact fun hstate => hsender ⟨hstate, hcmd⟩
        · exact fun hcmd hstate => hreceiver ⟨hstate, hcmd⟩
      rw [htaken]
      cases hs : senderCommand c snd with
      | error e =>
          rw [hs] at hok
          cases hok
      | ok r =>
          obtain ⟨d, took⟩ := r
          obtain ⟨hsend, htook, hcount⟩ := senderCommand_spec hs
          simp only [hs, Except.bind] at hok
          cases took with
          | false =>
              simp only [Bool.false_eq_true, if_false] at hok
              cases hok
              exact ⟨iff_of_false (fun h => h rfl) fun h => absurd (htook.mpr h.1) nofun,
                fun h => absurd rfl h⟩
          | true =>
              simp only [if_true] at hok
              cases hr : receiverCommand d rcv with
              | error e =>
                  rw [hr] at hok
                  cases hok
              | ok r =>
                  obtain ⟨d', took'⟩ := r
                  obtain ⟨hrecv, htook', hcount'⟩ := receiverCommand_spec hr
                  rw [hsend] at htook' hcount'
                  simp only [hr, Except.map] at hok
                  cases hok
                  cases took' with
                  | false =>
                      exact ⟨iff_of_false (fun h => h rfl) fun h => absurd (htook'.mpr h.2) nofun,
                        fun h => absurd rfl h⟩
                  | true =>
                      refine ⟨iff_of_true Nat.one_ne_zero ⟨htook.mp rfl, htook'.mp rfl⟩, fun _ => ?_⟩
                      rw [FileChan.activeCount, hrecv, hcount rfl, hcount' rfl]

/-- One command alone; `old` is 1 in the state `active` and 0 otherwise. -/
theorem command_counts
    {active paused : Prop} {cmd : UInt8} {old : Nat} (h : k.Counts n)
    (hactive : active → old = 1) (hother : ¬active → old = 0) (hpaused : paused → ¬active)
    (hfits : CommandFits active paused cmd) (hcmd : cmd ≠ Proto.CTL_VOID)
    (hm : m + old = n + afterCommand cmd old) :
    (k.command cmd).Counts m ↔
      (EndsFile cmd → active) ∧ (cmd = Proto.CTL_RESUME → k.Room) := by
  have hends : EndsFile cmd → m + old = n := by
    intro hends
    rwa [afterCommand_ends hends] at hm
  have hdown : EndsFile cmd → (k.down.Counts m ↔ active) := by
    intro h'
    have hsum := hends h'
    rw [h.down_iff]
    by_cases ha : active
    · rw [hactive ha] at hsum
      exact iff_of_true hsum ha
    · rw [hother ha] at hsum
      exact iff_of_false (by omega) ha
  rcases hfits with hvoid | ⟨rfl, ha⟩ | ⟨rfl, hp⟩ | rfl | rfl
  · exact absurd hvoid hcmd
  · -- A pause ends a transfer, as long as there is one.
    have hsum : m + 1 = n := by
      rw [hactive ha] at hm
      exact hm
    exact iff_of_true (h.down_iff.mpr hsum) ⟨fun _ => ha, nofun⟩
  · have hsum : m = n + 1 := by
      rw [hother (hpaused hp)] at hm
      exact hm
    refine hsum ▸ h.up_iff.trans ⟨fun hroom => ⟨?_, fun _ => hroom⟩, fun hc => hc.2 rfl⟩
    rintro (hv | hv)
    · cases hv
    · cases hv
  · exact (hdown (.inl rfl)).trans ⟨fun ha => ⟨fun _ => ha, nofun⟩, fun hc => hc.1 (.inl rfl)⟩
  · exact (hdown (.inr rfl)).trans ⟨fun ha => ⟨fun _ => ha, nofun⟩, fun hc => hc.1 (.inr rfl)⟩

theorem filecontrol_counts
    (h : k.Counts n) (hok : procmsgFILECONTROL c buf = .ok (c', ret))
    (hm : m + c.activeCount = n + (if ret = 0 then 0 else c'.activeCount)) :
    (if ret = 0 then k else k.fileControl (buf.getD 2 0) (buf.getD 3 0)).Counts m ↔
      ControlCounted k c (buf.getD 2 0) (buf.getD 3 0) := by
  obtain ⟨hret, hcount⟩ := filecontrol_spec hok
  generalize buf.getD 2 0 = snd at hret hcount ⊢
  generalize buf.getD 3 0 = rcv at hret hcount ⊢
  by_cases hzero : ret = 0
  · have hno : ¬ControlTaken c snd rcv := fun ht => hret.mpr ht hzero
    rw [if_pos hzero, h.closed_iff (by simpa [hzero] using hm)]
    exact ⟨fun hq => ⟨fun _ => hq, fun ht => absurd ht hno, fun ht => absurd ht hno,
      fun ht => absurd ht hno⟩, fun hc => hc.refused hno⟩
  · have htaken := hret.mp hzero
    rw [if_neg hzero, hcount hzero] at hm
    rw [if_neg hzero, TransferCounter.fileControl]
    by_cases hs : snd = Proto.CTL_VOID
    · by_cases hr : rcv = Proto.CTL_VOID
      · -- An empty `FILECONTROL` has no effect.
        rw [if_neg (fun hc => hc.1 hs), if_neg (fun hc => hc.2 hr), h.same_iff]
        rw [afterCommand, afterCommand, if_pos hs, if_pos hr, FileChan.activeCount] at hm
        exact iff_of_true (by omega) ⟨fun hc => absurd htaken hc, fun _ hc => absurd hs hc,
          fun _ _ hc => absurd hr hc, fun _ hc => absurd hs hc⟩
      · rw [if_neg (fun hc => hc.1 hs), if_pos ⟨hs, hr⟩]
        rw [@afterCommand.eq_def snd, if_pos hs, FileChan.activeCount] at hm
        rw [command_counts h (fun ha => by rw [ha]; rfl) SendState.transfers_eq_zero.mpr
          (by simp +contextual) htaken.receiver hr (by omega)]
        exact ⟨fun hc => ⟨fun hc => absurd htaken hc, fun _ hc => absurd hs hc, fun _ _ _ => hc,
          fun _ hc => absurd hs hc⟩, fun hc => hc.receiver htaken hs hr⟩
    · by_cases hr : rcv = Proto.CTL_VOID
      · rw [if_pos ⟨hs, hr⟩]
        rw [@afterCommand.eq_def rcv, if_pos hr, FileChan.activeCount] at hm
        rw [command_counts h (fun ha => by rw [ha]; rfl) RecvState.transfers_eq_zero.mpr
          (by simp +contextual) htaken.sender hs (by omega)]
        exact ⟨fun hc => ⟨fun hc => absurd htaken hc, fun _ _ _ => hc, fun _ _ hc => absurd hr hc,
          fun _ _ hc => absurd hr hc⟩, fun hc => hc.sender htaken hs hr⟩
      · -- Both commands are carried out, and the counter stays.
        rw [if_neg (fun hc => hr hc.2), if_neg (fun hc => hs hc.1), h.same_iff]
        have hafter : afterCommand rcv c.sendState.transfers +
            afterCommand snd c.recvState.transfers = resumes snd rcv := by
          rw [afterCommand, afterCommand, if_neg hs, if_neg hr, resumes, Nat.add_comm]
        rw [hafter] at hm
        exact ⟨fun heq => ⟨fun hc => absurd htaken hc, fun _ _ hc => absurd hc hr,
          fun _ hc => absurd hc hs, fun _ _ _ => by omega⟩,
          fun hc => by have := hc.both htaken hs hr; omega⟩

/-- **Messages.**  The callbacks of a message keep the counter right exactly under the
condition. -/
theorem message_counts
    (h : k.Counts n) (hkind : byteAt buf 0 ∈ fileMessages) (hlater : env.answer = .later)
    (hok : procmsgFile env c buf = .ok (c', ret))
    (hm : m + c.activeCount = n + (if ret = 0 then 0 else c'.activeCount)) :
    (k.callbacks buf (Session.fileCallbacks c buf c' ret)).Counts m ↔
      MessageCounted k env c buf := by
  unfold procmsgFile at hok
  unfold MessageCounted Session.fileCallbacks
  by_cases hrequest : byteAt buf 0 = Proto.SENDFILEREQUEST
  · simp only [if_pos hrequest] at hok ⊢
    rw [← sendfilerequest_counts h hlater hok hm]
    split <;> rfl
  · simp only [if_neg hrequest] at hok ⊢
    by_cases haccepted : byteAt buf 0 = Proto.ACCEPTEDFILE
    · simp only [if_pos haccepted, Except.ok.injEq] at hok ⊢
      rw [← acceptedfile_counts h hok hm]
      split <;> rfl
    · simp only [if_neg haccepted] at hok ⊢
      by_cases hdenied : byteAt buf 0 = Proto.DENIEDFILE
      · simp only [if_pos hdenied] at hok ⊢
        rw [← deniedfile_counts h hok hm]
        split <;> rfl
      · simp only [if_neg hdenied] at hok ⊢
        by_cases hfragment : byteAt buf 0 = Proto.FILEFRAGMENT
        · simp only [if_pos hfragment] at hok ⊢
          rw [← filefragment_counts h hok hm, TransferCounter.finished]
          split
          · rfl
          · split <;> rfl
        · have hcontrol : byteAt buf 0 = Proto.FILECONTROL := by
            simpa [fileMessages, hrequest, haccepted, hdenied, hfragment] using hkind
          simp only [if_neg hfragment, if_pos hcontrol] at hok ⊢
          rw [← filecontrol_counts h hok hm]
          split <;> rfl

end Handlers

end Client
end PicaPica
