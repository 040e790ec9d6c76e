import PicaPica.Client.FileTransfer
import PicaPica.Lib.Run

/-!
# File states and file handles agree

A channel has an open stream exactly in the states that use it, whatever the user, the
peer and the file system do, except for the following.  `PICA_send_file` and
`PICA_accept_file` leave the file open when they fail after opening it.
`procmsg_FILECONTROL` closes the stream of a file that has not been accepted yet, and
`procmsg_FILEFRAGMENT` closes the stream twice when `fwrite` fails for the last
fragment; both streams are `NULL` then.
-/

namespace PicaPica
namespace Client

open Machine

/-- What happens to the file part of a channel: a call of the user interface or of the
event loop, or a message of the peer. -/
inductive FileOp
  | sendFile (mem : Bool) (file : OpenRead) (path : Option (List UInt8))
  | denyFile (mem : Bool) (r₀ r₁ : UInt8)
  | acceptFile (mem opened : Bool) (r₀ r₁ : UInt8)
  | pauseFile (mem sending : Bool)
  | resumeFile (mem sending : Bool)
  | cancelFile (mem sending : Bool)
  | fragment (mem : Bool) (got : List UInt8)
  | message (env : FileEnv) (buf : Frame)
deriving DecidableEq

/-- The channel when control returns to the event loop. -/
def fileCall (c : FileChan) : FileOp → Except FileFault FileChan
  | .sendFile mem file path => .ok (sendFile mem file path c).1
  | .denyFile mem r₀ r₁ => .ok (denyFile mem r₀ r₁ c).1
  | .acceptFile mem opened r₀ r₁ => .ok (acceptFile mem opened r₀ r₁ c).1
  | .pauseFile mem sending => .ok (pauseFile mem sending c).1
  | .resumeFile mem sending => .ok (resumeFile mem sending c).1
  | .cancelFile mem sending => (cancelFile mem sending c).map Prod.fst
  | .fragment mem got => (sendFileFragment mem got c).map Prod.fst
  | .message env buf => (procmsgFile env c buf).map Prod.fst

def fileStep (c : FileChan) (op : FileOp) : Option FileChan :=
  (fileCall c op).toOption

/-- The streams are open exactly in the states that use them. -/
structure FileChan.Agree (c : FileChan) : Prop where
  recv : c.recvOpen = true ↔ c.recvState = .receiving ∨ c.recvState = .paused
  send : c.sendOpen = true ↔
    c.sendState = .sentReq ∨ c.sendState = .sending ∨ c.sendState = .paused

/-- `PICA_send_file` gets to opening the file. -/
def SendOpens (c : FileChan) (path : Option (List UInt8)) : Prop :=
  c.sendState = .idle ∧
    match path with
    | none => False
    | some p => (fileName p).length ≠ 0 ∧ (fileName p).length ≤ Proto.MAXFILENAMESIZE

instance (c : FileChan) (path : Option (List UInt8)) : Decidable (SendOpens c path) :=
  match path with
  | none => inferInstanceAs (Decidable (_ ∧ False))
  | some _ => inferInstanceAs (Decidable (_ ∧ _ ∧ _))

/-- A request for which the user is asked and accepts, with a file that can be opened. -/
structure RequestOpens (env : FileEnv) (c : FileChan) (buf : Frame) : Prop where
  kind : byteAt buf 0 = Proto.SENDFILEREQUEST
  state : c.recvState = .idle
  length : 8 ≤ load16 buf 2
  name : validateFileName ((buf.drop 12).take (load16 buf 2 - 8)) = true
  answer : env.answer = .accept
  opened : env.opened = true

/-- The last fragment of a file, which cannot be written. -/
structure LastUnwritten (env : FileEnv) (c : FileChan) (buf : Frame) : Prop where
  kind : byteAt buf 0 = Proto.FILEFRAGMENT
  state : c.recvState = .receiving ∨ c.recvState = .paused
  length : buf.length - 4 = load16 buf 2
  unwritten : ¬ (env.fwrite = true ∧ buf.drop 4 ≠ [])
  mem : env.mem = true
  last : add64 c.recvPos (buf.drop 4).length = c.recvSize

/-- The sender cancels while the user has not decided yet. -/
structure CancelsUndecided (c : FileChan) (buf : Frame) : Prop where
  kind : byteAt buf 0 = Proto.FILECONTROL
  state : c.recvState = .waitAccept
  sender : buf.getD 2 0 = Proto.CTL_CANCEL ∨ buf.getD 2 0 = Proto.CTL_IOERROR
  receiver : (c.sendState = .idle ∨ c.sendState = .sentReq) → buf.getD 3 0 = Proto.CTL_VOID

instance (env : FileEnv) (c : FileChan) (buf : Frame) : Decidable (RequestOpens env c buf) :=
  decidable_of_iff
    (byteAt buf 0 = Proto.SENDFILEREQUEST ∧ c.recvState = .idle ∧ 8 ≤ load16 buf 2 ∧
      validateFileName ((buf.drop 12).take (load16 buf 2 - 8)) = true ∧ env.answer = .accept ∧
      env.opened = true)
    ⟨fun ⟨h1, h2, h3, h4, h5, h6⟩ => ⟨h1, h2, h3, h4, h5, h6⟩,
      fun h => ⟨h.kind, h.state, h.length, h.name, h.answer, h.opened⟩⟩

instance (env : FileEnv) (c : FileChan) (buf : Frame) : Decidable (LastUnwritten env c buf) :=
  decidable_of_iff
    (byteAt buf 0 = Proto.FILEFRAGMENT ∧ (c.recvState = .receiving ∨ c.recvState = .paused) ∧
      buf.length - 4 = load16 buf 2 ∧ ¬ (env.fwrite = true ∧ buf.drop 4 ≠ []) ∧ env.mem = true ∧
      add64 c.recvPos (buf.drop 4).length = c.recvSize)
    ⟨fun ⟨h1, h2, h3, h4, h5, h6⟩ => ⟨h1, h2, h3, h4, h5, h6⟩,
      fun h => ⟨h.kind, h.state, h.length, h.unwritten, h.mem, h.last⟩⟩

instance (c : FileChan) (buf : Frame) : Decidable (CancelsUndecided c buf) :=
  decidable_of_iff
    (byteAt buf 0 = Proto.FILECONTROL ∧ c.recvState = .waitAccept ∧
      (buf.getD 2 0 = Proto.CTL_CANCEL ∨ buf.getD 2 0 = Proto.CTL_IOERROR) ∧
      ((c.sendState = .idle ∨ c.sendState = .sentReq) → buf.getD 3 0 = Proto.CTL_VOID))
    ⟨fun ⟨h1, h2, h3, h4⟩ => ⟨h1, h2, h3, h4⟩, fun h => ⟨h.kind, h.state, h.sender, h.receiver⟩⟩

/-- The condition on what happens: a file that has been opened can be announced or
accepted, the last fragment can be written, and nothing is cancelled undecided. -/
def HandleSafe (c : FileChan) : FileOp → Prop
  | .sendFile mem file path =>
      SendOpens c path → file ≠ .unsized ∧ (mem = true ∨ file = .failed)
  | .acceptFile mem opened _ _ => c.recvState = .waitAccept → opened = true → mem = true
  | .message env buf =>
      (RequestOpens env c buf → env.mem = true) ∧ ¬ LastUnwritten env c buf ∧
        ¬ CancelsUndecided c buf
  | _ => True

instance (c : FileChan) : ∀ op, Decidable (HandleSafe c op)
  | .sendFile _ _ _ => inferInstanceAs (Decidable (SendOpens _ _ → _ ∧ _))
  | .denyFile _ _ _ => inferInstanceAs (Decidable True)
  | .acceptFile _ _ _ _ => inferInstanceAs (Decidable (_ → _ → _))
  | .pauseFile _ _ => inferInstanceAs (Decidable True)
  | .resumeFile _ _ => inferInstanceAs (Decidable True)
  | .cancelFile _ _ => inferInstanceAs (Decidable True)
  | .fragment _ _ => inferInstanceAs (Decidable True)
  | .message _ _ => inferInstanceAs (Decidable ((RequestOpens _ _ _ → _) ∧ _ ∧ _))

section Calls

variable {c t : FileChan}

theorem FileChan.fresh_agree : FileChan.fresh.Agree :=
  ⟨by decide, by decide⟩

theorem push_agree {mem : Bool} {f : Frame} (h : c.Agree) : (c.push mem f).1.Agree := by
  rw [FileChan.push]
  split_ifs
  · exact ⟨h.recv, h.send⟩
  · exact h

theorem sendFilecontrol_agree
    {mem : Bool} {s r : UInt8} (h : c.Agree) : (sendFilecontrol mem c s r).1.Agree :=
  push_agree h

theorem closeSend_eq (h : c.sendOpen = true) : c.closeSend = .ok { c with sendOpen := false } :=
  if_pos h

theorem closeRecv_eq (h : c.recvOpen = true) : c.closeRecv = .ok { c with recvOpen := false } :=
  if_pos h

theorem sendFile_agree
    {mem : Bool} {file : OpenRead} {path : Option (List UInt8)}
    (h : c.Agree) (hok : HandleSafe c (.sendFile mem file path)) :
    (sendFile mem file path c).1.Agree := by
  by_cases hidle : c.sendState = .idle
  · have hnot : ¬ c.sendState ≠ .idle := fun hn => hn hidle
    cases path with
    | none =>
        rw [sendFile, if_neg hnot]
        exact h
    | some p =>
        simp only [sendFile, if_neg hnot]
        split_ifs with hname
        · exact h
        · obtain ⟨hunsized, hmem⟩ := hok ⟨hidle, fun h0 => hname (.inl h0),
            Nat.le_of_not_lt fun hlt => hname (.inr hlt)⟩
          cases file with
          | failed => exact ⟨h.recv, by simp [hidle]⟩
          | unsized => exact absurd rfl hunsized
          | sized n =>
              obtain rfl : mem = true := hmem.resolve_right nofun
              exact ⟨h.recv, by simp [FileChan.push]⟩
  · unfold sendFile
    rw [if_pos hidle]
    exact h

theorem denyFile_agree {mem : Bool} {r₀ r₁ : UInt8} (h : c.Agree) :
    (denyFile mem r₀ r₁ c).1.Agree := by
  rw [denyFile]
  split_ifs with hstate
  · exact h
  · rw [not_not] at hstate
    refine push_agree ⟨?_, h.send⟩
    have hrecv := h.recv
    rw [hstate] at hrecv
    simpa using hrecv

theorem acceptFile_agree
    {mem opened : Bool} (r₀ r₁ : UInt8)
    (h : c.Agree) (hok : c.recvState = .waitAccept → opened = true → mem = true) :
    (acceptFile mem opened r₀ r₁ c).1.Agree := by
  rw [acceptFile]
  by_cases hstate : c.recvState = .waitAccept
  · rw [if_neg (fun hn => hn hstate)]
    cases opened with
    | true =>
        obtain rfl : mem = true := hok hstate rfl
        exact ⟨by simp [FileChan.push], h.send⟩
    | false => exact ⟨by simp [hstate], h.send⟩
  · rw [if_pos hstate]
    exact h

theorem pauseFile_agree {mem sending : Bool} (h : c.Agree) :
    (pauseFile mem sending c).1.Agree := by
  rw [pauseFile]
  have hrecv := h.recv
  have hsend := h.send
  split_ifs with hs hstate hstate
  · exact h
  · rw [not_not] at hstate
    refine sendFilecontrol_agree ⟨hrecv, ?_⟩
    simpa [hstate] using hsend
  · exact h
  · rw [not_not] at hstate
    refine sendFilecontrol_agree ⟨?_, hsend⟩
    simpa [hstate] using hrecv

theorem resumeFile_agree {mem sending : Bool} (h : c.Agree) :
    (resumeFile mem sending c).1.Agree := by
  rw [resumeFile]
  have hrecv := h.recv
  have hsend := h.send
  split_ifs with hs hstate hstate
  · exact h
  · rw [not_not] at hstate
    refine sendFilecontrol_agree ⟨hrecv, ?_⟩
    simpa [hstate] using hsend
  · exact h
  · rw [not_not] at hstate
    refine sendFilecontrol_agree ⟨?_, hsend⟩
    simpa [hstate] using hrecv

/-- Cancelling finds the stream open. -/
theorem cancelFile_agree (mem sending : Bool) (h : c.Agree) :
    ∃ r, cancelFile mem sending c = .ok r ∧ r.1.Agree := by
  rw [cancelFile]
  split_ifs with hs hstate hstate
  · exact ⟨_, rfl, h⟩
  · have hopen : c.sendOpen = true := by
      rw [h.send]
      tauto
    rw [closeSend_eq hopen]
    exact ⟨_, rfl, sendFilecontrol_agree ⟨h.recv, by simp⟩⟩
  · exact ⟨_, rfl, h⟩
  · have hopen : c.recvOpen = true := by
      rw [h.recv]
      tauto
    rw [closeRecv_eq hopen]
    exact ⟨_, rfl, sendFilecontrol_agree ⟨by simp, h.send⟩⟩

theorem sendFileFragment_agree (mem : Bool) (got : List UInt8) (h : c.Agree) :
    ∃ r, sendFileFragment mem got c = .ok r ∧ r.1.Agree := by
  rw [sendFileFragment]
  by_cases hstate : c.sendState = .sending
  · have hopen : c.sendOpen = true := h.send.mpr (.inr (.inl hstate))
    rw [if_neg (fun hn => hn hstate), if_neg (by simp [hopen])]
    simp only [closeSend_eq hopen]
    split_ifs with hempty hmem hend
    · exact ⟨_, rfl, sendFilecontrol_agree ⟨h.recv, by simp⟩⟩
    · have hopen' : ((c.push mem (fragmentFrame (got.take maxFragment))).1).sendOpen = true := by
        rw [FileChan.push]
        split_ifs <;> exact hopen
      rw [FileChan.closeSend, if_pos hopen']
      exact ⟨_, rfl, (push_agree h).recv, by simp⟩
    · exact ⟨_, rfl, (push_agree h).recv, (push_agree h).send⟩
    · exact ⟨_, rfl, push_agree h⟩
  · rw [if_pos hstate]
    exact ⟨_, rfl, h⟩

end Calls

section Messages

variable {c : FileChan} {env : FileEnv} {buf : Frame}

/-- The handler has not touched a `NULL` stream and leaves the handles in order. -/
def Orderly {α : Type} : Except FileFault (FileChan × α) → Prop
  | .ok r => r.1.Agree
  | .error e => e ≠ .nullStream

theorem request_orderly
    (h : c.Agree) (hkind : byteAt buf 0 = Proto.SENDFILEREQUEST)
    (hok : RequestOpens env c buf → env.mem = true) :
    Orderly (procmsgSENDFILEREQUEST env c buf) := by
  rw [procmsgSENDFILEREQUEST]
  by_cases hidle : c.recvState = .idle
  · rw [if_neg (fun hn => hn hidle)]
    by_cases hlen : load16 buf 2 < 8
    · rw [if_pos hlen]
      exact nofun
    rw [if_neg hlen]
    by_cases hname : validateFileName ((buf.drop 12).take (load16 buf 2 - 8)) = false
    · rw [if_pos hname]
      exact h
    rw [if_neg hname]
    have hclosed : c.recvOpen = false := by
      have := h.recv
      rw [hidle] at this
      simpa using this
    have hasked : FileChan.Agree
        { c with recvState := .waitAccept, recvSize := load64 buf 4, recvPos := 0 } :=
      ⟨by simp [hclosed], h.send⟩
    cases hans : env.answer with
    | later => exact hasked
    | refuse => exact denyFile_agree hasked
    | accept =>
        have haccept := acceptFile_agree env.r₀ env.r₁ hasked fun _ hopened =>
            hok ⟨hkind, hidle, Nat.le_of_not_lt hlen, by simpa using hname, hans, hopened⟩
        simp only
        split_ifs
        · exact haccept
        · exact denyFile_agree haccept
        · exact denyFile_agree haccept
  · rw [if_pos hidle]
    exact h

theorem accepted_agree (h : c.Agree) : (procmsgACCEPTEDFILE c).1.Agree := by
  rw [procmsgACCEPTEDFILE]
  split_ifs with hstate
  · exact h
  · rw [not_not] at hstate
    have hsend := h.send
    rw [hstate] at hsend
    exact ⟨h.recv, by simpa using hsend⟩

theorem denied_orderly (h : c.Agree) : Orderly (procmsgDENIEDFILE c) := by
  rw [procmsgDENIEDFILE]
  split_ifs with hstate
  · exact h
  · rw [not_not] at hstate
    have hopen : c.sendOpen = true := h.send.mpr (.inl hstate)
    rw [FileChan.closeSend, if_pos hopen]
    exact ⟨h.recv, by simp⟩

/-- The position moves; the stream is closed at the end of the file only. -/
theorem fragmentReceived_orderly
    {n : Nat} (h : c.Agree) (hopen : add64 c.recvPos n = c.recvSize → c.recvOpen = true) :
    Orderly (fragmentReceived c n) := by
  rw [fragmentReceived]
  simp only
  split_ifs with hover hend
  · exact ⟨h.recv, h.send⟩
  · rw [FileChan.closeRecv, if_pos (hopen hend)]
    exact ⟨by simp, h.send⟩
  · exact ⟨h.recv, h.send⟩

theorem fragment_orderly
    (h : c.Agree) (hkind : byteAt buf 0 = Proto.FILEFRAGMENT) (hok : ¬ LastUnwritten env c buf) :
    Orderly (procmsgFILEFRAGMENT env c buf) := by
  by_cases hstate : c.recvState ≠ .receiving ∧ c.recvState ≠ .paused
  · rw [procmsgFILEFRAGMENT, if_pos hstate]
    exact h
  have hactive : c.recvState = .receiving ∨ c.recvState = .paused := by tauto
  have hopen : c.recvOpen = true := h.recv.mpr hactive
  rw [procmsgFILEFRAGMENT, if_neg hstate]
  by_cases hlen : buf.length - 4 ≠ load16 buf 2
  · rw [if_pos hlen]
    exact h
  rw [if_neg hlen, if_neg (by simp [hopen])]
  by_cases hwrite : env.fwrite = true ∧ buf.drop 4 ≠ []
  · simp only [if_pos hwrite]
    exact fragmentReceived_orderly ⟨h.recv, h.send⟩ fun _ => hopen
  · -- after a failed write the stream is closed, and the position must not reach the end
    simp only [if_neg hwrite]
    have hclosed : FileChan.Agree { c with recvOpen := false, recvState := .idle } :=
      ⟨by simp, h.send⟩
    cases hmem : env.mem with
    | false => exact sendFilecontrol_agree hclosed
    | true =>
        refine fragmentReceived_orderly (sendFilecontrol_agree hclosed) fun hlast => ?_
        exact absurd ⟨hkind, hactive, not_not.mp hlen, hwrite, hmem, hlast⟩ hok

theorem senderCommand_orderly
    {cmd : UInt8} (h : c.Agree)
    (hok : cmd = Proto.CTL_CANCEL ∨ cmd = Proto.CTL_IOERROR → c.recvOpen = true) :
    Orderly (senderCommand c cmd) := by
  rw [senderCommand]
  have hrecv := h.recv
  split_ifs with h1 hstate h2 hstate h3
  · rw [hstate] at hrecv
    exact ⟨by simpa using hrecv, h.send⟩
  · exact h
  · rw [hstate] at hrecv
    exact ⟨by simpa using hrecv, h.send⟩
  · exact h
  · rw [FileChan.closeRecv, if_pos (hok h3)]
    exact ⟨by simp, h.send⟩
  · exact h

theorem receiverCommand_orderly
    {cmd : UInt8} (h : c.Agree)
    (hok : cmd = Proto.CTL_CANCEL ∨ cmd = Proto.CTL_IOERROR → c.sendOpen = true) :
    Orderly (receiverCommand c cmd) := by
  rw [receiverCommand]
  have hsend := h.send
  split_ifs with h1 hstate h2 hstate h3
  · rw [hstate] at hsend
    exact ⟨h.recv, by simpa using hsend⟩
  · exact h
  · rw [hstate] at hsend
    exact ⟨h.recv, by simpa using hsend⟩
  · exact h
  · rw [FileChan.closeSend, if_pos (hok h3)]
    exact ⟨h.recv, by simp⟩
  · exact h

/-- A command of the sender does not touch the sending side. -/
theorem senderCommand_send
    {cmd : UInt8} {r : FileChan × Bool} (hr : senderCommand c cmd = .ok r) :
    r.1.sendState = c.sendState ∧ r.1.sendOpen = c.sendOpen := by
  rw [senderCommand] at hr
  split_ifs at hr with h1 hstate h2 hstate h3
  · cases hr
    exact ⟨rfl, rfl⟩
  · cases hr
    exact ⟨rfl, rfl⟩
  · cases hr
    exact ⟨rfl, rfl⟩
  · cases hr
    exact ⟨rfl, rfl⟩
  · rw [FileChan.closeRecv] at hr
    split_ifs at hr
    · cases hr
      exact ⟨rfl, rfl⟩
    · cases hr
  · cases hr
    exact ⟨rfl, rfl⟩

theorem control_orderly
    (h : c.Agree) (hkind : byteAt buf 0 = Proto.FILECONTROL) (hok : ¬ CancelsUndecided c buf) :
    Orderly (procmsgFILECONTROL c buf) := by
  rw [procmsgFILECONTROL]
  split_ifs with hrcv hsnd
  · exact h
  · exact h
  · have hfirst : buf.getD 2 0 = Proto.CTL_CANCEL ∨ buf.getD 2 0 = Proto.CTL_IOERROR →
        c.recvOpen = true := by
      intro hcmd
      have hnot : c.recvState ≠ .waitAccept := fun hw =>
        hok ⟨hkind, hw, hcmd, fun hs => by_contra fun hv => hrcv ⟨hs, hv⟩⟩
      have hvoid : buf.getD 2 0 ≠ Proto.CTL_VOID := by
        rcases hcmd with hcmd | hcmd
        · rw [hcmd]
          decide
        · rw [hcmd]
          decide
      have hidle : c.recvState ≠ .idle := fun hi => hsnd ⟨hi, hvoid⟩
      rw [h.recv]
      cases hstate : c.recvState with
      | idle => exact absurd hstate hidle
      | waitAccept => exact absurd hstate hnot
      | receiving => exact .inl rfl
      | paused => exact .inr rfl
    have hs := senderCommand_orderly h hfirst
    cases hres : senderCommand c (buf.getD 2 0) with
    | error e =>
        rw [hres] at hs
        exact hs
    | ok r =>
        rw [hres] at hs
        obtain ⟨hstate, hopen⟩ := senderCommand_send hres
        simp only [Except.bind]
        split_ifs
        · have hsecond : buf.getD 3 0 = Proto.CTL_CANCEL ∨ buf.getD 3 0 = Proto.CTL_IOERROR →
              r.1.sendOpen = true := by
            intro hcmd
            have hvoid : buf.getD 3 0 ≠ Proto.CTL_VOID := by
              rcases hcmd with hcmd | hcmd
              · rw [hcmd]
                decide
              · rw [hcmd]
                decide
            have hbusy : ¬ (c.sendState = .idle ∨ c.sendState = .sentReq) := fun hi =>
              hrcv ⟨hi, hvoid⟩
            rw [hopen, h.send]
            cases hc : c.sendState with
            | idle => exact absurd (.inl hc) hbusy
            | sentReq => exact absurd (.inr hc) hbusy
            | sending => exact .inr (.inl rfl)
            | paused => exact .inr (.inr rfl)
          have hr := receiverCommand_orderly hs hsecond
          cases hres' : receiverCommand r.1 (buf.getD 3 0) with
          | error e =>
              rw [hres'] at hr
              exact hr
          | ok r' =>
              rw [hres'] at hr
              exact hr
        · exact hs

theorem message_orderly
    (h : c.Agree) (hok : HandleSafe c (.message env buf)) :
    Orderly (procmsgFile env c buf) := by
  obtain ⟨hreq, hfrag, hctl⟩ := hok
  rw [procmsgFile]
  split_ifs with h1 h2 h3 h4 h5
  · exact request_orderly h h1 hreq
  · exact accepted_agree h
  · exact denied_orderly h
  · exact fragment_orderly h h4 hfrag
  · exact control_orderly h h5 hctl
  · exact h

end Messages

/-- **Step lemma.** -/
theorem fileCall_agree
    {c : FileChan} {op : FileOp} (h : c.Agree) (hok : HandleSafe c op) :
    fileCall c op ≠ .error .nullStream ∧ ∀ t, fileCall c op = .ok t → t.Agree := by
  cases op with
  | sendFile mem file path =>
      exact ⟨nofun, fun t ht => by cases ht; exact sendFile_agree h hok⟩
  | denyFile mem r₀ r₁ => exact ⟨nofun, fun t ht => by cases ht; exact denyFile_agree h⟩
  | acceptFile mem opened r₀ r₁ =>
      exact ⟨nofun, fun t ht => by cases ht; exact acceptFile_agree r₀ r₁ h hok⟩
  | pauseFile mem sending => exact ⟨nofun, fun t ht => by cases ht; exact pauseFile_agree h⟩
  | resumeFile mem sending => exact ⟨nofun, fun t ht => by cases ht; exact resumeFile_agree h⟩
  | cancelFile mem sending =>
      obtain ⟨r, hr, hagree⟩ := cancelFile_agree mem sending h
      simp only [fileCall, hr, Except.map]
      exact ⟨nofun, fun t ht => by cases ht; exact hagree⟩
  | fragment mem got =>
      obtain ⟨r, hr, hagree⟩ := sendFileFragment_agree mem got h
      simp only [fileCall, hr, Except.map]
      exact ⟨nofun, fun t ht => by cases ht; exact hagree⟩
  | message env buf =>
      have hm := message_orderly h hok
      simp only [fileCall]
      cases hres : procmsgFile env c buf with
      | error e =>
          rw [hres] at hm
          refine ⟨fun he => hm ?_, nofun⟩
          simpa [Except.map] using he
      | ok r =>
          rw [hres] at hm
          exact ⟨nofun, fun t ht => by cases ht; exact hm⟩

/-- **File states and file handles agree.**  In every run whose steps meet the
condition, the streams are open exactly in the states that use them whenever control
returns to the event loop, and no step touches a `NULL` stream. -/
theorem file_handles_agree
    (ops : List FileOp) (op : FileOp) (c : FileChan)
    (hok : Meets fileStep HandleSafe FileChan.fresh (ops ++ [op]))
    (hrun : run fileStep FileChan.fresh ops = some c) :
    c.Agree ∧ fileCall c op ≠ .error .nullStream ∧ ∀ t, fileCall c op = .ok t → t.Agree := by
  have hstep : ∀ s e t, FileChan.Agree s → HandleSafe s e → fileStep s e = some t → t.Agree := by
    intro s e t hs he ht
    rw [fileStep] at ht
    cases hcall : fileCall s e with
    | error fault =>
        rw [hcall] at ht
        cases ht
    | ok u =>
        rw [hcall] at ht
        obtain rfl : u = t := Option.some.inj ht
        exact (fileCall_agree hs he).2 u hcall
  have hc := run_invariant hstep FileChan.fresh_agree hok.of_append hrun
  exact ⟨hc, fileCall_agree hc (hok.next hrun)⟩

/-- A file of two bytes named `a` is offered, accepted later, and its first byte
arrives; then the sender pauses. -/
def receivedHalf : List FileOp :=
  [.message (.fine .later) (requestFrame 2 [97]), .acceptFile true true 7 7,
   .message (.fine .later) (fragmentFrame [1]), .pauseFile true false]

theorem file_handles_agree_half :
    ∃ c, run fileStep FileChan.fresh receivedHalf = some c ∧ c.Agree ∧
      fileCall c (.cancelFile true false) ≠ .error .nullStream := by
  have hall : Meets fileStep HandleSafe FileChan.fresh
      (receivedHalf ++ [.cancelFile true false]) := by
    decide
  obtain ⟨c, hrun⟩ := Option.isSome_iff_exists.mp
    (show (run fileStep FileChan.fresh receivedHalf).isSome = true by decide)
  obtain ⟨hagree, hcall, -⟩ := file_handles_agree receivedHalf _ c hall hrun
  exact ⟨c, hrun, hagree, hcall⟩

/-- **Two messages of a peer close a `NULL` stream.**  The offer of a file is cancelled
before the user has decided; and the only fragment of a file cannot be written. -/
theorem null_stream_closed :
    (run fileStep FileChan.fresh [.message (.fine .later) (requestFrame 2 [97])]).map
        (fileCall · (.message (.fine .later) (ctlFrame Proto.CTL_CANCEL Proto.CTL_VOID))) =
        some (.error .nullStream) ∧
      (run fileStep FileChan.fresh [.message (.fine .accept) (requestFrame 2 [97])]).map
        (fileCall · (.message { FileEnv.fine .accept with fwrite := false }
          (fragmentFrame [1, 2]))) =
        some (.error .nullStream) := by
  decide

end Client
end PicaPica
