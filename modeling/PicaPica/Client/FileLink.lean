import PicaPica.Client.FileHandles

/-!
# One file between two clients

The sender and the receiver of a file, and the messages on their way between them in
both directions, which are delivered in order.  Nothing fails: messages can be placed,
files can be opened, read and written.

Each side changes its own state at once and tells the other later.  The invariant looks
at both ends after everything on the way has been delivered: the two states fit
together then, and the receiver has what the sender has read.
-/

namespace PicaPica
namespace Client

open Machine

/-- Both ends of a transfer. -/
structure FileLink where
  snd : FileChan
  rcv : FileChan
  /-- messages on their way to the receiver and to the sender -/
  toRcv : List Frame
  toSnd : List Frame
  /-- the contents of the file -/
  file : List UInt8
deriving DecidableEq

/-- What can happen. -/
inductive FileEvent
  | sendFile (path : List UInt8)
  | accept (r₀ r₁ : UInt8)
  | pause (sending : Bool)
  | resume (sending : Bool)
  | cancel (sending : Bool)
  /-- `PICA_send_file_fragment` from the event loop -/
  | fragment
  /-- the next message is delivered; `answer` is for the offer of a file -/
  | toReceiver (answer : Answer)
  | toSender
deriving DecidableEq

/-- A delivered message: no result if the connection is closed. -/
def deliver (answer : Answer) (c : FileChan) (f : Frame) : Option FileChan :=
  match procmsgFile (.fine answer) c f with
  | .ok (t, n) => if n = 0 then none else some t
  | .error _ => none

namespace FileLink

/-- The sender is now `c`, and what it has pushed is on its way. -/
def sender (l : FileLink) (c : FileChan) : FileLink :=
  { l with snd := { c with out := [] }, toRcv := l.toRcv ++ c.out }

def receiver (l : FileLink) (c : FileChan) : FileLink :=
  { l with rcv := { c with out := [] }, toSnd := l.toSnd ++ c.out }

/-- One event.  The event loop closes the channel when a fragment cannot be sent. -/
def step (l : FileLink) : FileEvent → Option FileLink
  | .sendFile path => some (l.sender (sendFile true (.sized l.file.length) (some path) l.snd).1)
  | .accept r₀ r₁ => some (l.receiver (acceptFile true true r₀ r₁ l.rcv).1)
  | .pause true => some (l.sender (pauseFile true true l.snd).1)
  | .pause false => some (l.receiver (pauseFile true false l.rcv).1)
  | .resume true => some (l.sender (resumeFile true true l.snd).1)
  | .resume false => some (l.receiver (resumeFile true false l.rcv).1)
  | .cancel true => (cancelFile true true l.snd).toOption.map fun r => l.sender r.1
  | .cancel false => (cancelFile true false l.rcv).toOption.map fun r => l.receiver r.1
  | .fragment =>
      match sendFileFragment true (l.file.drop l.snd.sendPos) l.snd with
      | .ok (c, .ok) => some (l.sender c)
      | .ok (c, .errFileTransferNotInProgress) => some (l.sender c)
      | _ => none
  | .toReceiver answer =>
      match l.toRcv with
      | [] => some l
      | f :: fs => (deliver answer l.rcv f).map { l with toRcv := fs }.receiver
  | .toSender =>
      match l.toSnd with
      | [] => some l
      | f :: fs => (deliver .later l.snd f).map { l with toSnd := fs }.sender

end FileLink

section Frames

variable {c t : FileChan} {data : List UInt8} {answer : Answer} {r₀ r₁ : UInt8}

theorem load16_fragmentFrame (h : data.length ≤ maxFragment) :
    load16 (fragmentFrame data) 2 = data.length := by
  have hcut : ((fragmentFrame data).drop 2).take 2 = le16 data.length := by
    simp [fragmentFrame, head, le16]
  rw [load16, hcut, leNat_le16 (Nat.lt_of_le_of_lt h (by decide))]

theorem drop_fragmentFrame : (fragmentFrame data).drop 4 = data := rfl

theorem add64_eq {a b : Nat} (h : a + b < 18446744073709551616) : add64 a b = a + b :=
  Nat.mod_eq_of_lt h

/-- The receiver after a fragment. -/
def FileChan.gotFragment (c : FileChan) (data : List UInt8) : FileChan :=
  if c.recvPos + data.length = c.recvSize then
    { c with
      recvState := .idle
      recvOpen := false
      recvPos := c.recvPos + data.length
      recvData := c.recvData ++ data
      finishedRecv := c.finishedRecv + 1 }
  else { c with recvPos := c.recvPos + data.length, recvData := c.recvData ++ data }

/-- The sender after a fragment. -/
def FileChan.sentFragment (c : FileChan) (data : List UInt8) : FileChan :=
  if c.sendPos + data.length = c.sendSize then
    { c with
      sendState := .idle
      sendOpen := false
      sendPos := c.sendPos + data.length
      out := c.out ++ [fragmentFrame data]
      finishedSend := c.finishedSend + 1 }
  else
    { c with sendPos := c.sendPos + data.length, out := c.out ++ [fragmentFrame data] }

theorem sentFragment_out (c : FileChan) (data : List UInt8) :
    (c.sentFragment data).out = c.out ++ [fragmentFrame data] := by
  rw [FileChan.sentFragment]
  split_ifs <;> rfl

theorem sentFragment_size : (c.sentFragment data).sendSize = c.sendSize := by
  rw [FileChan.sentFragment]
  split_ifs <;> rfl

theorem sentFragment_pos : (c.sentFragment data).sendPos = c.sendPos + data.length := by
  rw [FileChan.sentFragment]
  split_ifs <;> rfl

/-- `PICA_send_file_fragment` when there is data and the file has the announced size. -/
theorem sendFileFragment_sent
    {got : List UInt8}
    (hstate : c.sendState = .sending) (hopen : c.sendOpen = true)
    (hdata : got.take maxFragment = data) (hne : data ≠ [])
    (hle : c.sendPos + data.length ≤ c.sendSize) (hsize : c.sendSize < 18446744073709551616) :
    sendFileFragment true got c = .ok (c.sentFragment data, .ok) := by
  have hadd : add64 c.sendPos data.length = c.sendPos + data.length := add64_eq (by omega)
  rw [sendFileFragment, if_neg (fun hn => hn hstate), if_neg (by simp [hopen])]
  simp only [hdata, if_neg hne, FileChan.push, if_true, hadd, FileChan.sentFragment]
  by_cases hend : c.sendPos + data.length = c.sendSize
  · rw [if_pos (Nat.le_of_eq hend.symm), if_pos hend, FileChan.closeSend, if_pos hopen]
    simp only [Except.map]
    rw [if_neg (by omega)]
  · rw [if_neg (by omega), if_neg hend]

theorem deliver_fragment
    (hstate : c.recvState = .receiving ∨ c.recvState = .paused) (hopen : c.recvOpen = true)
    (hne : data ≠ []) (hmax : data.length ≤ maxFragment)
    (hpos : c.recvPos + data.length ≤ c.recvSize) (hsize : c.recvSize < 18446744073709551616) :
    deliver answer c (fragmentFrame data) = some (c.gotFragment data) := by
  have hlen : (fragmentFrame data).length - 4 = data.length := by
    simp only [fragmentFrame, List.length_append, length_head, length_le16]
    omega
  have hactive : ¬ (c.recvState ≠ .receiving ∧ c.recvState ≠ .paused) := by tauto
  have hadd : add64 c.recvPos data.length = c.recvPos + data.length := add64_eq (by omega)
  have hproc : procmsgFile (.fine answer) c (fragmentFrame data) =
      fragmentReceived { c with recvData := c.recvData ++ data } data.length := by
    have hkind : byteAt (fragmentFrame data) 0 = Proto.FILEFRAGMENT := rfl
    rw [procmsgFile, hkind, if_neg (by decide), if_neg (by decide), if_neg (by decide),
      if_pos rfl, procmsgFILEFRAGMENT, if_neg hactive, hlen, load16_fragmentFrame hmax,
      if_neg (fun hn => hn rfl), if_neg (by simp [hopen]), drop_fragmentFrame]
    exact if_pos ⟨rfl, hne⟩
  rw [deliver, hproc, fragmentReceived]
  simp only [hadd]
  rw [if_neg (Nat.not_lt_of_le hpos), FileChan.gotFragment]
  by_cases hend : c.recvPos + data.length = c.recvSize
  · rw [if_pos hend, if_pos hend, FileChan.closeRecv, if_pos hopen]
    rfl
  · rw [if_neg hend, if_neg hend]
    rfl

theorem deliver_accepted (hstate : c.sendState = .sentReq) :
    deliver answer c (shortFrame Proto.ACCEPTEDFILE r₀ r₁) =
      some { c with sendState := .sending } := by
  have hproc : procmsgFile (.fine answer) c (shortFrame Proto.ACCEPTEDFILE r₀ r₁) =
      .ok (procmsgACCEPTEDFILE c) := rfl
  rw [deliver, hproc, procmsgACCEPTEDFILE, if_neg (fun hn => hn hstate)]
  rfl

/-- The state allows fragments and commands of the sender. -/
def FileChan.Receiving (c : FileChan) : Prop :=
  c.recvState = .receiving ∨ c.recvState = .paused

/-- The state allows commands of the receiver. -/
def FileChan.Sending (c : FileChan) : Prop :=
  c.sendState = .sending ∨ c.sendState = .paused

theorem FileChan.Receiving.isOpen (h : c.Receiving) (hc : c.Agree) : c.recvOpen = true :=
  hc.recv.mpr h

theorem FileChan.Sending.isOpen (h : c.Sending) (hc : c.Agree) : c.sendOpen = true :=
  hc.send.mpr (.inr h)

theorem FileChan.gotFragment_eq
    (hlt : c.recvPos + data.length < c.recvSize) :
    c.gotFragment data =
      { c with recvPos := c.recvPos + data.length, recvData := c.recvData ++ data } :=
  if_neg (Nat.ne_of_lt hlt)

/-- A message that carries a command of the sender only. -/
theorem deliver_senderCtl
    {cmd : UInt8} (hstate : c.recvState ≠ .idle) :
    deliver answer c (ctlFrame cmd Proto.CTL_VOID) =
      match senderCommand c cmd with
      | .ok (t, true) => some t
      | _ => none := by
  have hproc : procmsgFile (.fine answer) c (ctlFrame cmd Proto.CTL_VOID) =
      procmsgFILECONTROL c (ctlFrame cmd Proto.CTL_VOID) := rfl
  have hs : (ctlFrame cmd Proto.CTL_VOID).getD 2 0 = cmd := rfl
  have hr : (ctlFrame cmd Proto.CTL_VOID).getD 3 0 = Proto.CTL_VOID := rfl
  rw [deliver, hproc, procmsgFILECONTROL, hs, hr, if_neg (fun h => h.2 rfl),
    if_neg (fun h => hstate h.1)]
  rcases senderCommand c cmd with e | ⟨t, _ | _⟩
  · rfl
  · rfl
  · rfl

/-- A message that carries a command of the receiver only. -/
theorem deliver_receiverCtl
    {cmd : UInt8} (hstate : ¬ (c.sendState = .idle ∨ c.sendState = .sentReq)) :
    deliver answer c (ctlFrame Proto.CTL_VOID cmd) =
      match receiverCommand c cmd with
      | .ok (t, true) => some t
      | _ => none := by
  have hproc : procmsgFile (.fine answer) c (ctlFrame Proto.CTL_VOID cmd) =
      procmsgFILECONTROL c (ctlFrame Proto.CTL_VOID cmd) := rfl
  have hs : (ctlFrame Proto.CTL_VOID cmd).getD 2 0 = Proto.CTL_VOID := rfl
  have hr : (ctlFrame Proto.CTL_VOID cmd).getD 3 0 = cmd := rfl
  have hvoid : senderCommand c Proto.CTL_VOID = .ok (c, true) := rfl
  rw [deliver, hproc, procmsgFILECONTROL, hs, hr, if_neg (fun h => hstate h.1),
    if_neg (fun h => h.2 rfl), hvoid]
  simp only [Except.bind, if_true]
  rcases receiverCommand c cmd with e | ⟨t, _ | _⟩
  · rfl
  · rfl
  · rfl

/-- What the receiver does with the messages it accepts. -/
inductive RecvStep (c : FileChan) : Frame → FileChan → Prop
  | fragment (data : List UInt8) (hne : data ≠ []) (hmax : data.length ≤ maxFragment)
      (hstate : c.Receiving) (hpos : c.recvPos + data.length ≤ c.recvSize) :
      RecvStep c (fragmentFrame data) (c.gotFragment data)
  | pause (hstate : c.recvState = .receiving) :
      RecvStep c (ctlFrame Proto.CTL_PAUSE Proto.CTL_VOID) { c with recvState := .paused }
  | resume (hstate : c.recvState = .paused) :
      RecvStep c (ctlFrame Proto.CTL_RESUME Proto.CTL_VOID) { c with recvState := .receiving }
  | cancel (hstate : c.Receiving) :
      RecvStep c (ctlFrame Proto.CTL_CANCEL Proto.CTL_VOID)
        { c with recvState := .idle, recvOpen := false }

/-- What the sender does with the messages it accepts. -/
inductive SendStep (c : FileChan) : Frame → FileChan → Prop
  | accepted (r₀ r₁ : UInt8) (hstate : c.sendState = .sentReq) :
      SendStep c (shortFrame Proto.ACCEPTEDFILE r₀ r₁) { c with sendState := .sending }
  | pause (hstate : c.sendState = .sending) :
      SendStep c (ctlFrame Proto.CTL_VOID Proto.CTL_PAUSE) { c with sendState := .paused }
  | resume (hstate : c.sendState = .paused) :
      SendStep c (ctlFrame Proto.CTL_VOID Proto.CTL_RESUME) { c with sendState := .sending }
  | cancel (hstate : c.Sending) :
      SendStep c (ctlFrame Proto.CTL_VOID Proto.CTL_CANCEL)
        { c with sendState := .idle, sendOpen := false }

variable {f : Frame}

/-- The largest size of a file, plus one. -/
def offMod : Nat := 9223372036854775808

theorem RecvStep.deliver
    (h : RecvStep c f t) (answer : Answer) (hc : c.Agree) (hsize : c.recvSize < offMod) :
    deliver answer c f = some t := by
  have hmod : offMod ≤ 18446744073709551616 := by decide
  cases h with
  | fragment data hne hmax hstate hpos =>
      exact deliver_fragment hstate (hstate.isOpen hc) hne hmax hpos (by omega)
  | pause hstate =>
      rw [deliver_senderCtl (by rw [hstate]; decide), senderCommand, if_pos rfl,
        if_pos hstate]
  | resume hstate =>
      rw [deliver_senderCtl (by rw [hstate]; decide), senderCommand,
        if_neg (by decide), if_pos rfl, if_pos hstate]
  | cancel hstate =>
      have hidle : c.recvState ≠ .idle := by
        rcases hstate with h | h <;> rw [h] <;> decide
      rw [deliver_senderCtl hidle, senderCommand, if_neg (by decide),
        if_neg (by decide), if_pos (.inl rfl), FileChan.closeRecv, if_pos (hstate.isOpen hc)]
      rfl

theorem SendStep.deliver
    (h : SendStep c f t) (answer : Answer) (hc : c.Agree) : deliver answer c f = some t := by
  cases h with
  | accepted r₀ r₁ hstate => exact deliver_accepted hstate
  | pause hstate =>
      rw [deliver_receiverCtl (by rw [hstate]; decide), receiverCommand, if_pos rfl,
        if_pos hstate]
  | resume hstate =>
      rw [deliver_receiverCtl (by rw [hstate]; decide), receiverCommand,
        if_neg (by decide), if_pos rfl, if_pos hstate]
  | cancel hstate =>
      have hbusy : ¬ (c.sendState = .idle ∨ c.sendState = .sentReq) := by
        rcases hstate with h | h <;> rw [h] <;> decide
      rw [deliver_receiverCtl hbusy, receiverCommand, if_neg (by decide),
        if_neg (by decide), if_pos (.inl rfl), FileChan.closeSend, if_pos (hstate.isOpen hc)]
      rfl

theorem RecvStep.agree (h : RecvStep c f t) (hc : c.Agree) : t.Agree := by
  cases h with
  | fragment data hne hmax hstate hpos =>
      rw [FileChan.gotFragment]
      split_ifs
      · exact ⟨by simp, hc.send⟩
      · exact ⟨hc.recv, hc.send⟩
  | pause hstate => exact ⟨by simp [FileChan.Receiving.isOpen (.inl hstate) hc], hc.send⟩
  | resume hstate => exact ⟨by simp [FileChan.Receiving.isOpen (.inr hstate) hc], hc.send⟩
  | cancel hstate => exact ⟨by simp, hc.send⟩

theorem SendStep.agree (h : SendStep c f t) (hc : c.Agree) : t.Agree := by
  cases h with
  | accepted r₀ r₁ hstate => exact ⟨hc.recv, by simp [hc.send.mpr (.inl hstate)]⟩
  | pause hstate => exact ⟨hc.recv, by simp [FileChan.Sending.isOpen (.inl hstate) hc]⟩
  | resume hstate => exact ⟨hc.recv, by simp [FileChan.Sending.isOpen (.inr hstate) hc]⟩
  | cancel hstate => exact ⟨hc.recv, by simp⟩

theorem RecvStep.kept (h : RecvStep c f t) : t.recvSize = c.recvSize ∧ t.out = c.out := by
  cases h with
  | fragment data hne hmax hstate hpos =>
      rw [FileChan.gotFragment]
      split_ifs <;> exact ⟨rfl, rfl⟩
  | pause hstate => exact ⟨rfl, rfl⟩
  | resume hstate => exact ⟨rfl, rfl⟩
  | cancel hstate => exact ⟨rfl, rfl⟩

theorem RecvStep.receiving (h : RecvStep c f t) : c.Receiving := by
  cases h with
  | fragment data hne hmax hstate hpos => exact hstate
  | pause hstate => exact .inl hstate
  | resume hstate => exact .inr hstate
  | cancel hstate => exact hstate

theorem SendStep.kept (h : SendStep c f t) :
    t.sendSize = c.sendSize ∧ t.sendPos = c.sendPos ∧ t.out = c.out ∧
      (c.sendState = .idle → t.sendState = .idle) := by
  cases h with
  | accepted r₀ r₁ hstate => exact ⟨rfl, rfl, rfl, fun h => by rw [hstate] at h; cases h⟩
  | pause hstate => exact ⟨rfl, rfl, rfl, fun h => by rw [hstate] at h; cases h⟩
  | resume hstate => exact ⟨rfl, rfl, rfl, fun h => by rw [hstate] at h; cases h⟩
  | cancel hstate => exact ⟨rfl, rfl, rfl, fun _ => rfl⟩

end Frames

section Ahead

variable {c t : FileChan} {fs : List Frame}

/-- The message carries commands. -/
def isControl (f : Frame) : Bool :=
  byteAt f 0 == Proto.FILECONTROL

/-- The message cancels the transfer on behalf of the receiver. -/
def isCancel (f : Frame) : Bool :=
  isControl f && f.getD 3 0 == Proto.CTL_CANCEL

/-- A sender that has been accepted and has no commands ahead has nothing ahead. -/
theorem nothing_ahead
    (h : Trace SendStep c fs t) (hstate : c.sendState ≠ .sentReq)
    (hctl : ∀ f ∈ fs, isControl f = false) :
    fs = [] := by
  cases h with
  | nil s => rfl
  | cons hfirst hrest =>
      have hf := hctl _ List.mem_cons_self
      cases hfirst with
      | accepted r₀ r₁ hs => exact absurd hs hstate
      | pause hs => exact absurd hf (by decide)
      | resume hs => exact absurd hf (by decide)
      | cancel hs => exact absurd hf (by decide)

/-- Only a cancel ahead ends the transfer for the sender. -/
theorem not_idle_ahead
    (h : Trace SendStep c fs t) (hstate : c.sendState ≠ .idle)
    (hcancel : ∀ f ∈ fs, isCancel f = false) :
    t.sendState ≠ .idle := by
  have hstep : ∀ (s : FileChan) f u, f ∈ fs → s.sendState ≠ .idle → SendStep s f u →
      u.sendState ≠ .idle := by
    intro s f u hf _ hs
    have hno := hcancel f hf
    cases hs with
    | accepted r₀ r₁ hs => exact nofun
    | pause hs => exact nofun
    | resume hs => exact nofun
    | cancel hs => exact absurd hno (by decide)
  exact h.invariant hstep hstate

/-- What is ahead of the sender does not depend on how far it has read. -/
theorem ahead_sendPos
    (h : Trace SendStep c fs t) (pos : Nat) :
    Trace SendStep { c with sendPos := pos } fs { t with sendPos := pos } := by
  induction h with
  | nil s => exact .nil _
  | cons hfirst _ ih =>
      refine .cons ?_ ih
      cases hfirst with
      | accepted r₀ r₁ hs => exact .accepted r₀ r₁ hs
      | pause hs => exact .pause hs
      | resume hs => exact .resume hs
      | cancel hs => exact .cancel hs

theorem recvSize_ahead (h : Trace RecvStep c fs t) : t.recvSize = c.recvSize := by
  induction h with
  | nil s => rfl
  | cons hfirst _ ih => exact ih.trans hfirst.kept.1

theorem recv_agree_ahead (h : Trace RecvStep c fs t) (hc : c.Agree) : t.Agree :=
  h.invariant (fun _ _ _ _ hs hstep => hstep.agree hs) hc

/-- Only a receiver that is receiving or has paused accepts anything. -/
theorem done_ahead (h : Trace RecvStep c fs t) (hidle : ¬ c.Receiving) : fs = [] ∧ t = c := by
  cases h with
  | nil s => exact ⟨rfl, rfl⟩
  | cons hfirst hrest => exact absurd hfirst.receiving hidle

/-- Fragments that do not reach the end of the file move the position only, in every
state that allows them. -/
theorem fragments_ahead
    (h : Trace RecvStep c fs t) (hctl : ∀ f ∈ fs, isControl f = false)
    (hend : t.recvPos < t.recvSize ∨ t.recvSize = 0) (x : RecvState)
    (hx : x = .receiving ∨ x = .paused) :
    t.recvState = c.recvState ∧
      Trace RecvStep { c with recvState := x } fs { t with recvState := x } := by
  induction h with
  | nil s => exact ⟨rfl, .nil _⟩
  | @cons s u t f fs hfirst hrest ih =>
      have hf := hctl f List.mem_cons_self
      cases hfirst with
      | pause hs => exact absurd hf (by decide)
      | resume hs => exact absurd hf (by decide)
      | cancel hs => exact absurd hf (by decide)
      | fragment data hne hmax hstate hpos =>
          have hlen : 0 < data.length := List.length_pos_of_ne_nil hne
          have hsize := recvSize_ahead hrest
          have hlt : s.recvPos + data.length < s.recvSize := by
            rcases Nat.lt_or_eq_of_le hpos with hlt | heq
            · exact hlt
            · -- at the end of the file the rest would be empty
              have hgot : s.gotFragment data = _ := if_pos heq
              rw [hgot] at hrest hsize
              obtain ⟨-, rfl⟩ := done_ahead hrest (by simp [FileChan.Receiving])
              rcases hend with hend | hend
              · exact absurd hend (by simp only; omega)
              · simp only at hend
                omega
          rw [FileChan.gotFragment_eq hlt] at hrest ih
          obtain ⟨hst, htr⟩ := ih (fun g hg => hctl g (List.mem_cons_of_mem _ hg)) hend
          refine ⟨hst, .cons (t := { s with
            recvState := x
            recvPos := s.recvPos + data.length
            recvData := s.recvData ++ data }) ?_ htr⟩
          have hstep : RecvStep { s with recvState := x } (fragmentFrame data) _ :=
            .fragment data hne hmax hx hpos
          rw [FileChan.gotFragment_eq (c := { s with recvState := x }) hlt] at hstep
          exact hstep

end Ahead

/-- The states of the two ends when nothing is on its way. -/
inductive Fit : SendState → RecvState → Prop
  | running : Fit .sending .receiving
  | paused : Fit .paused .paused
  | over : Fit .idle .idle

/-- An accepted transfer.  `s` and `r` are the two ends after everything on its way has
been delivered. -/
structure FileLink.Ahead (l : FileLink) (s r : FileChan) : Prop where
  toSnd : Trace SendStep l.snd l.toSnd s
  toRcv : Trace RecvStep l.rcv l.toRcv r
  fit : Fit s.sendState r.recvState
  recvPos : r.recvPos = l.snd.sendPos
  recvData : r.recvData = l.file.take l.snd.sendPos

structure FileLink.Inv (l : FileLink) : Prop where
  sndAgree : l.snd.Agree
  rcvAgree : l.rcv.Agree
  sndOut : l.snd.out = []
  rcvOut : l.rcv.out = []
  sendSize : l.snd.sendSize = l.file.length
  recvSize : l.rcv.recvSize = l.file.length
  size_lt : l.file.length < offMod
  pos_le : l.snd.sendPos ≤ l.file.length
  unfinished : l.snd.sendState ≠ .idle → l.snd.sendPos < l.file.length ∨ l.file.length = 0
  /-- commands are on their way in one direction only -/
  oneWay : (∀ f ∈ l.toRcv, isControl f = false) ∨ (∀ f ∈ l.toSnd, isControl f = false)
  ahead : ∃ s r, l.Ahead s r

namespace FileLink

variable {l : FileLink}

/-- The sender acts while no command of the receiver is on its way: nothing is. -/
theorem Inv.sender_alone
    (h : l.Inv) (hstate : l.snd.Sending) (hctl : ∀ f ∈ l.toSnd, isControl f = false) :
    l.toSnd = [] ∧ ∃ r, l.Ahead l.snd r := by
  obtain ⟨s, r, hahead⟩ := h.ahead
  have hne : l.snd.sendState ≠ .sentReq := by
    rcases hstate with hs | hs <;> rw [hs] <;> decide
  have hnil := nothing_ahead hahead.toSnd hne hctl
  have htr := hahead.toSnd
  rw [hnil] at htr
  cases htr
  exact ⟨hnil, r, hahead⟩

/-- A command of the sender. -/
theorem Inv.sender_command
    {snd : FileChan} {f : Frame}
    (h : l.Inv) (hstate : l.snd.Sending) (hctl : ∀ f ∈ l.toSnd, isControl f = false)
    (hagree : snd.Agree) (hout : snd.out = []) (hsize : snd.sendSize = l.snd.sendSize)
    (hpos : snd.sendPos = l.snd.sendPos)
    (hstep : ∀ r, r.Agree → Fit l.snd.sendState r.recvState →
      ∃ t, RecvStep r f t ∧ Fit snd.sendState t.recvState ∧ t.recvPos = r.recvPos ∧
        t.recvData = r.recvData) :
    Inv { l with snd := snd, toRcv := l.toRcv ++ [f] } := by
  obtain ⟨hnil, r, hahead⟩ := h.sender_alone hstate hctl
  obtain ⟨t, hrt, hfit, hrp, hrd⟩ := hstep r (recv_agree_ahead hahead.toRcv h.rcvAgree) hahead.fit
  have hbusy : l.snd.sendState ≠ .idle := by
    rcases hstate with hs | hs <;> rw [hs] <;> decide
  refine ⟨hagree, h.rcvAgree, hout, h.rcvOut, hsize.trans h.sendSize, h.recvSize, h.size_lt, ?_,
    fun _ => ?_, .inr ?_, snd, t, ?_, hahead.toRcv.concat hrt, hfit, ?_, ?_⟩
  · simp only [hpos]
    exact h.pos_le
  · simp only [hpos]
    exact h.unfinished hbusy
  · exact hctl
  · simp only [hnil]
    exact .nil _
  · simp only [hpos]
    rw [hrp, hahead.recvPos]
  · simp only [hpos]
    rw [hrd, hahead.recvData]

/-- A command of the receiver that does not cancel: the fragments on their way are
accepted all the same. -/
theorem Inv.receiver_command
    {x : RecvState} {f : Frame}
    (h : l.Inv) (hx : x = .receiving ∨ x = .paused) (hbusy : l.snd.sendState ≠ .idle)
    (hctl : ∀ f ∈ l.toRcv, isControl f = false) (hstate : l.rcv.Receiving)
    (hstep : ∀ s, Fit s.sendState l.rcv.recvState → ∃ t, SendStep s f t ∧ Fit t.sendState x) :
    Inv { l with rcv := { l.rcv with recvState := x }, toSnd := l.toSnd ++ [f] } := by
  obtain ⟨s, r, hahead⟩ := h.ahead
  have hend : r.recvPos < r.recvSize ∨ r.recvSize = 0 := by
    rw [hahead.recvPos, recvSize_ahead hahead.toRcv, h.recvSize]
    exact h.unfinished hbusy
  obtain ⟨hst, htr⟩ := fragments_ahead hahead.toRcv hctl hend x hx
  have hfit := hahead.fit
  rw [hst] at hfit
  obtain ⟨t, hts, hfit'⟩ := hstep s hfit
  have hopen := hstate.isOpen h.rcvAgree
  refine ⟨h.sndAgree, ⟨?_, h.rcvAgree.send⟩, h.sndOut, h.rcvOut, h.sendSize, h.recvSize, h.size_lt,
    h.pos_le, h.unfinished, .inl hctl, t, { r with recvState := x }, hahead.toSnd.concat hts, htr,
    hfit', hahead.recvPos, hahead.recvData⟩
  simpa [hopen] using hx

/-- The receiver cancels while nothing is on its way to it. -/
theorem Inv.receiver_cancel
    (h : l.Inv) (hnil : l.toRcv = []) (hstate : l.rcv.Receiving) :
    Inv { l with
      rcv := { l.rcv with recvState := .idle, recvOpen := false }
      toSnd := l.toSnd ++ [ctlFrame Proto.CTL_VOID Proto.CTL_CANCEL] } := by
  obtain ⟨s, r, hahead⟩ := h.ahead
  have htr := hahead.toRcv
  rw [hnil] at htr
  cases htr
  have hsend : s.Sending := by
    have hfit := hahead.fit
    rcases hstate with hs | hs
    · rw [hs] at hfit
      cases hfit' : s.sendState <;> rw [hfit'] at hfit <;> cases hfit
      exact .inl hfit'
    · rw [hs] at hfit
      cases hfit' : s.sendState <;> rw [hfit'] at hfit <;> cases hfit
      exact .inr hfit'
  refine ⟨h.sndAgree, ⟨by simp, h.rcvAgree.send⟩, h.sndOut, h.rcvOut, h.sendSize, h.recvSize,
    h.size_lt, h.pos_le, h.unfinished, .inl ?_, { s with sendState := .idle, sendOpen := false },
    { l.rcv with recvState := .idle, recvOpen := false }, hahead.toSnd.concat (.cancel hsend), ?_,
    .over, hahead.recvPos, hahead.recvData⟩
  · simp [hnil]
  · simp only [hnil]
    exact .nil _

/-- The data of the next fragment. -/
def nextData (l : FileLink) : List UInt8 :=
  (l.file.drop l.snd.sendPos).take maxFragment

theorem nextData_length (l : FileLink) : l.nextData.length ≤ maxFragment :=
  List.length_take_le _ _

theorem nextData_le (h : l.snd.sendPos ≤ l.file.length) :
    l.snd.sendPos + l.nextData.length ≤ l.file.length := by
  simp only [nextData, List.length_take, List.length_drop]
  omega

/-- What the receiver gets is the next piece of the file. -/
theorem take_nextData (l : FileLink) :
    l.file.take l.snd.sendPos ++ l.nextData =
      l.file.take (l.snd.sendPos + l.nextData.length) := by
  have hcut : (l.file.drop l.snd.sendPos).take l.nextData.length = l.nextData := by
    conv_lhs =>
      arg 2
      rw [← List.take_append_drop maxFragment (l.file.drop l.snd.sendPos)]
    exact List.take_left
  rw [List.take_add, hcut]

theorem step_fragment
    (h : l.Inv) (hstate : l.snd.sendState = .sending) (hne : l.nextData ≠ []) :
    l.step .fragment = some (l.sender (l.snd.sentFragment l.nextData)) := by
  have hopen : l.snd.sendOpen = true := h.sndAgree.send.mpr (.inr (.inl hstate))
  have hle := nextData_le h.pos_le
  have hlt := h.size_lt
  have hmod : offMod ≤ 18446744073709551616 := by decide
  have hdata : (l.file.drop l.snd.sendPos).take maxFragment = l.nextData := rfl
  have hsize := h.sendSize
  have hcall : sendFileFragment true (l.file.drop l.snd.sendPos) l.snd =
      .ok (l.snd.sentFragment l.nextData, .ok) :=
    sendFileFragment_sent hstate hopen hdata hne (by omega) (by omega)
  simp only [step, hcall]

/-- A fragment, the last one or another one. -/
theorem Inv.fragment
    (h : l.Inv) (hstate : l.snd.sendState = .sending) (hne : l.nextData ≠ [])
    (hcancel : ∀ f ∈ l.toSnd, isCancel f = false)
    (hlast : l.snd.sendPos + l.nextData.length = l.file.length →
      ∀ f ∈ l.toSnd, isControl f = false) :
    (l.sender (l.snd.sentFragment l.nextData)).Inv := by
  have hle := nextData_le h.pos_le
  have hmax := l.nextData_length
  have hfrag : isControl (fragmentFrame l.nextData) = false := rfl
  have honeWay : (∀ f ∈ l.toRcv ++ [fragmentFrame l.nextData], isControl f = false) ∨
      (∀ f ∈ l.toSnd, isControl f = false) := by
    refine h.oneWay.imp_left fun hc f hf => ?_
    rcases List.mem_append.mp hf with hf | hf
    · exact hc f hf
    · rw [List.mem_singleton.mp hf]
      exact hfrag
  obtain ⟨s, r, hahead⟩ := h.ahead
  have hsize := (recvSize_ahead hahead.toRcv).trans h.recvSize
  have hpos : r.recvPos + l.nextData.length ≤ r.recvSize := by
    rw [hahead.recvPos, hsize]
    exact hle
  have hrecv : r.Receiving := by
    have hnot := not_idle_ahead hahead.toSnd (by rw [hstate]; decide) hcancel
    have hfit := hahead.fit
    cases hs : s.sendState with
    | idle => exact absurd hs hnot
    | sentReq => rw [hs] at hfit; cases hfit
    | sending =>
        rw [hs] at hfit
        generalize hr : r.recvState = x at hfit
        cases hfit
        exact .inl hr
    | paused =>
        rw [hs] at hfit
        generalize hr : r.recvState = x at hfit
        cases hfit
        exact .inr hr
  have hgot : RecvStep r (fragmentFrame l.nextData) (r.gotFragment l.nextData) :=
    .fragment _ hne hmax hrecv hpos
  have hdata : r.recvData ++ l.nextData = l.file.take (l.snd.sendPos + l.nextData.length) := by
    rw [hahead.recvData, take_nextData]
  by_cases hend : l.snd.sendPos + l.nextData.length = l.file.length
  · obtain ⟨hnil, -, -⟩ := h.sender_alone (.inl hstate) (hlast hend)
    have hsent : l.snd.sentFragment l.nextData = _ := if_pos (hend.trans h.sendSize.symm)
    have hr : r.gotFragment l.nextData = _ :=
      if_pos (by rw [hahead.recvPos, hsize]; exact hend)
    rw [hsent, sender, h.sndOut, List.nil_append]
    rw [hr] at hgot
    refine ⟨⟨h.sndAgree.recv, by simp⟩, h.rcvAgree, rfl, h.rcvOut, h.sendSize, h.recvSize,
      h.size_lt, hle, fun hn => absurd rfl hn, honeWay, { l.snd with
        sendState := .idle
        sendOpen := false
        sendPos := l.snd.sendPos + l.nextData.length
        out := []
        finishedSend := l.snd.finishedSend + 1 }, _, ?_, hahead.toRcv.concat hgot, .over,
      by rw [hahead.recvPos], hdata⟩
    simp only [hnil]
    exact .nil _
  · have hsent : l.snd.sentFragment l.nextData = _ := if_neg fun hc => hend (hc.trans h.sendSize)
    have hr : r.gotFragment l.nextData = _ :=
      if_neg fun hc => hend (by rw [← hsize, ← hahead.recvPos]; exact hc)
    rw [hsent, sender, h.sndOut, List.nil_append]
    rw [hr] at hgot
    have htr := ahead_sendPos hahead.toSnd (l.snd.sendPos + l.nextData.length)
    have hsnd : ({ l.snd with
        sendPos := l.snd.sendPos + l.nextData.length, out := [] } : FileChan) =
        { l.snd with sendPos := l.snd.sendPos + l.nextData.length } := by
      rw [← h.sndOut]
    refine ⟨⟨h.sndAgree.recv, h.sndAgree.send⟩, h.rcvAgree, rfl, h.rcvOut, h.sendSize, h.recvSize,
      h.size_lt, hle, fun _ => .inl (Nat.lt_of_le_of_ne hle hend), honeWay,
      { s with sendPos := l.snd.sendPos + l.nextData.length }, _, ?_, hahead.toRcv.concat hgot,
      hahead.fit, by rw [hahead.recvPos], hdata⟩
    simp only [hsnd]
    exact htr

/-- A delivery at the receiver. -/
theorem Inv.toReceiver
    (h : l.Inv) (answer : Answer) :
    ∃ t, l.step (.toReceiver answer) = some t ∧ t.Inv ∧
      (t = l ∨ ∃ f fs, l.toRcv = f :: fs ∧ RecvStep l.rcv f t.rcv ∧
        t = { l with rcv := t.rcv, toRcv := fs }) := by
  obtain ⟨s, r, hahead⟩ := h.ahead
  cases hw : l.toRcv with
  | nil => exact ⟨l, by simp [step, hw], h, .inl rfl⟩
  | cons f fs =>
      have htr := hahead.toRcv
      rw [hw] at htr
      cases htr with
      | @cons _ c _ _ _ hstep hrest =>
          have hdel := hstep.deliver answer h.rcvAgree (h.recvSize ▸ h.size_lt)
          obtain ⟨hsize, hout⟩ := hstep.kept
          rw [h.rcvOut] at hout
          have heq : ({ l with toRcv := fs } : FileLink).receiver c =
              { l with rcv := c, toRcv := fs } := by
            have hc : ({ c with out := [] } : FileChan) = c := by rw [← hout]
            simp [receiver, hout, hc]
          refine ⟨{ l with rcv := c, toRcv := fs },
            by simp only [step, hw, hdel, Option.map_some, heq], ?_, .inr ⟨f, fs, rfl, hstep, rfl⟩⟩
          refine ⟨h.sndAgree, hstep.agree h.rcvAgree, h.sndOut, hout, h.sendSize,
            hsize.trans h.recvSize, h.size_lt, h.pos_le, h.unfinished, ?_, s, r, hahead.toSnd, hrest,
            hahead.fit, hahead.recvPos, hahead.recvData⟩
          exact h.oneWay.imp_left fun hc g hg => hc g (by rw [hw]; exact List.mem_cons_of_mem f hg)

/-- A delivery at the sender. -/
theorem Inv.toSender
    (h : l.Inv) :
    ∃ t, l.step .toSender = some t ∧ t.Inv ∧ t = { l with snd := t.snd, toSnd := l.toSnd.tail } := by
  obtain ⟨s, r, hahead⟩ := h.ahead
  cases hw : l.toSnd with
  | nil => exact ⟨l, by simp [step, hw], h, by rw [List.tail_nil, ← hw]⟩
  | cons f fs =>
      have htr := hahead.toSnd
      rw [hw] at htr
      cases htr with
      | @cons _ c _ _ _ hstep hrest =>
          have hdel := hstep.deliver .later h.sndAgree
          obtain ⟨hsize, hpos, hout, hidle⟩ := hstep.kept
          rw [h.sndOut] at hout
          have heq : ({ l with toSnd := fs } : FileLink).sender c =
              { l with snd := c, toSnd := fs } := by
            have hc : ({ c with out := [] } : FileChan) = c := by rw [← hout]
            simp [sender, hout, hc]
          refine ⟨{ l with snd := c, toSnd := fs },
            by simp only [step, hw, hdel, Option.map_some, heq], ?_, rfl⟩
          refine ⟨hstep.agree h.sndAgree, h.rcvAgree, hout, h.rcvOut, hsize.trans h.sendSize,
            h.recvSize, h.size_lt, ?_, ?_, ?_, s, r, hrest, hahead.toRcv, hahead.fit, ?_, ?_⟩
          · simp only [hpos]
            exact h.pos_le
          · simp only [hpos]
            exact fun hn => h.unfinished fun hi => hn (hidle hi)
          · exact h.oneWay.imp_right fun hc g hg => hc g (by rw [hw]; exact List.mem_cons_of_mem f hg)
          · simp only [hpos]
            exact hahead.recvPos
          · simp only [hpos]
            exact hahead.recvData

/-- A receiver that waits for an answer of its user has nothing ahead and does not fit
any sender. -/
theorem Inv.not_waitAccept (h : l.Inv) : l.rcv.recvState ≠ .waitAccept := by
  intro hwait
  obtain ⟨s, r, hahead⟩ := h.ahead
  obtain ⟨-, rfl⟩ := done_ahead hahead.toRcv (by simp [FileChan.Receiving, hwait])
  have hfit := hahead.fit
  rw [hwait] at hfit
  generalize s.sendState = x at hfit
  cases hfit

theorem sender_self (h : l.snd.out = []) : l.sender l.snd = l := by
  have hsnd : ({ l.snd with out := [] } : FileChan) = l.snd := by rw [← h]
  simp [sender, h, hsnd]

theorem receiver_self (h : l.rcv.out = []) : l.receiver l.rcv = l := by
  have hrcv : ({ l.rcv with out := [] } : FileChan) = l.rcv := by rw [← h]
  simp [receiver, h, hrcv]

/-- The receiver has accepted the file and its answer is on its way. -/
def accepted (file : List UInt8) (r₀ r₁ : UInt8) : FileLink where
  snd := { FileChan.fresh with sendState := .sentReq, sendOpen := true, sendSize := file.length }
  rcv := { FileChan.fresh with recvState := .receiving, recvOpen := true, recvSize := file.length }
  toRcv := []
  toSnd := [shortFrame Proto.ACCEPTEDFILE r₀ r₁]
  file := file

theorem accepted_inv
    {file : List UInt8} (r₀ r₁ : UInt8) (hsize : file.length < offMod) :
    (accepted file r₀ r₁).Inv where
  sndAgree := ⟨by simp [accepted, FileChan.fresh], by simp [accepted]⟩
  rcvAgree := ⟨by simp [accepted], by simp [accepted, FileChan.fresh]⟩
  sndOut := rfl
  rcvOut := rfl
  sendSize := rfl
  recvSize := rfl
  size_lt := hsize
  pos_le := Nat.zero_le _
  unfinished := fun _ => (Nat.eq_zero_or_pos file.length).symm
  oneWay := .inl nofun
  ahead :=
    ⟨{ (accepted file r₀ r₁).snd with sendState := .sending }, (accepted file r₀ r₁).rcv,
      .cons (.accepted r₀ r₁ rfl) (.nil _), .nil _, .running, rfl, rfl⟩

/-- A fragment step while the file is not being sent changes nothing. -/
theorem step_fragment_idle
    (hout : l.snd.out = []) (hstate : l.snd.sendState ≠ .sending) :
    l.step .fragment = some l := by
  simp only [step, sendFileFragment, if_pos hstate, sender_self hout]

end FileLink

end Client
end PicaPica
