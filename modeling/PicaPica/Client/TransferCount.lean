import PicaPica.Client.LinkOwners
import PicaPica.Client.Session
import PicaPica.Lib.Tally

/-!
# The counter of active file transfers (`skynet.cpp`)

`active_filetransfers` is moved by `AcceptFile` and by the callbacks of the library, and a timer
without interval runs while it is not zero.  It is right as long as every start and every end
of a transfer comes with a callback.  It is not moved when the user pauses, resumes or
cancels a transfer, when a file cannot be read or written, when a `FILECONTROL` holds two
commands, or when a channel or its link is closed; and it is moved for a transfer
that was paused when it ends.
-/

namespace PicaPica

open Machine Tally

namespace Client

/-- `active_filetransfers`, and whether `file_transfer_timer_id` is not 0. -/
structure TransferCounter where
  activeFiletransfers : UInt32
  fileTransferTimer : Bool
  /-- `active_filetransfers_down` has been called at 0 -/
  belowZero : Bool
deriving DecidableEq

namespace TransferCounter

/-- The constructor of `SkyNet`. -/
def init : TransferCounter :=
  ⟨0, false, false⟩

/-- `active_filetransfers_up`. -/
def up (k : TransferCounter) : TransferCounter :=
  let k := { k with activeFiletransfers := k.activeFiletransfers + 1 }
  if 0 < k.activeFiletransfers ∧ k.fileTransferTimer = false then
    { k with fileTransferTimer := true }
  else k

/-- `active_filetransfers_down`; the assertion on the unsigned value always holds. -/
def down (k : TransferCounter) : TransferCounter :=
  let k := { k with
    activeFiletransfers := k.activeFiletransfers - 1
    belowZero := k.belowZero || k.activeFiletransfers == 0 }
  if k.activeFiletransfers = 0 ∧ k.fileTransferTimer then { k with fileTransferTimer := false }
  else k

/-- `active_filetransfers_reset`. -/
def reset (k : TransferCounter) : TransferCounter :=
  { k with activeFiletransfers := 0, fileTransferTimer := false }

/-- The `switch` of `file_control` over one command. -/
def command (k : TransferCounter) (cmd : UInt8) : TransferCounter :=
  if cmd = Proto.CTL_PAUSE then k.down
  else if cmd = Proto.CTL_RESUME then k.up
  else if cmd = Proto.CTL_CANCEL then k.down
  else if cmd = Proto.CTL_IOERROR then k.down
  else k

/-- `SkyNet::file_control`. -/
def fileControl (k : TransferCounter) (senderCmd receiverCmd : UInt8) : TransferCounter :=
  if senderCmd ≠ Proto.CTL_VOID ∧ receiverCmd = Proto.CTL_VOID then k.command senderCmd
  else if senderCmd = Proto.CTL_VOID ∧ receiverCmd ≠ Proto.CTL_VOID then k.command receiverCmd
  else k

/-- The callbacks of `SkyNet`, for the message `buf`. -/
def callback (buf : Frame) (k : TransferCounter) : Callback → TransferCounter
  | .acceptedFile => k.up
  | .fileControl => k.fileControl (buf.getD 2 0) (buf.getD 3 0)
  | .fileFinished => k.down
  | _ => k

def callbacks (buf : Frame) (k : TransferCounter) (cs : List Callback) : TransferCounter :=
  cs.foldl (callback buf) k

end TransferCounter

/-- The messages for file transfer in `c2c_messages`. -/
def fileMessages : List Nat :=
  [Proto.SENDFILEREQUEST, Proto.ACCEPTEDFILE, Proto.DENIEDFILE, Proto.FILEFRAGMENT,
    Proto.FILECONTROL]

/-- A channel, on the link `conn` to a node. -/
structure PeerChan where
  conn : C2n
  peerId : Id
  /-- the state is `PICA_C2C_STATE_ACTIVE` -/
  active : Bool
  /-- `out` is empty between calls -/
  file : FileChan
deriving DecidableEq

/-- `SkyNet` with its channels, in the order in which they were allocated. -/
structure Transfers where
  net : SkyNet
  chans : List PeerChan
  counter : TransferCounter

namespace Transfers

variable (s : Transfers)

def start : Transfers :=
  ⟨.start, [], .init⟩

/-- `find_active_chan`, with the place of the channel. -/
def findActiveChan (peer : Id) : Option (PeerChan × Nat) :=
  s.chans.zipIdx.find? fun e =>
    decide (s.net.activeNodelink = some e.1.conn) && e.1.active && decide (e.1.peerId = peer)

def setFile (i : Nat) (p : PeerChan) (c : FileChan) : Transfers :=
  { s with chans := s.chans.set i { p with file := { c with out := [] } } }

/-- `PICA_close_c2c`. -/
def closeC2c (i : Nat) : Transfers :=
  { s with chans := s.chans.eraseIdx i }

def withCounter (k : TransferCounter) : Transfers :=
  { s with counter := k }

/-- A function of the library is called for the active channel with a peer. -/
def userFile (peer : Id) (f : FileChan → FileChan) : Transfers :=
  match s.findActiveChan peer with
  | none => s
  | some (p, i) => s.setFile i p (f p.file)

/-- `SkyNet::SendFile`, and the files in `flush_queues`. -/
def sendFile (peer : Id) (mem : Bool) (file : OpenRead) (path : Option (List UInt8)) : Transfers :=
  s.userFile peer fun c => (Client.sendFile mem file path c).1

/-- `SkyNet::AcceptFile`. -/
def acceptFile (peer : Id) (mem opened : Bool) (r₀ r₁ : UInt8) : Transfers :=
  match s.findActiveChan peer with
  | none => s
  | some (p, i) =>
      let r := Client.acceptFile mem opened r₀ r₁ p.file
      let s := s.setFile i p r.1
      if r.2 ≠ .ok then s else s.withCounter s.counter.up

/-- `SkyNet::DenyFile`. -/
def denyFile (peer : Id) (mem : Bool) (r₀ r₁ : UInt8) : Transfers :=
  s.userFile peer fun c => (Client.denyFile mem r₀ r₁ c).1

/-- `SkyNet::PauseFile`. -/
def pauseFile (peer : Id) (mem sending : Bool) : Transfers :=
  s.userFile peer fun c => (Client.pauseFile mem sending c).1

/-- `SkyNet::ResumeFile`. -/
def resumeFile (peer : Id) (mem sending : Bool) : Transfers :=
  s.userFile peer fun c => (Client.resumeFile mem sending c).1

/-- `SkyNet::CancelFile`. -/
def cancelFile (peer : Id) (mem sending : Bool) : Option Transfers :=
  match s.findActiveChan peer with
  | none => some s
  | some (p, i) =>
      match Client.cancelFile mem sending p.file with
      | .error _ => none
      | .ok r => some (s.setFile i p r.1)

/-- A message of the peer for file transfer.  `accept_file_cb` answers that the user decides
later.  A handler that returns 0 makes `process_c2c` fail, and the channel is closed. -/
def message (i : Nat) (env : FileEnv) (buf : Frame) : Option Transfers :=
  match s.chans[i]? with
  | none => none
  | some p =>
      if byteAt buf 0 ∈ fileMessages then
        match procmsgFile { env with answer := .later } p.file buf with
        | .error _ => none
        | .ok (c, ret) =>
            let s := s.withCounter (s.counter.callbacks buf (Session.fileCallbacks p.file buf c ret))
            some (if ret = 0 then s.closeC2c i else s.setFile i p c)
      else none

/-- `PICA_send_file_fragment` in `process_c2c`.  An error is lost when there is something to
write: the result of `PICA_write_c2c` replaces it. -/
def sendFragment (i : Nat) (mem : Bool) (got : List UInt8) : Option Transfers :=
  match s.chans[i]? with
  | none => none
  | some p =>
      if p.active ∧ p.file.sendState = .sending then
        match sendFileFragment mem got p.file with
        | .error _ => none
        | .ok (c, code) =>
            let s := s.withCounter
              (if c.finishedSend ≠ p.file.finishedSend then s.counter.down else s.counter)
            some (if code ≠ .ok ∧ c.out = p.file.out then s.closeC2c i else s.setFile i p c)
      else some s

end Transfers

/-- What happens to the client and its channels. -/
inductive TransferEvent
  | net (e : SkyNet.Event)
  /-- `c2n_alloc_c2c` -/
  | opened (conn : C2n) (peer : Id)
  | established (i : Nat)
  | sendFile (peer : Id) (mem : Bool) (file : OpenRead) (path : Option (List UInt8))
  | acceptFile (peer : Id) (mem opened : Bool) (r₀ r₁ : UInt8)
  | denyFile (peer : Id) (mem : Bool) (r₀ r₁ : UInt8)
  | pauseFile (peer : Id) (mem sending : Bool)
  | resumeFile (peer : Id) (mem sending : Bool)
  | cancelFile (peer : Id) (mem sending : Bool)
  | message (i : Nat) (env : FileEnv) (buf : Frame)
  | fragment (i : Nat) (mem : Bool) (got : List UInt8)
  /-- the connection of a channel is lost, or the channel is closed -/
  | close (i : Nat)

namespace Transfers

/-- A link takes its channels along when it is closed; `Exit` resets the counter. -/
def netStep (s : Transfers) (e : SkyNet.Event) : Option Transfers :=
  match SkyNet.step s.net e with
  | none => none
  | some net =>
      let s := { s with
        net := net
        chans := s.chans.filter fun p => decide (p.conn ∉ s.net.closes e) }
      match e with
      | .exit => some (s.withCounter s.counter.reset)
      | _ => some s

/-- One step of the client. -/
def step (s : Transfers) : TransferEvent → Option Transfers
  | .net e => s.netStep e
  | .opened conn peer =>
      if s.net.links conn = some .connected then
        some { s with chans := s.chans ++ [⟨conn, peer, false, .fresh⟩] }
      else none
  | .established i =>
      match s.chans[i]? with
      | none => none
      | some p => some { s with chans := s.chans.set i { p with active := true } }
  | .sendFile peer mem file path => some (s.sendFile peer mem file path)
  | .acceptFile peer mem opened r₀ r₁ => some (s.acceptFile peer mem opened r₀ r₁)
  | .denyFile peer mem r₀ r₁ => some (s.denyFile peer mem r₀ r₁)
  | .pauseFile peer mem sending => some (s.pauseFile peer mem sending)
  | .resumeFile peer mem sending => some (s.resumeFile peer mem sending)
  | .cancelFile peer mem sending => s.cancelFile peer mem sending
  | .message i env buf => s.message i env buf
  | .fragment i mem got => s.sendFragment i mem got
  | .close i =>
      match s.chans[i]? with
      | none => none
      | some _ => some (s.closeC2c i)

end Transfers

/-! ## The condition -/

def SendState.transfers : SendState → Nat
  | .sending => 1
  | .idle | .sentReq | .paused => 0

def RecvState.transfers : RecvState → Nat
  | .receiving => 1
  | .idle | .waitAccept | .paused => 0

/-- How many directions of a channel transfer a file. -/
def FileChan.activeCount (c : FileChan) : Nat :=
  c.sendState.transfers + c.recvState.transfers

/-- No direction transfers a file. -/
def FileChan.Quiet (c : FileChan) : Prop :=
  c.sendState ≠ .sending ∧ c.recvState ≠ .receiving

namespace Transfers

/-- The transfers in state `SENDING` or `RECEIVING` on the channels. -/
def activeTransfers (s : Transfers) : Nat :=
  tally (fun p => p.file.activeCount) s.chans

end Transfers

/-- The counter counts `n` transfers, has never been counted down at 0, and the timer runs
while there are any. -/
structure TransferCounter.Counts (k : TransferCounter) (n : Nat) : Prop where
  count : k.activeFiletransfers.toNat = n
  timer : k.fileTransferTimer = true ↔ 0 < n
  above : k.belowZero = false

/-- The counter counts the active transfers. -/
def Transfers.Counted (s : Transfers) : Prop :=
  s.counter.Counts s.activeTransfers

/-- One more fits in 32 bits. -/
def TransferCounter.Room (k : TransferCounter) : Prop :=
  k.activeFiletransfers.toNat + 1 < 4294967296

/-- A command for a file that is being transferred in the state `active` of its channel and
not in the state `paused`. -/
def CommandFits (active paused : Prop) (cmd : UInt8) : Prop :=
  cmd = Proto.CTL_VOID ∨ cmd = Proto.CTL_PAUSE ∧ active ∨ cmd = Proto.CTL_RESUME ∧ paused ∨
    cmd = Proto.CTL_CANCEL ∨ cmd = Proto.CTL_IOERROR

/-- The commands of the sender and of the receiver that a channel carries out. -/
structure ControlTaken (c : FileChan) (snd rcv : UInt8) : Prop where
  toSender : rcv ≠ Proto.CTL_VOID → c.sendState ≠ .idle ∧ c.sendState ≠ .sentReq
  toReceiver : snd ≠ Proto.CTL_VOID → c.recvState ≠ .idle
  sender : CommandFits (c.recvState = .receiving) (c.recvState = .paused) snd
  receiver : CommandFits (c.sendState = .sending) (c.sendState = .paused) rcv

/-- The command ends the transfer. -/
def EndsFile (cmd : UInt8) : Prop :=
  cmd = Proto.CTL_CANCEL ∨ cmd = Proto.CTL_IOERROR

/-- The commands that start a transfer again. -/
def resumes (snd rcv : UInt8) : Nat :=
  (if snd = Proto.CTL_RESUME then 1 else 0) + (if rcv = Proto.CTL_RESUME then 1 else 0)

/-- Commands that are refused close a channel without transfers; one command alone ends a
transfer that is not paused; two commands pause or end as many transfers as they resume. -/
structure ControlCounted (k : TransferCounter) (c : FileChan) (snd rcv : UInt8) : Prop where
  refused : ¬ControlTaken c snd rcv → c.Quiet
  sender : ControlTaken c snd rcv → snd ≠ Proto.CTL_VOID → rcv = Proto.CTL_VOID →
    (EndsFile snd → c.recvState = .receiving) ∧ (snd = Proto.CTL_RESUME → k.Room)
  receiver : ControlTaken c snd rcv → snd = Proto.CTL_VOID → rcv ≠ Proto.CTL_VOID →
    (EndsFile rcv → c.sendState = .sending) ∧ (rcv = Proto.CTL_RESUME → k.Room)
  both : ControlTaken c snd rcv → snd ≠ Proto.CTL_VOID → rcv ≠ Proto.CTL_VOID →
    c.activeCount = resumes snd rcv

/-- A fragment that is refused or too long closes a channel without transfers, the last
fragment does not come while the file is paused, and a fragment that cannot be
written belongs to a paused file. -/
structure FragmentCounted (fwrite mem : Bool) (c : FileChan) (buf : Frame) : Prop where
  refused : (c.recvState ≠ .receiving ∧ c.recvState ≠ .paused) ∨ buf.length - 4 ≠ load16 buf 2 →
    c.Quiet
  tooLong : c.recvSize < add64 c.recvPos (buf.drop 4).length → c.Quiet
  last : (c.recvState = .receiving ∨ c.recvState = .paused) → buf.length - 4 = load16 buf 2 →
    (fwrite = true ∧ buf.drop 4 ≠ []) →
    add64 c.recvPos (buf.drop 4).length = c.recvSize → c.recvState = .receiving
  unwritten : (c.recvState = .receiving ∨ c.recvState = .paused) →
    buf.length - 4 = load16 buf 2 → ¬(fwrite = true ∧ buf.drop 4 ≠ []) →
    c.recvState = .paused ∧ (mem = false → c.Quiet)

/-- The condition on a message: one that is refused closes a channel without transfers. -/
def MessageCounted (k : TransferCounter) (env : FileEnv) (c : FileChan) (buf : Frame) : Prop :=
  if byteAt buf 0 = Proto.SENDFILEREQUEST then
    ¬(c.recvState = .idle ∧ validateFileName ((buf.drop 12).take (load16 buf 2 - 8)) = true) →
      c.Quiet
  else if byteAt buf 0 = Proto.ACCEPTEDFILE then
    (c.sendState = .sentReq → k.Room) ∧ (c.sendState ≠ .sentReq → c.Quiet)
  else if byteAt buf 0 = Proto.DENIEDFILE then c.sendState ≠ .sentReq → c.Quiet
  else if byteAt buf 0 = Proto.FILEFRAGMENT then FragmentCounted env.fwrite env.mem c buf
  else ControlCounted k c (buf.getD 2 0) (buf.getD 3 0)

/-- The user does not pause, resume or cancel a transfer in this state. -/
def UserSpares (c : FileChan) (sending : Bool) (snd : SendState) (rcv : RecvState) : Prop :=
  if sending then c.sendState ≠ snd else c.recvState ≠ rcv

namespace Transfers

/-- The condition on a step. -/
def StepCounted (s : Transfers) : TransferEvent → Prop
  | .net .exit => ∀ p ∈ s.chans, p.conn ∉ s.net.closes .exit → p.file.Quiet
  | .net e => ∀ p ∈ s.chans, p.conn ∈ s.net.closes e → p.file.Quiet
  | .acceptFile peer mem opened _ _ =>
      ∀ e ∈ s.findActiveChan peer, e.1.file.recvState = .waitAccept → opened = true → mem = true →
        s.counter.Room
  | .pauseFile peer _ sending =>
      ∀ e ∈ s.findActiveChan peer, UserSpares e.1.file sending .sending .receiving
  | .resumeFile peer _ sending =>
      ∀ e ∈ s.findActiveChan peer, UserSpares e.1.file sending .paused .paused
  | .cancelFile peer _ sending =>
      ∀ e ∈ s.findActiveChan peer, UserSpares e.1.file sending .sending .receiving
  | .message i env buf => ∀ p ∈ s.chans[i]?, MessageCounted s.counter env p.file buf
  | .fragment i mem got =>
      ∀ p ∈ s.chans[i]?, p.active = true → p.file.sendState = .sending → got ≠ [] ∧ mem = true
  | .close i => ∀ p ∈ s.chans[i]?, p.file.Quiet
  | _ => True

end Transfers

section Evaluation

instance (c : FileChan) : Decidable c.Quiet :=
  inferInstanceAs (Decidable (_ ∧ _))

instance (k : TransferCounter) : Decidable k.Room :=
  inferInstanceAs (Decidable (_ < _))

instance (cmd : UInt8) : Decidable (EndsFile cmd) :=
  inferInstanceAs (Decidable (_ ∨ _))

instance (active paused : Prop) [Decidable active] [Decidable paused] (cmd : UInt8) :
    Decidable (CommandFits active paused cmd) :=
  inferInstanceAs (Decidable (_ ∨ _))

instance (c : FileChan) (snd rcv : UInt8) : Decidable (ControlTaken c snd rcv) :=
  decidable_of_iff
    ((rcv ≠ Proto.CTL_VOID → c.sendState ≠ .idle ∧ c.sendState ≠ .sentReq) ∧
      (snd ≠ Proto.CTL_VOID → c.recvState ≠ .idle) ∧
      CommandFits (c.recvState = .receiving) (c.recvState = .paused) snd ∧
      CommandFits (c.sendState = .sending) (c.sendState = .paused) rcv)
    ⟨fun ⟨h1, h2, h3, h4⟩ => ⟨h1, h2, h3, h4⟩,
      fun h => ⟨h.toSender, h.toReceiver, h.sender, h.receiver⟩⟩

set_option synthInstance.maxSize 1000 in
instance (k : TransferCounter) (c : FileChan) (snd rcv : UInt8) :
    Decidable (ControlCounted k c snd rcv) :=
  decidable_of_iff
    ((¬ControlTaken c snd rcv → c.Quiet) ∧
      (ControlTaken c snd rcv → snd ≠ Proto.CTL_VOID → rcv = Proto.CTL_VOID →
        (EndsFile snd → c.recvState = .receiving) ∧ (snd = Proto.CTL_RESUME → k.Room)) ∧
      (ControlTaken c snd rcv → snd = Proto.CTL_VOID → rcv ≠ Proto.CTL_VOID →
        (EndsFile rcv → c.sendState = .sending) ∧ (rcv = Proto.CTL_RESUME → k.Room)) ∧
      (ControlTaken c snd rcv → snd ≠ Proto.CTL_VOID → rcv ≠ Proto.CTL_VOID →
        c.activeCount = resumes snd rcv))
    ⟨fun ⟨h1, h2, h3, h4⟩ => ⟨h1, h2, h3, h4⟩,
      fun h => ⟨h.refused, h.sender, h.receiver, h.both⟩⟩

set_option synthInstance.maxSize 1000 in
instance (fwrite mem : Bool) (c : FileChan) (buf : Frame) :
    Decidable (FragmentCounted fwrite mem c buf) :=
  decidable_of_iff
    (((c.recvState ≠ .receiving ∧ c.recvState ≠ .paused) ∨ buf.length - 4 ≠ load16 buf 2 →
        c.Quiet) ∧
      (c.recvSize < add64 c.recvPos (buf.drop 4).length → c.Quiet) ∧
      ((c.recvState = .receiving ∨ c.recvState = .paused) → buf.length - 4 = load16 buf 2 →
        (fwrite = true ∧ buf.drop 4 ≠ []) →
        add64 c.recvPos (buf.drop 4).length = c.recvSize → c.recvState = .receiving) ∧
      ((c.recvState = .receiving ∨ c.recvState = .paused) → buf.length - 4 = load16 buf 2 →
        ¬(fwrite = true ∧ buf.drop 4 ≠ []) →
        c.recvState = .paused ∧ (mem = false → c.Quiet)))
    ⟨fun ⟨h1, h2, h3, h4⟩ => ⟨h1, h2, h3, h4⟩,
      fun h => ⟨h.refused, h.tooLong, h.last, h.unwritten⟩⟩

instance (k : TransferCounter) (env : FileEnv) (c : FileChan) (buf : Frame) :
    Decidable (MessageCounted k env c buf) := by
  unfold MessageCounted
  infer_instance

instance (c : FileChan) (sending : Bool) (snd : SendState) (rcv : RecvState) :
    Decidable (UserSpares c sending snd rcv) := by
  unfold UserSpares
  infer_instance

instance (s : Transfers) (e : TransferEvent) : Decidable (s.StepCounted e) := by
  cases e with
  | net e =>
      cases e <;> exact inferInstanceAs (Decidable (∀ p ∈ s.chans, _ → p.file.Quiet))
  | opened conn peer => exact .isTrue trivial
  | established i => exact .isTrue trivial
  | sendFile peer mem file path => exact .isTrue trivial
  | denyFile peer mem r₀ r₁ => exact .isTrue trivial
  | acceptFile peer mem opened r₀ r₁ => exact Option.decidableForallMem _
  | pauseFile peer mem sending => exact Option.decidableForallMem _
  | resumeFile peer mem sending => exact Option.decidableForallMem _
  | cancelFile peer mem sending => exact Option.decidableForallMem _
  | message i env buf => exact Option.decidableForallMem _
  | fragment i mem got => exact Option.decidableForallMem _
  | close i => exact Option.decidableForallMem _

end Evaluation

section Counter

variable {k : TransferCounter} {n m : Nat}

theorem TransferCounter.Counts.init : TransferCounter.init.Counts 0 :=
  ⟨rfl, by decide, rfl⟩

theorem TransferCounter.Counts.same_iff (h : k.Counts n) : k.Counts m ↔ m = n := by
  constructor
  · intro hm
    rw [← hm.count, h.count]
  · rintro rfl
    exact h

theorem TransferCounter.room_iff (h : k.Counts n) : k.Room ↔ n + 1 < 4294967296 := by
  rw [Room, h.count]

theorem TransferCounter.Counts.up_iff (h : k.Counts n) : k.up.Counts (n + 1) ↔ k.Room := by
  have hadd : (k.activeFiletransfers + 1).toNat = (n + 1) % 4294967296 := by
    rw [UInt32.toNat_add, h.count]
    rfl
  have hcount : k.up.activeFiletransfers = k.activeFiletransfers + 1 := by
    unfold up
    dsimp only
    split <;> rfl
  have hbelow : k.up.belowZero = k.belowZero := by
    unfold up
    dsimp only
    split <;> rfl
  rw [room_iff h]
  constructor
  · intro hup
    have heq := hup.count
    rw [hcount, hadd] at heq
    omega
  · intro hroom
    have heq : (k.activeFiletransfers + 1).toNat = n + 1 := by rw [hadd, Nat.mod_eq_of_lt hroom]
    refine ⟨hcount ▸ heq, ?_, hbelow.trans h.above⟩
    have hpos : 0 < k.activeFiletransfers + 1 := by
      rw [UInt32.lt_iff_toNat_lt, heq]
      exact Nat.succ_pos n
    refine iff_of_true ?_ (Nat.succ_pos n)
    cases htimer : k.fileTransferTimer with
    | true => simp [up, htimer]
    | false => simp [up, htimer, hpos]

theorem TransferCounter.Counts.down_iff (h : k.Counts n) : k.down.Counts m ↔ m + 1 = n := by
  have hcount : k.down.activeFiletransfers = k.activeFiletransfers - 1 := by
    unfold down
    dsimp only
    split <;> rfl
  have hbelow : k.down.belowZero = (k.belowZero || k.activeFiletransfers == 0) := by
    unfold down
    dsimp only
    split <;> rfl
  have hsub : (k.activeFiletransfers - 1).toNat = (4294967296 - 1 + n) % 4294967296 := by
    rw [UInt32.toNat_sub, h.count]
    rfl
  have hlt : n < 4294967296 := h.count ▸ k.activeFiletransfers.toNat_lt
  by_cases hn : n = 0
  · -- The call at 0 is noted.
    have hzero : k.activeFiletransfers = 0 := UInt32.toNat_inj.mp (h.count.trans hn)
    constructor
    · intro hdown
      have habove := hdown.above
      rw [hbelow, hzero] at habove
      simp at habove
    · omega
  · have hpred : (k.activeFiletransfers - 1).toNat = n - 1 := by
      rw [hsub]
      omega
    have hne : k.activeFiletransfers ≠ 0 := by
      intro hzero
      have hcount := h.count
      rw [hzero] at hcount
      exact hn hcount.symm
    have hrunning : k.fileTransferTimer = true := h.timer.mpr (Nat.pos_of_ne_zero hn)
    constructor
    · intro hdown
      have heq := hdown.count
      rw [hcount, hpred] at heq
      omega
    · rintro rfl
      refine ⟨hcount ▸ hpred, ?_, ?_⟩
      · have hz : k.activeFiletransfers - 1 = 0 ↔ m = 0 := by
          rw [← UInt32.toNat_inj, hpred]
          rfl
        by_cases hm : m = 0
        · simp [down, hz.mpr hm, hrunning, hm]
        · simp [down, mt hz.mp hm, hrunning, Nat.pos_of_ne_zero hm]
      · rw [hbelow, h.above]
        simpa using hne

theorem TransferCounter.reset_counts (h : k.belowZero = false) : k.reset.Counts 0 :=
  ⟨rfl, by simp [reset], h⟩

end Counter

end Client
end PicaPica
