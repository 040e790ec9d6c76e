import PicaPica.Client.FileHandles
import PicaPica.Client.FileLink

/-!
# Sending a file in fragments

The event loop calls `PICA_send_file_fragment` for a channel that is `SENDING`, and each call
reads the next part of the file.  Between the calls anything may happen to the channel that does
not end the transfer: the user and the peer pause and resume it, and a file is received at the
same time.  The calls succeed, and their fragments make up the file, when there is a byte to
send.  `fread` returns 0 for an empty file, which counts as an error of the file system.
-/

namespace PicaPica
namespace Client

open Machine

/-- A channel that sends a file, what is left in the stream, and the results of the calls of
`PICA_send_file_fragment` that were made while `SENDING`. -/
structure Upload where
  chan : FileChan
  rest : List UInt8
  codes : List FileCode

inductive UploadOp
  /-- `PICA_send_file_fragment` with memory, for a stream that returns all its bytes -/
  | fragment
  | other (op : FileOp)

/-- The data of the fragments among some messages. -/
def fragmentsOf (out : List Frame) : List (List UInt8) :=
  (out.filter (byteAt · 0 = Proto.FILEFRAGMENT)).map (·.drop 4)

namespace Upload

def step (u : Upload) : UploadOp → Option Upload
  | .fragment =>
      match sendFileFragment true u.rest u.chan with
      | .error _ => none
      | .ok (c, code) =>
          some (if u.chan.sendState = .sending then
            ⟨c, u.rest.drop maxFragment, u.codes ++ [code]⟩ else { u with chan := c })
  | .other op => (fileStep u.chan op).map fun c => { u with chan := c }

/-- The step does not end the transfer: nobody cancels or denies it, and no other file is
sent. -/
def Undisturbed (u : Upload) : UploadOp → Prop
  | .fragment => True
  | .other (.fragment _ _) => False
  | .other (.sendFile _ _ _) => u.chan.sendState ≠ .idle
  | .other (.cancelFile _ sending) => sending = false
  | .other (.message _ buf) =>
      (byteAt buf 0 = Proto.DENIEDFILE → u.chan.sendState ≠ .sentReq) ∧
        (byteAt buf 0 = Proto.FILECONTROL →
          buf.getD 3 0 ≠ Proto.CTL_CANCEL ∧ buf.getD 3 0 ≠ Proto.CTL_IOERROR)
  | .other _ => True

/-- `PICA_send_file` has returned, and left the channel as `c`. -/
def begun (file : List UInt8) (c : FileChan) : Upload :=
  ⟨c, file, []⟩

/-- The data of the fragments that have been queued since the channel was `c`. -/
def sent (c : FileChan) (u : Upload) : List (List UInt8) :=
  (fragmentsOf u.chan.out).drop (fragmentsOf c.out).length

end Upload

/-! ## What leaves the transfer alone -/

/-- The file that is sent has not moved. -/
structure SendKept (c c' : FileChan) : Prop where
  size : c'.sendSize = c.sendSize
  pos : c'.sendPos = c.sendPos
  finished : c'.finishedSend = c.finishedSend
  isOpen : c'.sendOpen = c.sendOpen
  sent : fragmentsOf c'.out = fragmentsOf c.out
  idle : c'.sendState = .idle ↔ c.sendState = .idle

namespace SendKept

variable {c d e : FileChan}

theorem refl (c : FileChan) : SendKept c c :=
  ⟨rfl, rfl, rfl, rfl, rfl, Iff.rfl⟩

theorem trans (h : SendKept c d) (h' : SendKept d e) : SendKept c e where
  size := h'.size.trans h.size
  pos := h'.pos.trans h.pos
  finished := h'.finished.trans h.finished
  isOpen := h'.isOpen.trans h.isOpen
  sent := h'.sent.trans h.sent
  idle := h'.idle.trans h.idle

end SendKept

theorem fragmentsOf_append (out out' : List Frame) :
    fragmentsOf (out ++ out') = fragmentsOf out ++ fragmentsOf out' := by
  rw [fragmentsOf, List.filter_append, List.map_append]
  rfl

theorem fragmentsOf_fragment (data : List UInt8) :
    fragmentsOf [fragmentFrame data] = [data] := by
  have hkind : byteAt (fragmentFrame data) 0 = Proto.FILEFRAGMENT := rfl
  rw [fragmentsOf, List.filter_cons_of_pos (by simp [hkind]), List.filter_nil, List.map_singleton,
    drop_fragmentFrame]

section Kept

variable {c c' : FileChan} {mem : Bool}

/-- A message of another kind is pushed. -/
theorem push_kept {f : Frame} (hf : byteAt f 0 ≠ Proto.FILEFRAGMENT) :
    SendKept c (c.push mem f).1 := by
  cases mem with
  | false => exact .refl c
  | true =>
      have hnone : fragmentsOf [f] = [] := by
        rw [fragmentsOf, List.filter_cons_of_neg (by simp [hf]), List.filter_nil, List.map_nil]
      refine ⟨rfl, rfl, rfl, rfl, ?_, Iff.rfl⟩
      change fragmentsOf (c.out ++ [f]) = _
      rw [fragmentsOf_append, hnone, List.append_nil]

theorem sendFilecontrol_kept {snd rcv : UInt8} : SendKept c (sendFilecontrol mem c snd rcv).1 :=
  push_kept (show Proto.FILECONTROL ≠ Proto.FILEFRAGMENT by decide)

/-- Only the side that receives has changed. -/
theorem recv_kept
    (h : c' = { c with
      recvState := c'.recvState
      recvOpen := c'.recvOpen
      recvSize := c'.recvSize
      recvPos := c'.recvPos
      recvData := c'.recvData
      finishedRecv := c'.finishedRecv }) :
    SendKept c c' := by
  rw [h]
  exact ⟨rfl, rfl, rfl, rfl, rfl, Iff.rfl⟩

/-- The state has changed between states in which the stream is open. -/
theorem state_kept {st : SendState} (h : st = .idle ↔ c.sendState = .idle) :
    SendKept c { c with sendState := st } :=
  ⟨rfl, rfl, rfl, rfl, rfl, h⟩

theorem closeRecv_kept (h : c.closeRecv = .ok c') : SendKept c c' := by
  rw [FileChan.closeRecv] at h
  split_ifs at h
  cases h
  exact recv_kept rfl

theorem denyFile_kept {r₀ r₁ : UInt8} : SendKept c (denyFile mem r₀ r₁ c).1 := by
  rw [denyFile]
  split_ifs
  · exact .refl c
  · exact (recv_kept rfl).trans (push_kept (show Proto.DENIEDFILE ≠ Proto.FILEFRAGMENT by decide))

theorem acceptFile_kept {opened : Bool} {r₀ r₁ : UInt8} :
    SendKept c (acceptFile mem opened r₀ r₁ c).1 := by
  have hkind : byteAt (shortFrame Proto.ACCEPTEDFILE r₀ r₁) 0 ≠ Proto.FILEFRAGMENT := by
    change Proto.ACCEPTEDFILE ≠ Proto.FILEFRAGMENT
    decide
  rw [acceptFile]
  split_ifs with hstate hopened
  · exact .refl c
  · dsimp only
    split_ifs
    · exact ((recv_kept rfl).trans (push_kept hkind)).trans (recv_kept rfl)
    · exact (recv_kept rfl).trans (push_kept hkind)
  · exact recv_kept rfl

theorem pauseFile_kept {sending : Bool} : SendKept c (pauseFile mem sending c).1 := by
  rw [pauseFile]
  split_ifs with hsending hstate hstate
  · exact .refl c
  · exact (state_kept (by simp [not_not.mp hstate])).trans sendFilecontrol_kept
  · exact .refl c
  · exact (recv_kept rfl).trans sendFilecontrol_kept

theorem resumeFile_kept {sending : Bool} : SendKept c (resumeFile mem sending c).1 := by
  rw [resumeFile]
  split_ifs with hsending hstate hstate
  · exact .refl c
  · exact (state_kept (by simp [not_not.mp hstate])).trans sendFilecontrol_kept
  · exact .refl c
  · exact (recv_kept rfl).trans sendFilecontrol_kept

/-- The file that is received is cancelled. -/
theorem cancelFile_kept
    {r : FileChan × FileCode}
    (h : cancelFile mem false c = .ok r) :
    SendKept c r.1 := by
  rw [cancelFile, if_neg (by simp)] at h
  split_ifs at h
  · cases h
    exact .refl c
  · obtain ⟨d, hclose, rfl⟩ := map_eq_ok.mp h
    exact ((closeRecv_kept hclose).trans (recv_kept rfl)).trans sendFilecontrol_kept

theorem sendFile_kept
    {file : OpenRead} {path : Option (List UInt8)}
    (h : c.sendState ≠ .idle) :
    SendKept c (sendFile mem file path c).1 := by
  rw [sendFile.eq_def, if_pos h]
  exact .refl c

end Kept

section Messages

variable {c : FileChan} {env : FileEnv} {buf : Frame} {r : FileChan × Nat}

theorem procmsgSENDFILEREQUEST_kept
    (h : procmsgSENDFILEREQUEST env c buf = .ok r) :
    SendKept c r.1 := by
  rw [procmsgSENDFILEREQUEST] at h
  split_ifs at h
  · cases h
    exact .refl c
  · cases h
    exact .refl c
  · have hasked : SendKept c
        { c with recvState := .waitAccept, recvSize := load64 buf 4, recvPos := 0 } := recv_kept rfl
    cases hanswer : env.answer with
    | accept =>
        simp only [hanswer] at h
        split_ifs at h
        · cases h
          exact hasked.trans acceptFile_kept
        · cases h
          exact (hasked.trans acceptFile_kept).trans denyFile_kept
        · cases h
          exact (hasked.trans acceptFile_kept).trans denyFile_kept
    | later =>
        simp only [hanswer] at h
        cases h
        exact hasked
    | refuse =>
        simp only [hanswer] at h
        cases h
        exact hasked.trans denyFile_kept

theorem procmsgACCEPTEDFILE_kept : SendKept c (procmsgACCEPTEDFILE c).1 := by
  rw [procmsgACCEPTEDFILE]
  split_ifs with hstate
  · exact .refl c
  · exact state_kept (by simp [not_not.mp hstate])

theorem fragmentReceived_kept
    {n : Nat} (h : fragmentReceived c n = .ok r) :
    SendKept c r.1 := by
  rw [fragmentReceived] at h
  dsimp only at h
  split_ifs at h
  · cases h
    exact recv_kept rfl
  · obtain ⟨d, hclose, rfl⟩ := map_eq_ok.mp h
    exact ((recv_kept rfl).trans (closeRecv_kept hclose)).trans (recv_kept rfl)
  · cases h
    exact recv_kept rfl

theorem procmsgFILEFRAGMENT_kept
    (h : procmsgFILEFRAGMENT env c buf = .ok r) :
    SendKept c r.1 := by
  rw [procmsgFILEFRAGMENT] at h
  split_ifs at h
  · cases h
    exact .refl c
  · cases h
    exact .refl c
  · dsimp only at h
    have hfailed : SendKept c (sendFilecontrol env.mem
        { c with recvOpen := false, recvState := .idle } Proto.CTL_VOID Proto.CTL_IOERROR).1 :=
      (recv_kept rfl).trans sendFilecontrol_kept
    split_ifs at h
    · exact (recv_kept rfl).trans (fragmentReceived_kept h)
    · exact hfailed.trans (fragmentReceived_kept h)
    · cases h
      exact hfailed

theorem senderCommand_kept
    {cmd : UInt8} {r : FileChan × Bool} (h : senderCommand c cmd = .ok r) :
    SendKept c r.1 := by
  rw [senderCommand] at h
  split_ifs at h
  · cases h
    exact recv_kept rfl
  · cases h
    exact .refl c
  · cases h
    exact recv_kept rfl
  · cases h
    exact .refl c
  · obtain ⟨d, hclose, rfl⟩ := map_eq_ok.mp h
    exact (recv_kept rfl).trans (closeRecv_kept hclose)
  · cases h
    exact .refl c

/-- The peer pauses and resumes the file it receives. -/
theorem receiverCommand_kept
    {cmd : UInt8} {r : FileChan × Bool}
    (hcancel : cmd ≠ Proto.CTL_CANCEL) (herror : cmd ≠ Proto.CTL_IOERROR)
    (h : receiverCommand c cmd = .ok r) :
    SendKept c r.1 := by
  rw [receiverCommand] at h
  split_ifs at h with _ hstate _ hstate hends
  · cases h
    exact state_kept (by simp [hstate])
  · cases h
    exact .refl c
  · cases h
    exact state_kept (by simp [hstate])
  · cases h
    exact .refl c
  · exact absurd hends (not_or.mpr ⟨hcancel, herror⟩)
  · cases h
    exact .refl c

theorem procmsgFILECONTROL_kept
    (hcancel : buf.getD 3 0 ≠ Proto.CTL_CANCEL) (herror : buf.getD 3 0 ≠ Proto.CTL_IOERROR)
    (h : procmsgFILECONTROL c buf = .ok r) :
    SendKept c r.1 := by
  rw [procmsgFILECONTROL] at h
  split_ifs at h
  · cases h
    exact .refl c
  · cases h
    exact .refl c
  · obtain ⟨r₁, hfirst, hsecond⟩ := bind_eq_ok.mp h
    have hkept := senderCommand_kept hfirst
    split_ifs at hsecond
    · obtain ⟨r₂, hcmd, rfl⟩ := map_eq_ok.mp hsecond
      exact hkept.trans (receiverCommand_kept hcancel herror hcmd)
    · cases hsecond
      exact hkept

theorem procmsgFile_kept
    (hdenied : byteAt buf 0 = Proto.DENIEDFILE → c.sendState ≠ .sentReq)
    (hctl : byteAt buf 0 = Proto.FILECONTROL →
      buf.getD 3 0 ≠ Proto.CTL_CANCEL ∧ buf.getD 3 0 ≠ Proto.CTL_IOERROR)
    (h : procmsgFile env c buf = .ok r) :
    SendKept c r.1 := by
  rw [procmsgFile] at h
  split_ifs at h with hrequest haccepted hkind hfragment hkind
  · exact procmsgSENDFILEREQUEST_kept h
  · cases h
    exact procmsgACCEPTEDFILE_kept
  · rw [procmsgDENIEDFILE, if_pos (hdenied hkind)] at h
    cases h
    exact .refl c
  · exact procmsgFILEFRAGMENT_kept h
  · exact procmsgFILECONTROL_kept (hctl hkind).1 (hctl hkind).2 h
  · cases h
    exact .refl c

end Messages

/-- **What happens between the calls leaves the file alone.** -/
theorem fileCall_kept
    {u : Upload} {op : FileOp} {c' : FileChan}
    (hok : u.Undisturbed (.other op)) (h : fileCall u.chan op = .ok c') :
    SendKept u.chan c' := by
  cases op with
  | sendFile mem file path =>
      cases h
      exact sendFile_kept hok
  | denyFile mem r₀ r₁ =>
      cases h
      exact denyFile_kept
  | acceptFile mem opened r₀ r₁ =>
      cases h
      exact acceptFile_kept
  | pauseFile mem sending =>
      cases h
      exact pauseFile_kept
  | resumeFile mem sending =>
      cases h
      exact resumeFile_kept
  | cancelFile mem sending =>
      obtain rfl : sending = false := hok
      obtain ⟨r, hr, rfl⟩ := map_eq_ok.mp h
      exact cancelFile_kept hr
  | fragment mem got => exact absurd hok id
  | message env buf =>
      obtain ⟨r, hr, rfl⟩ := map_eq_ok.mp h
      exact procmsgFile_kept hok.1 hok.2 hr

/-! ## Pieces of a file -/

/-- The first `k` pieces of a list that is cut every `m` elements. -/
def pieces (m : Nat) (file : List UInt8) (k : Nat) : List (List UInt8) :=
  (List.range k).map fun i => (file.drop (i * m)).take m

section Pieces

variable {m k : Nat} {file : List UInt8}

theorem pieces_succ : pieces m file (k + 1) = pieces m file k ++ [(file.drop (k * m)).take m] := by
  rw [pieces, List.range_succ, List.map_append]
  rfl

theorem flatten_pieces : (pieces m file k).flatten = file.take (k * m) := by
  induction k with
  | zero => simp [pieces]
  | succ k ih =>
      rw [pieces_succ, List.flatten_append, ih, List.flatten_singleton, Nat.succ_mul, List.take_add]

theorem length_of_mem_pieces
    {data : List UInt8}
    (hfull : ∀ i < k, i * m < file.length) (hm : 0 < m) (h : data ∈ pieces m file k) :
    1 ≤ data.length ∧ data.length ≤ m := by
  obtain ⟨i, hi, rfl⟩ := List.mem_map.mp h
  have hlt := hfull i (List.mem_range.mp hi)
  rw [List.length_take, List.length_drop]
  omega

end Pieces

/-- The number of fragments of a file. -/
def callsFor (size : Nat) : Nat :=
  (size + maxFragment - 1) / maxFragment

theorem callsFor_le {size k : Nat} : callsFor size ≤ k ↔ size ≤ k * maxFragment := by
  simp only [callsFor, maxFragment]
  omega

/-! ## The transfer -/

/-- The channel was `c` when the request had been queued, and the first `u.codes.length` pieces of
the file have been sent since then. -/
structure Upload.Sound (file : List UInt8) (c : FileChan) (u : Upload) : Prop where
  codes : ∀ code ∈ u.codes, code = .ok
  full : ∀ i < u.codes.length, i * maxFragment < file.length
  rest : u.rest = file.drop (u.codes.length * maxFragment)
  sent : fragmentsOf u.chan.out = fragmentsOf c.out ++ pieces maxFragment file u.codes.length
  size : u.chan.sendSize = file.length
  pos : u.chan.sendPos = min (u.codes.length * maxFragment) file.length
  isOpen : u.chan.sendState ≠ .idle → u.chan.sendOpen = true
  idle : u.chan.sendState = .idle ↔ file.length ≤ u.codes.length * maxFragment
  finished : u.chan.finishedSend = c.finishedSend + if u.chan.sendState = .idle then 1 else 0

section Sound

variable {file : List UInt8} {c : FileChan} {u t : Upload}

/-- The request for the file has been queued. -/
theorem sendFile_begins
    {mem : Bool} {size : Nat} {path : Option (List UInt8)} {c₀ : FileChan}
    (h : sendFile mem (.sized size) path c₀ = (c, .ok)) :
    c.sendState = .sentReq ∧ c.sendSize = size ∧ c.sendPos = 0 ∧ c.sendOpen = true := by
  cases path with
  | none =>
      rw [sendFile] at h
      split_ifs at h
      · cases h
      · cases h
  | some path =>
      simp only [sendFile] at h
      split_ifs at h with hbusy hname hpush
      · cases h
      · cases h
      · cases h
        cases mem with
        | true => exact ⟨rfl, rfl, rfl, rfl⟩
        | false => cases hpush
      · cases h

theorem begun_sound
    {mem : Bool} {path : Option (List UInt8)} {c₀ : FileChan}
    (hne : file ≠ []) (h : sendFile mem (.sized file.length) path c₀ = (c, .ok)) :
    (Upload.begun file c).Sound file c := by
  have hlen : 0 < file.length := List.length_pos_iff.mpr hne
  obtain ⟨hstate, hsize, hpos, hopen⟩ := sendFile_begins h
  have hzero : (Upload.begun file c).codes.length * maxFragment = 0 := Nat.zero_mul _
  refine ⟨List.forall_mem_nil _, fun i hi => absurd hi (Nat.not_lt_zero i), ?_,
    (List.append_nil _).symm, hsize, ?_, fun _ => hopen, ?_, ?_⟩
  · rw [hzero]
    rfl
  · rw [hzero, Nat.zero_min]
    exact hpos
  · rw [hzero]
    refine ⟨fun hidle => ?_, fun hle => by omega⟩
    cases hstate.symm.trans hidle
  · have hnot : (Upload.begun file c).chan.sendState ≠ .idle := by
      intro hidle
      cases hstate.symm.trans hidle
    rw [if_neg hnot]
    rfl

/-- A step between the calls. -/
theorem Upload.Sound.other
    {c' : FileChan}
    (hs : u.Sound file c) (h : SendKept u.chan c') :
    ({ u with chan := c' } : Upload).Sound file c where
  codes := hs.codes
  full := hs.full
  rest := hs.rest
  sent := h.sent.trans hs.sent
  size := h.size.trans hs.size
  pos := h.pos.trans hs.pos
  isOpen := fun hne => h.isOpen.trans (hs.isOpen fun hi => hne (h.idle.mpr hi))
  idle := h.idle.trans hs.idle
  finished := by
    simp only [h.finished, h.idle]
    exact hs.finished

/-- **A call while `SENDING` sends the next piece.** -/
theorem Upload.Sound.fragment
    (hsize : file.length < 18446744073709551616) (hs : u.Sound file c)
    (hstate : u.chan.sendState = .sending) :
    ∃ c', sendFileFragment true u.rest u.chan = .ok (c', .ok) ∧
      (c'.sendState = .sending ∨ c'.sendState = .idle) ∧
      (⟨c', u.rest.drop maxFragment, u.codes ++ [.ok]⟩ : Upload).Sound file c := by
  have hopen := hs.isOpen (by rw [hstate]; exact nofun)
  have hmax : 0 < maxFragment := by decide
  have hmore : u.codes.length * maxFragment < file.length := by
    by_contra hle
    have hidle := hs.idle.mpr (Nat.le_of_not_lt hle)
    rw [hstate] at hidle
    cases hidle
  have hpos : u.chan.sendPos = u.codes.length * maxFragment :=
    hs.pos.trans (Nat.min_eq_left (Nat.le_of_lt hmore))
  generalize hdata : (file.drop (u.codes.length * maxFragment)).take maxFragment = data
  have hlen : data.length = min maxFragment (file.length - u.codes.length * maxFragment) := by
    rw [← hdata, List.length_take, List.length_drop]
  have hne : data ≠ [] := List.length_pos_iff.mp (by omega)
  have hcall := @sendFileFragment_sent u.chan data u.rest hstate hopen (by rw [hs.rest, hdata]) hne
    (by rw [hpos, hs.size]; omega) (by rw [hs.size]; exact hsize)
  refine ⟨_, hcall, ?_, ?_⟩
  · rw [FileChan.sentFragment]
    split_ifs
    · exact .inr rfl
    · exact .inl hstate
  have hnext : (u.codes ++ [FileCode.ok]).length = u.codes.length + 1 := List.length_append
  have hsucc : (u.codes.length + 1) * maxFragment = u.codes.length * maxFragment + maxFragment :=
    Nat.succ_mul _ _
  -- the position reaches the size with the last piece
  have hend : u.chan.sendPos + data.length = u.chan.sendSize ↔
      file.length ≤ (u.codes.length + 1) * maxFragment := by
    rw [hpos, hs.size, hsucc]
    omega
  have hbusy : u.chan.sendState ≠ .idle := by
    rw [hstate]
    exact nofun
  have hfinished := hs.finished
  rw [if_neg hbusy] at hfinished
  have hcommon : ∀ code ∈ u.codes ++ [FileCode.ok], code = .ok := by
    intro code hcode
    rcases List.mem_append.mp hcode with hold | hnew
    · exact hs.codes code hold
    · exact List.mem_singleton.mp hnew
  refine ⟨hcommon, ?_, ?_, ?_, ?_, ?_, ?_, ?_, ?_⟩
  · dsimp only
    intro i hi
    rw [hnext] at hi
    exact Nat.lt_of_le_of_lt (Nat.mul_le_mul_right _ (Nat.le_of_lt_succ hi)) hmore
  · dsimp only
    rw [hnext, hs.rest, List.drop_drop, hsucc]
  · dsimp only
    rw [hnext, sentFragment_out, fragmentsOf_append, fragmentsOf_fragment, hs.sent, pieces_succ,
      hdata, List.append_assoc]
  · exact sentFragment_size.trans hs.size
  · dsimp only
    rw [sentFragment_pos, hnext, hpos, hlen, hsucc]
    omega
  · dsimp only
    rw [FileChan.sentFragment]
    split_ifs
    · exact fun hne => absurd rfl hne
    · exact fun _ => hopen
  · dsimp only
    rw [hnext, ← hend, FileChan.sentFragment]
    split_ifs with hlast
    · exact ⟨fun _ => hlast, fun _ => rfl⟩
    · exact ⟨fun hidle => absurd hidle hbusy, fun heq => absurd heq hlast⟩
  · dsimp only
    rw [FileChan.sentFragment]
    by_cases hlast : u.chan.sendPos + data.length = u.chan.sendSize
    · rw [if_pos hlast, if_pos rfl]
      exact congrArg (· + 1) hfinished
    · rw [if_neg hlast]
      exact hs.finished

/-- **Every step keeps the transfer sound.** -/
theorem step_sound
    {op : UploadOp}
    (hsize : file.length < 18446744073709551616) (hs : u.Sound file c) (hok : u.Undisturbed op)
    (h : u.step op = some t) :
    t.Sound file c := by
  cases op with
  | fragment =>
      by_cases hstate : u.chan.sendState = .sending
      · obtain ⟨c', hcall, -, hnext⟩ := hs.fragment hsize hstate
        rw [Upload.step, hcall] at h
        dsimp only at h
        rw [if_pos hstate] at h
        cases h
        exact hnext
      · rw [Upload.step, sendFileFragment, if_pos hstate] at h
        dsimp only at h
        rw [if_neg hstate] at h
        cases h
        exact hs
  | other op =>
      rw [Upload.step, fileStep] at h
      cases hcall : fileCall u.chan op with
      | error e =>
          rw [hcall] at h
          cases h
      | ok c' =>
          rw [hcall] at h
          cases h
          exact hs.other (fileCall_kept hok hcall)

/-- A call of `PICA_send_file_fragment` comes back. -/
theorem Upload.Sound.fragment_returns
    (hsize : file.length < 18446744073709551616) (hs : u.Sound file c) :
    u.step .fragment ≠ none := by
  by_cases hstate : u.chan.sendState = .sending
  · obtain ⟨c', hcall, -⟩ := hs.fragment hsize hstate
    rw [Upload.step, hcall]
    rintro ⟨⟩
  · rw [Upload.step, sendFileFragment, if_pos hstate]
    rintro ⟨⟩

theorem Upload.Sound.calls_le (hs : u.Sound file c) : u.codes.length ≤ callsFor file.length := by
  by_contra hmore
  have hlast := hs.full (callsFor file.length) (Nat.lt_of_not_le hmore)
  exact Nat.not_le_of_lt hlast (callsFor_le.mp (Nat.le_refl _))

/-- **The calls that are left end the transfer.** -/
theorem Upload.Sound.calls
    {k : Nat}
    (hsize : file.length < 18446744073709551616) (hs : u.Sound file c)
    (hk : u.codes.length + k = callsFor file.length)
    (hstate : u.chan.sendState = .sending ∨ u.chan.sendState = .idle) :
    ∃ t, run Upload.step u (List.replicate k .fragment) = some t ∧
      t.chan.sendState = .idle ∧ t.Sound file c := by
  induction k generalizing u with
  | zero => exact ⟨u, rfl, hs.idle.mpr (callsFor_le.mp (Nat.le_of_eq hk.symm)), hs⟩
  | succ k ih =>
      have hbusy : u.chan.sendState ≠ .idle := by
        intro hidle
        have hdone := callsFor_le.mpr (hs.idle.mp hidle)
        omega
      have hsending := hstate.resolve_right hbusy
      obtain ⟨c', hcall, hstate', hnext⟩ := hs.fragment hsize hsending
      have hstep : u.step .fragment = some ⟨c', u.rest.drop maxFragment, u.codes ++ [.ok]⟩ := by
        rw [Upload.step, hcall]
        exact congrArg some (if_pos hsending)
      have hk' : (u.codes ++ [FileCode.ok]).length + k = callsFor file.length := by
        rw [List.length_append, List.length_singleton]
        omega
      obtain ⟨t, hrun, hidle, ht⟩ := ih hnext hk' hstate'
      refine ⟨t, ?_, hidle, ht⟩
      rw [List.replicate_succ, run, hstep]
      exact hrun

end Sound

/-! ## The files that are sent -/

/-- Since the channel was `c` the calls while `SENDING` have returned `PICA_OK`, their number is
that of the fragments at most, the fragments are of a proper size and are the file up to what is
left in the stream, all of it if the channel is `IDLE` again, `file_finished_cb` has been called
once then, and the next call comes back. -/
structure Upload.Intact (file : List UInt8) (c : FileChan) (u : Upload) : Prop where
  ok : ∀ code ∈ u.codes, code = .ok
  calls : u.codes.length ≤ callsFor file.length
  sized : ∀ data ∈ u.sent c, 1 ≤ data.length ∧ data.length ≤ 49148
  joined : (u.sent c).flatten ++ u.rest = file
  complete : u.chan.sendState = .idle → (u.sent c).flatten = file
  once : u.chan.finishedSend = c.finishedSend + if u.chan.sendState = .idle then 1 else 0
  returns : u.step .fragment ≠ none

/-- When the file that `PICA_send_file` has offered is accepted, the channel is `SENDING`.
Whatever happens between the calls, they send the file, and the calls that are left while the
channel is `SENDING` make it `IDLE`. -/
def SendsIntact (file : List UInt8) : Prop :=
  ∀ mem path c₀ c, sendFile mem (.sized file.length) path c₀ = (c, .ok) →
    (∀ env r₀ r₁, ∃ u,
      (Upload.begun file c).step
        (.other (.message env (shortFrame Proto.ACCEPTEDFILE r₀ r₁))) = some u ∧
      u.chan.sendState = .sending) ∧
    ∀ ops u, Meets Upload.step Upload.Undisturbed (.begun file c) ops →
      run Upload.step (.begun file c) ops = some u →
      u.Intact file c ∧
        (u.chan.sendState = .sending → ∃ t,
          run Upload.step u
            (List.replicate (callsFor file.length - u.codes.length) .fragment) = some t ∧
          t.chan.sendState = .idle ∧ t.Intact file c)

section Intact

variable {file : List UInt8} {c : FileChan} {u : Upload}

theorem Upload.Sound.sent_eq (hs : u.Sound file c) :
    u.sent c = pieces maxFragment file u.codes.length := by
  rw [Upload.sent, hs.sent, List.drop_left]

theorem Upload.Sound.intact
    (hsize : file.length < 18446744073709551616) (hs : u.Sound file c) :
    u.Intact file c where
  ok := hs.codes
  calls := hs.calls_le
  sized data hdata := by
    rw [hs.sent_eq] at hdata
    exact length_of_mem_pieces hs.full (by decide) hdata
  joined := by rw [hs.sent_eq, flatten_pieces, hs.rest, List.take_append_drop]
  complete hidle := by
    rw [hs.sent_eq, flatten_pieces, List.take_of_length_le (hs.idle.mp hidle)]
  once := hs.finished
  returns := hs.fragment_returns hsize

/-- The peer accepts the file. -/
theorem sendFile_accepted
    {env : FileEnv} {r₀ r₁ : UInt8}
    (hstate : c.sendState = .sentReq) :
    ∃ u, (Upload.begun file c).step
        (.other (.message env (shortFrame Proto.ACCEPTEDFILE r₀ r₁))) = some u ∧
      u.chan.sendState = .sending := by
  have hcall : procmsgFile env c (shortFrame Proto.ACCEPTEDFILE r₀ r₁) =
      .ok (procmsgACCEPTEDFILE c) := rfl
  rw [procmsgACCEPTEDFILE, if_neg (not_not.mpr hstate)] at hcall
  refine ⟨⟨{ c with sendState := .sending }, file, []⟩, ?_, rfl⟩
  rw [Upload.step, Upload.begun, fileStep, fileCall, hcall]
  rfl

theorem sendsIntact_of_ne
    (hsize : file.length < 18446744073709551616) (hne : file ≠ []) :
    SendsIntact file := by
  intro mem path c₀ c h
  have hsound : ∀ ops u, Meets Upload.step Upload.Undisturbed (.begun file c) ops →
      run Upload.step (.begun file c) ops = some u → u.Sound file c :=
    fun ops u hok hrun => run_invariant (fun s e t hs hok hstep => step_sound hsize hs hok hstep)
      (begun_sound hne h) hok hrun
  refine ⟨fun env r₀ r₁ => sendFile_accepted (sendFile_begins h).1, fun ops u hok hrun => ?_⟩
  have hs := hsound ops u hok hrun
  refine ⟨hs.intact hsize, fun hstate => ?_⟩
  obtain ⟨t, hcalls, hidle, ht⟩ := hs.calls hsize (Nat.add_sub_cancel' hs.calls_le) (.inl hstate)
  exact ⟨t, hcalls, hidle, ht.intact hsize⟩

/-- With an empty file the first call returns `PICA_ERRFILEIO`. -/
theorem not_sendsIntact_nil : ¬SendsIntact [] := by
  intro h
  have hbegin : sendFile true (.sized 0) (some [97]) .fresh =
      ((sendFile true (.sized 0) (some [97]) .fresh).1, .ok) := rfl
  obtain ⟨-, hall⟩ := h true (some [97]) .fresh _ hbegin
  have hbad := (hall [.other (.message (.fine .later) (shortFrame Proto.ACCEPTEDFILE 7 7)), .fragment]
    _ ⟨⟨by decide, by decide⟩, fun _ _ => ⟨trivial, fun _ _ => trivial⟩⟩ rfl).1.ok .errFileIo
  exact absurd (hbad (by decide)) (by decide)

end Intact

/-- **A file is sent intact exactly when it is not empty.** -/
theorem send_file_intact_iff
    (file : List UInt8) (hsize : file.length < 18446744073709551616) :
    SendsIntact file ↔ file ≠ [] :=
  ⟨fun h hnil => not_sendsIntact_nil (hnil ▸ h), sendsIntact_of_ne hsize⟩

/-- A file of two bytes. -/
theorem send_file_intact_two : SendsIntact [104, 105] :=
  (send_file_intact_iff [104, 105] (by decide)).mpr nofun

/-- An empty file is offered and accepted.  The first call closes the stream, reports an error of
the file system to the peer and returns `PICA_ERRFILEIO`; `file_finished_cb` is not called. -/
theorem empty_file_fails :
    let c := (sendFile true (.sized 0) (some [97]) .fresh).1
    let ops : List UploadOp :=
      [.other (.message (.fine .later) (shortFrame Proto.ACCEPTEDFILE 7 7)), .fragment]
    (sendFile true (.sized 0) (some [97]) .fresh).2 = .ok ∧
      ¬SendsIntact [] ∧
      ∃ u, run Upload.step (.begun [] c) ops = some u ∧ u.codes = [.errFileIo] ∧
        u.chan.sendState = .idle ∧ u.chan.finishedSend = 0 ∧ u.sent c = [] ∧
        u.chan.out = c.out ++ [ctlFrame Proto.CTL_IOERROR Proto.CTL_VOID] :=
  ⟨rfl, not_sendsIntact_nil, _, rfl, rfl, rfl, rfl, rfl, rfl⟩

end Client
end PicaPica
