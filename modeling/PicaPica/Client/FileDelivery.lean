import PicaPica.Client.FileControl

/-!
# The file that arrives

One transfer from the offer to the end, where only the sender pauses and resumes.  The
offer is on its way, then the receiver decides, and after that the transfer runs as in
`FileLink.Inv`; the receiver counts the end once it has the whole file.
-/

namespace PicaPica
namespace Client

open Machine

section Request

variable {size : Nat} {name : List UInt8}

theorem leNat_digits (k n : Nat) :
    leNat ((List.range k).map fun i => UInt8.ofNat (n / 256 ^ i)) = n % 256 ^ k := by
  induction k generalizing n with
  | zero => simp [leNat, Nat.mod_one]
  | succ k ih =>
      have hrest : ((List.range k).map Nat.succ).map (fun i => UInt8.ofNat (n / 256 ^ i)) =
          (List.range k).map fun i => UInt8.ofNat (n / 256 / 256 ^ i) := by
        rw [List.map_map]
        refine List.map_congr_left fun i _ => ?_
        simp only [Function.comp_apply, Nat.succ_eq_add_one, Nat.pow_succ']
        rw [Nat.div_div_eq_div_mul]
      rw [List.range_succ_eq_map, List.map_cons, leNat, hrest, ih, Nat.pow_zero, Nat.div_one,
        UInt8.toNat_ofNat', Nat.pow_succ' (m := 256), Nat.mod_mul]

theorem leNat_le64 {n : Nat} (h : n < 18446744073709551616) : leNat (le64 n) = n := by
  rw [le64, leNat_digits]
  exact Nat.mod_eq_of_lt h

theorem length_le64 (n : Nat) : (le64 n).length = 8 := by
  simp [le64]

theorem load16_requestFrame (h : name.length ≤ Proto.MAXFILENAMESIZE) :
    load16 (requestFrame size name) 2 = name.length + 8 := by
  have hcut : ((requestFrame size name).drop 2).take 2 = le16 (name.length + 8) := by
    simp [requestFrame, head, le16]
  have hmax : Proto.MAXFILENAMESIZE + 8 < 65536 := by decide
  rw [load16, hcut, leNat_le16 (by omega)]

theorem load64_requestFrame (h : size < offMod) : load64 (requestFrame size name) 4 = size := by
  have hfront : (head Proto.SENDFILEREQUEST ++ le16 (name.length + 8)).length = 4 := rfl
  have hcut : ((requestFrame size name).drop 4).take 8 = le64 size := by
    rw [requestFrame, List.append_assoc, List.drop_left' hfront,
      List.take_left' (length_le64 size)]
  have hmod : offMod ≤ 18446744073709551616 := by decide
  rw [load64, hcut, leNat_le64 (by omega)]

theorem name_requestFrame :
    ((requestFrame size name).drop 12).take (name.length + 8 - 8) = name := by
  have hfront : (head Proto.SENDFILEREQUEST ++ le16 (name.length + 8) ++ le64 size).length = 12 := by
    rw [List.length_append, length_le64]
    rfl
  rw [requestFrame, List.drop_left' hfront, Nat.add_sub_cancel, List.take_length]

/-- The offer reaches a receiver without a transfer. -/
theorem procmsg_request
    {answer : Answer} {c : FileChan} (hidle : c.recvState = .idle) (hsize : size < offMod)
    (hmax : name.length ≤ Proto.MAXFILENAMESIZE) (hvalid : validateFileName name = true) :
    procmsgFile (.fine answer) c (requestFrame size name) =
      let asked := { c with recvState := .waitAccept, recvSize := size, recvPos := 0 }
      match answer with
      | .accept =>
          .ok ({ asked with
            recvOpen := true
            recvData := []
            out := c.out ++ [shortFrame Proto.ACCEPTEDFILE 7 7]
            recvState := .receiving }, 1)
      | .later => .ok (asked, 1)
      | .refuse =>
          .ok ({ asked with
            recvState := .idle
            out := c.out ++ [shortFrame Proto.DENIEDFILE 7 7] }, 1) := by
  have hkind : byteAt (requestFrame size name) 0 = Proto.SENDFILEREQUEST := rfl
  rw [procmsgFile, hkind, if_pos rfl, procmsgSENDFILEREQUEST, if_neg (fun hn => hn hidle),
    load16_requestFrame hmax, if_neg (by omega), name_requestFrame, if_neg (by simp [hvalid]),
    load64_requestFrame hsize]
  cases answer with
  | accept => rfl
  | later => rfl
  | refuse => rfl

end Request

namespace FileLink

/-- Two ends without a transfer. -/
def idle (file : List UInt8) : FileLink :=
  ⟨.fresh, .fresh, [], [], file⟩

/-- The offer is on its way. -/
def offered (file name : List UInt8) : FileLink where
  snd := { FileChan.fresh with sendState := .sentReq, sendOpen := true, sendSize := file.length }
  rcv := .fresh
  toRcv := [requestFrame file.length name]
  toSnd := []
  file := file

/-- The user of the receiver has not decided. -/
def undecided (file : List UInt8) : FileLink where
  snd := { FileChan.fresh with sendState := .sentReq, sendOpen := true, sendSize := file.length }
  rcv := { FileChan.fresh with recvState := .waitAccept, recvSize := file.length }
  toRcv := []
  toSnd := []
  file := file

/-- What happens after the offer: the receiver accepts, at once or later, and only the
sender pauses and resumes. -/
def SenderOnly : FileEvent → Prop
  | .sendFile _ => False
  | .accept _ _ => True
  | .pause sending => sending = true
  | .resume sending => sending = true
  | .cancel _ => False
  | .fragment => True
  | .toReceiver answer => answer ≠ .refuse
  | .toSender => True

instance : DecidablePred SenderOnly
  | .sendFile _ => .isFalse id
  | .accept _ _ | .fragment | .toSender => .isTrue trivial
  | .pause _ | .resume _ => inferInstanceAs (Decidable (_ = _))
  | .cancel _ => .isFalse id
  | .toReceiver _ => inferInstanceAs (Decidable (_ ≠ _))

/-- A transfer that runs: no command of the receiver and no cancel is on its way, and
the receiver has counted the end if and only if it has the whole file. -/
structure Delivering (l : FileLink) : Prop where
  inv : l.Inv
  quiet : ∀ f ∈ l.toSnd, isControl f = false
  uncancelled : ∀ f ∈ l.toRcv, f ≠ ctlFrame Proto.CTL_CANCEL Proto.CTL_VOID
  pos_le : l.rcv.recvPos ≤ l.rcv.recvSize
  open_count : l.rcv.recvState ≠ .idle → l.rcv.finishedRecv = 0
  idle_count : l.rcv.recvState = .idle → l.rcv.finishedRecv = 1 ∧ l.rcv.recvData = l.file

/-- The stages of a transfer. -/
inductive Stage (file name : List UInt8) : FileLink → Prop
  | offered : Stage file name (offered file name)
  | undecided : Stage file name (undecided file)
  | delivering {l : FileLink} (hfile : l.file = file) (h : l.Delivering) : Stage file name l

variable {l : FileLink} {file name : List UInt8}

theorem accepted_delivering
    (r₀ r₁ : UInt8) (hsize : file.length < offMod) :
    (accepted file r₀ r₁).Delivering where
  inv := accepted_inv r₀ r₁ hsize
  quiet := by
    intro f hf
    rw [List.mem_singleton.mp hf]
    rfl
  uncancelled := nofun
  pos_le := Nat.zero_le _
  open_count := fun _ => rfl
  idle_count := nofun

/-- A step of the sender that pushes no cancel leaves the receiver alone. -/
theorem Delivering.sender_step
    {t : FileLink} (h : l.Delivering) (out : List Frame) (hinv : t.Inv)
    (hfile : t.file = l.file) (hrcv : t.rcv = l.rcv) (hsnd : ∀ f ∈ t.toSnd, f ∈ l.toSnd)
    (hout : t.toRcv = l.toRcv ++ out)
    (hcancel : ∀ f ∈ out, f ≠ ctlFrame Proto.CTL_CANCEL Proto.CTL_VOID) :
    t.Delivering := by
  refine ⟨hinv, fun f hf => h.quiet f (hsnd f hf), fun f hf => ?_, ?_, ?_, ?_⟩
  · rw [hout] at hf
    rcases List.mem_append.mp hf with hf | hf
    · exact h.uncancelled f hf
    · exact hcancel f hf
  · rw [hrcv]
    exact h.pos_le
  · rw [hrcv]
    exact h.open_count
  · rw [hrcv, hfile]
    exact h.idle_count

/-- At the end of the file the receiver has all of it. -/
theorem Inv.recvData_eq
    (h : l.Inv) (hidle : l.rcv.recvState = .idle) (hend : l.rcv.recvPos = l.rcv.recvSize) :
    l.rcv.recvData = l.file := by
  obtain ⟨s, r, hahead⟩ := h.ahead
  obtain ⟨-, rfl⟩ := done_ahead hahead.toRcv (by simp [FileChan.Receiving, hidle])
  rw [hahead.recvData, ← hahead.recvPos, hend, h.recvSize, List.take_length]

theorem Delivering.toReceiver
    (h : l.Delivering) (answer : Answer) :
    ∃ t, l.step (.toReceiver answer) = some t ∧ t.file = l.file ∧ t.Delivering := by
  obtain ⟨t, hstep, hinv, rfl | ⟨f, fs, hw, hrecv, ht⟩⟩ := h.inv.toReceiver answer
  · exact ⟨t, hstep, rfl, h⟩
  have hfile : t.file = l.file := by rw [ht]
  have hquiet : ∀ g ∈ t.toSnd, isControl g = false := by
    rw [ht]
    exact h.quiet
  have hcancel : ∀ g ∈ t.toRcv, g ≠ ctlFrame Proto.CTL_CANCEL Proto.CTL_VOID := by
    intro g hg
    rw [ht] at hg
    refine h.uncancelled g ?_
    rw [hw]
    exact List.mem_cons_of_mem f hg
  have hbusy : l.rcv.recvState ≠ .idle := by
    rcases hrecv.receiving with hs | hs <;> rw [hs] <;> decide
  have hzero := h.open_count hbusy
  have hdata := hinv.recvData_eq
  rw [hfile] at hdata
  have hfirst := h.uncancelled f (by rw [hw]; exact List.mem_cons_self)
  have hcount : t.rcv.recvPos ≤ t.rcv.recvSize ∧
      (t.rcv.recvState ≠ .idle → t.rcv.finishedRecv = 0) ∧
      (t.rcv.recvState = .idle → t.rcv.finishedRecv = 1 ∧ t.rcv.recvData = l.file) := by
    generalize t.rcv = c at hrecv hdata
    cases hrecv with
    | fragment data hne hmax hstate hpos =>
        by_cases hend : l.rcv.recvPos + data.length = l.rcv.recvSize
        · have hgot : l.rcv.gotFragment data = _ := if_pos hend
          rw [hgot] at hdata ⊢
          exact ⟨hpos, fun hn => absurd rfl hn, fun _ => ⟨by simp [hzero], hdata rfl hend⟩⟩
        · have hgot : l.rcv.gotFragment data = _ := if_neg hend
          rw [hgot]
          exact ⟨hpos, fun _ => hzero, fun hi => absurd hi hbusy⟩
    | pause hstate => exact ⟨h.pos_le, fun _ => hzero, nofun⟩
    | resume hstate => exact ⟨h.pos_le, fun _ => hzero, nofun⟩
    | cancel hstate => exact absurd rfl hfirst
  obtain ⟨hle, hopen, hidle⟩ := hcount
  exact ⟨t, hstep, hfile, hinv, hquiet, hcancel, hle, hopen, by rwa [hfile]⟩

/-- What is left of a file that is being sent is not empty. -/
theorem Inv.nextData_ne
    (h : l.Inv) (hne : l.file ≠ []) (hstate : l.snd.sendState = .sending) :
    l.nextData ≠ [] := by
  have hlen : 0 < l.file.length := List.length_pos_of_ne_nil hne
  have hmax : 0 < maxFragment := by decide
  have hleft := h.unfinished (by rw [hstate]; decide)
  refine List.ne_nil_of_length_pos ?_
  simp only [nextData, List.length_take, List.length_drop]
  omega

theorem fragment_ne_ctl {data : List UInt8} {x y : UInt8} : fragmentFrame data ≠ ctlFrame x y := by
  intro h
  have hkind : Proto.FILEFRAGMENT = Proto.FILECONTROL := congrArg (byteAt · 0) h
  exact absurd hkind (by decide)

theorem Delivering.step
    {e : FileEvent} (h : l.Delivering) (hne : l.file ≠ []) (he : SenderOnly e) :
    ∃ t, l.step e = some t ∧ t.file = l.file ∧ t.Delivering := by
  cases e with
  | sendFile path => exact he.elim
  | accept r₀ r₁ => exact ⟨l, h.inv.accept r₀ r₁, rfl, h⟩
  | pause sending =>
      cases he
      obtain ⟨t, hstep, hinv⟩ := h.inv.pause_sender fun _ => h.quiet
      refine ⟨t, hstep, ?_⟩
      cases hstep
      refine ⟨rfl, h.sender_step _ hinv rfl rfl (fun _ hf => hf) rfl fun f hf => ?_⟩
      rw [pauseFile, if_pos rfl] at hf
      split_ifs at hf
      · rw [h.inv.sndOut] at hf
        cases hf
      · simp only [sendFilecontrol, FileChan.push, if_true, h.inv.sndOut, List.nil_append,
          List.mem_singleton] at hf
        rw [hf]
        decide
  | resume sending =>
      cases he
      obtain ⟨t, hstep, hinv⟩ := h.inv.resume_sender fun _ => h.quiet
      refine ⟨t, hstep, ?_⟩
      cases hstep
      refine ⟨rfl, h.sender_step _ hinv rfl rfl (fun _ hf => hf) rfl fun f hf => ?_⟩
      rw [resumeFile, if_pos rfl] at hf
      split_ifs at hf
      · rw [h.inv.sndOut] at hf
        cases hf
      · simp only [sendFilecontrol, FileChan.push, if_true, h.inv.sndOut, List.nil_append,
          List.mem_singleton] at hf
        rw [hf]
        decide
  | cancel sending => exact he.elim
  | fragment =>
      by_cases hstate : l.snd.sendState = .sending
      · have hdata := h.inv.nextData_ne hne hstate
        have hinv := h.inv.fragment hstate hdata (fun f hf => by simp [isCancel, h.quiet f hf])
          fun _ => h.quiet
        refine ⟨_, step_fragment h.inv hstate hdata, rfl,
          h.sender_step _ hinv rfl rfl (fun _ hf => hf) rfl fun f hf => ?_⟩
        rw [sentFragment_out, h.inv.sndOut, List.nil_append, List.mem_singleton] at hf
        rw [hf]
        exact fragment_ne_ctl
      · exact ⟨l, step_fragment_idle h.inv.sndOut hstate, rfl, h⟩
  | toReceiver answer => exact h.toReceiver answer
  | toSender =>
      obtain ⟨t, hstep, hinv, ht⟩ := h.inv.toSender
      have hfile : t.file = l.file := by rw [ht]
      have hrcv : t.rcv = l.rcv := by rw [ht]
      refine ⟨t, hstep, hfile, h.sender_step [] hinv hfile hrcv (fun f hf => ?_) ?_ (List.forall_mem_nil _)⟩
      · rw [ht] at hf
        exact List.mem_of_mem_tail hf
      · rw [ht, List.append_nil]

/-- The offer leaves the sender. -/
theorem step_sendFile
    {path : List UInt8}
    (hsent : (sendFile true (.sized file.length) (some path) .fresh).2 = .ok) :
    (idle file).step (.sendFile path) = some (offered file (fileName path)) ∧
      (fileName path).length ≤ Proto.MAXFILENAMESIZE := by
  have hidle : ¬ FileChan.fresh.sendState ≠ .idle := fun hn => hn rfl
  rw [sendFile, if_neg hidle] at hsent
  by_cases hname : (fileName path).length = 0 ∨ Proto.MAXFILENAMESIZE < (fileName path).length
  · simp only [if_pos hname] at hsent
    cases hsent
  · refine ⟨?_, by omega⟩
    have hcall : sendFile true (.sized file.length) (some path) .fresh =
        ({ FileChan.fresh with
          sendState := .sentReq
          sendOpen := true
          sendSize := file.length
          out := [requestFrame file.length (fileName path)] }, .ok) := by
      rw [sendFile, if_neg hidle]
      simp only [if_neg hname]
      rfl
    simp only [step, idle, hcall]
    rfl

theorem step_offered
    {answer : Answer} (hsize : file.length < offMod)
    (hmax : name.length ≤ Proto.MAXFILENAMESIZE) (hvalid : validateFileName name = true) :
    (offered file name).step (.toReceiver answer) =
      match answer with
      | .accept => some (accepted file 7 7)
      | .later => some (undecided file)
      | .refuse => (offered file name).step (.toReceiver .refuse) := by
  cases answer with
  | accept =>
      simp only [step, offered, deliver, procmsg_request (c := .fresh) rfl hsize hmax hvalid]
      rfl
  | later =>
      simp only [step, offered, deliver, procmsg_request (c := .fresh) rfl hsize hmax hvalid]
      rfl
  | refuse => rfl

/-- One event after the offer. -/
theorem Stage.step
    {e : FileEvent}
    (hne : file ≠ []) (hsize : file.length < offMod)
    (hmax : name.length ≤ Proto.MAXFILENAMESIZE) (hvalid : validateFileName name = true)
    (h : Stage file name l) (he : SenderOnly e) :
    ∃ t, l.step e = some t ∧ Stage file name t := by
  cases h with
  | offered =>
      cases e with
      | sendFile path => exact he.elim
      | cancel sending => exact he.elim
      | accept r₀ r₁ => exact ⟨_, rfl, .offered⟩
      | pause sending => cases he; exact ⟨_, rfl, .offered⟩
      | resume sending => cases he; exact ⟨_, rfl, .offered⟩
      | fragment => exact ⟨_, rfl, .offered⟩
      | toSender => exact ⟨_, rfl, .offered⟩
      | toReceiver answer =>
          rw [step_offered hsize hmax hvalid]
          cases answer with
          | accept => exact ⟨_, rfl, .delivering rfl (accepted_delivering 7 7 hsize)⟩
          | later => exact ⟨_, rfl, .undecided⟩
          | refuse => exact absurd rfl he
  | undecided =>
      cases e with
      | sendFile path => exact he.elim
      | cancel sending => exact he.elim
      | accept r₀ r₁ => exact ⟨_, rfl, .delivering rfl (accepted_delivering r₀ r₁ hsize)⟩
      | pause sending => cases he; exact ⟨_, rfl, .undecided⟩
      | resume sending => cases he; exact ⟨_, rfl, .undecided⟩
      | fragment => exact ⟨_, rfl, .undecided⟩
      | toSender => exact ⟨_, rfl, .undecided⟩
      | toReceiver answer => exact ⟨_, rfl, .undecided⟩
  | delivering hfile h =>
      obtain ⟨t, hstep, ht, hdel⟩ := h.step (hfile ▸ hne) he
      exact ⟨t, hstep, .delivering (ht.trans hfile) hdel⟩

/-- The sender is done and nothing is on its way. -/
theorem Delivering.over
    (h : l.Delivering) (hidle : l.snd.sendState = .idle) (hr : l.toRcv = []) (hs : l.toSnd = []) :
    l.rcv.recvState = .idle ∧ l.rcv.recvOpen = false ∧ l.snd.sendOpen = false := by
  obtain ⟨s, r, hahead⟩ := h.inv.ahead
  have hsnd := hahead.toSnd
  have hrcv := hahead.toRcv
  rw [hs] at hsnd
  rw [hr] at hrcv
  cases hsnd
  cases hrcv
  have hfit := hahead.fit
  rw [hidle] at hfit
  have hover : l.rcv.recvState = .idle := by
    generalize l.rcv.recvState = x at hfit
    cases hfit
    rfl
  refine ⟨hover, ?_, ?_⟩
  · by_contra hopen
    have hrecv := h.inv.rcvAgree.recv.mp (by simpa using hopen)
    simp [hover] at hrecv
  · by_contra hopen
    have hsend := h.inv.sndAgree.send.mp (by simpa using hopen)
    simp [hidle] at hsend

end FileLink

/-- **The file arrives.**  Nothing that is delivered is refused, the receiver never goes
beyond the size, it counts the end once and with the whole file, and when the sender is
done and everything has been delivered both ends are back where they started. -/
theorem file_arrives
    (file path : List UInt8) (es : List FileEvent)
    (hne : file ≠ []) (hsize : file.length < offMod)
    (hsent : (sendFile true (.sized file.length) (some path) .fresh).2 = .ok)
    (hvalid : validateFileName (fileName path) = true)
    (hes : ∀ e ∈ es, FileLink.SenderOnly e) :
    ∃ l, run FileLink.step (FileLink.idle file) (.sendFile path :: es) = some l ∧
      l.rcv.recvPos ≤ l.rcv.recvSize ∧
      l.rcv.finishedRecv ≤ 1 ∧
      (l.rcv.finishedRecv = 1 → l.rcv.recvData = file) ∧
      (l.snd.sendState = .idle → l.toRcv = [] → l.toSnd = [] →
        l.rcv.finishedRecv = 1 ∧ l.rcv.recvState = .idle ∧
          l.rcv.recvOpen = false ∧ l.snd.sendOpen = false) := by
  obtain ⟨hstart, hmax⟩ := FileLink.step_sendFile hsent
  have hmeets : Meets FileLink.step (fun _ e => FileLink.SenderOnly e)
      (FileLink.offered file (fileName path)) es := meets_of_forall hes
  obtain ⟨l, hrun, hstage⟩ := run_progress
    (fun _ _ h he => FileLink.Stage.step hne hsize hmax hvalid h he) .offered hmeets
  refine ⟨l, by rw [run, hstart]; exact hrun, ?_⟩
  cases hstage with
  | offered => exact ⟨Nat.zero_le _, Nat.zero_le _, (by rintro ⟨⟩), (by rintro ⟨⟩)⟩
  | undecided => exact ⟨Nat.zero_le _, Nat.zero_le _, (by rintro ⟨⟩), (by rintro ⟨⟩)⟩
  | delivering hfile h =>
      by_cases hidle : l.rcv.recvState = .idle
      · obtain ⟨hone, hdata⟩ := h.idle_count hidle
        refine ⟨h.pos_le, Nat.le_of_eq hone, fun _ => hdata.trans hfile, fun hi hr hs => ?_⟩
        exact ⟨hone, h.over hi hr hs⟩
      · have hzero := h.open_count hidle
        refine ⟨h.pos_le, by omega, fun hone => absurd hone (by omega), fun hi hr hs => ?_⟩
        exact absurd (h.over hi hr hs).1 hidle

/-- A file of two fragments with a pause between them. -/
theorem file_arrives_two :
    ∃ l, run FileLink.step (FileLink.idle (List.replicate 50000 1))
        [.sendFile [0x61], .toReceiver .later, .accept 3 4, .toSender, .fragment, .pause true,
          .toReceiver .later, .resume true, .fragment, .toReceiver .later, .toReceiver .later,
          .toReceiver .later] = some l ∧
      l.rcv.recvPos ≤ l.rcv.recvSize ∧
      l.rcv.finishedRecv ≤ 1 ∧
      (l.rcv.finishedRecv = 1 → l.rcv.recvData = List.replicate 50000 1) ∧
      (l.snd.sendState = .idle → l.toRcv = [] → l.toSnd = [] →
        l.rcv.finishedRecv = 1 ∧ l.rcv.recvState = .idle ∧
          l.rcv.recvOpen = false ∧ l.snd.sendOpen = false) :=
  file_arrives (List.replicate 50000 1) [0x61] _
    (List.ne_nil_of_length_pos (by rw [List.length_replicate]; decide))
    (by rw [List.length_replicate]; decide) (by decide +kernel) (by decide) (by decide)

end Client
end PicaPica
