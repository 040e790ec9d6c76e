import PicaPica.Client.Channel
import PicaPica.Msgproc
import PicaPica.Lib.Run

/-!
# Two clients joined by a connection through the node and a direct one

Both clients push messages, write and read in any order.  What `SSL_write` takes on
one side arrives on the other side in order and unchanged, with any delay, on each
of the two connections separately.

A party records the messages it has pushed and the messages its handlers were
called with.  The invariant splits the pushed messages at the switch message: the
first part is what the node connection has carried and what the write buffer still
holds for it, the second part the same for the direct connection.  On the other
side the bytes read are the messages handled followed by a proper part of the next
one.
-/

namespace PicaPica
namespace Client

open Area Framing

/-- One of the two clients. -/
inductive Side
  | a
  | b
deriving DecidableEq

def Side.other : Side → Side
  | .a => .b
  | .b => .a

@[simp] theorem Side.other_other (s : Side) : s.other.other = s := by
  cases s <;> rfl

theorem Side.other_ne (s : Side) : s.other ≠ s := by
  cases s <;> decide

theorem Side.eq_or (s r : Side) : r = s ∨ r = s.other := by
  cases s <;> cases r <;> decide

/-- A channel with the application behind it.  `others` is what the handlers of the
messages not modelled here work on. -/
structure Party (φ : Type) where
  chn : C2c
  others : φ
  /-- `RAND_pseudo_bytes` -/
  rnd : Nat → UInt8
  rndPos : Nat
  /-- messages placed in the write buffer so far -/
  pushed : List Frame
  /-- messages given to `newmsg_cb` -/
  newmsg : List (List UInt8)
  /-- calls of `msgok_cb` -/
  msgok : Nat

/-- The handlers of the other messages (file transfer, channel set-up): the new
application state, the messages they push, and the value they return. -/
abbrev Others (φ : Type) := φ → Frame → φ × List Frame × Nat

variable {φ : Type}

namespace Party

/-- Place a message; no result if that fails. -/
def push (mem : Memory) (p : Party φ) (f : Frame) : Option (Party φ) :=
  match c2cWritebufPush mem p.chn f with
  | some (chn, true) => some { p with chn := chn, pushed := p.pushed ++ [f] }
  | _ => none

def pushAll (mem : Memory) : Party φ → List Frame → Option (Party φ)
  | p, [] => some p
  | p, f :: fs => (p.push mem f).bind fun t => pushAll mem t fs

/-- The bytes read and not handled yet. -/
def left (p : Party φ) : List UInt8 :=
  p.chn.readBuf.take p.chn.readPos

end Party

section Handlers

variable (mem : Memory) (rcv : Others φ)

/-- `procmsg_MSGUTF8`. -/
def procmsgMSGUTF8 (p : Party φ) (buf : Frame) : Party φ × Nat :=
  if p.chn.state ≠ .active then (p, 0)
  else
    let told := { p with newmsg := p.newmsg ++ [buf.drop 4] }
    match told.push mem (shortFrame Proto.MSGOK (p.rnd p.rndPos) (p.rnd (p.rndPos + 1))) with
    | some t => ({ t with rndPos := t.rndPos + 2 }, 1)
    | none => (told, 0)

/-- `procmsg_MSGOK`. -/
def procmsgMSGOK (p : Party φ) (_ : Frame) : Party φ × Nat :=
  ({ p with msgok := p.msgok + 1 }, 1)

/-- `procmsg_PICA_PROTO_DIRECTC2C_SWITCH` goes on only under this condition. -/
def C2c.SwitchAllowed (chn : C2c) : Prop :=
  chn.config ≠ .disabled ∧ (chn.directState = .active ∨ chn.directState = .connecting)

instance (chn : C2c) : Decidable chn.SwitchAllowed :=
  inferInstanceAs (Decidable (_ ∧ _))

/-- `procmsg_PICA_PROTO_DIRECTC2C_SWITCH`. -/
def procmsgDIRECTC2CSWITCH (p : Party φ) (_ : Frame) : Party φ × Nat :=
  if p.chn.SwitchAllowed then ({ p with chn := { p.chn with switchedRead := true } }, 1)
  else (p, 0)

/-- A handler of one of the other messages. -/
def procmsgOther (p : Party φ) (buf : Frame) : Party φ × Nat :=
  let r := rcv p.others buf
  match { p with others := r.1 }.pushAll mem r.2.1 with
  | some t => (t, r.2.2)
  | none => ({ p with others := r.1 }, 0)

/-- `c2c_messages`. -/
def c2cMessages : List (MsgInfo (Party φ)) :=
  [⟨Proto.MSGUTF8, .varSize, 2, procmsgMSGUTF8 mem, sz_int16⟩,
   ⟨Proto.MSGOK, .fixedSize, 4, procmsgMSGOK, sz_four⟩,
   ⟨Proto.SENDFILEREQUEST, .varSize, 2, procmsgOther mem rcv, sz_int16⟩,
   ⟨Proto.ACCEPTEDFILE, .fixedSize, 4, procmsgOther mem rcv, sz_four⟩,
   ⟨Proto.DENIEDFILE, .fixedSize, 4, procmsgOther mem rcv, sz_four⟩,
   ⟨Proto.FILEFRAGMENT, .varSize, 2, procmsgOther mem rcv, sz_int16⟩,
   ⟨Proto.FILECONTROL, .fixedSize, 4, procmsgOther mem rcv, sz_four⟩,
   ⟨Proto.DIRECTC2C_ADDRLIST, .varSize, 2, procmsgOther mem rcv, sz_int16⟩,
   ⟨Proto.DIRECTC2C_FAILED, .fixedSize, 4, procmsgOther mem rcv, sz_four⟩,
   ⟨Proto.DIRECTC2C_SWITCH, .fixedSize, 4, procmsgDIRECTC2CSWITCH, sz_four⟩,
   ⟨Proto.C2CCONNREQ, .fixedSize, 4, procmsgOther mem rcv, sz_four⟩,
   ⟨Proto.INITRESPOK, .fixedSize, 4, procmsgOther mem rcv, sz_four⟩,
   ⟨Proto.VERDIFFER, .fixedSize, 4, procmsgOther mem rcv, sz_four⟩]

/-- The party after `PICA_read_c2c`, its result, the number of bytes read and the
messages the handlers were called with. -/
structure C2cRead (φ : Type) where
  party : Party φ
  ret : Code
  count : Nat
  calls : List Frame

/-- `PICA_read_c2c`; in other states the program exits. -/
def readC2c (p : Party φ) (r : SslRead) : Option (C2cRead φ) :=
  if p.chn.state = .waitingRep ∨ p.chn.state = .waitingC2cProtoVer ∨ p.chn.state = .active then
    let (buf, pos, ret) := readSsl r p.chn.readBuf p.chn.readPos chanReadBufSize
    if ret = .ok then
      let s := processdatastream (c2cMessages mem rcv) pos buf pos p
      some {
        party := { s.arg with chn := { s.arg.chn with readBuf := s.buf, readPos := s.readPos } }
        ret := if s.ret = 0 then .errServ else .ok
        count := pos - p.chn.readPos
        calls := s.calls }
    else some ⟨p, ret, 0, []⟩
  else none

end Handlers

/-- A party and what has passed between it and its connections. -/
structure Endpoint (φ : Type) where
  party : Party φ
  /-- messages passed to `PICA_send_msg` -/
  sent : List (List UInt8)
  /-- messages the handlers were called with -/
  calls : List Frame
  /-- bytes `SSL_write` has taken on each connection -/
  nodeOut : List UInt8
  directOut : List UInt8
  /-- number of bytes `SSL_read` has returned on each connection -/
  nodeIn : Nat
  directIn : Nat

/-- What a client can do. -/
inductive Event
  /-- a message from any other part of the client -/
  | push (f : Frame)
  | sendMsg (m : List UInt8)
  /-- the direct connection is up on this side: `PICA_send_directc2c_switch` -/
  | sendSwitch (r₀ r₁ : UInt8)
  /-- the connecting side notices that the direct connection is active -/
  | established
  | write (r : SslWrite)
  /-- `PICA_read_c2c` with at most `n` bytes arriving -/
  | read (n : Nat)
deriving DecidableEq

namespace Endpoint

/-- The bytes a read returns: those sent on the current connection and not read yet,
`n` of them at most and not more than the buffer has room for. -/
def incoming (me : Endpoint φ) (node direct : List UInt8) (n : Nat) : List UInt8 :=
  let k := min n (chanReadBufSize - me.party.chn.readPos)
  if me.party.chn.switchedRead then (direct.drop me.directIn).take k
  else (node.drop me.nodeIn).take k

/-- `process_directc2c` after the switch message has been queued: an accepted
connection becomes active at once, an outgoing one in the next pass. -/
def afterSwitchSent (chn : C2c) : C2c :=
  if chn.directState = .waitingIncoming then { chn with directState := .active } else chn

/-- One action of a client whose peer has sent `node` and `direct`.  There is no
result when a push fails or the connection is closed. -/
def step (rcv : Others φ) (me : Endpoint φ) (node direct : List UInt8) :
    Event → Option (Endpoint φ)
  | .push f => (me.party.push .enough f).map fun p => { me with party := p }
  | .sendMsg m =>
      match Client.sendMsg .enough me.party.chn m with
      | some (chn, .ok) =>
          some { me with
            party := { me.party with chn := chn, pushed := me.party.pushed ++ [msgFrame m] }
            sent := me.sent ++ [m] }
      | _ => none
  | .sendSwitch r₀ r₁ =>
      match sendDirectc2cSwitch .enough me.party.chn r₀ r₁ with
      | some (chn, .ok) =>
          some { me with
            party := { me.party with
              chn := afterSwitchSent chn
              pushed := me.party.pushed ++ [shortFrame Proto.DIRECTC2C_SWITCH r₀ r₁] } }
      | _ => none
  | .established =>
      if me.party.chn.directState = .connecting then
        some { me with party := { me.party with chn := { me.party.chn with directState := .active } } }
      else some me
  | .write r =>
      match writeC2c r me.party.chn with
      | some w =>
          if w.ret = .ok ∧ w.closed = false then
            some { me with
              party := { me.party with chn := w.chn }
              nodeOut := me.nodeOut ++ w.node
              directOut := me.directOut ++ w.direct }
          else none
      | none => none
  | .read n =>
      let bytes := me.incoming node direct n
      match readC2c .enough rcv me.party (if bytes = [] then .retry else .data bytes) with
      | some r =>
          if r.ret = .ok then
            some { me with
              party := r.party
              calls := me.calls ++ r.calls
              nodeIn := if me.party.chn.switchedRead then me.nodeIn else me.nodeIn + r.count
              directIn := if me.party.chn.switchedRead then me.directIn + r.count
                else me.directIn }
          else none
      | none => none

end Endpoint

/-- Both clients. -/
abbrev Duplex (φ : Type) := Side → Endpoint φ

/-- One of the clients acts. -/
def Duplex.step (rcv : Others φ) (d : Duplex φ) (e : Side × Event) : Option (Duplex φ) :=
  ((d e.1).step rcv (d e.1.other).nodeOut (d e.1.other).directOut e.2).map
    (Function.update d e.1)

section Split

/-- The frame is a switch message. -/
def isSwitch (f : Frame) : Bool :=
  byteAt f 0 == Proto.DIRECTC2C_SWITCH

/-- The messages up to and including the first switch message. -/
def upToSwitch : List Frame → List Frame
  | [] => []
  | f :: fs => if isSwitch f then [f] else f :: upToSwitch fs

/-- The messages behind the first switch message. -/
def afterSwitch : List Frame → List Frame
  | [] => []
  | f :: fs => if isSwitch f then fs else afterSwitch fs

variable {fs gs : List Frame}

theorem upToSwitch_append_afterSwitch (fs : List Frame) :
    upToSwitch fs ++ afterSwitch fs = fs := by
  induction fs with
  | nil => rfl
  | cons f fs ih =>
      simp only [upToSwitch, afterSwitch]
      split_ifs
      · rfl
      · rw [List.cons_append, ih]

theorem upToSwitch_of_none (h : fs.any isSwitch = false) : upToSwitch fs = fs := by
  induction fs with
  | nil => rfl
  | cons f fs ih =>
      obtain ⟨hf, hfs⟩ := Bool.or_eq_false_iff.mp h
      simp [upToSwitch, hf, ih hfs]

theorem afterSwitch_of_none (h : fs.any isSwitch = false) : afterSwitch fs = [] := by
  induction fs with
  | nil => rfl
  | cons f fs ih =>
      obtain ⟨hf, hfs⟩ := Bool.or_eq_false_iff.mp h
      simp [afterSwitch, hf, ih hfs]

theorem upToSwitch_append (h : fs.any isSwitch = true) :
    upToSwitch (fs ++ gs) = upToSwitch fs := by
  induction fs with
  | nil => cases h
  | cons f fs ih =>
      simp only [List.cons_append, upToSwitch]
      split_ifs with hf
      · rfl
      · rw [ih (by simpa [hf] using h)]

theorem afterSwitch_append (h : fs.any isSwitch = true) :
    afterSwitch (fs ++ gs) = afterSwitch fs ++ gs := by
  induction fs with
  | nil => cases h
  | cons f fs ih =>
      simp only [List.cons_append, afterSwitch]
      split_ifs with hf
      · rfl
      · rw [ih (by simpa [hf] using h)]

/-- The switch message is the last of its part. -/
theorem upToSwitch_concat {f : Frame} (h : fs.any isSwitch = false) (hf : isSwitch f = true) :
    upToSwitch (fs ++ [f]) = fs ++ [f] ∧ afterSwitch (fs ++ [f]) = [] := by
  induction fs with
  | nil => simp [upToSwitch, afterSwitch, hf]
  | cons g fs ih =>
      obtain ⟨hg, hfs⟩ := Bool.or_eq_false_iff.mp h
      simp [upToSwitch, afterSwitch, hg, ih hfs]

end Split

section Sending

variable (rcv : Others φ)

/-- A message the peer's table measures as complete and whose buffer can hold it. -/
def Sendable (f : Frame) : Prop :=
  f ≠ [] ∧ sizer (c2cMessages .enough rcv) f = f.length ∧ f.length ≤ chanReadBufSize

instance (f : Frame) : Decidable (Sendable rcv f) :=
  inferInstanceAs (Decidable (_ ∧ _ ∧ _))

variable {rcv}

theorem sendable_of_length
    {f : Frame} {n : Nat}
    (hsize : sizer (c2cMessages .enough rcv) f = n) (hlen : f.length = n)
    (hpos : 0 < n) (hmax : n ≤ chanReadBufSize) :
    Sendable rcv f := by
  refine ⟨?_, by rw [hsize, hlen], by rw [hlen]; exact hmax⟩
  rintro rfl
  exact absurd hlen.symm (Nat.ne_of_gt hpos)

theorem sendable_shortFrame_ok (r₀ r₁ : UInt8) :
    Sendable rcv (shortFrame Proto.MSGOK r₀ r₁) :=
  ⟨by simp [shortFrame, head], rfl, show 4 ≤ chanReadBufSize by decide⟩

theorem sendable_shortFrame_switch (r₀ r₁ : UInt8) :
    Sendable rcv (shortFrame Proto.DIRECTC2C_SWITCH r₀ r₁) :=
  ⟨by simp [shortFrame, head], rfl, show 4 ≤ chanReadBufSize by decide⟩

theorem length_msgFrame (m : List UInt8) : (msgFrame m).length = m.length + 4 := by
  simp only [msgFrame, List.length_append, length_head, length_le16]
  omega

/-- The largest text message fills the buffer of the receiver exactly. -/
theorem sendable_msgFrame
    {m : List UInt8} (h : m.length ≤ Proto.C2CMSG_MAXDATASIZE) :
    Sendable rcv (msgFrame m) := by
  have hmax : m.length < 65536 := Nat.lt_of_le_of_lt h (by decide)
  have htail : tailLen (msgFrame m) 2 = m.length := by
    have : ((msgFrame m).drop 2).take 2 = le16 m.length := by simp [msgFrame, head, le16]
    rw [tailLen, this, leNat_le16 hmax]
  have h0 : byteAt (msgFrame m) 0 = Proto.MSGUTF8 := rfl
  have h1 : byteAt (msgFrame m) 1 = Proto.MSGUTF8 := rfl
  refine sendable_of_length ?_ (length_msgFrame m) (by omega) (Nat.add_le_add_right h 4)
  have hlen := length_msgFrame m
  rw [sizer, msggetsize, if_neg (by omega), if_neg (by rw [h0, h1]; simp)]
  simp only [c2cMessages, msggetsizeScan, h0]
  rw [if_pos (by decide), if_pos (by omega), htail]
  omega

/-- What has left the party and what its write buffer holds are the messages pushed:
up to the switch through the node, behind it directly. -/
structure Sending (rcv : Others φ) (p : Party φ) (nodeOut directOut : List UInt8) : Prop where
  writeOk : p.chn.WriteOk
  state : p.chn.state = .active
  disconnect : p.chn.disconnectOnEmptyWriteBuf = false
  diverted : p.chn.Diverted ↔ p.pushed.any isSwitch = true
  node : nodeOut ++ p.chn.toNode = (upToSwitch p.pushed).flatten
  direct : directOut ++ p.chn.toDirect = (afterSwitch p.pushed).flatten
  sendable : ∀ f ∈ p.pushed, Sendable rcv f

variable {p t : Party φ} {nodeOut directOut : List UInt8} {f : Frame}

theorem Sending.no_switch
    (h : Sending rcv p nodeOut directOut) (hd : ¬ p.chn.Diverted) :
    p.pushed.any isSwitch = false :=
  Bool.eq_false_iff.mpr fun hany => hd (h.diverted.mpr hany)

theorem Sending.nothing_queued
    (h : Sending rcv p nodeOut directOut) (hempty : p.chn.writePos = 0) :
    p.chn.toNode = [] ∧ p.chn.toDirect = [] := by
  have hbar : p.chn.barrier = 0 := Nat.le_zero.mp (hempty ▸ h.writeOk.barrier_le)
  constructor
  · simp [C2c.toNode, C2c.nodeEnd, hbar, hempty]
  · simp [C2c.toDirect, C2c.queued, hempty]

theorem Sending.push
    (h : Sending rcv p nodeOut directOut)
    (hsend : Sendable rcv f) (hplain : isSwitch f = false)
    (hroom : p.chn.writePos + f.length < uintMod) :
    ∃ t, p.push .enough f = some t ∧ Sending rcv t nodeOut directOut ∧
      C2c.Kept p.chn t.chn ∧ t.chn.writePos = p.chn.writePos + f.length ∧
      t = { p with chn := t.chn, pushed := p.pushed ++ [f] } := by
  obtain ⟨chn, hpush, hp, -⟩ := c2cWritebufPush_spec (f := f) h.writeOk hroom
  refine ⟨{ p with chn := chn, pushed := p.pushed ++ [f] }, by rw [Party.push, hpush],
    ⟨hp.writeOk, hp.kept.state.trans h.state, hp.kept.disconnect.trans h.disconnect, ?_, ?_, ?_, ?_⟩,
    hp.kept, hp.writePos, rfl⟩
  · rw [hp.diverted, h.diverted]
    simp [hplain]
  · rw [hp.toNode]
    by_cases hd : p.chn.Diverted
    · rw [if_pos hd, h.node, upToSwitch_append (h.diverted.mp hd)]
    · have hnone := h.no_switch hd
      rw [if_neg hd, ← List.append_assoc, h.node, upToSwitch_of_none hnone,
        upToSwitch_of_none (by simp only [List.any_append, hnone]; simp [hplain])]
      simp
  · rw [hp.toDirect]
    by_cases hd : p.chn.Diverted
    · rw [if_pos hd, ← List.append_assoc, h.direct, afterSwitch_append (h.diverted.mp hd)]
      simp
    · have hnone := h.no_switch hd
      have hdir := h.direct
      rw [afterSwitch_of_none hnone, List.flatten_nil, List.append_eq_nil_iff] at hdir
      rw [if_neg hd, afterSwitch_of_none (by simp only [List.any_append, hnone]; simp [hplain]),
        hdir.1]
      rfl
  · intro g hg
    rcases List.mem_append.mp hg with hg | hg
    · exact h.sendable g hg
    · exact List.mem_singleton.mp hg ▸ hsend

theorem Sending.pushAll
    {fs : List Frame}
    (h : Sending rcv p nodeOut directOut)
    (hfs : ∀ f ∈ fs, Sendable rcv f ∧ isSwitch f = false)
    (hroom : p.chn.writePos + fs.flatten.length < uintMod) :
    ∃ t, p.pushAll .enough fs = some t ∧ Sending rcv t nodeOut directOut ∧
      C2c.Kept p.chn t.chn ∧ t.chn.writePos = p.chn.writePos + fs.flatten.length ∧
      t = { p with chn := t.chn, pushed := p.pushed ++ fs } := by
  induction fs generalizing p with
  | nil => exact ⟨p, rfl, h, ⟨rfl, rfl, rfl, rfl, rfl, rfl, rfl⟩, rfl, by simp⟩
  | cons f fs ih =>
      obtain ⟨hf, hplain⟩ := hfs f List.mem_cons_self
      rw [List.flatten_cons, List.length_append] at hroom ⊢
      obtain ⟨u, hpush, hu, hkept, hpos, hueq⟩ := h.push hf hplain (by omega)
      obtain ⟨t, hall, ht, hkept', hpos', hteq⟩ :=
        ih hu (fun g hg => hfs g (List.mem_cons_of_mem f hg)) (by omega)
      refine ⟨t, by rw [Party.pushAll, hpush]; exact hall, ht, ?_, by omega, ?_⟩
      · exact ⟨hkept'.state.trans hkept.state, hkept'.directState.trans hkept.directState,
          hkept'.config.trans hkept.config, hkept'.readBuf.trans hkept.readBuf,
          hkept'.readPos.trans hkept.readPos, hkept'.switchedRead.trans hkept.switchedRead,
          hkept'.disconnect.trans hkept.disconnect⟩
      · rw [hteq, hueq]
        simp

end Sending

section Handling

variable (rcv : Others φ)

/-- How many bytes the handlers of these messages push, if none of them refuses. -/
def answers : φ → List Frame → Option Nat
  | _, [] => some 0
  | s, f :: fs =>
      if byteAt f 0 = Proto.MSGUTF8 then (answers s fs).map (4 + ·)
      else if byteAt f 0 = Proto.MSGOK ∨ byteAt f 0 = Proto.DIRECTC2C_SWITCH then answers s fs
      else
        let r := rcv s f
        if r.2.2 ≠ 0 ∧ ∀ g ∈ r.2.1, Sendable rcv g ∧ isSwitch g = false then
          (answers r.1 fs).map (r.2.1.flatten.length + ·)
        else none

variable {rcv} {p t u : Party φ} {nodeOut directOut : List UInt8} {f : Frame} {fs : List Frame}

/-- The handlers of a table of sendable messages by their first byte. -/
theorem processmsg_kind (hf : Sendable rcv f) :
    (byteAt f 0 = Proto.MSGUTF8 ∧
      ∀ p, processmsg f f.length p (c2cMessages .enough rcv) = procmsgMSGUTF8 .enough p f) ∨
    (byteAt f 0 = Proto.MSGOK ∧
      ∀ p, processmsg f f.length p (c2cMessages .enough rcv) = procmsgMSGOK p f) ∨
    (byteAt f 0 = Proto.DIRECTC2C_SWITCH ∧
      ∀ p, processmsg f f.length p (c2cMessages .enough rcv) = procmsgDIRECTC2CSWITCH p f) ∨
    (byteAt f 0 ≠ Proto.MSGUTF8 ∧ byteAt f 0 ≠ Proto.MSGOK ∧
      byteAt f 0 ≠ Proto.DIRECTC2C_SWITCH ∧
      ∀ p, processmsg f f.length p (c2cMessages .enough rcv) = procmsgOther .enough rcv p f) := by
  obtain ⟨m, hm, hid, hcall⟩ := processmsg_entry hf.2.1
  have hcases := hm
  simp only [c2cMessages, List.mem_cons, List.not_mem_nil, or_false] at hcases
  rcases hcases with rfl | rfl | rfl | rfl | rfl | rfl | rfl | rfl | rfl | rfl | rfl | rfl | rfl
  case inl => exact .inl ⟨hid, hcall⟩
  case inr.inl => exact .inr (.inl ⟨hid, hcall⟩)
  case inr.inr.inr.inr.inr.inr.inr.inr.inr.inl => exact .inr (.inr (.inl ⟨hid, hcall⟩))
  all_goals
    refine .inr (.inr (.inr ⟨?_, ?_, ?_, hcall⟩)) <;>
    · simp only [hid]
      decide

/-- What handling messages leaves as it was, and what it does to the read side. -/
structure Handled (p : Party φ) (fs : List Frame) (t : Party φ) : Prop where
  directState : t.chn.directState = p.chn.directState
  config : t.chn.config = p.chn.config
  readBuf : t.chn.readBuf = p.chn.readBuf
  readPos : t.chn.readPos = p.chn.readPos
  switchedRead : t.chn.switchedRead = (p.chn.switchedRead || fs.any isSwitch)
  pushed : p.pushed <+: t.pushed

theorem Handled.trans
    {gs : List Frame}
    (h : Handled p fs t) (h' : Handled t gs u) :
    Handled p (fs ++ gs) u where
  directState := h'.directState.trans h.directState
  config := h'.config.trans h.config
  readBuf := h'.readBuf.trans h.readBuf
  readPos := h'.readPos.trans h.readPos
  switchedRead := by rw [h'.switchedRead, h.switchedRead, List.any_append, Bool.or_assoc]
  pushed := h.pushed.trans h'.pushed

theorem Handled.of_kept
    (h : C2c.Kept p.chn t.chn) (hp : p.pushed <+: t.pushed) (hf : isSwitch f = false) :
    Handled p [f] t where
  directState := h.directState
  config := h.config
  readBuf := h.readBuf
  readPos := h.readPos
  switchedRead := by rw [h.switchedRead]; simp [hf]
  pushed := hp

/-- One message is handled: the replies are pushed and nothing else changes on the
write side. -/
theorem handler_accepts
    {k : Nat}
    (h : Sending rcv p nodeOut directOut) (hf : Sendable rcv f)
    (hswitch : isSwitch f = true → p.chn.SwitchAllowed)
    (hans : answers rcv p.others (f :: fs) = some k)
    (hroom : p.chn.writePos + k < uintMod) :
    ∃ t j, handler (c2cMessages .enough rcv) p f = (t, true) ∧
      Sending rcv t nodeOut directOut ∧ Handled p [f] t ∧
      answers rcv t.others fs = some j ∧ t.chn.writePos + j = p.chn.writePos + k := by
  rcases processmsg_kind hf with ⟨hid, hcall⟩ | ⟨hid, hcall⟩ | ⟨hid, hcall⟩ | ⟨h1, h2, h3, hcall⟩
  · -- a text message is answered by MSGOK
    have hns : isSwitch f = false := by simp [isSwitch, hid]; decide
    rw [answers, if_pos hid, Option.map_eq_some_iff] at hans
    obtain ⟨j, hj, rfl⟩ := hans
    let told : Party φ := { p with newmsg := p.newmsg ++ [f.drop 4] }
    have htold : Sending rcv told nodeOut directOut :=
      ⟨h.writeOk, h.state, h.disconnect, h.diverted, h.node, h.direct, h.sendable⟩
    have hlen : (shortFrame Proto.MSGOK (p.rnd p.rndPos) (p.rnd (p.rndPos + 1))).length = 4 := rfl
    obtain ⟨t, hpush, ht, hkept, hpos, hteq⟩ :=
      htold.push (sendable_shortFrame_ok (p.rnd p.rndPos) (p.rnd (p.rndPos + 1))) rfl
        (by rw [hlen]; show p.chn.writePos + 4 < uintMod; omega)
    refine ⟨{ t with rndPos := t.rndPos + 2 }, j, ?_, ?_, ?_, ?_, ?_⟩
    · rw [handler, hcall, procmsgMSGUTF8, if_neg (fun hn => hn h.state)]
      simp only [told] at hpush
      simp only [hpush]
      rfl
    · exact ⟨ht.writeOk, ht.state, ht.disconnect, ht.diverted, ht.node, ht.direct, ht.sendable⟩
    · refine Handled.of_kept hkept ?_ hns
      rw [hteq]
      exact List.prefix_append _ _
    · rw [hteq]
      exact hj
    · rw [hpos, hlen]
      exact Nat.add_assoc _ _ _
  · have hns : isSwitch f = false := by simp [isSwitch, hid]; decide
    rw [answers, if_neg (by rw [hid]; decide), if_pos (Or.inl hid)] at hans
    refine ⟨{ p with msgok := p.msgok + 1 }, k, ?_, ?_, ?_, hans, rfl⟩
    · rw [handler, hcall]
      rfl
    · exact ⟨h.writeOk, h.state, h.disconnect, h.diverted, h.node, h.direct, h.sendable⟩
    · exact Handled.of_kept ⟨rfl, rfl, rfl, rfl, rfl, rfl, rfl⟩ (List.prefix_refl _) hns
  · have hs : isSwitch f = true := by simp [isSwitch, hid]
    rw [answers, if_neg (by rw [hid]; decide), if_pos (Or.inr hid)] at hans
    refine ⟨{ p with chn := { p.chn with switchedRead := true } }, k, ?_, ?_, ?_, hans, rfl⟩
    · rw [handler, hcall, procmsgDIRECTC2CSWITCH, if_pos (hswitch hs)]
      rfl
    · have hw := h.writeOk
      exact ⟨⟨hw.pos_le, hw.len_lt, hw.barrier_le, hw.before_le, hw.no_barrier, hw.btw_le,
        hw.btw_lt⟩, h.state, h.disconnect, h.diverted, h.node, h.direct, h.sendable⟩
    · exact ⟨rfl, rfl, rfl, rfl, by simp [hs], List.prefix_refl _⟩
  · have hns : isSwitch f = false := by simp [isSwitch, h3]
    rw [answers, if_neg h1, if_neg (by simp [h2, h3])] at hans
    simp only at hans
    split_ifs at hans with hret
    obtain ⟨j, hj, rfl⟩ := Option.map_eq_some_iff.mp hans
    let told : Party φ := { p with others := (rcv p.others f).1 }
    have htold : Sending rcv told nodeOut directOut :=
      ⟨h.writeOk, h.state, h.disconnect, h.diverted, h.node, h.direct, h.sendable⟩
    obtain ⟨t, hpush, ht, hkept, hpos, hteq⟩ :=
      htold.pushAll hret.2 (Nat.lt_of_le_of_lt (Nat.add_le_add_left (Nat.le_add_right _ j) _) hroom)
    refine ⟨t, j, ?_, ht, Handled.of_kept hkept ?_ hns, ?_, ?_⟩
    · rw [handler, hcall, procmsgOther]
      simp only [told] at hpush
      simp only [hpush, hret.1, ne_eq, not_false_eq_true, decide_true]
    · rw [hteq]
      exact List.prefix_append _ _
    · rw [hteq]
      exact hj
    · rw [hpos]
      exact Nat.add_assoc _ _ _

/-- All messages that a read completes are handled. -/
theorem handleAll_accepts
    {k : Nat}
    (h : Sending rcv p nodeOut directOut) (hfs : ∀ f ∈ fs, Sendable rcv f)
    (hswitch : fs.any isSwitch = true → p.chn.SwitchAllowed)
    (hans : answers rcv p.others fs = some k)
    (hroom : p.chn.writePos + k < uintMod) :
    ∃ t, handleAll (handler (c2cMessages .enough rcv)) p fs = some t ∧
      Sending rcv t nodeOut directOut ∧ Handled p fs t := by
  induction fs generalizing p k with
  | nil => exact ⟨p, rfl, h, ⟨rfl, rfl, rfl, rfl, by simp, List.prefix_refl _⟩⟩
  | cons f fs ih =>
      obtain ⟨u, j, hcall, hu, hhandled, hj, hpos⟩ :=
        handler_accepts h (hfs f List.mem_cons_self) (fun hf => hswitch (by simp [hf])) hans hroom
      have hallowed : fs.any isSwitch = true → u.chn.SwitchAllowed := by
        intro hany
        have := hswitch (by simp [hany])
        rwa [C2c.SwitchAllowed, hhandled.config, hhandled.directState]
      obtain ⟨t, hall, ht, hrest⟩ :=
        ih hu (fun g hg => hfs g (List.mem_cons_of_mem f hg)) hallowed hj (by omega)
      refine ⟨t, ?_, ht, hhandled.trans hrest⟩
      rw [handleAll, hcall, if_pos rfl]
      exact hall

end Handling

section Receiving

variable (rcv : Others φ)

/-- The complete messages at the front of some bytes. -/
def framesIn (bytes : List UInt8) : List Frame :=
  (drain (sizer (c2cMessages .enough rcv)) (fun (_ : Unit) _ => ((), true)) () bytes).handled

/-- What a client has read and handled of the stream its peer sends. -/
structure Receiving (peer me : Endpoint φ) : Prop where
  readBuf : me.party.chn.readBuf.length = chanReadBufSize
  readPos : me.party.chn.readPos ≤ chanReadBufSize
  nodeIn : me.nodeIn ≤ peer.nodeOut.length
  directIn : me.directIn ≤ peer.directOut.length
  seen : peer.nodeOut.take me.nodeIn ++ peer.directOut.take me.directIn =
    me.calls.flatten ++ me.party.left
  todo : ∃ todo, peer.party.pushed = me.calls ++ todo ∧ Partial me.party.left todo
  switched : me.party.chn.switchedRead = me.calls.any isSwitch
  before : me.party.chn.switchedRead = false → me.directIn = 0
  after : me.party.chn.switchedRead = true →
    peer.nodeOut.take me.nodeIn = (upToSwitch peer.party.pushed).flatten

/-- The condition under which a read goes well: the replies find room, no handler of
the other messages refuses, and a switch message is expected. -/
def ReadAllowed (me : Endpoint φ) (bytes : List UInt8) : Prop :=
  ((framesIn rcv (me.party.left ++ bytes)).any isSwitch = true → me.party.chn.SwitchAllowed) ∧
    ∃ k ∈ answers rcv me.party.others (framesIn rcv (me.party.left ++ bytes)),
      me.party.chn.writePos + k < uintMod

instance (me : Endpoint φ) (bytes : List UInt8) : Decidable (ReadAllowed rcv me bytes) :=
  inferInstanceAs (Decidable (_ ∧ _))

variable {rcv} {peer me t : Endpoint φ} {fs : List Frame}

theorem framesIn_stream
    {bytes rest : List UInt8}
    (hfs : ∀ f ∈ fs, Sendable rcv f) (hbytes : bytes ++ rest = fs.flatten) :
    framesIn rcv bytes = fitting fs bytes.length := by
  obtain ⟨t, ht⟩ := handleAll_accepting (fun (_ : Unit) (_ : Frame) => ((), true))
    (fun _ _ => rfl) () (fitting fs bytes.length)
  rw [framesIn, drain_stream (sizer_stable _) (fun f hf => ⟨(hfs f hf).1, (hfs f hf).2.1⟩)
    hbytes ht]

theorem Receiving.length_left (h : Receiving peer me) :
    me.party.left.length = me.party.chn.readPos := by
  rw [Party.left, List.length_take, h.readBuf, Nat.min_eq_left h.readPos]

/-- The buffer is never full when a read starts. -/
theorem Receiving.room
    (h : Receiving peer me) (hpeer : ∀ f ∈ peer.party.pushed, Sendable rcv f) :
    me.party.chn.readPos < chanReadBufSize := by
  obtain ⟨todo, hpushed, hpart⟩ := h.todo
  rw [← h.length_left]
  cases todo with
  | nil =>
      rw [show me.party.left = [] from hpart]
      decide
  | cons g gs =>
      have hlt : me.party.left.length < g.length := hpart
      have hg := (hpeer g (by rw [hpushed]; simp)).2.2
      omega

/-- What a read returns continues what has been read, in the order of the pushes. -/
theorem Receiving.incoming_next
    {n : Nat}
    (h : Receiving peer me) (hpeer : Sending rcv peer.party peer.nodeOut peer.directOut) :
    ∃ rest, me.calls.flatten ++ me.party.left ++ me.incoming peer.nodeOut peer.directOut n ++ rest =
      peer.party.pushed.flatten := by
  have hpushed : (upToSwitch peer.party.pushed).flatten ++ (afterSwitch peer.party.pushed).flatten =
      peer.party.pushed.flatten := by
    rw [← List.flatten_append, upToSwitch_append_afterSwitch]
  rw [← h.seen, ← hpushed, ← hpeer.direct]
  simp only [Endpoint.incoming]
  generalize min n (chanReadBufSize - me.party.chn.readPos) = k
  cases hsw : me.party.chn.switchedRead with
  | false =>
      have hnode : peer.nodeOut = peer.nodeOut.take me.nodeIn ++
          (peer.nodeOut.drop me.nodeIn).take k ++ (peer.nodeOut.drop me.nodeIn).drop k := by
        rw [List.append_assoc, List.take_append_drop, List.take_append_drop]
      rw [h.before hsw, ← hpeer.node]
      refine ⟨(peer.nodeOut.drop me.nodeIn).drop k ++ peer.party.chn.toNode ++
        (peer.directOut ++ peer.party.chn.toDirect), ?_⟩
      simp only [Bool.false_eq_true, if_false, List.take_zero, List.append_nil]
      conv_rhs => rw [hnode]
      simp only [List.append_assoc]
  | true =>
      have hdirect : peer.directOut = peer.directOut.take me.directIn ++
          (peer.directOut.drop me.directIn).take k ++ (peer.directOut.drop me.directIn).drop k := by
        rw [List.append_assoc, List.take_append_drop, List.take_append_drop]
      rw [h.after hsw]
      refine ⟨(peer.directOut.drop me.directIn).drop k ++ peer.party.chn.toDirect, ?_⟩
      simp only [if_true]
      conv_rhs => rw [hdirect]
      simp only [List.append_assoc]

/-- The messages a read completes are the next ones that were pushed. -/
theorem Receiving.framesIn_next
    {n : Nat}
    (h : Receiving peer me) (hpeer : Sending rcv peer.party peer.nodeOut peer.directOut) :
    ∃ todo, peer.party.pushed = me.calls ++
      framesIn rcv (me.party.left ++ me.incoming peer.nodeOut peer.directOut n) ++ todo := by
  obtain ⟨todo, hpushed, -⟩ := h.todo
  obtain ⟨rest, hrest⟩ := h.incoming_next (n := n) hpeer
  generalize me.incoming peer.nodeOut peer.directOut n = bytes at *
  have htodo : (me.party.left ++ bytes) ++ rest = todo.flatten := by
    rw [hpushed, List.flatten_append] at hrest
    simp only [List.append_assoc] at hrest ⊢
    exact List.append_cancel_left hrest
  have hsend : ∀ f ∈ todo, Sendable rcv f := fun f hf =>
    hpeer.sendable f (by rw [hpushed]; exact List.mem_append_right _ hf)
  obtain ⟨todo', -, hsplit, -⟩ := fitting_split htodo
  rw [framesIn_stream hsend htodo]
  exact ⟨todo', by rw [hpushed, List.append_assoc, ← hsplit]⟩

/-- More from the peer does not disturb what has been read. -/
theorem Receiving.mono
    {peer' : Endpoint φ}
    (h : Receiving peer me)
    (hpushed : peer.party.pushed <+: peer'.party.pushed)
    (hne : ∀ f ∈ peer'.party.pushed, f ≠ [])
    (hnode : peer.nodeOut <+: peer'.nodeOut) (hdirect : peer.directOut <+: peer'.directOut) :
    Receiving peer' me := by
  obtain ⟨more, hmore⟩ := hpushed
  obtain ⟨node, hn⟩ := hnode
  obtain ⟨direct, hd⟩ := hdirect
  have htakeN : peer'.nodeOut.take me.nodeIn = peer.nodeOut.take me.nodeIn := by
    rw [← hn, List.take_append_of_le_length h.nodeIn]
  have htakeD : peer'.directOut.take me.directIn = peer.directOut.take me.directIn := by
    rw [← hd, List.take_append_of_le_length h.directIn]
  obtain ⟨todo, htodo, hpart⟩ := h.todo
  refine ⟨h.readBuf, h.readPos, ?_, ?_, by rw [htakeN, htakeD, h.seen], ⟨todo ++ more, ?_, ?_⟩,
    h.switched, h.before, ?_⟩
  · rw [← hn, List.length_append]
    exact Nat.le_add_right_of_le h.nodeIn
  · rw [← hd, List.length_append]
    exact Nat.le_add_right_of_le h.directIn
  · rw [← hmore, htodo, List.append_assoc]
  · cases todo with
    | nil =>
        have hleft : me.party.left = [] := hpart
        cases more with
        | nil => exact hleft
        | cons g gs =>
            have hg : g ≠ [] := hne g (by rw [← hmore]; simp)
            rw [hleft]
            exact List.length_pos_of_ne_nil hg
    | cons g gs => exact hpart
  · intro hsw
    have hany : peer.party.pushed.any isSwitch = true := by
      rw [htodo, List.any_append, ← h.switched, hsw, Bool.true_or]
    rw [htakeN, h.after hsw, ← hmore, upToSwitch_append hany]

/-- The buffer after `PICA_read_ssl`: the old bytes followed by the new ones. -/
theorem readSsl_incoming
    {buf bytes : List UInt8} {pos size : Nat}
    (hroom : pos < size) (hlen : buf.length = size) (hfit : bytes.length ≤ size - pos) :
    ∃ buf', readSsl (if bytes = [] then .retry else .data bytes) buf pos size =
        (buf', pos + bytes.length, .ok) ∧
      buf'.length = size ∧ buf'.take (pos + bytes.length) = buf.take pos ++ bytes := by
  have hnle := Nat.not_le_of_lt hroom
  by_cases hb : bytes = []
  · subst hb
    exact ⟨buf, by simp [readSsl, hnle], hlen, by simp⟩
  · have hall : bytes.take (size - pos) = bytes := List.take_of_length_le hfit
    simp only [readSsl, hnle, hb, if_false, hall]
    refine ⟨writeAt buf pos bytes, rfl, ?_, take_writeAt bytes (by omega)⟩
    rw [length_writeAt, hlen]

/-- The switch message ends the part that goes through the node. -/
theorem Receiving.node_done
    {calls todo : List Frame} {left : List UInt8}
    (hpeer : Sending rcv peer.party peer.nodeOut peer.directOut)
    (hpushed : peer.party.pushed = calls ++ todo) (hany : calls.any isSwitch = true)
    {k : Nat} (hseen : peer.nodeOut.take k = calls.flatten ++ left) :
    peer.nodeOut.take k = (upToSwitch peer.party.pushed).flatten := by
  have hup : upToSwitch peer.party.pushed = upToSwitch calls := by
    rw [hpushed, upToSwitch_append hany]
  have hcalls : (upToSwitch calls).flatten ++ ((afterSwitch calls).flatten ++ left) =
      peer.nodeOut.take k := by
    rw [hseen, ← List.append_assoc, ← List.flatten_append, upToSwitch_append_afterSwitch]
  have hnode := congrArg List.length hpeer.node
  have hlen := congrArg List.length hcalls
  have htake := List.length_take_le k peer.nodeOut
  have htake' : (peer.nodeOut.take k).length ≤ peer.nodeOut.length := by
    rw [List.length_take]
    exact Nat.min_le_right _ _
  rw [hup] at hnode ⊢
  simp only [List.length_append] at hnode hlen
  have hrest : (afterSwitch calls).flatten ++ left = [] := by
    apply List.eq_nil_of_length_eq_zero
    simp only [List.length_append]
    omega
  rw [← hcalls, hrest, List.append_nil]

/-- What a successful read does. -/
structure ReadDone (rcv : Others φ) (peer me : Endpoint φ) (fs : List Frame)
    (t : Endpoint φ) (u : Party φ) : Prop where
  sending : Sending rcv t.party t.nodeOut t.directOut
  receiving : Receiving peer t
  nodeOut : t.nodeOut = me.nodeOut
  directOut : t.directOut = me.directOut
  sent : t.sent = me.sent
  calls : t.calls = me.calls ++ fs
  /-- `u` is the party after the handlers -/
  handled : handleAll (handler (c2cMessages .enough rcv)) me.party fs = some u
  kept : Handled me.party fs u
  party : ∃ buf pos, t.party = { u with chn := { u.chn with readBuf := buf, readPos := pos } }

theorem take_add_length_take {l : List UInt8} {i k : Nat} :
    l.take (i + ((l.drop i).take k).length) = l.take i ++ (l.drop i).take k := by
  have hcut : (l.drop i).take ((l.drop i).take k).length = (l.drop i).take k := by
    conv_lhs =>
      arg 2
      rw [← List.take_append_drop k (l.drop i)]
    rw [List.take_left]
  rw [List.take_add, hcut]

/-- How many bytes of the two connections are read when `k` more arrive. -/
def Endpoint.nodeInAfter (me : Endpoint φ) (k : Nat) : Nat :=
  if me.party.chn.switchedRead then me.nodeIn else me.nodeIn + k

def Endpoint.directInAfter (me : Endpoint φ) (k : Nat) : Nat :=
  if me.party.chn.switchedRead then me.directIn + k else me.directIn

theorem Receiving.incoming_seen
    {n : Nat} (h : Receiving peer me) :
    let bytes := me.incoming peer.nodeOut peer.directOut n
    peer.nodeOut.take (me.nodeInAfter bytes.length) ++
        peer.directOut.take (me.directInAfter bytes.length) =
      me.calls.flatten ++ me.party.left ++ bytes := by
  intro bytes
  rw [← h.seen]
  cases hsw : me.party.chn.switchedRead with
  | true =>
      simp only [bytes, Endpoint.incoming, Endpoint.nodeInAfter, Endpoint.directInAfter, hsw,
        if_true, take_add_length_take, List.append_assoc]
  | false =>
      simp only [bytes, Endpoint.incoming, Endpoint.nodeInAfter, Endpoint.directInAfter, hsw,
        Bool.false_eq_true, if_false, take_add_length_take, h.before hsw, List.take_zero,
        List.append_nil]

theorem Receiving.incoming_le
    {n : Nat} (h : Receiving peer me) :
    let bytes := me.incoming peer.nodeOut peer.directOut n
    bytes.length ≤ chanReadBufSize - me.party.chn.readPos ∧
      me.nodeInAfter bytes.length ≤ peer.nodeOut.length ∧
      me.directInAfter bytes.length ≤ peer.directOut.length := by
  intro bytes
  have hn := h.nodeIn
  have hd := h.directIn
  cases hsw : me.party.chn.switchedRead with
  | true =>
      simp only [bytes, Endpoint.incoming, Endpoint.nodeInAfter, Endpoint.directInAfter, hsw,
        if_true, List.length_take, List.length_drop]
      omega
  | false =>
      simp only [bytes, Endpoint.incoming, Endpoint.nodeInAfter, Endpoint.directInAfter, hsw,
        Bool.false_eq_true, if_false, List.length_take, List.length_drop]
      omega

/-- The loop over the messages in the buffer, when all of them are accepted. -/
theorem processdatastream_stream
    {buf bytes rest : List UInt8} {pos : Nat} {p u : Party φ}
    (hfs : ∀ f ∈ fs, Sendable rcv f) (hbytes : bytes ++ rest = fs.flatten)
    (hpos : pos ≤ buf.length) (hbuf : buf.take pos = bytes)
    (hall : handleAll (handler (c2cMessages .enough rcv)) p (fitting fs bytes.length) = some u) :
    let s := processdatastream (c2cMessages .enough rcv) pos buf pos p
    s.arg = u ∧ s.calls = fitting fs bytes.length ∧ s.ret = 1 ∧ s.buf.length = buf.length ∧
      s.readPos ≤ s.buf.length ∧
      s.buf.take s.readPos = bytes.drop (fitting fs bytes.length).flatten.length := by
  intro s
  have href := processdatastream_refines (c2cMessages .enough rcv) pos buf pos p (Nat.le_refl _) hpos
  rw [hbuf, drain_stream (sizer_stable _) (fun f hf => ⟨(hfs f hf).1, (hfs f hf).2.1⟩) hbytes
    hall] at href
  refine ⟨href.arg, ?_, href.ret, href.length, href.pos, href.rest⟩
  rw [StreamResult.calls, href.handled, href.refused]
  simp

/-- **A read keeps the correspondence.**  It handles exactly the messages it
completes. -/
theorem read_step
    {n : Nat}
    (hpeer : Sending rcv peer.party peer.nodeOut peer.directOut)
    (hme : Sending rcv me.party me.nodeOut me.directOut)
    (hr : Receiving peer me)
    (hok : ReadAllowed rcv me (me.incoming peer.nodeOut peer.directOut n)) :
    ∃ t u, me.step rcv peer.nodeOut peer.directOut (.read n) = some t ∧
      ReadDone rcv peer me
        (framesIn rcv (me.party.left ++ me.incoming peer.nodeOut peer.directOut n)) t u := by
  obtain ⟨todo, hpushed, -⟩ := hr.todo
  obtain ⟨rest, hrest⟩ := hr.incoming_next (n := n) hpeer
  have hroom := hr.room hpeer.sendable
  have hseen := hr.incoming_seen (n := n)
  obtain ⟨hfit, hnodeIn, hdirectIn⟩ := hr.incoming_le (n := n)
  simp only [Endpoint.step]
  generalize me.incoming peer.nodeOut peer.directOut n = bytes at *
  -- the bytes in the buffer are the beginning of the messages not handled yet
  have htodo : (me.party.left ++ bytes) ++ rest = todo.flatten := by
    rw [hpushed, List.flatten_append] at hrest
    simp only [List.append_assoc] at hrest ⊢
    exact List.append_cancel_left hrest
  have hsendTodo : ∀ f ∈ todo, Sendable rcv f := fun f hf =>
    hpeer.sendable f (by rw [hpushed]; exact List.mem_append_right _ hf)
  have hdone := framesIn_stream hsendTodo htodo
  obtain ⟨todo', left', hsplit, hbytes, -, hpart'⟩ := fitting_split htodo
  obtain ⟨hallowed, k, hk, hspace⟩ := hok
  rw [hdone] at hallowed hk ⊢
  have hsendDone : ∀ f ∈ fitting todo (me.party.left ++ bytes).length, Sendable rcv f :=
    fun f hf => hsendTodo f (by rw [hsplit]; exact List.mem_append_left _ hf)
  obtain ⟨u, hall, hu, hhandled⟩ := handleAll_accepts hme hsendDone hallowed hk hspace
  obtain ⟨buf, hread, hbuflen, hbuf⟩ := readSsl_incoming hroom hr.readBuf hfit
  obtain ⟨harg, hcalls, hret, hslen, hspos, hsleft⟩ :=
    processdatastream_stream (p := me.party) hsendTodo htodo (by rw [hbuflen]; omega) hbuf hall
  generalize hs : processdatastream (c2cMessages .enough rcv) (me.party.chn.readPos + bytes.length)
    buf (me.party.chn.readPos + bytes.length) me.party = s at *
  generalize fitting todo (me.party.left ++ bytes).length = done at *
  rw [hbytes, List.drop_left] at hsleft
  have hc2c : readC2c .enough rcv me.party (if bytes = [] then .retry else .data bytes) =
      some ⟨{ u with chn := { u.chn with readBuf := s.buf, readPos := s.readPos } }, .ok,
        bytes.length, done⟩ := by
    simp only [readC2c, hme.state, hread, or_true, if_true, hs, harg, hret, hcalls]
    simp
  simp only [hc2c, if_true]
  refine ⟨_, u, rfl, ?_, ?_, rfl, rfl, rfl, rfl, hall, hhandled, _, _, rfl⟩
  · have hw := hu.writeOk
    exact ⟨⟨hw.pos_le, hw.len_lt, hw.barrier_le, hw.before_le, hw.no_barrier, hw.btw_le,
      hw.btw_lt⟩, hu.state, hu.disconnect, hu.diverted, hu.node, hu.direct, hu.sendable⟩
  have hpushed' : peer.party.pushed = (me.calls ++ done) ++ todo' := by
    rw [hpushed, hsplit, List.append_assoc]
  have hseen' : peer.nodeOut.take (me.nodeInAfter bytes.length) ++
      peer.directOut.take (me.directInAfter bytes.length) =
        (me.calls ++ done).flatten ++ left' := by
    rw [hseen, List.append_assoc, hbytes, List.flatten_append, List.append_assoc]
  have hswitched : u.chn.switchedRead = (me.calls ++ done).any isSwitch := by
    rw [hhandled.switchedRead, hr.switched, List.any_append]
  refine ⟨hslen.trans hbuflen, (hslen.trans hbuflen) ▸ hspos, hnodeIn, hdirectIn, ?_,
    ⟨todo', hpushed', ?_⟩, hswitched, ?_, ?_⟩
  · exact hseen'.trans (by rw [Party.left, hsleft])
  · rw [Party.left, hsleft]
    exact hpart'
  · intro hsw
    rw [hhandled.switchedRead, Bool.or_eq_false_iff] at hsw
    simp only [hsw.1, Bool.false_eq_true, if_false]
    exact hr.before hsw.1
  · intro hsw
    rw [hswitched] at hsw
    cases hold : me.party.chn.switchedRead with
    | true =>
        simp only [if_true]
        exact hr.after hold
    | false =>
        -- the switch message is among the messages of this read
        simp only [Endpoint.nodeInAfter, Endpoint.directInAfter, hold, Bool.false_eq_true,
          if_false, hr.before hold, List.take_zero, List.append_nil] at hseen' ⊢
        exact Receiving.node_done hpeer hpushed' hsw hseen'

/-- When nothing is buffered or under way, every message has been handled. -/
theorem Receiving.complete
    (h : Receiving peer me) (hpeer : Sending rcv peer.party peer.nodeOut peer.directOut)
    (hempty : peer.party.chn.writePos = 0)
    (hnode : me.nodeIn = peer.nodeOut.length) (hdirect : me.directIn = peer.directOut.length) :
    me.calls = peer.party.pushed := by
  obtain ⟨hnodeQ, hdirectQ⟩ := hpeer.nothing_queued hempty
  have hseen := h.seen
  have hn := hpeer.node
  have hd := hpeer.direct
  obtain ⟨todo, hpushed, hpart⟩ := h.todo
  rw [hnodeQ, List.append_nil] at hn
  rw [hdirectQ, List.append_nil] at hd
  rw [hnode, hdirect, List.take_length, List.take_length, hn, hd, ← List.flatten_append,
    upToSwitch_append_afterSwitch, hpushed, List.flatten_append] at hseen
  have hleft : todo.flatten = me.party.left := List.append_cancel_left hseen
  cases todo with
  | nil => rw [hpushed, List.append_nil]
  | cons g gs =>
      have hlt : me.party.left.length < g.length := hpart
      rw [← hleft, List.flatten_cons, List.length_append] at hlt
      omega

/-- An action that leaves the read side alone. -/
theorem Receiving.keep
    (h : Receiving peer me)
    (hbuf : t.party.chn.readBuf = me.party.chn.readBuf)
    (hpos : t.party.chn.readPos = me.party.chn.readPos)
    (hsw : t.party.chn.switchedRead = me.party.chn.switchedRead)
    (hcalls : t.calls = me.calls) (hnode : t.nodeIn = me.nodeIn)
    (hdirect : t.directIn = me.directIn) :
    Receiving peer t := by
  have hleft : t.party.left = me.party.left := by rw [Party.left, hbuf, hpos, Party.left]
  refine ⟨by rw [hbuf, h.readBuf], by rw [hpos]; exact h.readPos, by rw [hnode]; exact h.nodeIn,
    by rw [hdirect]; exact h.directIn, ?_, ?_, ?_, ?_, ?_⟩
  · rw [hnode, hdirect, hcalls, hleft, h.seen]
  · rw [hcalls, hleft]
    exact h.todo
  · rw [hsw, hcalls, h.switched]
  · rw [hsw, hdirect]
    exact h.before
  · rw [hsw, hnode]
    exact h.after

end Receiving

section Steps

variable (rcv : Others φ)

/-- The condition on an action: what is pushed has room and is well formed, the
switch message is sent once, `SSL_write` is not offered more than an `int` can say,
and a read is allowed. -/
def Event.Allowed (me : Endpoint φ) (node direct : List UInt8) : Event → Prop
  | .push f => Sendable rcv f ∧ isSwitch f = false ∧ me.party.chn.writePos + f.length < uintMod
  | .sendMsg m => m.length ≤ Proto.C2CMSG_MAXDATASIZE ∧
      me.party.chn.writePos + (m.length + 4) < uintMod
  | .sendSwitch _ _ => me.party.pushed.any isSwitch = false ∧ me.party.chn.writePos + 4 < uintMod
  | .established => True
  | .write r => (r = .all ∨ r = .retry) ∧ me.party.chn.offered < intMod
  | .read n => ReadAllowed rcv me (me.incoming node direct n)

instance (me : Endpoint φ) (node direct : List UInt8) :
    ∀ e : Event, Decidable (e.Allowed rcv me node direct)
  | .push _ => inferInstanceAs (Decidable (_ ∧ _ ∧ _))
  | .sendMsg _ => inferInstanceAs (Decidable (_ ∧ _))
  | .sendSwitch _ _ => inferInstanceAs (Decidable (_ ∧ _))
  | .established => inferInstanceAs (Decidable True)
  | .write _ => inferInstanceAs (Decidable (_ ∧ _))
  | .read _ => inferInstanceAs (Decidable (ReadAllowed _ _ _))

def Duplex.Allowed (d : Duplex φ) (e : Side × Event) : Prop :=
  e.2.Allowed rcv (d e.1) (d e.1.other).nodeOut (d e.1.other).directOut

instance (d : Duplex φ) (e : Side × Event) : Decidable (d.Allowed rcv e) :=
  inferInstanceAs (Decidable (Event.Allowed _ _ _ _ _))

/-- Both directions are in order. -/
structure Duplex.Inv (d : Duplex φ) : Prop where
  sending : ∀ s, Sending rcv (d s).party (d s).nodeOut (d s).directOut
  receiving : ∀ s, Receiving (d s.other) (d s)

variable {rcv} {peer me : Endpoint φ}

/-- What every action does, seen from the peer. -/
structure Grown (me t : Endpoint φ) : Prop where
  pushed : me.party.pushed <+: t.party.pushed
  nodeOut : me.nodeOut <+: t.nodeOut
  directOut : me.directOut <+: t.directOut

/-- Queueing the switch message. -/
theorem Sending.sendSwitch
    {p : Party φ} {nodeOut directOut : List UInt8}
    (h : Sending rcv p nodeOut directOut) (r₀ r₁ : UInt8)
    (hnone : p.pushed.any isSwitch = false) (hroom : p.chn.writePos + 4 < uintMod) :
    ∃ chn, sendDirectc2cSwitch .enough p.chn r₀ r₁ = some (chn, .ok) ∧ C2c.Kept p.chn chn ∧
      Sending rcv { p with
        chn := Endpoint.afterSwitchSent chn
        pushed := p.pushed ++ [shortFrame Proto.DIRECTC2C_SWITCH r₀ r₁] } nodeOut directOut := by
  have hplain : ¬ p.chn.Diverted := fun hd => by
    rw [h.diverted, hnone] at hd
    cases hd
  obtain ⟨chn, hsend, hok, hkept, hdiv, -, hnode, hdirect⟩ :=
    sendDirectc2cSwitch_spec r₀ r₁ h.writeOk hplain hroom
  have hs : isSwitch (shortFrame Proto.DIRECTC2C_SWITCH r₀ r₁) = true := rfl
  obtain ⟨hup, hafter⟩ := upToSwitch_concat hnone hs
  have hdir := h.direct
  rw [afterSwitch_of_none hnone, List.flatten_nil, List.append_eq_nil_iff] at hdir
  refine ⟨chn, hsend, hkept, ?_⟩
  have hsame : Sending rcv { p with
      chn := chn
      pushed := p.pushed ++ [shortFrame Proto.DIRECTC2C_SWITCH r₀ r₁] } nodeOut directOut := by
    refine ⟨hok, hkept.state.trans h.state, hkept.disconnect.trans h.disconnect,
      iff_of_true hdiv (by simp [hs]), ?_, ?_, ?_⟩
    · rw [hnode, ← List.append_assoc, h.node, upToSwitch_of_none hnone, hup]
      simp
    · rw [hdirect, hafter, hdir.1]
      rfl
    · intro g hg
      rcases List.mem_append.mp hg with hg | hg
      · exact h.sendable g hg
      · exact List.mem_singleton.mp hg ▸ sendable_shortFrame_switch r₀ r₁
  rw [Endpoint.afterSwitchSent]
  split_ifs
  · exact ⟨⟨hok.pos_le, hok.len_lt, hok.barrier_le, hok.before_le, hok.no_barrier, hok.btw_le,
      hok.btw_lt⟩, hsame.state, hsame.disconnect, hsame.diverted, hsame.node, hsame.direct,
      hsame.sendable⟩
  · exact hsame

/-- A write moves bytes to the connections. -/
theorem Sending.write
    {p : Party φ} {nodeOut directOut : List UInt8} {w : C2cWritten}
    (h : Sending rcv p nodeOut directOut) (hw : Written p.chn w) :
    Sending rcv { p with chn := w.chn } (nodeOut ++ w.node) (directOut ++ w.direct) where
  writeOk := hw.writeOk
  state := hw.kept.state.trans h.state
  disconnect := hw.kept.disconnect.trans h.disconnect
  diverted := hw.diverted.trans h.diverted
  node := by rw [List.append_assoc, hw.node, h.node]
  direct := by rw [List.append_assoc, hw.direct, h.direct]
  sendable := h.sendable

/-- **Step lemma.**  Every allowed action succeeds and keeps both directions in
order. -/
theorem Endpoint.step_inv
    {e : Event}
    (hpeer : Sending rcv peer.party peer.nodeOut peer.directOut)
    (hme : Sending rcv me.party me.nodeOut me.directOut) (hr : Receiving peer me)
    (hok : e.Allowed rcv me peer.nodeOut peer.directOut) :
    ∃ t, me.step rcv peer.nodeOut peer.directOut e = some t ∧
      Sending rcv t.party t.nodeOut t.directOut ∧ Receiving peer t ∧ Grown me t := by
  cases e with
  | push f =>
      obtain ⟨hf, hplain, hroom⟩ := hok
      obtain ⟨p, hpush, hp, hkept, -, heq⟩ := hme.push hf hplain hroom
      refine ⟨{ me with party := p }, by simp [Endpoint.step, hpush], hp,
        hr.keep hkept.readBuf hkept.readPos hkept.switchedRead rfl rfl rfl, ⟨?_, ?_, ?_⟩⟩
      · rw [heq]
        exact List.prefix_append _ _
      · exact List.prefix_refl _
      · exact List.prefix_refl _
  | sendMsg m =>
      obtain ⟨hlen, hroom⟩ := hok
      rw [← length_msgFrame] at hroom
      obtain ⟨p, hpush, hp, hkept, -, heq⟩ :=
        hme.push (sendable_msgFrame hlen) rfl hroom
      obtain ⟨chn, hchn, -, -⟩ := c2cWritebufPush_spec (f := msgFrame m) hme.writeOk hroom
      obtain rfl : { me.party with chn := chn, pushed := me.party.pushed ++ [msgFrame m] } = p := by
        simpa [Party.push, hchn] using hpush
      refine ⟨{ me with
          party := { me.party with chn := chn, pushed := me.party.pushed ++ [msgFrame m] }
          sent := me.sent ++ [m] }, ?_, hp,
        hr.keep hkept.readBuf hkept.readPos hkept.switchedRead rfl rfl rfl,
        ⟨List.prefix_append _ _, List.prefix_refl _, List.prefix_refl _⟩⟩
      have hsend : Client.sendMsg .enough me.party.chn m = some (chn, .ok) := by
        simp [Client.sendMsg, Nat.not_lt_of_le hlen, hchn]
      simp only [Endpoint.step, hsend]
  | sendSwitch r₀ r₁ =>
      obtain ⟨hnone, hroom⟩ := hok
      obtain ⟨chn, hsend, hkept, hs⟩ := hme.sendSwitch r₀ r₁ hnone hroom
      refine ⟨{ me with
          party := { me.party with
            chn := Endpoint.afterSwitchSent chn
            pushed := me.party.pushed ++ [shortFrame Proto.DIRECTC2C_SWITCH r₀ r₁] } },
        by simp only [Endpoint.step, hsend], hs, ?_,
        ⟨List.prefix_append _ _, List.prefix_refl _, List.prefix_refl _⟩⟩
      refine hr.keep ?_ ?_ ?_ rfl rfl rfl
      · simp only [Endpoint.afterSwitchSent]
        split_ifs
        · exact hkept.readBuf
        · exact hkept.readBuf
      · simp only [Endpoint.afterSwitchSent]
        split_ifs
        · exact hkept.readPos
        · exact hkept.readPos
      · simp only [Endpoint.afterSwitchSent]
        split_ifs
        · exact hkept.switchedRead
        · exact hkept.switchedRead
  | established =>
      have hw := hme.writeOk
      by_cases hc : me.party.chn.directState = .connecting
      · refine ⟨_, if_pos hc, ⟨⟨hw.pos_le, hw.len_lt, hw.barrier_le, hw.before_le, hw.no_barrier,
          hw.btw_le, hw.btw_lt⟩, hme.state, hme.disconnect, hme.diverted, hme.node, hme.direct,
          hme.sendable⟩, hr.keep rfl rfl rfl rfl rfl rfl,
          ⟨List.prefix_refl _, List.prefix_refl _, List.prefix_refl _⟩⟩
      · exact ⟨me, if_neg hc, hme, hr,
          ⟨List.prefix_refl _, List.prefix_refl _, List.prefix_refl _⟩⟩
  | write r =>
      obtain ⟨hr', hint⟩ := hok
      obtain ⟨w, hwrite, hw⟩ := writeC2c_spec hme.writeOk hme.state hme.disconnect hr' hint
      refine ⟨{ me with
          party := { me.party with chn := w.chn }
          nodeOut := me.nodeOut ++ w.node
          directOut := me.directOut ++ w.direct }, ?_, hme.write hw,
        hr.keep hw.kept.readBuf hw.kept.readPos hw.kept.switchedRead rfl rfl rfl,
        ⟨List.prefix_refl _, List.prefix_append _ _, List.prefix_append _ _⟩⟩
      simp only [Endpoint.step, hwrite]
      exact if_pos ⟨hw.ret, hw.closed⟩
  | read n =>
      obtain ⟨t, u, hstep, hdone⟩ := read_step hpeer hme hr hok
      obtain ⟨buf, pos, hparty⟩ := hdone.party
      refine ⟨t, hstep, hdone.sending, hdone.receiving, ⟨?_, ?_, ?_⟩⟩
      · rw [hparty]
        exact hdone.kept.pushed
      · exact hdone.nodeOut ▸ List.prefix_refl _
      · exact hdone.directOut ▸ List.prefix_refl _

theorem Duplex.step_eq
    {d t : Duplex φ} {s : Side} {e : Event} (h : d.step rcv (s, e) = some t) :
    ∃ me, (d s).step rcv (d s.other).nodeOut (d s.other).directOut e = some me ∧
      t = Function.update d s me := by
  obtain ⟨me, hme, rfl⟩ := Option.map_eq_some_iff.mp h
  exact ⟨me, hme, rfl⟩

theorem Duplex.step_inv
    {d : Duplex φ} {e : Side × Event}
    (h : d.Inv rcv) (hok : d.Allowed rcv e) :
    ∃ t, d.step rcv e = some t ∧ t.Inv rcv := by
  obtain ⟨s, e⟩ := e
  obtain ⟨me, hstep, hme, hr, hgrown⟩ :=
    Endpoint.step_inv (h.sending s.other) (h.sending s) (h.receiving s) hok
  have hself : Function.update d s me s = me := Function.update_self _ _ _
  have hother : Function.update d s me s.other = d s.other :=
    Function.update_of_ne s.other_ne _ _
  refine ⟨Function.update d s me, by simp [Duplex.step, hstep], ⟨?_, ?_⟩⟩
  · intro r
    rcases s.eq_or r with rfl | rfl
    · rw [hself]
      exact hme
    · rw [hother]
      exact h.sending _
  · intro r
    rcases s.eq_or r with rfl | rfl
    · rw [hself, hother]
      exact hr
    · rw [hother, Side.other_other, hself]
      have hback := h.receiving s.other
      rw [Side.other_other] at hback
      exact hback.mono hgrown.pushed (fun f hf => (hme.sendable f hf).1) hgrown.nodeOut
        hgrown.directOut

end Steps

/-- A client at the start of an open channel. -/
def Endpoint.start (chn : C2c) (others : φ) (rnd : Nat → UInt8) : Endpoint φ where
  party := ⟨chn, others, rnd, 0, [], [], 0⟩
  sent := []
  calls := []
  nodeOut := []
  directOut := []
  nodeIn := 0
  directIn := 0

/-- Two clients with an open channel. -/
def Duplex.start (direct : Side → DirectState) (config : Side → DirectConfig) (others : Side → φ)
    (rnd : Side → Nat → UInt8) : Duplex φ := fun s =>
  .start (.opened (direct s) (config s)) (others s) (rnd s)

theorem Duplex.start_inv
    (rcv : Others φ) (direct : Side → DirectState) (config : Side → DirectConfig)
    (others : Side → φ) (rnd : Side → Nat → UInt8) :
    (Duplex.start direct config others rnd).Inv rcv where
  sending _ :=
    { writeOk := C2c.opened_writeOk _ _
      state := rfl
      disconnect := rfl
      diverted := by simp [Duplex.start, Endpoint.start, C2c.opened, C2c.Diverted]
      node := rfl
      direct := rfl
      sendable := nofun }
  receiving _ :=
    { readBuf := List.length_replicate
      readPos := Nat.zero_le _
      nodeIn := Nat.le_refl _
      directIn := Nat.le_refl _
      seen := rfl
      todo := ⟨[], rfl, rfl⟩
      switched := rfl
      before := fun _ => rfl
      after := nofun }

end Client
end PicaPica
