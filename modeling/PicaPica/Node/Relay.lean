import PicaPica.Node.Types
import PicaPica.Lib.Run

/-!
# The relay of an active link (`process_c2c_read`, `process_c2c_write`)

A link in an `ACTIVE` state relays two byte streams, `p1p2` from the caller to
the callee and `p2p1` back.  A direction whose destination is a client of this
node ends in `send()`; one whose destination is on another node ends in
`N2NMSG` messages.

`process_c2c_write` runs the same block for both directions with one variable
`ret`.  A direction that has bytes but is neither remote nor called for the
socket of its destination leaves `ret` as it is: uninitialised for the first
direction, the other direction's result for the second.  `writeDir` keeps this,
and `WriteClean` is the condition under which it does not happen.
-/

namespace PicaPica

open Area

/-- The two relay directions of a link. -/
inductive Dir
  | p1p2
  | p2p1
deriving DecidableEq

/-- Result of `send()` and the value of `errno` after it. -/
structure SendOutcome where
  /-- how many bytes the socket takes, `none` for an error -/
  taken : Option Nat
  errno : Nat
deriving DecidableEq

/-- The value `send()` returns for `len` bytes. -/
def SendOutcome.ret (o : SendOutcome) (len : Nat) : Int :=
  match o.taken with
  | some n => (min n len : Nat)
  | none => -1

def EAGAIN : Nat := 11
def ENOBUFS : Nat := 105

namespace CCLink

variable (cc : CCLink)

def relay : Dir → RelayBuf
  | .p1p2 => cc.p1p2
  | .p2p1 => cc.p2p1

def setRelay : Dir → RelayBuf → CCLink
  | .p1p2, b => { cc with p1p2 := b }
  | .p2p1, b => { cc with p2p1 := b }

/-- Socket the direction reads from. -/
def srcSck : Dir → Socket
  | .p1p2 => cc.sckP1
  | .p2p1 => cc.sckP2

/-- Socket the direction writes to. -/
def dstSck : Dir → Socket
  | .p1p2 => cc.sckP2
  | .p2p1 => cc.sckP1

/-- Node the direction writes to when its destination is not local. -/
def dstNode : Dir → Option Ptr
  | .p1p2 => cc.calleeNode
  | .p2p1 => cc.callerNode

def senderId : Dir → Id
  | .p1p2 => cc.callerId
  | .p2p1 => cc.calleeId

def receiverId : Dir → Id
  | .p1p2 => cc.calleeId
  | .p2p1 => cc.callerId

/-- `event_add(ev_read_p1)` for `p1p2`, `event_add(ev_read_p2)` for `p2p1`. -/
def armRead : Dir → CCLink
  | .p1p2 => { cc with evReadP1 := cc.evReadP1.map fun _ => true }
  | .p2p1 => { cc with evReadP2 := cc.evReadP2.map fun _ => true }

/-- `event_del` of the same events. -/
def disarmRead : Dir → CCLink
  | .p1p2 => { cc with evReadP1 := cc.evReadP1.map fun _ => false }
  | .p2p1 => { cc with evReadP2 := cc.evReadP2.map fun _ => false }

/-- `event_add(ev_write_p2)` for `p1p2`, `event_add(ev_write_p1)` for `p2p1`. -/
def armWrite : Dir → CCLink
  | .p1p2 => { cc with evWriteP2 := cc.evWriteP2.map fun _ => true }
  | .p2p1 => { cc with evWriteP1 := cc.evWriteP1.map fun _ => true }

/-- The write event of the socket `s` has fired: it is not persistent, and has to be
added again. -/
def fired (s : Socket) : CCLink :=
  { cc with
    evWriteP1 := if s = cc.sckP1 then cc.evWriteP1.map fun _ => false else cc.evWriteP1
    evWriteP2 := if s = cc.sckP2 then cc.evWriteP2.map fun _ => false else cc.evWriteP2 }

end CCLink

/-- State in which the destination of the direction is on another node. -/
def remoteState : Dir → CcState
  | .p1p2 => .n2nClrActive
  | .p2p1 => .n2nCleActive

/-- The message `process_c2c_write` builds for another node. -/
def n2nmsg (sender receiver : Id) (data : List UInt8) : Frame :=
  head Proto.N2NMSG ++ le16 (2 * idSize + data.length) ++
    sender.1 ++ receiver.1 ++ data

/-- What `process_c2c_write` works on: the link, `ret`, `kill_ptr`, and the
bytes and messages that have left the link. -/
structure C2cWrite where
  cc : CCLink
  ret : Int
  kill : Bool
  out12 : List UInt8
  out21 : List UInt8
  pushed : List (Option Ptr × Frame)
deriving DecidableEq

namespace C2cWrite

def out (w : C2cWrite) : Dir → List UInt8
  | .p1p2 => w.out12
  | .p2p1 => w.out21

def emit (w : C2cWrite) : Dir → List UInt8 → C2cWrite
  | .p1p2, xs => { w with out12 := w.out12 ++ xs }
  | .p2p1, xs => { w with out21 := w.out21 ++ xs }

end C2cWrite

/-- The attempt to get rid of the bytes of one direction. -/
def attemptDir (d : Dir) (s : Socket) (o : SendOutcome) (mem : Bool)
    (w : C2cWrite) : C2cWrite :=
  let b := w.cc.relay d
  if w.cc.state = remoteState d then
    let sendlen := min b.bufpos Proto.N2NMSG_MAXDATASIZE
    if mem then
      { w.emit d (b.buf.take sendlen) with
        ret := sendlen
        pushed := w.pushed ++ [(w.cc.dstNode d,
          n2nmsg (w.cc.senderId d) (w.cc.receiverId d) (b.buf.take sendlen))] }
    else { w with ret := 0 }
  else if s = w.cc.dstSck d then
    { w.emit d (b.buf.take (o.ret b.bufpos).toNat) with ret := o.ret b.bufpos }
  else w

/-- `bufpos -= ret` with the preceding `memmove`, on `unsigned int`. -/
def RelayBuf.consume (b : RelayBuf) (n : Nat) : RelayBuf :=
  { b with
    buf := if n < b.bufpos then moveDown b.buf n (b.bufpos - n) else b.buf
    bufpos := usub b.bufpos n
    jam := false }

/-- What is done with a positive `ret`. -/
def settleSent (d : Dir) (w : C2cWrite) : C2cWrite :=
  if 0 < w.ret then
    let b := (w.cc.relay d).consume w.ret.toNat
    let cc := w.cc.setRelay d b
    { w with
      cc := if b.bufpos = 0 ∧ cc.srcSck d ≠ -1 then cc.armRead d else cc }
  else w

/-- What is done with `ret == 0` and `ret == -1`. -/
def settleError (d : Dir) (o : SendOutcome) (w : C2cWrite) : C2cWrite :=
  if w.ret = 0 then { w with kill := true }
  else if w.ret = -1 then
    if o.errno = EAGAIN ∨ o.errno = ENOBUFS then
      { w with
        ret := o.errno
        cc := w.cc.setRelay d { w.cc.relay d with jam := true } }
    else { w with ret := o.errno, kill := true }
  else w

/-- The block of `process_c2c_write` for one direction. -/
def writeDir (d : Dir) (s : Socket) (o : SendOutcome) (mem : Bool)
    (w : C2cWrite) : C2cWrite :=
  if (w.cc.relay d).bufpos = 0 then w
  else
    let w := settleError d o (settleSent d (attemptDir d s o mem w))
    if !w.kill ∧ (w.cc.relay d).bufpos ≠ 0 ∧ s ≠ -1 then
      { w with cc := w.cc.armWrite d }
    else w

/-- What the surroundings decide in one call of `process_c2c_write`: the
uninitialised value of `ret`, the results of `send()`, and whether the node's
write buffer can take a message. -/
structure WriteEnv where
  ret0 : Int
  send12 : SendOutcome
  send21 : SendOutcome
  mem12 : Bool
  mem21 : Bool

/-- `process_c2c_write`.  `kill` in the result means that the link is deleted. -/
def processC2cWrite (s : Socket) (env : WriteEnv) (cc : CCLink) : C2cWrite :=
  writeDir .p2p1 s env.send21 env.mem21
    (writeDir .p1p2 s env.send12 env.mem12 ⟨cc, env.ret0, false, [], [], []⟩)

/-- Result of `process_c2c_read`: `none` for the link means that it is deleted. -/
structure C2cRead where
  cc : Option CCLink
  in12 : List UInt8
  in21 : List UInt8
  out12 : List UInt8
  out21 : List UInt8
  pushed : List (Option Ptr × Frame)

namespace C2cRead

/-- The link is unchanged by the read. -/
def idle (cc : CCLink) : C2cRead :=
  ⟨some cc, [], [], [], [], []⟩

def inp (r : C2cRead) : Dir → List UInt8
  | .p1p2 => r.in12
  | .p2p1 => r.in21

def out (r : C2cRead) : Dir → List UInt8
  | .p1p2 => r.out12
  | .p2p1 => r.out21

end C2cRead

/-- Free space of the buffer, on `unsigned int`. -/
def RelayBuf.room (b : RelayBuf) : Nat :=
  usub b.buflen b.bufpos

/-- Put received bytes behind `bufpos`. -/
def RelayBuf.append (b : RelayBuf) (xs : List UInt8) : RelayBuf :=
  { b with
    buf := writeAt b.buf b.bufpos xs
    bufpos := uadd b.bufpos xs.length }

/-- The bytes that were read are in the buffer; a full buffer stops reading. -/
def fillDir (d : Dir) (xs : List UInt8) (cc : CCLink) : CCLink :=
  let b := (cc.relay d).append xs
  if b.buflen = b.bufpos then (cc.setRelay d { b with jam := true }).disarmRead d
  else cc.setRelay d b

/-- The block of `process_c2c_read` for one direction; `data` is what the socket
has to offer, empty at the end of the stream or on an error.  A direction whose
destination is remote is read from a client of this node. -/
def readDir (d : Dir) (s : Socket) (data : List UInt8) (env : WriteEnv)
    (cc : CCLink) : C2cRead :=
  if (cc.state = .localActive ∨ cc.state = remoteState d) ∧ cc.srcSck d = s ∧
      !(cc.relay d).jam then
    let xs := data.take (cc.relay d).room
    let in12 := if d = .p1p2 then xs else []
    let in21 := if d = .p2p1 then xs else []
    if xs = [] then ⟨none, [], [], [], [], []⟩
    else if cc.state = .localActive then
      ⟨some ((fillDir d xs cc).armWrite d), in12, in21, [], [], []⟩
    else
      let w := processC2cWrite (-1) env (fillDir d xs cc)
      ⟨if w.kill then none else some w.cc, in12, in21, w.out12, w.out21, w.pushed⟩
  else .idle cc

/-- `process_c2c_read`: the blocks of the two directions.  After the first block
has deleted the link nothing is left to read. -/
def processC2cRead (s : Socket) (data12 data21 : List UInt8) (env : WriteEnv)
    (cc : CCLink) : C2cRead :=
  let r := readDir .p1p2 s data12 env cc
  match r.cc with
  | none => r
  | some cc' =>
      let r' := readDir .p2p1 s data21 env cc'
      ⟨r'.cc, r.in12 ++ r'.in12, r.in21 ++ r'.in21,
        r.out12 ++ r'.out12, r.out21 ++ r'.out21, r.pushed ++ r'.pushed⟩

/-- Direction into which a link in this state takes `N2NMSG` data. -/
def n2nDir : CcState → Option Dir
  | .n2nCleActive => some .p1p2
  | .n2nClrActive => some .p2p1
  | _ => none

/-- `procmsg_N2NMSG` on the link it has found: `none` if the data does not fit
and the link is deleted. -/
def relayN2nmsg (d : Dir) (data : List UInt8) (cc : CCLink) : Option CCLink :=
  let b := cc.relay d
  if b.buflen < uadd data.length b.bufpos then none
  else some (cc.setRelay d (b.append data))

end PicaPica
