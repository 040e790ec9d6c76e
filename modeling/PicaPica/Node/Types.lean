import PicaPica.Msgproc

/-!
# Data model of the node (`PICA_node.h`)

Heap objects carry the address they were allocated at; a pointer field holds an
address, or `none` for `NULL`.  Addresses are not reused, so an address is the
identity of an object and a pointer to a freed object is an address that is in
no list any more.  The linked lists of the source are lists in list order.

A write buffer appears here by the messages that were pushed to it
(`client_wbuf_push`, `nodelink_wbuf_push`), oldest first.
-/

namespace PicaPica

/-- Address of a heap object. -/
abbrev Ptr := Nat

/-- A file descriptor; `-1` is none. -/
abbrev Socket := Int

/-- IPv4 address and port of a `sockaddr_in`. -/
structure SockAddr where
  addr : Nat
  port : Nat
deriving DecidableEq

/-- `PICA_CCLINK_*`. -/
inductive CcState
  | localWaitRep
  | localWaitConnCle
  | localWaitConnCleAnonTlsShutdown
  | localWaitConnClr
  | localWaitConnClrAnonTlsShutdown
  | localActive
  | n2nClrWaitSearch
  | n2nClrWaitRep
  | n2nClrWaitConnClr
  | n2nClrWaitConnClrAnonTlsShutdown
  | n2nClrActive
  | n2nCleWaitRep
  | n2nCleWaitConnCle
  | n2nCleWaitConnCleAnonTlsShutdown
  | n2nCleActive
deriving DecidableEq

/-- One relay direction of a link: `buf_*`, `buflen_*`, `bufpos_*`, `jam_*`.
The empty list stands for a buffer that is not allocated. -/
structure RelayBuf where
  buf : List UInt8
  buflen : Nat
  bufpos : Nat
  jam : Bool
deriving DecidableEq

/-- The bytes waiting in the buffer. -/
def RelayBuf.content (b : RelayBuf) : List UInt8 :=
  b.buf.take b.bufpos

/-- `struct cclink`.  An event is `none` before `event_new`, and otherwise tells
whether it is added. -/
structure CCLink where
  ptr : Ptr
  state : CcState
  tmst : Nat
  p1 : Option Ptr
  p2 : Option Ptr
  callerId : Id
  calleeId : Id
  callerNode : Option Ptr
  calleeNode : Option Ptr
  sckP1 : Socket
  sckP2 : Socket
  p1p2 : RelayBuf
  p2p1 : RelayBuf
  evReadP1 : Option Bool
  evReadP2 : Option Bool
  evWriteP1 : Option Bool
  evWriteP2 : Option Bool
deriving DecidableEq

/-- `PICA_CLSTATE_*`. -/
inductive ClState
  | waitAnonTlsShutdown
  | tlsNegotiation
  | connected
  | multiloginSecondary
deriving DecidableEq

/-- `struct client`, without the links of the tree and of the chains of logins,
which `Node/ClientTree.lean` has. -/
structure Client where
  ptr : Ptr
  id : Id
  sckComm : Socket
  addr : SockAddr
  state : ClState
  tmst : Nat
  disconnectTicking : Bool
  pushed : List Frame
deriving DecidableEq

/-- `struct nodelink`. -/
structure NodeLink where
  ptr : Ptr
  sck : Socket
  addr : SockAddr
  addrType : Nat
  nodeAddr : Option SockAddr
  tmst : Nat
  disconnectTicking : Bool
  pushed : List Frame
deriving DecidableEq

/-- `PICA_NEWCONN_*`. -/
inductive NcState
  | waitAnonTlsAccept
  | waitRequest
  | sendingOk
  | sendingReject
  | waitAnonTlsShutdown
deriving DecidableEq

/-- `enum newconn_type`. -/
inductive NcType
  | unknown
  | c2n
  | c2c
  | n2n
deriving DecidableEq

/-- `struct newconn`: `buf` is the bytes in front of `pos`, and `iconn` is the
pointer the union holds, a client or a link depending on `type`. -/
structure NewConn where
  sck : Socket
  addr : SockAddr
  tmst : Nat
  buf : List UInt8
  state : NcState
  type : NcType
  iconn : Option Ptr
deriving DecidableEq

end PicaPica
