import PicaPica.Client.FileTransfer

/-!
# Direct connections between clients (`struct PICA_directc2c`)

A client connects to the addresses its peer has listed, one after the other, or accepts
a connection at its listener.  A TLS session is described by what has happened on its
`SSL` object: whether the handshake is complete, and for which identifier
`verify_peer_cert_common` has returned `PICA_OK`.

The socket and the address that is tried are left out, and so is `want_write`.
-/

namespace PicaPica

namespace Proto

/-- `PICA_PROTO_DIRECTC2C_IPV4`. -/
def DIRECTC2C_IPV4 : Nat := 0xA0
def DIRECTC2C_ADDRLIST_ITEM_IPV4_SIZE : Nat := 7

end Proto

namespace Client

/-- `enum PICA_directc2c_connection_state`. -/
inductive ConnState
  | new
  | connecting
  | waitingTls
  | active
  | failed
deriving DecidableEq

/-- What `SSL_connect`, `SSL_accept` and `SSL_shutdown` return: 1, 0, or a negative number
because the call must be repeated or has failed. -/
inductive SslCall
  | done
  | closed
  | wantRead
  | wantWrite
  | error
deriving DecidableEq

/-- The negative number asks for a repetition. -/
def SslCall.again : SslCall → Bool
  | .wantRead => true
  | .wantWrite => true
  | _ => false

/-- What has happened on an `SSL` object. -/
structure Tls where
  handshake : Bool
  verified : Option Id
deriving DecidableEq

/-- A certificate: the bits of its RSA key and the identifier `PICA_id_from_X509` finds. -/
structure PeerCert where
  rsaBits : Option Nat
  id : Option Id
deriving DecidableEq

/-- `PICA_RSA_MINKEYSIZE`. -/
def rsaMinKeySize : Nat := 4096

/-- Results of the functions of a channel. -/
inductive Ret
  | ok
  | errNoMem
  | errSsl
  | errSock
  | errServ
  | errNoPeerCert
  | errInvPeerCert
  | errDisconnect
  | errFile
  | errTimedOut
  /-- the 1 of `SSL_shutdown`, which is no error code -/
  | one
deriving DecidableEq

/-- `process_async_ssl_errors`. -/
def processAsyncSslErrors : SslCall → Ret
  | .done => .ok
  | .closed => .errDisconnect
  | .wantRead => .ok
  | .wantWrite => .ok
  | .error => .errSsl

/-- `verify_peer_cert_common` for the certificate of the peer, with what
`peer_cert_verify_cb` would answer: the result, and whether the callback was called. -/
def verifyPeerCertCommon (cert : Option PeerCert) (peerId : Id) (answer : Bool) : Ret × Bool :=
  match cert with
  | none => (.errNoPeerCert, false)
  | some c =>
      if c.rsaBits.getD 0 < rsaMinKeySize then (.errNoPeerCert, false)
      else
        match c.id with
        | none => (.errNoPeerCert, false)
        | some id =>
            if id ≠ peerId then (.errInvPeerCert, false)
            else (if answer then .ok else .errInvPeerCert, true)

/-- `struct PICA_directc2c`. -/
structure Direct where
  outgoing : Bool
  state : ConnState
  ssl : Option Tls
  peerCert : Option PeerCert
  addrlist : Option (List UInt8)
  addrpos : Nat
  /-- `PICA_close_directc2c` has freed it -/
  freed : Bool
deriving DecidableEq

namespace Direct

/-- The record `procmsg_PICA_PROTO_DIRECTC2C_ADDRLIST` begins with. -/
def fresh : Direct :=
  ⟨true, .new, none, none, none, 0, false⟩

/-- `PICA_close_directc2c`. -/
def close (d : Direct) : Direct :=
  { d with ssl := none, freed := true }

/-- The peer is known to be `id`. -/
def Trusted (d : Direct) (id : Id) : Prop :=
  d.freed = false ∧ ∃ t, d.ssl = some t ∧ t.handshake ∧ t.verified = some id

end Direct

/-- Ways in which a call for a channel does not return. -/
inductive SessionFault
  /-- `exit(-1)` -/
  | exited
  /-- the channel is used after `PICA_close_c2c` -/
  | closedChannel
  | nullPtr
  /-- a direct connection is used after `PICA_close_directc2c` -/
  | freedDirect
  /-- memory outside a buffer is used -/
  | outside
  | file (f : FileFault)
deriving DecidableEq

namespace Direct

variable (d : Direct)

/-- The place of the next address: the first two bytes of the list are its size. -/
def nextPos : Nat :=
  if d.addrpos = 0 then 2 else d.addrpos

/-- `directc2c_connect_next`: the session is dropped, and the next address is tried.  The
second result is false for `PICA_ERRNOTFOUND`; an address of another kind is not passed
over.  `connect` tells whether the connection is made or in progress. -/
def connectNext (connect : Bool) : Except SessionFault (Direct × Bool) :=
  if d.freed then .error .freedDirect
  else
    match d.addrlist with
    | none => .error .nullPtr
    | some l =>
        let pos := d.nextPos
        if load16 l 0 ≤ pos then .ok ({ d with ssl := none, addrpos := pos }, false)
        else if byteAt l pos = Proto.DIRECTC2C_IPV4 then
          .ok ({ d with
            ssl := none
            state := if connect then .connecting else .failed
            addrpos := pos + Proto.DIRECTC2C_ADDRLIST_ITEM_IPV4_SIZE }, true)
        else .ok ({ d with ssl := none, addrpos := pos }, true)

/-- `directc2c_stage2_starttls`; its result is not used. -/
def startTls (r : SslCall) : Direct :=
  let d' := { d with ssl := some ⟨r = .done, none⟩ }
  if r = .closed ∨ r = .error then d' else { d' with state := .waitingTls }

/-- `SSL_connect` or `SSL_accept` has returned 1. -/
def shaken : Direct :=
  { d with ssl := d.ssl.map fun t => { t with handshake := true } }

/-- `verify_peer_cert_common` has returned `PICA_OK` for `id`. -/
def verifiedFor (id : Id) : Direct :=
  { d with ssl := d.ssl.map fun t => { t with verified := some id } }

/-- The new record of `listener_add_connection`, which keeps none when `SSL_accept`
fails. -/
def accepted (r : SslCall) : Option Direct :=
  if r = .closed ∨ r = .error then none
  else some ⟨false, .waitingTls, some ⟨r = .done, none⟩, none, none, 0, false⟩

/-- `process_listener_conn` when the socket is ready; no record is left after an error. -/
def processListenerConn (r : SslCall) (cert : Option PeerCert) : Option Direct :=
  if d.peerCert ≠ none then some d
  else if r = .done then
    cert.map fun c => { d.shaken with peerCert := some c, state := .active }
  else if r.again then some d
  else none

end Direct

section Trust

variable {d d' : Direct} {id : Id} {connect found : Bool}

theorem connectNext_ok
    (h : d.connectNext connect = .ok (d', found)) :
    d.freed = false ∧ d'.freed = false ∧ d'.ssl = none ∧
      (d'.state = d.state ∨ d'.state = .connecting ∨ d'.state = .failed) := by
  have hfreed : d.freed = false := by
    cases hf : d.freed with
    | false => rfl
    | true => simp [Direct.connectNext, hf] at h
  cases hl : d.addrlist with
  | none => simp [Direct.connectNext, hfreed, hl] at h
  | some l =>
      simp only [Direct.connectNext, hfreed, hl, Bool.false_eq_true, if_false] at h
      refine ⟨hfreed, ?_⟩
      by_cases hend : load16 l 0 ≤ d.nextPos
      · rw [if_pos hend] at h
        cases h
        exact ⟨rfl, rfl, .inl rfl⟩
      · rw [if_neg hend] at h
        by_cases hkind : byteAt l d.nextPos = Proto.DIRECTC2C_IPV4
        · rw [if_pos hkind] at h
          cases h
          refine ⟨rfl, rfl, .inr ?_⟩
          cases connect with
          | true => exact .inl rfl
          | false => exact .inr rfl
        · rw [if_neg hkind] at h
          cases h
          exact ⟨rfl, rfl, .inl rfl⟩

/-- The handshake is complete and the certificate has been verified. -/
theorem trusted_of_verified
    {t : Tls}
    (hfreed : d.freed = false) (hssl : d.ssl = some t) :
    (d.shaken.verifiedFor id).Trusted id := by
  refine ⟨hfreed, { handshake := true, verified := some id }, ?_, rfl, rfl⟩
  simp [Direct.verifiedFor, Direct.shaken, hssl]

end Trust

end Client
end PicaPica
