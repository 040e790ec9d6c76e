import PicaPica.ByteOrder
import PicaPica.Client.FileDelivery

/-!
# Notices of other logins

`c2n_optstage7_multilogin` signs the id of the account, the time and the address of the node;
`procmsg_MULTILOGIN` of another instance takes the message apart again.  The last call of OpenSSL
in `PICA_signverify` and `PICA_do_signature` is a parameter: it depends on the key and on the bytes
that the digest has taken.

A notice that is reported is newer than all notices reported before (`receive_run`), and a notice
of `c2n_optstage7_multilogin` is read as it was written (`procmsg_noticeFrame`).
-/

namespace PicaPica
namespace Client

/-! ## Signatures -/

/-- What the calls return that come before the last one. -/
structure DigestCalls where
  /-- `EVP_MD_CTX_create` -/
  ctx : Bool
  init : Int
  /-- for the part with this number -/
  update : Nat → Int

namespace DigestCalls

/-- No call fails. -/
def fine : DigestCalls :=
  ⟨true, 1, fun _ => 1⟩

variable (d : DigestCalls)

/-- The loop over the parts, from the part with the number `i`. -/
def updates : Nat → List (List UInt8) → List UInt8 → Except Int (List UInt8)
  | _, [], taken => .ok taken
  | i, part :: parts, taken =>
      if d.update i ≠ 1 then .error (d.update i) else updates (i + 1) parts (taken ++ part)

/-- The bytes that the digest has taken, or the value that is returned. -/
def digest (parts : List (List UInt8)) : Except Int (List UInt8) :=
  if d.ctx = false then .error 0
  else if d.init ≠ 1 then .error d.init
  else d.updates 0 parts []

/-- `PICA_signverify`; `final` is `EVP_DigestVerifyFinal`. -/
def signverify (final : List UInt8 → List UInt8 → Int) (parts : List (List UInt8))
    (sig : List UInt8) : Int :=
  match d.digest parts with
  | .error ret => ret
  | .ok taken => if final taken sig = 1 then 1 else 0

end DigestCalls

/-- What the calls of `PICA_do_signature` return. -/
structure SignCalls where
  digest : DigestCalls
  /-- the first `EVP_DigestSignFinal`, for the length -/
  size : Int
  malloc : Bool
  final : Int

/-- `PICA_do_signature`; the second `EVP_DigestSignFinal` writes the signature `sign`. -/
def doSignature (e : SignCalls) (sign : List UInt8 → List UInt8) (parts : List (List UInt8)) :
    Except Int (List UInt8) :=
  match e.digest.digest parts with
  | .error ret => .error ret
  | .ok taken =>
      if e.size ≠ 1 then .error e.size
      else if e.malloc = false then .error 0
      else if e.final = 1 then .ok (sign taken)
      else .error e.final

section Signatures

variable {d : DigestCalls} {parts : List (List UInt8)} {taken : List UInt8}

theorem updates_ok {i : Nat} {pre : List UInt8} (h : d.updates i parts pre = .ok taken) :
    taken = pre ++ parts.flatten := by
  induction parts generalizing i pre with
  | nil =>
      cases h
      simp
  | cons part parts ih =>
      rw [DigestCalls.updates] at h
      split_ifs at h with hret
      rw [ih h, List.flatten_cons, List.append_assoc]

theorem updates_fine {i : Nat} {pre : List UInt8} :
    DigestCalls.fine.updates i parts pre = .ok (pre ++ parts.flatten) := by
  induction parts generalizing i pre with
  | nil => simp [DigestCalls.updates]
  | cons part parts ih =>
      rw [DigestCalls.updates, if_neg (fun h => h rfl), ih, List.flatten_cons, List.append_assoc]

/-- What is hashed is the parts one behind the other. -/
theorem digest_ok (h : d.digest parts = .ok taken) : taken = parts.flatten := by
  rw [DigestCalls.digest] at h
  split_ifs at h
  exact updates_ok h

theorem digest_fine : DigestCalls.fine.digest parts = .ok parts.flatten :=
  updates_fine

theorem updates_error {i : Nat} {pre : List UInt8} {ret : Int}
    (h : d.updates i parts pre = .error ret) : ret ≠ 1 := by
  induction parts generalizing i pre with
  | nil => cases h
  | cons part parts ih =>
      rw [DigestCalls.updates] at h
      split_ifs at h with hret
      · cases h
        exact hret
      · exact ih h

theorem digest_error {ret : Int} (h : d.digest parts = .error ret) : ret ≠ 1 := by
  rw [DigestCalls.digest] at h
  split_ifs at h with hctx hinit
  · cases h
    decide
  · cases h
    exact hinit
  · exact updates_error h

/-- A signature is accepted for the parts one behind the other. -/
theorem signverify_one {final : List UInt8 → List UInt8 → Int} {sig : List UInt8}
    (h : d.signverify final parts sig = 1) : final parts.flatten sig = 1 := by
  rw [DigestCalls.signverify] at h
  cases hd : d.digest parts with
  | error ret =>
      rw [hd] at h
      exact absurd h (digest_error hd)
  | ok taken =>
      rw [hd] at h
      dsimp only at h
      rw [← digest_ok hd]
      by_contra hno
      rw [if_neg hno] at h
      cases h

theorem signverify_fine {final : List UInt8 → List UInt8 → Int} {sig : List UInt8}
    (h : final parts.flatten sig = 1) : DigestCalls.fine.signverify final parts sig = 1 := by
  rw [DigestCalls.signverify, digest_fine]
  exact if_pos h

theorem doSignature_ok {e : SignCalls} {sign : List UInt8 → List UInt8} {sig : List UInt8}
    (h : doSignature e sign parts = .ok sig) : sig = sign parts.flatten := by
  rw [doSignature] at h
  cases hd : e.digest.digest parts with
  | error ret =>
      rw [hd] at h
      cases h
  | ok taken =>
      rw [hd] at h
      dsimp only at h
      split_ifs at h
      cases h
      rw [digest_ok hd]

end Signatures

/-! ## The message -/

/-- `PICA_ERRNOMEM`, `PICA_ERRSSL`, `PICA_ERRMSGSIZE` and `PICA_ERRFILEOPEN`. -/
def errNoMem : Int := -2
def errSsl : Int := -3
def errMsgSize : Int := -12
def errFileOpen : Int := -20

/-- `PICA_PROTO_MULTILOGIN_MAXSIGSIZE`. -/
def maxSigSize : Nat := 65265

/-- What the parts of `c2n_optstage7_multilogin` get from outside. -/
structure StageEnv (Priv : Type) where
  time : UInt64
  pkeyNew : Bool
  fopen : Bool
  rsa : Option Priv
  setRsa : Int
  sign : SignCalls
  mem : Bool

/-- The message about a login at the node `a`. -/
def noticeFrame (timestamp : Nat) (a : SockAddr) (sig : List UInt8) : Frame :=
  head Proto.MULTILOGIN ++ le16 (8 + Proto.NODELIST_ITEM_IPV4_SIZE + sig.length) ++
    (le64 timestamp ++ Node.nodelistItem a ++ sig)

/-- The parts that are signed. -/
def noticeParts (id : Id) (timestamp addr : List UInt8) : List (List UInt8) :=
  [id.1, timestamp, addr]

/-- `c2n_optstage7_multilogin` for the account `id` at the node `srvAddr`: the value that is
returned, and the message in the write buffer. -/
def c2nOptstage7Multilogin {Priv : Type} (sign : Priv → List UInt8 → List UInt8) (id : Id)
    (srvAddr : SockAddr) (e : StageEnv Priv) : Int × Option Frame :=
  let timestamp := e.time.toNat
  let nodeAddr := Node.nodelistItem srvAddr
  if e.pkeyNew = false then (errNoMem, none)
  else if e.fopen = false then (errFileOpen, none)
  else
    match e.rsa with
    | none => (errSsl, none)
    | some rsa =>
        if e.setRsa ≠ 1 then (e.setRsa, none)
        else
          match doSignature e.sign (sign rsa) (noticeParts id (le64 timestamp) nodeAddr) with
          | .error ret => (ret, none)
          | .ok sig =>
              if maxSigSize < sig.length then (errMsgSize, none)
              else if e.mem = false then (errNoMem, none)
              else (0, some (noticeFrame timestamp srvAddr sig))

/-! ## The handler -/

/-- What `procmsg_MULTILOGIN` finds in the certificate file of the account. -/
inductive OwnCert (Pub : Type)
  | noFile
  | noCert
  | noKey
  | key (pubkey : Pub)

/-- What `procmsg_MULTILOGIN` gets from outside. -/
structure NoticeEnv (Pub : Type) where
  cert : OwnCert Pub
  digest : DigestCalls

/-- The arguments of `multilogin_cb`. -/
structure MultiloginCb where
  timestamp : Nat
  addrBin : List UInt8
  addrStr : List Char
  port : Nat
deriving DecidableEq

/-- The account of a connection, and `multilogin_last_timestamp`. -/
structure Notices where
  id : Id
  last : Nat
deriving DecidableEq

/-- Bytes of a message. -/
def field (buf : Frame) (off len : Nat) : Except FileFault (List UInt8) :=
  if off + len ≤ buf.length then .ok ((buf.drop off).take len) else .error .outside

namespace Notices

/-- The record of a new connection. -/
def fresh (id : Id) : Notices :=
  ⟨id, 0⟩

variable {Pub : Type} (final : Pub → List UInt8 → List UInt8 → Int) (c : Notices)

/-- `procmsg_MULTILOGIN`, with its call of `multilogin_cb`. -/
def procmsgMULTILOGIN (e : NoticeEnv Pub) (buf : Frame) :
    Except FileFault (Notices × Option MultiloginCb × Nat) := do
  let payloadLen := leNat (← field buf 2 2)
  if payloadLen ≤ 8 + Proto.NODELIST_ITEM_IPV4_SIZE then return (c, none, 1)
  let timestamp ← field buf 4 8
  if leNat timestamp ≤ c.last then return (c, none, 1)
  match e.cert with
  | .noFile => return (c, none, 1)
  | .noCert => return (c, none, 1)
  | .noKey => return (c, none, 1)
  | .key pubkey =>
      let kind ← field buf 12 1
      if leNat kind ≠ Proto.NEWNODE_IPV4 then return (c, none, 1)
      let siglen := payloadLen - 8 - Proto.NODELIST_ITEM_IPV4_SIZE
      if siglen ≤ 0 then return (c, none, 1)
      let addr ← field buf 12 Proto.NODELIST_ITEM_IPV4_SIZE
      let sig ← field buf 19 siglen
      if e.digest.signverify (final pubkey) (noticeParts c.id timestamp addr) sig ≠ 1 then
        return (c, none, 1)
      let ipv4 ← field buf 13 4
      let port ← field buf 17 2
      return ({ c with last := leNat timestamp },
        some ⟨leNat timestamp, addr, inetNtoa (leNat ipv4), ntohs (leNat port)⟩, 1)

/-- The messages that are received one after the other: for each of them what is reported and what
the handler returns. -/
def receive : Notices → List (NoticeEnv Pub × Frame) →
    Except FileFault (Notices × List (Option MultiloginCb × Nat))
  | c, [] => .ok (c, [])
  | c, (e, f) :: xs => do
      let (c, cb, ret) ← c.procmsgMULTILOGIN final e f
      let (c, rs) ← receive c xs
      return (c, (cb, ret) :: rs)

end Notices

/-! ## Bytes -/

section Fields

variable {l : List UInt8}

/-- The digits of the number in `l` are the bytes of `l`. -/
theorem digits_leNat :
    ((List.range l.length).map fun i => UInt8.ofNat (leNat l / 256 ^ i)) = l := by
  induction l with
  | nil => rfl
  | cons b l ih =>
      have hb := b.toNat_lt
      rw [List.length_cons, List.range_succ_eq_map, List.map_cons, List.map_map]
      congr 1
      · rw [leNat, Nat.pow_zero, Nat.div_one]
        refine UInt8.toNat_inj.mp ?_
        rw [UInt8.toNat_ofNat']
        omega
      · refine Eq.trans (List.map_congr_left fun i _ => ?_) ih
        have hdiv : (b.toNat + 256 * leNat l) / 256 = leNat l := by omega
        simp only [Function.comp_apply, Nat.succ_eq_add_one, leNat]
        rw [Nat.pow_succ', ← Nat.div_div_eq_div_mul, hdiv]

theorem le64_leNat (h : l.length = 8) : le64 (leNat l) = l := by
  rw [le64, ← h]
  exact digits_leNat

/-- Seven bytes with the type of an IPv4 item are the item of an address. -/
theorem eq_nodelistItem
    (hlen : l.length = 7) (hkind : byteAt l 0 = Proto.NEWNODE_IPV4) :
    l = Node.nodelistItem (addrAt l 1) ∧ (addrAt l 1).Fits := by
  match l, hlen with
  | [t, a, b, c, d, p, q], _ =>
      have ht : t = 160 := UInt8.toNat_inj.mp hkind
      have ha := a.toNat_lt
      have hb := b.toNat_lt
      have hc := c.toNat_lt
      have hd := d.toNat_lt
      have hp := p.toNat_lt
      have hq := q.toNat_lt
      subst ht
      refine ⟨?_, ?_⟩
      · simp only [Node.nodelistItem, addrBytes, addrAt, load16, leNat, le16, List.drop_succ_cons,
          List.drop_zero, List.take_succ_cons, List.take_zero, List.cons_append, List.nil_append]
        simp only [List.cons.injEq, and_true, ← UInt8.toNat_inj, UInt8.toNat_ofNat']
        refine ⟨rfl, ?_, ?_, ?_, ?_, ?_, ?_⟩ <;> omega
      · simp only [SockAddr.Fits, addrAt, load16, leNat, List.drop_succ_cons, List.drop_zero,
          List.take_succ_cons, List.take_zero]
        omega

theorem field_ok {buf : Frame} {off len : Nat} (h : off + len ≤ buf.length) :
    field buf off len = .ok ((buf.drop off).take len) :=
  if_pos h

end Fields

/-! ## One message -/

section Message

variable {Pub : Type} {final : Pub → List UInt8 → List UInt8 → Int} {c : Notices}
  {e : NoticeEnv Pub} {f : Frame}

/-- The message is the timestamp, the address and `sig` behind the header, and `sig` has been
accepted as signature of the account, the timestamp and the address. -/
structure Accepted (final : Pub → List UInt8 → List UInt8 → Int) (id : Id) (e : NoticeEnv Pub)
    (f : Frame) (cb : MultiloginCb) (sig : List UInt8) : Prop where
  parts : f = f.take 4 ++ (le64 cb.timestamp ++ cb.addrBin ++ sig)
  verified : ∃ key, e.cert = .key key ∧
    e.digest.signverify (final key) (noticeParts id (le64 cb.timestamp) cb.addrBin) sig = 1 ∧
    final key (id.1 ++ le64 cb.timestamp ++ cb.addrBin) sig = 1
  addr : ∃ a : SockAddr, a.Fits ∧ cb.addrBin = Node.nodelistItem a ∧
    cb.addrStr = inetNtoa a.addr ∧ cb.port = ntohs a.port

/-- The fields of a message that the handler has compared. -/
theorem accepted_fields
    {id : Id} {pubkey : Pub} {payload : Nat}
    (hlen : f.length = 4 + payload) (hsize : 19 < f.length) (hcert : e.cert = .key pubkey)
    (hkind : leNat ((f.drop 12).take 1) = Proto.NEWNODE_IPV4)
    (hverify : e.digest.signverify (final pubkey)
      (noticeParts id ((f.drop 4).take 8) ((f.drop 12).take 7))
      ((f.drop 19).take (payload - 8 - 7)) = 1) :
    Accepted final id e f
      ⟨leNat ((f.drop 4).take 8), (f.drop 12).take 7, inetNtoa (leNat ((f.drop 13).take 4)),
        ntohs (leNat ((f.drop 17).take 2))⟩
      ((f.drop 19).take (payload - 8 - 7)) := by
  have htimestamp : ((f.drop 4).take 8).length = 8 := by
    rw [List.length_take, List.length_drop]
    omega
  have haddr : ((f.drop 12).take 7).length = 7 := by
    rw [List.length_take, List.length_drop]
    omega
  have hfirst : byteAt ((f.drop 12).take 7) 0 = Proto.NEWNODE_IPV4 := by
    rw [← hkind]
    cases hf : f.drop 12 with
    | nil => rfl
    | cons b l => simp [byteAt, leNat]
  obtain ⟨hitem, hfits⟩ := eq_nodelistItem haddr hfirst
  refine ⟨?_, ⟨pubkey, hcert, ?_, ?_⟩, addrAt ((f.drop 12).take 7) 1, hfits, hitem, ?_, ?_⟩
  · dsimp only
    have hsig : (f.drop 19).take (payload - 8 - 7) = f.drop 19 := by
      refine List.take_of_length_le ?_
      rw [List.length_drop]
      omega
    have hrest : f.drop 12 = (f.drop 12).take 7 ++ f.drop 19 := by
      conv_lhs => rw [← List.take_append_drop 7 (f.drop 12), List.drop_drop]
    have hbody : f.drop 4 = (f.drop 4).take 8 ++ f.drop 12 := by
      conv_lhs => rw [← List.take_append_drop 8 (f.drop 4), List.drop_drop]
    rw [le64_leNat htimestamp, hsig, List.append_assoc, ← hrest, ← hbody,
      List.take_append_drop]
  · dsimp only
    rw [le64_leNat htimestamp]
    exact hverify
  · dsimp only
    rw [le64_leNat htimestamp, List.append_assoc]
    have hone := signverify_one hverify
    rwa [noticeParts, List.flatten_cons, List.flatten_cons, List.flatten_cons, List.flatten_nil,
      List.append_nil] at hone
  · dsimp only
    simp only [addrAt, List.drop_take, List.drop_drop, List.take_take, Nat.reduceAdd,
      Nat.reduceSub, Nat.min_eq_left (show 4 ≤ 6 by decide)]
  · dsimp only
    simp only [addrAt, load16, List.drop_take, List.drop_drop, List.take_take, Nat.reduceAdd,
      Nat.reduceSub, Nat.min_self]

/-- A message with a newer timestamp and a signature that is accepted is reported. -/
theorem procmsgMULTILOGIN_accepts
    {pubkey : Pub}
    (hlen : f.length = 4 + load16 f 2) (hsize : 19 < f.length)
    (hnew : c.last < leNat ((f.drop 4).take 8)) (hcert : e.cert = .key pubkey)
    (hkind : leNat ((f.drop 12).take 1) = Proto.NEWNODE_IPV4)
    (hverify : e.digest.signverify (final pubkey)
      (noticeParts c.id ((f.drop 4).take 8) ((f.drop 12).take 7))
      ((f.drop 19).take (load16 f 2 - 8 - 7)) = 1) :
    c.procmsgMULTILOGIN final e f = .ok ({ c with last := leNat ((f.drop 4).take 8) },
      some ⟨leNat ((f.drop 4).take 8), (f.drop 12).take 7, inetNtoa (leNat ((f.drop 13).take 4)),
        ntohs (leNat ((f.drop 17).take 2))⟩, 1) := by
  have hseven : Proto.NODELIST_ITEM_IPV4_SIZE = 7 := rfl
  have hpayload : field f 2 2 = .ok ((f.drop 2).take 2) := field_ok (by omega)
  rw [load16] at hlen hverify
  rw [Notices.procmsgMULTILOGIN, hpayload]
  simp only [bind, Except.bind, pure, Except.pure, hseven]
  rw [if_neg (by omega), field_ok (by omega)]
  dsimp only
  rw [if_neg (by omega), hcert]
  dsimp only
  rw [field_ok (by omega)]
  dsimp only
  rw [if_neg (by simp [hkind]), if_neg (by omega), field_ok (by omega)]
  dsimp only
  rw [field_ok (by omega)]
  dsimp only
  rw [if_neg (by simp [hverify]), field_ok (by omega)]
  dsimp only
  rw [field_ok (by omega)]

/-- **What the handler does with a complete message.** -/
theorem procmsgMULTILOGIN_cases (hlen : f.length = 4 + load16 f 2) :
    c.procmsgMULTILOGIN final e f = .ok (c, none, 1) ∨
    ∃ cb sig, c.procmsgMULTILOGIN final e f = .ok ({ c with last := cb.timestamp }, some cb, 1) ∧
      c.last < cb.timestamp ∧ Accepted final c.id e f cb sig := by
  have hseven : Proto.NODELIST_ITEM_IPV4_SIZE = 7 := rfl
  have hpayload : field f 2 2 = .ok ((f.drop 2).take 2) := field_ok (by omega)
  by_cases hgood : 19 < f.length ∧ c.last < leNat ((f.drop 4).take 8) ∧
      leNat ((f.drop 12).take 1) = Proto.NEWNODE_IPV4 ∧
      ∃ pubkey, e.cert = .key pubkey ∧ e.digest.signverify (final pubkey)
        (noticeParts c.id ((f.drop 4).take 8) ((f.drop 12).take 7))
        ((f.drop 19).take (load16 f 2 - 8 - 7)) = 1
  · obtain ⟨hsize, hnew, hkind, pubkey, hcert, hverify⟩ := hgood
    exact .inr ⟨_, _, procmsgMULTILOGIN_accepts hlen hsize hnew hcert hkind hverify, hnew,
      accepted_fields hlen hsize hcert hkind hverify⟩
  -- the checks in the order of the handler; the last one cannot be passed
  refine .inl ?_
  rw [load16] at hlen hgood
  rw [Notices.procmsgMULTILOGIN, hpayload]
  simp only [bind, Except.bind, pure, Except.pure, hseven]
  by_cases hshort : leNat ((f.drop 2).take 2) ≤ 8 + 7
  · rw [if_pos hshort]
  rw [if_neg hshort, field_ok (by omega)]
  dsimp only
  by_cases hold : leNat ((f.drop 4).take 8) ≤ c.last
  · rw [if_pos hold]
  rw [if_neg hold]
  cases hcert : e.cert with
  | noFile => rfl
  | noCert => rfl
  | noKey => rfl
  | key pubkey =>
      dsimp only
      rw [field_ok (by omega)]
      dsimp only
      by_cases hkind : leNat ((f.drop 12).take 1) ≠ Proto.NEWNODE_IPV4
      · rw [if_pos hkind]
      rw [if_neg hkind, if_neg (by omega), field_ok (by omega)]
      dsimp only
      rw [field_ok (by omega)]
      dsimp only
      refine if_pos fun hverify => hgood ⟨by omega, by omega, Decidable.not_not.mp hkind, pubkey,
        hcert, hverify⟩

end Message

/-- On a little-endian host this is the message of `ByteOrder.lean`. -/
theorem noticeFrame_little {ts : Nat} {a : SockAddr} {sig : List UInt8}
    (h : sig.length ≤ maxSigSize) :
    ByteOrder.little.c2nOptstage7Multilogin ts a sig = some (noticeFrame ts a sig) :=
  if_neg (Nat.not_lt.mpr h)

/-- A complete `MULTILOGIN` message, as the framer of the client passes it on. -/
def IsNotice {σ : Type} (h : Nat → σ → Frame → σ × Nat) (f : Frame) : Prop :=
  byteAt f 0 = Proto.MULTILOGIN ∧ msggetsize f f.length (c2nTable h) = f.length

instance {σ : Type} (h : Nat → σ → Frame → σ × Nat) (f : Frame) : Decidable (IsNotice h f) :=
  inferInstanceAs (Decidable (_ ∧ _))

/-! ## A message of another instance -/

section Notice

variable {ts : Nat} {a : SockAddr} {sig : List UInt8}

theorem length_noticeFrame : (noticeFrame ts a sig).length = 19 + sig.length := by
  rw [noticeFrame, List.length_append, List.length_append, List.length_append, List.length_append,
    length_le64, length_nodelistItem, length_head, length_le16]
  omega

theorem load16_noticeFrame (h : sig.length ≤ maxSigSize) :
    load16 (noticeFrame ts a sig) 2 = 15 + sig.length := by
  have hcut : ((noticeFrame ts a sig).drop 2).take 2 =
      le16 (8 + Proto.NODELIST_ITEM_IPV4_SIZE + sig.length) := by
    rw [noticeFrame, List.append_assoc, List.drop_left' (length_head _),
      List.take_left' (length_le16 _)]
  have hmax : maxSigSize = 65265 ∧ Proto.NODELIST_ITEM_IPV4_SIZE = 7 := ⟨rfl, rfl⟩
  rw [load16, hcut, leNat_le16 (by omega)]
  omega

/-- What is behind the length field. -/
theorem drop_noticeFrame :
    (noticeFrame ts a sig).drop 4 = le64 ts ++ (Node.nodelistItem a ++ sig) := by
  have hfront : (head Proto.MULTILOGIN ++
      le16 (8 + Proto.NODELIST_ITEM_IPV4_SIZE + sig.length)).length = 4 := rfl
  rw [noticeFrame, List.drop_left' hfront, List.append_assoc]

theorem timestamp_noticeFrame : ((noticeFrame ts a sig).drop 4).take 8 = le64 ts := by
  rw [drop_noticeFrame, List.take_left' (length_le64 ts)]

theorem item_noticeFrame :
    (noticeFrame ts a sig).drop 12 = Node.nodelistItem a ++ sig := by
  have hdrop : (noticeFrame ts a sig).drop 12 = ((noticeFrame ts a sig).drop 4).drop 8 := by
    rw [List.drop_drop]
  rw [hdrop, drop_noticeFrame, List.drop_left' (length_le64 ts)]

theorem sig_noticeFrame : (noticeFrame ts a sig).drop 19 = sig := by
  have hdrop : (noticeFrame ts a sig).drop 19 = ((noticeFrame ts a sig).drop 12).drop 7 := by
    rw [List.drop_drop]
  rw [hdrop, item_noticeFrame, List.drop_left' (length_nodelistItem a)]

theorem addrAt_noticeFrame (ha : a.Fits) : addrAt (noticeFrame ts a sig) 13 = a := by
  generalize hpre : head Proto.MULTILOGIN ++
    le16 (8 + Proto.NODELIST_ITEM_IPV4_SIZE + sig.length) ++ le64 ts = pre
  have hlen : pre.length = 12 := by
    rw [← hpre, List.length_append, length_le64]
    rfl
  have hitem : addrAt (pre ++ Node.nodelistItem a ++ sig) (pre.length + 1) = a := addrAt_item ha
  rw [hlen] at hitem
  rw [noticeFrame, ← List.append_assoc, ← List.append_assoc, hpre]
  exact hitem

/-- The message passes the framer of another instance. -/
theorem isNotice_noticeFrame
    {σ : Type} {h : Nat → σ → Frame → σ × Nat} (hsig : sig.length ≤ maxSigSize) :
    IsNotice h (noticeFrame ts a sig) := by
  have hhead : byteAt (noticeFrame ts a sig) 0 = Proto.MULTILOGIN ∧
      byteAt (noticeFrame ts a sig) 1 = Proto.MULTILOGIN := ⟨rfl, rfl⟩
  refine ⟨hhead.1, ?_⟩
  have hmeasure := (ReadBy.multiloginClient ts a sig h).measure hhead
    (by rw [length_noticeFrame]; omega)
  rw [hmeasure]
  have hload : tailLen (noticeFrame ts a sig) 2 = 15 + sig.length := load16_noticeFrame hsig
  rw [hload, length_noticeFrame]
  omega

/-- The message is what its fields say. -/
theorem accepted_noticeFrame
    {Pub : Type} {final : Pub → List UInt8 → List UInt8 → Int} {c : Notices} {e : NoticeEnv Pub}
    {pubkey : Pub}
    (hts : ts < 18446744073709551616) (ha : a.Fits) (hsig : sig.length ≤ maxSigSize)
    (hpos : sig ≠ []) (hnew : c.last < ts) (hcert : e.cert = .key pubkey)
    (hverify : e.digest.signverify (final pubkey)
      (noticeParts c.id (le64 ts) (Node.nodelistItem a)) sig = 1) :
    c.procmsgMULTILOGIN final e (noticeFrame ts a sig) =
      .ok ({ c with last := ts },
        some ⟨ts, Node.nodelistItem a, inetNtoa a.addr, ntohs a.port⟩, 1) ∧
    Accepted final c.id e (noticeFrame ts a sig)
      ⟨ts, Node.nodelistItem a, inetNtoa a.addr, ntohs a.port⟩ sig := by
  have hlen := @length_noticeFrame ts a sig
  have hload := @load16_noticeFrame ts a sig hsig
  have hone := List.length_pos_iff.mpr hpos
  have hitem : ((noticeFrame ts a sig).drop 12).take 7 = Node.nodelistItem a := by
    rw [item_noticeFrame, List.take_left' (length_nodelistItem a)]
  have htail : ((noticeFrame ts a sig).drop 19).take (15 + sig.length - 8 - 7) = sig := by
    rw [sig_noticeFrame, List.take_of_length_le (by omega)]
  have haddr := @addrAt_noticeFrame ts a sig ha
  rw [addrAt, load16] at haddr
  have hkind : leNat (((noticeFrame ts a sig).drop 12).take 1) = Proto.NEWNODE_IPV4 := by
    rw [item_noticeFrame, Node.nodelistItem]
    rfl
  have hfull : (noticeFrame ts a sig).length = 4 + load16 (noticeFrame ts a sig) 2 := by
    rw [hload, hlen]
    omega
  have hverify' : e.digest.signverify (final pubkey)
      (noticeParts c.id (((noticeFrame ts a sig).drop 4).take 8)
        (((noticeFrame ts a sig).drop 12).take 7))
      (((noticeFrame ts a sig).drop 19).take (load16 (noticeFrame ts a sig) 2 - 8 - 7)) = 1 := by
    rw [timestamp_noticeFrame, hitem, hload, htail]
    exact hverify
  have hrun := procmsgMULTILOGIN_accepts hfull (by omega)
    (by rw [timestamp_noticeFrame, leNat_le64 hts]; exact hnew) hcert hkind hverify'
  have hfields := accepted_fields hfull (by omega) hcert hkind hverify'
  rw [timestamp_noticeFrame, leNat_le64 hts, hitem] at hrun hfields
  have hip := congrArg SockAddr.addr haddr
  have hport := congrArg SockAddr.port haddr
  dsimp only at hip hport
  rw [hip, hport] at hrun hfields
  rw [hload, htail] at hfields
  exact ⟨hrun, hfields⟩

/-- **What `c2n_optstage7_multilogin` sends.** -/
theorem c2nOptstage7Multilogin_some
    {Priv : Type} {sign : Priv → List UInt8 → List UInt8} {id : Id} {e : StageEnv Priv} {ret : Int}
    {f : Frame} {priv : Priv} (hpriv : e.rsa = some priv)
    (h : c2nOptstage7Multilogin sign id a e = (ret, some f)) :
    f = noticeFrame e.time.toNat a
        (sign priv (id.1 ++ le64 e.time.toNat ++ Node.nodelistItem a)) ∧
      (sign priv (id.1 ++ le64 e.time.toNat ++ Node.nodelistItem a)).length ≤ maxSigSize := by
  rw [c2nOptstage7Multilogin] at h
  rw [hpriv] at h
  dsimp only at h
  cases hd : doSignature e.sign (sign priv)
      (noticeParts id (le64 e.time.toNat) (Node.nodelistItem a)) with
  | error ret =>
      rw [hd] at h
      split_ifs at h <;> cases h
  | ok sig =>
      have hsig : sig = sign priv (id.1 ++ le64 e.time.toNat ++ Node.nodelistItem a) := by
        have hflat := doSignature_ok hd
        rwa [noticeParts, List.flatten_cons, List.flatten_cons, List.flatten_cons,
          List.flatten_nil, List.append_nil, ← List.append_assoc] at hflat
      rw [← hsig]
      rw [hd] at h
      dsimp only at h
      split_ifs at h with hpkey hfile hset hmax hmem
      · cases h
      · cases h
      · cases h
      · cases h
      · cases h
      · cases h
        exact ⟨rfl, by omega⟩

end Notice

/-! ## All messages of a connection -/

/-- The calls of `multilogin_cb`, in order. -/
def noticed (rs : List (Option MultiloginCb × Nat)) : List MultiloginCb :=
  rs.filterMap (·.1)

section Run

variable {Pub : Type} {final : Pub → List UInt8 → List UInt8 → Int}

/-- **The messages of a run.** -/
theorem receive_run
    {σ : Type} {h : Nat → σ → Frame → σ × Nat} {c : Notices} {inputs : List (NoticeEnv Pub × Frame)}
    (hframes : ∀ x ∈ inputs, IsNotice h x.2) :
    ∃ c' rs, Notices.receive final c inputs = .ok (c', rs) ∧ c'.id = c.id ∧
      (∀ r ∈ rs, r.2 = 1) ∧
      (∀ cb ∈ noticed rs, c.last < cb.timestamp) ∧
      (noticed rs).Pairwise (fun x y => x.timestamp < y.timestamp) ∧
      c'.last = ((noticed rs).map (·.timestamp)).getLastD c.last ∧
      List.Forall₂ (fun x r => ∀ cb, r.1 = some cb → ∃ sig, Accepted final c.id x.1 x.2 cb sig)
        inputs rs := by
  induction inputs generalizing c with
  | nil => exact ⟨c, [], rfl, rfl, nofun, nofun, .nil, rfl, .nil⟩
  | cons x inputs ih =>
      obtain ⟨e, f⟩ := x
      have hf := hframes (e, f) List.mem_cons_self
      have hlen : f.length = 4 + load16 f 2 := by
        refine length_of_entry ?_ hf.2
        rw [hf.1]
        rfl
      have hrest : ∀ x ∈ inputs, IsNotice h x.2 :=
        fun x hx => hframes x (List.mem_cons_of_mem _ hx)
      rcases @procmsgMULTILOGIN_cases Pub final c e f hlen with hno | ⟨cb, sig, hyes, hnew, hacc⟩
      · obtain ⟨c', rs, hrun, hid, hret, hlow, hpair, hlast, hall⟩ := @ih c hrest
        refine ⟨c', (none, 1) :: rs, ?_, hid, ?_, hlow, hpair, hlast, .cons nofun hall⟩
        · rw [Notices.receive, hno]
          simp only [bind, Except.bind, hrun, pure, Except.pure]
        · exact List.forall_mem_cons.mpr ⟨rfl, hret⟩
      · obtain ⟨c', rs, hrun, hid, hret, hlow, hpair, hlast, hall⟩ :=
          @ih { c with last := cb.timestamp } hrest
        have hcons : noticed ((some cb, 1) :: rs) = cb :: noticed rs := rfl
        refine ⟨c', (some cb, 1) :: rs, ?_, hid, ?_, ?_, ?_, ?_, .cons ?_ hall⟩
        · rw [Notices.receive, hyes]
          simp only [bind, Except.bind, hrun, pure, Except.pure]
        · exact List.forall_mem_cons.mpr ⟨rfl, hret⟩
        · rw [hcons]
          exact List.forall_mem_cons.mpr ⟨hnew, fun y hy => Nat.lt_trans hnew (hlow y hy)⟩
        · rw [hcons]
          exact List.pairwise_cons.mpr ⟨hlow, hpair⟩
        · rw [hcons, hlast, List.map_cons, List.getLastD_cons]
        · intro y hy
          cases hy
          exact ⟨sig, hacc⟩

end Run

/-- **Notices are authentic, each newer than the one before, and reach another instance.**
The handler reads inside the messages and never returns 0.  A message of another instance of the
account, with a time after the last one reported, passes the framer and is reported with the
time, the address and the signature it was made of. -/
theorem login_notices_authentic
    {Pub Priv σ : Type} (h : Nat → σ → Frame → σ × Nat)
    (final : Pub → List UInt8 → List UInt8 → Int) (id : Id)
    (inputs : List (NoticeEnv Pub × Frame)) (hframes : ∀ x ∈ inputs, IsNotice h x.2) :
    ∃ c rs, Notices.receive final (.fresh id) inputs = .ok (c, rs) ∧
      (∀ r ∈ rs, r.2 ≠ 0) ∧
      (noticed rs).Pairwise (fun x y => x.timestamp < y.timestamp) ∧
      List.Forall₂ (fun x r => ∀ cb, r.1 = some cb → ∃ sig, Accepted final id x.1 x.2 cb sig)
        inputs rs ∧
      ∀ (sign : Priv → List UInt8 → List UInt8) (priv : Priv) (pub : Pub),
        (∀ m, final pub m (sign priv m) = 1 ∧ sign priv m ≠ []) →
        ∀ (stage : StageEnv Priv) (srvAddr : SockAddr) (ret : Int) (f : Frame),
        srvAddr.Fits → stage.rsa = some priv →
        c2nOptstage7Multilogin sign id srvAddr stage = (ret, some f) →
        ((noticed rs).map (·.timestamp)).getLastD 0 < stage.time.toNat →
        IsNotice h f ∧
        c.procmsgMULTILOGIN final ⟨.key pub, .fine⟩ f =
          .ok ({ c with last := stage.time.toNat },
            some ⟨stage.time.toNat, Node.nodelistItem srvAddr, inetNtoa srvAddr.addr,
              ntohs srvAddr.port⟩, 1) ∧
        Accepted final id ⟨.key pub, .fine⟩ f
          ⟨stage.time.toNat, Node.nodelistItem srvAddr, inetNtoa srvAddr.addr, ntohs srvAddr.port⟩
          (sign priv (id.1 ++ le64 stage.time.toNat ++ Node.nodelistItem srvAddr)) := by
  obtain ⟨c, rs, hrun, hid, hret, -, hpair, hlast, hall⟩ :=
    @receive_run Pub final σ h (.fresh id) inputs hframes
  obtain rfl : id = c.id := hid.symm
  refine ⟨c, rs, hrun, fun r hr => by simp [hret r hr], hpair, hall, ?_⟩
  intro sign priv pub hscheme stage srvAddr ret f hfits hpriv hstage hnew
  obtain ⟨rfl, hmax⟩ := c2nOptstage7Multilogin_some hpriv hstage
  refine ⟨isNotice_noticeFrame hmax, ?_⟩
  have hverify : DigestCalls.fine.signverify (final pub)
      (noticeParts c.id (le64 stage.time.toNat) (Node.nodelistItem srvAddr))
      (sign priv (c.id.1 ++ le64 stage.time.toNat ++ Node.nodelistItem srvAddr)) = 1 := by
    refine signverify_fine ?_
    rw [noticeParts, List.flatten_cons, List.flatten_cons, List.flatten_cons,
      List.flatten_nil, List.append_nil, ← List.append_assoc]
    exact (hscheme _).1
  have hlater : c.last < stage.time.toNat := by
    rw [hlast]
    exact hnew
  exact accepted_noticeFrame stage.time.toNat_lt hfits hmax (hscheme _).2 hlater rfl hverify

/-- A scheme whose signatures are the bytes themselves behind a mark. -/
def markSign (_ : Unit) (m : List UInt8) : List UInt8 :=
  7 :: m

def markFinal (_ : Unit) (m sig : List UInt8) : Int :=
  if sig = 7 :: m then 1 else 0

def markStage (time : UInt64) : StageEnv Unit :=
  ⟨time, true, true, some (), 1, ⟨.fine, 1, true, 1⟩, true⟩

/-- A notice of the time 5. -/
def markNotice : Frame :=
  noticeFrame 5 ⟨1, 2⟩ (7 :: ((Id.ofByte 3).1 ++ le64 5 ++ Node.nodelistItem ⟨1, 2⟩))

/-- A notice is reported, its repetition is not, and a later one is. -/
theorem login_notices_two :
    ∃ c rs, Notices.receive markFinal (.fresh (.ofByte 3))
        [(⟨.key (), .fine⟩, markNotice), (⟨.key (), .fine⟩, markNotice)] = .ok (c, rs) ∧
      rs = [(some ⟨5, Node.nodelistItem ⟨1, 2⟩, inetNtoa 1, ntohs 2⟩, 1), (none, 1)] ∧
      ∃ f, c2nOptstage7Multilogin markSign (.ofByte 3) ⟨1, 2⟩ (markStage 6) = (0, some f) ∧
        c.procmsgMULTILOGIN markFinal ⟨.key (), .fine⟩ f =
          .ok ({ c with last := 6 }, some ⟨6, Node.nodelistItem ⟨1, 2⟩, inetNtoa 1, ntohs 2⟩, 1) := by
  obtain ⟨c, rs, hrun, -, -, -, hnext⟩ := login_notices_authentic (fun _ (s : Unit) _ => (s, 1))
    markFinal (.ofByte 3) [(⟨.key (), .fine⟩, markNotice), (⟨.key (), .fine⟩, markNotice)]
    (by decide)
  have hvalue : Notices.receive markFinal (.fresh (.ofByte 3))
      [(⟨.key (), .fine⟩, markNotice), (⟨.key (), .fine⟩, markNotice)] =
      .ok (⟨.ofByte 3, 5⟩,
        [(some ⟨5, Node.nodelistItem ⟨1, 2⟩, inetNtoa 1, ntohs 2⟩, 1), (none, 1)]) := by
    rfl
  rw [hvalue] at hrun
  cases hrun
  refine ⟨_, _, hvalue, rfl, _, rfl, ?_⟩
  exact (hnext markSign () () (fun m => ⟨if_pos rfl, List.cons_ne_nil 7 m⟩) (markStage 6) ⟨1, 2⟩ 0
    _ (by decide) rfl rfl (by decide)).2.1

end Client
end PicaPica
