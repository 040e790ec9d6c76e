import PicaPica.Client.FileTransfer
import PicaPica.Node.NodeList

/-!
# Length fields on hosts of either byte order

`PICA_msggetsize` has a branch for each byte order and decodes the length field the same
way in both.  The functions that write messages store the length as a `uint16_t` of their
host, and some handlers load it as one.  Elsewhere in this development the host is
little-endian; here the byte order is a parameter.
-/

namespace PicaPica

/-- `__BYTE_ORDER__`. -/
inductive ByteOrder
  | little
  | big
deriving DecidableEq

namespace ByteOrder

/-- Bytes of a number, least significant first, in the order of the host. -/
def arrange : ByteOrder → List UInt8 → List UInt8
  | .little, bytes => bytes
  | .big, bytes => bytes.reverse

variable (o : ByteOrder)

/-- `*(uint16_t*)p = n`. -/
def store16 (n : Nat) : List UInt8 :=
  o.arrange (le16 n)

/-- `*(uint64_t*)p = n`. -/
def store64 (n : Nat) : List UInt8 :=
  o.arrange (Client.le64 n)

/-- The unsigned number that is stored in `bytes`. -/
def load (bytes : List UInt8) : Nat :=
  leNat (o.arrange bytes)

/-- `*(uint16_t*)(buf + off)`. -/
def load16 (buf : List UInt8) (off : Nat) : Nat :=
  o.load ((buf.drop off).take 2)

@[simp] theorem length_store16 (n : Nat) : (o.store16 n).length = 2 := by
  cases o <;> rfl

/-! ## The framer -/

/-- Where the loop of `PICA_msggetsize` puts the byte with the number `j`. -/
def position : ByteOrder → Nat → Nat
  | .little, j => j
  | .big, j => 4 - 1 - j

/-- The bytes of `tail_len` after `j` passes of the loop. -/
def tailBytes (buf : List UInt8) : Nat → List UInt8
  | 0 => [0, 0, 0, 0]
  | j + 1 => (tailBytes buf j).set (o.position j) (buf.getD (2 + j) 0)

/-- The table scan of `PICA_msggetsize`. -/
def msggetsizeScan {σ : Type} (buf : List UInt8) (nb : Nat) : List (MsgInfo σ) → Nat
  | [] => 0
  | m :: msgs =>
      if byteAt buf 0 = m.msgid % 256 then
        match m.fixedsz with
        | .fixedSize => m.sz
        | .varSize =>
            if m.sz + 2 ≤ nb then 2 + m.sz + o.load (o.tailBytes buf m.sz) else uintMax
      else msggetsizeScan buf nb msgs

/-- `PICA_msggetsize`. -/
def msggetsize {σ : Type} (buf : List UInt8) (nb : Nat) (msgs : List (MsgInfo σ)) : Nat :=
  if nb < 2 then uintMax
  else if byteAt buf 0 ≠ byteAt buf 1 then 0
  else o.msggetsizeScan buf nb msgs

section Framer

variable {σ : Type} {o : ByteOrder}

/-- Both branches give the bytes behind the header their little-endian weights. -/
theorem load_tailBytes
    {buf : List UInt8} {sz : Nat} (hsz : sz = 1 ∨ sz = 2) :
    o.load (o.tailBytes buf sz) = tailLen buf sz := by
  have hbytes : ∀ (xs : List UInt8), leNat (xs.take 1) = (xs.getD 0 0).toNat ∧
      leNat (xs.take 2) = (xs.getD 0 0).toNat + 256 * (xs.getD 1 0).toNat := by
    intro xs
    match xs with
    | [] => simp [leNat]
    | [a] => simp [leNat]
    | a :: b :: xs => simp [leNat]
  have hget : ∀ j, (buf.drop 2).getD j 0 = buf.getD (2 + j) 0 := by
    intro j
    simp [List.getD_eq_getElem?_getD]
  obtain ⟨hone, htwo⟩ := hbytes (buf.drop 2)
  rw [hget] at hone
  rw [hget, hget] at htwo
  rcases hsz with rfl | rfl
  · rw [tailLen, hone]
    cases o <;> simp [tailBytes, position, load, arrange, leNat]
  · rw [tailLen, htwo]
    cases o <;> simp [tailBytes, position, load, arrange, leNat]

/-- **The framer does not depend on the host.** -/
theorem msggetsize_eq
    {buf : List UInt8} {nb : Nat} {msgs : List (MsgInfo σ)} :
    o.msggetsize buf nb msgs = PicaPica.msggetsize buf nb msgs := by
  have hscan : o.msggetsizeScan buf nb msgs = PicaPica.msggetsizeScan buf nb msgs := by
    induction msgs with
    | nil => rfl
    | cons m msgs ih =>
        have hok := m.sz_ok
        rw [msggetsizeScan, PicaPica.msggetsizeScan, ih]
        cases hkind : m.fixedsz with
        | fixedSize => rfl
        | varSize =>
            rw [hkind] at hok
            dsimp only
            rw [load_tailBytes hok]
  rw [msggetsize, PicaPica.msggetsize, hscan]

end Framer

/-! ## Writers -/

/-- The message of `PICA_send_msg`. -/
def sendMsg (buf : List UInt8) : Option Frame :=
  if Proto.C2CMSG_MAXDATASIZE < buf.length then none
  else some (head Proto.MSGUTF8 ++ o.store16 buf.length ++ buf)

/-- The message of `PICA_send_file`. -/
def sendFile (filename : List UInt8) (fileSize : Nat) : Option Frame :=
  if filename.length = 0 ∨ Proto.MAXFILENAMESIZE < filename.length then none
  else some (head Proto.SENDFILEREQUEST ++ o.store16 (filename.length + 8) ++
    (o.store64 fileSize ++ filename))

/-- The message of `PICA_send_file_fragment`; `data` is what `fread` has returned. -/
def sendFileFragment (data : List UInt8) : Option Frame :=
  if data.length = 0 ∨ Client.maxFragment < data.length then none
  else some (head Proto.FILEFRAGMENT ++ o.store16 data.length ++ data)

/-- The message of `PICA_send_directc2caddrlist`; address and port are in network order on
every host. -/
def sendDirectc2caddrlist (a : SockAddr) : Frame :=
  head Proto.DIRECTC2C_ADDRLIST ++ o.store16 7 ++ (0xA0 :: addrBytes a)

/-- The message of `c2n_optstage7_multilogin`. -/
def c2nOptstage7Multilogin (timestamp : Nat) (a : SockAddr) (sig : List UInt8) :
    Option Frame :=
  if 65265 < sig.length then none
  else some (head Proto.MULTILOGIN ++ o.store16 (8 + Proto.NODELIST_ITEM_IPV4_SIZE + sig.length) ++
    (o.store64 timestamp ++ Node.nodelistItem a ++ sig))

/-- The message of `procmsg_NODELISTREQ`, when the loop ends. -/
def procmsgNODELISTREQ (asking : Option NodeLink) (myAddr : SockAddr) (nls : List NodeLink) :
    Option Frame :=
  match Node.nodelistScan asking nls (Node.nodelistItem myAddr) with
  | .error _ => none
  | .ok nlBuf =>
      let msgid := if asking.isNone then Proto.CLNODELIST else Proto.NODELIST
      some (head msgid ++ o.store16 nlBuf.length ++ nlBuf)

/-- The message of `process_c2c_write` for the bytes `buf` of a link. -/
def processC2cWrite (sender receiver : Id) (buf : List UInt8) : Frame :=
  let sendlen := min buf.length Proto.N2NMSG_MAXDATASIZE
  head Proto.N2NMSG ++ o.store16 (2 * idSize + sendlen) ++
    (sender.1 ++ receiver.1 ++ buf.take sendlen)

end ByteOrder

/-- What the writers are called with. -/
inductive VarMessage
  | msg (buf : List UInt8)
  | file (filename : List UInt8) (fileSize : Nat)
  | fragment (data : List UInt8)
  | addrlist (a : SockAddr)
  | multilogin (timestamp : Nat) (a : SockAddr) (sig : List UInt8)
  | nodelist (asking : Option NodeLink) (myAddr : SockAddr) (nls : List NodeLink)
  | n2nmsg (sender receiver : Id) (buf : List UInt8)

namespace VarMessage

/-- The message a writer pushes on a host, if it pushes one. -/
def written (o : ByteOrder) : VarMessage → Option Frame
  | .msg buf => o.sendMsg buf
  | .file filename fileSize => o.sendFile filename fileSize
  | .fragment data => o.sendFileFragment data
  | .addrlist a => some (o.sendDirectc2caddrlist a)
  | .multilogin timestamp a sig => o.c2nOptstage7Multilogin timestamp a sig
  | .nodelist asking myAddr nls => o.procmsgNODELISTREQ asking myAddr nls
  | .n2nmsg sender receiver buf => some (o.processC2cWrite sender receiver buf)

/-- The number of bytes behind the length field. -/
def payload : VarMessage → Nat
  | .msg buf => buf.length
  | .file filename _ => filename.length + 8
  | .fragment data => data.length
  | .addrlist _ => 7
  | .multilogin _ _ sig => 8 + Proto.NODELIST_ITEM_IPV4_SIZE + sig.length
  | .nodelist asking myAddr nls =>
      match Node.nodelistScan asking nls (Node.nodelistItem myAddr) with
      | .error _ => 0
      | .ok nlBuf => nlBuf.length
  | .n2nmsg _ _ buf => 2 * idSize + min buf.length Proto.N2NMSG_MAXDATASIZE

def msgid : VarMessage → Nat
  | .msg _ => Proto.MSGUTF8
  | .file _ _ => Proto.SENDFILEREQUEST
  | .fragment _ => Proto.FILEFRAGMENT
  | .addrlist _ => Proto.DIRECTC2C_ADDRLIST
  | .multilogin _ _ _ => Proto.MULTILOGIN
  | .nodelist asking _ _ => if asking.isNone then Proto.CLNODELIST else Proto.NODELIST
  | .n2nmsg _ _ _ => Proto.N2NMSG

/-- The handler loads the length field again: `procmsg_FILEFRAGMENT`, `procmsg_N2NMSG`,
`procmsg_SENDFILEREQUEST` and the handlers of `MULTILOGIN`. -/
def rereads : VarMessage → Bool
  | .file _ _ => true
  | .fragment _ => true
  | .multilogin _ _ _ => true
  | .n2nmsg _ _ _ => true
  | _ => false

end VarMessage

/-! ## Readers -/

/-- `c2c_messages` of the client, with any handlers. -/
def c2cTable {σ : Type} (h : Nat → σ → Frame → σ × Nat) : List (MsgInfo σ) :=
  [⟨Proto.MSGUTF8, .varSize, 2, h Proto.MSGUTF8, sz_int16⟩,
   ⟨Proto.MSGOK, .fixedSize, 4, h Proto.MSGOK, sz_four⟩,
   ⟨Proto.SENDFILEREQUEST, .varSize, 2, h Proto.SENDFILEREQUEST, sz_int16⟩,
   ⟨Proto.ACCEPTEDFILE, .fixedSize, 4, h Proto.ACCEPTEDFILE, sz_four⟩,
   ⟨Proto.DENIEDFILE, .fixedSize, 4, h Proto.DENIEDFILE, sz_four⟩,
   ⟨Proto.FILEFRAGMENT, .varSize, 2, h Proto.FILEFRAGMENT, sz_int16⟩,
   ⟨Proto.FILECONTROL, .fixedSize, 4, h Proto.FILECONTROL, sz_four⟩,
   ⟨Proto.DIRECTC2C_ADDRLIST, .varSize, 2, h Proto.DIRECTC2C_ADDRLIST, sz_int16⟩,
   ⟨Proto.DIRECTC2C_FAILED, .fixedSize, 4, h Proto.DIRECTC2C_FAILED, sz_four⟩,
   ⟨Proto.DIRECTC2C_SWITCH, .fixedSize, 4, h Proto.DIRECTC2C_SWITCH, sz_four⟩,
   ⟨Proto.C2CCONNREQ, .fixedSize, 4, h Proto.C2CCONNREQ, sz_four⟩,
   ⟨Proto.INITRESPOK, .fixedSize, 4, h Proto.INITRESPOK, sz_four⟩,
   ⟨Proto.VERDIFFER, .fixedSize, 4, h Proto.VERDIFFER, sz_four⟩]

/-- `c2n_messages` of the client, with any handlers. -/
def c2nTable {σ : Type} (h : Nat → σ → Frame → σ × Nat) : List (MsgInfo σ) :=
  [⟨Proto.CONNREQINC, .fixedSize, 30, h Proto.CONNREQINC, sz_thirty⟩,
   ⟨Proto.NOTFOUND, .fixedSize, 30, h Proto.NOTFOUND, sz_thirty⟩,
   ⟨Proto.FOUND, .fixedSize, 30, h Proto.FOUND, sz_thirty⟩,
   ⟨Proto.CLNODELIST, .varSize, 2, h Proto.CLNODELIST, sz_int16⟩,
   ⟨Proto.PINGREQ, .fixedSize, 4, h Proto.PINGREQ, sz_four⟩,
   ⟨Proto.INITRESPOK, .fixedSize, 4, h Proto.INITRESPOK, sz_four⟩,
   ⟨Proto.VERDIFFER, .fixedSize, 4, h Proto.VERDIFFER, sz_four⟩,
   ⟨Proto.MULTILOGIN, .varSize, 2, h Proto.MULTILOGIN, sz_int16⟩]

/-- The tables of the receivers of a message. -/
inductive ReadBy : VarMessage → (σ : Type) → List (MsgInfo σ) → Prop
  | msg (buf) {σ} (h) : ReadBy (.msg buf) σ (c2cTable h)
  | file (name size) {σ} (h) : ReadBy (.file name size) σ (c2cTable h)
  | fragment (data) {σ} (h) : ReadBy (.fragment data) σ (c2cTable h)
  | addrlist (a) {σ} (h) : ReadBy (.addrlist a) σ (c2cTable h)
  | multiloginComm (ts a sig ci) : ReadBy (.multilogin ts a sig) _ (msginfoComm ci)
  | multiloginMulti (ts a sig ci) : ReadBy (.multilogin ts a sig) _ (msginfoMulti ci)
  | multiloginNode (ts a sig nl) : ReadBy (.multilogin ts a sig) _ (msginfoNode nl)
  | multiloginClient (ts a sig) {σ} (h) : ReadBy (.multilogin ts a sig) σ (c2nTable h)
  | clnodelist (my nls) {σ} (h) : ReadBy (.nodelist none my nls) σ (c2nTable h)
  | nodelist (m my nls nl) : ReadBy (.nodelist (some m) my nls) _ (msginfoNode nl)
  | n2nmsg (i j buf nl) : ReadBy (.n2nmsg i j buf) _ (msginfoNode nl)

section Agree

variable {w r : ByteOrder} {m : VarMessage} {f : Frame} {σ : Type} {msgs : List (MsgInfo σ)}

/-- The kind and the size that a table has for a message. -/
def entryOf (msgs : List (MsgInfo σ)) (id : Nat) : Option (SizeKind × Nat) :=
  (msgs.find? fun m => m.msgid % 256 = id).map fun m => (m.fixedsz, m.sz)

theorem scan_of_entry
    {nb : Nat}
    (h : entryOf msgs (byteAt f 0) = some (.varSize, 2)) (hnb : 4 ≤ nb) :
    msggetsizeScan f nb msgs = 4 + tailLen f 2 := by
  induction msgs with
  | nil => cases h
  | cons m msgs ih =>
      rw [entryOf, List.find?_cons] at h
      rw [msggetsizeScan]
      by_cases hid : byteAt f 0 = m.msgid % 256
      · rw [if_pos hid]
        simp only [hid, decide_true, Option.map_some, Option.some.injEq, Prod.mk.injEq] at h
        obtain ⟨hkind, hsz⟩ := h
        rw [hkind, hsz]
        dsimp only
        rw [if_pos (by omega)]
      · rw [if_neg hid]
        refine ih ?_
        simpa [entryOf, Ne.symm hid] using h

/-- The length field is not complete. -/
theorem scan_of_entry_short
    {nb : Nat}
    (h : entryOf msgs (byteAt f 0) = some (.varSize, 2)) (hnb : nb < 4) :
    msggetsizeScan f nb msgs ≠ nb := by
  induction msgs with
  | nil => cases h
  | cons m msgs ih =>
      rw [entryOf, List.find?_cons] at h
      rw [msggetsizeScan]
      by_cases hid : byteAt f 0 = m.msgid % 256
      · rw [if_pos hid]
        simp only [hid, decide_true, Option.map_some, Option.some.injEq, Prod.mk.injEq] at h
        obtain ⟨hkind, hsz⟩ := h
        rw [hkind, hsz]
        dsimp only
        rw [if_neg (by omega), uintMax]
        omega
      · rw [if_neg hid]
        refine ih ?_
        simpa [entryOf, Ne.symm hid] using h

/-- The length of a complete message with a length field. -/
theorem length_of_entry
    (h : entryOf msgs (byteAt f 0) = some (.varSize, 2))
    (hsize : msggetsize f f.length msgs = f.length) :
    f.length = 4 + load16 f 2 := by
  rw [msggetsize] at hsize
  split_ifs at hsize with hshort hbytes
  · rw [uintMax] at hsize
    omega
  · omega
  · by_cases hnb : 4 ≤ f.length
    · rw [scan_of_entry h hnb] at hsize
      exact hsize.symm
    · exact absurd hsize (scan_of_entry_short h (by omega))

theorem ReadBy.entry (h : ReadBy m σ msgs) : entryOf msgs m.msgid = some (.varSize, 2) := by
  cases h <;> rfl

/-- The receivers measure the message by its length field. -/
theorem ReadBy.measure
    (h : ReadBy m σ msgs) (hhead : byteAt f 0 = m.msgid ∧ byteAt f 1 = m.msgid)
    (hlen : 4 ≤ f.length) :
    msggetsize f f.length msgs = 4 + tailLen f 2 := by
  rw [msggetsize, if_neg (by omega), hhead.1, hhead.2, if_neg (by simp)]
  exact scan_of_entry (by rw [hhead.1]; exact h.entry) hlen

/-- Every message has a receiver. -/
theorem exists_readBy (m : VarMessage) : ∃ σ msgs, ReadBy m σ msgs := by
  cases m with
  | msg buf => exact ⟨Unit, _, .msg buf fun _ s _ => (s, 1)⟩
  | file name size => exact ⟨Unit, _, .file name size fun _ s _ => (s, 1)⟩
  | fragment data => exact ⟨Unit, _, .fragment data fun _ s _ => (s, 1)⟩
  | addrlist a => exact ⟨Unit, _, .addrlist a fun _ s _ => (s, 1)⟩
  | multilogin ts a sig => exact ⟨_, _, .multiloginNode ts a sig 0⟩
  | nodelist asking my nls =>
      cases asking with
      | none => exact ⟨Unit, _, .clnodelist my nls fun _ s _ => (s, 1)⟩
      | some l => exact ⟨_, _, .nodelist l my nls 0⟩
  | n2nmsg i j buf => exact ⟨_, _, .n2nmsg i j buf 0⟩

/-- All writers write the header, the length of what follows, and what follows. -/
theorem written_shape
    (h : m.written w = some f) :
    ∃ body, body.length = m.payload ∧ m.payload < 65536 ∧
      f = head m.msgid ++ w.store16 m.payload ++ body := by
  have hmax : Proto.C2CMSG_MAXDATASIZE < 65536 ∧ Proto.MAXFILENAMESIZE < 60000 ∧
      Client.maxFragment < 65536 ∧ Proto.N2NMSG_MAXDATASIZE + 2 * idSize < 65536 := by decide
  have h64 : ∀ n, (w.store64 n).length = 8 := by
    intro n
    cases w <;> simp [ByteOrder.store64, ByteOrder.arrange, Client.le64]
  cases m with
  | msg buf =>
      simp only [VarMessage.written, ByteOrder.sendMsg] at h
      split_ifs at h
      cases h
      exact ⟨buf, rfl, by simp only [VarMessage.payload]; omega, rfl⟩
  | file name size =>
      simp only [VarMessage.written, ByteOrder.sendFile] at h
      split_ifs at h
      cases h
      refine ⟨_, ?_, ?_, rfl⟩
      · rw [List.length_append, h64, VarMessage.payload, Nat.add_comm]
      · simp only [VarMessage.payload]
        omega
  | fragment data =>
      simp only [VarMessage.written, ByteOrder.sendFileFragment] at h
      split_ifs at h
      cases h
      exact ⟨data, rfl, by simp only [VarMessage.payload]; omega, rfl⟩
  | addrlist a =>
      cases h
      exact ⟨_, rfl, by simp only [VarMessage.payload]; omega, rfl⟩
  | multilogin ts a sig =>
      simp only [VarMessage.written, ByteOrder.c2nOptstage7Multilogin] at h
      split_ifs at h
      cases h
      refine ⟨_, ?_, ?_, rfl⟩
      · rw [List.length_append, List.length_append, h64, length_nodelistItem]
        rfl
      · simp only [VarMessage.payload, Proto.NODELIST_ITEM_IPV4_SIZE]
        omega
  | nodelist asking my nls =>
      simp only [VarMessage.written, ByteOrder.procmsgNODELISTREQ] at h
      cases hscan : Node.nodelistScan asking nls (Node.nodelistItem my) with
      | error e =>
          rw [hscan] at h
          cases h
      | ok nlBuf =>
          rw [hscan] at h
          cases h
          have hlen := (nodelistScan_items hscan).2
          have hitems := @length_nodelistItems asking nls my
          refine ⟨nlBuf, ?_, ?_, ?_⟩
          · simp only [VarMessage.payload, hscan]
          · simp only [VarMessage.payload, hscan]
            omega
          · simp only [VarMessage.payload, hscan, VarMessage.msgid]
  | n2nmsg i j buf =>
      cases h
      refine ⟨_, ?_, ?_, rfl⟩
      · rw [List.length_append, List.length_append, i.2, j.2, List.length_take,
          VarMessage.payload]
        omega
      · simp only [VarMessage.payload]
        omega

/-- The length field is read as it was written when the orders are the same, and with its
bytes exchanged otherwise. -/
theorem load_store16
    {n : Nat} (hn : n < 65536) :
    r.load (w.store16 n) = if r = w then n else n / 256 + 256 * (n % 256) := by
  cases r <;> cases w <;>
    simp only [ByteOrder.load, ByteOrder.store16, ByteOrder.arrange, le16, leNat, if_true,
      if_false, reduceCtorEq, List.reverse_cons, List.reverse_nil, List.nil_append,
      List.cons_append, UInt8.toNat_ofNat'] <;> omega

/-- The two bytes of a length are the same. -/
theorem swap_eq_iff {n : Nat} (hn : n < 65536) :
    n / 256 + 256 * (n % 256) = n ↔ 257 ∣ n := by
  constructor
  · intro h
    exact ⟨n % 256, by omega⟩
  · rintro ⟨k, rfl⟩
    omega

end Agree

/-- **When length fields agree.**  The receivers measure a message as what has been pushed
and load its length as the framer does just when the hosts concerned are little-endian or
both bytes of the length are the same. -/
theorem lengths_agree_iff
    (w r : ByteOrder) (m : VarMessage) (f : Frame) (hf : m.written w = some f) :
    (∀ σ msgs, ReadBy m σ msgs → r.msggetsize f f.length msgs = f.length ∧
        (m.rereads → 4 + r.load16 f 2 = r.msggetsize f f.length msgs)) ↔
      (w = .little ∨ 257 ∣ m.payload) ∧ (m.rereads → r = .little ∨ 257 ∣ m.payload) := by
  obtain ⟨body, hbody, hlt, hframe⟩ := written_shape hf
  have hfield : (f.drop 2).take 2 = w.store16 m.payload := by
    rw [hframe, List.append_assoc, List.drop_left' (length_head _),
      List.take_left' (w.length_store16 _)]
  have hlen : f.length = 4 + m.payload := by
    rw [hframe, List.length_append, List.length_append, length_head, w.length_store16, hbody]
  have hid : m.msgid < 256 := by
    cases m with
    | nodelist asking my nls =>
        rw [VarMessage.msgid]
        split_ifs <;> decide
    | _ => exact Nat.le_of_ble_eq_true rfl
  have hhead : byteAt f 0 = m.msgid ∧ byteAt f 1 = m.msgid := by
    rw [hframe]
    simp [byteAt, head]
    omega
  -- what the framer and the handlers see
  have hsize : ∀ σ msgs, ReadBy m σ msgs → r.msggetsize f f.length msgs =
      4 + if w = .little then m.payload else m.payload / 256 + 256 * (m.payload % 256) := by
    intro σ msgs hread
    have hload := @load_store16 w .little m.payload hlt
    rw [ByteOrder.msggetsize_eq, hread.measure hhead (by omega), tailLen, hfield]
    simpa [ByteOrder.load, ByteOrder.arrange, eq_comm] using hload
  have hload : r.load16 f 2 =
      if r = w then m.payload else m.payload / 256 + 256 * (m.payload % 256) := by
    rw [ByteOrder.load16, hfield, load_store16 hlt]
  have hswap := swap_eq_iff hlt
  obtain ⟨σ, msgs, hread⟩ := exists_readBy m
  have hone : (∀ σ msgs, ReadBy m σ msgs → r.msggetsize f f.length msgs = f.length ∧
      (m.rereads → 4 + r.load16 f 2 = r.msggetsize f f.length msgs)) ↔
      (4 + if w = .little then m.payload else m.payload / 256 + 256 * (m.payload % 256)) =
          f.length ∧
        (m.rereads → 4 + r.load16 f 2 =
          4 + if w = .little then m.payload else m.payload / 256 + 256 * (m.payload % 256)) := by
    constructor
    · intro h
      have h := h σ msgs hread
      rwa [hsize σ msgs hread] at h
    · intro h σ msgs hread
      rwa [hsize σ msgs hread]
  rw [hone, hload, hlen]
  by_cases hdiv : 257 ∣ m.payload
  · rw [hswap.mpr hdiv]
    simp [hdiv]
  · have hne : ¬ m.payload / 256 + 256 * (m.payload % 256) = m.payload :=
      fun h => hdiv (hswap.mp h)
    cases w <;> cases r <;> simp [hdiv, hne]

theorem lengths_agree_iff_message :
    ∃ f, (VarMessage.msg [72, 105]).written .little = some f ∧
      ∀ σ msgs, ReadBy (.msg [72, 105]) σ msgs →
        ByteOrder.big.msggetsize f f.length msgs = f.length := by
  refine ⟨[0x30, 0x30, 2, 0, 72, 105], by decide, ?_⟩
  intro σ msgs hread
  exact ((lengths_agree_iff .little .big (.msg [72, 105]) _ (by decide)).mpr
    ⟨.inl rfl, nofun⟩ σ msgs hread).1

/-- A message of one byte that a big-endian host has written. -/
theorem length_written_big_endian :
    ∃ f, (VarMessage.msg [65]).written .big = some f ∧ f.length = 5 ∧
      ByteOrder.little.msggetsize f f.length (c2cTable fun _ (s : Unit) _ => (s, 1)) = 260 ∧
      ByteOrder.big.msggetsize f f.length (c2cTable fun _ (s : Unit) _ => (s, 1)) = 260 :=
  ⟨[0x30, 0x30, 0, 1, 65], by decide, by decide, by decide, by decide⟩

/-- On a little-endian host the messages are those of the other modules. -/
theorem written_little
    {buf name data : List UInt8} {size : Nat} {i j : Id} :
    (buf.length ≤ Proto.C2CMSG_MAXDATASIZE →
        (VarMessage.msg buf).written .little = some (Client.msgFrame buf)) ∧
      (0 < name.length → name.length ≤ Proto.MAXFILENAMESIZE →
        (VarMessage.file name size).written .little = some (Client.requestFrame size name)) ∧
      (0 < data.length → data.length ≤ Client.maxFragment →
        (VarMessage.fragment data).written .little = some (Client.fragmentFrame data)) ∧
      (buf.length ≤ Proto.N2NMSG_MAXDATASIZE →
        (VarMessage.n2nmsg i j buf).written .little = some (n2nmsg i j buf)) := by
  refine ⟨?_, ?_, ?_, ?_⟩
  · intro h
    simp only [VarMessage.written, ByteOrder.sendMsg, if_neg (Nat.not_lt.mpr h)]
    rfl
  · intro hpos h
    simp only [VarMessage.written, ByteOrder.sendFile]
    rw [if_neg (by omega), Client.requestFrame, List.append_assoc _ (Client.le64 size)]
    rfl
  · intro hpos h
    simp only [VarMessage.written, ByteOrder.sendFileFragment]
    rw [if_neg (by omega)]
    rfl
  · intro h
    simp only [VarMessage.written, ByteOrder.processC2cWrite, n2nmsg, Nat.min_eq_left h,
      List.take_length, List.append_assoc]
    rfl

end PicaPica
