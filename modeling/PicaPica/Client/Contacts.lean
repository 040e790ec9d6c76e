import PicaPica.Client.SessionSteps
import PicaPica.Lib.Base64
import PicaPica.Lib.Table

/-!
# The certificates of the contacts (`contacts.cpp`)

`verify_peer_cert_common` compares the identifier of a peer with the hash of its certificate, and
calls `SkyNet::verify_peer_cert`, which keeps the first certificate of a peer in the table
`contacts` and compares all later ones with it.  A query that fails is like one that finds nothing.

After a check with queries that work, no other certificate of the peer is accepted until the
contact is deleted or the query for the kept certificate fails (`same_certificate`).  When a
certificate is refused although its hash is right, it has the same hash as the kept one
(`refused_certificate`).
-/

namespace PicaPica
namespace Client

open Table Machine Base64

/-! ## PEM -/

def beginMark : List Char := "-----BEGIN CERTIFICATE-----".toList
def endMark : List Char := "-----END CERTIFICATE-----".toList
def beginX509Mark : List Char := "-----BEGIN X509 CERTIFICATE-----".toList
def endX509Mark : List Char := "-----END X509 CERTIFICATE-----".toList

/-- `strip_pem`. -/
def stripPem : List (List Char) :=
  [beginMark, endMark, beginX509Mark, endX509Mark]

/-- `QString::replace(mark, "")`; the first argument counts the characters of the present
occurrence that are left. -/
def removeAll (mark : List Char) : Nat → List Char → List Char
  | _, [] => []
  | k + 1, _ :: cs => removeAll mark k cs
  | 0, c :: cs =>
      if mark.isPrefixOf (c :: cs) then removeAll mark (mark.length - 1) cs
      else c :: removeAll mark 0 cs

/-- What is compared of a certificate: `QByteArray::fromBase64` of the C string that is left when
the marks are taken out. -/
def derOf (pem : List Char) : List UInt8 :=
  decode ((stripPem.foldl (fun s mark => removeAll mark 0 s) pem).takeWhile (· ≠ Char.ofNat 0))

/-- Lines of 64 characters, with `room` characters left in the present one. -/
def wrap : Nat → List Char → List Char
  | _, [] => ['\n']
  | 0, c :: cs => '\n' :: c :: wrap 63 cs
  | room + 1, c :: cs => c :: wrap room cs

/-- `PEM_write_bio_X509` for a certificate with the encoding `der`. -/
def pemOf (der : List UInt8) : List Char :=
  beginMark ++ '\n' :: (wrap 64 (encode der) ++ (endMark ++ ['\n']))

section Pem

variable {mark cs ds : List Char} {c d : Char} {room : Nat} {der : List UInt8}

theorem removeAll_skip {k : Nat} (h : cs.length = k) :
    removeAll mark k (cs ++ ds) = removeAll mark 0 ds := by
  induction cs generalizing k with
  | nil =>
      subst h
      rfl
  | cons c cs ih =>
      subst h
      exact ih rfl

/-- An occurrence is taken out. -/
theorem removeAll_mark (hmark : mark ≠ []) : removeAll mark 0 (mark ++ ds) = removeAll mark 0 ds := by
  obtain ⟨d, rest, rfl⟩ := List.exists_cons_of_ne_nil hmark
  have hyes : (d :: rest).isPrefixOf (d :: (rest ++ ds)) :=
    List.isPrefixOf_iff_prefix.mpr (List.prefix_append (d :: rest) ds)
  rw [List.cons_append, removeAll, if_pos hyes]
  exact removeAll_skip rfl

/-- An occurrence begins with the first character of the mark. -/
theorem removeAll_append (hd : mark.head? = some d) (hcs : ∀ x ∈ cs, x ≠ d) :
    removeAll mark 0 (cs ++ ds) = cs ++ removeAll mark 0 ds := by
  obtain ⟨rest, rfl⟩ : ∃ rest, mark = d :: rest := List.head?_eq_some_iff.mp hd
  induction cs with
  | nil => rfl
  | cons c cs ih =>
      have hno : ¬(d :: rest).isPrefixOf (c :: (cs ++ ds)) := by
        have hne : d ≠ c := (hcs c List.mem_cons_self).symm
        simp [List.isPrefixOf, hne]
      rw [List.cons_append, removeAll, if_neg hno,
        ih fun x hx => hcs x (List.mem_cons_of_mem c hx)]
      rfl

theorem removeAll_none (hd : mark.head? = some d) (hcs : ∀ x ∈ cs, x ≠ d) :
    removeAll mark 0 cs = cs := by
  have h := @removeAll_append mark cs [] d hd hcs
  rw [List.append_nil] at h
  rw [h, removeAll, List.append_nil]

theorem mem_wrap (h : c ∈ wrap room cs) : c = '\n' ∨ c ∈ cs := by
  induction cs generalizing room with
  | nil =>
      rw [wrap] at h
      exact .inl (List.mem_singleton.mp h)
  | cons x cs ih =>
      cases room with
      | zero =>
          rw [wrap] at h
          rcases List.mem_cons.mp h with h | h
          · exact .inl h
          · rcases List.mem_cons.mp h with rfl | h
            · exact .inr List.mem_cons_self
            · exact (ih h).imp_right (List.mem_cons_of_mem x)
      | succ room =>
          rw [wrap] at h
          rcases List.mem_cons.mp h with rfl | h
          · exact .inr List.mem_cons_self
          · exact (ih h).imp_right (List.mem_cons_of_mem x)

theorem value_newline : value '\n' = none := by decide +kernel

theorem digits_wrap : digits (wrap room cs) = digits cs := by
  have hline : ∀ xs, digits ('\n' :: xs) = digits xs :=
    fun xs => List.filter_cons_of_neg (by simp [value_newline])
  have hcons : ∀ x xs ys, digits xs = digits ys → digits (x :: xs) = digits (x :: ys) := by
    intro x xs ys h
    rw [digits, digits] at h
    rw [digits, digits, List.filter_cons, List.filter_cons, h]
  induction cs generalizing room with
  | nil =>
      rw [wrap]
      exact hline []
  | cons x cs ih =>
      cases room with
      | zero =>
          rw [wrap, hline]
          exact hcons x _ _ ih
      | succ room =>
          rw [wrap]
          exact hcons x _ _ ih

theorem plain_of_mem_wrap (h : c ∈ wrap room (encode der)) : c ≠ '-' ∧ c ≠ Char.ofNat 0 := by
  rcases mem_wrap h with rfl | h
  · decide
  · rcases mem_encode h with h | rfl
    · have hall : alphabet.all (fun x => x ≠ '-' ∧ x ≠ Char.ofNat 0) = true := by decide +kernel
      exact of_decide_eq_true (List.all_eq_true.mp hall c h)
    · decide

theorem marks_head : ∀ mark ∈ stripPem, mark.head? = some '-' := by decide +kernel

theorem removeAll_beginMark : removeAll beginMark 0 (endMark ++ ['\n']) = endMark ++ ['\n'] := by
  decide +kernel

/-- The lines without the marks. -/
theorem strip_pemOf :
    stripPem.foldl (fun s mark => removeAll mark 0 s) (pemOf der) =
      '\n' :: (wrap 64 (encode der) ++ ['\n']) := by
  have hbody : ∀ c ∈ '\n' :: wrap 64 (encode der), c ≠ '-' := by
    intro c hc
    rcases List.mem_cons.mp hc with rfl | hc
    · decide
    · exact (plain_of_mem_wrap hc).1
  have hlines : ∀ c ∈ '\n' :: (wrap 64 (encode der) ++ ['\n']), c ≠ '-' := by
    intro c hc
    rw [← List.cons_append] at hc
    rcases List.mem_append.mp hc with hc | hc
    · exact hbody c hc
    · rw [List.mem_singleton.mp hc]
      decide
  -- the first mark is in front of the lines and the second one behind them
  have hfirst : removeAll beginMark 0 (pemOf der) =
      '\n' :: (wrap 64 (encode der) ++ (endMark ++ ['\n'])) := by
    rw [pemOf, removeAll_mark (by decide +kernel), ← List.cons_append,
      removeAll_append (marks_head _ (by simp [stripPem])) hbody, removeAll_beginMark]
  have hsecond : removeAll endMark 0 ('\n' :: (wrap 64 (encode der) ++ (endMark ++ ['\n']))) =
      '\n' :: (wrap 64 (encode der) ++ ['\n']) := by
    rw [← List.cons_append, removeAll_append (marks_head _ (by simp [stripPem])) hbody,
      removeAll_mark (by decide +kernel), removeAll_none (marks_head _ (by simp [stripPem]))]
    · rfl
    · intro c hc
      rw [List.mem_singleton.mp hc]
      decide
  simp only [stripPem, List.foldl_cons, List.foldl_nil]
  rw [hfirst, hsecond, removeAll_none (marks_head _ (by simp [stripPem])) hlines,
    removeAll_none (marks_head _ (by simp [stripPem])) hlines]

/-- **What is compared is the encoding.** -/
theorem derOf_pemOf : derOf (pemOf der) = der := by
  have hline : ∀ xs, digits ('\n' :: xs) = digits xs :=
    fun xs => List.filter_cons_of_neg (by simp [value_newline])
  have htake : ('\n' :: (wrap 64 (encode der) ++ ['\n'])).takeWhile (· ≠ Char.ofNat 0) =
      '\n' :: (wrap 64 (encode der) ++ ['\n']) := by
    refine List.takeWhile_eq_self_iff.mpr fun c hc => ?_
    rw [decide_eq_true_eq]
    rcases List.mem_cons.mp hc with rfl | hc
    · decide
    · rcases List.mem_append.mp hc with hc | hc
      · exact (plain_of_mem_wrap hc).2
      · rw [List.mem_singleton.mp hc]
        decide
  rw [derOf, strip_pemOf, htake]
  refine decode_of_digits ?_
  rw [hline, digits_append, hline, digits_wrap]
  exact List.append_nil _

theorem pemOf_ne_nil : pemOf der ≠ [] := by
  rw [pemOf]
  simp

end Pem

/-! ## The table -/

/-- `Contacts::ContactType`. -/
inductive ContactType
  | temporary
  | regular
  | blacklisted
deriving DecidableEq

/-- The primary key. -/
structure ContactKey where
  id : Id
  accountId : Id
deriving DecidableEq

/-- A row of the table `contacts`; `NULL` is the empty text. -/
structure ContactRow where
  key : ContactKey
  name : List Char
  certPem : List Char
  type : ContactType

structure Contacts where
  rows : List ContactRow
  keys : Distinct ContactRow.key rows

/-- Which of the queries of `SkyNet::verify_peer_cert` work, in the order of their calls, and what
`OpenSSLTool::NameFromCertString` finds. -/
structure VerifyIo where
  found : Bool
  addFound : Bool
  added : Bool
  got : Bool
  set : Bool
  named : Bool
  name : List Char

/-- The queries for the certificate work. -/
def VerifyIo.Works (io : VerifyIo) : Prop :=
  io.found ∧ io.addFound ∧ io.added ∧ io.got ∧ io.set

namespace Contacts

variable (t : Contacts) (k : ContactKey)

/-- The row of a contact. -/
def row : Option ContactRow :=
  lookup ContactRow.key k t.rows

/-- `update contacts set` … for a contact. -/
def update (ok : Bool) (f : ContactRow → ContactRow) (hf : ∀ r, (f r).key = r.key) : Contacts where
  rows := if ok then modify ContactRow.key k f t.rows else t.rows
  keys := by
    split_ifs
    · exact t.keys.modify fun r _ _ => hf r
    · exact t.keys

/-- `insert into contacts`, which fails when there is a row with the key. -/
def insert (ok : Bool) (r : ContactRow) : Contacts where
  rows := if ok ∧ ∀ x ∈ t.rows, x.key ≠ r.key then t.rows ++ [r] else t.rows
  keys := by
    split_ifs with h
    · exact t.keys.concat h.2
    · exact t.keys

/-- `delete from contacts where` … -/
def deleteWhere (p : ContactRow → Bool) : Contacts where
  rows := t.rows.filter fun r => !p r
  keys := t.keys.sublist (List.filter_sublist.map ContactRow.key)

/-- `Contacts::Exists`. -/
def existsContact (ok : Bool) : Bool :=
  ok && (t.row k).isSome

/-- `Contacts::Add`. -/
def add (type : ContactType) (found ok : Bool) : Contacts :=
  if t.existsContact k found = false then t.insert ok ⟨k, [], [], type⟩
  else t.update k ok (fun r => { r with type := type }) fun _ => rfl

/-- `Contacts::Delete`. -/
def delete (ok : Bool) : Contacts :=
  if ok then t.deleteWhere fun r => r.key = k else t

/-- `Contacts::GetContactCert`. -/
def getContactCert (ok : Bool) : List Char :=
  if ok then ((t.row k).map ContactRow.certPem).getD [] else []

/-- `Contacts::SetContactCert`. -/
def setContactCert (ok : Bool) (certPem : List Char) : Contacts :=
  t.update k ok (fun r => { r with certPem := certPem }) fun _ => rfl

/-- `Contacts::SetContactName`. -/
def setContactName (ok : Bool) (name : List Char) : Contacts :=
  t.update k ok (fun r => { r with name := name }) fun _ => rfl

/-- `Contacts::SetContactType`. -/
def setContactType (ok : Bool) (type : ContactType) : Contacts :=
  t.update k ok (fun r => { r with type := type }) fun _ => rfl

/-- `SkyNet::verify_peer_cert` with the answer of `peer_cert_verify_cb`. -/
def verifyPeerCert (io : VerifyIo) (certPem : List Char) : Contacts × Bool :=
  let t := if t.existsContact k io.found = false ∧ io.found then
    t.add k .temporary io.addFound io.added else t
  let stored := t.getContactCert k io.got
  if stored = [] then
    ((t.setContactCert k io.set certPem).setContactName k io.named io.name, true)
  else (t, derOf stored = derOf certPem)

end Contacts

/-- A certificate: the bits of its RSA key and its encoding `i2d_X509`. -/
structure X509 where
  rsaBits : Option Nat
  der : Option (List UInt8)

/-- What happens to the table.  A certificate is that of the peer of a channel. -/
inductive ContactsEvent
  | verify (k : ContactKey) (cert : Option X509) (io : VerifyIo)
  | add (k : ContactKey) (type : ContactType) (found ok : Bool)
  | delete (k : ContactKey) (ok : Bool)
  | setName (k : ContactKey) (ok : Bool) (name : List Char)
  | setType (k : ContactKey) (ok : Bool) (type : ContactType)
  /-- `Accounts::Delete` deletes the contacts of the account, too -/
  | deleteAccount (accountId : Id)

section Step

variable (sha224 : List UInt8 → Id)

/-- What `verify_peer_cert_common` looks at; `PICA_id_from_X509` is the hash of the encoding. -/
def X509.peerCert (x : X509) : PeerCert :=
  ⟨x.rsaBits, x.der.map sha224⟩

/-- `verify_peer_cert_common` with `SkyNet::verify_peer_cert`, for the current account. -/
def checkPeer (t : Contacts) (k : ContactKey) (cert : Option X509) (io : VerifyIo) :
    Contacts × Ret :=
  let r := t.verifyPeerCert k io (pemOf ((cert.bind X509.der).getD []))
  let v := verifyPeerCertCommon (cert.map (X509.peerCert sha224)) k.id r.2
  (if v.2 then r.1 else t, v.1)

def contactsStep (t : Contacts) : ContactsEvent → Option Contacts
  | .verify k cert io => some (checkPeer sha224 t k cert io).1
  | .add k type found ok => some (t.add k type found ok)
  | .delete k ok => some (t.delete k ok)
  | .setName k ok name => some (t.setContactName k ok name)
  | .setType k ok type => some (t.setContactType k ok type)
  | .deleteAccount a => some (t.deleteWhere fun r => r.key.accountId = a)

end Step

/-- The certificate that is kept of a contact. -/
def Contacts.kept (t : Contacts) (k : ContactKey) : List Char :=
  ((t.row k).map ContactRow.certPem).getD []

/-- The event leaves the certificate that is kept of the contact. -/
def ContactsEvent.Spares (k : ContactKey) : ContactsEvent → Prop
  | .verify k' _ io => k' = k → io.got
  | .delete k' _ => k' ≠ k
  | .deleteAccount a => a ≠ k.accountId
  | _ => True

section Kept

variable {sha224 : List UInt8 → Id} {t t' : Contacts} {k k' : ContactKey} {io : VerifyIo}
  {ok found : Bool} {pem : List Char} {type : ContactType}

theorem row_update
    {f : ContactRow → ContactRow} {hf : ∀ r, (f r).key = r.key} :
    (t.update k' ok f hf).row k =
      if ok ∧ k = k' then (t.row k).map f else t.row k := by
  rw [Contacts.row, Contacts.update]
  dsimp only
  cases ok with
  | false => rfl
  | true =>
      rw [if_pos rfl, lookup_modify hf]
      by_cases hk : k = k'
      · rw [if_pos hk, if_pos ⟨rfl, hk⟩, hk]
        rfl
      · rw [if_neg hk, if_neg fun h => hk h.2]
        rfl

/-- A change that is not one of the certificate. -/
theorem kept_update
    {f : ContactRow → ContactRow} {hf : ∀ r, (f r).key = r.key}
    (hcert : ∀ r, (f r).certPem = r.certPem) :
    (t.update k' ok f hf).kept k = t.kept k := by
  rw [Contacts.kept, row_update]
  split_ifs
  · rw [Option.map_map, Contacts.kept]
    congr 2
    exact funext hcert
  · rfl

theorem kept_setContactName {name : List Char} :
    (t.setContactName k' ok name).kept k = t.kept k :=
  kept_update fun _ => rfl

theorem kept_setContactCert :
    (t.setContactCert k' ok pem).kept k =
      if ok ∧ k = k' ∧ (t.row k).isSome then pem else t.kept k := by
  rw [Contacts.setContactCert, Contacts.kept, row_update]
  cases hr : t.row k with
  | none =>
      have hno : ¬(ok ∧ k = k' ∧ (none : Option ContactRow).isSome) := fun h => by simp at h
      rw [if_neg hno, Contacts.kept, hr, Option.map_none, ite_self]
  | some r =>
      by_cases h : ok ∧ k = k'
      · rw [if_pos h, if_pos ⟨h.1, h.2, rfl⟩]
        rfl
      · rw [if_neg h, if_neg fun h' => h ⟨h'.1, h'.2.1⟩, Contacts.kept, hr]

theorem row_insert
    {r : ContactRow} :
    (t.insert ok r).row k = if ok ∧ k = r.key ∧ t.row k = none then some r else t.row k := by
  have hnone : (∀ x ∈ t.rows, x.key ≠ r.key) ↔ t.row r.key = none := lookup_eq_none.symm
  rw [Contacts.row, Contacts.insert]
  dsimp only
  by_cases h : ok ∧ ∀ x ∈ t.rows, x.key ≠ r.key
  · rw [if_pos h, lookup_concat (hnone.mp h.2)]
    by_cases hk : k = r.key
    · subst hk
      rw [if_pos rfl, if_pos ⟨h.1, rfl, hnone.mp h.2⟩]
    · rw [if_neg hk, if_neg fun h => hk h.2.1]
      rfl
  · rw [if_neg h, if_neg]
    · rfl
    · rintro ⟨hok, rfl, hrow⟩
      exact h ⟨hok, hnone.mpr hrow⟩

theorem kept_add : (t.add k' type found ok).kept k = t.kept k := by
  rw [Contacts.add]
  split_ifs
  · rw [Contacts.kept, row_insert]
    split_ifs with h
    · rw [Contacts.kept, h.2.2]
      rfl
    · rfl
  · exact kept_update fun _ => rfl

theorem kept_deleteWhere
    {p : ContactRow → Bool} (hp : ∀ r, r.key = k → p r = false) :
    (t.deleteWhere p).kept k = t.kept k := by
  have hrow : (t.deleteWhere p).row k = t.row k := by
    rw [Contacts.row, Contacts.deleteWhere, Contacts.row, lookup, lookup, List.find?_filter]
    congr 1
    funext r
    by_cases hr : r.key = k
    · simp [hr, hp r hr]
    · simp [hr]
  rw [Contacts.kept, hrow, Contacts.kept]

/-- The table when the certificate is looked up. -/
theorem verify_added :
    (if t.existsContact k' io.found = false ∧ io.found then
      t.add k' .temporary io.addFound io.added else t).kept k = t.kept k := by
  split_ifs
  · exact kept_add
  · rfl

/-- With a certificate that is found, the table keeps what it has, and the answer is whether it
is the same. -/
theorem verify_kept (hgot : io.got) (hkept : t.kept k ≠ []) :
    (∀ k', (t.verifyPeerCert k io pem).1.kept k' = t.kept k') ∧
      ((t.verifyPeerCert k io pem).2 = true ↔ derOf (t.kept k) = derOf pem) := by
  rw [Contacts.verifyPeerCert]
  generalize hadd : (if t.existsContact k io.found = false ∧ io.found then
    t.add k .temporary io.addFound io.added else t) = u
  have hu : ∀ k', u.kept k' = t.kept k' := by
    intro k'
    rw [← hadd]
    exact verify_added
  have hstored : u.getContactCert k io.got = t.kept k := by
    rw [Contacts.getContactCert, if_pos hgot]
    exact hu k
  rw [hstored, if_neg hkept]
  exact ⟨hu, decide_eq_true_iff⟩

/-- When none is found, the table keeps this certificate if the queries work. -/
theorem verify_first
    (hworks : io.Works) (hkept : t.kept k = []) :
    (t.verifyPeerCert k io pem).1.kept k = pem := by
  obtain ⟨hfound, haddFound, hadded, hgot, hset⟩ := hworks
  rw [Contacts.verifyPeerCert]
  generalize hadd : (if t.existsContact k io.found = false ∧ io.found then
    t.add k .temporary io.addFound io.added else t) = u
  have hstored : u.getContactCert k io.got = [] := by
    rw [Contacts.getContactCert, if_pos hgot, ← hadd]
    exact verify_added.trans hkept
  have hrow : (u.row k).isSome := by
    rw [← hadd]
    split_ifs with h
    · have hnew : t.existsContact k io.addFound = false := by
        rw [Contacts.existsContact, hfound] at h
        rw [Contacts.existsContact, haddFound]
        exact h.1
      have hnone : t.row k = none := by
        rw [Contacts.existsContact, haddFound] at hnew
        simpa using hnew
      rw [Contacts.add, if_pos hnew, row_insert, if_pos ⟨hadded, rfl, hnone⟩]
      rfl
    · rw [not_and'] at h
      have hyes := h hfound
      rw [Contacts.existsContact, hfound] at hyes
      simpa [Option.isSome_iff_ne_none] using hyes
  rw [if_pos hstored]
  exact kept_setContactName.trans (kept_setContactCert.trans (if_pos ⟨hset, rfl, hrow⟩))

/-- A check concerns its own peer only. -/
theorem verify_other (hk : k' ≠ k) : (t.verifyPeerCert k io pem).1.kept k' = t.kept k' := by
  rw [Contacts.verifyPeerCert]
  generalize hadd : (if t.existsContact k io.found = false ∧ io.found then
    t.add k .temporary io.addFound io.added else t) = u
  have hu : u.kept k' = t.kept k' := by
    rw [← hadd]
    exact verify_added
  split_ifs
  · rw [kept_setContactName, kept_setContactCert, if_neg fun h => hk h.2.1]
    exact hu
  · exact hu

/-- The answer is no for a certificate that differs from the kept one only. -/
theorem verify_refused (h : (t.verifyPeerCert k io pem).2 = false) :
    t.kept k ≠ [] ∧ derOf (t.kept k) ≠ derOf pem := by
  rw [Contacts.verifyPeerCert] at h
  generalize hadd : (if t.existsContact k io.found = false ∧ io.found then
    t.add k .temporary io.addFound io.added else t) = u at h
  have hu : u.kept k = t.kept k := by
    rw [← hadd]
    exact verify_added
  split_ifs at h with hstored
  cases hgot : io.got with
  | false =>
      rw [Contacts.getContactCert, hgot] at hstored
      exact absurd rfl hstored
  | true =>
      have hfound : u.getContactCert k io.got = t.kept k := by
        rw [Contacts.getContactCert, if_pos hgot]
        exact hu
      rw [hfound] at h hstored
      exact ⟨hstored, of_decide_eq_false h⟩

/-- When the kept certificate is not found because its query fails, every certificate is accepted
and takes its place. -/
theorem verify_unread
    (hgot : io.got = false) (hfound : io.found) (hset : io.set) (hrow : (t.row k).isSome) :
    (t.verifyPeerCert k io pem).2 = true ∧ (t.verifyPeerCert k io pem).1.kept k = pem := by
  have hthere : ¬(t.existsContact k io.found = false ∧ io.found) := by
    rw [Contacts.existsContact, hfound, hrow]
    simp
  have hstored : t.getContactCert k io.got = [] := by
    rw [Contacts.getContactCert, hgot]
    rfl
  rw [Contacts.verifyPeerCert, if_neg hthere, if_pos hstored]
  exact ⟨rfl, kept_setContactName.trans (kept_setContactCert.trans (if_pos ⟨hset, rfl, hrow⟩))⟩

/-- What a check does to what is kept of the peer. -/
theorem verify_cases :
    (t.verifyPeerCert k io pem).1.kept k = t.kept k ∨
      (t.verifyPeerCert k io pem).1.kept k = pem := by
  rw [Contacts.verifyPeerCert]
  generalize hadd : (if t.existsContact k io.found = false ∧ io.found then
    t.add k .temporary io.addFound io.added else t) = u
  have hu : u.kept k = t.kept k := by
    rw [← hadd]
    exact verify_added
  split_ifs
  · rw [kept_setContactName, kept_setContactCert]
    split_ifs
    · exact .inr rfl
    · exact .inl hu
  · exact .inl hu

end Kept

/-! ## Runs -/

section Runs

variable {sha224 : List UInt8 → Id} {t t' t₀ : Contacts} {k : ContactKey} {x y : X509}
  {cert : Option X509} {io io' : VerifyIo} {e : ContactsEvent} {es : List ContactsEvent}

/-- `SkyNet` is asked about a certificate whose hash is the identifier. -/
theorem asked_hash
    {id : Id} {answer : Bool}
    (h : (verifyPeerCertCommon (cert.map (X509.peerCert sha224)) id answer).2 = true) :
    ∃ x der, cert = some x ∧ x.der = some der ∧ sha224 der = id ∧
      ((verifyPeerCertCommon (cert.map (X509.peerCert sha224)) id answer).1 = .ok ↔
        answer = true) := by
  cases cert with
  | none => cases h
  | some x =>
      rw [Option.map_some, X509.peerCert, verifyPeerCertCommon] at h ⊢
      dsimp only at h ⊢
      by_cases hbits : x.rsaBits.getD 0 < rsaMinKeySize
      · rw [if_pos hbits] at h
        cases h
      · rw [if_neg hbits] at h ⊢
        cases hder : x.der with
        | none =>
            rw [hder] at h
            cases h
        | some der =>
            rw [hder] at h
            dsimp only [Option.map_some] at h ⊢
            by_cases hid : sha224 der = id
            · rw [if_neg (not_not.mpr hid)]
              refine ⟨x, der, rfl, hder, hid, ?_⟩
              cases answer <;> simp
            · rw [if_pos hid] at h
              cases h

/-- A certificate that is accepted has an encoding with the hash, and `SkyNet` has agreed. -/
theorem checkPeer_ok (h : (checkPeer sha224 t k cert io).2 = .ok) :
    ∃ x der, cert = some x ∧ x.der = some der ∧ (t.verifyPeerCert k io (pemOf der)).2 = true ∧
      (checkPeer sha224 t k cert io).1 = (t.verifyPeerCert k io (pemOf der)).1 := by
  rw [checkPeer] at h ⊢
  dsimp only at h ⊢
  have hasked := Session.verifyPeerCertCommon_ok h
  obtain ⟨x, der, rfl, hder, -, hanswer⟩ := asked_hash hasked
  rw [if_pos hasked]
  rw [Option.bind_some, hder, Option.getD_some] at hanswer ⊢
  rw [Option.bind_some, hder, Option.getD_some] at h
  exact ⟨x, der, rfl, hder, hanswer.mp h, rfl⟩

/-- What is kept after a check is what was kept before, or the certificate, whose hash is the
identifier. -/
theorem checkPeer_kept {k' : ContactKey} :
    (checkPeer sha224 t k cert io).1.kept k' = t.kept k' ∨
      k' = k ∧ ∃ der, sha224 der = k.id ∧
        (checkPeer sha224 t k cert io).1.kept k' = pemOf der := by
  rw [checkPeer]
  dsimp only
  split_ifs with hasked
  · obtain ⟨x, der, rfl, hder, hid, -⟩ := asked_hash hasked
    rw [Option.bind_some, hder, Option.getD_some]
    by_cases hk : k' = k
    · subst hk
      rcases @verify_cases t k' io (pemOf der) with hsame | hnew
      · exact .inl hsame
      · exact .inr ⟨rfl, der, hid, hnew⟩
    · exact .inl (verify_other hk)
  · exact .inl rfl

/-- An event that spares the certificate. -/
theorem contactsStep_kept
    (hspares : e.Spares k) (hkept : t.kept k ≠ []) (h : contactsStep sha224 t e = some t') :
    t'.kept k = t.kept k := by
  cases e with
  | verify k' cert io =>
      cases h
      rw [checkPeer]
      dsimp only
      split_ifs
      · by_cases hk : k' = k
        · subst hk
          exact (verify_kept (hspares rfl) hkept).1 k'
        · exact verify_other (Ne.symm hk)
      · rfl
  | add k' type found ok =>
      cases h
      exact kept_add
  | delete k' ok =>
      cases h
      rw [Contacts.delete]
      split_ifs
      · refine kept_deleteWhere fun r hr => decide_eq_false fun heq => ?_
        exact hspares (heq.symm.trans hr)
      · rfl
  | setName k' ok name =>
      cases h
      exact kept_setContactName
  | setType k' ok type =>
      cases h
      exact kept_update fun _ => rfl
  | deleteAccount a =>
      cases h
      refine kept_deleteWhere fun r hr => decide_eq_false fun heq => ?_
      exact hspares (by rw [← heq, hr])

theorem run_kept
    (hspares : ∀ e ∈ es, e.Spares k) (hkept : t₀.kept k ≠ [])
    (hrun : run (contactsStep sha224) t₀ es = some t) :
    t.kept k = t₀.kept k := by
  induction es generalizing t₀ with
  | nil =>
      cases hrun
      rfl
  | cons e es ih =>
      obtain ⟨u, hu, hrest⟩ := run_cons hrun
      have hstep := contactsStep_kept (hspares e List.mem_cons_self) hkept hu
      rw [ih (fun e he => hspares e (List.mem_cons_of_mem _ he)) (by rwa [hstep]) hrest, hstep]

/-- After a check with queries that work, the accepted certificate is the one that is kept. -/
theorem checkPeer_pins
    (hworks : io.Works) (h : (checkPeer sha224 t k (some x) io).2 = .ok) :
    (checkPeer sha224 t k (some x) io).1.kept k ≠ [] ∧
      x.der = some (derOf ((checkPeer sha224 t k (some x) io).1.kept k)) := by
  obtain ⟨x', der, heq, hder, hyes, htable⟩ := checkPeer_ok h
  cases heq
  rw [htable, hder]
  by_cases hkept : t.kept k = []
  · rw [verify_first hworks hkept, derOf_pemOf]
    exact ⟨pemOf_ne_nil, rfl⟩
  · obtain ⟨hsame, hanswer⟩ := @verify_kept t k io (pemOf der) hworks.2.2.2.1 hkept
    have hpem := hanswer.mp hyes
    rw [derOf_pemOf] at hpem
    rw [hsame k]
    exact ⟨hkept, by rw [hpem]⟩

/-- **One certificate for each contact.**  A peer is accepted with a certificate, and all queries
of this check work.  However the table is changed afterwards, as long as neither the contact nor
the account is deleted and no query for the certificate of the contact fails, a certificate with
which the peer is accepted again is the same. -/
theorem same_certificate
    (hworks : io.Works) (hfirst : (checkPeer sha224 t₀ k (some x) io).2 = .ok)
    (hrun : run (contactsStep sha224) (checkPeer sha224 t₀ k (some x) io).1 es = some t)
    (hspares : ∀ e ∈ es, e.Spares k)
    (hgot : io'.got) (hagain : (checkPeer sha224 t k (some y) io').2 = .ok) :
    x.der = y.der := by
  obtain ⟨hkept, hx⟩ := checkPeer_pins hworks hfirst
  obtain ⟨y', der, heq, hder, hyes, -⟩ := checkPeer_ok hagain
  cases heq
  have hsame := run_kept hspares hkept hrun
  have hpem := (verify_kept hgot (hsame ▸ hkept)).2.mp hyes
  rw [derOf_pemOf, hsame] at hpem
  rw [hx, hder, hpem]

/-- A check of the certificate with the encoding `30 00`, in which all queries work. -/
def worksIo : VerifyIo :=
  ⟨true, true, true, true, true, true, []⟩

/-- The SHA-224 of `30 00`. -/
def emptyHash : Id :=
  ⟨[71, 200, 147, 1, 233, 137, 136, 245, 116, 99, 16, 188, 199, 163,
    138, 227, 160, 54, 246, 210, 9, 247, 131, 95, 68, 227, 173, 99], rfl⟩

/-- The SHA-224 of `30 03 02 01 00`. -/
def otherHash : Id :=
  ⟨[231, 61, 104, 147, 18, 231, 92, 30, 29, 242, 246, 24, 63, 205,
    63, 0, 233, 74, 135, 93, 181, 157, 235, 11, 189, 122, 243, 236], rfl⟩

/-- SHA-224, as far as it is needed here. -/
def hashEmpty (der : List UInt8) : Id :=
  if der = [48, 0] then emptyHash else if der = [48, 3, 2, 1, 0] then otherHash else .ofByte 0

def emptyCert : X509 :=
  ⟨some 4096, some [48, 0]⟩

def otherCert : X509 :=
  ⟨some 4096, some [48, 3, 2, 1, 0]⟩

def noContacts : Contacts :=
  ⟨[], List.nodup_nil⟩

/-- A contact whose name is changed between the checks. -/
theorem same_certificate_named :
    (checkPeer hashEmpty noContacts ⟨emptyHash, .ofByte 1⟩ (some emptyCert) worksIo).2 = .ok ∧
      ∃ t, run (contactsStep hashEmpty)
          (checkPeer hashEmpty noContacts ⟨emptyHash, .ofByte 1⟩ (some emptyCert) worksIo).1
          [.setName ⟨emptyHash, .ofByte 1⟩ true ['a'], .delete ⟨.ofByte 2, .ofByte 1⟩ true] =
            some t ∧
        (checkPeer hashEmpty t ⟨emptyHash, .ofByte 1⟩ (some emptyCert) worksIo).2 = .ok ∧
          emptyCert.der = emptyCert.der := by
  have hfirst : (checkPeer hashEmpty noContacts ⟨emptyHash, .ofByte 1⟩ (some emptyCert)
      worksIo).2 = .ok := by decide +kernel
  obtain ⟨t, hrun, hagain⟩ := @run_ends _ _ (contactsStep hashEmpty)
    (fun t => (checkPeer hashEmpty t ⟨emptyHash, .ofByte 1⟩ (some emptyCert) worksIo).2 = .ok)
    inferInstance
    (checkPeer hashEmpty noContacts ⟨emptyHash, .ofByte 1⟩ (some emptyCert) worksIo).1
    [.setName ⟨emptyHash, .ofByte 1⟩ true ['a'], .delete ⟨.ofByte 2, .ofByte 1⟩ true]
    (by decide +kernel)
  refine ⟨hfirst, t, hrun, hagain, same_certificate ⟨rfl, rfl, rfl, rfl, rfl⟩ hfirst hrun ?_ rfl
    hagain⟩
  have hne : (⟨.ofByte 2, .ofByte 1⟩ : ContactKey) ≠ ⟨emptyHash, .ofByte 1⟩ := by decide +kernel
  intro e he
  simp only [List.mem_cons, List.not_mem_nil, or_false] at he
  rcases he with rfl | rfl
  · trivial
  · exact hne

/-- What is left of a contact after a deletion. -/
theorem kept_deleteWhere_cases {p : ContactRow → Bool} :
    (t.deleteWhere p).kept k = t.kept k ∨ (t.deleteWhere p).kept k = [] := by
  cases hrow : (t.deleteWhere p).row k with
  | none =>
      rw [Contacts.kept, hrow]
      exact .inr rfl
  | some r =>
      obtain ⟨hr, rfl⟩ := lookup_eq_some hrow
      have hold : t.row r.key = some r := t.keys.lookup (List.mem_filter.mp hr).1
      rw [Contacts.kept, hrow, Contacts.kept, hold]
      exact .inl rfl

/-- What is kept of a contact is a certificate with the identifier of the contact. -/
def Contacts.Hashed (sha224 : List UInt8 → Id) (t : Contacts) : Prop :=
  ∀ k, t.kept k = [] ∨ ∃ der, sha224 der = k.id ∧ t.kept k = pemOf der

theorem contactsStep_hashed
    (hhashed : t.Hashed sha224) (h : contactsStep sha224 t e = some t') :
    t'.Hashed sha224 := by
  have hsame : ∀ {u : Contacts}, (∀ k, u.kept k = t.kept k ∨ u.kept k = []) → u.Hashed sha224 := by
    intro u hu k
    rcases hu k with heq | hnil
    · rw [heq]
      exact hhashed k
    · exact .inl hnil
  cases e with
  | verify k cert io =>
      cases h
      intro k'
      rcases @checkPeer_kept sha224 t k cert io k' with heq | ⟨rfl, der, hid, hnew⟩
      · rw [heq]
        exact hhashed k'
      · exact .inr ⟨der, hid, hnew⟩
  | add k type found ok =>
      cases h
      exact hsame fun _ => .inl kept_add
  | delete k ok =>
      cases h
      rw [Contacts.delete]
      split_ifs
      · exact hsame fun _ => kept_deleteWhere_cases
      · exact hhashed
  | setName k ok name =>
      cases h
      exact hsame fun _ => .inl kept_setContactName
  | setType k ok type =>
      cases h
      exact hsame fun _ => .inl (kept_update fun _ => rfl)
  | deleteAccount a =>
      cases h
      exact hsame fun _ => kept_deleteWhere_cases

/-- **Why a certificate is invalid.**  In every run that begins with an empty table, a
certificate that is refused as invalid does not have the identifier of the peer as its hash, or it
has the same hash as the one that is kept, and is another one. -/
theorem refused_certificate
    (hrun : run (contactsStep sha224) noContacts es = some t)
    (h : (checkPeer sha224 t k (some x) io).2 = .errInvPeerCert) :
    ∃ der, x.der = some der ∧ (sha224 der ≠ k.id ∨
      ∃ der', t.kept k = pemOf der' ∧ der' ≠ der ∧ sha224 der' = sha224 der) := by
  have hhashed : t.Hashed sha224 := run_invariant
    (fun _ _ _ hs _ hstep => contactsStep_hashed hs hstep) (fun _ => .inl rfl) meets_true hrun
  rw [checkPeer] at h
  dsimp only at h
  rw [Option.map_some, X509.peerCert, verifyPeerCertCommon] at h
  dsimp only at h
  by_cases hbits : x.rsaBits.getD 0 < rsaMinKeySize
  · rw [if_pos hbits] at h
    cases h
  rw [if_neg hbits] at h
  cases hder : x.der with
  | none =>
      rw [hder] at h
      cases h
  | some der =>
      refine ⟨der, rfl, or_iff_not_imp_left.mpr fun hid => ?_⟩
      rw [not_not] at hid
      rw [hder] at h
      dsimp only [Option.map_some] at h
      rw [if_neg (not_not.mpr hid), Option.bind_some, hder, Option.getD_some] at h
      have hno : (t.verifyPeerCert k io (pemOf der)).2 = false := by
        cases hyes : (t.verifyPeerCert k io (pemOf der)).2 with
        | false => rfl
        | true =>
            rw [hyes] at h
            cases h
      obtain ⟨hkept, hne⟩ := verify_refused hno
      rcases hhashed k with hnil | ⟨der', hid', hpem⟩
      · exact absurd hnil hkept
      · rw [hpem, derOf_pemOf, derOf_pemOf] at hne
        exact ⟨der', hpem, hne, hid'.trans hid.symm⟩

/-- A peer whose certificate is kept, and whose name has been changed, comes with the certificate
of somebody else. -/
theorem refused_certificate_other :
    ∃ t, run (contactsStep hashEmpty) noContacts
        [.verify ⟨emptyHash, .ofByte 1⟩ (some emptyCert) worksIo,
          .setName ⟨emptyHash, .ofByte 1⟩ true ['a']] = some t ∧
      t.kept ⟨emptyHash, .ofByte 1⟩ = pemOf [48, 0] ∧
      ∃ der, otherCert.der = some der ∧ (hashEmpty der ≠ emptyHash ∨
        ∃ der', t.kept ⟨emptyHash, .ofByte 1⟩ = pemOf der' ∧ der' ≠ der ∧
          hashEmpty der' = hashEmpty der) := by
  obtain ⟨t, hrun, hkept, hrefused⟩ := @run_ends _ _ (contactsStep hashEmpty)
    (fun t => t.kept ⟨emptyHash, .ofByte 1⟩ = pemOf [48, 0] ∧
      (checkPeer hashEmpty t ⟨emptyHash, .ofByte 1⟩ (some otherCert) worksIo).2 = .errInvPeerCert)
    inferInstance noContacts
    [.verify ⟨emptyHash, .ofByte 1⟩ (some emptyCert) worksIo,
      .setName ⟨emptyHash, .ofByte 1⟩ true ['a']] (by decide +kernel)
  exact ⟨t, hrun, hkept, refused_certificate hrun hrefused⟩

end Runs

end Client
end PicaPica
