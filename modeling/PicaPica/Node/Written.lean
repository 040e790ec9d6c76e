import PicaPica.ByteOrder
import PicaPica.Node.HandlerSends

/-!
# What others read from a node

Whatever a node queues for a client or for another node is one complete message of the table by
which the receiver reads it (`written_are_messages`).  There are two exceptions: the answer to the
`PINGREQ` of a client is in no table of the client, which does not send this message, and
`NODECONNREQ` is for the table of new connections.

So a client that reads from its node handles the messages that were queued for it, in their order
and cut where they were pushed, however the bytes come in (`client_reads_its_node`).
-/

namespace PicaPica

open Machine Framing

section Messages

variable {σ : Type} {msgs : List (MsgInfo σ)} {f : Frame} {k sz : Nat} {body : List UInt8}

/-- The bytes are one message of the table. -/
def IsMessage (msgs : List (MsgInfo σ)) (f : Frame) : Prop :=
  msggetsize f f.length msgs = f.length

theorem IsMessage.ne_nil (h : IsMessage msgs f) : f ≠ [] := by
  rintro rfl
  exact absurd (show uintMax = 0 from h) (by decide)

theorem scan_of_fixed
    {nb : Nat} (h : entryOf msgs (byteAt f 0) = some (.fixedSize, sz)) :
    msggetsizeScan f nb msgs = sz := by
  induction msgs with
  | nil => cases h
  | cons m msgs ih =>
      rw [entryOf, List.find?_cons] at h
      rw [msggetsizeScan]
      by_cases hid : byteAt f 0 = m.msgid % 256
      · rw [if_pos hid]
        simp only [hid, decide_true, Option.map_some, Option.some.injEq, Prod.mk.injEq] at h
        obtain ⟨hkind, hsz⟩ := h
        rw [hkind]
        exact hsz
      · rw [if_neg hid]
        refine ih ?_
        simpa [entryOf, Ne.symm hid] using h

theorem byteAt_head_second {xs : List UInt8} : byteAt (head k ++ xs) 1 = k % 256 := by
  simp [head, byteAt]

theorem isMessage_fixed
    (h : entryOf msgs (k % 256) = some (.fixedSize, sz)) (hlen : 2 + body.length = sz) :
    IsMessage msgs (head k ++ body) := by
  have hlength : (head k ++ body).length = sz := by
    rw [List.length_append, length_head, hlen]
  rw [IsMessage, msggetsize, if_neg (by omega), byteAt_head, byteAt_head_second,
    if_neg (fun hne => hne rfl), hlength]
  exact scan_of_fixed (by rw [byteAt_head]; exact h)

theorem isMessage_var
    (h : entryOf msgs (k % 256) = some (.varSize, 2)) (hlen : body.length < 65536) :
    IsMessage msgs (head k ++ le16 body.length ++ body) := by
  rw [List.append_assoc]
  have hlength : (head k ++ (le16 body.length ++ body)).length = 4 + body.length := by
    simp only [List.length_append, length_head, length_le16]
    omega
  have htail : tailLen (head k ++ (le16 body.length ++ body)) 2 = body.length := by
    have hdrop : (head k ++ (le16 body.length ++ body)).drop 2 = le16 body.length ++ body := rfl
    have htake : (le16 body.length ++ body).take 2 = le16 body.length := rfl
    rw [tailLen, hdrop, htake, leNat_le16 hlen]
  rw [IsMessage, msggetsize, if_neg (by omega), byteAt_head, byteAt_head_second,
    if_neg (fun hne => hne rfl), hlength,
    scan_of_entry (by rw [byteAt_head]; exact h) (Nat.le_add_right 4 _), htail]

/-- A `MULTILOGIN` message is the same for all tables that have it. -/
theorem IsMessage.multilogin
    {τ : Type} {others : List (MsgInfo τ)}
    (h : IsMessage msgs f) (hk : byteAt f 0 = Proto.MULTILOGIN)
    (hmsgs : entryOf msgs Proto.MULTILOGIN = some (.varSize, 2))
    (hothers : entryOf others Proto.MULTILOGIN = some (.varSize, 2)) :
    IsMessage others f := by
  have hlen : f.length = 4 + load16 f 2 := length_of_entry (by rw [hk]; exact hmsgs) h
  have hbytes : ¬byteAt f 0 ≠ byteAt f 1 := by
    intro hne
    rw [IsMessage, msggetsize, if_neg (by omega), if_pos hne] at h
    omega
  rw [IsMessage, msggetsize, if_neg (by omega), if_neg hbytes,
    scan_of_entry (by rw [hk]; exact hothers) (by omega)]
  exact hlen.symm

end Messages

section Sent

variable {σ : Type} {h : Nat → σ → Frame → σ × Nat} {n : Node} {e : NodeEvent} {p q : Ptr}
  {x f : Frame}

/-- The table of the client, or of the login, has `MULTILOGIN`. -/
theorem entryOf_msginfoClient {c : Client} :
    entryOf (Node.msginfoClient c) Proto.MULTILOGIN = some (.varSize, 2) := by
  rw [Node.msginfoClient]
  split_ifs <;> rfl

/-- A client reads what is queued for it. -/
theorem Sends.client_isMessage
    (hen : e.enabled n) (hs : Sends n e (.client p) x) :
    IsMessage (c2nTable h) x ∨ byteAt x 0 = Proto.PINGREP := by
  have hid : ∀ {k : Nat} {i : Id},
      entryOf (c2nTable h) (k % 256) = some (.fixedSize, 30) →
        IsMessage (c2nTable h) (head k ++ i.1) := by
    intro k i hk
    refine isMessage_fixed hk ?_
    rw [i.2]
    rfl
  cases hs with
  | connreqinc ci f i o hk hprim hs hne hno => exact .inl (hid rfl)
  | notfound ci f i hk hprim hs hwait hempty => exact .inl (hid rfl)
  | denied ci p f i l hk hprim hs hst hp1 => exact .inl (hid rfl)
  | clientPingrep ci f a b hk => exact .inr byteAt_head
  | multilogin me d f hf hme hst hd hid hne =>
      have hk : byteAt x 0 = Proto.MULTILOGIN := by
        simp only [isMultilogin, decide_eq_true_eq] at hf
        exact hf.1
      simp only [NodeEvent.enabled, List.any_eq_true, decide_eq_true_eq] at hen
      obtain ⟨c, -, -, -, hsize⟩ := hen
      exact .inl (IsMessage.multilogin hsize hk entryOf_msginfoClient rfl)
  | clnodelist ci f items hk hscan =>
      have hlen := (nodelistScan_items hscan).2
      have hmax := @length_nodelistItems none n.nodelinks n.myAddr
      exact .inl (isMessage_var rfl (by omega))
  | connreqincRemote nl f o hk hs => exact .inl (hid rfl)
  | foundRemote nl p f l hk hs hp1 => exact .inl (hid rfl)
  | notfoundRemote nl p f l hk hs hp1 => exact .inl (hid rfl)
  | multiloginNode nl f o d hk ho hst hv hd hid =>
      simp only [NodeEvent.enabled, Bool.decide_and, Bool.and_eq_true, decide_eq_true_eq] at hen
      exact .inl (IsMessage.multilogin hen.2 hk rfl rfl)
  | found i io l p hshut hi hty hl hst hp1 => exact .inl (hid rfl)
  | clientPingreq o a b ho htick hidle => exact .inl (isMessage_fixed rfl rfl)

/-- A node reads what is queued for it. -/
theorem Sends.node_isMessage
    (hen : e.enabled n) (hs : Sends n e (.node p) x) :
    IsMessage (msginfoNode q) x ∨ IsMessage (msginfoNewconn 0) x := by
  have hid : ∀ {k : Nat} {i : Id},
      entryOf (msginfoNode q) (k % 256) = some (.fixedSize, 30) →
        IsMessage (msginfoNode q) (head k ++ i.1) := by
    intro k i hk
    refine isMessage_fixed hk ?_
    rw [i.2]
    rfl
  have hids : ∀ {k : Nat} {i j : Id},
      entryOf (msginfoNode q) (k % 256) = some (.fixedSize, 58) →
        IsMessage (msginfoNode q) (head k ++ i.1 ++ j.1) := by
    intro k i j hk
    rw [List.append_assoc]
    refine isMessage_fixed hk ?_
    rw [List.length_append, i.2, j.2]
    rfl
  cases hs with
  | search ci p f i hk hprim hs hwait hlinked => exact .inl (hid rfl)
  | deniedRemote ci p f i l hk hprim hs hst hnode => exact .inl (hids rfl)
  | multiloginNodes me p f hf hme hst hlinked =>
      have hk : byteAt x 0 = Proto.MULTILOGIN := by
        simp only [isMultilogin, decide_eq_true_eq] at hf
        exact hf.1
      simp only [NodeEvent.enabled, List.any_eq_true, decide_eq_true_eq] at hen
      obtain ⟨c, -, -, -, hsize⟩ := hen
      exact .inl (IsMessage.multilogin hsize hk entryOf_msginfoClient rfl)
  | newnode p f hk h2 h3 =>
      have hlen : 2 + (addrBytes n.myAddr).length = 8 := by simp [addrBytes]
      exact .inl (isMessage_fixed rfl hlen)
  | nodelistreq p f a b hk h2 h3 => exact .inl (isMessage_fixed rfl rfl)
  | nodelist m f items hk hm hscan =>
      have hlen := (nodelistScan_items hscan).2
      have hmax := @length_nodelistItems (some m) n.nodelinks n.myAddr
      exact .inl (isMessage_var rfl (by omega))
  | n2nfound p f c hk hs => exact .inl (hid rfl)
  | n2nconnreqoutg p f l hk hl hst hid => exact .inl (hids rfl)
  | n2nnotfound p f hk hs => exact .inl (hids rfl)
  | n2nmsgLost p f hk hcle hclr => exact .inl (hids rfl)
  | nodePingrep p f a b hk => exact .inl (isMessage_fixed rfl rfl)
  | n2nallow i io l p hshut hi hty hl hst hnode => exact .inl (hids rfl)
  | nodePingreq m a b hm htick hidle => exact .inl (isMessage_fixed rfl rfl)
  | n2nmsg e l d p data he hl hst hnode hlen =>
      left
      have hbody : ((l.senderId d).1 ++ (l.receiverId d).1 ++ data).length =
          2 * idSize + data.length := by
        rw [List.length_append, List.length_append, Id.length_val, Id.length_val]
        omega
      have hmax : 2 * idSize + Proto.N2NMSG_MAXDATASIZE < 65536 := by decide
      have := @isMessage_var _ (msginfoNode q) Proto.N2NMSG
        ((l.senderId d).1 ++ (l.receiverId d).1 ++ data) rfl (by omega)
      rw [hbody] at this
      simpa only [PicaPica.n2nmsg, List.append_assoc] using this
  | nodeconnreq s a => exact .inr (isMessage_fixed rfl rfl)

end Sent

section Runs

variable {σ : Type} {h : Nat → σ → Frame → σ × Nat} {n : Node}

/-- What is queued was queued by a call for an event that could happen. -/
theorem queued_enabled
    {x : Frame} {r : Receiver} (hn : Reachable n) (hx : n.Queued x r) :
    ∃ u e, NodeEvent.enabled u e ∧ Sends u e r x := by
  obtain ⟨a, b, now, mem, rnd, verify, reached, es, hrun⟩ := hn
  obtain ⟨before, e, after, u, rfl, hu, hs⟩ := queued_by_cause hrun hx
  obtain ⟨v, hv, hrest⟩ := run_append hrun
  obtain ⟨w, hw, -⟩ := run_cons hrest
  rw [hu] at hv
  cases hv
  exact ⟨u, e, (nodeStep_eq_some.mp hw).1, hs⟩

/-- **Messages.**  In every state that a node reaches, what it has queued for a client is one
message of the table of the client each, or an answer to a `PINGREQ` of this client; what it has
queued for another node is one message of the table for nodes each, or of the one for new
connections. -/
theorem written_are_messages (hn : Reachable n) :
    (∀ c ∈ n.clients, ∀ x ∈ c.pushed,
      IsMessage (c2nTable h) x ∨ byteAt x 0 = Proto.PINGREP) ∧
    ∀ m ∈ n.nodelinks, ∀ x ∈ m.pushed, ∀ q,
      IsMessage (msginfoNode q) x ∨ IsMessage (msginfoNewconn 0) x := by
  constructor
  · intro c hc x hx
    obtain ⟨u, e, hen, hs⟩ := queued_enabled hn (r := .client c.ptr) ⟨c, hc, rfl, hx⟩
    exact hs.client_isMessage hen
  · intro m hm x hx q
    obtain ⟨u, e, hen, hs⟩ := queued_enabled hn (r := .node m.ptr) ⟨m, hm, rfl, hx⟩
    exact hs.node_isMessage hen

/-- Client 1 calls client 2. -/
theorem written_are_messages_call :
    ∃ c ∈ (stateAfter freshNode callRequested).clients, ∃ x ∈ c.pushed,
      byteAt x 0 = Proto.CONNREQINC ∧
        (IsMessage (c2nTable fun _ (s : Unit) _ => (s, 1)) x ∨ byteAt x 0 = Proto.PINGREP) := by
  have hreach := @stateAfter_reachable callRequested (by decide +kernel)
  obtain ⟨c, hc, x, hx, hk⟩ : ∃ c ∈ (stateAfter freshNode callRequested).clients,
      ∃ x ∈ c.pushed, byteAt x 0 = Proto.CONNREQINC := by decide +kernel
  exact ⟨c, hc, x, hx, hk, (written_are_messages hreach).1 c hc x hx⟩

/-- Reading a stream of messages of the table, however the bytes come in. -/
theorem readAll_messages
    {msgs : List (MsgInfo σ)} {fs : List Frame} {arg : σ} {buf rest : List UInt8}
    {reads : List (List UInt8)}
    (hfs : ∀ f ∈ fs, IsMessage msgs f) (hstream : reads.flatten ++ rest = fs.flatten)
    (hfit : readsFit msgs buf 0 arg reads) :
    (∃ todo, fs = (readAll msgs buf 0 arg reads).1.calls ++ todo) ∧
      ((readAll msgs buf 0 arg reads).1.ret = 0 →
        (readAll msgs buf 0 arg reads).1.refused ≠ none) ∧
      ((readAll msgs buf 0 arg reads).1.ret ≠ 0 →
        (readAll msgs buf 0 arg reads).1.handled = fitting fs reads.flatten.length) := by
  obtain ⟨hr, -⟩ := readAll_refines msgs reads buf 0 arg hfit
  have hfeed := @feed_eq_drain _ _ _ (handler msgs) (sizer_stable msgs) arg [] reads (.inl rfl)
  rw [List.nil_append] at hfeed
  rw [List.take_zero] at hr
  have hframes : ∀ f ∈ fs, f ≠ [] ∧ sizer msgs f = f.length :=
    fun f hf => ⟨(hfs f hf).ne_nil, hfs f hf⟩
  have hdrain := @drain_stream_calls _ _ (sizer msgs) (handler msgs) (sizer_stable msgs) arg fs
    reads.flatten rest hframes hstream
  rw [← hfeed] at hdrain
  obtain ⟨⟨todo, hcalls⟩, hok, hbad⟩ := hdrain
  refine ⟨⟨todo, ?_⟩, fun hret => ?_, fun hret => ?_⟩
  · rw [StreamResult.calls, hr.handled, hr.refused]
    exact hcalls
  · rw [hr.refused]
    refine hbad ?_
    by_contra hyes
    rw [hr.ret, if_pos (by simpa using hyes)] at hret
    exact absurd hret (by decide)
  · rw [hr.handled]
    refine hok ?_
    by_contra hno
    rw [hr.ret, if_neg hno] at hret
    exact hret rfl

/-- **A client understands its node.**  The bytes that have left the queue for a client are read
in any pieces that fit into the room left in its buffer.  The handlers are called with the
messages that were queued, in their order and none left out; when no handler refuses its message,
with all that have arrived completely.  Nothing else makes the client close the connection. -/
theorem client_reads_its_node
    {c : Client} {arg : σ} {buf rest : List UInt8} {reads : List (List UInt8)}
    (hn : Reachable n) (hc : c ∈ n.clients)
    (hping : ∀ x ∈ c.pushed, byteAt x 0 ≠ Proto.PINGREP)
    (hsent : reads.flatten ++ rest = c.pushed.flatten)
    (hfit : readsFit (c2nTable h) buf 0 arg reads) :
    (∃ todo, c.pushed = (readAll (c2nTable h) buf 0 arg reads).1.calls ++ todo) ∧
      ((readAll (c2nTable h) buf 0 arg reads).1.ret = 0 →
        (readAll (c2nTable h) buf 0 arg reads).1.refused ≠ none) ∧
      ((readAll (c2nTable h) buf 0 arg reads).1.ret ≠ 0 →
        (readAll (c2nTable h) buf 0 arg reads).1.handled =
          fitting c.pushed reads.flatten.length) := by
  refine readAll_messages (fun x hx => ?_) hsent hfit
  rcases (@written_are_messages _ h n hn).1 c hc x hx with hmsg | hrep
  · exact hmsg
  · exact absurd hrep (hping x hx)

/-- Client 2 does not want the call, and is called again. -/
def calledAgain : List NodeEvent :=
  callRequested ++ [.c2nFrame 2 (head Proto.CONNDENY ++ (Id.ofByte 1).1),
    .c2nFrame 1 (head Proto.CONNREQOUTG ++ (Id.ofByte 2).1)]

/-- It reads the calls in three pieces, into a buffer for one of them. -/
theorem client_reads_its_node_call :
    ∃ c ∈ (stateAfter freshNode calledAgain).clients, c.ptr = 2 ∧ c.pushed.flatten.length = 60 ∧
      ∃ todo, c.pushed = (readAll (c2nTable fun _ (s : Unit) _ => (s, 1)) (List.replicate 30 0) 0 ()
        [c.pushed.flatten.take 7, (c.pushed.flatten.drop 7).take 23,
          (c.pushed.flatten.drop 7).drop 23]).1.calls ++ todo := by
  have hreach := @stateAfter_reachable calledAgain (by decide +kernel)
  obtain ⟨c, hc, hptr, hlen, hping, hfit⟩ : ∃ c ∈ (stateAfter freshNode calledAgain).clients,
      c.ptr = 2 ∧ c.pushed.flatten.length = 60 ∧ (∀ x ∈ c.pushed, byteAt x 0 ≠ Proto.PINGREP) ∧
        readsFit (c2nTable fun _ (s : Unit) _ => (s, 1)) (List.replicate 30 0) 0 ()
          [c.pushed.flatten.take 7, (c.pushed.flatten.drop 7).take 23,
            (c.pushed.flatten.drop 7).drop 23] := by
    decide +kernel
  have hall : [c.pushed.flatten.take 7, (c.pushed.flatten.drop 7).take 23,
      (c.pushed.flatten.drop 7).drop 23].flatten ++ [] = c.pushed.flatten := by
    rw [List.append_nil, List.flatten_cons, List.flatten_cons, List.flatten_cons,
      List.flatten_nil, List.append_nil, List.take_append_drop, List.take_append_drop]
  exact ⟨c, hc, hptr, hlen, (client_reads_its_node hreach hc hping hall hfit).1⟩

end Runs

end PicaPica
