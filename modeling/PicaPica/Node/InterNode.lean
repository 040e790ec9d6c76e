import PicaPica.Node.LinkRecord

/-!
# Data between two nodes

The bytes of a link between clients of two nodes travel in `N2NMSG` messages, which
carry the identifiers of the sender and of the receiver but not which of the two has
made the call.  `procmsg_N2NMSG` takes the sender for the caller first, and only then
for the callee.  When the same two clients have called each other, what the callee of
one link sends is put into the other link (`n2nmsg_takes_reverse_link`); otherwise it
stays on its own (`n2nmsg_stays_on_link`).
-/

namespace PicaPica

open Table Machine

/-! ## Buffers of links to other nodes -/

/-- Nothing is in the buffers before a link is active, they are there when it is about
to become active, and a direction to another node is always empty. -/
structure CCLink.Prepared (l : CCLink) : Prop where
  empty : l.state.active = false → ∀ d, (l.relay d).bufpos = 0 ∧ (l.relay d).jam = false
  ready : l.state = .n2nClrWaitConnClrAnonTlsShutdown ∨
    l.state = .n2nCleWaitConnCleAnonTlsShutdown → ∀ d, (l.relay d).Idle
  remote : ∀ d, l.state = remoteState d → (l.relay d).Idle

section Prepared

variable {n₀ n : Node} {e : NodeEvent} {l l' : CCLink}

/-- A state in which nothing has been allocated yet. -/
theorem CCLink.Prepared.waiting
    (hempty : ∀ d, (l.relay d).bufpos = 0 ∧ (l.relay d).jam = false)
    (hact : l.state.active = false) (hanon : l.state.anon = false) :
    l.Prepared := by
  refine ⟨fun _ => hempty, ?_, ?_⟩
  · rintro (hst | hst)
    · simp [hst, CcState.anon] at hanon
    · simp [hst, CcState.anon] at hanon
  · intro d hst
    cases d <;> simp [hst, remoteState, CcState.active] at hact

theorem CCLink.Prepared.of_idle (h : ∀ d, (l.relay d).Idle) : l.Prepared :=
  ⟨fun _ d => (h d).2.2, fun _ => h, fun d _ => h d⟩

theorem prepared_of_linkStart (h : n.LinkStart l) : l.Prepared := by
  cases h <;> refine .waiting ?_ rfl rfl <;> rintro (_ | _) <;> exact ⟨rfl, rfl⟩

theorem prepared_setwaitconn (h : l.Prepared) : l.setwaitconn.Prepared := by
  have hrelay : ∀ d, l.setwaitconn.relay d = l.relay d := by
    intro d
    cases hst : l.state <;> cases d <;> simp [CCLink.setwaitconn, CCLink.relay, hst]
  by_cases hun : l.state.undecided
  · refine .waiting ?_ ?_ ?_
    · intro d
      rw [hrelay]
      refine h.empty ?_ d
      cases hst : l.state <;> simp_all [CcState.undecided, CcState.active]
    · cases hst : l.state <;> simp_all [CCLink.setwaitconn, CcState.undecided, CcState.active]
    · cases hst : l.state <;> simp_all [CCLink.setwaitconn, CcState.undecided, CcState.anon]
  · have hsame : l.setwaitconn = l := by
      cases hst : l.state <;> simp_all [CCLink.setwaitconn, CcState.undecided]
    rwa [hsame]

theorem prepared_attachRemotecleNode
    {nl : Ptr}
    (h : l.Prepared) :
    (l.attachRemotecleNode nl).Prepared := by
  rw [CCLink.attachRemotecleNode]
  split_ifs with hst
  · refine .waiting ?_ rfl rfl
    intro d
    have hempty := h.empty (by rw [hst]; rfl) d
    cases d <;> exact hempty
  · exact h

theorem idle_allocbufs
    {d : Dir}
    (h : (l.relay d).bufpos = 0 ∧ (l.relay d).jam = false) :
    (l.allocbufs.relay d).Idle := by
  cases d <;> exact ⟨by simp [CCLink.allocbufs, CCLink.relay], rfl, h.1, h.2⟩

theorem prepared_setwaitanontlsshutdown
    {s : Socket}
    (h : l.Prepared) :
    (l.setwaitanontlsshutdown s).Prepared := by
  have allocated : l.state.active = false → ∀ d, (l.allocbufs.relay d).Idle :=
    fun hact d => idle_allocbufs (h.empty hact d)
  cases hst : l.state
  case localWaitConnCle =>
    have hempty := h.empty (by rw [hst]; rfl)
    simp only [CCLink.setwaitanontlsshutdown, hst]
    refine ⟨fun _ d => ?_, (by simp), fun d hd => ?_⟩
    · cases d
      · exact hempty .p1p2
      · exact hempty .p2p1
    · cases d <;> cases hd
  case localWaitConnClr | n2nClrWaitConnClr | n2nCleWaitConnCle =>
    have hidle := allocated (by rw [hst]; rfl)
    simp only [CCLink.setwaitanontlsshutdown, hst]
    refine .of_idle fun d => ?_
    cases d
    · exact hidle .p1p2
    · exact hidle .p2p1
  all_goals simpa [CCLink.setwaitanontlsshutdown, hst] using h

theorem prepared_activate (h : l.Prepared) : l.activate.Prepared := by
  cases hst : l.state
  case localWaitConnCleAnonTlsShutdown =>
    have hempty := h.empty (by rw [hst]; rfl)
    simp only [CCLink.activate, hst]
    refine .waiting (fun d => ?_) rfl rfl
    cases d
    · exact hempty .p1p2
    · exact hempty .p2p1
  case localWaitConnClrAnonTlsShutdown =>
    simp only [CCLink.activate, hst]
    refine ⟨(by rintro ⟨⟩), (by simp), fun d hd => ?_⟩
    cases d <;> cases hd
  case n2nClrWaitConnClrAnonTlsShutdown | n2nCleWaitConnCleAnonTlsShutdown =>
    have hidle := h.ready (by simp [hst])
    simp only [CCLink.activate, hst]
    refine .of_idle fun d => ?_
    cases d
    · exact hidle .p1p2
    · exact hidle .p2p1
  all_goals simpa [CCLink.activate, hst] using h

theorem prepared_relay
    (h : l.Prepared) (hact : l.state.active) (hcore : l'.core = l.core)
    (hidle : ∀ d, l.state = remoteState d → (l.relay d).Idle → (l'.relay d).Idle) :
    l'.Prepared := by
  have hst := state_of_core hcore
  refine ⟨?_, ?_, ?_⟩
  · rw [hst, hact]
    nofun
  · rw [hst]
    rintro (hst | hst) <;> simp [hst, CcState.active] at hact
  · intro d hd
    rw [hst] at hd
    exact hidle d hd (h.remote d hd)

theorem prepared_kept : LinkKept n₀ e CCLink.Prepared := by
  refine ⟨prepared_of_linkStart, fun hchange h => ?_⟩
  cases hchange with
  | same => exact h
  | attach nl => exact prepared_attachRemotecleNode h
  | setwaitconn => exact prepared_setwaitconn h
  | connid i f c => exact prepared_setwaitanontlsshutdown h
  | activate i io => exact prepared_activate h
  | relay l' hst hcore hidle hby => exact prepared_relay h hst hcore hidle

/-- Every link of a reachable node is prepared. -/
theorem Reachable.prepared (hn : Reachable n) : ∀ l ∈ n.cclinks, l.Prepared := by
  obtain ⟨a, r, now, mem, rnd, verify, reached, es, hrun⟩ := hn
  exact run_links (fun _ _ _ => prepared_kept) meets_true hrun

end Prepared

/-! ## The message -/

section Message

variable {sender receiver : Id} {data rest : List UInt8}

theorem idAt_append {pre post : List UInt8} {i : Id} :
    idAt (pre ++ (i.1 ++ post)) pre.length = i := by
  refine Subtype.ext (List.ext_getElem (by simp [idAt]) ?_)
  intro k hk hk'
  have hget : (pre ++ (i.1 ++ post))[pre.length + k]? = some i.1[k] := by
    rw [List.getElem?_append_right (Nat.le_add_right _ _), Nat.add_sub_cancel_left,
      List.getElem?_append_left hk', List.getElem?_eq_getElem hk']
  simp [idAt, List.getD_eq_getElem?_getD, hget]

theorem length_n2nmsg : (n2nmsg sender receiver data).length = 4 + 2 * idSize + data.length := by
  simp [n2nmsg]
  omega

theorem load16_n2nmsg (h : data.length ≤ defaultBufSize) :
    load16 (n2nmsg sender receiver data ++ rest) 2 = 2 * idSize + data.length := by
  have hsmall : 2 * idSize + data.length < 65536 := by
    simp only [idSize, defaultBufSize] at h ⊢
    omega
  have hfield : ((n2nmsg sender receiver data ++ rest).drop 2).take 2 =
      le16 (2 * idSize + data.length) := by
    have hassoc : n2nmsg sender receiver data ++ rest = head Proto.N2NMSG ++
        (le16 (2 * idSize + data.length) ++ (sender.1 ++ receiver.1 ++ data ++ rest)) := by
      simp [n2nmsg]
    rw [hassoc, List.drop_left' (length_head _), List.take_left' (length_le16 _)]
  rw [load16, hfield, leNat_le16 hsmall]

theorem byteAt_n2nmsg :
    byteAt (n2nmsg sender receiver data ++ rest) 0 = Proto.N2NMSG ∧
      byteAt (n2nmsg sender receiver data ++ rest) 1 = Proto.N2NMSG := by
  constructor <;> simp [n2nmsg, head, byteAt, Proto.N2NMSG]

theorem msginfoNode_N2NMSG
    {buf : List UInt8} {nb : Nat} {nl : Ptr}
    (h0 : byteAt buf 0 = Proto.N2NMSG) (hnb : 4 ≤ nb) :
    msggetsizeScan buf nb (msginfoNode nl) = 4 + load16 buf 2 ∧
      ∀ size n, processmsgScan buf size n (msginfoNode nl) =
        handlerFn (·.procmsgN2NMSG nl) n (buf.take size) := by
  constructor
  · simp [msggetsizeScan, msginfoNode, fixedMsg, varMsg, h0, Proto.INITRESPOK, Proto.VERDIFFER,
      Proto.NEWNODE_IPV4, Proto.NODELISTREQ, Proto.NODELIST, Proto.SEARCH, Proto.N2NFOUND,
      Proto.N2NFOUNDCACHE, Proto.N2NCONNREQOUTG, Proto.N2NALLOW, Proto.N2NNOTFOUND, Proto.N2NMSG,
      hnb, tailLen, load16]
  · intro size n
    simp [processmsgScan, msginfoNode, fixedMsg, varMsg, h0, Proto.INITRESPOK, Proto.VERDIFFER,
      Proto.NEWNODE_IPV4, Proto.NODELISTREQ, Proto.NODELIST, Proto.SEARCH, Proto.N2NFOUND,
      Proto.N2NFOUNDCACHE, Proto.N2NCONNREQOUTG, Proto.N2NALLOW, Proto.N2NNOTFOUND, Proto.N2NMSG]

/-- The message is cut out of the stream as it was built, and handed over. -/
theorem frame_n2nmsg {nl : Ptr} (h : data.length ≤ defaultBufSize) :
    msggetsize (n2nmsg sender receiver data ++ rest)
      (n2nmsg sender receiver data ++ rest).length (msginfoNode nl) =
        (n2nmsg sender receiver data).length ∧
      ∀ n, processmsg (n2nmsg sender receiver data ++ rest) (n2nmsg sender receiver data).length n
        (msginfoNode nl) = handlerFn (·.procmsgN2NMSG nl) n (n2nmsg sender receiver data) := by
  obtain ⟨h0, h1⟩ := @byteAt_n2nmsg sender receiver data rest
  have hlong : 4 ≤ (n2nmsg sender receiver data ++ rest).length := by
    rw [List.length_append, length_n2nmsg]
    omega
  obtain ⟨hsize, hcall⟩ := @msginfoNode_N2NMSG _ _ nl h0 hlong
  constructor
  · rw [msggetsize, if_neg (by omega), if_neg (by simp [h0, h1]), hsize, load16_n2nmsg h,
      length_n2nmsg]
    omega
  · intro n
    rw [processmsg, if_neg (by simp [h0, h1]), hcall, List.take_left]

/-- The handler finds in the message what was put there. -/
theorem procmsgN2NMSG_n2nmsg
    {n : Node} {nl : Ptr}
    (h : data.length ≤ defaultBufSize) :
    n.procmsgN2NMSG nl (n2nmsg sender receiver data) =
      match n.cclinkListSearch sender receiver with
      | some cc =>
          if cc.state = .n2nCleActive then n.n2nmsgInto .p1p2 data cc
          else n.n2nmsgBack nl sender receiver data
      | none => n.n2nmsgBack nl sender receiver data := by
  have hlen : load16 (n2nmsg sender receiver data) 2 = 2 * idSize + data.length := by
    simpa using @load16_n2nmsg sender receiver data [] h
  have hsender : idAt (n2nmsg sender receiver data) 4 = sender := by
    have := @idAt_append (head Proto.N2NMSG ++ le16 (2 * idSize + data.length))
      (receiver.1 ++ data) sender
    simpa [n2nmsg] using this
  have hreceiver : idAt (n2nmsg sender receiver data) (4 + idSize) = receiver := by
    have := @idAt_append (head Proto.N2NMSG ++ le16 (2 * idSize + data.length) ++ sender.1)
      data receiver
    simpa [n2nmsg, ← Nat.add_assoc] using this
  have hdata : ((n2nmsg sender receiver data).drop (4 + 2 * idSize)).take data.length = data := by
    have hpre : (head Proto.N2NMSG ++ le16 (2 * idSize + data.length) ++ sender.1 ++
        receiver.1).length = 4 + 2 * idSize := by
      simp only [List.length_append, length_head, length_le16, Id.length_val]
      omega
    rw [n2nmsg, List.drop_left' hpre, List.take_length]
  simp only [Node.procmsgN2NMSG, hlen, hsender, hreceiver, Nat.add_sub_cancel_left, hdata]
  refine (if_neg (by omega)).trans ?_
  rfl

end Message

/-! ## The receiving node -/

/-- The link `M` of the receiving node is the other half of the link `L` of the sending
node, whose direction `d` leads there. -/
structure Mirrored (d : Dir) (L M : CCLink) : Prop where
  sending : L.state = remoteState d
  receiving : n2nDir M.state = some d
  callerId : M.callerId = L.callerId
  calleeId : M.calleeId = L.calleeId

/-- The data is put behind what the direction `d` of the link `M` holds, if there is
room for it, and no other link is changed. -/
structure AppendsOnly (n n' : Node) (M : CCLink) (d : Dir) (data : List UInt8) : Prop where
  appended : (M.relay d).Wf → (M.relay d).bufpos + data.length ≤ (M.relay d).buflen →
    ∃ b : RelayBuf, M.setRelay d b ∈ n'.cclinks ∧ b.Wf ∧
      b.content = (M.relay d).content ++ data
  others : ∀ l, l.ptr ≠ M.ptr → (l ∈ n'.cclinks ↔ l ∈ n.cclinks)

section Receive

variable {n n' : Node} {M : CCLink} {d : Dir} {data : List UInt8} {nl : Ptr}

/-- Data is put into the link that was found, or the link is deleted. -/
theorem n2nmsgInto_cases
    (hd : Distinct CCLink.ptr n.cclinks) (hM : M ∈ n.cclinks) :
    ∃ n', n.n2nmsgInto d data M = .ok (n', 1) ∧
      ((M.relay d).buflen < uadd data.length (M.relay d).bufpos ∧ n' = n.dropLink M ∨
        ¬(M.relay d).buflen < uadd data.length (M.relay d).bufpos ∧
          n' = n.modifyLink M.ptr fun _ => M.setRelay d ((M.relay d).append data)) := by
  by_cases hfull : (M.relay d).buflen < uadd data.length (M.relay d).bufpos
  · refine ⟨n.dropLink M, ?_, .inl ⟨hfull, rfl⟩⟩
    have hderef : n.derefLink (some M.ptr) = .ok M := by
      simp [Node.derefLink, deref, hd.lookup hM]
    simp only [Node.n2nmsgInto, relayN2nmsg, if_pos hfull, Node.cclinkListDelete, hderef]
    rfl
  · refine ⟨_, ?_, .inr ⟨hfull, rfl⟩⟩
    simp only [Node.n2nmsgInto, relayN2nmsg, if_neg hfull]
    rfl

/-- The link the data is put into is the only one that changes. -/
theorem n2nmsgInto_appends
    (hd : Distinct CCLink.ptr n.cclinks) (hM : M ∈ n.cclinks) :
    ∃ n', n.n2nmsgInto d data M = .ok (n', 1) ∧ AppendsOnly n n' M d data := by
  obtain ⟨n', hn', hcases⟩ := @n2nmsgInto_cases n M d data hd hM
  refine ⟨n', hn', ?_, ?_⟩
  · intro hwf hroom
    have hsum : uadd data.length (M.relay d).bufpos = (M.relay d).bufpos + data.length := by
      have := hwf.small
      rw [uadd_eq (by simp only [defaultBufSize, uintMod] at *; omega), Nat.add_comm]
    rcases hcases with ⟨hfull, -⟩ | ⟨-, rfl⟩
    · omega
    · obtain ⟨hwf', hcontent, -⟩ := RelayBuf.append_wf hwf hroom
      refine ⟨(M.relay d).append data, mem_modify.mpr ⟨M, hM, ?_⟩, hwf', hcontent⟩
      rw [if_pos rfl]
  · intro l hne
    rcases hcases with ⟨-, rfl⟩ | ⟨-, rfl⟩
    · exact ⟨fun hl => (mem_remove.mp hl).1, fun hl => mem_remove.mpr ⟨hl, hne⟩⟩
    · constructor
      · intro hl
        obtain ⟨x, hx, heq⟩ := mem_modify.mp hl
        split_ifs at heq with hp
        · rw [heq] at hne
          cases d <;> exact absurd rfl hne
        · rwa [heq]
      · intro hl
        exact mem_modify.mpr ⟨l, hl, by rw [if_neg hne]⟩

/-- The link the data is put into does change. -/
theorem n2nmsgInto_changes
    (hd : Distinct CCLink.ptr n.cclinks) (hM : M ∈ n.cclinks)
    (hne : data ≠ []) (hlen : data.length ≤ defaultBufSize) :
    ∃ n', n.n2nmsgInto d data M = .ok (n', 1) ∧ M ∉ n'.cclinks := by
  obtain ⟨n', hn', hcases⟩ := @n2nmsgInto_cases n M d data hd hM
  refine ⟨n', hn', fun hmem => ?_⟩
  rcases hcases with ⟨-, rfl⟩ | ⟨-, rfl⟩
  · exact (mem_remove.mp hmem).2 rfl
  · obtain ⟨x, hx, heq⟩ := mem_modify.mp hmem
    split_ifs at heq with hp
    · have hpos : 0 < data.length := List.length_pos_iff.mpr hne
      have hbufpos : (M.relay d).bufpos = uadd (M.relay d).bufpos data.length := by
        conv_lhs => rw [heq, CCLink.relay_setRelay_self]
        rfl
      refine uadd_ne hpos ?_ hbufpos.symm
      simp only [defaultBufSize, uintMod] at hlen ⊢
      omega
    · rw [← heq] at hp
      exact hp rfl

/-- No link of the node is a call of the callee to the caller whose data comes here. -/
def Node.NoReverse (n : Node) (L : CCLink) : Prop :=
  ∀ l ∈ n.cclinks, l.callerId = L.calleeId → l.calleeId = L.callerId → l.state ≠ .n2nCleActive

/-- The handler takes the sender for the caller first. -/
theorem procmsgN2NMSG_appends_iff
    {L : CCLink}
    (hd : Distinct CCLink.ptr n.cclinks) (hone : n.OnePerPair) (hM : M ∈ n.cclinks)
    (hmir : Mirrored d L M) (hne : data ≠ []) (hlen : data.length ≤ defaultBufSize) :
    (∃ n', n.procmsgN2NMSG nl (n2nmsg (L.senderId d) (L.receiverId d) data) = .ok (n', 1) ∧
      AppendsOnly n n' M d data) ↔ d = .p1p2 ∨ n.NoReverse L := by
  have hsearch := hone.search hM
  rw [hmir.callerId, hmir.calleeId] at hsearch
  rw [procmsgN2NMSG_n2nmsg hlen]
  cases d with
  | p1p2 =>
      have hst : M.state = .n2nCleActive := by
        have := hmir.receiving
        cases hst : M.state <;> simp_all [n2nDir]
      simp only [CCLink.senderId, CCLink.receiverId, hsearch, if_pos hst, true_or, iff_true]
      exact n2nmsgInto_appends hd hM
  | p2p1 =>
      have hst : M.state = .n2nClrActive := by
        have := hmir.receiving
        cases hst : M.state <;> simp_all [n2nDir]
      have hback : n.n2nmsgBack nl L.calleeId L.callerId data = n.n2nmsgInto .p2p1 data M := by
        simp only [Node.n2nmsgBack, hsearch, if_pos hst]
      simp only [CCLink.senderId, CCLink.receiverId, reduceCtorEq, false_or]
      cases hrev : n.cclinkListSearch L.calleeId L.callerId with
      | none =>
          dsimp only
          rw [hback]
          refine iff_of_true (n2nmsgInto_appends hd hM) ?_
          intro l hl hcaller hcallee
          simp only [Node.cclinkListSearch, List.find?_eq_none, decide_eq_true_eq] at hrev
          exact absurd ⟨hcaller, hcallee⟩ (hrev l hl)
      | some R =>
          obtain ⟨hR, hcaller, hcallee⟩ := cclinkListSearch_spec hrev
          dsimp only
          by_cases hact : R.state = .n2nCleActive
          · -- the reversed link takes the data, and changes
            rw [if_pos hact]
            refine iff_of_false ?_ fun hno => hno R hR hcaller hcallee hact
            rintro ⟨n', hn', happ⟩
            obtain ⟨m, hm, hgone⟩ := @n2nmsgInto_changes n R .p1p2 data hd hR hne hlen
            have hptr : R.ptr ≠ M.ptr := by
              intro hptr
              rw [hd.eq hR hM hptr, hst] at hact
              cases hact
            rw [hn'] at hm
            cases hm
            exact hgone ((happ.others R hptr).mpr hR)
          · rw [if_neg hact, hback]
            refine iff_of_true (n2nmsgInto_appends hd hM) ?_
            intro l hl hcaller' hcallee' hact'
            rw [hone l hl R hR (hcaller'.trans hcaller.symm) (hcallee'.trans hcallee.symm)] at hact'
            exact hact hact'

/-- The same for the message in the stream of the other node. -/
theorem processmsg_appends_iff
    {L : CCLink} {rest : List UInt8}
    (hd : Distinct CCLink.ptr n.cclinks) (hone : n.OnePerPair) (hM : M ∈ n.cclinks)
    (hmir : Mirrored d L M) (hne : data ≠ []) (hlen : data.length ≤ defaultBufSize) :
    (∃ n', processmsg (n2nmsg (L.senderId d) (L.receiverId d) data ++ rest)
        (n2nmsg (L.senderId d) (L.receiverId d) data).length (.ok n) (msginfoNode nl) =
          (.ok n', 1) ∧ AppendsOnly n n' M d data) ↔ d = .p1p2 ∨ n.NoReverse L := by
  rw [← procmsgN2NMSG_appends_iff hd hone hM hmir hne hlen, (frame_n2nmsg hlen).2]
  constructor
  · rintro ⟨n', hn', happ⟩
    refine ⟨n', ?_, happ⟩
    have hok := handlerFn_ok (congrArg Prod.fst hn')
    rwa [congrArg Prod.snd hn'] at hok
  · rintro ⟨n', hn', happ⟩
    exact ⟨n', by rw [handlerFn, hn'], happ⟩

end Receive

/-- **Data between nodes stays on its own link** if the caller sends it, or else if the
receiving node has no active link on which its callee is called by the sender. -/
theorem n2nmsg_stays_on_link
    {S R : Node} {L M : CCLink} {d : Dir} {payload rest : List UInt8} {env : WriteEnv} {nl : Ptr}
    (hS : Reachable S) (hR : Reachable R) (hL : L ∈ S.cclinks) (hM : M ∈ R.cclinks)
    (hone : R.OnePerPair) (hmir : Mirrored d L M)
    (hne : payload ≠ []) (hlen : payload.length ≤ 4096) (hmem : env.memFor d) :
    ∃ f, (processC2cRead (L.srcSck d) payload payload env L).pushed = [(L.dstNode d, f)] ∧
      msggetsize (f ++ rest) (f ++ rest).length (msginfoNode nl) = f.length ∧
      ((∃ R', processmsg (f ++ rest) f.length (.ok R) (msginfoNode nl) = (.ok R', 1) ∧
          AppendsOnly R R' M d payload) ↔ d = .p1p2 ∨ R.NoReverse L) := by
  have hidle := (hS.prepared L hL).remote d hmir.sending
  exact ⟨n2nmsg (L.senderId d) (L.receiverId d) payload,
    processC2cRead_pushed hmir.sending hidle hne hlen hmem, (frame_n2nmsg hlen).1,
    processmsg_appends_iff hR.core.linksDistinct hone hM hmir hne hlen⟩

/-! ## Two clients that have called each other -/

/-- A client of this node calls one of another node, and connects. -/
def callOut (caller node : Ptr) (i j : Id) (slot : Nat) : List NodeEvent :=
  [.c2nFrame caller (head Proto.CONNREQOUTG ++ j.1),
    .n2nFrame node (head Proto.N2NFOUND ++ j.1),
    .n2nFrame node (head Proto.N2NALLOW ++ i.1 ++ j.1),
    .accept (12 + slot) ⟨7, 8⟩ true,
    .newconnRead slot (readBytes (head Proto.CONNID ++ i.1 ++ j.1)),
    .newconnRead slot shutdownDone]

/-- A client of another node calls one of this node, who allows it and connects. -/
def callIn (callee node : Ptr) (i j : Id) (slot : Nat) : List NodeEvent :=
  [.n2nFrame node (head Proto.N2NCONNREQOUTG ++ i.1 ++ j.1),
    .c2nFrame callee (head Proto.CONNALLOW ++ i.1),
    .accept (12 + slot) ⟨7, 8⟩ true,
    .newconnRead slot (readBytes (head Proto.CONNID ++ i.1 ++ j.1)),
    .newconnRead slot shutdownDone]

/-- The node of client `01..01`, which has called client `02..02` and was called by it. -/
def nodeX : Node :=
  stateAfter freshNode (clientLogin 10 0 1 (.ofByte 1) ++ [.nodewait 20 ⟨0x08080808, 2299⟩] ++
    callOut 1 2 (.ofByte 1) (.ofByte 2) 1 ++ callIn 1 2 (.ofByte 2) (.ofByte 1) 2)

/-- The node of client `02..02`. -/
def nodeY : Node :=
  stateAfter freshNode (clientLogin 10 0 1 (.ofByte 2) ++ [.nodewait 20 ⟨0x08080808, 2299⟩] ++
    callIn 1 2 (.ofByte 1) (.ofByte 2) 1 ++ callOut 1 2 (.ofByte 2) (.ofByte 1) 2)

theorem nodeX_reachable : Reachable nodeX :=
  stateAfter_reachable (by decide +kernel)

theorem nodeY_reachable : Reachable nodeY :=
  stateAfter_reachable (by decide +kernel)

theorem nodeX_onePerPair : nodeX.OnePerPair :=
  .of_ptr nodeX_reachable.core.linksDistinct (by decide +kernel)

theorem nodeY_onePerPair : nodeY.OnePerPair :=
  .of_ptr nodeY_reachable.core.linksDistinct (by decide +kernel)

/-- A call with memory for everything. -/
def relayEnv : WriteEnv :=
  ⟨0, ⟨none, 0⟩, ⟨none, 0⟩, true, true⟩

/-- What the caller sends arrives on the link it has made. -/
theorem n2nmsg_stays_on_link_caller :
    ∃ L ∈ nodeX.cclinks, ∃ M ∈ nodeY.cclinks, Mirrored .p1p2 L M ∧
      ∃ f Y', (processC2cRead L.sckP1 [1, 2, 3] [1, 2, 3] relayEnv L).pushed =
          [(L.calleeNode, f)] ∧
        processmsg (f ++ []) f.length (.ok nodeY) (msginfoNode 2) = (.ok Y', 1) ∧
        AppendsOnly nodeY Y' M .p1p2 [1, 2, 3] := by
  obtain ⟨L, hL, M, hM, hst, hst', hcaller, hcallee⟩ :
      ∃ L ∈ nodeX.cclinks, ∃ M ∈ nodeY.cclinks, L.state = .n2nClrActive ∧
        M.state = .n2nCleActive ∧ M.callerId = L.callerId ∧ M.calleeId = L.calleeId := by
    decide +kernel
  have hmir : Mirrored .p1p2 L M := ⟨hst, by rw [hst']; rfl, hcaller, hcallee⟩
  obtain ⟨f, hf, -, hiff⟩ := @n2nmsg_stays_on_link nodeX nodeY L M .p1p2 [1, 2, 3] [] relayEnv 2
    nodeX_reachable nodeY_reachable hL hM nodeY_onePerPair hmir (by decide) (by decide) rfl
  obtain ⟨Y', hY', happ⟩ := hiff.mpr (.inl rfl)
  exact ⟨L, hL, M, hM, hmir, f, Y', hf, hY', happ⟩

/-- The callee answers on the link of `01..01`, and its data is put into the link it
has made itself. -/
theorem n2nmsg_takes_reverse_link :
    ∃ L ∈ nodeY.cclinks, ∃ M ∈ nodeX.cclinks, Reachable nodeY ∧ Reachable nodeX ∧
      nodeX.OnePerPair ∧ Mirrored .p2p1 L M ∧
      ∃ f, (processC2cRead L.sckP2 [1, 2, 3] [1, 2, 3] relayEnv L).pushed =
          [(L.callerNode, f)] ∧
        ¬∃ X', processmsg (f ++ []) f.length (.ok nodeX) (msginfoNode 2) = (.ok X', 1) ∧
          AppendsOnly nodeX X' M .p2p1 [1, 2, 3] := by
  obtain ⟨L, hL, M, hM, hst, hst', hcaller, hcallee, R, hR, hRst, hRcaller, hRcallee⟩ :
      ∃ L ∈ nodeY.cclinks, ∃ M ∈ nodeX.cclinks, L.state = .n2nCleActive ∧
        M.state = .n2nClrActive ∧ M.callerId = L.callerId ∧ M.calleeId = L.calleeId ∧
        ∃ R ∈ nodeX.cclinks, R.state = .n2nCleActive ∧ R.callerId = L.calleeId ∧
          R.calleeId = L.callerId := by
    decide +kernel
  have hmir : Mirrored .p2p1 L M := ⟨hst, by rw [hst']; rfl, hcaller, hcallee⟩
  have hidle := (nodeY_reachable.prepared L hL).remote .p2p1 hst
  refine ⟨L, hL, M, hM, nodeY_reachable, nodeX_reachable, nodeX_onePerPair, hmir, _,
    processC2cRead_pushed hst hidle (by decide) (by decide) rfl, ?_⟩
  rw [processmsg_appends_iff nodeX_reachable.core.linksDistinct nodeX_onePerPair hM hmir
    (by decide) (by decide)]
  rintro (hdir | hno)
  · cases hdir
  · exact hno R hR hRcaller hRcallee hRst

end PicaPica
