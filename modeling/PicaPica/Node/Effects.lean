import PicaPica.Node.RelayRemote

/-!
# What an event can do to the node

For every handler and every callback: a call that returns is a sequence of changes,
and a handler returns 0 only for a message that `Node.clientRefused` or
`Node.nodeRefused` describes.  `react_acts` puts them together; an invariant of the
node is checked against the changes and no longer against the handlers.
-/

namespace PicaPica

open Table Machine

/-! ## Messages of clients -/

section ClientMessages

variable {n₀ n m : Node} {e : NodeEvent} {ci : Ptr} {f : Frame} {r : Nat} {c : Client}

theorem byteAt_head {k : Nat} {xs : List UInt8} : byteAt (head k ++ xs) 0 = k % 256 := by
  simp [head, byteAt]

/-- Pushing a message that is not `FOUND`. -/
theorem pushOther_acts
    {p : Option Ptr} {k : Nat} {xs : List UInt8} {b : Bool}
    (hk : k % 256 ≠ Proto.FOUND) (hxs : xs.length ≤ 65534)
    (h : n.clientWbufPush p (head k ++ xs) = .ok (m, b)) :
    Acts n₀ e n m := by
  refine clientWbufPush_acts (fun _ hf => absurd (byteAt_head.symm.trans hf) hk) ?_ h
  intro hlong
  rw [List.length_append, length_head] at hlong
  omega

/-- A message that carries an identifier is short. -/
theorem length_id_le (id : Id) : id.1.length ≤ 65534 := by
  rw [Id.length_val]
  decide

theorem not_long_id (k : Nat) (id : Id) : ¬ 65536 < (head k ++ id.1).length := by
  have hid := length_id_le id
  rw [List.length_append, length_head]
  omega

theorem nodelinkSendSearchreq_acts
    {id : Id} {b : Bool}
    (h : n.nodelinkSendSearchreq id = .ok (m, b)) :
    Acts n₀ e n m ∧ (m.clients = n.clients ∧ m.cclinks = n.cclinks ∧ m.reaches = n.reaches) ∧
      (b → n.nodelinks ≠ []) := by
  rw [Node.nodelinkSendSearchreq] at h
  split_ifs at h with hnone
  · cases h
    exact ⟨.refl, ⟨rfl, rfl, rfl⟩, nofun⟩
  · obtain ⟨k, hk, h⟩ := bind_eq_ok.mp h
    cases h
    exact ⟨pushToNodes_acts hk, pushToNodes_frame hk, fun _ => hnone⟩

theorem cclinkListAddn2nclr_acts
    {id : Id}
    (hc : n.Primary c.ptr c.id) (hid : n.clientTreeSearch id = none)
    (hask : n.cclinkListSearch c.id id = none ∨ e.asksAgain n₀)
    (h : n.cclinkListAddn2nclr c id = .ok m) :
    Acts n₀ e n m := by
  rw [Node.cclinkListAddn2nclr] at h
  split_ifs at h
  · cases h
    exact (acts_asked.trans acts_asked).tail (.addLink _ (.callerSide c.ptr c.id id hc hid) hask)
  · cases h
    exact acts_asked

theorem connreqSearch_acts
    {id : Id} {b : Bool}
    (h : n.connreqSearch id = .ok (m, b)) :
    Acts n₀ e n m ∧ (m.clients = n.clients ∧ m.cclinks = n.cclinks ∧ m.reaches = n.reaches) ∧
      (b → (n.cclinkListFindwaitsearch id).isSome ∨ n.nodelinks ≠ []) := by
  rw [Node.connreqSearch] at h
  split_ifs at h with hwait
  · cases h
    exact ⟨.refl, ⟨rfl, rfl, rfl⟩, fun _ => .inl hwait⟩
  · obtain ⟨hacts, hframe, hnodes⟩ := nodelinkSendSearchreq_acts h
    exact ⟨hacts, hframe, fun hb => .inr (hnodes hb)⟩

theorem connreqRemote_acts
    {id : Id}
    (hc : n.Primary c.ptr c.id) (hid : n.clientTreeSearch id = none)
    (hask : (n.cclinkListFindwaitsearch id).isSome ∨ n.nodelinks ≠ [] →
      n.cclinkListSearch c.id id = none ∨ e.asksAgain n₀)
    (h : n.connreqRemote c id = .ok (m, r)) :
    Acts n₀ e n m ∧ r ≠ 0 := by
  obtain ⟨⟨k, searching⟩, hk, h⟩ := bind_eq_ok.mp h
  obtain ⟨hsearch, ⟨hclients, hlinks, hreach⟩, hfound⟩ := @connreqSearch_acts n₀ _ _ e _ _ hk
  have hck : k.Primary c.ptr c.id := by rwa [Node.Primary, hclients]
  have hidk : k.clientTreeSearch id = none := by rwa [Node.clientTreeSearch, hclients, hreach]
  cases searching with
  | true =>
      obtain ⟨k', hk', h⟩ := bind_eq_ok.mp h
      cases h
      have hask' : k.cclinkListSearch c.id id = none ∨ e.asksAgain n₀ := by
        rw [Node.cclinkListSearch, hlinks]
        exact hask (hfound rfl)
      exact ⟨hsearch.trans (cclinkListAddn2nclr_acts hck hidk hask' hk'), by decide⟩
  | false =>
      obtain ⟨⟨k', b⟩, hk', h⟩ := bind_eq_ok.mp h
      cases h
      exact ⟨hsearch.trans (pushOther_acts (by decide) (length_id_le _) hk'), by decide⟩

theorem cclinkListAddlocal_acts
    {o : Client}
    (hc : n.Primary c.ptr c.id) (ho : n.Primary o.ptr o.id) (hne : c.id ≠ o.id)
    (hno : n.cclinkListSearch c.id o.id = none) :
    Acts n₀ e n (n.cclinkListAddlocal c o) := by
  rw [Node.cclinkListAddlocal]
  split_ifs
  · exact acts_asked.tail
      (.addLink _ (.localLink c.ptr o.ptr c.id o.id hc ho hne hno) (.inl hno))
  · exact acts_asked

theorem procmsgCONNREQOUTG_acts
    (hc : n.derefClient (some ci) = .ok c) (hst : c.state = .connected)
    (hkind : byteAt f 0 = Proto.CONNREQOUTG)
    (h : n.procmsgCONNREQOUTG ci f = .ok (m, r)) :
    Acts n (.c2nFrame ci f) n m ∧ r ≠ 0 := by
  replace h := bind_eq_ok.mp h
  obtain ⟨c', hc', h⟩ := h
  cases hc.symm.trans hc'
  obtain ⟨hp, hmem, hlook⟩ := deref_eq_ok hc
  cases hp
  have hprim : n.Primary c.ptr c.id := ⟨c, hmem, rfl, hst, rfl⟩
  cases hs : n.clientTreeSearch (idAt f 2) with
  | none =>
      simp only [hs] at h
      refine connreqRemote_acts hprim hs (fun hgo => ?_) h
      by_cases hno : n.cclinkListSearch c.id (idAt f 2) = none
      · exact .inl hno
      · right
        have hsome := Option.isSome_iff_ne_none.mpr hno
        simp [NodeEvent.asksAgain, hkind, hs, hlook, hst, hsome, hgo]
  | some o =>
      simp only [hs] at h
      split_ifs at h with hno
      · cases h
        exact ⟨.refl, by decide⟩
      · obtain ⟨⟨k, b⟩, hk, h⟩ := bind_eq_ok.mp h
        obtain ⟨ho, host, hoid⟩ := clientTreeSearch_primary hs
        rw [← hoid] at hno
        push Not at hno
        have hpush : Acts n (.c2nFrame c.ptr f) n k :=
          pushOther_acts (by decide) (length_id_le _) hk
        obtain ⟨hlinks, -, hprims⟩ := clientWbufPush_frame hk
        cases b with
        | false =>
            cases h
            exact ⟨hpush, by decide⟩
        | true =>
            cases h
            refine ⟨.tail (hpush.trans ?_) (.tickClient o.ptr _ true), by decide⟩
            refine cclinkListAddlocal_acts (hprims _ _ hprim)
              (hprims _ _ ⟨o, ho, rfl, host, rfl⟩) hno.2 ?_
            rw [Node.cclinkListSearch, hlinks]
            simpa [Node.cclinkListSearch] using hno.1

theorem clientReplied_acts : Acts n₀ e n (n.clientReplied ci) :=
  (Act.tickClient ci n.now false).acts

theorem procmsgCONNALLOW_acts
    (hc : n.derefClient (some ci) = .ok c) (hst : c.state = .connected)
    (hk : byteAt f 0 = Proto.CONNALLOW)
    (h : n.procmsgCONNALLOW ci f = .ok (m, r)) :
    Acts n (.c2nFrame ci f) n m ∧ (r = 0 → n.clientRefused c f) := by
  obtain ⟨c', hc', h⟩ := bind_eq_ok.mp h
  cases hc.symm.trans hc'
  obtain ⟨hp, hmem, -⟩ := deref_eq_ok hc
  cases hp
  have hreplied : (n.clientReplied c.ptr).cclinkListSearch (idAt f 2) c.id =
      n.cclinkListSearch (idAt f 2) c.id := rfl
  dsimp only at h
  rw [hreplied] at h
  cases hs : n.cclinkListSearch (idAt f 2) c.id with
  | none =>
      simp only [hs] at h
      cases h
      exact ⟨clientReplied_acts, fun _ => by simp [Node.clientRefused, hk, hst, hs]⟩
  | some l =>
      simp only [hs] at h
      split_ifs at h with hl
      · cases h
        exact ⟨clientReplied_acts.tail
          (.allow l c.ptr c.id f rfl hk ⟨c, hmem, rfl, hst, rfl⟩ hs hl), fun h => by cases h⟩
      · cases h
        refine ⟨clientReplied_acts, fun _ => ?_⟩
        push Not at hl
        simp [Node.clientRefused, hk, hst, hs, hl]

theorem dropLink_congr {l l' : CCLink} (h : l.ptr = l'.ptr) : n.dropLink l = n.dropLink l' := by
  rw [Node.dropLink, h, Node.dropLink]

/-- Deleting the link that the handler has found. -/
theorem deleteFound_acts
    {l : CCLink}
    (hl : l ∈ n.cclinks) (hdel : l.state.active ∨ l ∈ n₀.cclinks ∧ e.deletesLink n₀ l)
    (he : !e.onNewconn)
    (h : n.cclinkListDelete (some l.ptr) = .ok m) :
    Acts n₀ e n m := by
  obtain ⟨cc, -, hp, rfl⟩ := cclinkListDelete_ok h
  simp only [Option.some.injEq] at hp
  rw [← dropLink_congr hp]
  exact (Act.deleteLink l hl hdel he).acts

theorem procmsgCONNDENY_acts
    (hc : n.derefClient (some ci) = .ok c) (hst : c.state = .connected)
    (hk : byteAt f 0 = Proto.CONNDENY)
    (h : n.procmsgCONNDENY ci f = .ok (m, r)) :
    Acts n (.c2nFrame ci f) n m ∧ (r = 0 → n.clientRefused c f) := by
  obtain ⟨c', hc', h⟩ := bind_eq_ok.mp h
  cases hc.symm.trans hc'
  obtain ⟨hp, hmem, hlook⟩ := deref_eq_ok hc
  cases hp
  have hreplied : (n.clientReplied c.ptr).cclinkListSearch (idAt f 2) c.id =
      n.cclinkListSearch (idAt f 2) c.id := rfl
  dsimp only at h
  rw [hreplied] at h
  cases hs : n.cclinkListSearch (idAt f 2) c.id with
  | none =>
      simp only [hs] at h
      cases h
      exact ⟨clientReplied_acts, fun _ => by simp [Node.clientRefused, hk, hst, hs]⟩
  | some l =>
      simp only [hs] at h
      have hl := (cclinkListSearch_spec hs).1
      have hdel : NodeEvent.deletesLink n l (.c2nFrame c.ptr f) := by
        simp [NodeEvent.deletesLink, hk, hlook, hst, hs]
      split at h
      · obtain ⟨⟨k, b⟩, hk', h⟩ := bind_eq_ok.mp h
        obtain ⟨k', hk'', h⟩ := bind_eq_ok.mp h
        cases h
        refine ⟨clientReplied_acts.trans
          ((pushOther_acts (by decide) (length_id_le _) hk').trans ?_),
          fun h => by cases h⟩
        refine deleteFound_acts ?_ (.inr ⟨hl, hdel⟩) rfl hk''
        rwa [(clientWbufPush_frame hk').1]
      · obtain ⟨⟨k, b⟩, hk', h⟩ := bind_eq_ok.mp h
        obtain ⟨k', hk'', h⟩ := bind_eq_ok.mp h
        cases h
        refine ⟨clientReplied_acts.trans ((nodelinkWbufPush_acts hk').trans ?_),
          fun h => by cases h⟩
        refine deleteFound_acts ?_ (.inr ⟨hl, hdel⟩) rfl hk''
        rwa [(nodelinkWbufPush_frame hk').1]
      · rename_i hne₁ hne₂
        obtain ⟨k', hk'', h⟩ := bind_eq_ok.mp h
        cases h
        refine ⟨clientReplied_acts.trans (deleteFound_acts hl (.inr ⟨hl, hdel⟩) rfl hk''), fun _ => ?_⟩
        simp only [imp_false] at hne₁ hne₂
        simp [Node.clientRefused, hk, hst, hs, hne₁, hne₂]

theorem procmsgPINGREQClient_acts
    (hk : byteAt f 0 = Proto.PINGREQ)
    (h : n.procmsgPINGREQClient ci f = .ok (m, r)) :
    Acts n₀ e n m ∧ (r = 0 → n.clientRefused c f) := by
  obtain ⟨⟨k, b⟩, hk', h⟩ := bind_eq_ok.mp h
  obtain ⟨-, -, -, hb, -⟩ := clientWbufPush_ok hk'
  cases h
  refine ⟨pushOther_acts (by decide) (by simp) hk', fun hr => ?_⟩
  have hmem : n.mem n.tick = false := by simpa [← hb] using hr
  simp [Node.clientRefused, hk, hmem, Proto.PINGREQ, Proto.CONNALLOW, Proto.CONNDENY]

theorem pushToLogins_acts
    {me : Option Ptr} {ps : List Ptr}
    (hf : byteAt f 0 ≠ Proto.FOUND)
    (hlong : ∀ p ∈ ps, some p ≠ me → 65536 < f.length → e.overlong n₀)
    (h : Node.pushToLogins f me ps n = .ok m) :
    Acts n₀ e n m := by
  induction ps generalizing n with
  | nil =>
      cases h
      exact .refl
  | cons p ps ih =>
      rw [Node.pushToLogins] at h
      have hrest := fun q hq => hlong q (List.mem_cons_of_mem p hq)
      split_ifs at h with hme
      · exact ih hrest h
      · obtain ⟨⟨k, b⟩, hk, h⟩ := bind_eq_ok.mp h
        have hpush := clientWbufPush_acts (fun _ hfound => absurd hfound hf)
          (hlong p List.mem_cons_self hme) hk
        exact hpush.trans (ih hrest h)

theorem procmsgMULTILOGINClient_acts
    (hkind : byteAt f 0 = Proto.MULTILOGIN) (hsize : 2 ≤ f.length)
    (h : n.procmsgMULTILOGINClient ci f = .ok (m, r)) :
    Acts n (.c2nFrame ci f) n m ∧ r ≠ 0 := by
  obtain ⟨me, hme, h⟩ := bind_eq_ok.mp h
  obtain ⟨k, hk, h⟩ := bind_eq_ok.mp h
  obtain ⟨k', hk', h⟩ := bind_eq_ok.mp h
  cases h
  obtain ⟨hp, -, hlook⟩ := deref_eq_ok hme
  cases hp
  refine ⟨(pushToLogins_acts ?_ ?_ hk).trans (pushToNodes_acts hk'), by decide⟩
  · rw [byteAt_head]
    decide
  · intro p hp hne hlong
    rw [List.length_append, length_head, List.length_drop] at hlong
    have hbig : 65536 < f.length := by omega
    have hother : (((n.clientTreeSearch me.id).map n.logins).getD []).any (· ≠ me.ptr) := by
      refine List.any_eq_true.mpr ⟨p, hp, ?_⟩
      simpa using hne
    simp only [NodeEvent.overlong, hkind, hlook, Option.any_some, hother, hbig, and_self, true_or,
      decide_true]

theorem length_nodelistItem (a : SockAddr) : (Node.nodelistItem a).length = 7 := by
  simp [Node.nodelistItem, addrBytes]

/-- A list for a client has one item for each node that has announced an address. -/
theorem nodelistScan_length
    {nls : List NodeLink} {nlBuf out : List UInt8}
    (h : Node.nodelistScan none nls nlBuf = .ok out) :
    out.length ≤
      nlBuf.length + 7 * (nls.filter fun nl => nl.addrType = Proto.NEWNODE_IPV4).length := by
  induction nls generalizing nlBuf with
  | nil =>
      cases h
      exact Nat.le_add_right _ _
  | cons nl nls ih =>
      by_cases hroom : nlBuf.length < 65532
      · by_cases htype : nl.addrType = Proto.NEWNODE_IPV4
        · cases ha : nl.nodeAddr with
          | none => simp [Node.nodelistScan, hroom, htype, ha] at h
          | some a =>
              simp only [Node.nodelistScan, hroom, htype, ha, if_true] at h
              have hrest := ih h
              rw [List.length_append, length_nodelistItem] at hrest
              simp only [List.filter_cons, htype, decide_true, if_true, List.length_cons]
              omega
        · simp only [Node.nodelistScan, hroom, htype, if_true, if_false] at h
          have hrest := ih h
          simpa [List.filter_cons, htype] using hrest
      · simp only [Node.nodelistScan, hroom, if_false] at h
        cases h
        exact Nat.le_add_right _ _

theorem procmsgNODELISTREQClient_acts
    (hk : byteAt f 0 = Proto.CLNODELISTREQ)
    (h : n.procmsgNODELISTREQClient ci f = .ok (m, r)) :
    Acts n (.c2nFrame ci f) n m ∧ (r = 0 → n.clientRefused c f) := by
  rw [Node.procmsgNODELISTREQClient] at h
  split_ifs at h with hm
  · obtain ⟨nlBuf, hscan, h⟩ := bind_eq_ok.mp h
    obtain ⟨⟨k, b⟩, hk', h⟩ := bind_eq_ok.mp h
    cases h
    refine ⟨acts_asked.trans (clientWbufPush_acts (fun _ hfound => ?_) (fun hlong => ?_) hk'),
      fun h => by cases h⟩
    · rw [List.append_assoc, byteAt_head] at hfound
      exact absurd hfound (by decide)
    · have hcount := nodelistScan_length hscan
      rw [length_nodelistItem] at hcount
      rw [List.length_append, List.length_append, length_head, length_le16] at hlong
      have hmany : 9361 ≤
          (n.nodelinks.filter fun nl => nl.addrType = Proto.NEWNODE_IPV4).length := by
        omega
      simp [NodeEvent.overlong, hk, hmany]
  · cases h
    refine ⟨acts_asked, fun _ => ?_⟩
    simp [Node.clientRefused, hk, hm, Proto.CLNODELISTREQ, Proto.CONNALLOW, Proto.CONNDENY]

/-- A handler of a message table that returns. -/
theorem handlerFn_ok
    {h : Node → Frame → Except Fault (Node × Nat)}
    (hok : (handlerFn h (.ok n) f).1 = .ok m) :
    h n f = .ok (m, (handlerFn h (.ok n) f).2) := by
  cases hn : h n f with
  | error e => simp [handlerFn, hn] at hok
  | ok r =>
      simp only [handlerFn, hn, Except.ok.injEq] at hok ⊢
      rw [← hok]

theorem msginfoComm_acts
    {mi : MsgInfo (Except Fault Node)}
    (hc : n.derefClient (some ci) = .ok c) (hst : c.state = .connected)
    (hmi : mi ∈ msginfoComm ci) (hk : byteAt f 0 = mi.msgid % 256) (hlen : 2 ≤ f.length)
    (h : (mi.msgprocfn (.ok n) f).1 = .ok m) :
    Acts n (.c2nFrame ci f) n m ∧ ((mi.msgprocfn (.ok n) f).2 = 0 → n.clientRefused c f) := by
  simp only [msginfoComm, List.mem_cons, List.not_mem_nil, or_false] at hmi
  obtain rfl | rfl | rfl | rfl | rfl | rfl | rfl := hmi
  · obtain ⟨hacts, hr⟩ := procmsgCONNREQOUTG_acts hc hst hk (handlerFn_ok h)
    exact ⟨hacts, fun h0 => absurd h0 hr⟩
  · exact procmsgCONNALLOW_acts hc hst hk (handlerFn_ok h)
  · exact procmsgCONNDENY_acts hc hst hk (handlerFn_ok h)
  · exact procmsgNODELISTREQClient_acts hk (handlerFn_ok h)
  · exact procmsgPINGREQClient_acts hk (handlerFn_ok h)
  · cases h
    exact ⟨clientReplied_acts, fun h0 => by cases h0⟩
  · obtain ⟨hacts, hr⟩ := procmsgMULTILOGINClient_acts hk hlen (handlerFn_ok h)
    exact ⟨hacts, fun h0 => absurd h0 hr⟩

theorem msginfoMulti_acts
    {mi : MsgInfo (Except Fault Node)}
    (hmi : mi ∈ msginfoMulti ci) (hk : byteAt f 0 = mi.msgid % 256) (hlen : 2 ≤ f.length)
    (h : (mi.msgprocfn (.ok n) f).1 = .ok m) :
    Acts n (.c2nFrame ci f) n m ∧ ((mi.msgprocfn (.ok n) f).2 = 0 → n.clientRefused c f) := by
  simp only [msginfoMulti, List.mem_cons, List.not_mem_nil, or_false] at hmi
  obtain rfl | rfl | rfl | rfl | rfl | rfl | rfl := hmi
  · cases h
    exact ⟨.refl, fun h0 => by cases h0⟩
  · cases h
    exact ⟨.refl, fun h0 => by cases h0⟩
  · cases h
    exact ⟨.refl, fun h0 => by cases h0⟩
  · exact procmsgNODELISTREQClient_acts hk (handlerFn_ok h)
  · exact procmsgPINGREQClient_acts hk (handlerFn_ok h)
  · cases h
    exact ⟨clientReplied_acts, fun h0 => by cases h0⟩
  · obtain ⟨hacts, hr⟩ := procmsgMULTILOGINClient_acts hk hlen (handlerFn_ok h)
    exact ⟨hacts, fun h0 => absurd h0 hr⟩

theorem processC2nFrame_acts
    (hd : Distinct Client.ptr n.clients)
    (hen : NodeEvent.enabled n (.c2nFrame ci f))
    (h : n.processC2nFrame ci f = .ok m) :
    Acts n (.c2nFrame ci f) n m := by
  obtain ⟨c, hc, h⟩ := bind_eq_ok.mp h
  obtain ⟨k, hk, h⟩ := bind_eq_ok.mp h
  obtain ⟨hp, hmem, hlook⟩ := deref_eq_ok hc
  cases hp
  simp only [NodeEvent.enabled, List.any_eq_true, decide_eq_true_eq] at hen
  obtain ⟨c', hc', hptr, hst, hsize⟩ := hen
  obtain rfl := hd.eq hc' hmem hptr
  have hlen : 2 ≤ f.length := by
    rw [msggetsize] at hsize
    split_ifs at hsize with hshort hbytes
    · rw [uintMax] at hsize
      omega
    · exact Nat.le_of_not_lt hshort
    · exact Nat.le_of_not_lt hshort
  have hacts : Acts n (.c2nFrame c'.ptr f) n k ∧
      ((processmsg f f.length (.ok n) (Node.msginfoClient c')).2 = 0 → n.clientRefused c' f) := by
    obtain ⟨mi, hmi, hid, hcall⟩ := processmsg_entry hsize
    rw [hcall] at hk ⊢
    rcases hst with hst | hst
    · rw [Node.msginfoClient, if_neg (by simp [hst])] at hmi
      exact msginfoComm_acts hc hst hmi hid hlen hk
    · rw [Node.msginfoClient, if_pos hst] at hmi
      exact msginfoMulti_acts hmi hid hlen hk
  split_ifs at h with h0
  · refine hacts.1.trans (clientListDelete_acts ?_ h)
    simp [NodeEvent.deletesClient, hlook, hacts.2 h0]
  · cases h
    exact hacts.1

end ClientMessages

/-! ## Messages of nodes -/

section NodeMessages

variable {n₀ n m : Node} {e : NodeEvent} {nl : Ptr} {f : Frame} {r : Nat}

theorem procmsgNODERESP_acts
    (hk : byteAt f 0 = Proto.INITRESPOK ∨ byteAt f 0 = Proto.VERDIFFER)
    (h : n.procmsgNODERESP nl f = .ok (m, r)) :
    Acts n₀ e n m ∧ (r = 0 → n.nodeRefused f) := by
  rw [Node.procmsgNODERESP] at h
  split_ifs at h with hok hbytes hver
  · cases h
    refine ⟨.refl, fun _ => ?_⟩
    rcases hbytes with hb | hb
    · simp [Node.nodeRefused, hok, hb]
    · simp [Node.nodeRefused, hok, hb]
  · obtain ⟨⟨k, b⟩, hpush, h⟩ := bind_eq_ok.mp h
    obtain ⟨nl', -, -, hb, hkeq⟩ := nodelinkWbufPush_ok hpush
    have hacts : Acts n₀ e n k := nodelinkWbufPush_acts hpush
    cases b with
    | false =>
        cases h
        exact ⟨hacts, fun _ => by simp [Node.nodeRefused, hok, ← hb]⟩
    | true =>
        obtain ⟨⟨k', b'⟩, hpush', h⟩ := bind_eq_ok.mp h
        obtain ⟨nl'', -, -, hb', -⟩ := nodelinkWbufPush_ok hpush'
        cases h
        refine ⟨hacts.trans (nodelinkWbufPush_acts hpush'), fun hr => ?_⟩
        have hmem : n.mem (n.tick + 1) = b' := by
          rw [hb', hkeq]
          rfl
        have hfalse : b' = false := by simpa using hr
        simp [Node.nodeRefused, hok, hmem, hfalse]
  · cases h
    exact ⟨.refl, fun _ => by simp [Node.nodeRefused, hver, Proto.INITRESPOK, Proto.VERDIFFER]⟩
  · exact absurd hk (by simp [hok, hver])

theorem nodelinkAttachNodeaddr_acts
    {a : SockAddr}
    (he : n.mem n.tick → e.announced n₀ = some (nl, a)) :
    Acts n₀ e n (n.nodelinkAttachNodeaddr nl a) := by
  rw [Node.nodelinkAttachNodeaddr]
  split_ifs with hmem
  · refine acts_asked.tail (.nodelink nl _ (fun _ => ⟨rfl, rfl⟩) ?_)
    intro _ b hb
    cases hb
    exact .inr ⟨he hmem, rfl⟩
  · refine acts_asked.tail (.nodelink nl _ (fun _ => ⟨rfl, rfl⟩) ?_)
    intro _ b hb
    cases hb

theorem procmsgNEWNODE_acts
    (hk : byteAt f 0 = Proto.NEWNODE_IPV4)
    (h : n.procmsgNEWNODE nl f = .ok (m, r)) :
    Acts n (.n2nFrame nl f) n m ∧ (r = 0 → n.nodeRefused f) := by
  rw [Node.procmsgNEWNODE, if_pos hk] at h
  dsimp only at h
  split_ifs at h with hknown hres
  · cases h
    exact ⟨.refl, fun _ => by
      simp [Node.nodeRefused, hk, hknown, Proto.INITRESPOK, Proto.VERDIFFER, Proto.NEWNODE_IPV4]⟩
  · cases h
    exact ⟨.refl, fun _ => by
      simp [Node.nodeRefused, hk, hres, Proto.INITRESPOK, Proto.VERDIFFER, Proto.NEWNODE_IPV4]⟩
  · cases h
    refine ⟨nodelinkAttachNodeaddr_acts fun hmem => ?_, fun h0 => by cases h0⟩
    simp [NodeEvent.announced, hmem, hk, hknown, hres]

theorem procmsgNODELISTREQ_acts
    (hk : byteAt f 0 = Proto.NODELISTREQ)
    (h : n.procmsgNODELISTREQ nl f = .ok (m, r)) :
    Acts n₀ e n m ∧ (r = 0 → n.nodeRefused f) := by
  rw [Node.procmsgNODELISTREQ] at h
  split_ifs at h with hm
  · obtain ⟨asking, -, h⟩ := bind_eq_ok.mp h
    obtain ⟨nlBuf, -, h⟩ := bind_eq_ok.mp h
    obtain ⟨⟨k, b⟩, hpush, h⟩ := bind_eq_ok.mp h
    cases h
    exact ⟨acts_asked.trans (nodelinkWbufPush_acts hpush), fun h0 => by cases h0⟩
  · cases h
    refine ⟨acts_asked, fun _ => ?_⟩
    simp [Node.nodeRefused, hk, hm, Proto.INITRESPOK, Proto.VERDIFFER, Proto.NEWNODE_IPV4,
      Proto.NODELISTREQ]

/-- Only the first item gives the sender an address. -/
theorem nodelistLoop_acts
    {buf : Frame} {size listsize fuel left : Nat}
    (hleft : left ≤ listsize)
    (hfirst : left = listsize → 0 < listsize → n.mem n.tick →
      e.announced n₀ = some (nl, addrAt buf (size - listsize + 1)))
    (h : Node.nodelistLoop nl buf size listsize fuel left n = .ok m) :
    Acts n₀ e n m := by
  induction fuel generalizing left n with
  | zero =>
      cases left with
      | zero =>
          cases h
          exact .refl
      | succ left => cases h
  | succ fuel ih =>
      cases left with
      | zero =>
          cases h
          exact .refl
      | succ left =>
          rw [Node.nodelistLoop] at h
          · have hnext : left + 1 - Proto.NODELIST_ITEM_IPV4_SIZE < listsize := by
              simp only [Proto.NODELIST_ITEM_IPV4_SIZE]
              omega
            have hlater : left + 1 - Proto.NODELIST_ITEM_IPV4_SIZE ≠ listsize :=
              Nat.ne_of_lt hnext
            split_ifs at h with _ _ heq
            · refine (nodelinkAttachNodeaddr_acts ?_).trans
                (ih (Nat.le_of_lt hnext) (fun hl => absurd hl hlater) h)
              rw [heq]
              exact hfirst heq (by omega)
            · exact ih (Nat.le_of_lt hnext) (fun hl => absurd hl hlater) h
          · simp

theorem procmsgNODELIST_acts
    (hk : byteAt f 0 = Proto.NODELIST)
    (h : n.procmsgNODELIST nl f = .ok (m, r)) :
    Acts n (.n2nFrame nl f) n m ∧ r ≠ 0 := by
  obtain ⟨k, hloop, h⟩ := bind_eq_ok.mp h
  cases h
  refine ⟨nodelistLoop_acts (Nat.le_refl _) (fun _ hpos hmem => ?_) hloop, by decide⟩
  have hlen : 4 < f.length := by omega
  have hoff : f.length - (f.length - 4) + 1 = 5 := by omega
  have hother : Proto.NODELIST ≠ Proto.NEWNODE_IPV4 := by decide
  simp [NodeEvent.announced, hmem, hk, hother, hlen, hoff]

theorem procmsgSEARCH_acts
    (h : n.procmsgSEARCH nl f = .ok (m, r)) :
    Acts n₀ e n m ∧ r ≠ 0 := by
  rw [Node.procmsgSEARCH] at h
  split at h
  · obtain ⟨⟨k, b⟩, hpush, h⟩ := bind_eq_ok.mp h
    cases h
    exact ⟨nodelinkWbufPush_acts hpush, by decide⟩
  · cases h
    exact ⟨.refl, by decide⟩

/-- Every pass of the loop takes a link out of the waiting state and asks the node
for it. -/
theorem n2nfoundLoop_acts
    {fuel : Nat}
    (hlinked : n.Linked nl)
    (hk : byteAt f 0 = Proto.N2NFOUND ∨ byteAt f 0 = Proto.N2NFOUNDCACHE)
    (h : Node.n2nfoundLoop nl (idAt f 2) fuel n = .ok m) :
    Acts n₀ (.n2nFrame nl f) n m := by
  induction fuel generalizing n with
  | zero =>
      unfold Node.n2nfoundLoop at h
      split at h
      · cases h
        exact .refl
      · cases h
      · contradiction
  | succ fuel ih =>
      unfold Node.n2nfoundLoop at h
      cases hs : n.cclinkListFindwaitsearch (idAt f 2) with
      | none =>
          simp only [hs] at h
          cases h
          exact .refl
      | some l =>
          simp only [hs] at h
          obtain ⟨⟨k, b⟩, hpush, h⟩ := bind_eq_ok.mp h
          have hstep := (Act.attach l nl f rfl hk hlinked hs : Act n₀ (.n2nFrame nl f) n _)
          refine hstep.acts.trans ((nodelinkWbufPush_acts hpush).trans (ih ?_ h))
          exact (nodelinkWbufPush_frame hpush).2.2 nl hlinked

theorem procmsgN2NFOUND_acts
    (hlinked : n.Linked nl)
    (hk : byteAt f 0 = Proto.N2NFOUND ∨ byteAt f 0 = Proto.N2NFOUNDCACHE)
    (h : n.procmsgN2NFOUND nl f = .ok (m, r)) :
    Acts n₀ (.n2nFrame nl f) n m ∧ r ≠ 0 := by
  obtain ⟨k, hloop, h⟩ := bind_eq_ok.mp h
  cases h
  exact ⟨n2nfoundLoop_acts hlinked hk hloop, by decide⟩

theorem cclinkListAddn2ncle_acts
    {id : Id} {c : Client}
    (hc : n.Primary c.ptr c.id) (hlinked : n.Linked nl)
    (hask : n.cclinkListSearch id c.id = none ∨ e.asksAgain n₀)
    (h : n.cclinkListAddn2ncle id nl c = .ok m) :
    Acts n₀ e n m := by
  rw [Node.cclinkListAddn2ncle] at h
  split_ifs at h
  · cases h
    exact (acts_asked.trans acts_asked).tail
      (.addLink _ (.calleeSide c.ptr nl id c.id hc hlinked) hask)
  · cases h
    exact acts_asked

theorem procmsgN2NCONNREQOUTG_acts
    (hlinked : n.Linked nl) (hk : byteAt f 0 = Proto.N2NCONNREQOUTG)
    (h : n.procmsgN2NCONNREQOUTG nl f = .ok (m, r)) :
    Acts n (.n2nFrame nl f) n m ∧ r ≠ 0 := by
  rw [Node.procmsgN2NCONNREQOUTG] at h
  cases hs : n.clientTreeSearch (idAt f (2 + idSize)) with
  | none =>
      simp only [hs] at h
      obtain ⟨⟨k, b⟩, hpush, h⟩ := bind_eq_ok.mp h
      cases h
      exact ⟨nodelinkWbufPush_acts hpush, by decide⟩
  | some c =>
      simp only [hs] at h
      obtain ⟨⟨k, b⟩, hpush, h⟩ := bind_eq_ok.mp h
      have hacts : Acts n (.n2nFrame nl f) n k :=
        pushOther_acts (by decide) (length_id_le _) hpush
      obtain ⟨hlinks, hnodes, hprims⟩ := clientWbufPush_frame hpush
      obtain ⟨hc, hst, hid⟩ := clientTreeSearch_primary hs
      cases b with
      | false =>
          cases h
          exact ⟨hacts, by decide⟩
      | true =>
          obtain ⟨k', hadd, h⟩ := bind_eq_ok.mp h
          cases h
          refine ⟨hacts.trans (cclinkListAddn2ncle_acts ?_ ?_ ?_ hadd), by decide⟩
          · exact hprims _ _ ⟨c, hc, rfl, hst, rfl⟩
          · rwa [Node.Linked, hnodes]
          · rw [Node.cclinkListSearch, hlinks, hid]
            by_cases hno : n.cclinkListSearch (idAt f 2) (idAt f (2 + idSize)) = none
            · exact .inl hno
            · right
              have hsome := Option.isSome_iff_ne_none.mpr hno
              simp [NodeEvent.asksAgain, hk, hs, hsome]

theorem procmsgN2NALLOW_acts
    (hk : byteAt f 0 = Proto.N2NALLOW)
    (h : n.procmsgN2NALLOW nl f = .ok (m, r)) :
    Acts n (.n2nFrame nl f) n m ∧ r ≠ 0 := by
  rw [Node.procmsgN2NALLOW] at h
  cases hs : n.cclinkListSearch (idAt f 2) (idAt f (2 + idSize)) with
  | none =>
      simp only [hs] at h
      cases h
      exact ⟨.refl, by decide⟩
  | some l =>
      simp only [hs] at h
      obtain ⟨⟨k, b⟩, hpush, h⟩ := bind_eq_ok.mp h
      obtain ⟨hl, -, hcallee⟩ := cclinkListSearch_spec hs
      have hacts : Acts n (.n2nFrame nl f) n k := by
        refine clientWbufPush_acts ?_ (fun hlong => absurd hlong (not_long_id _ _)) hpush
        intro hmem _
        exact ⟨l, hl, rfl, by rw [hcallee], .inl ⟨nl, f, rfl, hk, hmem, hs⟩⟩
      obtain ⟨c, -, hp1, hb, -⟩ := clientWbufPush_ok hpush
      cases b with
      | false =>
          cases h
          exact ⟨hacts, by decide⟩
      | true =>
          cases h
          exact ⟨hacts.tail (.n2nallow l nl f rfl hk hs (by simp [hp1]) hb.symm), by decide⟩

theorem procmsgN2NNOTFOUND_acts
    (hk : byteAt f 0 = Proto.N2NNOTFOUND)
    (h : n.procmsgN2NNOTFOUND nl f = .ok (m, r)) :
    Acts n (.n2nFrame nl f) n m ∧ r ≠ 0 := by
  rw [Node.procmsgN2NNOTFOUND] at h
  cases hs : n.cclinkListSearch (idAt f 2) (idAt f (2 + idSize)) with
  | none =>
      simp only [hs] at h
      cases h
      exact ⟨.refl, by decide⟩
  | some l =>
      simp only [hs] at h
      obtain ⟨⟨k, b⟩, hpush, h⟩ := bind_eq_ok.mp h
      obtain ⟨k', hdrop, h⟩ := bind_eq_ok.mp h
      cases h
      have hacts : Acts n (.n2nFrame nl f) n k := pushOther_acts (by decide) (length_id_le _) hpush
      have hl := (cclinkListSearch_spec hs).1
      refine ⟨hacts.trans (deleteFound_acts ?_ (.inr ⟨hl, ?_⟩) rfl hdrop), by decide⟩
      · rwa [(clientWbufPush_frame hpush).1]
      · simp [NodeEvent.deletesLink, hk, hs]

theorem n2nmsgInto_acts
    {d : Dir} {data : List UInt8} {l : CCLink}
    (hl : l ∈ n.cclinks) (hdir : n2nDir l.state = some d)
    (he : !e.onNewconn) (hfeed : data ≠ [] → e.feedsLink n₀)
    (h : n.n2nmsgInto d data l = .ok (m, r)) :
    Acts n₀ e n m ∧ r ≠ 0 := by
  have hst : l.state.active ∧ l.state ≠ remoteState d := by
    cases hs : l.state <;> rw [hs] at hdir <;> cases hdir <;> exact ⟨rfl, nofun⟩
  rw [Node.n2nmsgInto] at h
  cases hr : relayN2nmsg d data l with
  | none =>
      simp only [hr] at h
      obtain ⟨k, hdrop, h⟩ := bind_eq_ok.mp h
      cases h
      exact ⟨deleteFound_acts hl (.inl hst.1) he hdrop, by decide⟩
  | some l' =>
      simp only [hr] at h
      cases h
      have hby : RelayedBy n₀ e l l' := .n2nmsg d data hdir hr hfeed
      refine ⟨(Act.relay l l' hl hst.1 (unseen_core.relayedBy hby) ?_ hby).acts, by decide⟩
      intro d' hst' hidle
      have hne : d' ≠ d := by
        rintro rfl
        exact hst.2 hst'
      rwa [relayN2nmsg_eq_some hr, CCLink.relay_setRelay_of_ne _ _ _ _ hne]

theorem n2nmsgBack_acts
    {i j : Id} {data : List UInt8}
    (he : !e.onNewconn)
    (hfeed : (n.cclinkListSearch j i).any (·.state = .n2nClrActive) → data ≠ [] →
      e.feedsLink n₀)
    (h : n.n2nmsgBack nl i j data = .ok (m, r)) :
    Acts n₀ e n m ∧ r ≠ 0 := by
  have notFound : ∀ {x : List UInt8}, (n.nodelinkWbufPush (some nl) x >>= fun y =>
      (pure (y.1, 1) : Except Fault (Node × Nat))) = .ok (m, r) → Acts n₀ e n m ∧ r ≠ 0 := by
    intro x hx
    obtain ⟨⟨k, b⟩, hpush, hx⟩ := bind_eq_ok.mp hx
    cases hx
    exact ⟨nodelinkWbufPush_acts hpush, by decide⟩
  rw [Node.n2nmsgBack] at h
  cases hs : n.cclinkListSearch j i with
  | none =>
      simp only [hs] at h
      exact notFound h
  | some l =>
      simp only [hs] at h
      split_ifs at h with hst
      · exact n2nmsgInto_acts (cclinkListSearch_spec hs).1 (by rw [hst]; rfl) he
          (hfeed (by simp [hs, hst])) h
      · exact notFound h

theorem procmsgN2NMSG_acts
    (hk : byteAt f 0 = Proto.N2NMSG)
    (h : n.procmsgN2NMSG nl f = .ok (m, r)) :
    Acts n (.n2nFrame nl f) n m ∧ (r = 0 → n.nodeRefused f) := by
  rw [Node.procmsgN2NMSG] at h
  have accepted : Acts n (.n2nFrame nl f) n m ∧ r ≠ 0 →
      Acts n (.n2nFrame nl f) n m ∧ (r = 0 → n.nodeRefused f) :=
    fun hr => ⟨hr.1, fun h0 => absurd h0 hr.2⟩
  split_ifs at h with hlen
  · cases h
    exact ⟨.refl, fun _ => by
      simp [Node.nodeRefused, hk, hlen, Proto.INITRESPOK, Proto.VERDIFFER, Proto.NEWNODE_IPV4,
        Proto.NODELISTREQ, Proto.PINGREQ, Proto.N2NMSG]⟩
  · apply accepted
    have hpayload : (f.drop (4 + 2 * idSize)).take (load16 f 2 - 2 * idSize) ≠ [] →
        2 * idSize < load16 f 2 := by
      intro hne
      by_contra hle
      exact hne (by rw [Nat.sub_eq_zero_of_le (Nat.le_of_not_lt hle), List.take_zero])
    have hback : (n.cclinkListSearch (idAt f (4 + idSize)) (idAt f 4)).any
        (·.state = .n2nClrActive) →
        (f.drop (4 + 2 * idSize)).take (load16 f 2 - 2 * idSize) ≠ [] →
        NodeEvent.feedsLink n (.n2nFrame nl f) := by
      intro hany hne
      simp [NodeEvent.feedsLink, hk, hpayload hne, hany]
    cases hs : n.cclinkListSearch (idAt f 4) (idAt f (4 + idSize)) with
    | none =>
        simp only [hs] at h
        exact n2nmsgBack_acts rfl hback h
    | some l =>
        simp only [hs] at h
        split_ifs at h with hst
        · refine n2nmsgInto_acts (cclinkListSearch_spec hs).1 (by rw [hst]; rfl) rfl ?_ h
          intro hne
          simp [NodeEvent.feedsLink, hk, hpayload hne, hs, hst]
        · exact n2nmsgBack_acts rfl hback h

theorem procmsgPINGREQNode_acts
    (hk : byteAt f 0 = Proto.PINGREQ)
    (h : n.procmsgPINGREQNode nl f = .ok (m, r)) :
    Acts n₀ e n m ∧ (r = 0 → n.nodeRefused f) := by
  obtain ⟨⟨k, b⟩, hpush, h⟩ := bind_eq_ok.mp h
  obtain ⟨-, -, -, hb, -⟩ := nodelinkWbufPush_ok hpush
  cases h
  refine ⟨nodelinkWbufPush_acts hpush, fun hr => ?_⟩
  have hmem : n.mem n.tick = false := by simpa [← hb] using hr
  simp [Node.nodeRefused, hk, hmem, Proto.INITRESPOK, Proto.VERDIFFER, Proto.NEWNODE_IPV4,
    Proto.PINGREQ]

theorem procmsgMULTILOGINNode_acts
    (hk : byteAt f 0 = Proto.MULTILOGIN)
    (h : n.procmsgMULTILOGINNode nl f = .ok (m, r)) :
    Acts n (.n2nFrame nl f) n m ∧ (r = 0 → n.nodeRefused f) := by
  rw [Node.procmsgMULTILOGINNode] at h
  split_ifs at h with hlen
  · cases h
    refine ⟨.refl, fun _ => ?_⟩
    simp [Node.nodeRefused, hk, hlen, Proto.INITRESPOK, Proto.VERDIFFER, Proto.NEWNODE_IPV4,
      Proto.NODELISTREQ, Proto.PINGREQ, Proto.N2NMSG, Proto.MULTILOGIN]
  · split at h
    · cases h
      exact ⟨.refl, fun h0 => by cases h0⟩
    · rename_i c hfind
      obtain ⟨k, hpush, h⟩ := bind_eq_ok.mp h
      cases h
      refine ⟨pushToLogins_acts ?_ (fun _ _ _ hlong => ?_) hpush, fun h0 => by cases h0⟩
      · rw [hk]
        decide
      · have hsome : n.clients.any (fun c => c.state = .connected ∧ n.verify c.ptr f) :=
          List.any_eq_true.mpr
            ⟨c, List.mem_of_find?_eq_some hfind, by simpa using List.find?_some hfind⟩
        simp only [NodeEvent.overlong, hk, hlong, hsome, and_self, decide_true]
  · cases h
    exact ⟨.refl, fun h0 => by cases h0⟩

theorem msginfoNode_acts
    {mi : MsgInfo (Except Fault Node)}
    (hlinked : n.Linked nl)
    (hmi : mi ∈ msginfoNode nl) (hk : byteAt f 0 = mi.msgid % 256)
    (h : (mi.msgprocfn (.ok n) f).1 = .ok m) :
    Acts n (.n2nFrame nl f) n m ∧ ((mi.msgprocfn (.ok n) f).2 = 0 → n.nodeRefused f) := by
  have accepted : ∀ {r : Nat}, Acts n (.n2nFrame nl f) n m ∧ r ≠ 0 →
      Acts n (.n2nFrame nl f) n m ∧ (r = 0 → n.nodeRefused f) :=
    fun hr => ⟨hr.1, fun h0 => absurd h0 hr.2⟩
  simp only [msginfoNode, List.mem_cons, List.not_mem_nil, or_false] at hmi
  obtain rfl | rfl | rfl | rfl | rfl | rfl | rfl | rfl | rfl | rfl | rfl | rfl | rfl | rfl |
    rfl := hmi
  · exact procmsgNODERESP_acts (.inl hk) (handlerFn_ok h)
  · exact procmsgNODERESP_acts (.inr hk) (handlerFn_ok h)
  · exact procmsgNEWNODE_acts hk (handlerFn_ok h)
  · exact procmsgNODELISTREQ_acts hk (handlerFn_ok h)
  · exact accepted (procmsgNODELIST_acts hk (handlerFn_ok h))
  · exact accepted (procmsgSEARCH_acts (handlerFn_ok h))
  · exact accepted (procmsgN2NFOUND_acts hlinked (.inl hk) (handlerFn_ok h))
  · exact accepted (procmsgN2NFOUND_acts hlinked (.inr hk) (handlerFn_ok h))
  · exact accepted (procmsgN2NCONNREQOUTG_acts hlinked hk (handlerFn_ok h))
  · exact accepted (procmsgN2NALLOW_acts hk (handlerFn_ok h))
  · exact accepted (procmsgN2NNOTFOUND_acts hk (handlerFn_ok h))
  · exact procmsgN2NMSG_acts hk (handlerFn_ok h)
  · exact procmsgPINGREQNode_acts hk (handlerFn_ok h)
  · cases h
    exact ⟨modifyNodelink_acts (fun _ => ⟨rfl, rfl⟩) fun _ => ⟨rfl, rfl⟩, fun h0 => by cases h0⟩
  · exact procmsgMULTILOGINNode_acts hk (handlerFn_ok h)

theorem processN2nFrame_acts
    (hen : NodeEvent.enabled n (.n2nFrame nl f))
    (h : n.processN2nFrame nl f = .ok m) :
    Acts n (.n2nFrame nl f) n m := by
  obtain ⟨k, hk, h⟩ := bind_eq_ok.mp h
  simp only [NodeEvent.enabled, List.any_eq_true, decide_eq_true_eq] at hen
  obtain ⟨⟨l, hl, rfl⟩, hsize⟩ := hen
  have hacts : Acts n (.n2nFrame l.ptr f) n k ∧
      ((processmsg f f.length (.ok n) (msginfoNode l.ptr)).2 = 0 → n.nodeRefused f) := by
    obtain ⟨mi, hmi, hid, hcall⟩ := processmsg_entry hsize
    rw [hcall] at hk ⊢
    exact msginfoNode_acts ⟨l, hl, rfl⟩ hmi hid hk
  split_ifs at h with h0
  · refine hacts.1.trans (nodelinkListDelete_acts ?_ h)
    simp [NodeEvent.deletesNodelink, hacts.2 h0]
  · cases h
    exact hacts.1

end NodeMessages

/-! ## Active links -/

section Relaying

variable {n₀ n m : Node} {e : NodeEvent} {d : Dir} {s : Socket} {cc cc' : CCLink}

theorem pushRelayed_acts
    {out : List (Option Ptr × Frame)}
    (h : Node.pushRelayed out n = .ok m) :
    Acts n₀ e n m ∧ m.cclinks = n.cclinks := by
  induction out generalizing n with
  | nil =>
      cases h
      exact ⟨.refl, rfl⟩
  | cons o out ih =>
      obtain ⟨dst, f⟩ := o
      obtain ⟨nl, -, h⟩ := bind_eq_ok.mp h
      obtain ⟨hacts, hlinks⟩ := ih h
      refine ⟨Acts.trans ?_ hacts, hlinks⟩
      exact modifyNodelink_acts (fun _ => ⟨rfl, rfl⟩) fun _ => ⟨rfl, rfl⟩

theorem processC2cReadLink_acts
    {p : Ptr} {data₁ data₂ : List UInt8} {env : WriteEnv}
    (hd : Distinct CCLink.ptr n.cclinks)
    (hen : NodeEvent.enabled n (.c2cRead p s data₁ data₂ env))
    (h : n.processC2cReadLink p s data₁ data₂ env = .ok m) :
    Acts n (.c2cRead p s data₁ data₂ env) n m := by
  obtain ⟨l, hl, h⟩ := bind_eq_ok.mp h
  obtain ⟨k, hk, h⟩ := bind_eq_ok.mp h
  obtain ⟨hp, hmem, -⟩ := deref_eq_ok hl
  cases hp
  simp only [NodeEvent.enabled, List.any_eq_true, decide_eq_true_eq] at hen
  obtain ⟨l', hl', hptr, hst⟩ := hen
  obtain rfl := hd.eq hl' hmem hptr
  obtain ⟨hacts, hlinks⟩ := @pushRelayed_acts n _ _ (.c2cRead l'.ptr s data₁ data₂ env) _ hk
  have hmemk : l' ∈ k.cclinks := by rwa [hlinks]
  refine hacts.trans ?_
  split at h
  · exact deleteFound_acts hmemk (.inl hst) rfl h
  · rename_i cc hcc
    cases h
    exact (Act.relay l' cc hmemk hst (unseen_core.processC2cRead hcc)
      (fun _ hst' hidle => processC2cRead_idle hst' hidle hcc)
      (.read s data₁ data₂ env rfl hcc)).acts

theorem processC2cWriteLink_acts
    {p : Ptr} {env : WriteEnv}
    (hd : Distinct CCLink.ptr n.cclinks)
    (hen : NodeEvent.enabled n (.c2cWrite p s env))
    (h : n.processC2cWriteLink p s env = .ok m) :
    Acts n (.c2cWrite p s env) n m := by
  obtain ⟨l, hl, h⟩ := bind_eq_ok.mp h
  obtain ⟨k, hk, h⟩ := bind_eq_ok.mp h
  obtain ⟨hp, hmem, -⟩ := deref_eq_ok hl
  cases hp
  simp only [NodeEvent.enabled, List.any_eq_true, decide_eq_true_eq] at hen
  obtain ⟨l', hl', hptr, hst⟩ := hen
  obtain rfl := hd.eq hl' hmem hptr
  obtain ⟨hacts, hlinks⟩ := @pushRelayed_acts n _ _ (.c2cWrite l'.ptr s env) _ hk
  have hmemk : l' ∈ k.cclinks := by rwa [hlinks]
  refine hacts.trans ?_
  split_ifs at h with hkill
  · exact deleteFound_acts hmemk (.inl hst) rfl h
  · cases h
    refine (Act.relay l' (processC2cWrite s env (l'.fired s)).cc hmemk hst ?_ ?_ ?_).acts
    · rw [unseen_core.processC2cWrite, unseen_core.fired]
    · intro d _ hidle
      refine processC2cWrite_idle ?_
      rwa [relay_fired]
    · exact .write s env rfl (Bool.eq_false_iff.mpr hkill) rfl

end Relaying

/-! ## Timeouts, logins and connections to other nodes -/

section Timeouts

variable {n₀ n m : Node} {e : NodeEvent} {p : Ptr}

theorem timeoutC2c_acts
    (h : n.timeoutC2c p = .ok m) :
    Acts n (.timeoutC2c p) n m := by
  obtain ⟨l, hl, hres⟩ := bind_eq_ok.mp h
  obtain ⟨hp, hmem, -⟩ := deref_eq_ok hl
  cases hp
  split_ifs at hres with hexp
  · have hdel : NodeEvent.deletesLink n l (.timeoutC2c l.ptr) := by
      simp [NodeEvent.deletesLink, hexp]
    exact deleteFound_acts hmem (.inr ⟨hmem, hdel⟩) rfl hres
  · cases hres
    exact .refl

theorem timeoutC2n_acts
    (h : n.timeoutC2n p = .ok m) :
    Acts n (.timeoutC2n p) n m := by
  obtain ⟨c, hc, hres⟩ := bind_eq_ok.mp h
  obtain ⟨hp, hmem, hlook⟩ := deref_eq_ok hc
  cases hp
  split_ifs at hres with htick hlate hidle
  · exact clientListDelete_acts (by simp [NodeEvent.deletesClient, hlook, htick, hlate]) hres
  · cases hres
    exact .refl
  · obtain ⟨⟨k, b⟩, hpush, hres⟩ := bind_eq_ok.mp hres
    obtain ⟨-, -, -, hb, -⟩ := clientWbufPush_ok hpush
    have hacts : Acts n (.timeoutC2n c.ptr) n k := by
      rw [Node.randomMsg] at hpush
      exact pushOther_acts (by decide) (by simp) hpush
    refine hacts.trans ?_
    cases b with
    | true =>
        cases hres
        exact (Act.tickClient c.ptr k.now true).acts
    | false =>
        refine clientListDelete_acts ?_ hres
        simp [NodeEvent.deletesClient, hlook, htick, hidle, ← hb]
  · cases hres
    exact .refl

theorem timeoutN2n_acts
    (h : n.timeoutN2n p = .ok m) :
    Acts n (.timeoutN2n p) n m := by
  obtain ⟨l, hl, hres⟩ := bind_eq_ok.mp h
  obtain ⟨hp, hmem, hlook⟩ := deref_eq_ok hl
  cases hp
  split_ifs at hres with htick hlate hidle
  · exact nodelinkListDelete_acts (by simp [NodeEvent.deletesNodelink, hlook, htick, hlate]) hres
  · cases hres
    exact .refl
  · obtain ⟨⟨k, b⟩, hpush, hres⟩ := bind_eq_ok.mp hres
    obtain ⟨-, -, -, hb, -⟩ := nodelinkWbufPush_ok hpush
    refine (nodelinkWbufPush_acts hpush).trans ?_
    cases b with
    | true =>
        cases hres
        exact modifyNodelink_acts (fun _ => ⟨rfl, rfl⟩) fun _ => ⟨rfl, rfl⟩
    | false =>
        refine nodelinkListDelete_acts ?_ hres
        simp [NodeEvent.deletesNodelink, hlook, htick, hidle, ← hb]
  · cases hres
    exact .refl

theorem processC2nConnected_acts
    {cert : Option Id}
    (hd : Distinct Client.ptr n.clients)
    (hen : NodeEvent.enabled n (.c2nConnected p cert))
    (h : n.processC2nConnected p cert = .ok m) :
    Acts n (.c2nConnected p cert) n m := by
  obtain ⟨c, hc, hres⟩ := bind_eq_ok.mp h
  obtain ⟨hp, hmem, -⟩ := deref_eq_ok hc
  cases hp
  simp only [NodeEvent.enabled, List.any_eq_true, decide_eq_true_eq] at hen
  obtain ⟨c', hc', hptr, hst⟩ := hen
  obtain rfl := hd.eq hc' hmem hptr
  -- a client without an acceptable certificate leaves in this call
  have hleave : (cert = none ∨ cert = some (.ofByte 0)) →
      ∀ d ∈ n.clients, d.ptr = c'.ptr → d.LeavesBy (.connected d.ptr cert) := by
    intro hcert d hd' hdp
    obtain rfl := hd.eq hd' hmem hdp
    exact .inr ⟨cert, rfl, hst, hcert⟩
  cases cert with
  | none =>
      exact clientListDeleteIn_acts (by simp [NodeEvent.deletesClient]) (hleave (.inl rfl)) hres
  | some id =>
      dsimp only at hres
      split_ifs at hres with hzero
      · refine clientListDeleteIn_acts (by simp [NodeEvent.deletesClient, hzero]) ?_ hres
        exact hleave (.inr (congrArg some hzero))
      · cases hs : n.clientTreeSearch id with
        | none =>
            simp only [hs] at hres
            cases hres
            refine (Act.login c' id hmem hst hzero hs ?_).acts
            by_cases hmiss : ∃ d ∈ n.clients, d.state = .connected ∧ d.id = id
            · right
              simp only [NodeEvent.loginMissed, List.any_eq_true, decide_eq_true_eq]
              exact ⟨hzero, hs, hmiss⟩
            · exact .inl fun d hd hdst hdid => hmiss ⟨d, hd, hdst, hdid⟩
        | some o =>
            simp only [hs] at hres
            cases hres
            exact (Act.loginMulti c' o id hmem hst hzero hs).acts

theorem nodelinkListAddnew_ok
    {s : Socket} {a : SockAddr} {q : Option Ptr}
    (h : n.nodelinkListAddnew s a = .ok (m, q)) :
    q = none ∧ m = n.asked ∨
      q = some n.next ∧ ∃ nl : NodeLink, nl.ptr = n.next ∧ nl.sck = s ∧ nl.nodeAddr = none ∧
        m = n.asked.asked.addNodelink nl := by
  rw [Node.nodelinkListAddnew] at h
  split_ifs at h
  · cases h
    exact .inr ⟨rfl, _, rfl, rfl, rfl, rfl⟩
  · cases h
    exact .inl ⟨rfl, rfl⟩

theorem nodewaitConnected_acts
    {s : Socket} {a : SockAddr}
    (h : n.nodewaitConnected s a = .ok m) :
    Acts n (.nodewait s a) n m := by
  obtain ⟨⟨k, q⟩, hk, h⟩ := bind_eq_ok.mp h
  rcases nodelinkListAddnew_ok hk with ⟨rfl, rfl⟩ | ⟨rfl, nl, hptr, rfl, hnone, rfl⟩
  · cases h
    exact acts_asked
  · obtain ⟨⟨k', b⟩, hpush, h⟩ := bind_eq_ok.mp h
    cases h
    have hadd : Acts n (.nodewait nl.sck a) n (n.asked.asked.addNodelink nl) :=
      (acts_asked.trans acts_asked).tail (.addNodelink nl a hptr rfl (fun _ h => h) hnone)
    exact hadd.trans (nodelinkWbufPush_acts hpush)

end Timeouts

/-! ## New connections -/

section Newconns

variable {n₀ n m : Node} {e : NodeEvent} {i : Nat}

theorem newconnClose_acts
    (he : e.onNewconn) (h : n.newconnClose i = .ok m) :
    Acts n₀ e n m := by
  refine (Act.close i (fun nc => nc) m he (fun _ => rfl) (.inr (.inl fun _ => rfl)) ?_).acts
  rwa [setSlot_id]

/-- A slot in which a request can still be handled. -/
def Requesting (n : Node) (i : Nat) : Prop :=
  (n.slot i).sck ≠ -1 ∧
    ((n.slot i).iconn = none ∨
      (n.slot i).type ≠ .c2c ∧ ∃ c ∈ n.clients, (n.slot i).iconn = some c.ptr)

/-- What a handler of a new connection leaves when it returns 0: the slot may have
got a type, and is closed next. -/
def Refused (n₀ : Node) (e : NodeEvent) (i : Nat) (n m : Node) : Prop :=
  ∃ k g, Acts n₀ e n k ∧ (∀ nc : NewConn, (g nc).iconn = nc.iconn) ∧
    ((k.slot i).iconn = none ∨ (∀ nc, (g nc).type = nc.type) ∨ e.asksTwice n₀) ∧ m = k.setSlot i g

theorem requesting_setSlot
    {g : NewConn → NewConn}
    (hreq : Requesting n i)
    (hg : (g (n.slot i)).sck = (n.slot i).sck ∧ (g (n.slot i)).type ≠ .c2c ∧
      (g (n.slot i)).iconn = (n.slot i).iconn) :
    Requesting (n.setSlot i g) i := by
  obtain ⟨hocc, href⟩ := hreq
  rw [Requesting, slot_setSlot_self hocc, hg.1, hg.2.2]
  refine ⟨hocc, ?_⟩
  rcases href with hnone | ⟨-, hc⟩
  · exact .inl hnone
  · exact .inr ⟨hg.2.1, hc⟩

theorem requesting_initreq
    (hocc : (n.slot i).sck ≠ -1) :
    Requesting ((n.addClient (n.newClient i)).setSlot i fun nc =>
      { nc with type := .c2n, iconn := some n.next, state := .sendingOk }) i := by
  have hocc' : ((n.addClient (n.newClient i)).slot i).sck ≠ -1 := hocc
  rw [Requesting, slot_setSlot_self hocc']
  exact ⟨hocc, .inr ⟨nofun, n.newClient i, by simp [Node.addClient, Node.setSlot], rfl⟩⟩

theorem clientListAddnew_ok
    {nc : NewConn} {c : Option Ptr}
    (h : n.clientListAddnew nc = .ok (m, c)) :
    c = none ∧ m = n.asked.asked ∨
      c = some n.next ∧ ∃ cl : Client, m = n.asked.asked.asked.addClient cl ∧
        cl = { n.newClient i with sckComm := nc.sck, addr := nc.addr } := by
  rw [Node.clientListAddnew] at h
  split_ifs at h
  · cases h
    exact .inr ⟨rfl, _, rfl, rfl⟩
  · cases h
    exact .inl ⟨rfl, rfl⟩

theorem procmsgINITREQ_acts
    {f : Frame} {r : Nat}
    (he : e.onNewconn) (hreq : Requesting n i)
    (hone : (n.slot i).iconn = none ∨ e.asksTwice n₀)
    (h : n.procmsgINITREQ i f = .ok (m, r)) :
    (r ≠ 0 → Acts n₀ e n m ∧ Requesting m i) ∧ (r = 0 → Refused n₀ e i n m) := by
  rw [Node.procmsgINITREQ] at h
  dsimp only at h
  split_ifs at h with hver
  · obtain ⟨⟨k, c⟩, hadd, h⟩ := bind_eq_ok.mp h
    rw [slot_setSlot_self hreq.1] at hadd
    rcases @clientListAddnew_ok _ _ i _ _ hadd with ⟨rfl, rfl⟩ | ⟨rfl, cl, rfl, rfl⟩
    · cases h
      refine ⟨fun h0 => absurd rfl h0, fun _ => ?_⟩
      exact ⟨n.asked.asked, fun nc => { nc with type := .c2n }, acts_asked.trans acts_asked,
        fun _ => rfl, hone.imp_right .inr, rfl⟩
    · cases h
      have hacts : Acts n₀ e n ((n.asked.asked.asked.addClient (n.newClient i)).setSlot i
          fun nc => { nc with type := .c2n, iconn := some n.next, state := .sendingOk }) :=
        (acts_asked.trans (acts_asked.trans acts_asked)).tail (.initreq i he hreq.1 hone)
      have heq : (((n.setSlot i fun nc => { nc with type := .c2n }).asked.asked.asked.addClient
          { (n.setSlot i fun nc => { nc with type := .c2n }).newClient i with
            sckComm := (n.slot i).sck, addr := (n.slot i).addr }).setSlot i
          fun nc => { nc with iconn := some n.next, state := .sendingOk }) =
          (n.asked.asked.asked.addClient (n.newClient i)).setSlot i
            fun nc => { nc with type := .c2n, iconn := some n.next, state := .sendingOk } :=
        @setSlot_setSlot (n.asked.asked.asked.addClient (n.newClient i)) i _ _
      refine ⟨fun _ => ⟨?_, ?_⟩, fun h0 => by cases h0⟩
      · exact heq ▸ hacts
      · exact heq ▸ @requesting_initreq n.asked.asked.asked i hreq.1
  · cases h
    rw [setSlot_setSlot]
    refine ⟨fun _ => ⟨?_, ?_⟩, fun h0 => by cases h0⟩
    · exact (Act.request i .c2n .sendingReject he hreq.1 hreq.2 hone (.inl ⟨rfl, rfl⟩)).acts
    · exact requesting_setSlot hreq ⟨rfl, nofun, rfl⟩

theorem procmsgNODECONNREQ_acts
    {f : Frame} {r : Nat}
    (he : e.onNewconn) (hreq : Requesting n i)
    (hone : (n.slot i).iconn = none ∨ e.asksTwice n₀)
    (h : n.procmsgNODECONNREQ i f = .ok (m, r)) :
    (r ≠ 0 → Acts n₀ e n m ∧ Requesting m i) ∧ (r = 0 → Refused n₀ e i n m) := by
  rw [Node.procmsgNODECONNREQ] at h
  rw [setSlot_setSlot, setSlot_setSlot] at h
  split_ifs at h with hver
  · cases h
    refine ⟨fun _ => ⟨?_, requesting_setSlot hreq ⟨rfl, nofun, rfl⟩⟩, fun h0 => by cases h0⟩
    exact (Act.request i .n2n .sendingOk he hreq.1 hreq.2 hone (.inr ⟨rfl, .inl rfl⟩)).acts
  · cases h
    refine ⟨fun _ => ⟨?_, requesting_setSlot hreq ⟨rfl, nofun, rfl⟩⟩, fun h0 => by cases h0⟩
    exact (Act.request i .n2n .sendingReject he hreq.1 hreq.2 hone (.inr ⟨rfl, .inr rfl⟩)).acts

theorem cclinkSetwaitanontlsshutdown_acts
    {f : Frame} {l : CCLink} {c : Client}
    (he : e.onNewconn) (hocc : (n.slot i).sck ≠ -1) (hnone : (n.slot i).iconn = none)
    (hs : n.cclinkListSearch (idAt f 2) (idAt f (2 + idSize)) = some l)
    (haw : l.awaited = some (some c.ptr)) (hc : c ∈ n.clients)
    (haddr : (n.slot i).addr.addr = c.addr.addr)
    (hbrings : e.brings n₀ i f) (hid : byteAt f 0 = Proto.CONNID) (hsame : n₀.Unmoved n i)
    (hlost : l.state ≠ .localWaitConnCle → n.mem n.tick = false → n.mem (n.tick + 1) = false →
      e.allocFails n₀)
    (h : (n.setSlot i fun nc => { nc with type := .c2c }).cclinkSetwaitanontlsshutdown l i =
      .ok m) :
    Acts n₀ e n m := by
  have hsck : ((n.setSlot i fun nc => { nc with type := .c2c }).slot i).sck = (n.slot i).sck := by
    rw [slot_setSlot_self hocc]
  have hbind : ∀ k : Node, k.newconns = n.newconns →
      ((k.setSlot i fun nc => { nc with type := .c2c }).setSlot i fun nc =>
        { nc with iconn := some l.ptr, state := .waitAnonTlsShutdown }).modifyLink l.ptr
        (fun l => l.setwaitanontlsshutdown (n.slot i).sck) = k.bindSlot i l := by
    intro k hk
    have hslot : k.slot i = n.slot i := by rw [Node.slot, hk, Node.slot]
    rw [setSlot_setSlot, Node.bindSlot, hslot]
  rw [Node.cclinkSetwaitanontlsshutdown, hsck] at h
  split_ifs at h with hst hmem hmem'
  · cases h
    rw [hbind n rfl]
    exact (Act.connid i l f c he hocc hnone hs haw hc haddr hbrings hid hsame).acts
  · cases h
    have hacts : Acts n₀ e n n.asked.asked := acts_asked.trans acts_asked
    have hsame' : n₀.Unmoved n.asked.asked i := ⟨hsame.1, hsame.2, hsame.3, hsame.4⟩
    have hlast := hacts.tail
      (.connid i l f c he hocc hnone hs haw hc haddr hbrings hid hsame')
    rw [← hbind n.asked.asked rfl] at hlast
    exact hlast
  · obtain ⟨cc, -, hp, rfl⟩ := cclinkListDelete_ok h
    simp only [Option.some.injEq] at hp
    rw [← dropLink_congr hp, setSlot_setSlot]
    push Not at hmem'
    have hfail := hlost hst (Bool.eq_false_iff.mpr hmem'.1) (Bool.eq_false_iff.mpr hmem'.2)
    have hacts : Acts n₀ e n n.asked.asked := acts_asked.trans acts_asked
    exact hacts.tail (.connidLost i l he hfail hocc hnone (cclinkListSearch_spec hs).1
      (by simp [haw]))

theorem procmsgCONNID_acts
    {f : Frame} {r : Nat}
    (he : e.onNewconn) (hocc : (n.slot i).sck ≠ -1) (hnone : (n.slot i).iconn = none)
    (hlen : f.length = newconnBufsize) (hid : byteAt f 0 = Proto.CONNID)
    (hbytes : byteAt f 0 = byteAt f 1) (hbrings : e.brings n₀ i f) (hsame : n₀.Unmoved n i)
    (hlost : n.connidFails i f → e.allocFails n₀)
    (h : n.procmsgCONNID i f = .ok (m, r)) :
    (r ≠ 0 → Acts n₀ e n m) ∧ (r = 0 → Refused n₀ e i n m) := by
  have refused : ∀ k : Node, k = (n.setSlot i fun nc => { nc with type := .c2c }) →
      Refused n₀ e i n k :=
    fun k hk => ⟨n, fun nc => { nc with type := .c2c }, .refl, fun _ => rfl, .inl hnone, hk⟩
  have hslot : (n.setSlot i fun nc => { nc with type := .c2c }).cclinkListSearch (idAt f 2)
      (idAt f (2 + idSize)) = n.cclinkListSearch (idAt f 2) (idAt f (2 + idSize)) := rfl
  rw [Node.procmsgCONNID, hslot] at h
  cases hs : n.cclinkListSearch (idAt f 2) (idAt f (2 + idSize)) with
  | none =>
      simp only [hs] at h
      cases h
      exact ⟨fun h0 => absurd rfl h0, fun _ => refused _ rfl⟩
  | some l =>
      simp only [hs] at h
      cases haw : l.awaited with
      | none =>
          simp only [haw] at h
          cases h
          exact ⟨fun h0 => absurd rfl h0, fun _ => refused _ rfl⟩
      | some q =>
          simp only [haw] at h
          obtain ⟨c, hc, hres⟩ := bind_eq_ok.mp h
          have hderef : n.derefClient q = .ok c := hc
          obtain ⟨rfl, hmem, -⟩ := deref_eq_ok hc
          rw [slot_setSlot_self hocc] at hres
          split_ifs at hres with haddr
          · obtain ⟨k, hk, hres⟩ := bind_eq_ok.mp hres
            cases hres
            refine ⟨fun _ => ?_, fun h0 => by cases h0⟩
            refine cclinkSetwaitanontlsshutdown_acts he hocc hnone hs haw hmem haddr hbrings hid
              hsame ?_ hk
            intro hst hm hm'
            apply hlost
            have haddr' : (n.slot i).addr.addr = c.addr.addr := haddr
            simp [Node.connidFails, hlen, hid, ← hbytes, hm, hm', hs, hst, haw, hderef, haddr',
              Except.toOption]
          · cases hres
            exact ⟨fun h0 => absurd rfl h0, fun _ => refused _ rfl⟩

/-- The first message in the bytes of a new connection. -/
theorem msginfoNewconn_entry
    {buf : List UInt8} {pos : Nat}
    (hsize : msggetsize buf pos (msginfoNewconn i) ≠ 0)
    (hpos : msggetsize buf pos (msginfoNewconn i) ≤ pos) (hfit : pos ≤ newconnBufsize) :
    byteAt buf 0 = byteAt buf 1 ∧
      (msggetsize buf pos (msginfoNewconn i) = 4 ∧ byteAt buf 0 = Proto.INITREQ ∧
        (∀ arg, processmsg buf 4 arg (msginfoNewconn i) =
          handlerFn (·.procmsgINITREQ i) arg (buf.take 4)) ∨
      msggetsize buf pos (msginfoNewconn i) = 4 ∧ byteAt buf 0 = Proto.NODECONNREQ ∧
        (∀ arg, processmsg buf 4 arg (msginfoNewconn i) =
          handlerFn (·.procmsgNODECONNREQ i) arg (buf.take 4)) ∨
      msggetsize buf pos (msginfoNewconn i) = newconnBufsize ∧ byteAt buf 0 = Proto.CONNID ∧
        (∀ arg, processmsg buf newconnBufsize arg (msginfoNewconn i) =
          handlerFn (·.procmsgCONNID i) arg (buf.take newconnBufsize))) := by
  have hscan : ¬pos < 2 ∧ byteAt buf 0 = byteAt buf 1 ∧
      msggetsize buf pos (msginfoNewconn i) = msggetsizeScan buf pos (msginfoNewconn i) := by
    rw [msggetsize] at hsize hpos ⊢
    split_ifs at hsize hpos ⊢ with hshort hbytes
    · rw [uintMax] at hpos
      rw [newconnBufsize] at hfit
      omega
    · exact absurd rfl hsize
    · exact ⟨hshort, not_not.mp hbytes, rfl⟩
  obtain ⟨-, hbytes, heq⟩ := hscan
  rw [heq] at hsize
  refine ⟨hbytes, ?_⟩
  have hproc : ∀ size arg, processmsg buf size arg (msginfoNewconn i) =
      processmsgScan buf size arg (msginfoNewconn i) :=
    fun size arg => if_neg (not_not.mpr hbytes)
  simp only [heq, hproc]
  by_cases h₁ : byteAt buf 0 = Proto.INITREQ
  · exact .inl ⟨by simp [msggetsizeScan, msginfoNewconn, fixedMsg, h₁, Proto.INITREQ], h₁,
      fun arg => by simp [processmsgScan, msginfoNewconn, fixedMsg, h₁, Proto.INITREQ]⟩
  by_cases h₂ : byteAt buf 0 = Proto.CONNID
  · exact .inr (.inr ⟨by
      simp [msggetsizeScan, msginfoNewconn, fixedMsg, h₂, Proto.INITREQ, Proto.CONNID,
        newconnBufsize], h₂,
      fun arg => by
        simp [processmsgScan, msginfoNewconn, fixedMsg, h₂, Proto.INITREQ, Proto.CONNID]⟩)
  by_cases h₃ : byteAt buf 0 = Proto.NODECONNREQ
  · exact .inr (.inl ⟨by
      simp [msggetsizeScan, msginfoNewconn, fixedMsg, h₃, Proto.INITREQ, Proto.CONNID,
        Proto.NODECONNREQ], h₃,
      fun arg => by
        simp [processmsgScan, msginfoNewconn, fixedMsg, h₃, Proto.INITREQ, Proto.CONNID,
          Proto.NODECONNREQ]⟩)
  · refine absurd ?_ hsize
    simp only [Proto.INITREQ, Proto.CONNID, Proto.NODECONNREQ] at h₁ h₂ h₃
    simp [msggetsizeScan, msginfoNewconn, fixedMsg, h₁, h₂, h₃, Proto.INITREQ, Proto.CONNID,
      Proto.NODECONNREQ]

theorem Refused.refl : Refused n₀ e i n n :=
  ⟨n, fun nc => nc, .refl, fun _ => rfl, .inr (.inl fun _ => rfl), setSlot_id.symm⟩

theorem Refused.after {k : Node} (h : Acts n₀ e n k) (hr : Refused n₀ e i k m) :
    Refused n₀ e i n m := by
  obtain ⟨k', g, hacts, hg, hty, rfl⟩ := hr
  exact ⟨k', g, h.trans hacts, hg, hty, rfl⟩

/-- What is known after the messages of a new connection. -/
def StreamActs (n₀ : Node) (e : NodeEvent) (i : Nat) (n : Node)
    (r : StreamResult (Except Fault Node)) : Prop :=
  ∀ m, r.arg = .ok m → (r.ret ≠ 0 → Acts n₀ e n m) ∧ (r.ret = 0 → Refused n₀ e i n m)

theorem StreamActs.stopped
    {r : StreamResult (Except Fault Node)}
    (h : r.arg = .ok n) :
    StreamActs n₀ e i n r := by
  intro m hm
  cases h.symm.trans hm
  exact ⟨fun _ => .refl, fun _ => .refl⟩

/-- A message whose handler satisfies its specification, and what follows it. -/
theorem StreamActs.handled
    {hd : Node → Frame → Except Fault (Node × Nat)} {f : Frame}
    {r : StreamResult (Except Fault Node)}
    {next : Except Fault Node → StreamResult (Except Fault Node)}
    (hspec : ∀ m r, hd n f = .ok (m, r) →
      (r ≠ 0 → Acts n₀ e n m ∧ StreamActs n₀ e i m (next (.ok m))) ∧
        (r = 0 → Refused n₀ e i n m))
    (hr : (handlerFn hd (.ok n) f).2 = 0 ∧ r.arg = (handlerFn hd (.ok n) f).1 ∧ r.ret = 0 ∨
      (handlerFn hd (.ok n) f).2 ≠ 0 ∧ r.arg = (next (handlerFn hd (.ok n) f).1).arg ∧
        r.ret = (next (handlerFn hd (.ok n) f).1).ret) :
    StreamActs n₀ e i n r := by
  intro m hm
  rcases hr with ⟨hret, harg, h0⟩ | ⟨hret, harg, h0⟩
  · rw [harg] at hm
    exact ⟨fun hne => absurd h0 hne, fun _ => (hspec m _ (handlerFn_ok hm)).2 hret⟩
  · cases hres : hd n f with
    | error er => simp [handlerFn, hres] at hret
    | ok q =>
        obtain ⟨k, b⟩ := q
        have hok : handlerFn hd (.ok n) f = (.ok k, b) := by simp [handlerFn, hres]
        rw [hok] at hret harg h0
        obtain ⟨hacts, hnext⟩ := (hspec k b hres).1 hret
        obtain ⟨hgo, hstop⟩ := hnext m (harg ▸ hm)
        rw [h0]
        exact ⟨fun hne => hacts.trans (hgo hne), fun hz => (hstop hz).after hacts⟩

/-- The bytes begin with a request. -/
def RequestAt (buf : List UInt8) (pos : Nat) : Prop :=
  4 ≤ pos ∧ byteAt buf 0 = byteAt buf 1 ∧
    (byteAt buf 0 = Proto.INITREQ ∨ byteAt buf 0 = Proto.NODECONNREQ)

theorem byteAt_moveDown
    {buf : List UInt8} {src k j : Nat}
    (hj : j < k) (h : src + k ≤ buf.length) :
    byteAt (Area.moveDown buf src k) j = byteAt (buf.drop src) j := by
  have hlen : j < ((buf.drop src).take k).length := by
    simp only [List.length_take, List.length_drop]
    omega
  simp only [byteAt, Area.moveDown_eq h, List.getD_eq_getElem?_getD]
  rw [List.getElem?_append_left hlen, List.getElem?_take, if_pos hj]

theorem isRequest_iff {buf : List UInt8} :
    NodeEvent.isRequest buf ↔ RequestAt buf buf.length := by
  simp only [NodeEvent.isRequest, decide_eq_true_eq, RequestAt]

/-- A request right behind the first four bytes. -/
theorem requestAt_behind
    {buf : List UInt8}
    (hlen : 4 ≤ buf.length)
    (h : RequestAt (Area.moveDown buf 4 (buf.length - 4)) (buf.length - 4)) :
    NodeEvent.isRequest (buf.drop 4) := by
  obtain ⟨hlen', hbytes, hkind⟩ := h
  rw [byteAt_moveDown (by omega) (by omega), byteAt_moveDown (by omega) (by omega)] at hbytes
  rw [byteAt_moveDown (by omega) (by omega)] at hkind
  rw [isRequest_iff, RequestAt, List.length_drop]
  exact ⟨hlen', hbytes, hkind⟩

theorem asksTwice_behind
    {buf : List UInt8}
    (hbrings : e.brings n₀ i buf) (hfirst : RequestAt buf buf.length)
    (hnext : RequestAt (Area.moveDown buf 4 (buf.length - 4)) (buf.length - 4)) :
    e.asksTwice n₀ := by
  have hrequest := isRequest_iff.mpr hfirst
  have hrequest' := requestAt_behind hfirst.1 hnext
  rw [NodeEvent.brings] at hbrings
  simp [NodeEvent.asksTwice, hbrings, hrequest, hrequest']

/-- The messages of a new connection behind the first one, which leaves too little
room for a `CONNID`. -/
theorem requestStream_acts
    {fuel pos : Nat} {buf : List UInt8}
    (he : e.onNewconn) (hreq : Requesting n i) (hpos : pos ≤ newconnBufsize - 4)
    (htwice : RequestAt buf pos → e.asksTwice n₀) :
    StreamActs n₀ e i n (processdatastream (msginfoNewconn i) fuel buf pos (.ok n)) := by
  induction fuel generalizing buf pos n with
  | zero => exact .stopped rfl
  | succ fuel ih =>
      rcases processdatastream_pass (msginfoNewconn i) fuel buf pos (.ok n) with
        harg | ⟨hsize, hle, hr⟩
      · exact .stopped harg
      · obtain ⟨hbytes, ⟨hfour, hid, hcall⟩ | ⟨hfour, hid, hcall⟩ | ⟨hbig, -⟩⟩ :=
          msginfoNewconn_entry hsize hle (by omega)
        · rw [hfour] at hle
          have hagain := htwice ⟨hle, hbytes, .inl hid⟩
          rw [hfour, hcall] at hr
          refine StreamActs.handled (fun m r hres => ?_) hr
          obtain ⟨hgo, hstop⟩ := procmsgINITREQ_acts he hreq (.inr hagain) hres
          exact ⟨fun hne => ⟨(hgo hne).1, ih (hgo hne).2 (by omega) fun _ => hagain⟩, hstop⟩
        · rw [hfour] at hle
          have hagain := htwice ⟨hle, hbytes, .inr hid⟩
          rw [hfour, hcall] at hr
          refine StreamActs.handled (fun m r hres => ?_) hr
          obtain ⟨hgo, hstop⟩ := procmsgNODECONNREQ_acts he hreq (.inr hagain) hres
          exact ⟨fun hne => ⟨(hgo hne).1, ih (hgo hne).2 (by omega) fun _ => hagain⟩, hstop⟩
        · rw [newconnBufsize] at hbig hpos
          omega

theorem processdatastream_empty
    {fuel : Nat} {buf : List UInt8} {arg : Except Fault Node} :
    (processdatastream (msginfoNewconn i) fuel buf 0 arg).arg = arg := by
  cases fuel with
  | zero => rfl
  | succ fuel => simp [processdatastream]

/-- All messages of a new connection: a `CONNID` fills the buffer and is the only one. -/
theorem firstStream_acts
    {fuel : Nat} {buf : List UInt8}
    (he : e.onNewconn) (hocc : (n.slot i).sck ≠ -1) (hnone : (n.slot i).iconn = none)
    (hfit : buf.length ≤ newconnBufsize)
    (hbrings : e.brings n₀ i buf) (hsame : n₀.Unmoved n i)
    (hlost : n.connidFails i buf → e.allocFails n₀) :
    StreamActs n₀ e i n (processdatastream (msginfoNewconn i) fuel buf buf.length (.ok n)) := by
  have hreq : Requesting n i := ⟨hocc, .inl hnone⟩
  cases fuel with
  | zero => exact .stopped rfl
  | succ fuel =>
      rcases processdatastream_pass (msginfoNewconn i) fuel buf buf.length (.ok n) with
        harg | ⟨hsize, hle, hr⟩
      · exact .stopped harg
      · obtain ⟨hbytes, ⟨hfour, hid, hcall⟩ | ⟨hfour, hid, hcall⟩ | ⟨hbig, hid, hcall⟩⟩ :=
          msginfoNewconn_entry hsize hle hfit
        · rw [hfour] at hle
          have htwice := @asksTwice_behind n₀ e i buf hbrings ⟨hle, hbytes, .inl hid⟩
          rw [hfour, hcall] at hr
          refine StreamActs.handled (fun m r hres => ?_) hr
          obtain ⟨hgo, hstop⟩ := procmsgINITREQ_acts he hreq (.inl hnone) hres
          exact ⟨fun hne => ⟨(hgo hne).1, requestStream_acts he (hgo hne).2 (by omega) htwice⟩,
            hstop⟩
        · rw [hfour] at hle
          have htwice := @asksTwice_behind n₀ e i buf hbrings ⟨hle, hbytes, .inr hid⟩
          rw [hfour, hcall] at hr
          refine StreamActs.handled (fun m r hres => ?_) hr
          obtain ⟨hgo, hstop⟩ := procmsgNODECONNREQ_acts he hreq (.inl hnone) hres
          exact ⟨fun hne => ⟨(hgo hne).1, requestStream_acts he (hgo hne).2 (by omega) htwice⟩,
            hstop⟩
        · have hlen : buf.length = newconnBufsize := by omega
          rw [hbig, hcall, ← hlen, List.take_length, Nat.sub_self] at hr
          refine StreamActs.handled (fun m r hres => ?_) hr
          obtain ⟨hgo, hstop⟩ :=
            procmsgCONNID_acts he hocc hnone hlen hid hbytes hbrings hsame hlost hres
          exact ⟨fun hne => ⟨hgo hne, .stopped processdatastream_empty⟩, hstop⟩

theorem newconnReceived_acts
    {buf : List UInt8}
    (he : e.onNewconn) (hocc : (n.slot i).sck ≠ -1) (hnone : (n.slot i).iconn = none)
    (hfit : buf.length ≤ newconnBufsize)
    (hbrings : e.brings n₀ i buf) (hsame : n₀.Unmoved n i)
    (hlost : n.connidFails i buf → e.allocFails n₀)
    (h : n.newconnReceived i buf = .ok m) :
    Acts n₀ e n m := by
  obtain ⟨k, hk, h⟩ := bind_eq_ok.mp h
  obtain ⟨hgo, hstop⟩ := firstStream_acts he hocc hnone hfit hbrings hsame hlost k hk
  split_ifs at h with hret
  · obtain ⟨k', g, hacts, hg, hty, rfl⟩ := hstop hret
    dsimp only at h
    rw [setSlot_setSlot] at h
    have hclose : Act n₀ e k' m := by
      refine .close i _ m he ?_ ?_ h
      · exact hg
      · exact hty
    exact hacts.tail hclose
  · cases h
    exact (hgo hret).tail (.fillSlot i _ he)

theorem newconnRequest_acts
    {io : NewconnResults}
    (he : e.onNewconn) (hocc : (n.slot i).sck ≠ -1) (hnone : (n.slot i).iconn = none)
    (hbrings : io.readRetry = false → e.brings n₀ i
      ((n.slot i).buf ++ io.read.take (newconnBufsize - (n.slot i).buf.length)))
    (hsame : n₀.Unmoved n i)
    (hlost : io.readRetry = false →
      n.connidFails i ((n.slot i).buf ++ io.read.take (newconnBufsize - (n.slot i).buf.length)) →
      e.allocFails n₀)
    (h : n.newconnRequest i io = .ok m) :
    Acts n₀ e n m := by
  rw [Node.newconnRequest] at h
  dsimp only at h
  split_ifs at h with hretry hempty
  · cases h
    exact .refl
  · exact newconnClose_acts he h
  · have hread : io.readRetry = false := Bool.eq_false_iff.mpr hretry
    refine newconnReceived_acts he hocc hnone ?_ (hbrings hread) hsame (hlost hread) h
    have hroom : newconnBufsize - (n.slot i).buf.length ≠ 0 := by
      intro hz
      exact hempty (by rw [hz, List.take_zero])
    simp only [List.length_append, List.length_take]
    omega

theorem cclinkConnected_acts
    {l : CCLink}
    (hl : l ∈ n.cclinks)
    (h : n.cclinkConnected l = .ok m) :
    ∃ k, Acts n₀ e n k ∧ k.cclinks = n.cclinks ∧ k.newconns = n.newconns ∧
      m = k.modifyLink l.ptr CCLink.activate := by
  obtain ⟨⟨k, b⟩, hk, h⟩ := bind_eq_ok.mp h
  have hpush : Acts n₀ e n k ∧ k.cclinks = n.cclinks ∧ k.newconns = n.newconns := by
    rw [Node.cclinkSendcleconnected] at hk
    split at hk
    · rename_i hst
      refine ⟨clientWbufPush_acts (fun _ _ => ⟨l, hl, rfl, rfl, .inr hst⟩)
        (fun hlong => absurd hlong (not_long_id _ _)) hk, ?_⟩
      obtain ⟨c, -, -, -, rfl⟩ := clientWbufPush_ok hk
      split_ifs <;> exact ⟨rfl, rfl⟩
    · refine ⟨nodelinkWbufPush_acts hk, ?_⟩
      obtain ⟨c, -, -, -, rfl⟩ := nodelinkWbufPush_ok hk
      split_ifs <;> exact ⟨rfl, rfl⟩
    · cases hk
      exact ⟨.refl, rfl, rfl⟩
  cases b with
  | false => cases h
  | true =>
      cases h
      exact ⟨k, hpush.1, hpush.2.1, hpush.2.2, rfl⟩

theorem newconnShutdown_acts
    {io : NewconnResults}
    (hst : (n.slot i).state = .waitAnonTlsShutdown)
    (h : n.newconnShutdown i io.shutdown = .ok m) :
    Acts n (.newconnRead i io) n m := by
  cases hio : io.shutdown with
  | retry =>
      rw [hio] at h
      cases h
      exact .refl
  | fail =>
      rw [hio] at h
      exact newconnClose_acts rfl h
  | done =>
      rw [hio, Node.newconnShutdown] at h
      dsimp only at h
      split_ifs at h with hc2n hc2c
      · obtain ⟨c, hc, hres⟩ := bind_eq_ok.mp h
        cases hres
        obtain ⟨hp, hmem, -⟩ := deref_eq_ok hc
        exact (Act.clientReady i c rfl hp hc2n.2 hmem).acts
      · obtain ⟨l, hl, hres⟩ := bind_eq_ok.mp h
        obtain ⟨k, hk, hres⟩ := bind_eq_ok.mp hres
        cases hres
        obtain ⟨hp, hmem, -⟩ := deref_eq_ok hl
        obtain ⟨k', hacts, hlinks, hslots, rfl⟩ :=
          @cclinkConnected_acts n _ _ (.newconnRead i io) _ hmem hk
        have hslot : k'.slot i = n.slot i := by rw [Node.slot, hslots, Node.slot]
        refine hacts.tail (.linkReady i l rfl ?_ ?_ ?_ ?_ ⟨io, rfl, hio⟩ hlinks hslots)
        · rw [hslot, hp]
        · rw [hslot, hc2c.2]
        · rwa [hlinks]
        · rwa [hslot]
      · cases h
        exact .refl

theorem processNewconnWrite_acts
    {write : SslResult}
    (he : e.onNewconn)
    (h : n.processNewconnWrite i write = .ok m) :
    Acts n₀ e n m := by
  unfold Node.processNewconnWrite at h
  dsimp only at h
  split at h
  · cases h
    exact .refl
  · exact newconnClose_acts he h
  · rename_i hst
    split_ifs at h with hn2n
    · obtain ⟨⟨k, q⟩, hadd, h⟩ := bind_eq_ok.mp h
      rcases nodelinkListAddnew_ok hadd with ⟨rfl, rfl⟩ | ⟨rfl, nl, hptr, hsck, hnone, rfl⟩
      · obtain ⟨-, -, h⟩ := bind_eq_ok.mp h
        cases h
      · cases h
        have hacts : Acts n₀ e n n.asked.asked := acts_asked.trans acts_asked
        exact hacts.tail (.nodeReady i nl he hn2n hptr hsck hnone)
    · cases h
      exact (Act.answered i he hst).acts
  · cases h
    exact .refl
  · exact newconnClose_acts he h
  · exact newconnClose_acts he h
  · cases h
    exact .refl

/-- The slot waits for the handshake or for the request. -/
def NcState.early : NcState → Bool
  | .waitAnonTlsAccept => true
  | .waitRequest => true
  | _ => false

theorem newconnSwitch_acts
    {io : NewconnResults}
    (hocc : (n.slot i).sck ≠ -1) (hnone : (n.slot i).state.early → (n.slot i).iconn = none)
    (h : n.newconnSwitch i io = .ok m) :
    Acts n (.newconnRead i io) n m := by
  unfold Node.newconnSwitch at h
  cases hst : (n.slot i).state with
  | waitAnonTlsAccept =>
      simp only [hst] at h
      cases hacc : io.accept with
      | retry =>
          simp only [hacc] at h
          cases h
          exact .refl
      | fail =>
          simp only [hacc] at h
          exact newconnClose_acts rfl h
      | done =>
          simp only [hacc] at h
          have hslot := @slot_setSlot_self n i (fun nc => { nc with state := .waitRequest }) hocc
          have hstep : Act n (.newconnRead i io) n _ := Act.greeted i rfl hst
          refine hstep.acts.trans (newconnRequest_acts rfl ?_ ?_ ?_ ?_ ?_ h)
          · rwa [hslot]
          · rw [hslot]
            exact hnone (by rw [hst]; rfl)
          · intro hretry
            rw [hslot]
            simp [NodeEvent.brings, NodeEvent.brought, hst, hacc, hretry]
          · exact ⟨rfl, rfl, by rw [hslot], by rw [hslot]⟩
          · intro hretry hfails
            rw [hslot] at hfails
            have hsame : (n.setSlot i fun nc => { nc with state := .waitRequest }).connidFails i =
                n.connidFails i := by
              funext f
              simp only [Node.connidFails, hslot]
              rfl
            rw [hsame] at hfails
            simp [NodeEvent.allocFails, hst, hacc, hretry, hfails]
  | waitRequest =>
      simp only [hst] at h
      refine newconnRequest_acts rfl hocc (hnone (by rw [hst]; rfl)) ?_ ⟨rfl, rfl, rfl, rfl⟩ ?_ h
      · intro hretry
        simp [NodeEvent.brings, NodeEvent.brought, hst, hretry]
      · intro hretry hfails
        simp [NodeEvent.allocFails, hst, hretry, hfails]
  | waitAnonTlsShutdown =>
      simp only [hst] at h
      exact newconnShutdown_acts hst h
  | sendingOk =>
      simp only [hst] at h
      cases h
      exact .refl
  | sendingReject =>
      simp only [hst] at h
      cases h
      exact .refl

theorem processNewconnRead_acts
    {io : NewconnResults}
    (hocc : (n.slot i).sck ≠ -1) (hnone : (n.slot i).state.early → (n.slot i).iconn = none)
    (h : n.processNewconnRead i io = .ok m) :
    Acts n (.newconnRead i io) n m := by
  obtain ⟨k, hk, h⟩ := bind_eq_ok.mp h
  refine (newconnSwitch_acts hocc hnone hk).trans ?_
  split_ifs at h
  · exact processNewconnWrite_acts rfl h
  · cases h
    exact .refl

theorem newconnScan_free
    {ncs : List NewConn} {pos min minPos j q : Nat}
    (h : Node.newconnScan ncs pos min minPos = (some j, q)) :
    pos ≤ j ∧ ∃ nc, ncs[j - pos]? = some nc ∧ nc.sck = -1 := by
  induction ncs generalizing pos min minPos with
  | nil => cases h
  | cons nc ncs ih =>
      rw [Node.newconnScan] at h
      split_ifs at h with hfree hold
      · simp only [Prod.mk.injEq, Option.some.injEq] at h
        obtain ⟨rfl, -⟩ := h
        exact ⟨Nat.le_refl _, nc, by simp, hfree⟩
      · obtain ⟨hle, nc', hget, hsck⟩ := ih h
        refine ⟨by omega, nc', ?_, hsck⟩
        rw [show j - pos = (j - (pos + 1)) + 1 by omega]
        simpa using hget
      · obtain ⟨hle, nc', hget, hsck⟩ := ih h
        refine ⟨by omega, nc', ?_, hsck⟩
        rw [show j - pos = (j - (pos + 1)) + 1 by omega]
        simpa using hget

theorem newconnClose_free
    (h : n.newconnClose i = .ok m) :
    (m.slot i).sck = -1 := by
  obtain ⟨k, -, rfl⟩ := newconnClose_ok h
  exact slot_setSlot_free rfl

/-- A client that stays keeps its descriptor. -/
theorem clientTreeForget_frame
    {c : Client} :
    (∀ d ∈ (n.clientTreeForget c).clients, ∃ d₀ ∈ n.clients, d₀.sckComm = d.sckComm) ∧
      (n.clientTreeForget c).nodelinks = n.nodelinks := by
  have same : ∀ d ∈ n.clients, ∃ d₀ ∈ n.clients, d₀.sckComm = d.sckComm :=
    fun d hd => ⟨d, hd, rfl⟩
  rw [Node.clientTreeForget]
  cases n.clientTreeSearch c.id with
  | none => exact ⟨same, rfl⟩
  | some s =>
      dsimp only
      split_ifs
      · cases n.nextMulti c.id with
        | nil => exact ⟨same, rfl⟩
        | cons q qs =>
            refine ⟨fun d hd => ?_, rfl⟩
            obtain ⟨d₀, hd₀, rfl⟩ := mem_modify.mp hd
            refine ⟨d₀, hd₀, ?_⟩
            split_ifs <;> rfl
      · exact ⟨same, rfl⟩

theorem clientTreeForget_newconns
    {c : Client} :
    (n.clientTreeForget c).newconns = n.newconns ∧
      (n.clientTreeForget c).newconnsPos = n.newconnsPos ∧
      (n.clientTreeForget c).now = n.now := by
  rw [Node.clientTreeForget]
  cases n.clientTreeSearch c.id with
  | none => exact ⟨rfl, rfl, rfl⟩
  | some s =>
      dsimp only
      split_ifs
      · cases n.nextMulti c.id with
        | nil => exact ⟨rfl, rfl, rfl⟩
        | cons q qs => exact ⟨rfl, rfl, rfl⟩
      · exact ⟨rfl, rfl, rfl⟩

/-- The deletions of `newconn_close` leave the slots alone. -/
theorem newconnClose_newconns (h : n.newconnClose i = .ok m) :
    m.newconns = (n.setSlot i fun nc =>
        { nc with sck := -1, buf := [], iconn := none, type := .unknown }).newconns ∧
      m.newconnsPos = n.newconnsPos ∧ m.now = n.now := by
  obtain ⟨k, hk, rfl⟩ := newconnClose_ok h
  have hsame : k.newconns = n.newconns ∧ k.newconnsPos = n.newconnsPos ∧ k.now = n.now := by
    rcases hk with ⟨-, rfl⟩ | ⟨c, -, -, -, rfl⟩ | ⟨l, -, -, -, rfl⟩
    · exact ⟨rfl, rfl, rfl⟩
    · exact clientTreeForget_newconns
    · exact ⟨rfl, rfl, rfl⟩
  rw [Node.setSlot, Node.setSlot, hsame.1]
  exact ⟨rfl, hsame.2⟩

/-- Closing a slot gives nothing a new descriptor. -/
theorem newconnClose_owns
    {s : Socket}
    (h : n.newconnClose i = .ok m) (hs : m.Owns s) :
    n.Owns s := by
  obtain ⟨k, hk, rfl⟩ := newconnClose_ok h
  have hsame : (∀ c ∈ k.clients, ∃ d ∈ n.clients, d.sckComm = c.sckComm) ∧
      k.nodelinks = n.nodelinks ∧ k.newconns = n.newconns := by
    rcases hk with ⟨-, rfl⟩ | ⟨c, hc, -, -, rfl⟩ | ⟨l, hl, -, -, rfl⟩
    · exact ⟨fun c hc => ⟨c, hc, rfl⟩, rfl, rfl⟩
    · obtain ⟨hclients, hnodes⟩ := @clientTreeForget_frame n c
      exact ⟨fun d hd => hclients d (mem_remove.mp hd).1, hnodes, clientTreeForget_newconns.1⟩
    · exact ⟨fun c hc => ⟨c, hc, rfl⟩, rfl, rfl⟩
  obtain ⟨hclients, hnodes, hslots⟩ := hsame
  rcases hs with ⟨c, hc, rfl⟩ | ⟨nl, hnl, rfl⟩ | ⟨j, hsck, hocc, hnone⟩
  · exact .inl (hclients c hc)
  · exact .inr (.inl ⟨nl, hnodes ▸ hnl, rfl⟩)
  · have hslot : k.slot j = n.slot j := by rw [Node.slot, hslots, Node.slot]
    rw [slot_setSlot] at hsck hnone
    split_ifs at hsck hnone with hji
    · exact absurd hsck.symm hocc
    · rw [hslot] at hsck hnone
      exact .inr (.inr ⟨j, hsck, hocc, hnone⟩)

/-- Clearing a free slot does neither. -/
theorem takeSlot_owns
    {s : Socket} {t pos : Nat}
    (hs : { n.setSlot i fun nc => { nc with sck := -1, buf := [], tmst := t } with
      newconnsPos := pos }.Owns s) :
    n.Owns s := by
  rcases hs with hc | hm | ⟨j, hsck, hocc, hnone⟩
  · exact .inl hc
  · exact .inr (.inl hm)
  · change ((n.setSlot i _).slot j).sck = s at hsck
    change ((n.setSlot i _).slot j).iconn = none at hnone
    rw [slot_setSlot] at hsck hnone
    split_ifs at hsck hnone with hji
    · exact absurd hsck.symm hocc
    · exact .inr (.inr ⟨j, hsck, hocc, hnone⟩)

theorem newconnFind_acts
    (he : e.onNewconn)
    (h : n.newconnFind = .ok (m, i)) :
    Acts n₀ e n m ∧ (m.slot i).sck = -1 ∧ ∀ s, m.Owns s → n.Owns s := by
  rw [Node.newconnFind] at h
  split_ifs at h with hpos
  · cases h
    exact ⟨.refl, hpos.2, fun _ hs => hs⟩
  · split at h
    · rename_i pos q hscan
      cases h
      obtain ⟨-, nc, hget, hsck⟩ := newconnScan_free hscan
      refine ⟨.refl, ?_, fun _ hs => hs⟩
      rw [Nat.sub_zero] at hget
      rw [Node.slot, List.getD_eq_getElem?_getD, hget]
      exact hsck
    · obtain ⟨k, hk, h⟩ := bind_eq_ok.mp h
      cases h
      exact ⟨newconnClose_acts he hk, newconnClose_free hk, fun _ => newconnClose_owns hk⟩

theorem processListenRead_acts
    {s : Socket} {a : SockAddr} {ssl : Bool}
    (hs : s ≠ -1)
    (h : n.processListenRead s a ssl = .ok m) :
    Acts n (.accept s a ssl) n m := by
  obtain ⟨⟨k, i⟩, hk, h⟩ := bind_eq_ok.mp h
  obtain ⟨⟨k', i'⟩, hk', hk⟩ := bind_eq_ok.mp hk
  cases hk
  obtain ⟨hacts, hfree, hold⟩ := @newconnFind_acts n _ _ (.accept s a ssl) _ rfl hk'
  have htake := hacts.tail (.takeSlot i rfl hfree)
  cases ssl with
  | false =>
      cases h
      exact htake
  | true =>
      cases h
      exact htake.tail (.openSlot i s a rfl hs (slot_setSlot_free rfl)
        fun s' hs' => hold s' (takeSlot_owns hs'))

/-- **Every call is a sequence of changes.** -/
theorem react_acts
    (hclients : Distinct Client.ptr n.clients) (hlinks : Distinct CCLink.ptr n.cclinks)
    (hnone : ∀ i, (n.slot i).state.early → (n.slot i).iconn = none)
    (hen : e.enabled n)
    (h : react n e = .ok m) :
    Acts n e n m := by
  cases e with
  | clock now =>
      cases h
      exact (Act.clock now).acts
  | accept s a ssl => exact processListenRead_acts (by simpa [NodeEvent.enabled] using hen) h
  | newconnRead i io =>
      simp only [NodeEvent.enabled, decide_eq_true_eq] at hen
      exact processNewconnRead_acts hen.2 (hnone i) h
  | timeoutNewconn i =>
      rw [react, Node.timeoutNewconn] at h
      split_ifs at h
      · exact newconnClose_acts rfl h
      · cases h
        exact .refl
  | timeoutC2c l => exact timeoutC2c_acts h
  | timeoutC2n ci => exact timeoutC2n_acts h
  | timeoutN2n nl => exact timeoutN2n_acts h
  | c2nFrame ci f => exact processC2nFrame_acts hclients hen h
  | c2nConnected ci cert => exact processC2nConnected_acts hclients hen h
  | c2nClosed ci => exact clientListDelete_acts (by simp [NodeEvent.deletesClient]) h
  | n2nFrame nl f => exact processN2nFrame_acts hen h
  | n2nClosed nl => exact nodelinkListDelete_acts (by simp [NodeEvent.deletesNodelink]) h
  | c2cRead l s d₁ d₂ env => exact processC2cReadLink_acts hlinks hen h
  | c2cWrite l s env => exact processC2cWriteLink_acts hlinks hen h
  | nodewait s a => exact nodewaitConnected_acts h

end Newconns

end PicaPica
