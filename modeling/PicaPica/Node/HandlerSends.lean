import PicaPica.Node.Sends

/-!
# What the handlers send

Every call keeps to `Sends`, `Makes` and `Decides` (`nodeStep_adds`).  So every message that
waits in a write buffer of a node was put there by a call for an event that makes the node send
it (`queued_by_cause`).
-/

namespace PicaPica

open Table Machine

/-! ## Messages of clients -/

section ClientMessages

variable {n m : Node} {ci : Ptr} {c : Client} {f : Frame} {r : Nat}

/-- The search for a callee who is not on this node: nothing is queued when there is no other
node to ask. -/
theorem connreqSearch_adds
    {k : Node} {i : Id} {b : Bool}
    (hk : byteAt f 0 = Proto.CONNREQOUTG) (hprim : n.Primary ci i)
    (hs : n.clientTreeSearch (idAt f 2) = none)
    (h : n.connreqSearch (idAt f 2) = .ok (k, b)) :
    Adds n (.c2nFrame ci f) n k ∧ (b = false → k = n ∧
      n.cclinkListFindwaitsearch (idAt f 2) = none ∧ n.nodelinks = []) := by
  rw [Node.connreqSearch] at h
  split_ifs at h with hwait
  · cases h
    exact ⟨.refl, fun hb => Bool.noConfusion hb⟩
  · have hnone := Option.not_isSome_iff_eq_none.mp hwait
    rw [Node.nodelinkSendSearchreq] at h
    split_ifs at h with hempty
    · cases h
      exact ⟨.refl, fun _ => ⟨rfl, hnone, hempty⟩⟩
    · obtain ⟨k', hpush, h⟩ := bind_eq_ok.mp h
      cases h
      refine ⟨pushToNodes_adds (fun nl hnl => ?_) hpush, fun hb => Bool.noConfusion hb⟩
      exact .search ci nl.ptr f i hk hprim hs hnone ⟨nl, hnl, rfl⟩

theorem connreqRemote_adds
    (hk : byteAt f 0 = Proto.CONNREQOUTG) (hprim : n.Primary c.ptr c.id)
    (hs : n.clientTreeSearch (idAt f 2) = none)
    (h : n.connreqRemote c (idAt f 2) = .ok (m, r)) :
    Adds n (.c2nFrame c.ptr f) n m := by
  obtain ⟨⟨k, searching⟩, hsearch, h⟩ := bind_eq_ok.mp h
  obtain ⟨hadds, hnobody⟩ := connreqSearch_adds hk hprim hs hsearch
  cases searching with
  | true =>
      obtain ⟨k', hadd, h⟩ := bind_eq_ok.mp h
      cases h
      refine hadds.trans ?_
      rw [Node.cclinkListAddn2nclr] at hadd
      split_ifs at hadd
      · cases hadd
        have hasked : Adds n (.c2nFrame c.ptr f) k k.asked.asked := .same rfl rfl rfl
        refine hasked.trans (.addLink ?_ rfl)
        exact .callerSide c.ptr f c.id _ hk hprim hs rfl rfl rfl rfl
      · cases hadd
        exact .same rfl rfl rfl
  | false =>
      obtain ⟨⟨k', b⟩, hpush, h⟩ := bind_eq_ok.mp h
      cases h
      obtain ⟨-, hnone, hempty⟩ := hnobody rfl
      refine hadds.trans (clientWbufPush_adds ?_ hpush)
      rintro p ⟨⟩
      exact .notfound c.ptr f c.id hk hprim hs hnone hempty

theorem procmsgCONNREQOUTG_adds
    (hc : n.derefClient (some ci) = .ok c) (hst : c.state = .connected)
    (hk : byteAt f 0 = Proto.CONNREQOUTG)
    (h : n.procmsgCONNREQOUTG ci f = .ok (m, r)) :
    Adds n (.c2nFrame ci f) n m := by
  replace h := bind_eq_ok.mp h
  obtain ⟨c', hc', h⟩ := h
  cases hc.symm.trans hc'
  obtain ⟨hp, hmem, -⟩ := deref_eq_ok hc
  cases hp
  have hprim : n.Primary c.ptr c.id := ⟨c, hmem, rfl, hst, rfl⟩
  cases hs : n.clientTreeSearch (idAt f 2) with
  | none =>
      simp only [hs] at h
      exact connreqRemote_adds hk hprim hs h
  | some o =>
      simp only [hs] at h
      split_ifs at h with hknown
      · cases h
        exact .refl
      · obtain ⟨⟨k, b⟩, hpush, h⟩ := bind_eq_ok.mp h
        simp only [not_or, Option.not_isSome_iff_eq_none] at hknown
        have hadds : Adds n (.c2nFrame c.ptr f) n k := by
          refine clientWbufPush_adds ?_ hpush
          rintro p ⟨⟩
          exact .connreqinc c.ptr f c.id o hk hprim hs hknown.2 hknown.1
        split_ifs at h
        · cases h
          refine hadds.trans (Adds.trans ?_ (.modifyClient fun _ => rfl))
          have hasked : Adds n (.c2nFrame c.ptr f) k k.asked := .same rfl rfl rfl
          rw [Node.cclinkListAddlocal]
          split_ifs
          · refine hasked.trans (.addLink ?_ rfl)
            exact .localLink c.ptr f c.id o _ hk hprim hs hknown.2 hknown.1 rfl rfl rfl
              (clientTreeSearch_primary hs).2.2
          · exact hasked
        · cases h
          exact hadds

theorem clientReplied_adds {n₀ : Node} {e : NodeEvent} : Adds n₀ e n (n.clientReplied ci) :=
  Adds.modifyClient fun _ => rfl

theorem goesOn_setwaitconn
    {n₀ : Node} {e : NodeEvent} {l : CCLink} (h : Decides n₀ e l.callerId l.calleeId) :
    GoesOn n₀ e l l.setwaitconn :=
  ⟨endpoints_setwaitconn, fun _ => .inr h⟩

theorem procmsgCONNALLOW_adds
    (hc : n.derefClient (some ci) = .ok c) (hst : c.state = .connected)
    (hk : byteAt f 0 = Proto.CONNALLOW) (hd : Distinct CCLink.ptr n.cclinks)
    (h : n.procmsgCONNALLOW ci f = .ok (m, r)) :
    Adds n (.c2nFrame ci f) n m := by
  obtain ⟨c', hc', h⟩ := bind_eq_ok.mp h
  cases hc.symm.trans hc'
  obtain ⟨hp, hmem, -⟩ := deref_eq_ok hc
  cases hp
  have hreplied : Adds n (.c2nFrame c.ptr f) n (n.clientReplied c.ptr) := clientReplied_adds
  have hsame : ((n.clientReplied c.ptr).cclinkListSearch (idAt f 2) c.id) =
      n.cclinkListSearch (idAt f 2) c.id := rfl
  dsimp only at h
  rw [hsame] at h
  cases hs : n.cclinkListSearch (idAt f 2) c.id with
  | none =>
      simp only [hs] at h
      cases h
      exact hreplied
  | some link =>
      simp only [hs] at h
      split_ifs at h with hwait
      · cases h
        obtain ⟨hl, hcaller, hcallee⟩ := cclinkListSearch_spec hs
        refine hreplied.trans (.modifyLink fun x hx hp => ⟨x, hx, goesOn_setwaitconn ?_⟩)
        rw [hd.eq hx hl hp, hcaller, hcallee]
        exact .connallow c.ptr f c.id link hk ⟨c, hmem, rfl, hst, rfl⟩ hs hwait
      · cases h
        exact hreplied

theorem procmsgCONNDENY_adds
    (hc : n.derefClient (some ci) = .ok c) (hst : c.state = .connected)
    (hk : byteAt f 0 = Proto.CONNDENY)
    (h : n.procmsgCONNDENY ci f = .ok (m, r)) :
    Adds n (.c2nFrame ci f) n m := by
  obtain ⟨c', hc', h⟩ := bind_eq_ok.mp h
  cases hc.symm.trans hc'
  obtain ⟨hp, hmem, -⟩ := deref_eq_ok hc
  cases hp
  have hprim : n.Primary c.ptr c.id := ⟨c, hmem, rfl, hst, rfl⟩
  have hsame : ((n.clientReplied c.ptr).cclinkListSearch (idAt f 2) c.id) =
      n.cclinkListSearch (idAt f 2) c.id := rfl
  dsimp only at h
  rw [hsame] at h
  cases hs : n.cclinkListSearch (idAt f 2) c.id with
  | none =>
      simp only [hs] at h
      cases h
      exact clientReplied_adds
  | some l =>
      simp only [hs] at h
      have hreplied : Adds n (.c2nFrame c.ptr f) n (n.clientReplied c.ptr) := clientReplied_adds
      refine hreplied.trans ?_
      split at h
      · rename_i hwait
        obtain ⟨⟨k, b⟩, hpush, h⟩ := bind_eq_ok.mp h
        obtain ⟨k', hdel, h⟩ := bind_eq_ok.mp h
        cases h
        refine Adds.trans (clientWbufPush_adds ?_ hpush) (cclinkListDelete_adds hdel)
        exact fun p hp => .denied c.ptr p f c.id l hk hprim hs hwait hp
      · rename_i hwait
        obtain ⟨⟨k, b⟩, hpush, h⟩ := bind_eq_ok.mp h
        obtain ⟨k', hdel, h⟩ := bind_eq_ok.mp h
        cases h
        refine Adds.trans (nodelinkWbufPush_adds ?_ hpush) (cclinkListDelete_adds hdel)
        exact fun q hq => .deniedRemote c.ptr q f c.id l hk hprim hs hwait hq
      · obtain ⟨k', hdel, h⟩ := bind_eq_ok.mp h
        cases h
        exact cclinkListDelete_adds hdel

theorem procmsgPINGREQClient_adds
    (hk : byteAt f 0 = Proto.PINGREQ)
    (h : n.procmsgPINGREQClient ci f = .ok (m, r)) :
    Adds n (.c2nFrame ci f) n m := by
  obtain ⟨⟨k, b⟩, hpush, h⟩ := bind_eq_ok.mp h
  cases h
  refine clientWbufPush_adds ?_ hpush
  rintro p ⟨⟩
  exact .clientPingrep ci f _ _ hk

theorem procmsgNODELISTREQClient_adds
    (hk : byteAt f 0 = Proto.CLNODELISTREQ)
    (h : n.procmsgNODELISTREQClient ci f = .ok (m, r)) :
    Adds n (.c2nFrame ci f) n m := by
  rw [Node.procmsgNODELISTREQClient] at h
  split_ifs at h
  · obtain ⟨items, hscan, h⟩ := bind_eq_ok.mp h
    obtain ⟨⟨k, b⟩, hpush, h⟩ := bind_eq_ok.mp h
    cases h
    have hasked : Adds n (.c2nFrame ci f) n n.asked := .same rfl rfl rfl
    refine hasked.trans (clientWbufPush_adds ?_ hpush)
    rintro p ⟨⟩
    exact .clnodelist ci f items hk hscan
  · cases h
    exact .same rfl rfl rfl

/-- The logins behind a client of the tree have its identifier. -/
theorem mem_logins
    {s : Client} {p : Ptr}
    (hs : s ∈ n.clients) (hp : p ∈ n.logins s) :
    ∃ d ∈ n.clients, d.ptr = p ∧ d.id = s.id := by
  rcases List.mem_cons.mp hp with rfl | hp
  · exact ⟨s, hs, rfl, rfl⟩
  · obtain ⟨-, hid⟩ := List.mem_filter.mp hp
    obtain ⟨d, hd, hid⟩ := (Option.any_eq_true _ _).mp (of_decide_eq_true hid).2
    obtain ⟨hmem, hptr⟩ := lookup_eq_some hd
    exact ⟨d, hmem, hptr, of_decide_eq_true hid⟩

theorem procmsgMULTILOGINClient_adds
    (hc : n.derefClient (some ci) = .ok c) (hst : c.state.early = false) (hf : isMultilogin f)
    (h : n.procmsgMULTILOGINClient ci f = .ok (m, r)) :
    Adds n (.c2nFrame ci f) n m := by
  obtain ⟨c', hc', h⟩ := bind_eq_ok.mp h
  cases hc.symm.trans hc'
  obtain ⟨hp, hmem, -⟩ := deref_eq_ok hc
  cases hp
  obtain ⟨k, hlogins, h⟩ := bind_eq_ok.mp h
  obtain ⟨k', hnodes, h⟩ := bind_eq_ok.mp h
  cases h
  obtain ⟨hcopy, hcopy'⟩ := Logins.isMultilogin_copy hf
  rw [hcopy] at hlogins
  rw [hcopy', hcopy] at hnodes
  have hothers : ∀ p ∈ ((n.clientTreeSearch c.id).map n.logins).getD [], some p ≠ some c.ptr →
      Sends n (.c2nFrame c.ptr f) (.client p) f := by
    intro p hp hne
    cases hs : n.clientTreeSearch c.id with
    | none => simp [hs] at hp
    | some s =>
        simp only [hs, Option.map_some, Option.getD_some] at hp
        obtain ⟨hsmem, -, hsid⟩ := clientTreeSearch_primary hs
        obtain ⟨d, hd, rfl, hid⟩ := mem_logins hsmem hp
        exact .multilogin c d f hf hmem hst hd (hid.trans hsid) fun heq => hne (by rw [heq])
  obtain ⟨hadds, hsame⟩ := pushToLogins_adds hothers hlogins
  refine hadds.trans (pushToNodes_adds (fun nl hnl => ?_) hnodes)
  exact .multiloginNodes c nl.ptr f hf hmem hst ⟨nl, hsame ▸ hnl, rfl⟩

/-- A complete message of the kind `MULTILOGIN` is one for the handler. -/
theorem isMultilogin_of_size
    (hsize : msggetsize f f.length (Node.msginfoClient c) = f.length)
    (hk : byteAt f 0 = Proto.MULTILOGIN) :
    isMultilogin f := by
  rw [msggetsize] at hsize
  split_ifs at hsize with hshort hbytes
  · rw [uintMax] at hsize
    omega
  · omega
  · have hlen : 4 ≤ f.length := by
      by_contra hlt
      have hwait : msggetsizeScan f f.length (Node.msginfoClient c) = uintMax := by
        rw [Node.msginfoClient]
        split_ifs <;>
          simp [msggetsizeScan, msginfoMulti, msginfoComm, fixedMsg, varMsg, hk,
            Proto.CONNREQOUTG, Proto.CONNALLOW, Proto.CONNDENY, Proto.CLNODELISTREQ,
            Proto.PINGREQ, Proto.PINGREP, Proto.MULTILOGIN, hlt]
      rw [hwait, uintMax] at hsize
      omega
    have heq := (@msginfoClient_MULTILOGIN c _ _ hk hlen).1
    have hsecond : byteAt f 1 = Proto.MULTILOGIN := by
      rw [← hk]
      exact (not_not.mp hbytes).symm
    simp only [isMultilogin, decide_eq_true_eq]
    exact ⟨hk, hsecond, by rw [← heq, hsize]⟩

theorem msginfoComm_adds
    {mi : MsgInfo (Except Fault Node)}
    (hc : n.derefClient (some ci) = .ok c) (hst : c.state = .connected)
    (hd : Distinct CCLink.ptr n.cclinks)
    (hf : byteAt f 0 = Proto.MULTILOGIN → isMultilogin f)
    (hmi : mi ∈ msginfoComm ci) (hk : byteAt f 0 = mi.msgid % 256)
    (h : (mi.msgprocfn (.ok n) f).1 = .ok m) :
    Adds n (.c2nFrame ci f) n m := by
  simp only [msginfoComm, List.mem_cons, List.not_mem_nil, or_false] at hmi
  obtain rfl | rfl | rfl | rfl | rfl | rfl | rfl := hmi
  · exact procmsgCONNREQOUTG_adds hc hst hk (handlerFn_ok h)
  · exact procmsgCONNALLOW_adds hc hst hk hd (handlerFn_ok h)
  · exact procmsgCONNDENY_adds hc hst hk (handlerFn_ok h)
  · exact procmsgNODELISTREQClient_adds hk (handlerFn_ok h)
  · exact procmsgPINGREQClient_adds hk (handlerFn_ok h)
  · cases h
    exact clientReplied_adds
  · exact procmsgMULTILOGINClient_adds hc (by rw [hst]; rfl) (hf hk) (handlerFn_ok h)

theorem msginfoMulti_adds
    {mi : MsgInfo (Except Fault Node)}
    (hc : n.derefClient (some ci) = .ok c) (hst : c.state = .multiloginSecondary)
    (hf : byteAt f 0 = Proto.MULTILOGIN → isMultilogin f)
    (hmi : mi ∈ msginfoMulti ci) (hk : byteAt f 0 = mi.msgid % 256)
    (h : (mi.msgprocfn (.ok n) f).1 = .ok m) :
    Adds n (.c2nFrame ci f) n m := by
  simp only [msginfoMulti, List.mem_cons, List.not_mem_nil, or_false] at hmi
  obtain rfl | rfl | rfl | rfl | rfl | rfl | rfl := hmi
  · cases h
    exact .refl
  · cases h
    exact .refl
  · cases h
    exact .refl
  · exact procmsgNODELISTREQClient_adds hk (handlerFn_ok h)
  · exact procmsgPINGREQClient_adds hk (handlerFn_ok h)
  · cases h
    exact clientReplied_adds
  · exact procmsgMULTILOGINClient_adds hc (by rw [hst]; rfl) (hf hk) (handlerFn_ok h)

theorem processC2nFrame_adds
    (hd : Distinct Client.ptr n.clients) (hlinks : Distinct CCLink.ptr n.cclinks)
    (hen : NodeEvent.enabled n (.c2nFrame ci f))
    (h : n.processC2nFrame ci f = .ok m) :
    Adds n (.c2nFrame ci f) n m := by
  obtain ⟨c, hc, h⟩ := bind_eq_ok.mp h
  obtain ⟨k, hk, h⟩ := bind_eq_ok.mp h
  obtain ⟨hp, hmem, -⟩ := deref_eq_ok hc
  cases hp
  simp only [NodeEvent.enabled, List.any_eq_true, decide_eq_true_eq] at hen
  obtain ⟨c', hc', hptr, hst, hsize⟩ := hen
  obtain rfl := hd.eq hc' hmem hptr
  have hadds : Adds n (.c2nFrame c'.ptr f) n k := by
    obtain ⟨mi, hmi, hid, hcall⟩ := processmsg_entry hsize
    rw [hcall] at hk
    rcases hst with hst | hst
    · rw [Node.msginfoClient, if_neg (by simp [hst])] at hmi
      exact msginfoComm_adds hc hst hlinks (isMultilogin_of_size hsize) hmi hid hk
    · rw [Node.msginfoClient, if_pos hst] at hmi
      exact msginfoMulti_adds hc hst (isMultilogin_of_size hsize) hmi hid hk
  split_ifs at h
  · exact hadds.trans (clientListDelete_adds h)
  · cases h
    exact hadds

end ClientMessages

/-! ## Messages of nodes -/

section NodeMessages

variable {n m : Node} {nl : Ptr} {f : Frame} {r : Nat}

theorem procmsgNODERESP_adds
    (h : n.procmsgNODERESP nl f = .ok (m, r)) :
    Adds n (.n2nFrame nl f) n m := by
  rw [Node.procmsgNODERESP] at h
  split_ifs at h with hok hbytes hver
  · cases h
    exact .refl
  · simp only [not_or, not_not] at hbytes
    obtain ⟨⟨k, b⟩, hpush, h⟩ := bind_eq_ok.mp h
    have hadds : Adds n (.n2nFrame nl f) n k := by
      refine nodelinkWbufPush_adds ?_ hpush
      rintro p ⟨⟩
      exact .newnode nl f hok hbytes.1 hbytes.2
    cases b with
    | false =>
        cases h
        exact hadds
    | true =>
        obtain ⟨⟨k', b'⟩, hpush', h⟩ := bind_eq_ok.mp h
        cases h
        refine hadds.trans (nodelinkWbufPush_adds ?_ hpush')
        rintro p ⟨⟩
        exact .nodelistreq nl f _ _ hok hbytes.1 hbytes.2
  · cases h
    exact .refl
  · cases h
    exact .refl

theorem nodelinkAttachNodeaddr_adds
    {n₀ : Node} {e : NodeEvent} {a : SockAddr} :
    Adds n₀ e n (n.nodelinkAttachNodeaddr nl a) := by
  have hasked : Adds n₀ e n n.asked := .same rfl rfl rfl
  rw [Node.nodelinkAttachNodeaddr]
  split_ifs <;> exact hasked.trans (.modifyNodelink fun _ => rfl)

theorem procmsgNEWNODE_adds
    (h : n.procmsgNEWNODE nl f = .ok (m, r)) :
    Adds n (.n2nFrame nl f) n m := by
  rw [Node.procmsgNEWNODE] at h
  dsimp only at h
  split_ifs at h
  · cases h
    exact .refl
  · cases h
    exact .refl
  · cases h
    exact nodelinkAttachNodeaddr_adds
  · cases h
    exact .refl

theorem procmsgNODELISTREQ_adds
    (hk : byteAt f 0 = Proto.NODELISTREQ)
    (h : n.procmsgNODELISTREQ nl f = .ok (m, r)) :
    Adds n (.n2nFrame nl f) n m := by
  rw [Node.procmsgNODELISTREQ] at h
  split_ifs at h
  · obtain ⟨asking, hask, h⟩ := bind_eq_ok.mp h
    obtain ⟨items, hscan, h⟩ := bind_eq_ok.mp h
    obtain ⟨⟨k, b⟩, hpush, h⟩ := bind_eq_ok.mp h
    cases h
    obtain ⟨hp, hmem, -⟩ := deref_eq_ok hask
    cases hp
    have hasked : Adds n (.n2nFrame asking.ptr f) n n.asked := .same rfl rfl rfl
    refine hasked.trans (nodelinkWbufPush_adds ?_ hpush)
    rintro p ⟨⟩
    exact .nodelist asking f items hk hmem hscan
  · cases h
    exact .same rfl rfl rfl

theorem nodelistLoop_adds
    {n₀ : Node} {e : NodeEvent} {buf : Frame} {size listsize fuel left : Nat}
    (h : Node.nodelistLoop nl buf size listsize fuel left n = .ok m) :
    Adds n₀ e n m := by
  induction fuel generalizing left n with
  | zero =>
      cases left with
      | zero =>
          cases h
          exact .refl
      | succ left => cases h
  | succ fuel ih =>
      cases left with
      | zero =>
          cases h
          exact .refl
      | succ left =>
          rw [Node.nodelistLoop] at h
          · split_ifs at h
            · exact nodelinkAttachNodeaddr_adds.trans (ih h)
            · exact ih h
          · simp

theorem procmsgNODELIST_adds
    (h : n.procmsgNODELIST nl f = .ok (m, r)) :
    Adds n (.n2nFrame nl f) n m := by
  obtain ⟨k, hloop, h⟩ := bind_eq_ok.mp h
  cases h
  exact nodelistLoop_adds hloop

theorem procmsgSEARCH_adds
    (hk : byteAt f 0 = Proto.SEARCH)
    (h : n.procmsgSEARCH nl f = .ok (m, r)) :
    Adds n (.n2nFrame nl f) n m := by
  rw [Node.procmsgSEARCH] at h
  split at h
  · rename_i c hs
    obtain ⟨⟨k, b⟩, hpush, h⟩ := bind_eq_ok.mp h
    cases h
    refine nodelinkWbufPush_adds ?_ hpush
    rintro p ⟨⟩
    exact .n2nfound nl f c hk hs
  · cases h
    exact .refl

theorem goesOn_attachRemotecleNode
    {n₀ : Node} {e : NodeEvent} {l : CCLink} :
    GoesOn n₀ e l (l.attachRemotecleNode nl) := by
  refine .of_state endpoints_attachRemotecleNode ?_
  rw [CCLink.attachRemotecleNode]
  split_ifs
  · exact .inr (.inr rfl)
  · exact .inl rfl

/-- The loop asks for links that were waiting before it. -/
theorem n2nfoundLoop_adds
    {n₀ : Node} {fuel : Nat}
    (hk : byteAt f 0 = Proto.N2NFOUND ∨ byteAt f 0 = Proto.N2NFOUNDCACHE)
    (hlinks : ∀ l ∈ n.cclinks, l.state = .n2nClrWaitSearch → l ∈ n₀.cclinks)
    (h : Node.n2nfoundLoop nl (idAt f 2) fuel n = .ok m) :
    Adds n₀ (.n2nFrame nl f) n m := by
  induction fuel generalizing n with
  | zero =>
      unfold Node.n2nfoundLoop at h
      split at h
      · cases h
        exact .refl
      · cases h
      · contradiction
  | succ fuel ih =>
      unfold Node.n2nfoundLoop at h
      cases hs : n.cclinkListFindwaitsearch (idAt f 2) with
      | none =>
          simp only [hs] at h
          cases h
          exact .refl
      | some l =>
          simp only [hs] at h
          obtain ⟨⟨k, b⟩, hpush, h⟩ := bind_eq_ok.mp h
          have hfind := List.find?_some hs
          simp only [decide_eq_true_eq] at hfind
          have hl := hlinks l (List.mem_of_find?_eq_some hs) hfind.2
          have hsame : k.cclinks = (n.modifyLink l.ptr fun l => l.attachRemotecleNode nl).cclinks :=
            (nodelinkWbufPush_frame hpush).1
          have hattach : Adds n₀ (.n2nFrame nl f) n
              (n.modifyLink l.ptr fun l => l.attachRemotecleNode nl) :=
            .modifyLink fun x hx _ => ⟨x, hx, goesOn_attachRemotecleNode⟩
          refine (hattach.trans (nodelinkWbufPush_adds ?_ hpush)).trans (ih ?_ h)
          · rintro p ⟨⟩
            rw [← hfind.1]
            exact .n2nconnreqoutg nl f l hk hl hfind.2 hfind.1
          · intro l' hl' hwait
            rw [hsame] at hl'
            obtain ⟨l₁, hl₁, rfl⟩ := mem_modify.mp hl'
            split_ifs at hwait ⊢ with hp
            · -- the link that was served waits no more
              rw [CCLink.attachRemotecleNode] at hwait ⊢
              split_ifs at hwait ⊢ with hst
              exact absurd hwait hst
            · exact hlinks l₁ hl₁ hwait

theorem procmsgN2NFOUND_adds
    (hk : byteAt f 0 = Proto.N2NFOUND ∨ byteAt f 0 = Proto.N2NFOUNDCACHE)
    (h : n.procmsgN2NFOUND nl f = .ok (m, r)) :
    Adds n (.n2nFrame nl f) n m := by
  obtain ⟨k, hloop, h⟩ := bind_eq_ok.mp h
  cases h
  exact n2nfoundLoop_adds hk (fun l hl _ => hl) hloop

theorem procmsgN2NCONNREQOUTG_adds
    (hk : byteAt f 0 = Proto.N2NCONNREQOUTG)
    (h : n.procmsgN2NCONNREQOUTG nl f = .ok (m, r)) :
    Adds n (.n2nFrame nl f) n m := by
  rw [Node.procmsgN2NCONNREQOUTG] at h
  dsimp only at h
  cases hs : n.clientTreeSearch (idAt f (2 + idSize)) with
  | none =>
      simp only [hs] at h
      obtain ⟨⟨k, b⟩, hpush, h⟩ := bind_eq_ok.mp h
      cases h
      refine nodelinkWbufPush_adds ?_ hpush
      rintro p ⟨⟩
      exact .n2nnotfound nl f hk hs
  | some c =>
      simp only [hs] at h
      obtain ⟨⟨k, b⟩, hpush, h⟩ := bind_eq_ok.mp h
      have hadds : Adds n (.n2nFrame nl f) n k := by
        refine clientWbufPush_adds ?_ hpush
        rintro p ⟨⟩
        exact .connreqincRemote nl f c hk hs
      split_ifs at h
      · obtain ⟨k', hadd, h⟩ := bind_eq_ok.mp h
        cases h
        refine hadds.trans ?_
        rw [Node.cclinkListAddn2ncle] at hadd
        split_ifs at hadd
        · cases hadd
          have hasked : Adds n (.n2nFrame nl f) k k.asked.asked := .same rfl rfl rfl
          refine hasked.trans (.addLink ?_ rfl)
          exact .calleeSide nl f c _ hk hs rfl rfl rfl rfl (clientTreeSearch_primary hs).2.2
        · cases hadd
          exact .same rfl rfl rfl
      · cases h
        exact hadds

theorem procmsgN2NALLOW_adds
    (hk : byteAt f 0 = Proto.N2NALLOW) (hd : Distinct CCLink.ptr n.cclinks)
    (h : n.procmsgN2NALLOW nl f = .ok (m, r)) :
    Adds n (.n2nFrame nl f) n m := by
  rw [Node.procmsgN2NALLOW] at h
  dsimp only at h
  cases hs : n.cclinkListSearch (idAt f 2) (idAt f (2 + idSize)) with
  | none =>
      simp only [hs] at h
      cases h
      exact .refl
  | some cc =>
      simp only [hs] at h
      obtain ⟨⟨k, b⟩, hpush, h⟩ := bind_eq_ok.mp h
      have hadds : Adds n (.n2nFrame nl f) n k :=
        clientWbufPush_adds (fun p hp => .foundRemote nl p f cc hk hs hp) hpush
      split_ifs at h
      · cases h
        obtain ⟨hl, hcaller, hcallee⟩ := cclinkListSearch_spec hs
        have hsame : k.cclinks = n.cclinks := (clientWbufPush_frame hpush).1
        refine hadds.trans (.modifyLink fun x hx hp => ⟨x, hx, goesOn_setwaitconn ?_⟩)
        rw [hd.eq (hsame ▸ hx) hl hp, hcaller, hcallee]
        exact .n2nallow nl f hk
      · cases h
        exact hadds

theorem procmsgN2NNOTFOUND_adds
    (hk : byteAt f 0 = Proto.N2NNOTFOUND)
    (h : n.procmsgN2NNOTFOUND nl f = .ok (m, r)) :
    Adds n (.n2nFrame nl f) n m := by
  rw [Node.procmsgN2NNOTFOUND] at h
  dsimp only at h
  cases hs : n.cclinkListSearch (idAt f 2) (idAt f (2 + idSize)) with
  | none =>
      simp only [hs] at h
      cases h
      exact .refl
  | some cc =>
      simp only [hs] at h
      obtain ⟨⟨k, b⟩, hpush, h⟩ := bind_eq_ok.mp h
      obtain ⟨k', hdel, h⟩ := bind_eq_ok.mp h
      cases h
      have hadds : Adds n (.n2nFrame nl f) n k :=
        clientWbufPush_adds (fun p hp => .notfoundRemote nl p f cc hk hs hp) hpush
      exact hadds.trans (cclinkListDelete_adds hdel)

theorem n2nmsgInto_adds
    {n₀ : Node} {e : NodeEvent} {d : Dir} {data : List UInt8} {l : CCLink}
    (hl : l ∈ n.cclinks) (h : n.n2nmsgInto d data l = .ok (m, r)) :
    Adds n₀ e n m := by
  rw [Node.n2nmsgInto] at h
  split at h
  · obtain ⟨k, hdel, h⟩ := bind_eq_ok.mp h
    cases h
    exact cclinkListDelete_adds hdel
  · rename_i cc' hcc
    cases h
    have hcore : cc'.core = l.core := by
      rw [relayN2nmsg_eq_some hcc]
      exact unseen_core.setRelay l d _ rfl RelayBuf.length_append
    exact .modifyLink fun _ _ _ => ⟨l, hl, .of_core hcore⟩

/-- The second attempt, when no active link has been found for the first one. -/
theorem n2nmsgBack_adds
    {data : List UInt8}
    (hk : byteAt f 0 = Proto.N2NMSG)
    (hcle : ∀ l, n.cclinkListSearch (idAt f 4) (idAt f (4 + idSize)) = some l →
      l.state ≠ .n2nCleActive)
    (h : n.n2nmsgBack nl (idAt f 4) (idAt f (4 + idSize)) data = .ok (m, r)) :
    Adds n (.n2nFrame nl f) n m := by
  have lost : ∀ k b, n.nodelinkWbufPush (some nl)
        (head Proto.N2NNOTFOUND ++ (idAt f 4).1 ++ (idAt f (4 + idSize)).1) = .ok (k, b) →
      (∀ l, n.cclinkListSearch (idAt f (4 + idSize)) (idAt f 4) = some l →
        l.state ≠ .n2nClrActive) →
      Adds n (.n2nFrame nl f) n k := by
    intro k b hpush hclr
    refine nodelinkWbufPush_adds ?_ hpush
    rintro p ⟨⟩
    exact .n2nmsgLost nl f hk hcle hclr
  rw [Node.n2nmsgBack] at h
  dsimp only at h
  cases hs : n.cclinkListSearch (idAt f (4 + idSize)) (idAt f 4) with
  | none =>
      simp only [hs] at h
      obtain ⟨⟨k, b⟩, hpush, h⟩ := bind_eq_ok.mp h
      cases h
      exact lost k b hpush fun l hl => by simp [hs] at hl
  | some cc =>
      simp only [hs] at h
      split_ifs at h with hst
      · exact n2nmsgInto_adds (cclinkListSearch_spec hs).1 h
      · obtain ⟨⟨k, b⟩, hpush, h⟩ := bind_eq_ok.mp h
        cases h
        refine lost k b hpush fun l hl => ?_
        cases hs.symm.trans hl
        exact hst

theorem procmsgN2NMSG_adds
    (hk : byteAt f 0 = Proto.N2NMSG)
    (h : n.procmsgN2NMSG nl f = .ok (m, r)) :
    Adds n (.n2nFrame nl f) n m := by
  rw [Node.procmsgN2NMSG] at h
  dsimp only at h
  split_ifs at h
  · cases h
    exact .refl
  · cases hs : n.cclinkListSearch (idAt f 4) (idAt f (4 + idSize)) with
    | none =>
        simp only [hs] at h
        exact n2nmsgBack_adds hk (fun l hl => by simp [hs] at hl) h
    | some cc =>
        simp only [hs] at h
        split_ifs at h with hst
        · exact n2nmsgInto_adds (cclinkListSearch_spec hs).1 h
        · refine n2nmsgBack_adds hk (fun l hl => ?_) h
          cases hs.symm.trans hl
          exact hst

theorem procmsgPINGREQNode_adds
    (hk : byteAt f 0 = Proto.PINGREQ)
    (h : n.procmsgPINGREQNode nl f = .ok (m, r)) :
    Adds n (.n2nFrame nl f) n m := by
  obtain ⟨⟨k, b⟩, hpush, h⟩ := bind_eq_ok.mp h
  cases h
  refine nodelinkWbufPush_adds ?_ hpush
  rintro p ⟨⟩
  exact .nodePingrep nl f _ _ hk

theorem procmsgMULTILOGINNode_adds
    (hk : byteAt f 0 = Proto.MULTILOGIN)
    (h : n.procmsgMULTILOGINNode nl f = .ok (m, r)) :
    Adds n (.n2nFrame nl f) n m := by
  rw [Node.procmsgMULTILOGINNode] at h
  split_ifs at h
  · cases h
    exact .refl
  · split at h
    · cases h
      exact .refl
    · rename_i c hc
      obtain ⟨k, hlogins, h⟩ := bind_eq_ok.mp h
      cases h
      have hmem := List.mem_of_find?_eq_some hc
      have hfind := List.find?_some hc
      simp only [decide_eq_true_eq] at hfind
      refine (pushToLogins_adds (fun p hp _ => ?_) hlogins).1
      obtain ⟨d, hd, rfl, hid⟩ := mem_logins hmem hp
      exact .multiloginNode nl f c d hk hmem hfind.1 hfind.2 hd hid
  · cases h
    exact .refl

theorem msginfoNode_adds
    {mi : MsgInfo (Except Fault Node)}
    (hd : Distinct CCLink.ptr n.cclinks)
    (hmi : mi ∈ msginfoNode nl) (hk : byteAt f 0 = mi.msgid % 256)
    (h : (mi.msgprocfn (.ok n) f).1 = .ok m) :
    Adds n (.n2nFrame nl f) n m := by
  simp only [msginfoNode, List.mem_cons, List.not_mem_nil, or_false] at hmi
  obtain rfl | rfl | rfl | rfl | rfl | rfl | rfl | rfl | rfl | rfl | rfl | rfl | rfl | rfl |
    rfl := hmi
  · exact procmsgNODERESP_adds (handlerFn_ok h)
  · exact procmsgNODERESP_adds (handlerFn_ok h)
  · exact procmsgNEWNODE_adds (handlerFn_ok h)
  · exact procmsgNODELISTREQ_adds hk (handlerFn_ok h)
  · exact procmsgNODELIST_adds (handlerFn_ok h)
  · exact procmsgSEARCH_adds hk (handlerFn_ok h)
  · exact procmsgN2NFOUND_adds (.inl hk) (handlerFn_ok h)
  · exact procmsgN2NFOUND_adds (.inr hk) (handlerFn_ok h)
  · exact procmsgN2NCONNREQOUTG_adds hk (handlerFn_ok h)
  · exact procmsgN2NALLOW_adds hk hd (handlerFn_ok h)
  · exact procmsgN2NNOTFOUND_adds hk (handlerFn_ok h)
  · exact procmsgN2NMSG_adds hk (handlerFn_ok h)
  · exact procmsgPINGREQNode_adds hk (handlerFn_ok h)
  · cases h
    exact .modifyNodelink fun _ => rfl
  · exact procmsgMULTILOGINNode_adds hk (handlerFn_ok h)

theorem processN2nFrame_adds
    (hd : Distinct CCLink.ptr n.cclinks)
    (hen : NodeEvent.enabled n (.n2nFrame nl f))
    (h : n.processN2nFrame nl f = .ok m) :
    Adds n (.n2nFrame nl f) n m := by
  obtain ⟨k, hk, h⟩ := bind_eq_ok.mp h
  simp only [NodeEvent.enabled, List.any_eq_true, decide_eq_true_eq] at hen
  have hadds : Adds n (.n2nFrame nl f) n k := by
    obtain ⟨mi, hmi, hid, hcall⟩ := processmsg_entry hen.2
    rw [hcall] at hk
    exact msginfoNode_adds hd hmi hid hk
  split_ifs at h
  · exact hadds.trans (nodelinkListDelete_adds h)
  · cases h
    exact hadds

end NodeMessages

/-! ## Active links -/

section Relaying

variable {n m : Node} {s : Socket} {cc : CCLink}

/-- A message in which the link passes on bytes of a direction whose destination is on
another node. -/
def CCLink.Emits (cc : CCLink) (x : Option Ptr × Frame) : Prop :=
  ∃ d data, cc.state = remoteState d ∧ data.length ≤ Proto.N2NMSG_MAXDATASIZE ∧
    x = (cc.dstNode d, n2nmsg (cc.senderId d) (cc.receiverId d) data)

theorem emits_of_core
    {cc' : CCLink} {x : Option Ptr × Frame}
    (heq : cc'.core = cc.core) (h : cc'.Emits x) :
    cc.Emits x := by
  simp only [CCLink.core, Prod.mk.injEq] at heq
  obtain ⟨-, hst, -, -, hcaller, hcallee, hnode, hnode'⟩ := heq
  obtain ⟨d, data, hd, hlen, rfl⟩ := h
  refine ⟨d, data, hst ▸ hd, hlen, ?_⟩
  cases d <;> simp [CCLink.dstNode, CCLink.senderId, CCLink.receiverId, hcaller, hcallee, hnode,
    hnode']

theorem writeDir_emits
    {d : Dir} {o : SendOutcome} {mem : Bool} {w : C2cWrite}
    (h : ∀ x ∈ w.pushed, w.cc.Emits x) :
    ∀ x ∈ (writeDir d s o mem w).pushed, w.cc.Emits x := by
  have hattempt : ∀ x ∈ (attemptDir d s o mem w).pushed, w.cc.Emits x := by
    intro x hx
    simp only [attemptDir] at hx
    split_ifs at hx with hst
    · rcases List.mem_append.mp hx with hold | hnew
      · exact h x hold
      · obtain rfl := List.mem_singleton.mp hnew
        refine ⟨d, _, hst, ?_, rfl⟩
        rw [List.length_take]
        omega
    · exact h x hx
    · exact h x (by cases d <;> exact hx)
    · exact h x hx
  intro x hx
  simp only [writeDir] at hx
  split_ifs at hx
  · exact h x hx
  · rw [settleError_pushed, settleSent_pushed] at hx
    exact hattempt x hx
  · rw [settleError_pushed, settleSent_pushed] at hx
    exact hattempt x hx

theorem processC2cWrite_emits {env : WriteEnv} :
    ∀ x ∈ (processC2cWrite s env cc).pushed, cc.Emits x := by
  have hfirst : ∀ x ∈ (writeDir .p1p2 s env.send12 env.mem12
      ⟨cc, env.ret0, false, [], [], []⟩).pushed, cc.Emits x :=
    @writeDir_emits s _ _ _ ⟨cc, env.ret0, false, [], [], []⟩ (by simp)
  intro x hx
  rw [processC2cWrite] at hx
  refine emits_of_core unseen_core.writeDir (writeDir_emits ?_ x hx)
  intro y hy
  exact emits_of_core unseen_core.writeDir.symm (hfirst y hy)

theorem readDir_emits {d : Dir} {data : List UInt8} {env : WriteEnv} :
    ∀ x ∈ (readDir d s data env cc).pushed, cc.Emits x := by
  intro x hx
  simp only [readDir, apply_ite C2cRead.pushed] at hx
  split_ifs at hx
  · simp at hx
  · simp at hx
  · exact emits_of_core unseen_core.fillDir (processC2cWrite_emits x hx)
  · simp [C2cRead.idle] at hx

theorem processC2cRead_emits {data₁ data₂ : List UInt8} {env : WriteEnv} :
    ∀ x ∈ (processC2cRead s data₁ data₂ env cc).pushed, cc.Emits x := by
  intro x hx
  simp only [processC2cRead] at hx
  cases hr : (readDir .p1p2 s data₁ env cc).cc with
  | none =>
      simp only [hr] at hx
      exact readDir_emits x hx
  | some cc' =>
      simp only [hr] at hx
      rcases List.mem_append.mp hx with hx | hx
      · exact readDir_emits x hx
      · exact emits_of_core (unseen_core.readDir hr) (readDir_emits x hx)

theorem pushRelayed_adds
    {n₀ : Node} {e : NodeEvent} {out : List (Option Ptr × Frame)}
    (hs : ∀ x ∈ out, ∀ q, x.1 = some q → Sends n₀ e (.node q) x.2)
    (h : Node.pushRelayed out n = .ok m) :
    Adds n₀ e n m := by
  induction out generalizing n with
  | nil =>
      cases h
      exact .refl
  | cons o out ih =>
      obtain ⟨dst, f⟩ := o
      obtain ⟨l, hl, hrest⟩ := bind_eq_ok.mp h
      obtain ⟨rfl, -, -⟩ := deref_eq_ok hl
      refine Adds.trans ?_ (ih (fun x hx => hs x (List.mem_cons_of_mem _ hx)) hrest)
      refine ⟨fun r x hx => ?_, fun cc hcc => .inl ⟨cc, hcc, .refl⟩⟩
      cases r with
      | client p => exact .inl hx
      | node p =>
          obtain ⟨l', hl', rfl, hx⟩ := hx
          obtain ⟨l₁, hl₁, rfl⟩ := mem_modify.mp hl'
          split_ifs at hx ⊢ with hp
          · rcases List.mem_append.mp hx with hx | hx
            · exact .inl ⟨l₁, hl₁, rfl, hx⟩
            · obtain rfl := List.mem_singleton.mp hx
              exact .inr (hs (some l.ptr, x) List.mem_cons_self l₁.ptr (by rw [hp]))
          · exact .inl ⟨l₁, hl₁, rfl, hx⟩

theorem pushRelayed_cclinks
    {out : List (Option Ptr × Frame)} (h : Node.pushRelayed out n = .ok m) :
    m.cclinks = n.cclinks :=
  (@pushRelayed_acts n _ _ (.clock 0) _ h).2

/-- What a link passes on is sent. -/
theorem sends_of_emits
    {e : NodeEvent} {l : CCLink} {x : Option Ptr × Frame} {q : Ptr}
    (he : ∃ s env, (∃ data₁ data₂, e = .c2cRead l.ptr s data₁ data₂ env) ∨
      e = .c2cWrite l.ptr s env)
    (hl : l ∈ n.cclinks) (hx : l.Emits x) (hq : x.1 = some q) :
    Sends n e (.node q) x.2 := by
  obtain ⟨d, data, hst, hlen, rfl⟩ := hx
  exact .n2nmsg e l d q data he hl hst hq hlen

theorem processC2cReadLink_adds
    {p : Ptr} {data₁ data₂ : List UInt8} {env : WriteEnv}
    (h : n.processC2cReadLink p s data₁ data₂ env = .ok m) :
    Adds n (.c2cRead p s data₁ data₂ env) n m := by
  obtain ⟨l, hl, h⟩ := bind_eq_ok.mp h
  obtain ⟨k, hk, h⟩ := bind_eq_ok.mp h
  obtain ⟨hp, hmem, -⟩ := deref_eq_ok hl
  cases hp
  have hpush : Adds n (.c2cRead l.ptr s data₁ data₂ env) n k := by
    refine pushRelayed_adds (fun x hx q hq => ?_) hk
    exact sends_of_emits ⟨s, env, .inl ⟨data₁, data₂, rfl⟩⟩ hmem (processC2cRead_emits x hx) hq
  have hmemk : l ∈ k.cclinks := by rwa [pushRelayed_cclinks hk]
  split at h
  · exact hpush.trans (cclinkListDelete_adds h)
  · rename_i cc hcc
    cases h
    exact hpush.trans (.modifyLink fun _ _ _ =>
      ⟨l, hmemk, .of_core (unseen_core.processC2cRead hcc)⟩)

theorem processC2cWriteLink_adds
    {p : Ptr} {env : WriteEnv}
    (h : n.processC2cWriteLink p s env = .ok m) :
    Adds n (.c2cWrite p s env) n m := by
  obtain ⟨l, hl, h⟩ := bind_eq_ok.mp h
  obtain ⟨k, hk, h⟩ := bind_eq_ok.mp h
  obtain ⟨hp, hmem, -⟩ := deref_eq_ok hl
  cases hp
  have hpush : Adds n (.c2cWrite l.ptr s env) n k := by
    refine pushRelayed_adds (fun x hx q hq => ?_) hk
    refine sends_of_emits ⟨s, env, .inr rfl⟩ hmem ?_ hq
    exact emits_of_core (unseen_core.fired l s) (processC2cWrite_emits x hx)
  have hmemk : l ∈ k.cclinks := by rwa [pushRelayed_cclinks hk]
  split_ifs at h
  · exact hpush.trans (cclinkListDelete_adds h)
  · cases h
    refine hpush.trans (.modifyLink fun _ _ _ => ⟨l, hmemk, .of_core ?_⟩)
    rw [unseen_core.processC2cWrite, unseen_core.fired]

end Relaying

/-! ## Timeouts, logins and new connections -/

section Others

variable {n m : Node} {p : Ptr} {i : Nat}

theorem timeoutC2n_adds (h : n.timeoutC2n p = .ok m) : Adds n (.timeoutC2n p) n m := by
  obtain ⟨c, hc, h⟩ := bind_eq_ok.mp h
  obtain ⟨hp, hmem, -⟩ := deref_eq_ok hc
  cases hp
  split_ifs at h with htick hlate hidle
  · exact clientListDelete_adds h
  · cases h
    exact .refl
  · obtain ⟨⟨k, b⟩, hpush, h⟩ := bind_eq_ok.mp h
    have hadds : Adds n (.timeoutC2n c.ptr) n k := by
      refine clientWbufPush_adds ?_ hpush
      rintro p ⟨⟩
      exact .clientPingreq c _ _ hmem (Bool.eq_false_iff.mpr htick) hidle
    cases b with
    | true =>
        cases h
        exact hadds.trans (.modifyClient fun _ => rfl)
    | false => exact hadds.trans (clientListDelete_adds h)
  · cases h
    exact .refl

theorem timeoutN2n_adds (h : n.timeoutN2n p = .ok m) : Adds n (.timeoutN2n p) n m := by
  obtain ⟨l, hl, h⟩ := bind_eq_ok.mp h
  obtain ⟨hp, hmem, -⟩ := deref_eq_ok hl
  cases hp
  split_ifs at h with htick hlate hidle
  · exact nodelinkListDelete_adds h
  · cases h
    exact .refl
  · obtain ⟨⟨k, b⟩, hpush, h⟩ := bind_eq_ok.mp h
    have hadds : Adds n (.timeoutN2n l.ptr) n k := by
      refine nodelinkWbufPush_adds ?_ hpush
      rintro p ⟨⟩
      exact .nodePingreq l _ _ hmem (Bool.eq_false_iff.mpr htick) hidle
    cases b with
    | true =>
        cases h
        exact hadds.trans (.modifyNodelink fun _ => rfl)
    | false => exact hadds.trans (nodelinkListDelete_adds h)
  · cases h
    exact .refl

theorem processC2nConnected_adds
    {e : NodeEvent} {cert : Option Id}
    (h : n.processC2nConnected p cert = .ok m) :
    Adds n e n m := by
  obtain ⟨c, -, h⟩ := bind_eq_ok.mp h
  cases cert with
  | none => exact clientListDeleteIn_adds h
  | some id =>
      have hcall : Adds n e n (n.logged (.connected c.ptr (some id))) := .same rfl rfl rfl
      dsimp only at h
      split_ifs at h
      · exact clientListDeleteIn_adds h
      · cases hs : n.clientTreeSearch id with
        | some s =>
            simp only [hs] at h
            cases h
            have hmod : Adds n e n ((n.logged (.connected c.ptr (some id))).modifyClient c.ptr
                fun c => { c with id := id, state := .multiloginSecondary }) :=
              hcall.trans (.modifyClient fun _ => rfl)
            exact hmod.trans (.same rfl rfl rfl)
        | none =>
            simp only [hs] at h
            cases h
            exact hcall.trans (.modifyClient fun _ => rfl)

theorem addNodelink_adds
    {n₀ : Node} {e : NodeEvent} {nl : NodeLink} (hnl : nl.pushed = []) :
    Adds n₀ e n (n.addNodelink nl) := by
  refine .of_mail (mail_refl rfl) (fun l hl => ?_) fun _ hl => hl
  rcases List.mem_append.mp hl with hl | hl
  · exact .inr ⟨l, hl, rfl⟩
  · obtain rfl := List.mem_singleton.mp hl
    exact .inl hnl

theorem nodelinkListAddnew_adds
    {n₀ : Node} {e : NodeEvent} {s : Socket} {a : SockAddr} {q : Option Ptr}
    (h : n.nodelinkListAddnew s a = .ok (m, q)) :
    Adds n₀ e n m ∧ ∀ p, q = some p → p = n.next := by
  rw [Node.nodelinkListAddnew] at h
  split_ifs at h
  · cases h
    have hasked : Adds n₀ e n n.asked.asked := .same rfl rfl rfl
    refine ⟨hasked.trans (addNodelink_adds rfl), ?_⟩
    rintro p ⟨⟩
    rfl
  · cases h
    refine ⟨.same rfl rfl rfl, fun p hp => ?_⟩
    cases hp

theorem nodewaitConnected_adds
    {s : Socket} {a : SockAddr}
    (h : n.nodewaitConnected s a = .ok m) :
    Adds n (.nodewait s a) n m := by
  obtain ⟨⟨k, q⟩, hk, h⟩ := bind_eq_ok.mp h
  obtain ⟨hadds, hnext⟩ := @nodelinkListAddnew_adds n _ n (.nodewait s a) s a q hk
  cases q with
  | none =>
      cases h
      exact hadds
  | some p =>
      obtain ⟨⟨k', b⟩, hpush, h⟩ := bind_eq_ok.mp h
      cases h
      refine hadds.trans (nodelinkWbufPush_adds ?_ hpush)
      rintro q ⟨⟩
      rw [hnext p rfl]
      exact .nodeconnreq s a

theorem processNewconnWrite_adds
    {n₀ : Node} {e : NodeEvent} {write : SslResult}
    (h : n.processNewconnWrite i write = .ok m) :
    Adds n₀ e n m := by
  unfold Node.processNewconnWrite at h
  dsimp only at h
  split at h
  · cases h
    exact .refl
  · exact newconnClose_adds h
  · split_ifs at h
    · obtain ⟨⟨k, q⟩, hk, h⟩ := bind_eq_ok.mp h
      cases q with
      | none =>
          obtain ⟨-, -, h⟩ := bind_eq_ok.mp h
          cases h
      | some q =>
          cases h
          exact (nodelinkListAddnew_adds hk).1.trans (.same rfl rfl rfl)
    · cases h
      exact .same rfl rfl rfl
  · cases h
    exact .refl
  · exact newconnClose_adds h
  · exact newconnClose_adds h
  · cases h
    exact .refl

/-- `INITREQ` makes a client, to whom nothing has been written. -/
theorem procmsgINITREQ_adds
    {n₀ : Node} {e : NodeEvent} {f : Frame} {r : Nat}
    (h : n.procmsgINITREQ i f = .ok (m, r)) :
    Adds n₀ e n m := by
  rw [Node.procmsgINITREQ] at h
  dsimp only at h
  split_ifs at h
  · obtain ⟨⟨k, c⟩, hk, h⟩ := bind_eq_ok.mp h
    have hadds : Adds n₀ e n k := by
      rcases @clientListAddnew_ok _ k i _ c hk with ⟨-, rfl⟩ | ⟨-, cl, rfl, rfl⟩
      · exact .same rfl rfl rfl
      · refine .of_mail (fun d hd => ?_) (fun l hl => .inr ⟨l, hl, rfl⟩) fun _ hl => hl
        rcases List.mem_append.mp hd with hd | hd
        · exact .inr ⟨d, hd, rfl⟩
        · obtain rfl := List.mem_singleton.mp hd
          exact .inl rfl
    cases c with
    | none =>
        cases h
        exact hadds
    | some c =>
        cases h
        exact hadds.trans (.same rfl rfl rfl)
  · cases h
    exact .same rfl rfl rfl

theorem procmsgNODECONNREQ_adds
    {n₀ : Node} {e : NodeEvent} {f : Frame} {r : Nat}
    (h : n.procmsgNODECONNREQ i f = .ok (m, r)) :
    Adds n₀ e n m := by
  rw [Node.procmsgNODECONNREQ] at h
  split_ifs at h
  · cases h
    exact .same rfl rfl rfl
  · cases h
    exact .same rfl rfl rfl

theorem goesOn_setwaitanontlsshutdown
    {n₀ : Node} {e : NodeEvent} {l : CCLink} {s : Socket} :
    GoesOn n₀ e l (l.setwaitanontlsshutdown s) := by
  refine .of_state endpoints_setwaitanontlsshutdown ?_
  rcases @undecided_setwaitanontlsshutdown l s with heq | hdec
  · exact .inl heq
  · exact .inr (.inl hdec)

theorem goesOn_activate {n₀ : Node} {e : NodeEvent} {l : CCLink} : GoesOn n₀ e l l.activate := by
  refine .of_state endpoints_activate ?_
  rcases @undecided_activate l with heq | hdec
  · exact .inl heq
  · exact .inr (.inl hdec)

theorem procmsgCONNID_adds
    {n₀ : Node} {e : NodeEvent} {f : Frame} {r : Nat}
    (h : n.procmsgCONNID i f = .ok (m, r)) :
    Adds n₀ e n m := by
  have htyped : Adds n₀ e n (n.setSlot i fun nc => { nc with type := .c2c }) := .same rfl rfl rfl
  refine htyped.trans ?_
  rw [Node.procmsgCONNID] at h
  split at h
  · cases h
    exact .refl
  · split at h
    · cases h
      exact .refl
    · obtain ⟨c, -, h⟩ := bind_eq_ok.mp h
      split_ifs at h
      · obtain ⟨k, hk, h⟩ := bind_eq_ok.mp h
        cases h
        rw [Node.cclinkSetwaitanontlsshutdown] at hk
        split_ifs at hk
        · cases hk
          refine Adds.trans ?_ (.modifyLink fun x hx _ => ⟨x, hx, goesOn_setwaitanontlsshutdown⟩)
          exact .same rfl rfl rfl
        · cases hk
          refine Adds.trans ?_ (.modifyLink fun x hx _ => ⟨x, hx, goesOn_setwaitanontlsshutdown⟩)
          exact .same rfl rfl rfl
        · refine Adds.trans ?_ (cclinkListDelete_adds hk)
          exact .same rfl rfl rfl
      · cases h
        exact .refl

/-- What the handlers of a new connection leave. -/
theorem processdatastream_adds
    {n₀ : Node} {e : NodeEvent} {fuel pos : Nat} {buf : List UInt8}
    (h : (processdatastream (msginfoNewconn i) fuel buf pos (.ok n)).arg = .ok m) :
    Adds n₀ e n m := by
  induction fuel generalizing n buf pos with
  | zero =>
      cases h
      exact .refl
  | succ fuel ih =>
      have hcall : processmsg buf (msggetsize buf pos (msginfoNewconn i)) (.ok n)
          (msginfoNewconn i) = (.ok n, 0) ∨
          ∃ hd x, processmsg buf (msggetsize buf pos (msginfoNewconn i)) (.ok n)
            (msginfoNewconn i) = handlerFn hd (.ok n) x ∧
              ∀ (k : Node) (r : Nat), hd n x = .ok (k, r) → Adds n₀ e n k := by
        rw [processmsg]
        split_ifs
        · exact .inl rfl
        · simp only [msginfoNewconn, fixedMsg, processmsgScan]
          split_ifs
          · exact .inr ⟨_, _, rfl, fun k r => procmsgINITREQ_adds⟩
          · exact .inr ⟨_, _, rfl, fun k r => procmsgCONNID_adds⟩
          · exact .inr ⟨_, _, rfl, fun k r => procmsgNODECONNREQ_adds⟩
          · exact .inl rfl
      rcases processdatastream_pass (msginfoNewconn i) fuel buf pos (.ok n) with
        harg | ⟨-, -, hr⟩
      · rw [harg] at h
        cases h
        exact .refl
      · rcases hcall with hnone | ⟨hd, x, hcall, hadds⟩
        · rw [hnone] at hr
          obtain ⟨-, harg, -⟩ | ⟨hne, -⟩ := hr
          · rw [harg] at h
            cases h
            exact .refl
          · exact absurd rfl hne
        · rw [hcall] at hr
          cases hres : hd n x with
          | error er =>
              simp only [handlerFn, hres] at hr
              obtain ⟨-, harg, -⟩ | ⟨hne, -⟩ := hr
              · rw [harg] at h
                cases h
              · exact absurd rfl hne
          | ok kr =>
              obtain ⟨k, r⟩ := kr
              simp only [handlerFn, hres] at hr
              obtain ⟨-, harg, -⟩ | ⟨-, harg, -⟩ := hr
              · rw [harg] at h
                cases h
                exact hadds _ r hres
              · rw [harg] at h
                exact (hadds k r hres).trans (ih h)

theorem newconnRequest_adds
    {n₀ : Node} {e : NodeEvent} {io : NewconnResults}
    (h : n.newconnRequest i io = .ok m) :
    Adds n₀ e n m := by
  rw [Node.newconnRequest] at h
  dsimp only at h
  split_ifs at h
  · cases h
    exact .refl
  · exact newconnClose_adds h
  · rw [Node.newconnReceived] at h
    obtain ⟨k, hk, h⟩ := bind_eq_ok.mp h
    have hadds : Adds n₀ e n k := processdatastream_adds hk
    dsimp only at h
    split_ifs at h
    · refine (hadds.trans ?_).trans (newconnClose_adds h)
      exact .same rfl rfl rfl
    · cases h
      exact hadds.trans (.same rfl rfl rfl)

theorem newconnShutdown_adds
    {io : NewconnResults}
    (h : n.newconnShutdown i io.shutdown = .ok m) :
    Adds n (.newconnRead i io) n m := by
  cases hio : io.shutdown with
  | retry =>
      rw [hio] at h
      cases h
      exact .refl
  | fail =>
      rw [hio] at h
      exact newconnClose_adds h
  | done =>
      rw [hio, Node.newconnShutdown] at h
      dsimp only at h
      split_ifs at h with hc2n hc2c
      · obtain ⟨c, -, h⟩ := bind_eq_ok.mp h
        cases h
        have hmod : Adds n (.newconnRead i io) n
            (n.modifyClient c.ptr fun c => { c with state := .tlsNegotiation }) :=
          .modifyClient fun _ => rfl
        exact hmod.trans (.same rfl rfl rfl)
      · obtain ⟨l, hl, h⟩ := bind_eq_ok.mp h
        obtain ⟨k, hk, h⟩ := bind_eq_ok.mp h
        cases h
        obtain ⟨hp, hmem, -⟩ := deref_eq_ok hl
        obtain ⟨⟨k', b⟩, hpush, hk⟩ := bind_eq_ok.mp hk
        have hadds : Adds n (.newconnRead i io) n k' := by
          rw [Node.cclinkSendcleconnected] at hpush
          split at hpush
          · rename_i hst
            refine clientWbufPush_adds (fun q hq => ?_) hpush
            exact .found i io l q hio hp hc2c.2 hmem hst hq
          · rename_i hst
            refine nodelinkWbufPush_adds (fun q hq => ?_) hpush
            exact .n2nallow i io l q hio hp hc2c.2 hmem hst hq
          · cases hpush
            exact .refl
        cases b with
        | true =>
            cases hk
            have hactive : Adds n (.newconnRead i io) k' (k'.modifyLink l.ptr CCLink.activate) :=
              .modifyLink fun x hx _ => ⟨x, hx, goesOn_activate⟩
            exact (hadds.trans hactive).trans (.same rfl rfl rfl)
        | false => cases hk
      · cases h
        exact .refl

theorem processNewconnRead_adds
    {io : NewconnResults}
    (h : n.processNewconnRead i io = .ok m) :
    Adds n (.newconnRead i io) n m := by
  obtain ⟨k, hk, h⟩ := bind_eq_ok.mp h
  have hswitch : Adds n (.newconnRead i io) n k := by
    rw [Node.newconnSwitch] at hk
    split at hk
    · split at hk
      · cases hk
        exact .refl
      · exact newconnClose_adds hk
      · refine Adds.trans ?_ (newconnRequest_adds hk)
        exact .same rfl rfl rfl
    · exact newconnRequest_adds hk
    · exact newconnShutdown_adds hk
    · cases hk
      exact .refl
  split_ifs at h
  · exact hswitch.trans (processNewconnWrite_adds h)
  · cases h
    exact hswitch

theorem processListenRead_adds
    {e : NodeEvent} {s : Socket} {a : SockAddr} {ssl : Bool}
    (h : n.processListenRead s a ssl = .ok m) :
    Adds n e n m := by
  obtain ⟨⟨k, i⟩, hk, h⟩ := bind_eq_ok.mp h
  obtain ⟨⟨k', j⟩, hfind, hk⟩ := bind_eq_ok.mp hk
  cases hk
  have hadds : Adds n e n k' := by
    rw [Node.newconnFind] at hfind
    split_ifs at hfind
    · cases hfind
      exact .refl
    · split at hfind
      · cases hfind
        exact .refl
      · obtain ⟨k'', hclose, hfind⟩ := bind_eq_ok.mp hfind
        cases hfind
        exact newconnClose_adds hclose
  dsimp only at h
  split_ifs at h
  · cases h
    exact hadds.trans (.same rfl rfl rfl)
  · cases h
    exact hadds.trans (.same rfl rfl rfl)

end Others

/-! ## All calls -/

/-- **A call queues nothing but what its event makes the node send.** -/
theorem react_adds
    {n m : Node} {e : NodeEvent}
    (hd : Distinct Client.ptr n.clients) (hlinks : Distinct CCLink.ptr n.cclinks)
    (hen : e.enabled n) (h : react n e = .ok m) :
    Adds n e n m := by
  cases e with
  | clock now =>
      cases h
      exact .same rfl rfl rfl
  | accept s a ssl => exact processListenRead_adds h
  | newconnRead i io => exact processNewconnRead_adds h
  | timeoutNewconn i =>
      rw [react, Node.timeoutNewconn] at h
      split_ifs at h
      · exact newconnClose_adds h
      · cases h
        exact .refl
  | timeoutC2c l =>
      obtain ⟨cc, -, h⟩ := bind_eq_ok.mp h
      split_ifs at h
      · exact cclinkListDelete_adds h
      · cases h
        exact .refl
  | timeoutC2n ci => exact timeoutC2n_adds h
  | timeoutN2n nl => exact timeoutN2n_adds h
  | c2nFrame ci f => exact processC2nFrame_adds hd hlinks hen h
  | c2nConnected ci cert => exact processC2nConnected_adds h
  | c2nClosed ci => exact clientListDelete_adds h
  | n2nFrame nl f => exact processN2nFrame_adds hlinks hen h
  | n2nClosed nl => exact nodelinkListDelete_adds h
  | c2cRead l s d₁ d₂ env => exact processC2cReadLink_adds h
  | c2cWrite l s env => exact processC2cWriteLink_adds h
  | nodewait s a => exact nodewaitConnected_adds h

theorem nodeStep_adds
    {n m : Node} {e : NodeEvent} (hcore : Core n) (h : nodeStep n e = some m) :
    Adds n e n m := by
  obtain ⟨hen, hreact⟩ := nodeStep_eq_some.mp h
  exact react_adds hcore.clientsDistinct hcore.linksDistinct hen hreact

/-- **Every message in a write buffer has its cause.**  What a node has queued for a client
or for another node, in a state that it reaches, was queued by the call for an event that makes
it send this message to this receiver. -/
theorem queued_by_cause
    {a : SockAddr} {b : Bool} {now : Nat} {mem : Nat → Bool} {rnd : Nat → UInt8}
    {verify : Ptr → Frame → Bool} {reached : List ClientEvent → Ptr → Bool}
    {es : List NodeEvent} {n : Node} {r : Receiver} {x : Frame}
    (hrun : run nodeStep (Node.init a b now mem rnd verify reached) es = some n)
    (hx : n.Queued x r) :
    ∃ before e after u, es = before ++ e :: after ∧
      run nodeStep (Node.init a b now mem rnd verify reached) before = some u ∧ Sends u e r x := by
  have hcause : ∀ s e t, Core s → True → nodeStep s e = some t → t.Queued x r →
      s.Queued x r ∨ Sends s e r x :=
    fun s e t hs _ hstep ht => (nodeStep_adds hs hstep).queued r x ht
  rcases run_cause (fun s e t hs _ hstep => nodeStep_core hs hstep) hcause core_init meets_true
    hrun hx with hinit | h
  · cases r with
    | client p => simp [Node.Queued, Node.init] at hinit
    | node p => simp [Node.Queued, Node.init] at hinit
  · exact h

/-- The call of client 1 to client 2. -/
theorem queued_by_cause_call :
    ∃ before e after u, callRequested = before ++ e :: after ∧
      run nodeStep freshNode before = some u ∧
      Sends u e (.client 2) (head Proto.CONNREQINC ++ (Id.ofByte 1).1) := by
  have hrun := @stateAfter_run freshNode callRequested (by decide +kernel)
  have hqueued : ∃ c ∈ (stateAfter freshNode callRequested).clients, c.ptr = 2 ∧
      head Proto.CONNREQINC ++ (Id.ofByte 1).1 ∈ c.pushed := by decide +kernel
  exact queued_by_cause hrun hqueued

end PicaPica
