import PicaPica.Node.InterNode
import PicaPica.Node.Wakeup

/-!
# The end of a link between two nodes

A node that has no link for an `N2NMSG` answers with `N2NNOTFOUND`, which repeats the
identifiers of the sender and of the receiver.  `procmsg_N2NNOTFOUND` takes the first
one for the caller and tells the client `p1`.  The answer takes the link down if the
sender is the caller (`teardown_reaches_sender`); the callee's node looks for a call in
the other direction (`teardown_misses_callee`).
-/

namespace PicaPica

open Table Machine

/-- The message of a node that has no link. -/
def n2nnotfound (i j : Id) : Frame :=
  head Proto.N2NNOTFOUND ++ i.1 ++ j.1

/-- The node has pushed `g` to the node `nl`. -/
def Node.Replies (n n' : Node) (nl : Ptr) (g : Frame) : Prop :=
  ∃ m ∈ n.nodelinks, ∃ m' ∈ n'.nodelinks, m.ptr = nl ∧ m'.ptr = nl ∧ m'.pushed = m.pushed ++ [g]

/-- The link is gone, the others are as they were. -/
structure TornDown (n n' : Node) (L : CCLink) : Prop where
  removed : ∀ l ∈ n'.cclinks, l.ptr ≠ L.ptr
  others : ∀ l, l.ptr ≠ L.ptr → (l ∈ n'.cclinks ↔ l ∈ n.cclinks)

/-- The node has an active link into which a message of `sender` for `receiver` is put. -/
def Node.takes (n : Node) (sender receiver : Id) : Bool :=
  (n.cclinkListSearch sender receiver).any (·.state = .n2nCleActive) ||
    (n.cclinkListSearch receiver sender).any (·.state = .n2nClrActive)

section Message

variable {i j : Id} {rest : List UInt8} {nl : Ptr}

theorem length_n2nnotfound : (n2nnotfound i j).length = 58 := by
  simp [n2nnotfound, idSize]

theorem byteAt_n2nnotfound :
    byteAt (n2nnotfound i j ++ rest) 0 = Proto.N2NNOTFOUND ∧
      byteAt (n2nnotfound i j ++ rest) 1 = Proto.N2NNOTFOUND := by
  constructor <;> simp [n2nnotfound, head, byteAt, Proto.N2NNOTFOUND]

/-- The message is cut out of the stream as it was built, and handed over. -/
theorem frame_n2nnotfound :
    msggetsize (n2nnotfound i j ++ rest) (n2nnotfound i j ++ rest).length (msginfoNode nl) =
        (n2nnotfound i j).length ∧
      ∀ n, processmsg (n2nnotfound i j ++ rest) (n2nnotfound i j).length n (msginfoNode nl) =
        handlerFn (·.procmsgN2NNOTFOUND nl) n (n2nnotfound i j) := by
  obtain ⟨h0, h1⟩ := @byteAt_n2nnotfound i j rest
  have hlong : ¬(n2nnotfound i j ++ rest).length < 2 := by
    rw [List.length_append, length_n2nnotfound]
    omega
  constructor
  · rw [msggetsize, if_neg hlong, if_neg (by simp [h0, h1]), length_n2nnotfound]
    simp [msggetsizeScan, msginfoNode, fixedMsg, varMsg, h0, Proto.INITRESPOK, Proto.VERDIFFER,
      Proto.NEWNODE_IPV4, Proto.NODELISTREQ, Proto.NODELIST, Proto.SEARCH, Proto.N2NFOUND,
      Proto.N2NFOUNDCACHE, Proto.N2NCONNREQOUTG, Proto.N2NALLOW, Proto.N2NNOTFOUND]
  · intro n
    rw [processmsg, if_neg (by simp [h0, h1])]
    simp [processmsgScan, msginfoNode, fixedMsg, varMsg, h0, Proto.INITRESPOK, Proto.VERDIFFER,
      Proto.NEWNODE_IPV4, Proto.NODELISTREQ, Proto.NODELIST, Proto.SEARCH, Proto.N2NFOUND,
      Proto.N2NFOUNDCACHE, Proto.N2NCONNREQOUTG, Proto.N2NALLOW, Proto.N2NNOTFOUND]

theorem idAt_n2nnotfound :
    idAt (n2nnotfound i j) 2 = i ∧ idAt (n2nnotfound i j) (2 + idSize) = j := by
  constructor
  · have := @idAt_append (head Proto.N2NNOTFOUND) j.1 i
    simpa [n2nnotfound] using this
  · have := @idAt_append (head Proto.N2NNOTFOUND ++ i.1) [] j
    simpa [n2nnotfound] using this

end Message

/-! ## The node that answers -/

section Answer

variable {R : Node} {a b : Id} {data : List UInt8} {nl : Ptr} {g : Frame}

theorem not_replies_same
    {R' : Node}
    (hd : Distinct NodeLink.ptr R.nodelinks) (hsame : R'.nodelinks = R.nodelinks) :
    ¬R.Replies R' nl g := by
  rintro ⟨m, hm, m', hm', hptr, hptr', heq⟩
  rw [hsame] at hm'
  rw [hd.eq hm' hm (hptr'.trans hptr.symm)] at heq
  simpa using congrArg List.length heq

/-- Data that is put into a link is not answered. -/
theorem n2nmsgInto_silent
    {R' : Node} {d : Dir} {M : CCLink} {r : Nat}
    (hd : Distinct NodeLink.ptr R.nodelinks)
    (h : R.n2nmsgInto d data M = .ok (R', r)) :
    ¬R.Replies R' nl g := by
  refine not_replies_same hd ?_
  rw [Node.n2nmsgInto] at h
  split at h
  · obtain ⟨k, hk, h⟩ := bind_eq_ok.mp h
    cases h
    obtain ⟨cc, -, -, rfl⟩ := cclinkListDelete_ok hk
    rfl
  · cases h
    rfl

/-- The node after it has answered, if there was memory for the answer. -/
def Node.answered (R : Node) (nl : Ptr) (a b : Id) : Node :=
  if R.mem R.tick then
    R.asked.modifyNodelink nl fun l => { l with pushed := l.pushed ++ [n2nnotfound a b] }
  else R.asked

theorem replies_answered_iff
    (hd : Distinct NodeLink.ptr R.nodelinks) (hnl : R.Linked nl) :
    R.Replies (R.answered nl a b) nl g ↔ R.mem R.tick ∧ g = n2nnotfound a b := by
  obtain ⟨m, hm, rfl⟩ := hnl
  rw [Node.answered]
  split_ifs with hmem
  · simp only [hmem, true_and]
    constructor
    · rintro ⟨x, hx, y, hy, hxp, hyp, heq⟩
      obtain rfl := hd.eq hx hm hxp
      obtain ⟨z, hz, rfl⟩ := mem_modify.mp hy
      split_ifs at hyp heq with hzp
      · obtain rfl := hd.eq hz hm hzp
        simpa using heq.symm
      · exact absurd hyp hzp
    · rintro rfl
      refine ⟨m, hm, _, mem_modify.mpr ⟨m, hm, rfl⟩, rfl, ?_, ?_⟩
      · rw [if_pos rfl]
      · rw [if_pos rfl]
  · exact iff_of_false (not_replies_same hd rfl) fun h => hmem h.1

/-- A message for which there is no link is answered. -/
theorem n2nmsg_notFound
    (hd : Distinct NodeLink.ptr R.nodelinks) (hnl : R.Linked nl) :
    (do
      let (n, _) ← R.nodelinkWbufPush (some nl) (head Proto.N2NNOTFOUND ++ a.1 ++ b.1)
      pure (n, 1) : Except Fault (Node × Nat)) = .ok (R.answered nl a b, 1) := by
  obtain ⟨m, hm, rfl⟩ := hnl
  have hderef : R.derefNodelink (some m.ptr) = .ok m := by
    simp [Node.derefNodelink, deref, hd.lookup hm]
  rw [Node.nodelinkWbufPush, hderef, Node.answered]
  cases R.mem R.tick with
  | true => rfl
  | false => rfl

/-- The two lookups of `procmsg_N2NMSG`. -/
theorem procmsgN2NMSG_cases
    (hd : Distinct NodeLink.ptr R.nodelinks) (hnl : R.Linked nl)
    (hlen : data.length ≤ defaultBufSize) :
    (R.takes a b = false ∧ R.procmsgN2NMSG nl (n2nmsg a b data) = .ok (R.answered nl a b, 1)) ∨
      R.takes a b ∧ ∃ d M, R.procmsgN2NMSG nl (n2nmsg a b data) = R.n2nmsgInto d data M := by
  have hanswer := @n2nmsg_notFound R a b nl hd hnl
  have hback : (R.cclinkListSearch b a).any (·.state = .n2nClrActive) = false ∧
      R.n2nmsgBack nl a b data = .ok (R.answered nl a b, 1) ∨
      (R.cclinkListSearch b a).any (·.state = .n2nClrActive) ∧
        ∃ M, R.n2nmsgBack nl a b data = R.n2nmsgInto .p2p1 data M := by
    simp only [Node.n2nmsgBack]
    cases hs : R.cclinkListSearch b a with
    | none => exact .inl ⟨rfl, hanswer⟩
    | some M =>
        by_cases hst : M.state = .n2nClrActive
        · exact .inr ⟨by simp [hst], M, by simp only [if_pos hst]⟩
        · exact .inl ⟨by simp [hst], by simp only [if_neg hst]; exact hanswer⟩
  rw [procmsgN2NMSG_n2nmsg hlen, Node.takes]
  cases hs : R.cclinkListSearch a b with
  | none =>
      rcases hback with ⟨hno, heq⟩ | ⟨hyes, M, heq⟩
      · exact .inl ⟨by simp [hno], heq⟩
      · exact .inr ⟨by simp [hyes], .p2p1, M, heq⟩
  | some M =>
      dsimp only
      by_cases hst : M.state = .n2nCleActive
      · exact .inr ⟨by simp [hst], .p1p2, M, by rw [if_pos hst]⟩
      · rw [if_neg hst]
        rcases hback with ⟨hno, heq⟩ | ⟨hyes, M', heq⟩
        · exact .inl ⟨by simp [hst, hno], heq⟩
        · exact .inr ⟨by simp [hyes], .p2p1, M', heq⟩

/-- What the other node answers. -/
theorem n2nmsg_replies_iff
    (hd : Distinct NodeLink.ptr R.nodelinks) (hnl : R.Linked nl)
    (hlen : data.length ≤ defaultBufSize) :
    (∃ R', R.procmsgN2NMSG nl (n2nmsg a b data) = .ok (R', 1) ∧ R.Replies R' nl g) ↔
      R.takes a b = false ∧ R.mem R.tick ∧ g = n2nnotfound a b := by
  rcases @procmsgN2NMSG_cases R a b data nl hd hnl hlen with ⟨hno, heq⟩ | ⟨hyes, d, M, heq⟩
  · rw [heq]
    constructor
    · rintro ⟨R', hR', hreply⟩
      cases hR'
      exact ⟨hno, (replies_answered_iff hd hnl).mp hreply⟩
    · rintro ⟨-, hg⟩
      exact ⟨_, rfl, (replies_answered_iff hd hnl).mpr hg⟩
  · rw [heq]
    refine iff_of_false ?_ ?_
    · rintro ⟨R', hR', hreply⟩
      exact n2nmsgInto_silent hd hR' hreply
    · rintro ⟨hno, -⟩
      rw [hyes] at hno
      cases hno

end Answer

/-! ## The node that gets the answer -/

section Answered

variable {S : Node} {L : CCLink} {i j : Id} {nl : Ptr}

theorem procmsgN2NNOTFOUND_n2nnotfound :
    S.procmsgN2NNOTFOUND nl (n2nnotfound i j) =
      match S.cclinkListSearch i j with
      | some cc => do
          let (n, _) ← S.clientWbufPush cc.p1 (head Proto.NOTFOUND ++ j.1)
          let n ← n.cclinkListDelete (some cc.ptr)
          pure (n, 1)
      | none => pure (S, 1) := by
  obtain ⟨hi, hj⟩ := @idAt_n2nnotfound i j
  rewrite [Node.procmsgN2NNOTFOUND, hi, hj]
  rfl

theorem clientWbufPush_succeeds
    {c : Client} {f : Frame}
    (hd : Distinct Client.ptr S.clients) (hc : c ∈ S.clients) :
    ∃ k ok, S.clientWbufPush (some c.ptr) f = .ok (k, ok) := by
  have hderef : S.derefClient (some c.ptr) = .ok c := by
    simp [Node.derefClient, deref, hd.lookup hc]
  rw [Node.clientWbufPush, hderef]
  cases S.mem S.tick with
  | true => exact ⟨_, true, rfl⟩
  | false => exact ⟨_, false, rfl⟩

/-- The link that is found is deleted. -/
theorem tornDown_dropLink
    {S' : Node} {cc : CCLink}
    (hd : Distinct CCLink.ptr S.cclinks) (hL : L ∈ S.cclinks) (hcc : cc ∈ S.cclinks)
    (hS' : S'.cclinks = (S.dropLink cc).cclinks) :
    TornDown S S' L ↔ cc = L := by
  constructor
  · intro h
    by_contra hne
    have hptr : L.ptr ≠ cc.ptr := fun hp => hne (hd.eq hcc hL hp.symm)
    exact h.removed L (hS' ▸ mem_remove.mpr ⟨hL, hptr⟩) rfl
  · rintro rfl
    refine ⟨fun l hl => ?_, fun l hne => ?_⟩
    · rw [hS'] at hl
      exact (mem_remove.mp hl).2
    · rw [hS']
      exact ⟨fun hl => (mem_remove.mp hl).1, fun hl => mem_remove.mpr ⟨hl, hne⟩⟩

theorem n2nnotfound_tearsDown_iff
    (hcore : Core S) (hL : L ∈ S.cclinks) :
    (∃ S', S.procmsgN2NNOTFOUND nl (n2nnotfound i j) = .ok (S', 1) ∧ TornDown S S' L) ↔
      S.cclinkListSearch i j = some L ∧ L.p1 ≠ none := by
  rw [procmsgN2NNOTFOUND_n2nnotfound]
  cases hs : S.cclinkListSearch i j with
  | none =>
      refine iff_of_false ?_ nofun
      rintro ⟨S', hS', htorn⟩
      cases hS'
      exact htorn.removed L hL rfl
  | some cc =>
      have hcc := (cclinkListSearch_spec hs).1
      simp only [Option.some.injEq]
      constructor
      · rintro ⟨S', hS', htorn⟩
        obtain ⟨⟨k, ok⟩, hpush, hS'⟩ := bind_eq_ok.mp hS'
        obtain ⟨k', hdel, hS'⟩ := bind_eq_ok.mp hS'
        cases hS'
        obtain ⟨c, hc, hp1, -⟩ := clientWbufPush_ok hpush
        obtain ⟨x, hx, hxp, rfl⟩ := cclinkListDelete_ok hdel
        have hlinks := (clientWbufPush_frame hpush).1
        rw [hlinks] at hx
        obtain rfl := hcore.linksDistinct.eq hx hcc (Option.some.inj hxp).symm
        have hdrop : (k.dropLink x).cclinks = (S.dropLink x).cclinks := by
          rw [Node.dropLink, Node.dropLink, hlinks]
        obtain rfl := (tornDown_dropLink hcore.linksDistinct hL hcc hdrop).mp htorn
        exact ⟨rfl, by simp [hp1]⟩
      · rintro ⟨rfl, hp1⟩
        obtain ⟨p, hp⟩ := Option.ne_none_iff_exists'.mp hp1
        obtain ⟨c, hc, rfl, -⟩ := (hcore.ends cc hcc).p1 p hp
        obtain ⟨k, ok, hpush⟩ :=
          @clientWbufPush_succeeds S c (head Proto.NOTFOUND ++ j.1) hcore.clientsDistinct hc
        have hlinks := (clientWbufPush_frame hpush).1
        have hderef : k.derefLink (some cc.ptr) = .ok cc := by
          simp [Node.derefLink, deref, hlinks, hcore.linksDistinct.lookup hcc]
        have hdel : k.cclinkListDelete (some cc.ptr) = .ok (k.dropLink cc) := by
          rw [Node.cclinkListDelete, hderef]
          rfl
        refine ⟨k.dropLink cc, ?_, ?_⟩
        · rw [hp]
          exact bind_eq_ok.mpr ⟨_, hpush, bind_eq_ok.mpr ⟨_, hdel, rfl⟩⟩
        · refine (tornDown_dropLink hcore.linksDistinct hL hcc ?_).mpr rfl
          rw [Node.dropLink, Node.dropLink, hlinks]

end Answered

/-! ## Both nodes -/

/-- The other node answers the message `f`, and the answer takes the link down. -/
def TeardownReaches (S R : Node) (L : CCLink) (toR toS : Ptr) (f rest rest' : List UInt8) : Prop :=
  ∃ R' g, processmsg (f ++ rest) f.length (.ok R) (msginfoNode toS) = (.ok R', 1) ∧
    R.Replies R' toS g ∧
    msggetsize (g ++ rest') (g ++ rest').length (msginfoNode toR) = g.length ∧
    byteAt g 0 = Proto.N2NNOTFOUND ∧
    ∃ S', processmsg (g ++ rest') g.length (.ok S) (msginfoNode toR) = (.ok S', 1) ∧
      TornDown S S' L

section Both

variable {S R : Node} {L : CCLink} {d : Dir} {toR toS : Ptr} {data rest rest' : List UInt8}

theorem handlerFn_eq_ok
    {h : Node → Frame → Except Fault (Node × Nat)} {n n' : Node} {f : Frame} {r : Nat} :
    handlerFn h (.ok n) f = (.ok n', r) ↔ h n f = .ok (n', r) := by
  constructor
  · intro heq
    have hok := handlerFn_ok (congrArg Prod.fst heq)
    rwa [congrArg Prod.snd heq] at hok
  · intro heq
    rw [handlerFn, heq]

theorem teardownReaches_iff
    (hS : Core S) (hR : Distinct NodeLink.ptr R.nodelinks) (hL : L ∈ S.cclinks)
    (hlinked : R.Linked toS) (hlen : data.length ≤ defaultBufSize) {a b : Id} :
    TeardownReaches S R L toR toS (n2nmsg a b data) rest rest' ↔
      (R.takes a b = false ∧ R.mem R.tick) ∧ S.cclinkListSearch a b = some L ∧ L.p1 ≠ none := by
  have hcall := (@frame_n2nmsg a b data rest toS hlen).2
  obtain ⟨hsize, hback⟩ := @frame_n2nnotfound a b rest' toR
  constructor
  · rintro ⟨R', g, hR', hreply, -, -, S', hS', htorn⟩
    rw [hcall, handlerFn_eq_ok] at hR'
    obtain ⟨hno, hmem, rfl⟩ := (n2nmsg_replies_iff hR hlinked hlen).mp ⟨R', hR', hreply⟩
    rw [hback, handlerFn_eq_ok] at hS'
    exact ⟨⟨hno, hmem⟩, (n2nnotfound_tearsDown_iff hS hL).mp ⟨S', hS', htorn⟩⟩
  · rintro ⟨⟨hno, hmem⟩, hfound⟩
    obtain ⟨R', hR', hreply⟩ := (n2nmsg_replies_iff hR hlinked hlen).mpr ⟨hno, hmem, rfl⟩
    obtain ⟨S', hS', htorn⟩ := (@n2nnotfound_tearsDown_iff S L a b toR hS hL).mpr hfound
    have hbyte : byteAt (n2nnotfound a b) 0 = Proto.N2NNOTFOUND := by
      simpa using (@byteAt_n2nnotfound a b []).1
    refine ⟨R', n2nnotfound a b, ?_, hreply, hsize, hbyte, S', ?_, htorn⟩
    · rw [hcall, handlerFn_eq_ok]
      exact hR'
    · rw [hback, handlerFn_eq_ok]
      exact hS'

/-- The caller's message is taken by a call in the other direction only. -/
theorem takes_caller
    (hgone : ∀ M ∈ R.cclinks, ¬Mirrored .p1p2 L M) (hst : L.state = remoteState .p1p2) :
    R.takes L.callerId L.calleeId =
      (R.cclinkListSearch L.calleeId L.callerId).any (·.state = .n2nClrActive) := by
  rw [Node.takes]
  cases hs : R.cclinkListSearch L.callerId L.calleeId with
  | none => simp
  | some M =>
      obtain ⟨hM, hcaller, hcallee⟩ := cclinkListSearch_spec hs
      have hne : M.state ≠ .n2nCleActive := by
        intro hact
        exact hgone M hM ⟨hst, by rw [hact]; rfl, hcaller, hcallee⟩
      simp [hne]

end Both

/-- **A link that is gone on the other node** is taken down by the answer to the next
`N2NMSG` if and only if the node that has sent it is the caller's, finds this link first
among those of the two clients, and the other node has memory for the answer and no
active call in the other direction that takes the message. -/
theorem teardown_reaches_sender
    {S R : Node} {L : CCLink} {d : Dir} {payload rest rest' : List UInt8} {env : WriteEnv}
    {toR toS : Ptr}
    (hS : Reachable S) (hR : Reachable R) (hL : L ∈ S.cclinks) (hact : L.state = remoteState d)
    (hlinked : ∃ m ∈ R.nodelinks, m.ptr = toS) (hgone : ∀ M ∈ R.cclinks, ¬Mirrored d L M)
    (hne : payload ≠ []) (hlen : payload.length ≤ 4096) (hmem : env.memFor d) :
    ∃ f, (processC2cRead (L.srcSck d) payload payload env L).pushed = [(L.dstNode d, f)] ∧
      msggetsize (f ++ rest) (f ++ rest).length (msginfoNode toS) = f.length ∧
      (TeardownReaches S R L toR toS f rest rest' ↔
        d = .p1p2 ∧ S.cclinkListSearch L.callerId L.calleeId = some L ∧ R.mem R.tick ∧
          (R.cclinkListSearch L.calleeId L.callerId).any (·.state = .n2nClrActive) = false) := by
  have hidle := (hS.prepared L hL).remote d hact
  refine ⟨n2nmsg (L.senderId d) (L.receiverId d) payload,
    processC2cRead_pushed hact hidle hne hlen hmem, (frame_n2nmsg hlen).1, ?_⟩
  rw [teardownReaches_iff hS.core hR.core.nodelinksDistinct hL hlinked hlen]
  have hshape := hS.core.shape L hL
  cases d with
  | p1p2 =>
      have hp1 : L.p1 ≠ none := by
        rw [Ne, hshape.p1, hact]
        nofun
      simp only [CCLink.senderId, CCLink.receiverId, takes_caller hgone hact]
      tauto
  | p2p1 =>
      -- the callee's node has no client `p1` to tell
      have hp1 : L.p1 = none := hshape.p1.mpr (by rw [hact]; rfl)
      simp [hp1]

/-- A node that knows one other node and nothing else. -/
def lonelyNode : List NodeEvent :=
  [.nodewait 20 ⟨0x08080808, 2299⟩]

/-- The node of the caller, with its half of the link. -/
def callerHalf : List NodeEvent :=
  clientLogin 10 0 1 (.ofByte 1) ++ [.nodewait 20 ⟨0x08080808, 2299⟩] ++
    callOut 1 2 (.ofByte 1) (.ofByte 2) 1

theorem teardown_reaches_sender_caller :
    ∃ L ∈ (stateAfter freshNode callerHalf).cclinks, L.state = .n2nClrActive ∧
      ∃ f, TeardownReaches (stateAfter freshNode callerHalf) (stateAfter freshNode lonelyNode)
        L 2 1 f [] [] := by
  obtain ⟨L, hL, hst⟩ : ∃ L ∈ (stateAfter freshNode callerHalf).cclinks,
      L.state = .n2nClrActive := by decide +kernel
  have hS := @stateAfter_reachable callerHalf (by decide +kernel)
  have hsearch := (Node.OnePerPair.of_ptr hS.core.linksDistinct (by decide +kernel)).search hL
  have hnone : (stateAfter freshNode lonelyNode).cclinks = [] := by decide +kernel
  have hlinked : ∃ m ∈ (stateAfter freshNode lonelyNode).nodelinks, m.ptr = 1 := by
    decide +kernel
  obtain ⟨f, -, -, hiff⟩ := @teardown_reaches_sender _ _ L .p1p2 [1, 2, 3] [] [] relayEnv 2 1
    hS (stateAfter_reachable (by decide +kernel)) hL hst hlinked (by simp [hnone]) (by decide) (by decide) rfl
  refine ⟨L, hL, hst, f, hiff.mpr ⟨rfl, hsearch, by decide +kernel, ?_⟩⟩
  simp [Node.cclinkListSearch, hnone]

/-- The callee sends on a link whose other half is gone: the answer changes nothing. -/
theorem teardown_misses_callee :
    ∃ S R, Reachable S ∧ Reachable R ∧ ∃ L ∈ S.cclinks, L.state = remoteState .p2p1 ∧
      (∃ m ∈ R.nodelinks, m.ptr = 1) ∧ (∀ M ∈ R.cclinks, ¬Mirrored .p2p1 L M) ∧
      ∃ f, (processC2cRead L.sckP2 [1, 2, 3] [1, 2, 3] relayEnv L).pushed = [(L.callerNode, f)] ∧
        ¬TeardownReaches S R L 2 1 f [] [] := by
  refine ⟨stateAfter freshNode calledFromNode, stateAfter freshNode lonelyNode,
    stateAfter_reachable (by decide +kernel), stateAfter_reachable (by decide +kernel), ?_⟩
  obtain ⟨L, hL, hst, hsearch⟩ : ∃ L ∈ (stateAfter freshNode calledFromNode).cclinks,
      L.state = .n2nCleActive ∧ (stateAfter freshNode calledFromNode).cclinkListSearch L.calleeId
        L.callerId = none := by
    decide +kernel
  have hnone : (stateAfter freshNode lonelyNode).cclinks = [] := by decide +kernel
  have hlinked : ∃ m ∈ (stateAfter freshNode lonelyNode).nodelinks, m.ptr = 1 := by
    decide +kernel
  have hS := @stateAfter_reachable calledFromNode (by decide +kernel)
  have hR := @stateAfter_reachable lonelyNode (by decide +kernel)
  have hidle := (hS.prepared L hL).remote .p2p1 hst
  refine ⟨L, hL, hst, hlinked, by simp [hnone], _,
    processC2cRead_pushed hst hidle (by decide) (by decide) rfl, ?_⟩
  rw [teardownReaches_iff hS.core hR.core.nodelinksDistinct hL hlinked (by decide)]
  rintro ⟨-, hfound, -⟩
  rw [CCLink.senderId, CCLink.receiverId, hsearch] at hfound
  cases hfound

end PicaPica
