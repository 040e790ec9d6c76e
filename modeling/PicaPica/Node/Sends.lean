import PicaPica.Node.Consent
import PicaPica.Node.ClientRecord
import PicaPica.Node.Multilogin

/-!
# What makes a node send

Every message that a node queues for a client or for another node is queued by one of
the handlers.  `Sends n e r x` tells, from the state `n` before the call for the event
`e`, what can be queued and for whom: one case for each call of `client_wbuf_push` and
`nodelink_wbuf_push` and for the `N2NMSG` of `process_c2c_write`, with everything the
source has checked when it gets there.

`Makes` and `Decides` tell in the same way which links a call makes and which links it takes
past the callee's decision.

`Adds n₀ e n m` says that the change from `n` to `m` is within this, for the call for `e` that
was begun on `n₀`; the operations on the lists keep to it here, the handlers in
`Node/HandlerSends.lean`.
-/

namespace PicaPica

open Table Machine

/-- Whose write buffer a message is put into. -/
inductive Receiver
  | client (p : Ptr)
  | node (p : Ptr)
deriving DecidableEq

/-- The message is in the write buffer. -/
def Node.Queued (n : Node) (x : Frame) : Receiver → Prop
  | .client p => ∃ c ∈ n.clients, c.ptr = p ∧ x ∈ c.pushed
  | .node p => ∃ m ∈ n.nodelinks, m.ptr = p ∧ x ∈ m.pushed

/-- What the call for an event can put into a write buffer, and when. -/
inductive Sends (n : Node) : NodeEvent → Receiver → Frame → Prop
  -- messages of clients
  | connreqinc (ci : Ptr) (f : Frame) (i : Id) (o : Client) :
      byteAt f 0 = Proto.CONNREQOUTG → n.Primary ci i →
      n.clientTreeSearch (idAt f 2) = some o → i ≠ idAt f 2 →
      n.cclinkListSearch i (idAt f 2) = none →
      Sends n (.c2nFrame ci f) (.client o.ptr) (head Proto.CONNREQINC ++ i.1)
  | search (ci nl : Ptr) (f : Frame) (i : Id) :
      byteAt f 0 = Proto.CONNREQOUTG → n.Primary ci i → n.clientTreeSearch (idAt f 2) = none →
      n.cclinkListFindwaitsearch (idAt f 2) = none → n.Linked nl →
      Sends n (.c2nFrame ci f) (.node nl) (head Proto.SEARCH ++ (idAt f 2).1)
  | notfound (ci : Ptr) (f : Frame) (i : Id) :
      byteAt f 0 = Proto.CONNREQOUTG → n.Primary ci i → n.clientTreeSearch (idAt f 2) = none →
      n.cclinkListFindwaitsearch (idAt f 2) = none → n.nodelinks = [] →
      Sends n (.c2nFrame ci f) (.client ci) (head Proto.NOTFOUND ++ (idAt f 2).1)
  | denied (ci p : Ptr) (f : Frame) (i : Id) (l : CCLink) :
      byteAt f 0 = Proto.CONNDENY → n.Primary ci i →
      n.cclinkListSearch (idAt f 2) i = some l → l.state = .localWaitRep → l.p1 = some p →
      Sends n (.c2nFrame ci f) (.client p) (head Proto.NOTFOUND ++ i.1)
  | deniedRemote (ci q : Ptr) (f : Frame) (i : Id) (l : CCLink) :
      byteAt f 0 = Proto.CONNDENY → n.Primary ci i →
      n.cclinkListSearch (idAt f 2) i = some l → l.state = .n2nCleWaitRep →
      l.callerNode = some q →
      Sends n (.c2nFrame ci f) (.node q) (head Proto.N2NNOTFOUND ++ (idAt f 2).1 ++ i.1)
  | clientPingrep (ci : Ptr) (f : Frame) (a b : UInt8) :
      byteAt f 0 = Proto.PINGREQ →
      Sends n (.c2nFrame ci f) (.client ci) (head Proto.PINGREP ++ [a, b])
  | multilogin (me d : Client) (f : Frame) :
      isMultilogin f → me ∈ n.clients → me.state.early = false → d ∈ n.clients →
      d.id = me.id → d.ptr ≠ me.ptr →
      Sends n (.c2nFrame me.ptr f) (.client d.ptr) f
  | multiloginNodes (me : Client) (nl : Ptr) (f : Frame) :
      isMultilogin f → me ∈ n.clients → me.state.early = false → n.Linked nl →
      Sends n (.c2nFrame me.ptr f) (.node nl) f
  | clnodelist (ci : Ptr) (f : Frame) (items : List UInt8) :
      byteAt f 0 = Proto.CLNODELISTREQ →
      Node.nodelistScan none n.nodelinks (Node.nodelistItem n.myAddr) = .ok items →
      Sends n (.c2nFrame ci f) (.client ci) (head Proto.CLNODELIST ++ le16 items.length ++ items)
  -- messages of nodes
  | newnode (nl : Ptr) (f : Frame) :
      byteAt f 0 = Proto.INITRESPOK → byteAt f 2 = 79 → byteAt f 3 = 75 →
      Sends n (.n2nFrame nl f) (.node nl) (head Proto.NEWNODE_IPV4 ++ addrBytes n.myAddr)
  | nodelistreq (nl : Ptr) (f : Frame) (a b : UInt8) :
      byteAt f 0 = Proto.INITRESPOK → byteAt f 2 = 79 → byteAt f 3 = 75 →
      Sends n (.n2nFrame nl f) (.node nl) (head Proto.NODELISTREQ ++ [a, b])
  | nodelist (m : NodeLink) (f : Frame) (items : List UInt8) :
      byteAt f 0 = Proto.NODELISTREQ → m ∈ n.nodelinks →
      Node.nodelistScan (some m) n.nodelinks (Node.nodelistItem n.myAddr) = .ok items →
      Sends n (.n2nFrame m.ptr f) (.node m.ptr)
        (head Proto.NODELIST ++ le16 items.length ++ items)
  | n2nfound (nl : Ptr) (f : Frame) (c : Client) :
      byteAt f 0 = Proto.SEARCH → n.clientTreeSearch (idAt f 2) = some c →
      Sends n (.n2nFrame nl f) (.node nl) (head Proto.N2NFOUND ++ (idAt f 2).1)
  | n2nconnreqoutg (nl : Ptr) (f : Frame) (l : CCLink) :
      byteAt f 0 = Proto.N2NFOUND ∨ byteAt f 0 = Proto.N2NFOUNDCACHE → l ∈ n.cclinks →
      l.state = .n2nClrWaitSearch → l.calleeId = idAt f 2 →
      Sends n (.n2nFrame nl f) (.node nl)
        (head Proto.N2NCONNREQOUTG ++ l.callerId.1 ++ l.calleeId.1)
  | connreqincRemote (nl : Ptr) (f : Frame) (c : Client) :
      byteAt f 0 = Proto.N2NCONNREQOUTG → n.clientTreeSearch (idAt f (2 + idSize)) = some c →
      Sends n (.n2nFrame nl f) (.client c.ptr) (head Proto.CONNREQINC ++ (idAt f 2).1)
  | n2nnotfound (nl : Ptr) (f : Frame) :
      byteAt f 0 = Proto.N2NCONNREQOUTG → n.clientTreeSearch (idAt f (2 + idSize)) = none →
      Sends n (.n2nFrame nl f) (.node nl)
        (head Proto.N2NNOTFOUND ++ (idAt f 2).1 ++ (idAt f (2 + idSize)).1)
  | foundRemote (nl p : Ptr) (f : Frame) (l : CCLink) :
      byteAt f 0 = Proto.N2NALLOW →
      n.cclinkListSearch (idAt f 2) (idAt f (2 + idSize)) = some l → l.p1 = some p →
      Sends n (.n2nFrame nl f) (.client p) (head Proto.FOUND ++ (idAt f (2 + idSize)).1)
  | notfoundRemote (nl p : Ptr) (f : Frame) (l : CCLink) :
      byteAt f 0 = Proto.N2NNOTFOUND →
      n.cclinkListSearch (idAt f 2) (idAt f (2 + idSize)) = some l → l.p1 = some p →
      Sends n (.n2nFrame nl f) (.client p) (head Proto.NOTFOUND ++ (idAt f (2 + idSize)).1)
  | n2nmsgLost (nl : Ptr) (f : Frame) :
      byteAt f 0 = Proto.N2NMSG →
      (∀ l, n.cclinkListSearch (idAt f 4) (idAt f (4 + idSize)) = some l →
        l.state ≠ .n2nCleActive) →
      (∀ l, n.cclinkListSearch (idAt f (4 + idSize)) (idAt f 4) = some l →
        l.state ≠ .n2nClrActive) →
      Sends n (.n2nFrame nl f) (.node nl)
        (head Proto.N2NNOTFOUND ++ (idAt f 4).1 ++ (idAt f (4 + idSize)).1)
  | nodePingrep (nl : Ptr) (f : Frame) (a b : UInt8) :
      byteAt f 0 = Proto.PINGREQ →
      Sends n (.n2nFrame nl f) (.node nl) (head Proto.PINGREP ++ [a, b])
  | multiloginNode (nl : Ptr) (f : Frame) (c d : Client) :
      byteAt f 0 = Proto.MULTILOGIN → c ∈ n.clients → c.state = .connected → n.verify c.ptr f →
      d ∈ n.clients → d.id = c.id →
      Sends n (.n2nFrame nl f) (.client d.ptr) f
  -- other calls
  | found (i : Nat) (io : NewconnResults) (l : CCLink) (p : Ptr) :
      io.shutdown = .done → (n.slot i).iconn = some l.ptr → (n.slot i).type = .c2c →
      l ∈ n.cclinks → l.state = .localWaitConnCleAnonTlsShutdown → l.p1 = some p →
      Sends n (.newconnRead i io) (.client p) (head Proto.FOUND ++ l.calleeId.1)
  | n2nallow (i : Nat) (io : NewconnResults) (l : CCLink) (q : Ptr) :
      io.shutdown = .done → (n.slot i).iconn = some l.ptr → (n.slot i).type = .c2c →
      l ∈ n.cclinks → l.state = .n2nCleWaitConnCleAnonTlsShutdown → l.callerNode = some q →
      Sends n (.newconnRead i io) (.node q) (head Proto.N2NALLOW ++ l.callerId.1 ++ l.calleeId.1)
  | clientPingreq (c : Client) (a b : UInt8) :
      c ∈ n.clients → c.disconnectTicking = false → c.tmst + 60 < n.now →
      Sends n (.timeoutC2n c.ptr) (.client c.ptr) (head Proto.PINGREQ ++ [a, b])
  | nodePingreq (m : NodeLink) (a b : UInt8) :
      m ∈ n.nodelinks → m.disconnectTicking = false → m.tmst + 60 < n.now →
      Sends n (.timeoutN2n m.ptr) (.node m.ptr) (head Proto.PINGREQ ++ [a, b])
  | n2nmsg (e : NodeEvent) (l : CCLink) (d : Dir) (q : Ptr) (data : List UInt8) :
      (∃ s env, (∃ data₁ data₂, e = .c2cRead l.ptr s data₁ data₂ env) ∨
        e = .c2cWrite l.ptr s env) →
      l ∈ n.cclinks → l.state = remoteState d → l.dstNode d = some q →
      data.length ≤ Proto.N2NMSG_MAXDATASIZE →
      Sends n e (.node q) (PicaPica.n2nmsg (l.senderId d) (l.receiverId d) data)
  | nodeconnreq (s : Socket) (a : SockAddr) :
      Sends n (.nodewait s a) (.node n.next) (head Proto.NODECONNREQ ++
        [UInt8.ofNat Proto.VER_HIGH, UInt8.ofNat Proto.VER_LOW])

/-- The ends of a link that the call for an event makes. -/
inductive Makes (n : Node) : NodeEvent → CCLink → Prop
  | localLink (ci : Ptr) (f : Frame) (i : Id) (o : Client) (l : CCLink) :
      byteAt f 0 = Proto.CONNREQOUTG → n.Primary ci i →
      n.clientTreeSearch (idAt f 2) = some o → i ≠ idAt f 2 →
      n.cclinkListSearch i (idAt f 2) = none →
      l.p1 = some ci → l.p2 = some o.ptr → l.callerId = i → l.calleeId = idAt f 2 →
      Makes n (.c2nFrame ci f) l
  | callerSide (ci : Ptr) (f : Frame) (i : Id) (l : CCLink) :
      byteAt f 0 = Proto.CONNREQOUTG → n.Primary ci i → n.clientTreeSearch (idAt f 2) = none →
      l.p1 = some ci → l.p2 = none → l.callerId = i → l.calleeId = idAt f 2 →
      Makes n (.c2nFrame ci f) l
  | calleeSide (nl : Ptr) (f : Frame) (o : Client) (l : CCLink) :
      byteAt f 0 = Proto.N2NCONNREQOUTG → n.clientTreeSearch (idAt f (2 + idSize)) = some o →
      l.p1 = none → l.p2 = some o.ptr → l.callerNode = some nl →
      l.callerId = idAt f 2 → l.calleeId = idAt f (2 + idSize) →
      Makes n (.n2nFrame nl f) l

/-- The call for an event takes links of a caller and a callee past the callee's decision. -/
inductive Decides (n : Node) : NodeEvent → Id → Id → Prop
  | connallow (ci : Ptr) (f : Frame) (i : Id) (l : CCLink) :
      byteAt f 0 = Proto.CONNALLOW → n.Primary ci i →
      n.cclinkListSearch (idAt f 2) i = some l →
      l.state = .localWaitRep ∨ l.state = .n2nCleWaitRep →
      Decides n (.c2nFrame ci f) (idAt f 2) i
  | n2nallow (nl : Ptr) (f : Frame) :
      byteAt f 0 = Proto.N2NALLOW →
      Decides n (.n2nFrame nl f) (idAt f 2) (idAt f (2 + idSize))

/-- What the link `l₀` has become. -/
structure GoesOn (n₀ : Node) (e : NodeEvent) (l₀ l : CCLink) : Prop where
  same : l₀.SameEndpoints l
  decided : l.state.undecided = false →
    l₀.state.undecided = false ∨ Decides n₀ e l₀.callerId l₀.calleeId

/-- Between `n` and `m` nothing was queued, no link was made and none was decided but as the
call for `e`, begun on `n₀`, can do it. -/
structure Adds (n₀ : Node) (e : NodeEvent) (n m : Node) : Prop where
  queued : ∀ r x, m.Queued x r → n.Queued x r ∨ Sends n₀ e r x
  links : ∀ l ∈ m.cclinks, (∃ l₀ ∈ n.cclinks, GoesOn n₀ e l₀ l) ∨
    Makes n₀ e l ∧ (l.state.undecided = false → Decides n₀ e l.callerId l.calleeId)

section Lists

variable {n₀ n m k : Node} {e : NodeEvent} {l₀ l l' : CCLink}

theorem GoesOn.refl : GoesOn n₀ e l l :=
  ⟨⟨rfl, rfl, rfl, rfl, rfl, rfl⟩, .inl⟩

theorem GoesOn.trans (h : GoesOn n₀ e l₀ l) (h' : GoesOn n₀ e l l') : GoesOn n₀ e l₀ l' := by
  refine ⟨h.same.trans h'.same, fun hdec => ?_⟩
  rcases h'.decided hdec with hdec | hby
  · exact h.decided hdec
  · rw [h.same.callerId, h.same.calleeId] at hby
    exact .inr hby

/-- The state does not pass the decision. -/
theorem GoesOn.of_state
    (hsame : l.SameEndpoints l')
    (hst : l'.state = l.state ∨ l.state.undecided = false ∧ l'.state.undecided = false ∨
      l'.state.undecided) :
    GoesOn n₀ e l l' := by
  refine ⟨hsame, fun hdec => .inl ?_⟩
  rcases hst with heq | ⟨hold, -⟩ | hun
  · rwa [← heq]
  · exact hold
  · simp [hdec] at hun

theorem GoesOn.of_core (h : l'.core = l.core) : GoesOn n₀ e l l' :=
  .of_state (endpoints_of_core h) (.inl (state_of_core h))

theorem Makes.goesOn (h : Makes n₀ e l) (hsame : l.SameEndpoints l') : Makes n₀ e l' := by
  obtain ⟨-, hp1, hp2, hcaller, hcallee, hnode⟩ := hsame
  cases h with
  | localLink ci f i o _ hk hprim hs hne hno h1 h2 hclr hcle =>
      exact .localLink ci f i o l' hk hprim hs hne hno (hp1.trans h1) (hp2.trans h2)
        (hcaller.trans hclr) (hcallee.trans hcle)
  | callerSide ci f i _ hk hprim hs h1 h2 hclr hcle =>
      exact .callerSide ci f i l' hk hprim hs (hp1.trans h1) (hp2.trans h2)
        (hcaller.trans hclr) (hcallee.trans hcle)
  | calleeSide nl f o _ hk hs h1 h2 hnl hclr hcle =>
      exact .calleeSide nl f o l' hk hs (hp1.trans h1) (hp2.trans h2) (hnode.trans hnl)
        (hcaller.trans hclr) (hcallee.trans hcle)

theorem Adds.refl : Adds n₀ e n n :=
  ⟨fun _ _ => .inl, fun l hl => .inl ⟨l, hl, .refl⟩⟩

theorem Adds.trans (h : Adds n₀ e n m) (h' : Adds n₀ e m k) : Adds n₀ e n k := by
  constructor
  · intro r x hx
    rcases h'.queued r x hx with hx | hs
    · exact h.queued r x hx
    · exact .inr hs
  · intro l' hl'
    rcases h'.links l' hl' with ⟨l, hl, hgo⟩ | hnew
    · rcases h.links l hl with ⟨l₀, hl₀, hgo₀⟩ | ⟨hmakes, hun⟩
      · exact .inl ⟨l₀, hl₀, hgo₀.trans hgo⟩
      · refine .inr ⟨hmakes.goesOn hgo.same, fun hdec => ?_⟩
        rw [hgo.same.callerId, hgo.same.calleeId]
        rcases hgo.decided hdec with hdec | hby
        · exact hun hdec
        · exact hby
    · exact .inr hnew

/-- Address and messages of a node's record. -/
def NodeLink.mail (m : NodeLink) : Ptr × List Frame :=
  (m.ptr, m.pushed)

/-- What is left of the write buffers and of the links was there before. -/
theorem Adds.of_mail
    (hc : ∀ c' ∈ m.clients, c'.pushed = [] ∨ ∃ c ∈ n.clients, c.mail = c'.mail)
    (hm : ∀ l' ∈ m.nodelinks, l'.pushed = [] ∨ ∃ l ∈ n.nodelinks, l.mail = l'.mail)
    (hl : ∀ l ∈ m.cclinks, l ∈ n.cclinks) :
    Adds n₀ e n m := by
  refine ⟨fun r x hx => ?_, fun l hmem => .inl ⟨l, hl l hmem, .refl⟩⟩
  cases r with
  | client p =>
      obtain ⟨c', hc', rfl, hx⟩ := hx
      rcases hc c' hc' with hnil | ⟨c, hc, hsame⟩
      · simp [hnil] at hx
      · simp only [Client.mail, Prod.mk.injEq] at hsame
        exact .inl ⟨c, hc, hsame.1, hsame.2 ▸ hx⟩
  | node p =>
      obtain ⟨l', hl', rfl, hx⟩ := hx
      rcases hm l' hl' with hnil | ⟨l, hl, hsame⟩
      · simp [hnil] at hx
      · simp only [NodeLink.mail, Prod.mk.injEq] at hsame
        exact .inl ⟨l, hl, hsame.1, hsame.2 ▸ hx⟩

/-- The lists are as before. -/
theorem Adds.same
    (hc : m.clients = n.clients) (hm : m.nodelinks = n.nodelinks) (hl : m.cclinks = n.cclinks) :
    Adds n₀ e n m :=
  .of_mail (mail_refl hc) (fun l hmem => .inr ⟨l, hm ▸ hmem, rfl⟩) fun _ hmem => hl ▸ hmem

theorem Adds.modifyClient
    {p : Ptr} {g : Client → Client} (hg : ∀ c, (g c).mail = c.mail) :
    Adds n₀ e n (n.modifyClient p g) :=
  .of_mail (mail_of_map (map_modify fun c _ _ => hg c)) (fun l hl => .inr ⟨l, hl, rfl⟩)
    fun _ hl => hl

theorem Adds.modifyNodelink
    {p : Ptr} {g : NodeLink → NodeLink} (hg : ∀ l, (g l).mail = l.mail) :
    Adds n₀ e n (n.modifyNodelink p g) :=
  .of_mail (mail_refl rfl)
    (fun _ hl => .inr (mem_of_map_eq (map_modify fun l _ _ => hg l) hl)) fun _ hl => hl

/-- The links under one address change. -/
theorem Adds.modifyLink
    {p : Ptr} {g : CCLink → CCLink}
    (hg : ∀ l ∈ n.cclinks, l.ptr = p → ∃ l₀ ∈ n.cclinks, GoesOn n₀ e l₀ (g l)) :
    Adds n₀ e n (n.modifyLink p g) := by
  refine ⟨fun r x hx => .inl ?_, fun l' hl' => .inl ?_⟩
  · cases r <;> exact hx
  · obtain ⟨l, hl, rfl⟩ := mem_modify.mp hl'
    split_ifs with hp
    · exact hg l hl hp
    · exact ⟨l, hl, .refl⟩

theorem Adds.addLink
    {l : CCLink} (hl : Makes n₀ e l) (hun : l.state.undecided) :
    Adds n₀ e n (n.cclinkListAdd l) := by
  refine ⟨fun r x hx => .inl ?_, fun l' hl' => ?_⟩
  · cases r <;> exact hx
  · rcases List.mem_append.mp hl' with hl' | hl'
    · exact .inl ⟨l', hl', .refl⟩
    · obtain rfl := List.mem_singleton.mp hl'
      exact .inr ⟨hl, fun hdec => by simp [hun] at hdec⟩

theorem clientWbufPush_adds
    {c : Option Ptr} {x : Frame} {b : Bool}
    (hs : ∀ p, c = some p → Sends n₀ e (.client p) x)
    (h : n.clientWbufPush c x = .ok (m, b)) :
    Adds n₀ e n m := by
  obtain ⟨cl, -, rfl, -, rfl⟩ := clientWbufPush_ok h
  refine ⟨fun r y hy => ?_, fun l hl => .inl ⟨l, by split_ifs at hl <;> exact hl, .refl⟩⟩
  split_ifs at hy
  · cases r with
    | client p =>
        obtain ⟨c', hc', rfl, hy⟩ := hy
        obtain ⟨c, hc, rfl⟩ := mem_modify.mp hc'
        split_ifs at hy ⊢ with hp
        · rcases List.mem_append.mp hy with hy | hy
          · exact .inl ⟨c, hc, rfl, hy⟩
          · obtain rfl := List.mem_singleton.mp hy
            exact .inr (hs c.ptr (by rw [hp]))
        · exact .inl ⟨c, hc, rfl, hy⟩
    | node p => exact .inl hy
  · cases r <;> exact .inl hy

theorem nodelinkWbufPush_adds
    {nl : Option Ptr} {x : Frame} {b : Bool}
    (hs : ∀ p, nl = some p → Sends n₀ e (.node p) x)
    (h : n.nodelinkWbufPush nl x = .ok (m, b)) :
    Adds n₀ e n m := by
  obtain ⟨l, -, rfl, -, rfl⟩ := nodelinkWbufPush_ok h
  refine ⟨fun r y hy => ?_, fun l hl => .inl ⟨l, by split_ifs at hl <;> exact hl, .refl⟩⟩
  split_ifs at hy
  · cases r with
    | client p => exact .inl hy
    | node p =>
        obtain ⟨l', hl', rfl, hy⟩ := hy
        obtain ⟨l₀, hl₀, rfl⟩ := mem_modify.mp hl'
        split_ifs at hy ⊢ with hp
        · rcases List.mem_append.mp hy with hy | hy
          · exact .inl ⟨l₀, hl₀, rfl, hy⟩
          · obtain rfl := List.mem_singleton.mp hy
            exact .inr (hs l₀.ptr (by rw [hp]))
        · exact .inl ⟨l₀, hl₀, rfl, hy⟩
  · cases r <;> exact .inl hy

theorem pushToNodes_adds
    {x : Frame} {nls : List NodeLink}
    (hs : ∀ nl ∈ nls, Sends n₀ e (.node nl.ptr) x)
    (h : Node.pushToNodes x nls n = .ok m) :
    Adds n₀ e n m := by
  induction nls generalizing n with
  | nil =>
      cases h
      exact .refl
  | cons nl nls ih =>
      obtain ⟨⟨k, b⟩, hk, h⟩ := bind_eq_ok.mp h
      have hpush : Adds n₀ e n k := by
        refine nodelinkWbufPush_adds ?_ hk
        rintro p ⟨⟩
        exact hs nl List.mem_cons_self
      exact hpush.trans (ih (fun nl hnl => hs nl (List.mem_cons_of_mem _ hnl)) h)

theorem pushToLogins_adds
    {x : Frame} {me : Option Ptr} {ps : List Ptr}
    (hs : ∀ p ∈ ps, some p ≠ me → Sends n₀ e (.client p) x)
    (h : Node.pushToLogins x me ps n = .ok m) :
    Adds n₀ e n m ∧ m.nodelinks = n.nodelinks := by
  induction ps generalizing n with
  | nil =>
      cases h
      exact ⟨.refl, rfl⟩
  | cons p ps ih =>
      have hrest : ∀ q ∈ ps, some q ≠ me → Sends n₀ e (.client q) x :=
        fun q hq => hs q (List.mem_cons_of_mem _ hq)
      rw [Node.pushToLogins] at h
      split_ifs at h with hme
      · exact ih hrest h
      · obtain ⟨⟨k, b⟩, hk, h⟩ := bind_eq_ok.mp h
        have hpush : Adds n₀ e n k := by
          refine clientWbufPush_adds ?_ hk
          rintro q ⟨⟩
          exact hs p List.mem_cons_self hme
        obtain ⟨hadds, hnodes⟩ := ih hrest h
        exact ⟨hpush.trans hadds, hnodes.trans (clientWbufPush_frame hk).2.1⟩

/-! ### Deletions -/

theorem clientTreeForget_mail {c : Client} :
    (n.clientTreeForget c).clients.map Client.mail = n.clients.map Client.mail := by
  rw [Node.clientTreeForget]
  cases n.clientTreeSearch c.id with
  | none => rfl
  | some s =>
      dsimp only
      split_ifs
      · cases n.nextMulti c.id with
        | nil => rfl
        | cons q qs => exact map_modify fun _ _ _ => rfl
      · rfl

theorem clientTreeForget_cclinks {c : Client} : (n.clientTreeForget c).cclinks = n.cclinks := by
  rw [Node.clientTreeForget]
  cases n.clientTreeSearch c.id with
  | none => rfl
  | some s =>
      dsimp only
      split_ifs
      · cases n.nextMulti c.id with
        | nil => rfl
        | cons q qs => rfl
      · rfl

theorem dropClient_adds {c : Client} : Adds n₀ e n (n.dropClient c) := by
  refine .of_mail ?_ ?_ ?_
  · intro d hd
    exact .inr (mem_of_map_eq clientTreeForget_mail (mem_remove.mp hd).1)
  · intro l hl
    have hsame : (n.dropClient c).nodelinks = n.nodelinks := clientTreeForget_frame.2
    exact .inr ⟨l, hsame ▸ hl, rfl⟩
  · intro l hl
    have hmem := (List.mem_filter.mp hl).1
    rwa [clientTreeForget_cclinks] at hmem

theorem dropNodelink_adds {nl : NodeLink} : Adds n₀ e n (n.dropNodelink nl) :=
  .of_mail (mail_refl rfl) (fun l hl => .inr ⟨l, (mem_remove.mp hl).1, rfl⟩)
    fun _ hl => (List.mem_filter.mp hl).1

theorem clientListDeleteIn_adds
    {call : Ptr → ClientEvent} {ci : Option Ptr}
    (h : Node.clientListDeleteIn call n ci = .ok m) :
    Adds n₀ e n m := by
  obtain ⟨c, -, -, rfl⟩ := clientListDeleteIn_ok h
  exact dropClient_adds.trans (.same rfl rfl rfl)

theorem clientListDelete_adds {ci : Option Ptr} (h : n.clientListDelete ci = .ok m) :
    Adds n₀ e n m :=
  clientListDeleteIn_adds h

theorem nodelinkListDelete_adds {nl : Option Ptr} (h : n.nodelinkListDelete nl = .ok m) :
    Adds n₀ e n m := by
  obtain ⟨l, -, -, rfl⟩ := nodelinkListDelete_ok h
  exact dropNodelink_adds

theorem cclinkListDelete_adds {l : Option Ptr} (h : n.cclinkListDelete l = .ok m) :
    Adds n₀ e n m := by
  obtain ⟨cc, -, -, rfl⟩ := cclinkListDelete_ok h
  exact .of_mail (mail_refl rfl) (fun m hm => .inr ⟨m, hm, rfl⟩) fun _ hl => (mem_remove.mp hl).1

theorem newconnClose_adds {i : Nat} (h : n.newconnClose i = .ok m) : Adds n₀ e n m := by
  obtain ⟨k, hk, rfl⟩ := newconnClose_ok h
  rcases hk with ⟨-, rfl⟩ | ⟨c, -, -, -, rfl⟩ | ⟨l, -, -, -, rfl⟩
  · exact .same rfl rfl rfl
  · exact dropClient_adds.trans (.same rfl rfl rfl)
  · exact .of_mail (mail_refl rfl) (fun m hm => .inr ⟨m, hm, rfl⟩) fun _ hl => (mem_remove.mp hl).1

end Lists

end PicaPica
