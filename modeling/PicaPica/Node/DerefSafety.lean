import PicaPica.Node.Invariant

/-!
# Messages of nodes and missing objects

The handlers of messages from other nodes look links up by the identifiers in the
message.  In a reachable state everything they use is there, with two exceptions:

* `N2NALLOW` and `N2NNOTFOUND` use the caller of the link they find, and a link
  whose caller is on another node has none;
* `NODELISTREQ` compares the addresses of the linked nodes with the address of the
  node that asks, which is not known before that node has told it.

`n2nSafe` describes when these do not occur.
-/

namespace PicaPica

open Table Machine

/-- No pointer to a missing object was used. -/
def Present {α : Type} (x : Except Fault α) : Prop :=
  x ≠ .error .null ∧ x ≠ .error .freed

section Rules

variable {α β : Type} {x : Except Fault α} {g : α → Except Fault β}

theorem present_pure {a : α} : Present (pure a : Except Fault α) :=
  ⟨nofun, nofun⟩

theorem present_bind (hx : Present x) (hg : ∀ a, x = .ok a → Present (g a)) :
    Present (x >>= g) := by
  cases x with
  | ok a => exact hg a rfl
  | error er =>
      constructor
      · intro h
        exact hx.1 (congrArg Except.error (Except.error.inj h))
      · intro h
        exact hx.2 (congrArg Except.error (Except.error.inj h))

/-- The computation uses a `NULL` pointer exactly if `P` fails, and never a pointer
to a deleted object. -/
def PresentIff (x : Except Fault α) (P : Prop) : Prop :=
  (x ≠ .error .null ↔ P) ∧ x ≠ .error .freed

variable {P : Prop}

theorem presentIff_of (hx : Present x) (hP : P) : PresentIff x P :=
  ⟨⟨fun _ => hP, fun _ => hx.1⟩, hx.2⟩

theorem presentIff_null (hP : ¬P) : PresentIff (.error .null : Except Fault α) P :=
  ⟨⟨fun h => absurd rfl h, fun h => absurd h hP⟩, nofun⟩

theorem presentIff_bind (hx : PresentIff x P) (hg : ∀ a, x = .ok a → Present (g a)) :
    PresentIff (x >>= g) P := by
  by_cases hnull : x = .error .null
  · subst hnull
    exact presentIff_null fun hP => hx.1.mpr hP rfl
  · exact presentIff_of (present_bind ⟨hnull, hx.2⟩ hg) (hx.1.mp hnull)

theorem deref_present
    {key : α → Ptr} {xs : List α} {p : Ptr}
    (h : ∃ y ∈ xs, key y = p) :
    Present (deref key xs (some p)) := by
  simp only [deref]
  cases hl : lookup key p xs with
  | none =>
      obtain ⟨y, hy, hp⟩ := h
      exact absurd hp (lookup_eq_none.mp hl y hy)
  | some y => exact ⟨(by rintro ⟨⟩), (by rintro ⟨⟩)⟩

end Rules

section Operations

variable {n : Node} {f : Frame}

theorem clientWbufPush_present
    {p : Ptr}
    (h : n.HasClient p) :
    Present (n.clientWbufPush (some p) f) := by
  refine present_bind (deref_present h) ?_
  intro c _
  split_ifs
  · exact present_pure
  · exact present_pure

theorem nodelinkWbufPush_present
    {p : Ptr}
    (h : n.Linked p) :
    Present (n.nodelinkWbufPush (some p) f) := by
  refine present_bind (deref_present h) ?_
  intro c _
  split_ifs
  · exact present_pure
  · exact present_pure

theorem cclinkListDelete_present
    {l : CCLink}
    (h : l ∈ n.cclinks) :
    Present (n.cclinkListDelete (some l.ptr)) :=
  present_bind (deref_present ⟨l, h, rfl⟩) fun _ _ => present_pure

theorem clientWbufPush_hasClient
    {m : Node} {q : Option Ptr} {b : Bool} {p : Ptr}
    (hpush : n.clientWbufPush q f = .ok (m, b)) (h : n.HasClient p) :
    m.HasClient p := by
  obtain ⟨c, hc, rfl⟩ := h
  obtain ⟨d, -, -, -, rfl⟩ := clientWbufPush_ok hpush
  split_ifs
  · refine ⟨_, mem_modify.mpr ⟨c, hc, rfl⟩, ?_⟩
    split_ifs <;> rfl
  · exact ⟨c, hc, rfl⟩

end Operations

/-! ## The handlers -/

section Handlers

variable {n : Node} {nl : Ptr} {f : Frame}

theorem procmsgNODERESP_present (hnl : n.Linked nl) : Present (n.procmsgNODERESP nl f) := by
  rw [Node.procmsgNODERESP]
  split_ifs
  · exact present_pure
  · refine present_bind (nodelinkWbufPush_present hnl) ?_
    rintro ⟨k, b⟩ hk
    have hnl' : k.Linked nl := (nodelinkWbufPush_frame hk).2.2 nl hnl
    cases b with
    | true => exact present_bind (nodelinkWbufPush_present hnl') fun _ _ => present_pure
    | false => exact present_pure
  · exact present_pure
  · exact present_pure

theorem procmsgNEWNODE_present : Present (n.procmsgNEWNODE nl f) := by
  rw [Node.procmsgNEWNODE]
  dsimp only
  split_ifs <;> exact present_pure

theorem nodelistLoop_present
    {buf : Frame} {size listsize fuel left : Nat} :
    Present (Node.nodelistLoop nl buf size listsize fuel left n) := by
  induction fuel generalizing left n with
  | zero =>
      cases left with
      | zero => exact present_pure
      | succ left => exact ⟨(by rintro ⟨⟩), (by rintro ⟨⟩)⟩
  | succ fuel ih =>
      cases left with
      | zero => exact present_pure
      | succ left =>
          rw [Node.nodelistLoop]
          · split_ifs
            · exact ⟨(by rintro ⟨⟩), (by rintro ⟨⟩)⟩
            · exact ⟨(by rintro ⟨⟩), (by rintro ⟨⟩)⟩
            · exact ih
            · exact ih
          · simp

theorem procmsgSEARCH_present (hnl : n.Linked nl) : Present (n.procmsgSEARCH nl f) := by
  rw [Node.procmsgSEARCH]
  split
  · exact present_bind (nodelinkWbufPush_present hnl) fun _ _ => present_pure
  · exact present_pure

theorem n2nfoundLoop_present
    {id : Id} {fuel : Nat}
    (hnl : n.Linked nl) :
    Present (Node.n2nfoundLoop nl id fuel n) := by
  induction fuel generalizing n with
  | zero =>
      unfold Node.n2nfoundLoop
      split
      · exact present_pure
      · exact ⟨nofun, nofun⟩
      · contradiction
  | succ fuel ih =>
      unfold Node.n2nfoundLoop
      cases n.cclinkListFindwaitsearch id with
      | none => exact present_pure
      | some l =>
          refine present_bind (nodelinkWbufPush_present hnl) ?_
          rintro ⟨k, b⟩ hk
          exact ih ((nodelinkWbufPush_frame hk).2.2 nl hnl)

theorem procmsgN2NCONNREQOUTG_present (hnl : n.Linked nl) :
    Present (n.procmsgN2NCONNREQOUTG nl f) := by
  rw [Node.procmsgN2NCONNREQOUTG]
  cases hs : n.clientTreeSearch (idAt f (2 + idSize)) with
  | none => exact present_bind (nodelinkWbufPush_present hnl) fun _ _ => present_pure
  | some c =>
      have hc : n.HasClient c.ptr := ⟨c, (clientTreeSearch_primary hs).1, rfl⟩
      refine present_bind (clientWbufPush_present hc) ?_
      rintro ⟨k, b⟩ -
      cases b with
      | false => exact present_pure
      | true =>
          refine present_bind ?_ fun _ _ => present_pure
          rw [Node.cclinkListAddn2ncle]
          split_ifs
          · exact present_pure
          · exact ⟨(by rintro ⟨⟩), (by rintro ⟨⟩)⟩
          · exact present_pure

theorem n2nmsgInto_present
    {d : Dir} {data : List UInt8} {l : CCLink}
    (hl : l ∈ n.cclinks) :
    Present (n.n2nmsgInto d data l) := by
  rw [Node.n2nmsgInto]
  split
  · exact present_bind (cclinkListDelete_present hl) fun _ _ => present_pure
  · exact present_pure

theorem n2nmsgBack_present
    {i j : Id} {data : List UInt8}
    (hnl : n.Linked nl) :
    Present (n.n2nmsgBack nl i j data) := by
  rw [Node.n2nmsgBack]
  cases hs : n.cclinkListSearch j i with
  | none => exact present_bind (nodelinkWbufPush_present hnl) fun _ _ => present_pure
  | some l =>
      dsimp only
      split_ifs
      · exact n2nmsgInto_present (cclinkListSearch_spec hs).1
      · exact present_bind (nodelinkWbufPush_present hnl) fun _ _ => present_pure

theorem procmsgN2NMSG_present (hnl : n.Linked nl) : Present (n.procmsgN2NMSG nl f) := by
  rw [Node.procmsgN2NMSG]
  dsimp only
  split_ifs
  · exact present_pure
  · cases hs : n.cclinkListSearch (idAt f 4) (idAt f (4 + idSize)) with
    | none => exact n2nmsgBack_present hnl
    | some l =>
        dsimp only
        split_ifs
        · exact n2nmsgInto_present (cclinkListSearch_spec hs).1
        · exact n2nmsgBack_present hnl

theorem procmsgPINGREQNode_present (hnl : n.Linked nl) : Present (n.procmsgPINGREQNode nl f) :=
  present_bind (nodelinkWbufPush_present hnl) fun _ _ => present_pure

theorem pushToLogins_present
    {me : Option Ptr} {ps : List Ptr}
    (h : ∀ p ∈ ps, n.HasClient p) :
    Present (Node.pushToLogins f me ps n) := by
  induction ps generalizing n with
  | nil => exact present_pure
  | cons p ps ih =>
      rw [Node.pushToLogins]
      split_ifs
      · exact ih fun q hq => h q (by simp [hq])
      · refine present_bind (clientWbufPush_present (h p (by simp))) ?_
        rintro ⟨k, b⟩ hk
        exact ih fun q hq => clientWbufPush_hasClient hk (h q (by simp [hq]))

/-- The clients with one identifier are there. -/
theorem logins_hasClient
    {c : Client} {p : Ptr}
    (hc : c ∈ n.clients) (hp : p ∈ n.logins c) :
    n.HasClient p := by
  rw [Node.logins, List.mem_cons] at hp
  rcases hp with rfl | hp
  · exact ⟨c, hc, rfl⟩
  · have hany := (List.mem_filter.mp hp).2
    cases hl : lookup Client.ptr p n.clients with
    | none => simp [hl] at hany
    | some d => exact ⟨d, lookup_eq_some hl⟩

theorem procmsgMULTILOGINNode_present : Present (n.procmsgMULTILOGINNode nl f) := by
  rw [Node.procmsgMULTILOGINNode]
  split_ifs
  · exact present_pure
  · split
    · exact present_pure
    · rename_i c hc
      refine present_bind (pushToLogins_present ?_) fun _ _ => present_pure
      intro p hp
      exact logins_hasClient (List.mem_of_find?_eq_some hc) hp
  · exact present_pure

end Handlers

/-! ## Links without a caller and nodes without an address -/

section Exceptions

variable {n : Node} {nl : Ptr} {f : Frame}

/-- Using the caller of a link: it is missing exactly for a link whose caller is on
another node. -/
theorem callerPush_present
    {l : CCLink}
    (h : Core n) (hl : l ∈ n.cclinks) :
    PresentIff (n.clientWbufPush l.p1 f) (l.state.kind ≠ .n2ncle) := by
  have hshape := (h.shape l hl).p1
  cases hp : l.p1 with
  | none => exact presentIff_null fun hne => hne (hshape.mp hp)
  | some p =>
      obtain ⟨c, hc, hptr, -⟩ := (h.ends l hl).p1 p hp
      refine presentIff_of (clientWbufPush_present ⟨c, hc, hptr⟩) ?_
      intro hk
      simp [hshape.mpr hk] at hp

/-- The link an `N2NALLOW` or `N2NNOTFOUND` names has its caller on this node. -/
def Node.callerHere (n : Node) (f : Frame) : Prop :=
  ∀ l, n.cclinkListSearch (idAt f 2) (idAt f (2 + idSize)) = some l → l.state.kind ≠ .n2ncle

theorem procmsgN2NALLOW_present
    (h : Core n) :
    PresentIff (n.procmsgN2NALLOW nl f) (n.callerHere f) := by
  rw [Node.procmsgN2NALLOW, Node.callerHere]
  cases hs : n.cclinkListSearch (idAt f 2) (idAt f (2 + idSize)) with
  | none =>
      refine presentIff_of present_pure ?_
      intro l hl
      cases hl
  | some l =>
      simp only [Option.some.injEq, forall_eq']
      refine presentIff_bind (callerPush_present h (cclinkListSearch_spec hs).1) ?_
      rintro ⟨k, b⟩ -
      cases b with
      | true => exact present_pure
      | false => exact present_pure

theorem procmsgN2NNOTFOUND_present
    (h : Core n) :
    PresentIff (n.procmsgN2NNOTFOUND nl f) (n.callerHere f) := by
  rw [Node.procmsgN2NNOTFOUND, Node.callerHere]
  cases hs : n.cclinkListSearch (idAt f 2) (idAt f (2 + idSize)) with
  | none =>
      refine presentIff_of present_pure ?_
      intro l hl
      cases hl
  | some l =>
      have hl := (cclinkListSearch_spec hs).1
      simp only [Option.some.injEq, forall_eq']
      refine presentIff_bind (callerPush_present h hl) ?_
      rintro ⟨k, b⟩ hk
      refine present_bind (cclinkListDelete_present ?_) fun _ _ => present_pure
      rwa [(clientWbufPush_frame hk).1]

/-- The node is put on the list for `asking`. -/
def NodeLink.listedFor (asking nlp : NodeLink) : Bool :=
  nlp.addrType = Proto.NEWNODE_IPV4 ∧ nlp.nodeAddr ≠ asking.nodeAddr

/-- Every node the loop of `procmsg_NODELISTREQ` gets to, starting with `len` bytes
in the list, has an address if it is one with an IPv4 address, and the asking node
has one if there is such a node. -/
def NodelistSafe (asking : NodeLink) (nls : List NodeLink) (len : Nat) : Prop :=
  ∀ before nlp after, nls = before ++ nlp :: after → nlp.addrType = Proto.NEWNODE_IPV4 →
    len + Proto.NODELIST_ITEM_IPV4_SIZE * before.countP asking.listedFor < 65532 →
    nlp.nodeAddr ≠ none ∧ asking.nodeAddr ≠ none

theorem nodelistSafe_cons
    {asking nlp : NodeLink} {nls : List NodeLink} {len : Nat} :
    NodelistSafe asking (nlp :: nls) len ↔
      (nlp.addrType = Proto.NEWNODE_IPV4 → len < 65532 →
        nlp.nodeAddr ≠ none ∧ asking.nodeAddr ≠ none) ∧
      NodelistSafe asking nls
        (len + if asking.listedFor nlp then Proto.NODELIST_ITEM_IPV4_SIZE else 0) := by
  constructor
  · intro h
    constructor
    · intro hty hlen
      exact h [] nlp nls rfl hty (by simpa using hlen)
    · intro before x after heq hty hlen
      refine h (nlp :: before) x after (by rw [heq]; rfl) hty ?_
      rw [List.countP_cons]
      split_ifs at hlen ⊢
      · rw [Nat.mul_add]
        omega
      · simpa using hlen
  · rintro ⟨hhead, htail⟩ before x after heq hty hlen
    cases before with
    | nil =>
        simp only [List.nil_append, List.cons.injEq] at heq
        rw [← heq.1] at hty ⊢
        exact hhead hty (by simpa using hlen)
    | cons y before =>
        simp only [List.cons_append, List.cons.injEq] at heq
        obtain ⟨rfl, rfl⟩ := heq
        refine htail before x after rfl hty ?_
        rw [List.countP_cons] at hlen
        split_ifs at hlen ⊢
        · rw [Nat.mul_add] at hlen
          omega
        · simpa using hlen

/-- A list that is already full is not looked at. -/
theorem nodelistSafe_full
    {asking : NodeLink} {nls : List NodeLink} {len : Nat}
    (h : ¬len < 65532) :
    NodelistSafe asking nls len := by
  intro before x after _ _ hlen
  omega

theorem nodelistScan_present
    {asking : NodeLink} {nls : List NodeLink} {buf : List UInt8} :
    PresentIff (Node.nodelistScan (some asking) nls buf) (NodelistSafe asking nls buf.length) := by
  induction nls generalizing buf with
  | nil =>
      refine presentIff_of present_pure ?_
      intro before x after heq
      simp at heq
  | cons nlp nls ih =>
      unfold Node.nodelistScan
      split_ifs with hlen hty
      · rw [nodelistSafe_cons]
        cases ha : nlp.nodeAddr with
        | none => exact presentIff_null fun hs => absurd rfl (hs.1 hty hlen).1
        | some a =>
            cases hb : asking.nodeAddr with
            | none =>
                simp only [hb]
                exact presentIff_null fun hs => absurd rfl (hs.1 hty hlen).2
            | some b =>
                simp only [hb]
                by_cases hab : a = b
                · have hnot : asking.listedFor nlp = false := by
                    simp [NodeLink.listedFor, ha, hb, hab]
                  rw [hnot, if_pos hab]
                  simpa using ih
                · have hlisted : asking.listedFor nlp = true := by
                    simp [NodeLink.listedFor, ha, hb, hab, hty]
                  rw [hlisted, if_neg hab]
                  have hitem : (Node.nodelistItem a).length =
                    Proto.NODELIST_ITEM_IPV4_SIZE := rfl
                  have hgrown := @ih (buf ++ Node.nodelistItem a)
                  rw [List.length_append, hitem] at hgrown
                  simpa using hgrown
      · have hnot : asking.listedFor nlp = false := by simp [NodeLink.listedFor, hty]
        rw [nodelistSafe_cons, hnot]
        simpa [hty] using ih
      · exact presentIff_of present_pure (nodelistSafe_full hlen)

theorem procmsgNODELISTREQ_present
    {asking : NodeLink}
    (h : Core n) (hnl : asking ∈ n.nodelinks) :
    PresentIff (n.procmsgNODELISTREQ asking.ptr f)
      (n.mem n.tick → NodelistSafe asking n.nodelinks Proto.NODELIST_ITEM_IPV4_SIZE) := by
  rw [Node.procmsgNODELISTREQ]
  split_ifs with hm
  · have hderef : n.derefNodelink (some asking.ptr) = .ok asking := by
      simp [Node.derefNodelink, deref, h.nodelinksDistinct.lookup hnl]
    rw [hderef]
    simp only [hm, forall_const]
    change PresentIff (Node.nodelistScan (some asking) n.nodelinks
      (Node.nodelistItem n.myAddr) >>= _) _
    refine presentIff_bind nodelistScan_present ?_
    intro nlBuf _
    have hlinked : n.asked.Linked asking.ptr := ⟨asking, hnl, rfl⟩
    exact present_bind (nodelinkWbufPush_present hlinked) fun _ _ => present_pure
  · exact presentIff_of present_pure fun hm' => absurd hm' hm

end Exceptions

/-! ## All messages -/

/-- When a message of the node `asking` does not lead to a missing object: the link
that an `N2NALLOW` or `N2NNOTFOUND` names has its caller on this node, and for a
`NODELISTREQ` all addresses that are compared are known. -/
def n2nSafe (n : Node) (asking : NodeLink) (f : Frame) : Prop :=
  (byteAt f 0 = Proto.N2NALLOW ∨ byteAt f 0 = Proto.N2NNOTFOUND → n.callerHere f) ∧
    (byteAt f 0 = Proto.NODELISTREQ → n.mem n.tick →
      NodelistSafe asking n.nodelinks Proto.NODELIST_ITEM_IPV4_SIZE)

section Dispatch

variable {n : Node} {asking : NodeLink} {f : Frame}

theorem handlerFn_presentIff
    {h : Node → Frame → Except Fault (Node × Nat)} {P : Prop}
    (hp : PresentIff (h n f) P) :
    PresentIff (handlerFn h (.ok n) f).1 P := by
  cases hn : h n f with
  | error er =>
      rw [hn] at hp
      have hfst : (handlerFn h (.ok n) f).1 = .error er := by simp [handlerFn, hn]
      rw [hfst]
      refine ⟨Iff.trans ?_ hp.1, ?_⟩
      · simp
      · intro heq
        exact hp.2 (congrArg Except.error (Except.error.inj heq))
  | ok r =>
      have hfst : (handlerFn h (.ok n) f).1 = .ok r.1 := by simp [handlerFn, hn]
      rw [hfst]
      refine presentIff_of ⟨(by rintro ⟨⟩), (by rintro ⟨⟩)⟩ (hp.1.mp ?_)
      rw [hn]
      rintro ⟨⟩

/-- A handler that finds everything, for a kind of message the condition does not
speak of. -/
theorem handlerFn_present
    {h : Node → Frame → Except Fault (Node × Nat)}
    (k : Nat) (hk : byteAt f 0 = k)
    (hne : k ≠ Proto.N2NALLOW ∧ k ≠ Proto.N2NNOTFOUND ∧ k ≠ Proto.NODELISTREQ)
    (hp : Present (h n f)) :
    PresentIff (handlerFn h (.ok n) f).1 (n2nSafe n asking f) := by
  refine handlerFn_presentIff (presentIff_of hp ⟨?_, ?_⟩)
  · rintro (heq | heq)
    · exact absurd (hk.symm.trans heq) hne.1
    · exact absurd (hk.symm.trans heq) hne.2.1
  · intro heq
    exact absurd (hk.symm.trans heq) hne.2.2

theorem n2nSafe_names
    (hk : byteAt f 0 = Proto.N2NALLOW ∨ byteAt f 0 = Proto.N2NNOTFOUND) :
    n.callerHere f ↔ n2nSafe n asking f := by
  have hreq : byteAt f 0 ≠ Proto.NODELISTREQ := by
    rcases hk with hk | hk
    · rw [hk]
      decide
    · rw [hk]
      decide
  constructor
  · exact fun h => ⟨fun _ => h, fun heq => absurd heq hreq⟩
  · exact fun h => h.1 hk

theorem n2nSafe_list
    (hk : byteAt f 0 = Proto.NODELISTREQ) :
    (n.mem n.tick → NodelistSafe asking n.nodelinks Proto.NODELIST_ITEM_IPV4_SIZE) ↔
      n2nSafe n asking f := by
  have hname : ¬(byteAt f 0 = Proto.N2NALLOW ∨ byteAt f 0 = Proto.N2NNOTFOUND) := by
    rw [hk]
    decide
  constructor
  · exact fun h => ⟨fun heq => absurd heq hname, fun _ => h⟩
  · exact fun h => h.2 hk

theorem msginfoNode_present
    {mi : MsgInfo (Except Fault Node)}
    (h : Core n) (hnl : asking ∈ n.nodelinks)
    (hmi : mi ∈ msginfoNode asking.ptr) (hk : byteAt f 0 = mi.msgid % 256) :
    PresentIff (mi.msgprocfn (.ok n) f).1 (n2nSafe n asking f) := by
  have hlinked : n.Linked asking.ptr := ⟨asking, hnl, rfl⟩
  simp only [msginfoNode, List.mem_cons, List.not_mem_nil, or_false] at hmi
  obtain rfl | rfl | rfl | rfl | rfl | rfl | rfl | rfl | rfl | rfl | rfl | rfl | rfl | rfl |
    rfl := hmi
  · exact handlerFn_present Proto.INITRESPOK hk (by decide) (procmsgNODERESP_present hlinked)
  · exact handlerFn_present Proto.VERDIFFER hk (by decide) (procmsgNODERESP_present hlinked)
  · exact handlerFn_present Proto.NEWNODE_IPV4 hk (by decide) procmsgNEWNODE_present
  · rw [← n2nSafe_list hk]
    exact handlerFn_presentIff (procmsgNODELISTREQ_present h hnl)
  · exact handlerFn_present Proto.NODELIST hk (by decide)
      (present_bind nodelistLoop_present fun _ _ => present_pure)
  · exact handlerFn_present Proto.SEARCH hk (by decide) (procmsgSEARCH_present hlinked)
  · exact handlerFn_present Proto.N2NFOUND hk (by decide)
      (present_bind (n2nfoundLoop_present hlinked) fun _ _ => present_pure)
  · exact handlerFn_present Proto.N2NFOUNDCACHE hk (by decide)
      (present_bind (n2nfoundLoop_present hlinked) fun _ _ => present_pure)
  · exact handlerFn_present Proto.N2NCONNREQOUTG hk (by decide)
      (procmsgN2NCONNREQOUTG_present hlinked)
  · rw [← n2nSafe_names (.inl hk)]
    exact handlerFn_presentIff (procmsgN2NALLOW_present h)
  · rw [← n2nSafe_names (.inr hk)]
    exact handlerFn_presentIff (procmsgN2NNOTFOUND_present h)
  · exact handlerFn_present Proto.N2NMSG hk (by decide) (procmsgN2NMSG_present hlinked)
  · exact handlerFn_present Proto.PINGREQ hk (by decide) (procmsgPINGREQNode_present hlinked)
  · exact handlerFn_present Proto.PINGREP hk (by decide) present_pure
  · exact handlerFn_present Proto.MULTILOGIN hk (by decide) procmsgMULTILOGINNode_present

theorem processmsg_presentIff
    (hn : Reachable n) (hnl : asking ∈ n.nodelinks)
    (hf : msggetsize f f.length (msginfoNode asking.ptr) = f.length) :
    PresentIff (processmsg f f.length (.ok n) (msginfoNode asking.ptr)).1 (n2nSafe n asking f) := by
  obtain ⟨mi, hmi, hid, hcall⟩ := processmsg_entry hf
  rw [hcall]
  exact msginfoNode_present hn.core hnl hmi hid

/-- **A message of a linked node leads to a missing object exactly if it is not safe.** -/
theorem n2nMessage_uses_present_objects
    (hn : Reachable n) (hnl : asking ∈ n.nodelinks)
    (hf : msggetsize f f.length (msginfoNode asking.ptr) = f.length) :
    (processmsg f f.length (.ok n) (msginfoNode asking.ptr)).1 ≠ .error .null ↔
      n2nSafe n asking f :=
  (processmsg_presentIff hn hnl hf).1

/-- Where the walks through the tree of clients read no freed record, the handlers read
none. -/
theorem n2nMessage_not_freed
    (hn : Reachable n) (hnl : asking ∈ n.nodelinks)
    (hf : msggetsize f f.length (msginfoNode asking.ptr) = f.length) :
    (processmsg f f.length (.ok n) (msginfoNode asking.ptr)).1 ≠ .error .freed :=
  (processmsg_presentIff hn hnl hf).2

end Dispatch

/-! ## A node that asks before it has told its address -/

/-- A node that has memory for everything. -/
def freshNode : Node :=
  Node.init ⟨0x01020304, 2299⟩ false 0 (fun _ => true) (fun _ => 0) (fun _ _ => false)
    fun _ _ => true

/-- Two nodes are connected, the first one tells its address. -/
def peersConnected : List NodeEvent :=
  [.nodewait 5 ⟨0x08080808, 2299⟩, .nodewait 6 ⟨0x09090909, 2299⟩,
    .n2nFrame 1 (head Proto.NEWNODE_IPV4 ++ addrBytes ⟨0x08080808, 2300⟩)]

/-- The state a run leads to; the start if it does not get there. -/
def stateAfter (n : Node) (es : List NodeEvent) : Node :=
  (run nodeStep n es).getD n

theorem stateAfter_run
    {n : Node} {es : List NodeEvent}
    (h : (run nodeStep n es).isSome) :
    run nodeStep n es = some (stateAfter n es) := by
  obtain ⟨m, hm⟩ := Option.isSome_iff_exists.mp h
  rw [stateAfter, hm]
  rfl

theorem stateAfter_step
    {n : Node} {es : List NodeEvent} {e : NodeEvent}
    (h : (run nodeStep n (es ++ [e])).isSome) :
    nodeStep (stateAfter n es) e = some (stateAfter n (es ++ [e])) := by
  obtain ⟨m, hm, hlast⟩ := run_append (stateAfter_run h)
  obtain ⟨u, hu, hend⟩ := run_cons hlast
  simp only [run, Option.some.injEq] at hend
  rw [← hend, ← hu, stateAfter, hm]
  rfl

theorem stateAfter_reachable
    {es : List NodeEvent}
    (h : (run nodeStep freshNode es).isSome) :
    Reachable (stateAfter freshNode es) :=
  ⟨_, _, _, _, _, _, _, es, stateAfter_run h⟩

/-- The fault a computation ends with. -/
def faultOf {α : Type} : Except Fault α → Option Fault
  | .error er => some er
  | .ok _ => none

theorem eq_error_of_faultOf
    {α : Type} {x : Except Fault α} {er : Fault}
    (h : faultOf x = some er) :
    x = .error er := by
  cases x with
  | error er' =>
      cases h
      rfl
  | ok a => cases h

/-- Either node asks for the list; the first one has told its address. -/
theorem n2nMessage_uses_present_objects_asked :
    ∃ asking ∈ (stateAfter freshNode peersConnected).nodelinks,
      (processmsg (head Proto.NODELISTREQ ++ [0, 0]) 4
        (.ok (stateAfter freshNode peersConnected)) (msginfoNode asking.ptr)).1 ≠ .error .null ∧
      n2nSafe (stateAfter freshNode peersConnected) asking (head Proto.NODELISTREQ ++ [0, 0]) := by
  have hreach := @stateAfter_reachable peersConnected (by decide +kernel)
  obtain ⟨asking, hmem, haddr, hothers⟩ : ∃ asking ∈ (stateAfter freshNode peersConnected).nodelinks,
      asking.nodeAddr ≠ none ∧ ∀ nlp ∈ (stateAfter freshNode peersConnected).nodelinks,
        nlp.addrType = Proto.NEWNODE_IPV4 → nlp.nodeAddr ≠ none := by decide +kernel
  have hsafe : n2nSafe (stateAfter freshNode peersConnected) asking
      (head Proto.NODELISTREQ ++ [0, 0]) := by
    refine (n2nSafe_list rfl).mp fun _ before nlp after heq hty _ => ⟨hothers nlp ?_ hty, haddr⟩
    rw [heq]
    simp
  exact ⟨asking, hmem, (n2nMessage_uses_present_objects hreach hmem rfl).mpr hsafe, hsafe⟩

/-- The second node has not told its address and asks for the list: `NULL` is used. -/
theorem n2nMessage_null_address :
    ∃ n, Reachable n ∧ ∃ asking ∈ n.nodelinks, ∃ f : Frame,
      msggetsize f f.length (msginfoNode asking.ptr) = f.length ∧
      (processmsg f f.length (.ok n) (msginfoNode asking.ptr)).1 = .error .null := by
  refine ⟨stateAfter freshNode peersConnected, stateAfter_reachable (by decide +kernel), ?_⟩
  obtain ⟨asking, hmem, hnull⟩ : ∃ asking ∈ (stateAfter freshNode peersConnected).nodelinks,
      faultOf (processmsg (head Proto.NODELISTREQ ++ [0, 0]) 4
        (.ok (stateAfter freshNode peersConnected)) (msginfoNode asking.ptr)).1 = some .null := by
    decide +kernel
  exact ⟨asking, hmem, head Proto.NODELISTREQ ++ [0, 0], rfl, eq_error_of_faultOf hnull⟩

end PicaPica
