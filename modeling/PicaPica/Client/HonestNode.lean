import PicaPica.Client.Login
import PicaPica.Node.Written

/-!
# A client and its node

The handlers of a client follow no null pointer in any run, and the messages that a node has
queued for a client never take them outside a message.  In a pass that reads such messages the
client closes the connection exactly if the session has failed, or if a handler refuses a message
for one of the reasons of `Refuses` (`closed_by_node_message`): memory is short, a call cannot be
answered or started, or there is no channel to the peer that the node answers about.
-/

namespace PicaPica
namespace Client

open Machine

/-- Why a handler refuses a message of a node. -/
def Refuses {Pub : Type} (c : NodeConn) (env : C2nMsgEnv Pub) (f : Frame) : Prop :=
  if byteAt f 0 = Proto.CONNREQINC then
    env.call.mem = false ∨
      env.call.accept = true ∧ (env.call.calloc = false ∨ env.call.written = false)
  else if byteAt f 0 = Proto.FOUND ∨ byteAt f 0 = Proto.NOTFOUND then
    c.chans.findPeer (idAt f 2) = none ∨
      ∃ rq, byteAt f 0 = Proto.FOUND ∧ c.chans.findPeer (idAt f 2) = some rq ∧
        (c.chans.c2cStart rq env.start).2 ≠ .ok
  else byteAt f 0 = Proto.PINGREQ ∧ env.mem = false

/-- What a node sends to a client that has logged in. -/
structure NodeSent (f : Frame) : Prop where
  isMessage : ∀ h : Nat → Option NodeConn → Frame → Option NodeConn × Nat, IsMessage (c2nTable h) f
  kind : byteAt f 0 ∈ [Proto.CONNREQINC, Proto.NOTFOUND, Proto.FOUND, Proto.PINGREQ,
      Proto.MULTILOGIN] ∨
    ∃ own items, f = nodelistFrame Proto.CLNODELIST (own :: items)

/-- The channels of a connection are in a list. -/
def NodeConn.Listed (c : NodeConn) : Prop :=
  ∃ ps, c.chans.WellFormed ps

/-! ## What is queued -/

section Queued

variable {n : Node} {e : NodeEvent} {p : Ptr} {x : Frame}

theorem nodelist_items {m : Option NodeLink} {nls : List NodeLink} {own : SockAddr}
    {items : List UInt8} (h : Node.nodelistScan m nls (Node.nodelistItem own) = .ok items) :
    ∃ own items', head Proto.CLNODELIST ++ le16 items.length ++ items =
      nodelistFrame Proto.CLNODELIST (own :: items') := by
  obtain ⟨hitems, hlen⟩ := nodelistScan_items h
  refine ⟨own, (nls.filterMap (advertised m)).take (nodelistRoom 7), ?_⟩
  rw [nodelistFrame, hlen, hitems]
  rfl

theorem sends_nodeSent
    (hen : e.enabled n) (hs : Sends n e (.client p) x) (hping : byteAt x 0 ≠ Proto.PINGREP) :
    NodeSent x := by
  have hmsg : ∀ h : Nat → Option NodeConn → Frame → Option NodeConn × Nat,
      IsMessage (c2nTable h) x := fun h => (hs.client_isMessage hen).resolve_right hping
  cases hs with
  | connreqinc => exact ⟨hmsg, .inl (by rw [byteAt_head]; decide)⟩
  | notfound => exact ⟨hmsg, .inl (by rw [byteAt_head]; decide)⟩
  | denied => exact ⟨hmsg, .inl (by rw [byteAt_head]; decide)⟩
  | clientPingrep => exact absurd byteAt_head hping
  | multilogin me d f hf =>
      simp only [isMultilogin, decide_eq_true_eq] at hf
      exact ⟨hmsg, .inl (by rw [hf.1]; decide)⟩
  | clnodelist ci f items hk hscan => exact ⟨hmsg, .inr (nodelist_items hscan)⟩
  | connreqincRemote => exact ⟨hmsg, .inl (by rw [byteAt_head]; decide)⟩
  | foundRemote => exact ⟨hmsg, .inl (by rw [byteAt_head]; decide)⟩
  | notfoundRemote => exact ⟨hmsg, .inl (by rw [byteAt_head]; decide)⟩
  | multiloginNode nl f o d hk => exact ⟨hmsg, .inl (by rw [hk]; decide)⟩
  | found => exact ⟨hmsg, .inl (by rw [byteAt_head]; decide)⟩
  | clientPingreq => exact ⟨hmsg, .inl (by rw [byteAt_head]; decide)⟩

theorem queued_nodeSent
    {c : PicaPica.Client} (hn : Reachable n) (hc : c ∈ n.clients) (hx : x ∈ c.pushed)
    (hping : byteAt x 0 ≠ Proto.PINGREP) :
    NodeSent x := by
  obtain ⟨u, e, hen, hs⟩ := queued_enabled hn (r := .client c.ptr) ⟨c, hc, rfl, hx⟩
  exact sends_nodeSent hen hs hping

end Queued

/-! ## Messages -/

section Messages

variable {Pub : Type} {ntop6 : List UInt8 → List Char} {final : Pub → List UInt8 → List UInt8 → Int}
  {c c' : NodeConn} {env : C2nMsgEnv Pub} {f : Frame}

theorem refuses_reply_iff (hk : byteAt f 0 = Proto.FOUND ∨ byteAt f 0 = Proto.NOTFOUND) :
    Refuses c env f ↔ c.chans.findPeer (idAt f 2) = none ∨
      ∃ rq, byteAt f 0 = Proto.FOUND ∧ c.chans.findPeer (idAt f 2) = some rq ∧
        (c.chans.c2cStart rq env.start).2 ≠ .ok := by
  have hcall : byteAt f 0 ≠ Proto.CONNREQINC := by
    rcases hk with hk | hk <;> rw [hk] <;> decide
  rw [Refuses, if_neg hcall, if_pos hk]

/-- A list of nodes and a notice of a login are never refused. -/
theorem not_refuses (hk : byteAt f 0 = Proto.CLNODELIST ∨ byteAt f 0 = Proto.MULTILOGIN) :
    ¬Refuses c env f := by
  rcases hk with hk | hk <;> rw [Refuses, hk] <;> simp [Proto.CONNREQINC, Proto.FOUND,
    Proto.NOTFOUND, Proto.PINGREQ, Proto.CLNODELIST, Proto.MULTILOGIN]

theorem connreqinc_ret
    {l : ChannelList} {io : ChannelList.CallIo} {r : ChannelList × Nat}
    (h : l.procmsgCONNREQINC io f = some r) :
    r.2 = 0 ↔ io.mem = false ∨ io.accept = true ∧ (io.calloc = false ∨ io.written = false) := by
  rw [ChannelList.procmsgCONNREQINC] at h
  by_cases hmem : io.mem = false
  · rw [if_pos hmem] at h
    cases h
    simp [hmem]
  · rw [if_neg hmem] at h
    by_cases haccept : io.accept = false
    · rw [if_pos haccept] at h
      cases h
      simp [hmem, haccept]
    · rw [if_neg haccept] at h
      dsimp only at h
      by_cases hcalloc : io.calloc = false
      · rw [if_pos hcalloc] at h
        cases h
        simp [haccept, hcalloc]
      · rw [if_neg hcalloc] at h
        obtain ⟨u, -, hu⟩ := Option.bind_eq_some_iff.mp h
        by_cases hwritten : io.written = false
        · rw [if_pos hwritten] at hu
          cases hu
          simp [haccept, hwritten]
        · rw [if_neg hwritten] at hu
          cases hu
          simp [hmem, hcalloc, hwritten]

theorem procmsgReply_ret {l : ChannelList} {start : StartIo} :
    (l.procmsgReply start f).ret = 0 ↔ l.findPeer (idAt f 2) = none ∨
      ∃ rq, byteAt f 0 = Proto.FOUND ∧ l.findPeer (idAt f 2) = some rq ∧
        (l.c2cStart rq start).2 ≠ .ok := by
  cases hrq : l.findPeer (idAt f 2) with
  | none => simp [ChannelList.procmsgReply_none hrq]
  | some rq =>
      rw [ChannelList.procmsgReply]
      by_cases hfound : byteAt f 0 = Proto.FOUND
      · rw [if_pos hfound, ChannelList.procmsgFOUND, hrq]
        simp [hfound]
      · rw [if_neg hfound, ChannelList.procmsgNOTFOUND]
        dsimp only
        rw [hrq]
        simp [hfound]

/-- The bytes of an item are those of an address that fits. -/
theorem nodelistItem_fits (a : SockAddr) :
    ∃ b : SockAddr, b.Fits ∧ Node.nodelistItem b = Node.nodelistItem a := by
  refine ⟨⟨a.addr % 4294967296, a.port % 65536⟩,
    ⟨Nat.mod_lt _ (by decide), Nat.mod_lt _ (by decide)⟩, ?_⟩
  have hbyte : ∀ m k : Nat, m % 256 = k % 256 → UInt8.ofNat m = UInt8.ofNat k := by
    intro m k h
    apply UInt8.toNat_inj.mp
    simpa [UInt8.toNat_ofNat'] using h
  simp only [Node.nodelistItem, addrBytes, le16, List.cons_append, List.nil_append]
  rw [hbyte (a.addr % 4294967296) a.addr (by omega),
    hbyte (a.addr % 4294967296 / 256) (a.addr / 256) (by omega),
    hbyte (a.addr % 4294967296 / 65536) (a.addr / 65536) (by omega),
    hbyte (a.addr % 4294967296 / 65536 / 256) (a.addr / 65536 / 256) (by omega),
    hbyte (a.port % 65536) a.port (by omega),
    hbyte (a.port % 65536 / 256) (a.port / 256) (by omega)]

theorem items_fit (items : List SockAddr) :
    ∃ bs : List SockAddr, (∀ b ∈ bs, b.Fits) ∧ bs.length = items.length ∧
      bs.flatMap Node.nodelistItem = items.flatMap Node.nodelistItem := by
  induction items with
  | nil => exact ⟨[], fun _ h => (nomatch h), rfl, rfl⟩
  | cons a items ih =>
      obtain ⟨b, hb, hitem⟩ := nodelistItem_fits a
      obtain ⟨bs, hbs, hlen, hitems⟩ := ih
      refine ⟨b :: bs, ?_, by simp [hlen], by simp [hitem, hitems]⟩
      intro d hd
      rcases List.mem_cons.mp hd with rfl | hd
      · exact hb
      · exact hbs d hd

/-- The client understands every list of a node. -/
theorem procmsgCLNODELIST_nodelist (own : SockAddr) (items : List SockAddr) :
    ∃ calls, procmsgCLNODELIST ntop6 (nodelistFrame Proto.CLNODELIST (own :: items)) =
      .ok (calls, 1) := by
  obtain ⟨b, hb, hitem⟩ := nodelistItem_fits own
  obtain ⟨bs, hbs, hlen, hitems⟩ := items_fit items
  have hframe : nodelistFrame Proto.CLNODELIST (own :: items) =
      nodelistFrame Proto.CLNODELIST (b :: bs) := by
    simp [nodelistFrame, hlen, hitem, hitems]
  rw [hframe]
  exact ⟨_, procmsgCLNODELIST_frame hb hbs⟩

theorem c2nFn_eq
    {h : NodeConn → Frame → Option (NodeConn × Nat)} {r : Nat} (hr : h c f = some (c', r)) :
    NodeConn.c2nFn h (some c) f = (some c', r) := by
  rw [NodeConn.c2nFn, hr]

/-- **One message of a node.** -/
theorem processmsg_nodeSent (hlist : c.Listed) (hf : NodeSent f) :
    ∃ c' r, processmsg f f.length (some c) (NodeConn.c2nMessages ntop6 final env) = (some c', r) ∧
      c'.Listed ∧ (r = 0 ↔ Refuses c env f) := by
  have hsize : msggetsize f f.length (NodeConn.c2nMessages ntop6 final env) = f.length := by
    obtain ⟨h, heq⟩ := @NodeConn.c2nMessages_table _ ntop6 final env
    rw [heq]
    exact hf.isMessage h
  obtain ⟨m, hm, hk, hcall⟩ := processmsg_entry hsize
  rw [hcall]
  obtain ⟨ps, hwf⟩ := hlist
  simp only [NodeConn.c2nMessages, List.mem_cons, List.not_mem_nil, or_false] at hm
  have hreply : byteAt f 0 = Proto.FOUND ∨ byteAt f 0 = Proto.NOTFOUND →
      ∃ c' r, NodeConn.c2nFn (·.procmsgReply env) (some c) f = (some c', r) ∧
        c'.Listed ∧ (r = 0 ↔ Refuses c env f) := by
    intro hk
    obtain ⟨ps', hwf', -⟩ := @ChannelList.procmsgReply_others c.chans ps env.start f hwf
    exact ⟨_, _, c2nFn_eq rfl, ⟨ps', hwf'⟩, procmsgReply_ret.trans (refuses_reply_iff hk).symm⟩
  rcases hm with rfl | rfl | rfl | rfl | rfl | rfl | rfl | rfl <;> dsimp only at hk ⊢
  · obtain ⟨r, ps', hr, hwf'⟩ := @ChannelList.connreqinc_wellFormed c.chans ps f env.call hwf
    refine ⟨{ c with chans := r.1 }, r.2, c2nFn_eq ?_, ⟨ps', hwf'⟩, ?_⟩
    · rw [NodeConn.procmsgCONNREQINC, hr]
      rfl
    · rw [Refuses, if_pos (show byteAt f 0 = Proto.CONNREQINC from hk)]
      exact connreqinc_ret hr
  · exact hreply (.inr hk)
  · exact hreply (.inl hk)
  · rcases hf.kind with hkind | ⟨own, items, rfl⟩
    · rw [hk] at hkind
      exact absurd hkind (by decide)
    · obtain ⟨calls, hcalls⟩ := @procmsgCLNODELIST_nodelist ntop6 own items
      refine ⟨{ c with nodelistCalls := c.nodelistCalls ++ calls }, 1, c2nFn_eq ?_, ⟨ps, hwf⟩,
        iff_of_false one_ne_zero (not_refuses (.inl hk))⟩
      rw [NodeConn.procmsgCLNODELIST, hcalls]
  · have hping : Refuses c env f ↔ env.mem = false := by
      rw [Refuses, hk, if_neg (by decide), if_neg (by decide)]
      exact and_iff_right rfl
    rw [hping]
    by_cases hmem : env.mem = true
    · refine ⟨c.push (head Proto.PINGREP ++ [env.rand.1, env.rand.2]), 1, c2nFn_eq ?_,
        ⟨ps, hwf.linked, hwf.allocated⟩, by simp [hmem]⟩
      rw [NodeConn.procmsgPINGREQ, if_pos hmem]
    · refine ⟨c, 0, c2nFn_eq ?_, ⟨ps, hwf⟩, by simpa using hmem⟩
      rw [NodeConn.procmsgPINGREQ, if_neg hmem]
  · rcases hf.kind with hkind | ⟨own, items, rfl⟩
    · rw [hk] at hkind
      exact absurd hkind (by decide)
    · exact absurd hk (by rw [nodelistFrame, List.append_assoc, byteAt_head]; decide)
  · rcases hf.kind with hkind | ⟨own, items, rfl⟩
    · rw [hk] at hkind
      exact absurd hkind (by decide)
    · exact absurd hk (by rw [nodelistFrame, List.append_assoc, byteAt_head]; decide)
  · have hlen : f.length = 4 + load16 f 2 := length_of_entry (by rw [hk]; rfl) hsize
    have hno : 1 = 0 ↔ Refuses c env f := iff_of_false (by decide) (not_refuses (.inr hk))
    rcases @procmsgMULTILOGIN_cases _ final c.notices env.notice f hlen with hsame | ⟨cb, _, hnew, -⟩
    · refine ⟨{ c with multiloginCalls := c.multiloginCalls ++ [] }, 1, c2nFn_eq ?_, ⟨ps, hwf⟩, hno⟩
      rw [NodeConn.procmsgMULTILOGIN, hsame]
      rfl
    · refine ⟨{ c with
        notices := { c.notices with last := cb.timestamp }
        multiloginCalls := c.multiloginCalls ++ [cb] }, 1, c2nFn_eq ?_, ⟨ps, hwf⟩, hno⟩
      rw [NodeConn.procmsgMULTILOGIN, hnew]
      rfl

end Messages

/-! ## Reads -/

section Reads

variable {Pub : Type} (ntop6 : List UInt8 → List Char) (final : Pub → List UInt8 → List UInt8 → Int)
  {c c' : NodeConn} {msgs : List (C2nMsgEnv Pub × Frame)}

/-- One of the messages of a read is refused, and the ones before it are not. -/
def RefusesOne (c : NodeConn) (msgs : List (C2nMsgEnv Pub × Frame)) : Prop :=
  ∃ before m after mid, msgs = before ++ m :: after ∧
    c.handleMsgs ntop6 final before = some (mid, true) ∧ Refuses mid m.1 m.2

variable {ntop6 final}

theorem refusesOne_cons
    {env : C2nMsgEnv Pub} {f : Frame} {r : Nat}
    (h : processmsg f f.length (some c) (NodeConn.c2nMessages ntop6 final env) = (some c', r))
    (hr : r = 0 ↔ Refuses c env f) :
    RefusesOne ntop6 final c ((env, f) :: msgs) ↔ r = 0 ∨ RefusesOne ntop6 final c' msgs := by
  have hcons : ∀ before, c.handleMsgs ntop6 final ((env, f) :: before) =
      if r = 0 then some (c', false) else c'.handleMsgs ntop6 final before := by
    intro before
    rw [NodeConn.handleMsgs, h]
    rfl
  constructor
  · rintro ⟨before, m, after, mid, hmsgs, hbefore, href⟩
    cases before with
    | nil =>
        cases hmsgs
        cases hbefore
        exact .inl (hr.mpr href)
    | cons m₀ before =>
        cases hmsgs
        rw [hcons] at hbefore
        by_cases hzero : r = 0
        · exact .inl hzero
        · rw [if_neg hzero] at hbefore
          exact .inr ⟨before, m, after, mid, rfl, hbefore, href⟩
  · intro hor
    by_cases hzero : r = 0
    · exact ⟨[], (env, f), msgs, c, rfl, rfl, hr.mp hzero⟩
    · obtain ⟨before, m, after, mid, rfl, hbefore, href⟩ := hor.resolve_left hzero
      refine ⟨(env, f) :: before, m, after, mid, rfl, ?_, href⟩
      rw [hcons, if_neg hzero]
      exact hbefore

/-- **The messages of a read.** -/
theorem handleMsgs_nodeSent (hlist : c.Listed) (hmsgs : ∀ m ∈ msgs, NodeSent m.2) :
    ∃ c' b, c.handleMsgs ntop6 final msgs = some (c', b) ∧
      (b = false ↔ RefusesOne ntop6 final c msgs) := by
  induction msgs generalizing c with
  | nil =>
      refine ⟨c, true, rfl, iff_of_false (by decide) ?_⟩
      rintro ⟨before, m, after, mid, hmsgs, -⟩
      exact absurd hmsgs (by simp)
  | cons m msgs ih =>
      obtain ⟨env, f⟩ := m
      obtain ⟨u, r, hu, hlist', hr⟩ := @processmsg_nodeSent _ ntop6 final c env f hlist
        (hmsgs _ List.mem_cons_self)
      rw [NodeConn.handleMsgs, hu, refusesOne_cons hu hr]
      dsimp only [Option.bind_some]
      by_cases hzero : r = 0
      · rw [if_pos hzero]
        exact ⟨u, false, rfl, iff_of_true rfl (.inl hzero)⟩
      · rw [if_neg hzero]
        obtain ⟨c', b, hc', hb⟩ := ih hlist' fun m hm => hmsgs m (List.mem_cons_of_mem _ hm)
        exact ⟨c', b, hc', hb.trans (or_iff_right hzero).symm⟩

end Reads

/-! ## Runs -/

namespace NodeConn

section Listed

variable {Pub Priv : Type} {ntop6 : List UInt8 → List Char}
  {final : Pub → List UInt8 → List UInt8 → Int} {sign : Priv → List UInt8 → List UInt8}
  {c c' : NodeConn} {io : C2nIo Pub Priv}

/-- The list of channels is the same. -/
structure SameList (c c' : NodeConn) : Prop where
  links : c'.chans.links = c.chans.links
  count : c'.chans.count = c.chans.count

theorem SameList.listed (h : SameList c c') (hlist : c.Listed) : c'.Listed := by
  obtain ⟨ps, hwf⟩ := hlist
  refine ⟨ps, ?_, fun p hp => ?_⟩
  · rw [h.links]
    exact hwf.linked
  · rw [h.count]
    exact hwf.allocated p hp

theorem procmsgINITRESP_sameList {f : Frame} {r : Nat} (h : c.procmsgINITRESP f = some (c', r)) :
    SameList c c' := by
  rw [procmsgINITRESP] at h
  split_ifs at h <;>
  · cases h
    exact ⟨rfl, rfl⟩

theorem processmsg_listed
    {env : C2nMsgEnv Pub} {f : Frame} {r : Nat} (hlist : c.Listed)
    (hsize : msggetsize f f.length (c2nMessages ntop6 final env) = f.length)
    (h : processmsg f f.length (some c) (c2nMessages ntop6 final env) = (some c', r)) :
    c'.Listed := by
  obtain ⟨m, hm, -, hcall⟩ := processmsg_entry hsize
  rw [hcall] at h
  obtain ⟨ps, hwf⟩ := hlist
  have hreply : c2nFn (·.procmsgReply env) (some c) f = (some c', r) → c'.Listed := by
    intro h
    obtain ⟨ps', hwf', -⟩ := @ChannelList.procmsgReply_others c.chans ps env.start f hwf
    cases c2nFn_some h
    exact ⟨ps', hwf'⟩
  simp only [c2nMessages, List.mem_cons, List.not_mem_nil, or_false] at hm
  rcases hm with rfl | rfl | rfl | rfl | rfl | rfl | rfl | rfl <;> dsimp only at h
  · obtain ⟨u, ps', hu, hwf'⟩ := @ChannelList.connreqinc_wellFormed c.chans ps f env.call hwf
    have hfn := c2nFn_some h
    rw [procmsgCONNREQINC, hu] at hfn
    cases hfn
    exact ⟨ps', hwf'⟩
  · exact hreply h
  · exact hreply h
  · have hfn := c2nFn_some h
    rw [procmsgCLNODELIST] at hfn
    split at hfn
    · cases hfn
    · cases hfn
      exact ⟨ps, hwf⟩
  · have hfn := c2nFn_some h
    rw [procmsgPINGREQ] at hfn
    split_ifs at hfn <;>
    · cases hfn
      exact ⟨ps, hwf.linked, hwf.allocated⟩
  · exact (procmsgINITRESP_sameList (c2nFn_some h)).listed ⟨ps, hwf⟩
  · exact (procmsgINITRESP_sameList (c2nFn_some h)).listed ⟨ps, hwf⟩
  · have hfn := c2nFn_some h
    rw [procmsgMULTILOGIN] at hfn
    split at hfn
    · cases hfn
    · cases hfn
      exact ⟨ps, hwf⟩

theorem handleMsgs_listed
    {msgs : List (C2nMsgEnv Pub × Frame)} {b : Bool} (hlist : c.Listed)
    (hsize : ∀ m ∈ msgs, msggetsize m.2 m.2.length (c2nMessages ntop6 final m.1) = m.2.length)
    (h : c.handleMsgs ntop6 final msgs = some (c', b)) :
    c'.Listed := by
  induction msgs generalizing c with
  | nil =>
      cases h
      exact hlist
  | cons m msgs ih =>
      obtain ⟨env, f⟩ := m
      rw [handleMsgs] at h
      obtain ⟨u, hu, hrest⟩ := Option.bind_eq_some_iff.mp h
      have hstep : u.Listed := processmsg_listed hlist (hsize _ List.mem_cons_self) (Prod.ext hu rfl)
      split_ifs at hrest
      · cases hrest
        exact hstep
      · exact ih hstep (fun m hm => hsize m (List.mem_cons_of_mem _ hm)) hrest

theorem transfer_listed
    {ret : Int} (hlist : c.Listed)
    (hsize : ∀ m ∈ io.msgs, msggetsize m.2 m.2.length (c2nMessages ntop6 final m.1) = m.2.length)
    (h : c.transfer ntop6 final io = some (c', ret)) :
    c'.Listed := by
  rw [transfer] at h
  by_cases hr : io.rfds = true
  · rw [if_pos hr, readC2n] at h
    split_ifs at h
    · cases h
      exact hlist
    · obtain ⟨⟨u, b⟩, hu, hres⟩ := Option.map_eq_some_iff.mp h
      cases hres
      exact handleMsgs_listed hlist hsize hu
  · rw [if_neg hr] at h
    cases h
    exact hlist

theorem stage2_sameList : SameList c (c.stage2Startanontls io).1 := by
  rw [stage2Startanontls]
  split_ifs <;> exact ⟨rfl, rfl⟩

theorem stage3_sameList : SameList c (c.stage3Sendreq io).1 := by
  rw [stage3Sendreq]
  split_ifs <;> exact ⟨rfl, rfl⟩

theorem stage4_sameList : SameList c (c.stage4Shutdownanontls io).1 := by
  rw [stage4Shutdownanontls]
  split <;> exact ⟨rfl, rfl⟩

theorem stage5_sameList : SameList c (c.stage5Starttls io).1 := by
  rw [stage5Starttls]
  split_ifs
  · exact ⟨rfl, rfl⟩
  · split <;> exact ⟨rfl, rfl⟩

theorem stage6_sameList : SameList c (c.stage6Nodelistrequest sign io).1 := by
  rw [stage6Nodelistrequest]
  split_ifs
  · dsimp only
    split_ifs
    · split <;> exact ⟨rfl, rfl⟩
    · exact ⟨rfl, rfl⟩
  · exact ⟨rfl, rfl⟩

theorem answered_sameList {ret : Int} : SameList c (c.answered io ret).1 := by
  rw [answered]
  split_ifs
  · exact stage4_sameList
  · exact ⟨rfl, rfl⟩
  · exact ⟨rfl, rfl⟩
  · exact ⟨rfl, rfl⟩

theorem processC2n_listed
    {ret : Int} (hlist : c.Listed)
    (hsize : ∀ m ∈ io.msgs, msggetsize m.2 m.2.length (c2nMessages ntop6 final m.1) = m.2.length)
    (h : c.processC2n ntop6 final sign io = some (c', ret)) :
    c'.Listed := by
  -- all stages but the two that read messages
  have hstage : ∀ (b : Prop) [Decidable b] (r : NodeConn × Int), SameList c r.1 →
      (if b then some r else some (c, 0)) = some (c', ret) → c'.Listed := by
    intro b _ r hr h
    split_ifs at h
    · cases h
      exact hr.listed hlist
    · cases h
      exact hlist
  rw [processC2n] at h
  split at h
  · refine hstage _ _ ?_ h
    split_ifs
    · exact stage2_sameList
    · exact ⟨rfl, rfl⟩
  · refine hstage _ _ ?_ h
    split_ifs
    · exact stage3_sameList
    · exact ⟨rfl, rfl⟩
  · obtain ⟨⟨u, r⟩, hu, hres⟩ := Option.map_eq_some_iff.mp h
    have hlist' := (@answered_sameList _ _ u io r).listed (transfer_listed hlist hsize hu)
    rw [hres] at hlist'
    exact hlist'
  · refine hstage _ _ ?_ h
    split
    · exact ⟨rfl, rfl⟩
    · exact stage5_sameList
    · exact ⟨rfl, rfl⟩
  · refine hstage _ _ ?_ h
    split
    · exact stage6_sameList
    · exact ⟨rfl, rfl⟩
    · exact ⟨rfl, rfl⟩
  · exact transfer_listed hlist hsize h

theorem c2nStep_listed
    {e : C2nEvent Pub Priv} (hlist : c.Listed) (h : c2nStep ntop6 final sign c e = some c') :
    c'.Listed := by
  unfold c2nStep at h
  split_ifs at h
  obtain ⟨ps, hwf⟩ := hlist
  cases e with
  | pass io =>
      dsimp only at h
      split_ifs at h with hall
      obtain ⟨⟨u, ret⟩, hu, hres⟩ := Option.map_eq_some_iff.mp h
      have hlist' : u.Listed := processC2n_listed ⟨ps, hwf⟩
        (fun m hm => of_decide_eq_true (List.all_eq_true.mp hall m hm)) hu
      dsimp only at hres
      by_cases hret : ret = 0
      · rw [if_pos hret] at hres
        exact hres ▸ hlist'
      · rw [if_neg hret] at hres
        exact hres ▸ hlist'
  | newC2c peerId calloc mem =>
      obtain ⟨r, ps', hr, hwf'⟩ := @ChannelList.newC2c_wellFormed c.chans ps peerId calloc mem hwf
      dsimp only at h
      rw [hr] at h
      cases h
      exact ⟨ps', hwf'⟩
  | proceed p st =>
      obtain ⟨l, hl, rfl⟩ := Option.map_eq_some_iff.mp h
      exact ChannelList.channelStep_wellFormed hwf hl
  | closeC2c p =>
      obtain ⟨l, hl, rfl⟩ := Option.map_eq_some_iff.mp h
      exact ChannelList.channelStep_wellFormed hwf hl
  | close =>
      cases h
      exact ⟨ps, hwf⟩

theorem newC2n_listed {srvAddr : SockAddr} {accId : Id} {multilogin done : Bool} :
    (newC2n srvAddr accId multilogin done io).1.Listed := by
  have hfirst : (⟨srvAddr, multilogin, .connecting, 0, 0, 0,
      { ChannelList.init with connected := false }, .fresh accId, [], [], [], false⟩ :
        NodeConn).Listed :=
    ⟨[], ChannelList.init_wellFormed.linked, ChannelList.init_wellFormed.allocated⟩
  rw [newC2n]
  split_ifs
  · exact stage2_sameList.listed hfirst
  · exact hfirst

end Listed

section Runs

variable {Pub Priv : Type} {ntop6 : List UInt8 → List Char}
  {final : Pub → List UInt8 → List UInt8 → Int} {sign : Priv → List UInt8 → List UInt8}
  {c₀ c : NodeConn} {io₀ io : C2nIo Pub Priv} {es : List (C2nEvent Pub Priv)}
  {srvAddr : SockAddr} {accId : Id} {multilogin done : Bool}

theorem run_listed
    (hnew : newC2n srvAddr accId multilogin done io₀ = (c₀, 0))
    (hrun : run (c2nStep ntop6 final sign) c₀ es = some c) :
    c.Listed := by
  have hfirst := @newC2n_listed _ _ io₀ srvAddr accId multilogin done
  rw [hnew] at hfirst
  exact run_invariant (fun s e t hs _ hstep => c2nStep_listed hs hstep) hfirst meets_true hrun

/-- What ends the connection in a pass over an established one. -/
inductive Ends (ntop6 : List UInt8 → List Char) (final : Pub → List UInt8 → List UInt8 → Int)
    (c : NodeConn) (io : C2nIo Pub Priv) : Prop
  | write (hr : io.rfds = false) (hw : io.wfds = true) (h : Session.writeRet io.write ≠ .ok)
  | read (hr : io.rfds = true) (h : io.got = false)
  | wrong (hr : io.rfds = true) (hgot : io.got = true) (h : io.wrong = true)
  | refused (hr : io.rfds = true) (hgot : io.got = true)
      (h : RefusesOne ntop6 final c io.msgs)

theorem Ret.code_eq_zero {r : Ret} : r.code = 0 ↔ r = .ok := by
  cases r <;> simp [Ret.code]

/-- **What a pass over an established connection returns.** -/
theorem transfer_nodeSent (hlist : c.Listed) (hmsgs : ∀ m ∈ io.msgs, NodeSent m.2) :
    ∃ c' ret, c.transfer ntop6 final io = some (c', ret) ∧ (ret ≠ 0 ↔ Ends ntop6 final c io) := by
  rw [transfer]
  by_cases hr : io.rfds = true
  · rw [if_pos hr, readC2n]
    by_cases hgot : io.got = false
    · rw [if_pos hgot]
      exact ⟨c, _, rfl, iff_of_true (by decide) (.read hr hgot)⟩
    · rw [if_neg hgot]
      rw [Bool.not_eq_false] at hgot
      obtain ⟨c', b, hc', hb⟩ := @handleMsgs_nodeSent _ ntop6 final c io.msgs hlist hmsgs
      rw [hc']
      refine ⟨c', _, rfl, ?_⟩
      dsimp only
      constructor
      · intro hret
        by_cases hwrong : io.wrong = true
        · exact .wrong hr hgot hwrong
        · refine .refused hr hgot (hb.mp ?_)
          by_contra hne
          rw [if_neg (fun h => h.elim hne hwrong)] at hret
          exact hret rfl
      · intro hend
        have hor : b = false ∨ io.wrong = true := by
          cases hend with
          | write hno => exact absurd (hr.symm.trans hno) (by decide)
          | read _ hno => exact absurd (hgot.symm.trans hno) (by decide)
          | wrong _ _ h => exact .inr h
          | refused _ _ h => exact .inl (hb.mpr h)
        rw [if_pos hor]
        decide
  · rw [if_neg hr]
    rw [Bool.not_eq_true] at hr
    refine ⟨c, _, rfl, ?_⟩
    constructor
    · intro hret
      by_cases hw : io.wfds = true
      · refine .write hr hw fun hok => hret ?_
        rw [if_pos hw, hok]
        rfl
      · rw [if_neg hw] at hret
        exact absurd rfl hret
    · intro hend
      cases hend with
      | write _ hw h =>
          rw [if_pos hw]
          exact fun hzero => h (Ret.code_eq_zero.mp hzero)
      | read hyes => exact absurd (hr.symm.trans hyes) (by decide)
      | wrong hyes => exact absurd (hr.symm.trans hyes) (by decide)
      | refused hyes => exact absurd (hr.symm.trans hyes) (by decide)

/-- **A client of a node that is one.**  In every run of the client, and for all messages that a
node has queued for a client in some run of its own, a pass over an established connection in
which the client reads these messages comes to its end, and closes the connection exactly if the
session fails, what is behind the messages is none, or a handler has one of the reasons of
`Refuses`. -/
theorem closed_by_node_message
    {n : Node} {cl : PicaPica.Client}
    (hnew : newC2n srvAddr accId multilogin done io₀ = (c₀, 0))
    (hrun : run (c2nStep ntop6 final sign) c₀ es = some c)
    (hstate : c.state = .connected) (hopen : c.freed = false)
    (hn : Reachable n) (hcl : cl ∈ n.clients)
    (hmsgs : ∀ m ∈ io.msgs, m.2 ∈ cl.pushed ∧ byteAt m.2 0 ≠ Proto.PINGREP) :
    ∃ c', c2nStep ntop6 final sign c (.pass io) = some c' ∧
      (c'.freed = true ↔ Ends ntop6 final c io) := by
  have hsent : ∀ m ∈ io.msgs, NodeSent m.2 :=
    fun m hm => queued_nodeSent hn hcl (hmsgs m hm).1 (hmsgs m hm).2
  have hsize : ∀ m ∈ io.msgs,
      msggetsize m.2 m.2.length (c2nMessages ntop6 final m.1) = m.2.length := by
    intro m hm
    obtain ⟨h, heq⟩ := @c2nMessages_table _ ntop6 final m.1
    rw [heq]
    exact (hsent m hm).isMessage h
  obtain ⟨u, ret, hu, hret⟩ := @transfer_nodeSent _ _ ntop6 final c io (run_listed hnew hrun) hsent
  have hkept := (transfer_took hsize hu).1
  have hall : (io.msgs.all fun m =>
      decide (msggetsize m.2 m.2.length (c2nMessages ntop6 final m.1) = m.2.length)) = true :=
    List.all_eq_true.mpr fun m hm => decide_eq_true (hsize m hm)
  unfold c2nStep
  rw [if_neg (by simp [hopen])]
  dsimp only
  rw [if_pos hall, eventLoop, processC2n, hstate]
  dsimp only
  rw [hu]
  refine ⟨_, rfl, ?_⟩
  rw [← hret]
  dsimp only
  by_cases hzero : ret = 0
  · rw [if_pos hzero, hkept.freed, hopen]
    simp [hzero]
  · rw [if_neg hzero]
    simp [hzero]

/-- What client 2 reads when client 1 calls it; memory is short if `mem` says so. -/
def callIo (mem : Bool) : C2nIo Unit Unit :=
  loginIo [({ respOk.1 with call := { respOk.1.call with mem := mem } },
    head Proto.CONNREQINC ++ (Id.ofByte 1).1)]

theorem closed_by_node_message_call :
    ∃ c ∈ (stateAfter freshNode callRequested).clients,
      (head Proto.CONNREQINC ++ (Id.ofByte 1).1) ∈ c.pushed ∧
        ∃ conn, run (c2nStep (fun _ => []) markFinal markSign) connecting
            (loginPasses.take 6) = some conn ∧
          ∀ mem, ∃ conn', c2nStep (fun _ => []) markFinal markSign conn (.pass (callIo mem)) =
            some conn' ∧ (conn'.freed = true ↔ Ends (fun _ => []) markFinal conn (callIo mem)) := by
  have hreach := @stateAfter_reachable callRequested (by decide +kernel)
  obtain ⟨c, hc, hx⟩ : ∃ c ∈ (stateAfter freshNode callRequested).clients,
      (head Proto.CONNREQINC ++ (Id.ofByte 1).1) ∈ c.pushed := by decide +kernel
  obtain ⟨conn, hrun, hstate, hopen⟩ := @run_ends _ _ (c2nStep (fun _ => []) markFinal markSign)
    (fun c => c.state = .connected ∧ c.freed = false) inferInstance connecting
    (loginPasses.take 6) (by decide +kernel)
  refine ⟨c, hc, hx, conn, hrun, fun mem => ?_⟩
  refine closed_by_node_message connecting_new hrun hstate hopen hreach hc fun m hm => ?_
  obtain rfl := List.mem_singleton.mp hm
  exact ⟨hx, show byteAt (head Proto.CONNREQINC ++ (Id.ofByte 1).1) 0 ≠ Proto.PINGREP by decide⟩

end Runs

end NodeConn

end Client
end PicaPica
