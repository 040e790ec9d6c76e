import PicaPica.Node.Effects
import PicaPica.Node.NodeList

/-!
# Connections to other nodes (`PICA_nodewait.c`)

`nodewait_connect_thread` tries the addresses of a node until a TLS connection is made, and
`process_nodewait` takes the entries with a result off `nodewait_list`; the nodes are looked up
again only when this list is empty.  When `SSL_new` fails, the thread returns without a result
(`attempt_ends_iff`), and its entry stays in the list for good (`orphan_stays`).

A thread changes its own entry only, so it is one event that it returns.
-/

namespace PicaPica

open Table Machine

/-- `PICA_NODEWAIT_*`. -/
inductive NodewaitState
  | new
  | resolving
  | resolved
  | connecting
  | connected
  | resolvingFailed
  | connectFailed
deriving DecidableEq

/-- A resolved address, with what the calls that are made for it return. -/
structure Addrinfo where
  addr : SockAddr
  /-- `socket` -/
  sck : Socket
  /-- `connect` returns 0 -/
  connect : Bool
  /-- `SSL_new` -/
  ssl : Option Ptr
  /-- `SSL_set_fd` does not return 0 -/
  setFd : Bool
  /-- `SSL_connect` returns 1 -/
  sslConnect : Bool
deriving DecidableEq

/-- The connection to the address and its TLS handshake succeed. -/
def Addrinfo.completes (ap : Addrinfo) : Bool :=
  ap.sck ≠ -1 && ap.connect && ap.ssl.isSome && ap.setFd && ap.sslConnect

/-- The connection succeeds, and `SSL_new` fails. -/
def Addrinfo.sslMissing (ap : Addrinfo) : Bool :=
  ap.sck ≠ -1 && ap.connect && ap.ssl.isNone

/-- `struct nodewait`. -/
structure Nodewait where
  ptr : Ptr
  /-- `nc.sck`, `nc.addr` and `nc.anonssl` -/
  ncSck : Socket
  ncAddr : SockAddr
  ncAnonssl : Option Ptr
  state : NodewaitState
  addr : Nodeaddr
  ai : List Addrinfo
deriving DecidableEq

/-! ## The thread -/

/-- A run of `nodewait_connect_thread`. -/
structure ConnectThread where
  nw : Nodewait
  /-- the sockets and the TLS objects that are open, the last one first -/
  socks : List Socket
  ssls : List Ptr
  /-- the addresses that have been tried, in order -/
  tried : List SockAddr
deriving DecidableEq

namespace ConnectThread

variable (t : ConnectThread)

def socket (ap : Addrinfo) : ConnectThread :=
  { t with
    nw := { t.nw with ncSck := ap.sck }
    socks := if ap.sck = -1 then t.socks else ap.sck :: t.socks
    tried := t.tried ++ [ap.addr] }

/-- `CLOSE(nw->nc.sck)`. -/
def close : ConnectThread :=
  { t with socks := t.socks.erase t.nw.ncSck }

def sslNew (ap : Addrinfo) : ConnectThread :=
  { t with
    nw := { t.nw with ncAnonssl := ap.ssl }
    ssls := ap.ssl.toList ++ t.ssls }

/-- `SSL_free(nw->nc.anonssl)`, and the pointer is cleared. -/
def sslFree : ConnectThread :=
  { t with
    nw := { t.nw with ncAnonssl := none }
    ssls := match t.nw.ncAnonssl with
      | some p => t.ssls.erase p
      | none => t.ssls }

/-- The loop of `nodewait_connect_thread` with what follows it. -/
def loop : List Addrinfo → ConnectThread → ConnectThread
  | [], t => { t with nw := { t.nw with state := .connectFailed } }
  | ap :: aps, t =>
      let t := t.socket ap
      if ap.sck = -1 then loop aps t
      else if !ap.connect then loop aps t.close
      else
        let t := t.sslNew ap
        -- the state is left as it is
        if t.nw.ncAnonssl = none then t.close
        else if !ap.setFd || !ap.sslConnect then loop aps t.sslFree.close
        else { t with nw := { t.nw with ncAddr := ap.addr, state := .connected } }

end ConnectThread

/-- `nodewait_connect_thread`. -/
def Nodewait.connectThread (nw : Nodewait) : ConnectThread :=
  .loop nw.ai ⟨nw, [], [], []⟩

/-- `nodewait_start_connect`. -/
def Nodewait.startConnect (nw : Nodewait) : Nodewait :=
  { nw with state := .connecting }

/-- The attempt to connect that `nodewait_start_connect` begins. -/
def Nodewait.attempt (nw : Nodewait) : ConnectThread :=
  nw.startConnect.connectThread

section Thread

open ConnectThread

variable {ap : Addrinfo} {aps : List Addrinfo} {t : ConnectThread}

/-- An address that does not complete and has its TLS object is passed. -/
theorem loop_next (hno : ap.completes = false) (hthere : ap.sslMissing = false) :
    ∃ s p, loop (ap :: aps) t = loop aps
      ⟨{ t.nw with ncSck := s, ncAnonssl := p }, t.socks, t.ssls, t.tried ++ [ap.addr]⟩ := by
  rw [loop]
  by_cases hsck : ap.sck = -1
  · exact ⟨ap.sck, t.nw.ncAnonssl, by simp [hsck, ConnectThread.socket]⟩
  by_cases hconn : ap.connect = true
  · cases hssl : ap.ssl with
    | none => simp [Addrinfo.sslMissing, hsck, hconn, hssl] at hthere
    | some p =>
        have hfail : (!ap.setFd || !ap.sslConnect) = true := by
          simpa [Addrinfo.completes, hsck, hconn, hssl, Bool.or_eq_true, imp_iff_not_or] using hno
        refine ⟨ap.sck, none, ?_⟩
        simp [hsck, hconn, hssl, hfail, ConnectThread.socket, ConnectThread.sslNew,
          ConnectThread.sslFree, ConnectThread.close]
  · refine ⟨ap.sck, t.nw.ncAnonssl, ?_⟩
    simp [hsck, hconn, ConnectThread.socket, ConnectThread.close]

theorem loop_found (h : ap.completes = true) :
    ∃ p, ap.ssl = some p ∧ loop (ap :: aps) t =
      ⟨{ t.nw with ncSck := ap.sck, ncAddr := ap.addr, ncAnonssl := some p, state := .connected },
        ap.sck :: t.socks, p :: t.ssls, t.tried ++ [ap.addr]⟩ := by
  simp only [Addrinfo.completes, Bool.and_eq_true, decide_eq_true_eq] at h
  obtain ⟨⟨⟨⟨hsck, hconn⟩, hssl⟩, hfd⟩, htls⟩ := h
  obtain ⟨p, hp⟩ := Option.isSome_iff_exists.mp hssl
  refine ⟨p, hp, ?_⟩
  simp [loop, hsck, hconn, hp, hfd, htls, ConnectThread.socket, ConnectThread.sslNew]

theorem loop_missing (h : ap.sslMissing = true) :
    loop (ap :: aps) t =
      ⟨{ t.nw with ncSck := ap.sck, ncAnonssl := none },
        t.socks, t.ssls, t.tried ++ [ap.addr]⟩ := by
  simp only [Addrinfo.sslMissing, Bool.and_eq_true, decide_eq_true_eq,
    Option.isNone_iff_eq_none] at h
  obtain ⟨⟨hsck, hconn⟩, hssl⟩ := h
  simp [loop, hsck, hconn, hssl, ConnectThread.socket, ConnectThread.sslNew, ConnectThread.close]

/-- How the loop ends that is begun in `t`: at the first address that completes, behind the
last one, or at one without a TLS object. -/
inductive ConnectEnd (aps : List Addrinfo) (t r : ConnectThread) : Prop
  | connected (pre : List Addrinfo) (ap : Addrinfo) (post : List Addrinfo) (p : Ptr)
      (split : aps = pre ++ ap :: post)
      (before : ∀ x ∈ pre, x.completes = false ∧ x.sslMissing = false)
      (first : ap.completes = true)
      (result : r =
        ⟨{ t.nw with ncSck := ap.sck, ncAddr := ap.addr, ncAnonssl := some p, state := .connected },
          ap.sck :: t.socks, p :: t.ssls, t.tried ++ (pre ++ [ap]).map Addrinfo.addr⟩)
  | failed (s : Socket) (p : Option Ptr)
      (before : ∀ x ∈ aps, x.completes = false ∧ x.sslMissing = false)
      (result : r =
        ⟨{ t.nw with ncSck := s, ncAnonssl := p, state := .connectFailed },
          t.socks, t.ssls, t.tried ++ aps.map Addrinfo.addr⟩)
  | missing (pre : List Addrinfo) (ap : Addrinfo) (post : List Addrinfo)
      (split : aps = pre ++ ap :: post)
      (before : ∀ x ∈ pre, x.completes = false ∧ x.sslMissing = false)
      (first : ap.sslMissing = true)
      (result : r =
        ⟨{ t.nw with ncSck := ap.sck, ncAnonssl := none },
          t.socks, t.ssls, t.tried ++ (pre ++ [ap]).map Addrinfo.addr⟩)

/-- One more address in front. -/
theorem ConnectEnd.cons
    {r : ConnectThread} {s : Socket} {p : Option Ptr}
    (hno : ap.completes = false) (hthere : ap.sslMissing = false)
    (h : ConnectEnd aps
      ⟨{ t.nw with ncSck := s, ncAnonssl := p }, t.socks, t.ssls, t.tried ++ [ap.addr]⟩ r) :
    ConnectEnd (ap :: aps) t r := by
  have hbefore : ∀ {pre : List Addrinfo},
      (∀ x ∈ pre, x.completes = false ∧ x.sslMissing = false) →
        ∀ x ∈ ap :: pre, x.completes = false ∧ x.sslMissing = false := by
    intro pre hpre x hx
    rcases List.mem_cons.mp hx with rfl | hx
    · exact ⟨hno, hthere⟩
    · exact hpre x hx
  cases h with
  | connected pre ap' post p' hsplit hpre hfirst hresult =>
      refine .connected (ap :: pre) ap' post p' (by rw [hsplit]; rfl) (hbefore hpre) hfirst ?_
      rw [hresult, List.append_assoc]
      rfl
  | failed s' p' hpre hresult =>
      refine .failed s' p' (hbefore hpre) ?_
      rw [hresult, List.append_assoc]
      rfl
  | missing pre ap' post hsplit hpre hfirst hresult =>
      refine .missing (ap :: pre) ap' post (by rw [hsplit]; rfl) (hbefore hpre) hfirst ?_
      rw [hresult, List.append_assoc]
      rfl

theorem connect_end : ConnectEnd aps t (loop aps t) := by
  induction aps generalizing t with
  | nil =>
      refine .failed t.nw.ncSck t.nw.ncAnonssl nofun ?_
      rw [List.map_nil, List.append_nil]
      rfl
  | cons ap aps ih =>
      by_cases hyes : ap.completes = true
      · obtain ⟨p, -, heq⟩ := @loop_found ap aps t hyes
        exact .connected [] ap aps p rfl nofun hyes heq
      by_cases hmiss : ap.sslMissing = true
      · exact .missing [] ap aps rfl nofun hmiss (loop_missing hmiss)
      have hno := Bool.eq_false_iff.mpr hyes
      have hthere := Bool.eq_false_iff.mpr hmiss
      obtain ⟨s, p, heq⟩ := @loop_next ap aps t hno hthere
      rw [heq]
      exact ih.cons hno hthere

/-- `SSL_new` does not fail for an address that is reached before one completes. -/
def SslThere (aps : List Addrinfo) : Prop :=
  ∀ ap ∈ aps.takeWhile fun ap => !ap.completes, ap.sslMissing = false

theorem completes_of_missing (h : ap.sslMissing = true) : ap.completes = false := by
  simp only [Addrinfo.sslMissing, Bool.and_eq_true, Option.isNone_iff_eq_none] at h
  simp [Addrinfo.completes, h.2]

theorem takeWhile_before
    {pre : List Addrinfo} (h : ∀ x ∈ pre, x.completes = false ∧ x.sslMissing = false) :
    (pre ++ aps).takeWhile (fun ap => !ap.completes) =
      pre ++ aps.takeWhile fun ap => !ap.completes :=
  List.takeWhile_append_of_pos fun x hx => by rw [(h x hx).1]; rfl

theorem sslThere_of_connected
    {pre post : List Addrinfo}
    (hpre : ∀ x ∈ pre, x.completes = false ∧ x.sslMissing = false) (h : ap.completes = true) :
    SslThere (pre ++ ap :: post) := by
  intro x hx
  rw [takeWhile_before hpre, List.takeWhile_cons_of_neg (by simp [h]), List.append_nil] at hx
  exact (hpre x hx).2

theorem not_sslThere_of_missing
    {pre post : List Addrinfo}
    (hpre : ∀ x ∈ pre, x.completes = false ∧ x.sslMissing = false) (h : ap.sslMissing = true) :
    ¬SslThere (pre ++ ap :: post) := by
  intro hthere
  have hno := completes_of_missing h
  have hmem : ap ∈ (pre ++ ap :: post).takeWhile fun ap => !ap.completes := by
    rw [takeWhile_before hpre, List.takeWhile_cons_of_pos (by simp [hno])]
    exact List.mem_append_right _ List.mem_cons_self
  rw [hthere ap hmem] at h
  cases h

end Thread

/-! ## The list -/

/-- The list `nodewait_list` with what its entries are compared and used with. -/
structure Waiting where
  list : List Nodewait
  next : Ptr
  distinct : Distinct Nodewait.ptr list
  fresh : ∀ x ∈ list, x.ptr < next
  /-- the entries for which a thread runs -/
  threads : List Ptr
  /-- the addresses of the linked nodes -/
  links : List SockAddr
  /-- the calls of `PICA_nodeaddr_update` -/
  updates : List (Nodeaddr × Bool)
  skynetRefreshTmst : Int

/-- Whether there is memory for the link of an entry, and whether its thread is created. -/
structure TurnResults where
  added : Bool
  created : Bool

/-- An address that `PICA_node_joinskynet` does not skip, whether there is memory for its entry,
and whether its thread is created. -/
structure Lookup where
  addr : Nodeaddr
  mem : Bool
  created : Bool

namespace Waiting

variable (w : Waiting)

/-- `nodewait_list_delete`. -/
def nodewaitListDelete (p : Ptr) : Waiting :=
  { w with
    list := remove Nodewait.ptr p w.list
    distinct := w.distinct.remove
    fresh := fun x hx => w.fresh x (mem_remove.mp hx).1 }

/-- Change the entry `p`, not its pointer. -/
def modifyEntry (p : Ptr) (f : Nodewait → Nodewait) (hf : ∀ x, (f x).ptr = x.ptr) : Waiting :=
  { w with
    list := modify Nodewait.ptr p f w.list
    distinct := w.distinct.modify fun x _ _ => hf x
    fresh := by
      intro x hx
      obtain ⟨y, hy, rfl⟩ := mem_modify.mp hx
      have hlt := w.fresh y hy
      split_ifs
      · rwa [hf y]
      · exact hlt }

/-- `pthread_create` for the entry `p`. -/
def threadCreate (p : Ptr) (created : Bool) : Waiting :=
  { w with threads := if created then p :: w.threads else w.threads }

/-- The thread of the entry `p` returns. -/
def threadReturn (p : Ptr) : Waiting :=
  { w with threads := w.threads.filter (· ≠ p) }

/-- `nodewait_list_addnew`, for the address `a` and with the state of `nodewait_start_resolve`. -/
def nodewaitListAddnew (a : Nodeaddr) : Waiting :=
  { w with
    list := ⟨w.next, 0, ⟨0, 0⟩, none, .resolving, a, []⟩ :: w.list
    next := w.next + 1
    distinct := by
      refine List.nodup_cons.mpr ⟨fun hmem => ?_, w.distinct⟩
      obtain ⟨x, hx, hptr⟩ := List.mem_map.mp hmem
      exact absurd hptr (Nat.ne_of_lt (w.fresh x hx))
    fresh := by
      intro x hx
      rcases List.mem_cons.mp hx with rfl | hx
      · exact Nat.lt_succ_self _
      · exact Nat.lt_succ_of_lt (w.fresh x hx) }

/-- `nodewait_start_resolve`. -/
def nodewaitStartResolve (w : Waiting) (node : Lookup) : Waiting :=
  if node.mem then (w.nodewaitListAddnew node.addr).threadCreate w.next node.created else w

/-- `nodewait_start_connect`. -/
def nodewaitStartConnect (p : Ptr) (created : Bool) : Waiting :=
  (w.modifyEntry p Nodewait.startConnect fun _ => rfl).threadCreate p created

def nodeaddrUpdate (a : Nodeaddr) (alive : Bool) : Waiting :=
  { w with updates := w.updates ++ [(a, alive)] }

/-- `nodelink_list_addnew`. -/
def nodelinkListAddnew (a : SockAddr) (added : Bool) : Waiting :=
  { w with links := if added then w.links ++ [a] else w.links }

/-- One turn of the loop of `process_nodewait`. -/
def turn (io : Ptr → TurnResults) (w : Waiting) (nw : Nodewait) : Waiting :=
  match nw.state with
  | .resolved =>
      if w.links.any fun a => nw.ai.any fun ap => a = ap.addr then w.nodewaitListDelete nw.ptr
      else w.nodewaitStartConnect nw.ptr (io nw.ptr).created
  | .connected =>
      let w := w.nodelinkListAddnew nw.ncAddr (io nw.ptr).added
      (w.nodeaddrUpdate nw.addr true).nodewaitListDelete nw.ptr
  | .resolvingFailed => (w.nodeaddrUpdate nw.addr false).nodewaitListDelete nw.ptr
  | .connectFailed => (w.nodeaddrUpdate nw.addr false).nodewaitListDelete nw.ptr
  | .new => w
  | .resolving => w
  | .connecting => w

/-- `process_nodewait`; an entry is changed in its own turn only. -/
def processNodewait (io : Ptr → TurnResults) : Waiting :=
  w.list.foldl (turn io) w

/-- The condition of `process_timeouts` for looking up the nodes again. -/
def refreshDue (now : Int) : Bool :=
  now - w.skynetRefreshTmst > 93 && w.list.isEmpty

/-- `PICA_node_joinskynet`. -/
def nodeJoinskynet (now : Int) (nodes : List Lookup) : Waiting :=
  nodes.foldl nodewaitStartResolve { w with skynetRefreshTmst := now }

/-- `process_timeout_event`. -/
def processTimeoutEvent (now : Int) (nodes : List Lookup) (io : Ptr → TurnResults) : Waiting :=
  (if w.refreshDue now then w.nodeJoinskynet now nodes else w).processNodewait io

end Waiting

/-- What happens to the list. -/
inductive WaitingEvent
  /-- `nodewait_resolve_thread` returns, with addresses or a failure -/
  | resolveReturns (p : Ptr) (ai : Option (List Addrinfo))
  /-- `nodewait_connect_thread` returns -/
  | connectReturns (p : Ptr)
  | timeout (now : Int) (nodes : List Lookup) (io : Ptr → TurnResults)

/-- `nodewait_resolve_thread`. -/
def Nodewait.resolveThread (nw : Nodewait) (ai : Option (List Addrinfo)) : Nodewait :=
  match ai with
  | some ai => { nw with ai := ai, state := .resolved }
  | none => { nw with state := .resolvingFailed }

theorem resolveThread_ptr
    {nw : Nodewait} {ai : Option (List Addrinfo)} : (nw.resolveThread ai).ptr = nw.ptr := by
  cases ai with
  | none => rfl
  | some ai => rfl

theorem connectThread_ptr {nw : Nodewait} : nw.connectThread.nw.ptr = nw.ptr := by
  cases @connect_end nw.ai ⟨nw, [], [], []⟩ with
  | connected pre ap post p _ _ _ h => rw [Nodewait.connectThread, h]
  | failed s p _ h => rw [Nodewait.connectThread, h]
  | missing pre ap post _ _ _ h => rw [Nodewait.connectThread, h]

/-- One event; a thread that runs returns once. -/
def waitingStep (w : Waiting) : WaitingEvent → Option Waiting
  | .resolveReturns p ai =>
      if p ∈ w.threads ∧ ∃ x ∈ w.list, x.ptr = p ∧ x.state = .resolving then
        some ((w.modifyEntry p (fun x => x.resolveThread ai) fun _ =>
          resolveThread_ptr).threadReturn p)
      else none
  | .connectReturns p =>
      if p ∈ w.threads ∧ ∃ x ∈ w.list, x.ptr = p ∧ x.state = .connecting then
        some ((w.modifyEntry p (fun x => x.connectThread.nw) fun _ =>
          connectThread_ptr).threadReturn p)
      else none
  | .timeout now nodes io => some (w.processTimeoutEvent now nodes io)

/-! ## A pass over the list -/

section Pass

open Waiting

variable {w : Waiting} {io : Ptr → TurnResults} {x y nw : Nodewait} {nws : List Nodewait}
  {p : Ptr}

/-- The thread of the entry has a result, or no address. -/
def Nodewait.Settled (nw : Nodewait) : Prop :=
  nw.state = .connected ∨ nw.state = .resolvingFailed ∨ nw.state = .connectFailed

/-- The entry waits for a thread. -/
def Nodewait.Pending (nw : Nodewait) : Prop :=
  nw.state = .resolving ∨ nw.state = .connecting

/-- What a turn for `nw` makes of `w`. -/
inductive TurnEnd (io : Ptr → TurnResults) (w : Waiting) (nw : Nodewait) (r : Waiting) : Prop
  | removed (state : nw.state = .resolved ∨ nw.Settled)
      (list : r.list = remove Nodewait.ptr nw.ptr w.list) (threads : r.threads = w.threads)
      (tmst : r.skynetRefreshTmst = w.skynetRefreshTmst)
  | started (state : nw.state = .resolved)
      (list : r.list = modify Nodewait.ptr nw.ptr Nodewait.startConnect w.list)
      (threads : r.threads = if (io nw.ptr).created then nw.ptr :: w.threads else w.threads)
      (tmst : r.skynetRefreshTmst = w.skynetRefreshTmst)
  | left (state : nw.state = .new ∨ nw.Pending) (same : r = w)

theorem turn_end : TurnEnd io w nw (turn io w nw) := by
  rw [turn]
  cases hs : nw.state with
  | new => exact .left (.inl hs) rfl
  | resolving => exact .left (.inr (.inl hs)) rfl
  | connecting => exact .left (.inr (.inr hs)) rfl
  | connected => exact .removed (.inr (.inl hs)) rfl rfl rfl
  | resolvingFailed => exact .removed (.inr (.inr (.inl hs))) rfl rfl rfl
  | connectFailed => exact .removed (.inr (.inr (.inr hs))) rfl rfl rfl
  | resolved =>
      dsimp only
      by_cases hlinked : w.links.any fun a => nw.ai.any fun ap => a = ap.addr
      · rw [if_pos hlinked]
        exact .removed (.inl hs) rfl rfl rfl
      · rw [if_neg hlinked]
        exact .started hs rfl rfl rfl

/-- A pass adds no entry. -/
theorem turn_ptr (h : x ∈ (turn io w nw).list) : ∃ y ∈ w.list, y.ptr = x.ptr := by
  cases @turn_end w io nw with
  | removed _ hlist _ _ =>
      rw [hlist] at h
      exact ⟨x, (mem_remove.mp h).1, rfl⟩
  | started _ hlist _ _ =>
      rw [hlist] at h
      obtain ⟨y, hy, rfl⟩ := mem_modify.mp h
      refine ⟨y, hy, ?_⟩
      split_ifs <;> rfl
  | left _ hsame =>
      rw [hsame] at h
      exact ⟨x, h, rfl⟩

theorem Nodewait.Settled.not_waiting
    (hs : nw.Settled) : nw.state ≠ .resolved ∧ nw.state ≠ .new ∧ ¬nw.Pending := by
  rw [Nodewait.Pending]
  rcases hs with hs | hs | hs <;> simp [hs]

/-- The turn of an entry with a result removes it. -/
theorem turn_settled (hs : nw.Settled) : ∀ x ∈ (turn io w nw).list, x.ptr ≠ nw.ptr := by
  obtain ⟨hres, hnew, hpending⟩ := hs.not_waiting
  cases @turn_end w io nw with
  | removed _ hlist _ _ =>
      intro x hx
      rw [hlist] at hx
      exact (mem_remove.mp hx).2
  | started hstate _ _ _ => exact absurd hstate hres
  | left hstate _ => exact absurd hstate (not_or.mpr ⟨hnew, hpending⟩)

theorem foldl_gone
    (h : ∀ x ∈ w.list, x.ptr ≠ p) : ∀ x ∈ (nws.foldl (turn io) w).list, x.ptr ≠ p := by
  induction nws generalizing w with
  | nil => exact h
  | cons nw nws ih =>
      refine ih fun x hx => ?_
      obtain ⟨y, hy, hptr⟩ := turn_ptr hx
      rw [← hptr]
      exact h y hy

theorem foldl_settled
    (hmem : nw ∈ nws) (hs : nw.Settled) :
    ∀ x ∈ (nws.foldl (turn io) w).list, x.ptr ≠ nw.ptr := by
  induction nws generalizing w with
  | nil => cases hmem
  | cons first nws ih =>
      rw [List.foldl_cons]
      rcases List.mem_cons.mp hmem with rfl | hmem
      · exact foldl_gone (turn_settled hs)
      · exact ih hmem

/-- **`process_nodewait` removes the entries with a result.** -/
theorem processNodewait_settled
    (hmem : nw ∈ w.list) (hs : nw.Settled) :
    ∀ x ∈ (w.processNodewait io).list, x.ptr ≠ nw.ptr :=
  foldl_settled hmem hs

theorem processNodewait_ptr (h : x ∈ (w.processNodewait io).list) :
    ∃ y ∈ w.list, y.ptr = x.ptr := by
  by_contra hno
  exact foldl_gone (fun y hy hptr => hno ⟨y, hy, hptr⟩) x h rfl

theorem turn_refreshTmst : (turn io w nw).skynetRefreshTmst = w.skynetRefreshTmst := by
  cases @turn_end w io nw with
  | removed _ _ _ htmst => exact htmst
  | started _ _ _ htmst => exact htmst
  | left _ hsame => rw [hsame]

theorem processNodewait_refreshTmst :
    (w.processNodewait io).skynetRefreshTmst = w.skynetRefreshTmst :=
  List.foldlRecOn (motive := fun v => v.skynetRefreshTmst = w.skynetRefreshTmst) w.list (turn io)
    rfl fun _ h _ _ => turn_refreshTmst.trans h

end Pass

/-! ## Runs -/

section Runs

open Waiting

variable {w v : Waiting} {io : Ptr → TurnResults} {x y nw : Nodewait} {nws : List Nodewait}
  {now : Int} {nodes : List Lookup} {e : WaitingEvent} {es : List WaitingEvent}

/-- The entry waits for a thread, and none runs for it. -/
structure Orphan (w : Waiting) (x : Nodewait) : Prop where
  mem : x ∈ w.list
  pending : x.Pending
  alone : x.ptr ∉ w.threads

theorem Orphan.turn (h : Orphan w x) (hy : y.ptr = x.ptr → y = x) : Orphan (turn io w y) x := by
  have hother : y.state = .resolved ∨ y.Settled → y.ptr ≠ x.ptr := by
    intro hstate hptr
    obtain rfl := hy hptr
    rcases hstate with hstate | hstate
    · have hpending := h.pending
      rw [Nodewait.Pending, hstate] at hpending
      simp at hpending
    · exact hstate.not_waiting.2.2 h.pending
  cases @turn_end w io y with
  | removed hstate hlist hthreads _ =>
      refine ⟨?_, h.pending, ?_⟩
      · rw [hlist]
        exact mem_remove.mpr ⟨h.mem, (hother hstate).symm⟩
      · rw [hthreads]
        exact h.alone
  | started hstate hlist hthreads _ =>
      have hne := (hother (.inl hstate)).symm
      refine ⟨?_, h.pending, ?_⟩
      · rw [hlist]
        exact mem_modify.mpr ⟨x, h.mem, (if_neg hne).symm⟩
      · rw [hthreads]
        split_ifs
        · exact List.not_mem_cons_of_ne_of_not_mem hne h.alone
        · exact h.alone
  | left _ hsame =>
      rw [hsame]
      exact h

theorem Orphan.processNodewait (h : Orphan w x) : Orphan (w.processNodewait io) x :=
  List.foldlRecOn (motive := fun v => Orphan v x) w.list (Waiting.turn io) h
    fun _ hv _ hy => hv.turn fun hptr => w.distinct.eq hy h.mem hptr

/-- The nodes are not looked up while the list has an entry. -/
theorem processTimeoutEvent_of_mem (h : x ∈ w.list) :
    w.processTimeoutEvent now nodes io = w.processNodewait io := by
  have hsome : w.list.isEmpty = false := by
    rw [List.isEmpty_eq_false_iff]
    exact List.ne_nil_of_mem h
  rw [Waiting.processTimeoutEvent, Waiting.refreshDue, hsome, Bool.and_false]
  rfl

theorem Orphan.return
    {p : Ptr} {f : Nodewait → Nodewait} {hf : ∀ x, (f x).ptr = x.ptr}
    (h : Orphan w x) (hp : p ∈ w.threads) :
    Orphan ((w.modifyEntry p f hf).threadReturn p) x := by
  have hne : x.ptr ≠ p := fun heq => h.alone (heq ▸ hp)
  refine ⟨mem_modify.mpr ⟨x, h.mem, (if_neg hne).symm⟩, h.pending, fun hmem => ?_⟩
  exact h.alone (List.mem_filter.mp hmem).1

theorem Orphan.step
    (h : Orphan w x) (hstep : waitingStep w e = some v) :
    Orphan v x ∧ v.skynetRefreshTmst = w.skynetRefreshTmst := by
  cases e with
  | resolveReturns p ai =>
      rw [waitingStep] at hstep
      split_ifs at hstep with hruns
      cases hstep
      exact ⟨h.return hruns.1, rfl⟩
  | connectReturns p =>
      rw [waitingStep] at hstep
      split_ifs at hstep with hruns
      cases hstep
      exact ⟨h.return hruns.1, rfl⟩
  | timeout now nodes io =>
      rw [waitingStep, processTimeoutEvent_of_mem h.mem] at hstep
      cases hstep
      exact ⟨h.processNodewait, processNodewait_refreshTmst⟩

/-- **An entry without a thread stays for good**, and the nodes are never looked up again. -/
theorem orphan_stays
    (h : Orphan w x) (hrun : run waitingStep w es = some v) :
    Orphan v x ∧ v.skynetRefreshTmst = w.skynetRefreshTmst := by
  refine @run_invariant _ _ waitingStep (fun _ _ => True)
    (fun v => Orphan v x ∧ v.skynetRefreshTmst = w.skynetRefreshTmst) ?_ w v es ⟨h, rfl⟩
    meets_true hrun
  rintro s e t ⟨hs, htmst⟩ - hstep
  obtain ⟨ht, hsame⟩ := hs.step hstep
  exact ⟨ht, hsame.trans htmst⟩

/-- Every entry that waits has its thread. -/
def Attended (w : Waiting) : Prop :=
  ∀ x ∈ w.list, x.Pending → x.ptr ∈ w.threads

theorem Attended.turn
    (h : Attended w) (hcreated : ∀ p, (io p).created = true) : Attended (turn io w y) := by
  intro x hx hpending
  cases @turn_end w io y with
  | removed _ hlist hthreads _ =>
      rw [hlist] at hx
      rw [hthreads]
      exact h x (mem_remove.mp hx).1 hpending
  | started _ hlist hthreads _ =>
      rw [hlist] at hx
      rw [hthreads, if_pos (hcreated y.ptr)]
      obtain ⟨z, hz, rfl⟩ := mem_modify.mp hx
      by_cases hptr : z.ptr = y.ptr
      · rw [if_pos hptr]
        exact hptr ▸ List.mem_cons_self
      · rw [if_neg hptr] at hpending ⊢
        exact List.mem_cons_of_mem _ (h z hz hpending)
  | left _ hsame =>
      rw [hsame] at hx ⊢
      exact h x hx hpending

theorem Attended.start
    {node : Lookup} (h : Attended w) (hcreated : node.created = true) :
    Attended (w.nodewaitStartResolve node) := by
  rw [nodewaitStartResolve]
  split_ifs
  · intro x hx hpending
    change x.ptr ∈ if node.created then w.next :: w.threads else w.threads
    rw [if_pos hcreated]
    rcases List.mem_cons.mp hx with rfl | hx
    · exact List.mem_cons_self
    · exact List.mem_cons_of_mem _ (h x hx hpending)
  · exact h

theorem Attended.processTimeoutEvent
    (h : Attended w) (hnodes : ∀ node ∈ nodes, node.created = true)
    (hcreated : ∀ p, (io p).created = true) :
    Attended (w.processTimeoutEvent now nodes io) := by
  have hjoin : Attended (w.nodeJoinskynet now nodes) :=
    List.foldlRecOn (motive := Attended) nodes nodewaitStartResolve h
      fun _ hv node hnode => hv.start (hnodes node hnode)
  have hpass : ∀ v, Attended v → Attended (v.processNodewait io) := fun v hv =>
    List.foldlRecOn (motive := Attended) v.list (Waiting.turn io) hv fun _ hu _ _ =>
      hu.turn hcreated
  rw [Waiting.processTimeoutEvent]
  split_ifs
  · exact hpass _ hjoin
  · exact hpass _ h

theorem Attended.return
    {p : Ptr} {f : Nodewait → Nodewait} {hf : ∀ x, (f x).ptr = x.ptr}
    (h : Attended w) (hdone : ∀ x ∈ w.list, x.ptr = p → ¬(f x).Pending) :
    Attended ((w.modifyEntry p f hf).threadReturn p) := by
  intro x hx hpending
  obtain ⟨y, hy, rfl⟩ := mem_modify.mp hx
  by_cases hptr : y.ptr = p
  · rw [if_pos hptr] at hpending
    exact absurd hpending (hdone y hy hptr)
  · rw [if_neg hptr] at hpending ⊢
    exact List.mem_filter.mpr ⟨h y hy hpending, decide_eq_true hptr⟩

end Runs

/-! ## The verdict -/

/-- **A verdict** of the thread `t` about the addresses `aps`: the first one that completes is
connected, and only its socket and its TLS object are open, or none completes, and nothing is
open. -/
inductive Verdict (aps : List Addrinfo) (t : ConnectThread) : Prop
  | connected (pre : List Addrinfo) (ap : Addrinfo) (post : List Addrinfo) (p : Ptr)
      (split : aps = pre ++ ap :: post) (before : ∀ x ∈ pre, x.completes = false)
      (first : ap.completes = true)
      (tried : t.tried = (pre ++ [ap]).map Addrinfo.addr)
      (state : t.nw.state = .connected) (addr : t.nw.ncAddr = ap.addr)
      (sck : t.nw.ncSck = ap.sck) (socks : t.socks = [ap.sck])
      (anonssl : t.nw.ncAnonssl = some p) (ssls : t.ssls = [p])
  | failed (before : ∀ x ∈ aps, x.completes = false)
      (tried : t.tried = aps.map Addrinfo.addr) (state : t.nw.state = .connectFailed)
      (socks : t.socks = []) (ssls : t.ssls = [])

section Verdicts

open Waiting

variable {aps : List Addrinfo} {t : ConnectThread} {w v : Waiting} {x nw : Nodewait}
  {e : WaitingEvent} {es : List WaitingEvent}

theorem Verdict.settled (h : Verdict aps t) : t.nw.Settled := by
  cases h with
  | connected _ _ _ _ _ _ _ _ hstate => exact .inl hstate
  | failed _ _ hstate => exact .inr (.inr hstate)

theorem verdict_of_sslThere (h : SslThere nw.ai) : Verdict nw.ai nw.connectThread := by
  rw [Nodewait.connectThread]
  cases @connect_end nw.ai ⟨nw, [], [], []⟩ with
  | connected pre ap post p hsplit hpre hfirst hresult =>
      rw [hresult]
      exact .connected pre ap post p hsplit (fun x hx => (hpre x hx).1) hfirst
        (List.nil_append _) rfl rfl rfl rfl rfl rfl
  | failed s p hpre hresult =>
      rw [hresult]
      exact .failed (fun x hx => (hpre x hx).1) (List.nil_append _) rfl rfl rfl
  | missing pre ap post hsplit hpre hfirst _ =>
      rw [hsplit] at h
      exact absurd h (not_sslThere_of_missing hpre hfirst)

/-- Without the TLS object, what was opened is closed, and the state is left. -/
theorem connectThread_missing (h : ¬SslThere nw.ai) :
    ∃ s tried, nw.connectThread =
      ⟨{ nw with ncSck := s, ncAnonssl := none }, [], [], tried⟩ := by
  rw [Nodewait.connectThread]
  cases @connect_end nw.ai ⟨nw, [], [], []⟩ with
  | connected pre ap post p hsplit hpre hfirst _ =>
      rw [hsplit] at h
      exact absurd (sslThere_of_connected hpre hfirst) h
  | failed s p hpre _ =>
      refine absurd (fun x hx => ?_) h
      exact (hpre x ((List.takeWhile_sublist _).subset hx)).2
  | missing pre ap post _ _ _ hresult => exact ⟨ap.sck, _, hresult⟩

theorem verdict_iff (hpending : nw.Pending) :
    Verdict nw.ai nw.connectThread ↔ SslThere nw.ai := by
  refine ⟨fun hverdict => ?_, verdict_of_sslThere⟩
  by_contra hno
  obtain ⟨s, tried, heq⟩ := connectThread_missing hno
  have hsettled := hverdict.settled
  rw [heq] at hsettled
  exact hsettled.not_waiting.2.2 hpending

/-- The thread that returns without a verdict leaves its entry to nobody. -/
theorem connectReturns_orphan
    (hx : x ∈ w.list) (hstate : x.state = .connecting) (hno : ¬SslThere x.ai)
    (hstep : waitingStep w (.connectReturns x.ptr) = some v) :
    Orphan v x.connectThread.nw := by
  rw [waitingStep] at hstep
  split_ifs at hstep
  cases hstep
  obtain ⟨s, tried, heq⟩ := connectThread_missing hno
  refine ⟨mem_modify.mpr ⟨x, hx, (if_pos rfl).symm⟩, ?_, ?_⟩
  · rw [heq]
    exact .inr hstate
  · rw [connectThread_ptr]
    exact fun hmem => of_decide_eq_true (List.mem_filter.mp hmem).2 rfl

/-- The threads are created, and there is a TLS object when one is asked for. -/
def WaitingEvent.Fine (w : Waiting) : WaitingEvent → Prop
  | .resolveReturns _ _ => True
  | .connectReturns p => ∀ x ∈ w.list, x.ptr = p → SslThere x.ai
  | .timeout _ nodes io => (∀ node ∈ nodes, node.created = true) ∧ ∀ p, (io p).created = true

theorem Attended.step
    (h : Attended w) (hfine : e.Fine w) (hstep : waitingStep w e = some v) : Attended v := by
  cases e with
  | resolveReturns p ai =>
      rw [waitingStep] at hstep
      split_ifs at hstep
      cases hstep
      refine h.return fun x _ _ => ?_
      cases ai with
      | none => exact fun hp => by rcases hp with hp | hp <;> cases hp
      | some ai => exact fun hp => by rcases hp with hp | hp <;> cases hp
  | connectReturns p =>
      rw [waitingStep] at hstep
      split_ifs at hstep
      cases hstep
      exact h.return fun x hx hptr =>
        (verdict_of_sslThere (hfine x hx hptr)).settled.not_waiting.2.2
  | timeout now nodes io =>
      rw [waitingStep] at hstep
      cases hstep
      exact h.processTimeoutEvent hfine.1 hfine.2

/-- **Entries wait for threads only**: along a run whose steps are fine, an entry that waits for
a thread has one. -/
theorem attended_run
    (h : Attended w) (hfine : Meets waitingStep (fun w e => e.Fine w) w es)
    (hrun : run waitingStep w es = some v) : Attended v :=
  run_invariant (fun _ _ _ hw hok hstep => hw.step hok hstep) h hfine hrun

end Verdicts

/-- What is promised of an attempt to connect. -/
structure EndsWithVerdict (nw : Nodewait) : Prop where
  verdict : Verdict nw.ai nw.attempt
  removed : ∀ (w : Waiting) (io : Ptr → TurnResults), nw.attempt.nw ∈ w.list →
    ∀ x ∈ (w.processNodewait io).list, x.ptr ≠ nw.ptr
  unblocked : ∀ (w : Waiting) (io : Ptr → TurnResults) (now : Int), w.list = [nw.attempt.nw] →
    ((w.processNodewait io).refreshDue now = true ↔ 93 < now - w.skynetRefreshTmst)

/-- **An attempt ends with a verdict**, and its entry goes, exactly when `SSL_new` does not fail
for an address that is connected before one completes. -/
theorem attempt_ends_iff (nw : Nodewait) : EndsWithVerdict nw ↔ SslThere nw.ai := by
  have hiff : Verdict nw.ai nw.attempt ↔ SslThere nw.ai :=
    @verdict_iff nw.startConnect (.inr rfl)
  refine ⟨fun h => hiff.mp h.verdict, fun h => ?_⟩
  have hverdict := hiff.mpr h
  have hptr : nw.attempt.nw.ptr = nw.ptr := @connectThread_ptr nw.startConnect
  refine ⟨hverdict, fun w io hmem => ?_, fun w io now hlist => ?_⟩
  · rw [← hptr]
    exact processNodewait_settled hmem hverdict.settled
  · have hnone : (w.processNodewait io).list = [] := by
      refine List.eq_nil_iff_forall_not_mem.mpr fun x hx => ?_
      have hmem : nw.attempt.nw ∈ w.list := hlist ▸ List.mem_singleton_self _
      obtain ⟨y, hy, hsame⟩ := processNodewait_ptr hx
      rw [hlist] at hy
      obtain rfl := List.mem_singleton.mp hy
      exact processNodewait_settled hmem hverdict.settled x hx hsame.symm
    rw [Waiting.refreshDue, hnone, processNodewait_refreshTmst]
    simp

/-- `SSL_new` fails for the only address of a node. -/
theorem attempt_without_ssl :
    ¬EndsWithVerdict ⟨0, 0, ⟨0, 0⟩, none, .resolved, ⟨"8.8.8.8".toList, 2299⟩,
      [⟨⟨0x08080808, 2299⟩, 5, true, none, true, true⟩]⟩ := by
  intro h
  cases h.verdict with
  | connected _ _ _ _ _ _ _ _ hstate => cases hstate
  | failed _ _ hstate => cases hstate

/-! ## The links of the node -/

section Links

variable {n m : Node} {w : Waiting} {nw : Nodewait} {s : Socket} {a : SockAddr}

theorem nodelinkWbufPush_addrs
    {q : Option Ptr} {f : Frame} {b : Bool} (h : n.nodelinkWbufPush q f = .ok (m, b)) :
    m.nodelinks.map NodeLink.addr = n.nodelinks.map NodeLink.addr := by
  obtain ⟨l, -, -, -, rfl⟩ := nodelinkWbufPush_ok h
  split_ifs
  · rw [Node.modifyNodelink]
    exact map_modify fun _ _ _ => rfl
  · rfl

theorem nodewaitConnected_links (h : n.nodewaitConnected s a = .ok m) :
    ∃ added : Bool, m.nodelinks.map NodeLink.addr =
      if added then n.nodelinks.map NodeLink.addr ++ [a] else n.nodelinks.map NodeLink.addr := by
  obtain ⟨⟨k, q⟩, hk, h⟩ := bind_eq_ok.mp h
  rw [Node.nodelinkListAddnew] at hk
  split_ifs at hk
  · cases hk
    obtain ⟨⟨k', b⟩, hpush, h⟩ := bind_eq_ok.mp h
    cases h
    refine ⟨true, (nodelinkWbufPush_addrs hpush).trans ?_⟩
    exact List.map_append
  · cases hk
    cases h
    exact ⟨false, rfl⟩

/-- The turn of a connected entry links the node. -/
theorem turn_links
    (hw : w.links = n.nodelinks.map NodeLink.addr) (hstate : nw.state = .connected)
    (h : n.nodewaitConnected nw.ncSck nw.ncAddr = .ok m) :
    ∃ added, ∀ io : Ptr → TurnResults, (io nw.ptr).added = added →
      (w.turn io nw).links = m.nodelinks.map NodeLink.addr := by
  obtain ⟨added, hlinks⟩ := nodewaitConnected_links h
  refine ⟨added, fun io hadded => ?_⟩
  rw [Waiting.turn, hstate, hlinks, ← hw, ← hadded]
  rfl

end Links

end PicaPica
