import PicaPica.Client.EventLoop
import PicaPica.Node.State
import PicaPica.Lib.DoubleChain
import PicaPica.Lib.Run

/-!
# The channels of a connection to a node (`PICA_client.c`)

The doubly linked list that `c2n_alloc_c2c` and `PICA_close_c2c` maintain, and the handlers
that look for a channel in it when the node answers a call or announces one.  A handler takes
the channel to the peer that is nearest to the end of the list, whoever opened it and
whatever its state is.

A channel has the fields these functions use; its messages are the subject of `Session`.
-/

namespace PicaPica
namespace Client

open DoubleChain Machine

/-- `struct PICA_c2c`. -/
structure Channel where
  peerId : Id
  outgoing : Bool
  state : C2cState
  /-- `-1` is `none` -/
  sckData : Option Nat
  ssl : Option Nat
deriving DecidableEq

inductive ChannelCall
  | c2cFailed (peer : Id)
  | notfound (peer : Id)
deriving DecidableEq

/-- Results of `PICA_new_c2c`. -/
inductive NewRet
  | ok
  | errInvArg
  | errNoMem
deriving DecidableEq

/-- `struct PICA_c2n`. -/
structure ChannelList where
  /-- `state` is `PICA_C2N_STATE_CONNECTED` -/
  connected : Bool
  /-- `chan_list_head`, `chan_list_end`, and the fields `next` and `prev` of all channels -/
  links : Links Ptr
  chan : Ptr → Channel
  /-- number of channels allocated so far -/
  count : Nat
  /-- messages placed in the write buffer, the oldest first -/
  out : List Frame
  calls : List ChannelCall

/-- What the surroundings answer to `c2c_start`. -/
structure StartIo where
  sck : Option Nat
  /-- the connection to the node is made at once or in progress, or fails -/
  connect : Option Bool
  /-- `SSL_new`, `SSL_set_fd` and `SSL_connect` -/
  ssl : Option Nat
  setFd : Bool
  sslConnect : SslCall
deriving DecidableEq

namespace ChannelList

variable (c : ChannelList)

def init : ChannelList :=
  ⟨true, .empty, fun _ => ⟨Id.ofByte 0, false, .new, none, none⟩, 0, [], []⟩

def setChan (p : Ptr) (f : Channel → Channel) : ChannelList :=
  { c with chan := Function.update c.chan p (f (c.chan p)) }

/-- `c2n_alloc_c2c`.  There is no result when a null pointer would be followed. -/
def c2nAllocC2c (peerId : Id) (outgoing : Bool) : Option (ChannelList × Ptr) :=
  (c.links.append c.count).map fun links =>
    ({ c with
      links := links
      chan := Function.update c.chan c.count ⟨peerId, outgoing, .new, none, none⟩
      count := c.count + 1 }, c.count)

/-- `PICA_close_c2c`. -/
def closeC2c (p : Ptr) : ChannelList :=
  match Links.findAlong (· = p) c.links.next c.count c.links.head with
  | some _ => { c with links := c.links.unlink p }
  | none => c

/-- The end of `c2c_start` after an error. -/
def startFailed (p : Ptr) : ChannelList :=
  { c with calls := c.calls ++ [ChannelCall.c2cFailed (c.chan p).peerId] }.closeC2c p

/-- `c2c_stage2_startanontls`. -/
def stage2Startanontls (p : Ptr) (io : StartIo) : ChannelList × Ret :=
  let c := c.setChan p fun chn => { chn with ssl := io.ssl }
  if io.ssl = none ∨ io.setFd = false then (c, .errSsl)
  else if processAsyncSslErrors io.sslConnect = .ok then
    (c.setChan p fun chn => { chn with state := .waitingAnonTls }, .ok)
  else (c, processAsyncSslErrors io.sslConnect)

/-- `c2c_start`. -/
def c2cStart (p : Ptr) (io : StartIo) : ChannelList × Ret :=
  let c := c.setChan p fun chn => { chn with sckData := io.sck, state := .connecting }
  match io.connect with
  | none => (c.startFailed p, .errSock)
  | some false => (c, .ok)
  | some true =>
      let r := c.stage2Startanontls p io
      if r.2 = .ok then r else (r.1.startFailed p, r.2)

/-- `PICA_new_c2c`; `calloc` and `mem` tell whether there is memory for the channel and for the
message. -/
def newC2c (peerId : Id) (calloc mem : Bool) : Option (ChannelList × NewRet) :=
  if c.connected = false then some (c, .errInvArg)
  else if calloc = false then some (c, .errNoMem)
  else do
    let r ← c.c2nAllocC2c peerId true
    if mem then
      pure ({ r.1 with out := r.1.out ++ [head Proto.CONNREQOUTG ++ peerId.1] }, .ok)
    else pure (r.1, .errNoMem)

/-- What the surroundings answer to `procmsg_CONNREQINC`. -/
structure CallIo where
  /-- `accept_cb` -/
  accept : Bool
  mem : Bool
  calloc : Bool
  /-- `PICA_write_c2n` empties the write buffer -/
  written : Bool
  start : StartIo

def procmsgCONNREQINC (io : CallIo) (buf : Frame) : Option (ChannelList × Nat) :=
  let peerId := idAt buf 2
  if io.mem = false then some (c, 0)
  else if io.accept = false then
    some ({ c with out := c.out ++ [head Proto.CONNDENY ++ peerId.1] }, 1)
  else
    let c := { c with out := c.out ++ [head Proto.CONNALLOW ++ peerId.1] }
    if io.calloc = false then some (c, 0)
    else do
      let r ← c.c2nAllocC2c peerId false
      if io.written = false then pure (r.1, 0)
      else pure ((r.1.c2cStart r.2 io.start).1, 1)

/-- The loop from `chan_list_end` that looks for a channel to the peer. -/
def findPeer (peerId : Id) : Option Ptr :=
  Links.findAlong (fun p => (c.chan p).peerId = peerId) c.links.prev c.count c.links.last

end ChannelList

/-- What a handler of an answer has done; `rq` is the channel it has found. -/
structure Replied where
  list : ChannelList
  ret : Nat
  rq : Option Ptr

namespace ChannelList

variable (c : ChannelList)

def procmsgNOTFOUND (buf : Frame) : Replied :=
  let peerId := idAt buf 2
  match c.findPeer peerId with
  | none => ⟨c, 0, none⟩
  | some rq =>
      let closed := c.closeC2c rq
      ⟨{ closed with calls := closed.calls ++ [.notfound peerId] }, 1, some rq⟩

def procmsgFOUND (io : StartIo) (buf : Frame) : Replied :=
  match c.findPeer (idAt buf 2) with
  | none => ⟨c, 0, none⟩
  | some rq =>
      let r := c.c2cStart rq io
      ⟨r.1, if r.2 = .ok then 1 else 0, some rq⟩

/-- The two answers to `CONNREQOUTG`. -/
def procmsgReply (io : StartIo) (buf : Frame) : Replied :=
  if byteAt buf 0 = Proto.FOUND then c.procmsgFOUND io buf else c.procmsgNOTFOUND buf

end ChannelList

/-- What happens to the list. -/
inductive ChannelEvent
  | newC2c (peerId : Id) (calloc mem : Bool)
  | connreqinc (io : ChannelList.CallIo) (buf : Frame)
  | reply (io : StartIo) (buf : Frame)
  /-- the event loop brings a channel to another stage -/
  | proceed (p : Ptr) (st : C2cState)
  | close (p : Ptr)

/-- The list after an event; a channel that is proceeded with or closed is in the list. -/
def channelStep (c : ChannelList) : ChannelEvent → Option ChannelList
  | .newC2c peerId calloc mem => (c.newC2c peerId calloc mem).map (·.1)
  | .connreqinc io buf => (c.procmsgCONNREQINC io buf).map (·.1)
  | .reply io buf => some (c.procmsgReply io buf).list
  | .proceed p st =>
      if st = .new ∨ Links.findAlong (· = p) c.links.next c.count c.links.head = none then none
      else some (c.setChan p fun chn => { chn with state := st })
  | .close p =>
      if Links.findAlong (· = p) c.links.next c.count c.links.head = none then none
      else some (c.closeC2c p)

namespace ChannelList

variable {c c' : ChannelList} {ps : List Ptr} {p : Ptr} {peer : Id} {io : StartIo} {buf : Frame}

/-- The list holds the channels `ps`, which have been allocated. -/
structure WellFormed (c : ChannelList) (ps : List Ptr) : Prop where
  linked : Linked c.links ps
  allocated : ∀ p ∈ ps, p < c.count

theorem setChan_chan {f : Channel → Channel} : (c.setChan p f).chan p = f (c.chan p) :=
  Function.update_self _ _ _

theorem init_wellFormed : init.WellFormed [] :=
  ⟨.empty, fun _ h => nomatch h⟩

theorem WellFormed.length_le (h : c.WellFormed ps) : ps.length ≤ c.count := by
  have hsub : ps ⊆ List.range c.count := fun p hp => List.mem_range.mpr (h.allocated p hp)
  have hle := (List.subperm_of_subset h.linked.nodup hsub).length_le
  rwa [List.length_range] at hle

theorem WellFormed.setChan
    {f : Channel → Channel} (h : c.WellFormed ps) : (c.setChan p f).WellFormed ps :=
  ⟨h.linked, h.allocated⟩

/-- The loop in `PICA_close_c2c` finds what is in the list. -/
theorem WellFormed.find_eq (h : c.WellFormed ps) :
    Links.findAlong (· = p) c.links.next c.count c.links.head = if p ∈ ps then some p else none := by
  rw [Linked.find_chain h.linked.forth h.length_le]
  by_cases hp : p ∈ ps
  · rw [if_pos hp]
    cases hfind : ps.find? fun x => decide (x = p) with
    | none => exact absurd (decide_eq_true rfl) (List.find?_eq_none.mp hfind p hp)
    | some q =>
        have hq := List.find?_some hfind
        rw [of_decide_eq_true hq]
  · rw [if_neg hp, List.find?_eq_none]
    rintro q hq heq
    obtain rfl : q = p := of_decide_eq_true heq
    exact hp hq

/-- **A new channel is the last one.** -/
theorem WellFormed.alloc (h : c.WellFormed ps) (outgoing : Bool) :
    ∃ c', c.c2nAllocC2c peer outgoing = some (c', c.count) ∧ c'.WellFormed (ps ++ [c.count]) ∧
      c'.chan c.count = ⟨peer, outgoing, .new, none, none⟩ ∧
        ∀ q ∈ ps, c'.chan q = c.chan q := by
  have hnew : c.count ∉ ps := fun hc => Nat.lt_irrefl _ (h.allocated _ hc)
  obtain ⟨links, happend, hlinked⟩ := h.linked.append hnew
  refine ⟨_, by rw [c2nAllocC2c, happend]; rfl, ⟨hlinked, ?_⟩, Function.update_self _ _ _, ?_⟩
  · intro q hq
    rcases List.mem_append.mp hq with hq | hq
    · exact Nat.lt_succ_of_lt (h.allocated q hq)
    · rw [List.mem_singleton.mp hq]
      exact Nat.lt_succ_self _
  · intro q hq
    refine Function.update_of_ne ?_ _ _
    rintro rfl
    exact hnew hq

/-- The list is still one, and every channel but `p` is in it as before. -/
def OnlyAt (p : Ptr) (c : ChannelList) (ps : List Ptr) (c' : ChannelList) : Prop :=
  ∃ ps', c'.WellFormed ps' ∧ ∀ q ∈ ps, q ≠ p → q ∈ ps' ∧ c'.chan q = c.chan q

theorem OnlyAt.refl (h : c.WellFormed ps) : OnlyAt p c ps c :=
  ⟨ps, h, fun _ hq _ => ⟨hq, rfl⟩⟩

theorem OnlyAt.trans
    {c'' : ChannelList} (h : OnlyAt p c ps c')
    (h' : ∀ ps', c'.WellFormed ps' → OnlyAt p c' ps' c'') :
    OnlyAt p c ps c'' := by
  obtain ⟨ps', hwf, hkeeps⟩ := h
  obtain ⟨ps'', hwf', hkeeps'⟩ := h' ps' hwf
  refine ⟨ps'', hwf', fun q hq hne => ?_⟩
  obtain ⟨hmem, hsame⟩ := hkeeps q hq hne
  obtain ⟨hmem', hsame'⟩ := hkeeps' q hmem hne
  exact ⟨hmem', hsame'.trans hsame⟩

theorem setChan_onlyAt
    {f : Channel → Channel} (h : c.WellFormed ps) : OnlyAt p c ps (c.setChan p f) :=
  ⟨ps, h.setChan, fun _ hq hne => ⟨hq, Function.update_of_ne hne _ _⟩⟩

theorem closeC2c_onlyAt (h : c.WellFormed ps) : OnlyAt p c ps (c.closeC2c p) := by
  rw [closeC2c, h.find_eq]
  by_cases hp : p ∈ ps
  · rw [if_pos hp]
    obtain ⟨as, bs, rfl⟩ := List.append_of_mem hp
    refine ⟨as ++ bs, ⟨h.linked.unlink, fun q hq => h.allocated q ?_⟩, ?_⟩
    · rcases List.mem_append.mp hq with hq | hq
      · exact List.mem_append_left _ hq
      · exact List.mem_append_right _ (List.mem_cons_of_mem p hq)
    · intro q hq hne
      refine ⟨?_, rfl⟩
      rcases List.mem_append.mp hq with hq | hq
      · exact List.mem_append_left _ hq
      · exact List.mem_append_right _ ((List.mem_cons.mp hq).resolve_left hne)
  · rw [if_neg hp]
    exact .refl h

theorem startFailed_onlyAt (h : c.WellFormed ps) : OnlyAt p c ps (c.startFailed p) := by
  have hcalled : { c with calls := c.calls ++ [ChannelCall.c2cFailed (c.chan p).peerId] }.WellFormed ps :=
    ⟨h.linked, h.allocated⟩
  exact closeC2c_onlyAt hcalled

theorem stage2_onlyAt (h : c.WellFormed ps) :
    OnlyAt p c ps (c.stage2Startanontls p io).1 := by
  rw [stage2Startanontls]
  split_ifs with hssl hok
  · dsimp only
    exact setChan_onlyAt h
  · dsimp only
    exact (setChan_onlyAt h).trans fun _ => setChan_onlyAt
  · dsimp only
    exact setChan_onlyAt h

theorem c2cStart_onlyAt (h : c.WellFormed ps) : OnlyAt p c ps (c.c2cStart p io).1 := by
  rw [c2cStart]
  cases io.connect with
  | none => exact (setChan_onlyAt h).trans fun _ => startFailed_onlyAt
  | some now =>
      cases now with
      | false =>
          dsimp only
          exact setChan_onlyAt h
      | true =>
          dsimp only
          split_ifs with hok
          · exact (setChan_onlyAt h).trans fun _ => stage2_onlyAt
          · exact ((setChan_onlyAt h).trans fun _ => stage2_onlyAt).trans fun _ => startFailed_onlyAt

/-- **The channel a handler finds is the last one to the peer.** -/
theorem findPeer_eq (h : c.WellFormed ps) :
    c.findPeer peer = ps.reverse.find? fun p => (c.chan p).peerId = peer :=
  h.linked.findBack h.length_le

theorem findPeer_eq_some_iff (h : c.WellFormed ps) :
    c.findPeer peer = some p ↔
      (c.chan p).peerId = peer ∧
        ∃ as bs, ps = as ++ p :: bs ∧ ∀ q ∈ bs, (c.chan q).peerId ≠ peer := by
  rw [findPeer_eq h, List.find?_eq_some_iff_append]
  simp only [decide_eq_true_eq, Bool.not_eq_eq_eq_not, Bool.not_true, decide_eq_false_iff_not]
  refine and_congr_right fun _ => ⟨?_, ?_⟩
  · rintro ⟨bs, as, hrev, hlater⟩
    refine ⟨as.reverse, bs.reverse, ?_, fun q hq => hlater q (List.mem_reverse.mp hq)⟩
    have hps := congrArg List.reverse hrev
    rw [List.reverse_reverse] at hps
    rw [hps, List.reverse_append, List.reverse_cons, List.append_assoc]
    rfl
  · rintro ⟨as, bs, rfl, hlater⟩
    refine ⟨bs.reverse, as.reverse, ?_, fun q hq => hlater q (List.mem_reverse.mp hq)⟩
    rw [List.reverse_append, List.reverse_cons, List.append_assoc]
    rfl

/-- A call to the peer that is not answered yet. -/
def PendingCall (c : ChannelList) (peer : Id) (p : Ptr) : Prop :=
  (c.chan p).outgoing = true ∧ (c.chan p).peerId = peer ∧ (c.chan p).state = .new

/-- The channel that is started or closed is a pending call to the peer, and no other channel
is changed. -/
structure Matched (c : ChannelList) (ps : List Ptr) (peer : Id) (r : Replied) : Prop where
  answered : ∀ p, r.rq = some p → p ∈ ps ∧ c.PendingCall peer p
  others : ∃ ps', r.list.WellFormed ps' ∧
    ∀ q ∈ ps, r.rq ≠ some q → q ∈ ps' ∧ r.list.chan q = c.chan q

/-- The last of the channels to the peer, if there is one, is a pending call. -/
def LastPending (c : ChannelList) (ps : List Ptr) (peer : Id) : Prop :=
  ∀ as p bs, ps = as ++ p :: bs → (c.chan p).peerId = peer →
    (∀ q ∈ bs, (c.chan q).peerId ≠ peer) → (c.chan p).outgoing = true ∧ (c.chan p).state = .new

theorem procmsgReply_rq :
    (c.procmsgReply io buf).rq = c.findPeer (idAt buf 2) := by
  rw [procmsgReply]
  split_ifs with hfound
  · rw [procmsgFOUND]
    cases c.findPeer (idAt buf 2) with
    | none => rfl
    | some rq => rfl
  · rw [procmsgNOTFOUND]
    dsimp only
    cases c.findPeer (idAt buf 2) with
    | none => rfl
    | some rq => rfl

/-- Without a channel to the peer nothing happens. -/
theorem procmsgReply_none (h : c.findPeer (idAt buf 2) = none) :
    c.procmsgReply io buf = ⟨c, 0, none⟩ := by
  rw [procmsgReply]
  split_ifs with hfound
  · rw [procmsgFOUND, h]
  · rw [procmsgNOTFOUND]
    dsimp only
    rw [h]

theorem procmsgReply_onlyAt
    (hwf : c.WellFormed ps) (h : c.findPeer (idAt buf 2) = some p) :
    OnlyAt p c ps (c.procmsgReply io buf).list := by
  rw [procmsgReply]
  split_ifs with hfound
  · rw [procmsgFOUND, h]
    exact c2cStart_onlyAt hwf
  · rw [procmsgNOTFOUND]
    dsimp only
    rw [h]
    obtain ⟨ps', hclosed, hkeeps⟩ := @closeC2c_onlyAt c ps p hwf
    exact ⟨ps', ⟨hclosed.linked, hclosed.allocated⟩, hkeeps⟩

theorem procmsgReply_others (hwf : c.WellFormed ps) :
    ∃ ps', (c.procmsgReply io buf).list.WellFormed ps' ∧
      ∀ q ∈ ps, (c.procmsgReply io buf).rq ≠ some q →
        q ∈ ps' ∧ (c.procmsgReply io buf).list.chan q = c.chan q := by
  rw [procmsgReply_rq]
  cases h : c.findPeer (idAt buf 2) with
  | none =>
      rw [procmsgReply_none h]
      exact ⟨ps, hwf, fun q hq _ => ⟨hq, rfl⟩⟩
  | some p =>
      obtain ⟨ps', hwf', hkeeps⟩ := @procmsgReply_onlyAt c ps p io buf hwf h
      refine ⟨ps', hwf', fun q hq hne => hkeeps q hq ?_⟩
      rintro rfl
      exact hne rfl

/-- **When an answer of the node reaches the call it answers.** -/
theorem reply_matched_iff (hwf : c.WellFormed ps) :
    Matched c ps (idAt buf 2) (c.procmsgReply io buf) ↔ c.LastPending ps (idAt buf 2) := by
  constructor
  · intro hmatched as p bs hps hpeer hlater
    have hfind : c.findPeer (idAt buf 2) = some p :=
      (findPeer_eq_some_iff hwf).mpr ⟨hpeer, as, bs, hps, hlater⟩
    obtain ⟨-, hout, -, hnew⟩ := hmatched.answered p (procmsgReply_rq.trans hfind)
    exact ⟨hout, hnew⟩
  · intro hlast
    refine ⟨?_, procmsgReply_others hwf⟩
    intro p hrq
    rw [procmsgReply_rq] at hrq
    obtain ⟨hpeer, as, bs, hps, hlater⟩ := (findPeer_eq_some_iff hwf).mp hrq
    obtain ⟨hout, hnew⟩ := hlast as p bs hps hpeer hlater
    exact ⟨by rw [hps]; simp, hout, hpeer, hnew⟩

/-- **`Session.c2cStart` starts the same channel.** -/
theorem c2cStart_session
    {s : Session} {poll : Session.PollIo} (hdirect : s.direct = none)
    (hnew : poll.sslNew = (io.ssl.isSome && io.setFd)) (hnext : poll.next = io.sslConnect) :
    ∃ t, s.c2cStart io.connect poll = .ok t ∧
      ((c.c2cStart p io).2 = .ok →
        t.closed = s.closed ∧ t.chn.state = ((c.c2cStart p io).1.chan p).state) ∧
      ((c.c2cStart p io).2 ≠ .ok → t.closed = true) := by
  have hclose : ∀ t : Session, t.direct = none →
      t.closeC2c = .ok { t with direct := none, reading := false, closed := true } := by
    intro t ht
    rw [Session.closeC2c, ht]
    rfl
  rw [Session.c2cStart.eq_def, c2cStart]
  cases io.connect with
  | none =>
      refine ⟨_, hclose _ hdirect, ?_, fun _ => rfl⟩
      intro h
      cases h
  | some now =>
      cases now with
      | false =>
          refine ⟨_, rfl, fun _ => ⟨rfl, ?_⟩, fun h => absurd rfl h⟩
          dsimp only
          rw [setChan_chan]
          rfl
      | true =>
          dsimp only
          rw [Session.stage2Startanontls, stage2Startanontls, hnew, hnext]
          have hssl : (io.ssl.isSome && io.setFd) = false ↔ io.ssl = none ∨ io.setFd = false := by
            cases io.ssl with
            | none => simp
            | some x => simp
          by_cases hfails : io.ssl = none ∨ io.setFd = false
          · have hne : ¬Ret.errSsl = .ok := by decide
            rw [if_pos (hssl.mpr hfails), if_pos hfails, if_neg hne, if_neg hne]
            exact ⟨_, hclose _ hdirect, fun h => absurd h hne, fun _ => rfl⟩
          · rw [if_neg (mt hssl.mp hfails), if_neg hfails]
            by_cases hok : processAsyncSslErrors io.sslConnect = .ok
            · rw [if_pos hok, if_pos hok]
              refine ⟨_, rfl, fun _ => ⟨rfl, ?_⟩, fun h => absurd rfl h⟩
              rw [if_pos rfl]
              rw [setChan_chan]
              rfl
            · rw [if_neg hok, if_neg hok, if_neg hok, if_neg hok]
              exact ⟨_, hclose _ hdirect, fun h => absurd h hok, fun _ => rfl⟩

/-! ## Runs -/

theorem newC2c_wellFormed
    {calloc mem : Bool} (hwf : c.WellFormed ps) :
    ∃ r ps', c.newC2c peer calloc mem = some r ∧ r.1.WellFormed ps' := by
  rw [newC2c]
  by_cases hconn : c.connected = false
  · rw [if_pos hconn]
    exact ⟨_, ps, rfl, hwf⟩
  · rw [if_neg hconn]
    by_cases hcalloc : calloc = false
    · rw [if_pos hcalloc]
      exact ⟨_, ps, rfl, hwf⟩
    · rw [if_neg hcalloc]
      obtain ⟨c', halloc, hwf', -⟩ := @WellFormed.alloc c ps peer hwf true
      rw [halloc]
      cases mem with
      | false => exact ⟨_, _, rfl, hwf'⟩
      | true => exact ⟨_, _, rfl, hwf'.linked, hwf'.allocated⟩

theorem connreqinc_wellFormed
    {io : CallIo} (hwf : c.WellFormed ps) :
    ∃ r ps', c.procmsgCONNREQINC io buf = some r ∧ r.1.WellFormed ps' := by
  rw [procmsgCONNREQINC]
  by_cases hmem : io.mem = false
  · rw [if_pos hmem]
    exact ⟨_, ps, rfl, hwf⟩
  · rw [if_neg hmem]
    by_cases haccept : io.accept = false
    · rw [if_pos haccept]
      exact ⟨_, ps, rfl, hwf.linked, hwf.allocated⟩
    · rw [if_neg haccept]
      dsimp only
      have hallowed : { c with
          out := c.out ++ [head Proto.CONNALLOW ++ (idAt buf 2).1] }.WellFormed ps :=
        ⟨hwf.linked, hwf.allocated⟩
      by_cases hcalloc : io.calloc = false
      · rw [if_pos hcalloc]
        exact ⟨_, ps, rfl, hallowed⟩
      · rw [if_neg hcalloc]
        obtain ⟨c', halloc, hwf', -⟩ := @WellFormed.alloc _ ps (idAt buf 2) hallowed false
        rw [halloc]
        change ∃ r ps', (if io.written = false then some (c', 0)
          else some ((c'.c2cStart c.count io.start).1, 1)) = some r ∧ r.1.WellFormed ps'
        by_cases hwritten : io.written = false
        · rw [if_pos hwritten]
          exact ⟨_, _, rfl, hwf'⟩
        · rw [if_neg hwritten]
          obtain ⟨ps', hstart, -⟩ := @c2cStart_onlyAt c' _ c.count io.start hwf'
          exact ⟨_, ps', rfl, hstart⟩

/-- **Every event keeps the list well formed, and no null pointer is followed.** -/
theorem channelStep_wellFormed
    {e : ChannelEvent} (hwf : c.WellFormed ps) (h : channelStep c e = some c') :
    ∃ ps', c'.WellFormed ps' := by
  cases e with
  | newC2c peer calloc mem =>
      obtain ⟨r, ps', hr, hwf'⟩ := @newC2c_wellFormed c ps peer calloc mem hwf
      rw [channelStep, hr] at h
      cases h
      exact ⟨ps', hwf'⟩
  | connreqinc io buf =>
      obtain ⟨r, ps', hr, hwf'⟩ := @connreqinc_wellFormed c ps buf io hwf
      rw [channelStep, hr] at h
      cases h
      exact ⟨ps', hwf'⟩
  | reply io buf =>
      cases h
      obtain ⟨ps', hwf', -⟩ := @procmsgReply_others c ps io buf hwf
      exact ⟨ps', hwf'⟩
  | proceed p st =>
      rw [channelStep] at h
      split_ifs at h
      cases h
      exact ⟨ps, hwf.setChan⟩
  | close p =>
      rw [channelStep] at h
      split_ifs at h
      cases h
      obtain ⟨ps', hwf', -⟩ := @closeC2c_onlyAt c ps p hwf
      exact ⟨ps', hwf'⟩

theorem run_wellFormed
    {es : List ChannelEvent} (hrun : run channelStep init es = some c) :
    ∃ ps, c.WellFormed ps := by
  have hstep : ∀ (c : ChannelList) (e : ChannelEvent) (c' : ChannelList),
      (∃ ps, c.WellFormed ps) → True → channelStep c e = some c' → ∃ ps, c'.WellFormed ps := by
    rintro c e c' ⟨ps, hwf⟩ - h
    exact channelStep_wellFormed hwf h
  exact run_invariant hstep ⟨[], init_wellFormed⟩ meets_true hrun

/-! ## Two users who call each other -/

/-- The connection to the node is in progress. -/
def inProgress : StartIo :=
  ⟨some 5, some false, none, false, .wantRead⟩

def replyTo (msgid : Nat) (peer : Id) : Frame :=
  head msgid ++ peer.1

/-- The user calls a peer whose own call has been accepted. -/
def callingBack (peer : Id) : List ChannelEvent :=
  [.connreqinc ⟨true, true, true, true, inProgress⟩ (replyTo Proto.CONNREQINC peer),
   .newC2c peer true true]

theorem lastPending_of_find
    (hwf : c.WellFormed ps) (hfind : c.findPeer peer = some p)
    (hout : (c.chan p).outgoing = true) (hnew : (c.chan p).state = .new) :
    c.LastPending ps peer := by
  intro as q bs hps hpeer hlater
  obtain rfl : q = p := Option.some.inj
    (((findPeer_eq_some_iff hwf).mpr ⟨hpeer, as, bs, hps, hlater⟩).symm.trans hfind)
  exact ⟨hout, hnew⟩

/-- The answer starts the later channel of the two, and leaves the incoming one alone. -/
theorem reply_matched_call :
    ∃ c ps, run channelStep init (callingBack (Id.ofByte 7)) = some c ∧ c.WellFormed ps ∧
      (c.chan 0).peerId = Id.ofByte 7 ∧ (c.chan 0).outgoing = false ∧
      (c.procmsgReply inProgress (replyTo Proto.FOUND (Id.ofByte 7))).rq = some 1 ∧
      Matched c ps (idAt (replyTo Proto.FOUND (Id.ofByte 7)) 2)
        (c.procmsgReply inProgress (replyTo Proto.FOUND (Id.ofByte 7))) := by
  obtain ⟨c, hrun, hpeer, hin, hrq, hout, hnew⟩ := run_ends
    (show (run channelStep init (callingBack (Id.ofByte 7))).any (fun c => decide (
      (c.chan 0).peerId = Id.ofByte 7 ∧ (c.chan 0).outgoing = false ∧
      (c.procmsgReply inProgress (replyTo Proto.FOUND (Id.ofByte 7))).rq = some 1 ∧
      (c.chan 1).outgoing = true ∧ (c.chan 1).state = .new)) = true by decide +kernel)
  obtain ⟨ps, hwf⟩ := run_wellFormed hrun
  have hfind := procmsgReply_rq.symm.trans hrq
  exact ⟨c, ps, hrun, hwf, hpeer, hin, hrq,
    (reply_matched_iff hwf).mpr (lastPending_of_find hwf hfind hout hnew)⟩

/-- The user calls the peer, accepts the peer's own call, and is told that the peer is found or
is not. -/
def crossing (peer : Id) : List ChannelEvent :=
  [.newC2c peer true true,
   .connreqinc ⟨true, true, true, true, inProgress⟩ (replyTo Proto.CONNREQINC peer)]

/-- Both answers reach the incoming channel. -/
theorem crossing_not_matched :
    ∃ c ps, run channelStep init (crossing (Id.ofByte 7)) = some c ∧ c.WellFormed ps ∧
      ¬Matched c ps (Id.ofByte 7)
          (c.procmsgReply inProgress (replyTo Proto.FOUND (Id.ofByte 7))) ∧
        ¬Matched c ps (Id.ofByte 7)
          (c.procmsgReply inProgress (replyTo Proto.NOTFOUND (Id.ofByte 7))) := by
  obtain ⟨c, hrun, hfound, hnotfound, hout⟩ := run_ends
    (show (run channelStep init (crossing (Id.ofByte 7))).any (fun c => decide (
      (c.procmsgReply inProgress (replyTo Proto.FOUND (Id.ofByte 7))).rq = some 1 ∧
      (c.procmsgReply inProgress (replyTo Proto.NOTFOUND (Id.ofByte 7))).rq = some 1 ∧
      (c.chan 1).outgoing = false)) = true by decide)
  obtain ⟨ps, hwf⟩ := run_wellFormed hrun
  refine ⟨c, ps, hrun, hwf, ?_, ?_⟩
  · intro hmatched
    have hpending := (hmatched.answered 1 hfound).2.1
    rw [hout] at hpending
    cases hpending
  · intro hmatched
    have hpending := (hmatched.answered 1 hnotfound).2.1
    rw [hout] at hpending
    cases hpending

end ChannelList

end Client
end PicaPica
