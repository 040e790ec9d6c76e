import PicaPica.Lib.Run
import PicaPica.Client.SkyNet
import PicaPica.Lib.Table

/-!
# Which messages are marked as delivered

`ChatWindow::send_message` adds a row to the table `history` and gives the text to
`SkyNet::SendMessage`, which writes it to an active channel or puts it into a queue;
`flush_queues` writes the queue to the channel once that is established.  A
`MSGOK` carries no identifier: `SetDelivered` marks the oldest row to the peer that
has no mark.

When a channel is lost with a message on it, the row of that message stays the
oldest one, and the next report marks it.
-/

namespace PicaPica

open Machine

namespace Client

/-! ### The table -/

/-- A row of the table `history`. -/
structure HistoryRow where
  id : Nat
  contactId : Id
  accountId : Id
  isMe : Bool
  isDelivered : Bool
  message : Text
deriving DecidableEq

/-- The table, with the next value of the autoincrement column `id`. -/
structure History where
  rows : List HistoryRow
  nextId : Nat

namespace HistoryRow

/-- The condition of the inner query of `SetDelivered`. -/
def waits (me peer : Id) (r : HistoryRow) : Bool :=
  !r.isDelivered && r.isMe && r.contactId == peer && r.accountId == me

def setDelivered (r : HistoryRow) : HistoryRow :=
  { r with isDelivered := true }

/-- `order by id`. -/
def ordered (rows : List HistoryRow) : List HistoryRow :=
  rows.insertionSort fun a b => a.id ≤ b.id

end HistoryRow

namespace Queues

def contains (q : Queues) (peer : Id) : Bool :=
  (Table.lookup Prod.fst peer q).isSome

/-- `msgqueues[peer]`. -/
def get (q : Queues) (peer : Id) : List Text :=
  ((Table.lookup Prod.fst peer q).map Prod.snd).getD []

def set (q : Queues) (peer : Id) (msgs : List Text) : Queues :=
  Table.remove Prod.fst peer q ++ [(peer, msgs)]

end Queues

namespace History

/-- `History::Add`. -/
def add (h : History) (me peer : Id) (message : Text) (isMe : Bool) : History :=
  ⟨h.rows ++ [⟨h.nextId, peer, me, isMe, !isMe, message⟩], h.nextId + 1⟩

/-- The row that the inner query of `SetDelivered` selects. -/
def oldestUndelivered (h : History) (me peer : Id) : Option HistoryRow :=
  (HistoryRow.ordered (h.rows.filter (HistoryRow.waits me peer))).head?

/-- `History::SetDelivered`. -/
def setDelivered (h : History) (me peer : Id) : History :=
  match h.oldestUndelivered me peer with
  | some r => { h with rows := Table.modify HistoryRow.id r.id HistoryRow.setDelivered h.rows }
  | none => h

/-- `History::GetUndeliveredMessages`. -/
def getUndeliveredMessages (h : History) (me : Id) : Queues :=
  (HistoryRow.ordered (h.rows.filter fun r => r.accountId == me && !r.isDelivered && r.isMe)).foldl
    (fun q r => q.set r.contactId (q.get r.contactId ++ [r.message])) []

/-- The texts to a peer that are marked as delivered. -/
def delivered (h : History) (me peer : Id) : List Text :=
  (h.rows.filter fun r =>
    r.isMe && r.isDelivered && r.contactId == peer && r.accountId == me).map HistoryRow.message

end History

/-! ### The application -/

/-- A channel, with the texts that have been written to it: how many the peer has
accepted, and for how many of these a `MSGOK` has arrived. -/
structure Chan where
  ptr : Nat
  conn : C2n
  peerId : Id
  /-- the state is `PICA_C2C_STATE_ACTIVE` -/
  active : Bool
  sent : List Text
  accepted : Nat
  acked : Nat

/-- The texts that are accepted and for which the `MSGOK` has not arrived. -/
def Chan.unacked (c : Chan) : List Text :=
  (c.sent.take c.accepted).drop c.acked

/-- `pica-client`, with the texts that each peer's `newmsg_cb` has received. -/
structure App where
  sky : SkyNet
  chans : List Chan
  history : History
  received : Id → List Text

namespace App

def start : App :=
  ⟨.start, [], ⟨[], 1⟩, fun _ => []⟩

/-- `SkyNet::find_active_chan`. -/
def findActiveChan (s : App) (peer : Id) : Option Chan :=
  s.sky.activeNodelink.bind fun c2n =>
    s.chans.find? fun c => c.conn == c2n && c.active && c.peerId == peer

def unableToDeliver (s : App) (peer : Id) (msg : Text) : App :=
  { s with sky := s.sky.emit (.unableToDeliver peer msg) }

def modifyChan (s : App) (ptr : Nat) (f : Chan → Chan) : App :=
  { s with chans := Table.modify Chan.ptr ptr f s.chans }

/-- `PICA_send_msg`; `mem` tells whether `c2c_writebuf_push` has memory. -/
def sendMsg (s : App) (ptr : Nat) (msg : Text) (mem : Bool) : Option App :=
  if Proto.C2CMSG_MAXDATASIZE < msg.length ∨ mem = false then none
  else some (s.modifyChan ptr fun c => { c with sent := c.sent ++ [msg] })

/-- A new channel at the end of the list of a link. -/
def allocC2c (s : App) (conn : C2n) (peer : Id) (ptr : Nat) : App :=
  { s with chans := s.chans ++ [⟨ptr, conn, peer, false, [], 0, 0⟩] }

/-- `PICA_new_c2c` for the active link.  `made` is the address of the channel and
whether there is memory for the request. -/
def newC2c (s : App) (peer : Id) (made : Option (Nat × Bool)) : App × Bool :=
  match s.sky.activeNodelink, made with
  | some c2n, some (ptr, pushed) =>
      if s.sky.links c2n = some .connected then (s.allocC2c c2n peer ptr, pushed) else (s, false)
  | _, _ => (s, false)

def setQueue (s : App) (peer : Id) (msgs : List Text) : App :=
  { s with sky := { s.sky with msgqueues := s.sky.msgqueues.set peer msgs } }

def removeQueue (s : App) (peer : Id) : App :=
  { s with sky := { s.sky with msgqueues := Table.remove Prod.fst peer s.sky.msgqueues } }

/-- `SkyNet::SendMessage`. -/
def sendMessage
    (s : App) (peer : Id) (msg : Text) (mem : Bool) (made : Option (Nat × Bool)) : App :=
  match s.findActiveChan peer with
  | some chan => (s.sendMsg chan.ptr msg mem).getD (s.unableToDeliver peer msg)
  | none =>
      if s.sky.msgqueues.contains peer then
        s.setQueue peer (s.sky.msgqueues.get peer ++ [msg])
      else
        let r := s.newC2c peer made
        let s := r.1.setQueue peer [msg]
        if r.2 then s else s.unableToDeliver peer msg

/-- The first loop of `flush_queues`, with the messages that stay in the queue; `mem`
tells which of the messages there is memory for. -/
def flushLoop (ptr : Nat) (peer : Id) (mem : Nat → Bool) :
    App → Nat → List Text → App × List Text
  | s, _, [] => (s, [])
  | s, i, msg :: msgs =>
      match s.sendMsg ptr msg (mem i) with
      | some t => flushLoop ptr peer mem t (i + 1) msgs
      | none => (s.unableToDeliver peer msg, msg :: msgs)

/-- `SkyNet::flush_queues`. -/
def flushQueues (s : App) (peer : Id) (mem : Nat → Bool) : App :=
  if s.sky.selfAware ∧ s.sky.msgqueues.contains peer then
    match s.findActiveChan peer with
    | some chan =>
        let r := flushLoop chan.ptr peer mem s 0 (s.sky.msgqueues.get peer)
        if r.2.isEmpty then r.1.removeQueue peer else r.1.setQueue peer r.2
    | none => s
  else s

/-- What happens to the application. -/
inductive Event
  /-- the links to the nodes -/
  | node (e : SkyNet.Event)
  /-- `ChatWindow::send_message`; `stored` tells whether the row could be added -/
  | typed (peer : Id) (msg : Text) (stored mem : Bool) (made : Option (Nat × Bool))
  /-- a channel opened by a peer or by `reconnect_c2c` -/
  | opened (conn : C2n) (peer : Id) (ptr : Nat)
  /-- `c2c_established_cb` -/
  | established (ptr : Nat) (mem : Nat → Bool)
  /-- `newmsg_cb` of the peer -/
  | accepted (ptr : Nat)
  /-- `msgok_cb` -/
  | msgok (ptr : Nat)
  | closed (ptr : Nat)
  /-- the program is started again -/
  | restart

/-- What the event takes from the table is what the table has. -/
def readsHistory (h : History) (me : Id) : SkyNet.Event → Bool
  | .process (.established undelivered) => undelivered == h.getUndeliveredMessages me
  | .process (.establishedFailed undelivered) => undelivered == h.getUndeliveredMessages me
  | _ => true

def freshChan (s : App) (ptr : Nat) : Bool :=
  (Table.lookup Chan.ptr ptr s.chans).isNone

variable (me : Id) (isEmptyMessage : Text → Bool)

/-- One step, for the account `me`. -/
def step (s : App) : Event → Option App
  | .node e =>
      if readsHistory s.history me e then
        (s.sky.step e).map fun sky =>
          { s with
            sky := sky
            chans := s.chans.filter fun c => sky.links c.conn = some .connected }
      else none
  | .typed peer msg stored mem made =>
      if isEmptyMessage msg then some s
      else if made.all fun r => s.freshChan r.1 then
        let s := if stored then { s with history := s.history.add me peer msg true } else s
        some (s.sendMessage peer msg mem made)
      else none
  | .opened conn peer ptr =>
      if s.sky.links conn = some .connected ∧ s.freshChan ptr then
        some (s.allocC2c conn peer ptr)
      else none
  | .established ptr mem =>
      match Table.lookup Chan.ptr ptr s.chans with
      | some c => some ((s.modifyChan ptr fun c => { c with active := true }).flushQueues c.peerId mem)
      | none => none
  | .accepted ptr =>
      match Table.lookup Chan.ptr ptr s.chans with
      | some c =>
          match c.sent[c.accepted]? with
          | some msg =>
              some { s.modifyChan ptr fun c => { c with accepted := c.accepted + 1 } with
                received := Function.update s.received c.peerId (s.received c.peerId ++ [msg]) }
          | none => none
      | none => none
  | .msgok ptr =>
      match Table.lookup Chan.ptr ptr s.chans with
      | some c =>
          if c.acked < c.accepted then
            some { s.modifyChan ptr fun c => { c with acked := c.acked + 1 } with
              history := s.history.setDelivered me c.peerId }
          else none
      | none => none
  | .closed ptr => some { s with chans := Table.remove Chan.ptr ptr s.chans }
  | .restart => some { s with sky := .start, chans := [] }

/-- The rows that are marked are of messages that the peer has received. -/
def MarkedReceived (s : App) : Prop :=
  ∀ r ∈ s.history.rows, r.isMe = true → r.isDelivered = true → r.accountId = me →
    r.message ∈ s.received r.contactId

/-- Each of them has a received message of its own. -/
def MarkedOnce (s : App) : Prop :=
  ∀ peer, (s.history.delivered me peer).Subperm (s.received peer)

/-- The message that a `MSGOK` reports is that of the oldest row without a mark. -/
def ReportAllowed (s : App) : Event → Prop
  | .msgok ptr =>
      ∀ c ∈ Table.lookup Chan.ptr ptr s.chans, ∀ msg ∈ c.sent[c.acked]?,
        ∀ r ∈ s.history.oldestUndelivered me c.peerId, r.message = msg
  | _ => True

/-- The texts that a peer has accepted and for which the `MSGOK` can still arrive. -/
def pending (s : App) (peer : Id) : List Text :=
  s.chans.flatMap fun c => if c.peerId = peer then c.unacked else []

/-- Each mark and each report that is under way has a text of its own among those that
the peer has received. -/
structure Accounted (s : App) : Prop where
  rows : Table.Distinct HistoryRow.id s.history.rows
  ids : ∀ r ∈ s.history.rows, r.id < s.history.nextId
  chans : Table.Distinct Chan.ptr s.chans
  counts : ∀ c ∈ s.chans, c.acked ≤ c.accepted ∧ c.accepted ≤ c.sent.length
  marked : ∀ peer msg, (s.history.delivered me peer).count msg + (s.pending peer).count msg ≤
    (s.received peer).count msg

variable {me isEmptyMessage} {s t : App} {peer : Id} {msg : Text} {ptr : Nat} {c : Chan}

theorem Accounted.start : Accounted me start where
  rows := List.nodup_nil
  ids := by simp [App.start]
  chans := List.nodup_nil
  counts := by simp [App.start]
  marked := by simp [App.start, pending, History.delivered]

theorem Accounted.markedOnce (h : Accounted me s) : s.MarkedOnce me := by
  intro peer
  rw [List.subperm_ext_iff]
  intro msg _
  exact (Nat.le_add_right _ _).trans (h.marked peer msg)

theorem MarkedOnce.markedReceived (h : s.MarkedOnce me) : s.MarkedReceived me := by
  intro r hr hme hdelivered haccount
  refine (h r.contactId).subset ?_
  refine List.mem_map_of_mem (List.mem_filter.mpr ⟨hr, ?_⟩)
  simp [hme, hdelivered, haccount]

/-! ### Writing to channels -/

theorem unacked_append
    (h : c.accepted ≤ c.sent.length) :
    Chan.unacked { c with sent := c.sent ++ [msg] } = c.unacked := by
  simp only [Chan.unacked]
  rw [List.take_append_of_le_length h]

theorem pending_modifyChan
    {f : Chan → Chan}
    (hf : ∀ c ∈ s.chans, (f c).peerId = c.peerId ∧ (f c).unacked = c.unacked) :
    (s.modifyChan ptr f).pending peer = s.pending peer := by
  simp only [pending, modifyChan, Table.modify, List.flatMap_map]
  refine List.flatMap_congr fun c hc => ?_
  split_ifs <;> simp_all

/-- A change that leaves what a channel has under way. -/
theorem Accounted.modifyChan
    {f : Chan → Chan} (h : Accounted me s)
    (hf : ∀ c ∈ s.chans, (f c).ptr = c.ptr ∧ (f c).peerId = c.peerId ∧
      (f c).unacked = c.unacked ∧ (f c).acked = c.acked ∧ (f c).accepted = c.accepted ∧
      c.sent.length ≤ (f c).sent.length) :
    Accounted me (s.modifyChan ptr f) where
  rows := h.rows
  ids := h.ids
  chans := h.chans.modify fun c hc _ => (hf c hc).1
  counts := by
    intro d hd
    obtain ⟨c, hc, rfl⟩ := Table.mem_modify.mp hd
    obtain ⟨-, -, -, hacked, haccepted, hsent⟩ := hf c hc
    have hcounts := h.counts c hc
    split_ifs
    · omega
    · exact hcounts
  marked := by
    intro peer msg
    rw [pending_modifyChan fun c hc => ⟨(hf c hc).2.1, (hf c hc).2.2.1⟩]
    exact h.marked peer msg

theorem Accounted.sendMsg
    {mem : Bool} (h : Accounted me s) (hsend : s.sendMsg ptr msg mem = some t) :
    Accounted me t := by
  rw [App.sendMsg] at hsend
  split_ifs at hsend
  cases hsend
  refine h.modifyChan fun c hc => ⟨rfl, rfl, unacked_append (h.counts c hc).2, rfl, rfl, ?_⟩
  simp

theorem Accounted.flushLoop
    {mem : Nat → Bool} {i : Nat} {msgs : List Text} (h : Accounted me s) :
    Accounted me (flushLoop ptr peer mem s i msgs).1 := by
  induction msgs generalizing s i with
  | nil => exact h
  | cons msg msgs ih =>
      rw [App.flushLoop]
      cases hsend : s.sendMsg ptr msg (mem i) with
      | none => exact { h with }
      | some t => exact ih (h.sendMsg hsend)

theorem Accounted.flushQueues
    {mem : Nat → Bool} (h : Accounted me s) : Accounted me (s.flushQueues peer mem) := by
  rw [App.flushQueues]
  split_ifs
  · cases s.findActiveChan peer with
    | none => exact h
    | some chan =>
        have hloop : Accounted me
            (App.flushLoop chan.ptr peer mem s 0 (s.sky.msgqueues.get peer)).1 := h.flushLoop
        dsimp only
        split_ifs
        · exact { hloop with }
        · exact { hloop with }
  · exact h

theorem Accounted.allocC2c
    {conn : C2n} (h : Accounted me s) (hfresh : s.freshChan ptr = true) :
    Accounted me (s.allocC2c conn peer ptr) where
  rows := h.rows
  ids := h.ids
  chans := by
    rw [freshChan, Option.isNone_iff_eq_none] at hfresh
    exact h.chans.concat fun c hc => Table.lookup_eq_none.mp hfresh c hc
  counts := by
    intro c hc
    rcases List.mem_append.mp hc with hc | hc
    · exact h.counts c hc
    · obtain rfl := List.mem_singleton.mp hc
      exact ⟨Nat.le_refl 0, Nat.le_refl 0⟩
  marked := by
    intro p msg
    have hp : (s.allocC2c conn peer ptr).pending p = s.pending p := by
      simp [pending, App.allocC2c, Chan.unacked]
    rw [hp]
    exact h.marked p msg

theorem Accounted.sendMessage
    {mem : Bool} {made : Option (Nat × Bool)} (h : Accounted me s)
    (hfresh : made.all (fun r => s.freshChan r.1) = true) :
    Accounted me (s.sendMessage peer msg mem made) := by
  rw [App.sendMessage]
  cases s.findActiveChan peer with
  | some chan =>
      dsimp only
      cases hsend : s.sendMsg chan.ptr msg mem with
      | some t => exact h.sendMsg hsend
      | none => exact { h with }
  | none =>
      have hnew : Accounted me (s.newC2c peer made).1 := by
        unfold newC2c
        cases s.sky.activeNodelink with
        | none => exact h
        | some c2n =>
            cases made with
            | none => exact h
            | some r =>
                dsimp only
                split_ifs
                · exact h.allocC2c (by simpa using hfresh)
                · exact h
      dsimp only
      split_ifs
      · exact { h with }
      · exact { hnew with }
      · exact { hnew with }

/-! ### Marking a row -/

theorem oldestUndelivered_mem
    {h : History} {r : HistoryRow} (hr : h.oldestUndelivered me peer = some r) :
    r ∈ h.rows ∧ r.waits me peer = true := by
  have hmem := List.mem_of_mem_head? hr
  rw [HistoryRow.ordered, List.mem_insertionSort] at hmem
  exact List.mem_filter.mp hmem

/-- One more mark, for the message of the oldest row without one. -/
theorem count_delivered
    {h : History} {r : HistoryRow} (hrows : Table.Distinct HistoryRow.id h.rows)
    (hr : h.oldestUndelivered me peer = some r) (p : Id) :
    ((h.setDelivered me peer).delivered me p).count msg =
      (h.delivered me p).count msg + if p = peer ∧ r.message = msg then 1 else 0 := by
  obtain ⟨hmem, hwaits⟩ := oldestUndelivered_mem hr
  obtain ⟨before, after, hsplit, hmodify⟩ :=
    hrows.split (hrows.lookup hmem) HistoryRow.setDelivered
  simp only [HistoryRow.waits, Bool.and_eq_true, Bool.not_eq_true', beq_iff_eq] at hwaits
  obtain ⟨⟨⟨hnot, hme⟩, hpeer⟩, haccount⟩ := hwaits
  simp only [History.setDelivered, hr, History.delivered, hmodify]
  rw [hsplit]
  simp only [List.filter_append, List.filter_cons, List.map_append, List.count_append,
    HistoryRow.setDelivered, hnot, hme, hpeer, haccount, Bool.and_true, Bool.true_and,
    Bool.and_false, Bool.false_and, Bool.false_eq_true, if_false, beq_self_eq_true, beq_iff_eq]
  by_cases hp : p = peer
  · subst hp
    by_cases hmsg : r.message = msg
    · simp [hmsg]
      omega
    · simp [hmsg]
  · simp [hp, Ne.symm hp]

theorem setDelivered_rows
    {h : History} (hrows : Table.Distinct HistoryRow.id h.rows) :
    Table.Distinct HistoryRow.id (h.setDelivered me peer).rows := by
  unfold History.setDelivered
  cases h.oldestUndelivered me peer with
  | none => exact hrows
  | some r => exact hrows.modify fun _ _ _ => rfl

theorem setDelivered_ids
    {h : History} (hids : ∀ r ∈ h.rows, r.id < h.nextId) :
    ∀ r ∈ (h.setDelivered me peer).rows, r.id < (h.setDelivered me peer).nextId := by
  unfold History.setDelivered
  cases h.oldestUndelivered me peer with
  | none => exact hids
  | some r =>
      intro d hd
      obtain ⟨c, hc, rfl⟩ := Table.mem_modify.mp hd
      split_ifs
      · exact hids c hc
      · exact hids c hc

theorem Accounted.add
    (h : Accounted me s) :
    Accounted me { s with history := s.history.add me peer msg true } where
  rows := by
    refine h.rows.concat fun r hr => ?_
    exact Nat.ne_of_lt (h.ids r hr)
  ids := by
    intro r hr
    rcases List.mem_append.mp hr with hr | hr
    · exact Nat.lt_succ_of_lt (h.ids r hr)
    · obtain rfl := List.mem_singleton.mp hr
      exact Nat.lt_succ_self _
  chans := h.chans
  counts := h.counts
  marked := by
    intro p m
    have hsame : (s.history.add me peer msg true).delivered me p = s.history.delivered me p := by
      simp [History.add, History.delivered]
    rw [hsame]
    exact h.marked p m

/-! ### What the peer accepts and reports -/

/-- What is under way when one channel changes. -/
theorem count_pending_modifyChan
    {f : Chan → Chan} (hchans : Table.Distinct Chan.ptr s.chans)
    (hc : Table.lookup Chan.ptr ptr s.chans = some c) (hf : (f c).peerId = c.peerId) (p : Id) :
    ((s.modifyChan ptr f).pending p).count msg +
        (if c.peerId = p then c.unacked.count msg else 0) =
      (s.pending p).count msg + if c.peerId = p then (f c).unacked.count msg else 0 := by
  obtain ⟨before, after, hsplit, hmodify⟩ := hchans.split hc f
  simp only [pending, modifyChan, hmodify]
  rw [hsplit]
  simp only [List.flatMap_append, List.flatMap_cons, List.count_append, hf]
  split_ifs
  · omega
  · simp

theorem unacked_accepted
    (hle : c.acked ≤ c.accepted) (hmsg : c.sent[c.accepted]? = some msg) :
    Chan.unacked { c with accepted := c.accepted + 1 } = c.unacked ++ [msg] := by
  have hlt : c.accepted < c.sent.length := (List.getElem?_eq_some_iff.mp hmsg).1
  have hlen : c.acked ≤ (c.sent.take c.accepted).length := by
    rw [List.length_take]
    omega
  simp only [Chan.unacked]
  rw [List.take_add_one, hmsg, Option.toList_some, List.drop_append_of_le_length hlen]

theorem unacked_acked
    (hlt : c.acked < c.accepted) (hle : c.accepted ≤ c.sent.length) :
    ∃ msg, c.sent[c.acked]? = some msg ∧
      c.unacked = msg :: Chan.unacked { c with acked := c.acked + 1 } := by
  have hlen : c.acked < (c.sent.take c.accepted).length := by
    rw [List.length_take]
    omega
  refine ⟨c.sent[c.acked], List.getElem?_eq_getElem (by omega), ?_⟩
  simp only [Chan.unacked]
  rw [List.drop_eq_getElem_cons hlen, List.getElem_take]

/-- The counters after one channel has changed. -/
theorem Accounted.counts_modifyChan
    {f : Chan → Chan} (h : Accounted me s) (hc : Table.lookup Chan.ptr ptr s.chans = some c)
    (hf : (f c).acked ≤ (f c).accepted ∧ (f c).accepted ≤ (f c).sent.length) :
    ∀ d ∈ (s.modifyChan ptr f).chans, d.acked ≤ d.accepted ∧ d.accepted ≤ d.sent.length := by
  intro d hd
  obtain ⟨hmem, hptr⟩ := Table.lookup_eq_some hc
  obtain ⟨b, hb, rfl⟩ := Table.mem_modify.mp hd
  split_ifs with hk
  · rw [h.chans.eq hb hmem (hk.trans hptr.symm)]
    exact hf
  · exact h.counts b hb

theorem Accounted.accepted
    (h : Accounted me s) (hc : Table.lookup Chan.ptr ptr s.chans = some c)
    (hmsg : c.sent[c.accepted]? = some msg) :
    Accounted me { s.modifyChan ptr (fun c => { c with accepted := c.accepted + 1 }) with
      received := Function.update s.received c.peerId (s.received c.peerId ++ [msg]) } where
  rows := h.rows
  ids := h.ids
  chans := h.chans.modify fun _ _ _ => rfl
  counts := by
    have hcounts := h.counts c (Table.lookup_eq_some hc).1
    have hlt := (List.getElem?_eq_some_iff.mp hmsg).1
    exact h.counts_modifyChan hc ⟨by dsimp only; omega, by dsimp only; omega⟩
  marked := by
    intro p m
    have hcounts := h.counts c (Table.lookup_eq_some hc).1
    have hpending := @count_pending_modifyChan s m ptr c
      (fun c => { c with accepted := c.accepted + 1 }) h.chans hc rfl p
    have hmarked := h.marked p m
    rw [unacked_accepted hcounts.1 hmsg, List.count_append] at hpending
    change (s.history.delivered me p).count m +
      ((s.modifyChan ptr fun c => { c with accepted := c.accepted + 1 }).pending p).count m ≤
      (Function.update s.received c.peerId (s.received c.peerId ++ [msg]) p).count m
    by_cases hp : c.peerId = p
    · subst hp
      simp only [if_true] at hpending
      rw [Function.update_self, List.count_append]
      omega
    · simp only [hp, if_false] at hpending
      rw [Function.update_of_ne (Ne.symm hp)]
      omega

theorem Accounted.msgok
    (h : Accounted me s) (hc : Table.lookup Chan.ptr ptr s.chans = some c)
    (hlt : c.acked < c.accepted)
    (hok : ∀ msg ∈ c.sent[c.acked]?, ∀ r ∈ s.history.oldestUndelivered me c.peerId,
      r.message = msg) :
    Accounted me { s.modifyChan ptr (fun c => { c with acked := c.acked + 1 }) with
      history := s.history.setDelivered me c.peerId } where
  rows := setDelivered_rows h.rows
  ids := setDelivered_ids h.ids
  chans := h.chans.modify fun _ _ _ => rfl
  counts := by
    have hcounts := h.counts c (Table.lookup_eq_some hc).1
    exact h.counts_modifyChan hc ⟨by dsimp only; omega, by dsimp only; omega⟩
  marked := by
    intro p m
    have hcounts := h.counts c (Table.lookup_eq_some hc).1
    have hpending := @count_pending_modifyChan s m ptr c
      (fun c => { c with acked := c.acked + 1 }) h.chans hc rfl p
    have hmarked := h.marked p m
    obtain ⟨msg, hmsg, hunacked⟩ := unacked_acked hlt hcounts.2
    rw [hunacked, List.count_cons] at hpending
    change ((s.history.setDelivered me c.peerId).delivered me p).count m +
      ((s.modifyChan ptr fun c => { c with acked := c.acked + 1 }).pending p).count m ≤
      (s.received p).count m
    cases hr : s.history.oldestUndelivered me c.peerId with
    | none =>
        have hsame : s.history.setDelivered me c.peerId = s.history := by
          rw [History.setDelivered, hr]
        rw [hsame]
        split_ifs at hpending <;> omega
    | some r =>
        have hmessage : r.message = msg := hok msg hmsg r hr
        rw [count_delivered h.rows hr, hmessage]
        by_cases hp : c.peerId = p
        · by_cases hm : msg = m
          · simp only [hp, hm, if_true, beq_self_eq_true, and_self] at hpending ⊢
            omega
          · simp only [hp, hm, if_true, if_false, beq_iff_eq, and_false] at hpending ⊢
            omega
        · simp only [hp, Ne.symm hp, if_false, false_and] at hpending ⊢
          omega

/-- Channels that are gone take with them what is under way. -/
theorem Accounted.filterChans
    {keep : Chan → Bool} {sky : SkyNet} (h : Accounted me s) :
    Accounted me { s with sky := sky, chans := s.chans.filter keep } where
  rows := h.rows
  ids := h.ids
  chans := List.Nodup.sublist (List.filter_sublist.map _) h.chans
  counts := fun c hc => h.counts c (List.mem_of_mem_filter hc)
  marked := by
    intro p m
    have hle : (App.pending { s with sky := sky, chans := s.chans.filter keep } p).count m ≤
        (s.pending p).count m := by
      refine List.Sublist.count_le m ?_
      simp only [pending]
      exact List.filter_sublist.flatMap _
    exact (Nat.add_le_add_left hle _).trans (h.marked p m)

theorem Accounted.step
    {e : Event} (h : Accounted me s) (hok : s.ReportAllowed me e)
    (hstep : s.step me isEmptyMessage e = some t) :
    Accounted me t := by
  cases e with
  | node e =>
      simp only [App.step] at hstep
      split_ifs at hstep
      obtain ⟨sky, -, rfl⟩ := Option.map_eq_some_iff.mp hstep
      exact h.filterChans
  | typed peer msg stored mem made =>
      simp only [App.step] at hstep
      split_ifs at hstep with hempty hfresh hstored
      · cases hstep
        exact h
      · cases hstep
        exact h.add.sendMessage hfresh
      · cases hstep
        exact h.sendMessage hfresh
  | opened conn peer ptr =>
      simp only [App.step] at hstep
      split_ifs at hstep with hopen
      cases hstep
      exact h.allocC2c hopen.2
  | established ptr mem =>
      simp only [App.step] at hstep
      cases hc : Table.lookup Chan.ptr ptr s.chans with
      | none => simp [hc] at hstep
      | some c =>
          simp only [hc, Option.some.injEq] at hstep
          have hactive : Accounted me (s.modifyChan ptr fun c => { c with active := true }) :=
            h.modifyChan fun c _ => ⟨rfl, rfl, rfl, rfl, rfl, Nat.le_refl _⟩
          exact hstep ▸ hactive.flushQueues
  | accepted ptr =>
      simp only [App.step] at hstep
      cases hc : Table.lookup Chan.ptr ptr s.chans with
      | none => simp [hc] at hstep
      | some c =>
          cases hmsg : c.sent[c.accepted]? with
          | none => simp [hc, hmsg] at hstep
          | some msg =>
              simp only [hc, hmsg, Option.some.injEq] at hstep
              exact hstep ▸ h.accepted hc hmsg
  | msgok ptr =>
      simp only [App.step] at hstep
      cases hc : Table.lookup Chan.ptr ptr s.chans with
      | none => simp [hc] at hstep
      | some c =>
          simp only [hc] at hstep
          split_ifs at hstep with hlt
          cases hstep
          exact h.msgok hc hlt (hok c hc)
  | closed ptr =>
      cases hstep
      exact h.filterChans
  | restart =>
      cases hstep
      have hnone : s.chans.filter (fun _ => false) = [] := by simp
      rw [← hnone]
      exact h.filterChans

/-- **Delivery marks.**  As long as each `MSGOK` reports the message of the oldest row to
its peer that has no mark, the rows that are marked are of messages that the peer has
received. -/
theorem marked_was_received
    {es : List Event}
    (hok : Meets (step me isEmptyMessage) (ReportAllowed me) App.start es)
    (hrun : run (step me isEmptyMessage) App.start es = some s) :
    s.MarkedReceived me ∧ s.MarkedOnce me := by
  have h : Accounted me s := run_invariant (fun _ _ _ h => h.step) Accounted.start hok hrun
  exact ⟨h.markedOnce.markedReceived, h.markedOnce⟩

instance (s : App) : ∀ e, Decidable (s.ReportAllowed me e)
  | .msgok ptr =>
      inferInstanceAs (Decidable (∀ c ∈ Table.lookup Chan.ptr ptr s.chans,
        ∀ msg ∈ c.sent[c.acked]?, ∀ r ∈ s.history.oldestUndelivered me c.peerId, r.message = msg))
  | .node _ => .isTrue trivial
  | .typed .. => .isTrue trivial
  | .opened .. => .isTrue trivial
  | .established .. => .isTrue trivial
  | .accepted _ => .isTrue trivial
  | .closed _ => .isTrue trivial
  | .restart => .isTrue trivial

section Example

def alice : Id := ⟨List.replicate 28 0, rfl⟩

def bob : Id := ⟨List.replicate 28 1, rfl⟩

def blank (msg : Text) : Bool :=
  msg.all fun b => b == 32

/-- A message is typed, the channel for it is established, and all goes well. -/
def oneMessage : List Event :=
  [.node (.join true [(⟨"a", 2233⟩, some 1)]), .node .eventLoop,
    .node (.process (.established [])), .node .closeConnected,
    .typed bob [65] true true (some (1, true)), .established 1 fun _ => true,
    .accepted 1, .msgok 1]

theorem marked_was_received_one :
    ∃ s, run (step alice blank) App.start oneMessage = some s ∧ s.MarkedReceived alice ∧
      s.history.delivered alice bob = [[65]] := by
  have hsome : (run (step alice blank) App.start oneMessage).isSome = true := by decide +kernel
  obtain ⟨s, hs⟩ := Option.isSome_iff_exists.mp hsome
  have hmark : (run (step alice blank) App.start oneMessage).map
      (fun s => s.history.delivered alice bob) = some [[65]] := by decide +kernel
  rw [hs] at hmark
  exact ⟨s, hs, (marked_was_received (by decide +kernel) hs).1, by simpa using hmark⟩

/-- The channel is lost with the first message on it.  The second one is typed and
arrives. -/
def lostMessage : List Event :=
  [.node (.join true [(⟨"a", 2233⟩, some 1)]), .node .eventLoop,
    .node (.process (.established [])), .node .closeConnected,
    .typed bob [65] true true (some (1, true)), .established 1 fun _ => true, .closed 1,
    .typed bob [66] true true (some (2, true)), .established 2 fun _ => true,
    .accepted 2, .msgok 2]

/-- The report of the second message marks the first one, which was lost. -/
theorem lost_message_marked :
    ¬ ∀ es s, run (step alice blank) App.start es = some s → s.MarkedReceived alice := by
  intro h
  have hsome : (run (step alice blank) App.start lostMessage).isSome = true := by decide +kernel
  obtain ⟨s, hs⟩ := Option.isSome_iff_exists.mp hsome
  have hmark : (run (step alice blank) App.start lostMessage).map
      (fun s => (s.history.rows.head?, s.received bob)) =
      some (some ⟨1, bob, alice, true, true, [65]⟩, [[66]]) := by
    decide +kernel
  rw [hs, Option.map_some, Option.some.injEq, Prod.mk.injEq] at hmark
  obtain ⟨hrow, hreceived⟩ := hmark
  have hmem : [65] ∈ s.received bob := h _ s hs _ (List.mem_of_mem_head? hrow) rfl rfl rfl
  rw [hreceived] at hmem
  exact absurd (List.mem_singleton.mp hmem) (by decide)

end Example

end App

end Client

end PicaPica
