import PicaPica.Client.History
import PicaPica.Lib.Outbox

/-!
# The order of the messages to a peer

`SendMessage` writes a text to an active channel or puts it into a queue, and `flush_queues`
writes the queue to a channel that has been established.  The direct route does not look at the
queue, and the loop of `flush_queues` ends at the first text that cannot be written and leaves
it in front.  So texts that wait behind it are passed by texts that are written later.
-/

namespace PicaPica

open Machine

namespace Client

namespace Queues

variable {q : Queues} {peer p : Id} {msgs : List Text}

theorem get_of_not_contains (h : q.contains peer = false) : q.get peer = [] := by
  rw [contains, Option.isSome_eq_false_iff, Option.isNone_iff_eq_none] at h
  rw [get, h]
  rfl

theorem get_remove :
    get (Table.remove Prod.fst p q) peer = if peer = p then [] else q.get peer := by
  rw [get, Table.lookup_remove]
  split_ifs
  · rfl
  · rfl

theorem get_set : (q.set p msgs).get peer = if peer = p then msgs else q.get peer := by
  have hnone : Table.lookup Prod.fst p (Table.remove Prod.fst p q) = none := by
    rw [Table.lookup_remove, if_pos rfl]
  rw [get, set, @Table.lookup_concat (Id × List Text) Id Prod.fst _ _ (p, msgs) peer hnone]
  split_ifs with hp
  · rfl
  · rw [Table.lookup_remove, if_neg hp]
    rfl

end Queues

namespace App

/-- The calls of `PICA_send_msg` in the first loop of `flush_queues`, with their results. -/
def flushCalls (ptr : Nat) (mem : Nat → Bool) : App → Nat → List Text → List (Text × Bool)
  | _, _, [] => []
  | s, i, msg :: msgs =>
      match s.sendMsg ptr msg (mem i) with
      | some t => (msg, true) :: flushCalls ptr mem t (i + 1) msgs
      | none => [(msg, false)]

variable (isEmptyMessage : Text → Bool)

/-- The calls of `PICA_send_msg` for a peer, with their results. -/
def calls (peer : Id) (s : App) : Event → List (Text × Bool)
  | .typed p msg _ mem _ =>
      if isEmptyMessage msg = false ∧ p = peer then
        match s.findActiveChan p with
        | some chan => [(msg, (s.sendMsg chan.ptr msg mem).isSome)]
        | none => []
      else []
  | .established ptr mem =>
      match Table.lookup Chan.ptr ptr s.chans with
      | some c =>
          let s := s.modifyChan ptr fun c => { c with active := true }
          if c.peerId = peer ∧ s.sky.selfAware ∧ s.sky.msgqueues.contains peer then
            match s.findActiveChan peer with
            | some chan => flushCalls chan.ptr mem s 0 (s.sky.msgqueues.get peer)
            | none => []
          else []
      | none => []
  | _ => []

/-- The texts the user writes to a peer. -/
def written (peer : Id) : Event → List Text
  | .typed p msg _ _ _ => if isEmptyMessage msg = false ∧ p = peer then [msg] else []
  | _ => []

/-- The application, with what has been written to a peer and what has been given to
`PICA_send_msg` since the link to the node is active. -/
structure Log where
  app : App
  written : List Text
  calls : List (Text × Bool)

/-- The queue holds texts of an earlier session. -/
def Log.start (s : App) (peer : Id) : Log :=
  ⟨s, s.sky.msgqueues.get peer, []⟩

variable (me : Id)

def Log.step (peer : Id) (l : Log) (e : Event) : Option Log :=
  (l.app.step me isEmptyMessage e).map fun t =>
    ⟨t, l.written ++ App.written isEmptyMessage peer e,
      l.calls ++ App.calls isEmptyMessage peer l.app e⟩

/-- The texts whose calls have succeeded. -/
def succeeded (calls : List (Text × Bool)) : List Text :=
  (calls.filter fun x => x.2).map Prod.fst

/-- The texts are handed over in the order in which they were written, each at most once, and
while a channel is active every text has been given to `PICA_send_msg`. -/
structure SentInOrder (l : Log) (peer : Id) : Prop where
  order : (succeeded l.calls).Sublist l.written
  tried : (l.app.findActiveChan peer).isSome → l.written.Subperm (l.calls.map Prod.fst)

/-- The link is active before and after an event. -/
def InSession (c2n : C2n) (s : App) (e : Event) : Prop :=
  s.sky.selfAware = true ∧ s.sky.activeNodelink = some c2n ∧
    ∀ t ∈ s.step me isEmptyMessage e,
      t.sky.selfAware = true ∧ t.sky.activeNodelink = some c2n

/-- When a channel to the peer is established, so that there is an active one on the link, there
is memory for each text that waits, and none of them is too long. -/
def FlushAllowed (peer : Id) (s : App) : Event → Prop
  | .established ptr mem =>
      ∀ c ∈ Table.lookup Chan.ptr ptr s.chans, c.peerId = peer →
        ((s.modifyChan ptr fun c => { c with active := true }).findActiveChan peer).isSome →
        ∀ i < (s.sky.msgqueues.get peer).length,
          ((s.sky.msgqueues.get peer).getD i []).length ≤ Proto.C2CMSG_MAXDATASIZE ∧ mem i = true
  | _ => True

/-- The queue for a peer, and whether there is an active channel to it. -/
def outbox (s : App) (peer : Id) : Outbox.State Text :=
  ⟨s.sky.msgqueues.get peer, (s.findActiveChan peer).isSome⟩

variable {me isEmptyMessage} {s t : App} {peer p : Id} {msg : Text} {ptr : Nat} {c2n : C2n}

/-! ### What stays while texts are written -/

/-- The part of a channel that does not change while it is open, and whether it is active. -/
def chanHead (c : Chan) : Nat × C2n × Id × Bool :=
  (c.ptr, c.conn, c.peerId, c.active)

/-- The channels and the link are the same but for the texts. -/
structure SameChans (s t : App) : Prop where
  heads : t.chans.map chanHead = s.chans.map chanHead
  links : t.sky.links = s.sky.links
  active : t.sky.activeNodelink = s.sky.activeNodelink
  aware : t.sky.selfAware = s.sky.selfAware

theorem SameChans.refl : SameChans s s :=
  ⟨rfl, rfl, rfl, rfl⟩

theorem SameChans.trans {u : App} (h : SameChans s t) (h' : SameChans t u) : SameChans s u :=
  ⟨h'.heads.trans h.heads, h'.links.trans h.links, h'.active.trans h.active,
    h'.aware.trans h.aware⟩

/-- The addresses of the channels differ, and their links are connected. -/
structure Sound (s : App) : Prop where
  distinct : Table.Distinct Chan.ptr s.chans
  conns : ∀ c ∈ s.chans, s.sky.links c.conn = some .connected

/-- A link to a node has become active; it has no channels yet. -/
structure SessionStart (c2n : C2n) (s : App) : Prop where
  aware : s.sky.selfAware = true
  active : s.sky.activeNodelink = some c2n
  sound : Sound s
  none : ∀ c ∈ s.chans, c.conn ≠ c2n

theorem Sound.same (h : Sound s) (hsame : SameChans s t) : Sound t where
  distinct := by
    have hptr : ∀ l : List Chan, l.map Chan.ptr = (l.map chanHead).map Prod.fst := by
      intro l
      rw [List.map_map]
      rfl
    rw [Table.Distinct, hptr, hsame.heads, ← hptr]
    exact h.distinct
  conns := by
    intro d hd
    have hmem : chanHead d ∈ s.chans.map chanHead := by
      rw [← hsame.heads]
      exact List.mem_map_of_mem hd
    obtain ⟨c, hc, hhead⟩ := List.mem_map.mp hmem
    have hconn : c.conn = d.conn := congrArg (fun x => x.2.1) hhead
    rw [hsame.links, ← hconn]
    exact h.conns c hc

theorem findActiveChan_isSome :
    (s.findActiveChan peer).isSome = s.sky.activeNodelink.any fun c2n =>
      s.chans.any fun c => c.conn == c2n && c.active && c.peerId == peer := by
  rw [findActiveChan]
  cases s.sky.activeNodelink with
  | none => rfl
  | some c2n => exact List.isSome_find?

theorem SameChans.findActiveChan (h : SameChans s t) :
    (t.findActiveChan peer).isSome = (s.findActiveChan peer).isSome := by
  have hany : ∀ (l : List Chan) (c2n : C2n),
      (l.any fun c => c.conn == c2n && c.active && c.peerId == peer) =
        (l.map chanHead).any fun x => x.2.1 == c2n && x.2.2.2 && x.2.2.1 == peer := by
    intro l c2n
    rw [List.any_map]
    rfl
  rw [findActiveChan_isSome, findActiveChan_isSome, h.active]
  congr 1
  funext c2n
  rw [hany, hany, h.heads]

theorem modifyChan_same
    {f : Chan → Chan} (hf : ∀ c, chanHead (f c) = chanHead c) :
    SameChans s (s.modifyChan ptr f) := by
  refine ⟨?_, rfl, rfl, rfl⟩
  rw [modifyChan, Table.modify, List.map_map]
  refine List.map_congr_left fun c _ => ?_
  dsimp only [Function.comp]
  split_ifs
  · exact hf c
  · rfl

theorem sendMsg_same {mem : Bool} (h : s.sendMsg ptr msg mem = some t) :
    SameChans s t ∧ t.sky.msgqueues = s.sky.msgqueues := by
  rw [sendMsg] at h
  split_ifs at h
  cases h
  exact ⟨modifyChan_same fun _ => rfl, rfl⟩

theorem flushLoop_same {mem : Nat → Bool} {i : Nat} {msgs : List Text} :
    SameChans s (flushLoop ptr p mem s i msgs).1 ∧
      (flushLoop ptr p mem s i msgs).1.sky.msgqueues = s.sky.msgqueues := by
  induction msgs generalizing s i with
  | nil => exact ⟨.refl, rfl⟩
  | cons msg msgs ih =>
      rw [flushLoop]
      cases hsend : s.sendMsg ptr msg (mem i) with
      | none => exact ⟨⟨rfl, rfl, rfl, rfl⟩, rfl⟩
      | some u =>
          obtain ⟨hsame, hqueues⟩ := sendMsg_same hsend
          obtain ⟨hrest, hrestqueues⟩ := @ih u (i + 1)
          exact ⟨hsame.trans hrest, hrestqueues.trans hqueues⟩

theorem flushQueues_same {mem : Nat → Bool} : SameChans s (s.flushQueues p mem) := by
  rw [flushQueues]
  split_ifs
  · cases s.findActiveChan p with
    | none => exact .refl
    | some chan =>
        have hloop := @flushLoop_same s p chan.ptr mem 0 (s.sky.msgqueues.get p)
        dsimp only
        split_ifs
        · exact hloop.1.trans ⟨rfl, rfl, rfl, rfl⟩
        · exact hloop.1.trans ⟨rfl, rfl, rfl, rfl⟩
  · exact .refl

/-- The queue of another peer is not touched. -/
theorem flushQueues_queue {mem : Nat → Bool} (hne : peer ≠ p) :
    (s.flushQueues p mem).sky.msgqueues.get peer = s.sky.msgqueues.get peer := by
  rw [flushQueues]
  split_ifs
  · cases s.findActiveChan p with
    | none => rfl
    | some chan =>
        have hloop := (@flushLoop_same s p chan.ptr mem 0 (s.sky.msgqueues.get p)).2
        dsimp only
        split_ifs
        · dsimp only [removeQueue]
          rw [hloop, Queues.get_remove, if_neg hne]
        · dsimp only [setQueue]
          rw [hloop, Queues.get_set, if_neg hne]
  · rfl

/-- All texts of the queue are written. -/
theorem flushLoop_all
    {mem : Nat → Bool} {i : Nat} {msgs : List Text}
    (h : ∀ j < msgs.length, (msgs.getD j []).length ≤ Proto.C2CMSG_MAXDATASIZE ∧
      mem (i + j) = true) :
    (flushLoop ptr p mem s i msgs).2 = [] ∧
      flushCalls ptr mem s i msgs = msgs.map fun m => (m, true) := by
  induction msgs generalizing s i with
  | nil => exact ⟨rfl, rfl⟩
  | cons msg msgs ih =>
      obtain ⟨hlen, hmem⟩ := h 0 (Nat.succ_pos _)
      have hsend : ∃ u, s.sendMsg ptr msg (mem i) = some u := by
        refine ⟨_, if_neg ?_⟩
        rintro (hlong | hnone)
        · exact absurd hlen (Nat.not_le.mpr hlong)
        · exact absurd hnone (by rw [show mem i = true from hmem]; decide)
      obtain ⟨u, hu⟩ := hsend
      have hrest : ∀ j < msgs.length, (msgs.getD j []).length ≤ Proto.C2CMSG_MAXDATASIZE ∧
          mem (i + 1 + j) = true := by
        intro j hj
        have hj' := h (j + 1) (Nat.succ_lt_succ hj)
        rw [List.getD_cons_succ, ← Nat.add_assoc, Nat.add_right_comm] at hj'
        exact hj'
      obtain ⟨hnil, hcalls⟩ := @ih u (i + 1) hrest
      rw [flushLoop, flushCalls, hu]
      exact ⟨hnil, by rw [List.map_cons, ← hcalls]⟩

/-- The loop writes the texts whose calls succeed to the channel, and the others stay. -/
theorem flushLoop_calls {mem : Nat → Bool} {i : Nat} {msgs : List Text} :
    (flushLoop ptr p mem s i msgs).1.chans =
        (s.modifyChan ptr fun c =>
          { c with sent := c.sent ++ succeeded (flushCalls ptr mem s i msgs) }).chans ∧
      succeeded (flushCalls ptr mem s i msgs) ++ (flushLoop ptr p mem s i msgs).2 = msgs := by
  have hnothing : s.chans = (s.modifyChan ptr fun c => { c with sent := c.sent ++ [] }).chans := by
    simp [modifyChan, Table.modify]
  induction msgs generalizing s i with
  | nil => exact ⟨hnothing, rfl⟩
  | cons msg msgs ih =>
      rw [flushLoop, flushCalls]
      cases hsend : s.sendMsg ptr msg (mem i) with
      | none => exact ⟨hnothing, rfl⟩
      | some u =>
          have hu : u.chans =
              (s.modifyChan ptr fun c => { c with sent := c.sent ++ [msg] }).chans := by
            rw [sendMsg] at hsend
            split_ifs at hsend
            cases hsend
            rfl
          obtain ⟨hchans, hstay⟩ := @ih u (i + 1) (by simp [modifyChan, Table.modify])
          refine ⟨?_, ?_⟩
          · dsimp only
            rw [hchans, modifyChan, modifyChan, hu]
            simp only [modifyChan, Table.modify, List.map_map]
            refine List.map_congr_left fun c _ => ?_
            by_cases hc : c.ptr = ptr
            · simp [hc, succeeded]
            · simp [hc]
          · dsimp only [succeeded] at hstay ⊢
            rw [List.filter_cons_of_pos rfl, List.map_cons, List.cons_append, hstay]

/-! ### Channels that come and go -/

theorem outbox_same (h : SameChans s t)
    (hqueue : t.sky.msgqueues.get peer = s.sky.msgqueues.get peer) :
    t.outbox peer = s.outbox peer := by
  rw [outbox, outbox, hqueue, h.findActiveChan]

/-- A new channel is not active. -/
theorem outbox_allocC2c : (s.allocC2c c2n p ptr).outbox peer = s.outbox peer := by
  rw [outbox, outbox, findActiveChan_isSome, findActiveChan_isSome]
  simp [allocC2c]

/-- `PICA_new_c2c` opens a channel on a connected link or changes nothing. -/
theorem newC2c_eq {made : Option (Nat × Bool)} :
    (s.newC2c p made).1 = s ∨ ∃ c2n ptr pushed, made = some (ptr, pushed) ∧
      s.sky.links c2n = some .connected ∧ (s.newC2c p made).1 = s.allocC2c c2n p ptr := by
  unfold newC2c
  split
  next c2n ptr pushed hlink =>
    split_ifs with hconn
    · exact .inr ⟨c2n, ptr, pushed, rfl, hconn, rfl⟩
    · exact .inl rfl
  next => exact .inl rfl

theorem outbox_newC2c {made : Option (Nat × Bool)} :
    (s.newC2c p made).1.outbox peer = s.outbox peer := by
  rcases @newC2c_eq s p made with heq | ⟨c2n, ptr, pushed, -, -, heq⟩
  · rw [heq]
  · rw [heq]
    exact outbox_allocC2c

theorem outbox_setQueue {msgs : List Text} :
    (s.setQueue p msgs).outbox peer =
      ⟨if peer = p then msgs else s.sky.msgqueues.get peer, (s.findActiveChan peer).isSome⟩ := by
  rw [outbox]
  dsimp only [setQueue]
  rw [Queues.get_set]
  rfl

theorem outbox_unableToDeliver : (s.unableToDeliver p msg).outbox peer = s.outbox peer :=
  rfl

/-- The table does not decide whether a text can be written. -/
theorem sendMsg_history {h : History} {mem : Bool} :
    ({ s with history := h }.sendMsg ptr msg mem).isSome = (s.sendMsg ptr msg mem).isSome := by
  rw [sendMsg, sendMsg]
  split_ifs
  · rfl
  · rfl

theorem outbox_sendMsg {mem : Bool} :
    ((s.sendMsg ptr msg mem).getD (s.unableToDeliver p msg)).outbox peer = s.outbox peer := by
  cases hsend : s.sendMsg ptr msg mem with
  | none => exact outbox_unableToDeliver
  | some t =>
      obtain ⟨hsame, hqueues⟩ := sendMsg_same hsend
      exact outbox_same hsame (congrArg (Queues.get · peer) hqueues)

/-- A channel that is lost is not active any more. -/
theorem findActiveChan_of_sublist
    (hchans : t.chans.Sublist s.chans) (hactive : t.sky.activeNodelink = s.sky.activeNodelink)
    (h : (t.findActiveChan peer).isSome) : (s.findActiveChan peer).isSome := by
  rw [findActiveChan_isSome, hactive] at h
  rw [findActiveChan_isSome]
  cases hlink : s.sky.activeNodelink with
  | none =>
      rw [hlink] at h
      cases h
  | some c2n =>
      rw [hlink, Option.any_some, List.any_eq_true] at h
      obtain ⟨c, hc, hmatch⟩ := h
      rw [Option.any_some, List.any_eq_true]
      exact ⟨c, hchans.subset hc, hmatch⟩

theorem Sound.sublist
    {chans : List Chan} (h : Sound s) (hchans : chans.Sublist s.chans) :
    Sound { s with chans := chans } where
  distinct := h.distinct.sublist (hchans.map Chan.ptr)
  conns := fun c hc => h.conns c (hchans.subset hc)

theorem Sound.allocC2c
    (h : Sound s) (hlink : s.sky.links c2n = some .connected) (hfresh : s.freshChan ptr = true) :
    Sound (s.allocC2c c2n p ptr) where
  distinct := by
    rw [freshChan, Option.isNone_iff_eq_none] at hfresh
    exact h.distinct.concat fun c hc => Table.lookup_eq_none.mp hfresh c hc
  conns := by
    intro c hc
    rcases List.mem_append.mp hc with hc | hc
    · exact h.conns c hc
    · obtain rfl := List.mem_singleton.mp hc
      exact hlink

theorem Sound.modifyChan
    {f : Chan → Chan} (h : Sound s) (hf : ∀ c, (f c).ptr = c.ptr ∧ (f c).conn = c.conn) :
    Sound (s.modifyChan ptr f) where
  distinct := h.distinct.modify fun c _ _ => (hf c).1
  conns := by
    intro d hd
    obtain ⟨c, hc, rfl⟩ := Table.mem_modify.mp hd
    split_ifs
    · rw [(hf c).2]
      exact h.conns c hc
    · exact h.conns c hc

theorem Sound.sendMessage
    {mem : Bool} {made : Option (Nat × Bool)} (h : Sound s)
    (hfresh : made.all (fun r => s.freshChan r.1) = true) :
    Sound (s.sendMessage p msg mem made) := by
  rw [App.sendMessage]
  cases s.findActiveChan p with
  | some chan =>
      dsimp only
      cases hsend : s.sendMsg chan.ptr msg mem with
      | some t => exact h.same (sendMsg_same hsend).1
      | none => exact { h with }
  | none =>
      have hnew : Sound (s.newC2c p made).1 := by
        rcases @newC2c_eq s p made with heq | ⟨c2n, ptr, pushed, rfl, hconn, heq⟩
        · rw [heq]
          exact h
        · rw [heq]
          exact h.allocC2c hconn (by simpa using hfresh)
      dsimp only
      split_ifs
      · exact { h with }
      · exact { hnew with }
      · exact { hnew with }

theorem Sound.step
    {e : Event} (h : Sound s) (hstep : s.step me isEmptyMessage e = some t) : Sound t := by
  cases e with
  | node e =>
      simp only [App.step] at hstep
      split_ifs at hstep
      obtain ⟨sky, -, rfl⟩ := Option.map_eq_some_iff.mp hstep
      refine ⟨h.distinct.sublist (List.filter_sublist.map Chan.ptr), fun c hc => ?_⟩
      exact of_decide_eq_true (List.mem_filter.mp hc).2
  | typed p msg stored mem made =>
      simp only [App.step] at hstep
      split_ifs at hstep with hempty hfresh hstored
      · cases hstep
        exact h
      · cases hstep
        exact Sound.sendMessage { h with } hfresh
      · cases hstep
        exact h.sendMessage hfresh
  | opened conn p ptr =>
      simp only [App.step] at hstep
      split_ifs at hstep with hopen
      cases hstep
      exact h.allocC2c hopen.1 hopen.2
  | established ptr mem =>
      simp only [App.step] at hstep
      cases hc : Table.lookup Chan.ptr ptr s.chans with
      | none => simp [hc] at hstep
      | some c =>
          simp only [hc, Option.some.injEq] at hstep
          subst hstep
          have hmod := @Sound.modifyChan s ptr (fun c => { c with active := true })
            h fun _ => ⟨rfl, rfl⟩
          exact hmod.same flushQueues_same
  | accepted ptr =>
      simp only [App.step] at hstep
      cases hc : Table.lookup Chan.ptr ptr s.chans with
      | none => simp [hc] at hstep
      | some c =>
          cases hmsg : c.sent[c.accepted]? with
          | none => simp [hc, hmsg] at hstep
          | some msg =>
              simp only [hc, hmsg, Option.some.injEq] at hstep
              subst hstep
              have hmod := @Sound.modifyChan s ptr (fun c => { c with accepted := c.accepted + 1 })
                h fun _ => ⟨rfl, rfl⟩
              exact { hmod with }
  | msgok ptr =>
      simp only [App.step] at hstep
      cases hc : Table.lookup Chan.ptr ptr s.chans with
      | none => simp [hc] at hstep
      | some c =>
          simp only [hc] at hstep
          split_ifs at hstep with hlt
          cases hstep
          have hmod := @Sound.modifyChan s ptr (fun c => { c with acked := c.acked + 1 })
            h fun _ => ⟨rfl, rfl⟩
          exact { hmod with }
  | closed ptr =>
      cases hstep
      exact h.sublist List.filter_sublist
  | restart =>
      cases hstep
      exact ⟨List.nodup_nil, fun _ hc => by cases hc⟩

theorem Sound.start : Sound start :=
  ⟨List.nodup_nil, fun _ hc => by cases hc⟩

/-! ### The two routes -/

/-- The first route, and the queue of the other one. -/
theorem sendMessage_outbox
    {mem : Bool} {made : Option (Nat × Bool)} :
    Outbox.Step (s.outbox peer) [msg]
      (match s.findActiveChan peer with
        | some chan => [(msg, (s.sendMsg chan.ptr msg mem).isSome)]
        | none => [])
      ((s.sendMessage peer msg mem made).outbox peer) := by
  have hbefore : s.outbox peer = ⟨s.sky.msgqueues.get peer, (s.findActiveChan peer).isSome⟩ := rfl
  rw [sendMessage]
  cases hchan : s.findActiveChan peer with
  | some chan =>
      rw [hchan] at hbefore
      dsimp only
      rw [outbox_sendMsg, hbefore]
      exact .direct _ _ _
  | none =>
      rw [hchan] at hbefore
      dsimp only
      have hset : ∀ {u : App} {msgs : List Text}, u.outbox peer = s.outbox peer →
          (u.setQueue peer msgs).outbox peer = ⟨msgs, false⟩ := by
        intro u msgs hu
        have hup : (u.findActiveChan peer).isSome = (s.findActiveChan peer).isSome :=
          congrArg Outbox.State.up hu
        rw [outbox_setQueue, if_pos rfl, hup, hchan]
        rfl
      rw [hbefore]
      by_cases hcontains : s.sky.msgqueues.contains peer = true
      · rw [if_pos hcontains, hset rfl]
        exact .queued _ _
      · have hempty : s.sky.msgqueues.get peer = [] :=
          Queues.get_of_not_contains (Bool.not_eq_true _ ▸ hcontains)
        rw [if_neg hcontains, hempty]
        split_ifs
        · rw [hset outbox_newC2c]
          exact .queued [] msg
        · rw [outbox_unableToDeliver, hset outbox_newC2c]
          exact .queued [] msg

/-- A text to another peer. -/
theorem sendMessage_other
    {mem : Bool} {made : Option (Nat × Bool)} (hne : peer ≠ p) :
    (s.sendMessage p msg mem made).outbox peer = s.outbox peer := by
  have hset : ∀ {u : App} {msgs : List Text}, u.outbox peer = s.outbox peer →
      (u.setQueue p msgs).outbox peer = s.outbox peer := by
    intro u msgs hu
    rw [outbox_setQueue, if_neg hne]
    exact hu
  rw [sendMessage]
  cases s.findActiveChan p with
  | some chan => exact outbox_sendMsg
  | none =>
      dsimp only
      split_ifs
      · exact hset rfl
      · exact hset outbox_newC2c
      · rw [outbox_unableToDeliver]
        exact hset outbox_newC2c

/-- A channel to another peer becomes active. -/
theorem outbox_activated
    {c : Chan} (hdistinct : Table.Distinct Chan.ptr s.chans)
    (hc : Table.lookup Chan.ptr ptr s.chans = some c) (hne : c.peerId ≠ peer) :
    (s.modifyChan ptr fun c => { c with active := true }).outbox peer = s.outbox peer := by
  obtain ⟨before, after, hsplit, hmodify⟩ :=
    hdistinct.split hc fun c => { c with active := true }
  rw [outbox, outbox, findActiveChan_isSome, findActiveChan_isSome]
  dsimp only [modifyChan]
  congr 2
  funext c2n
  rw [hmodify]
  conv_rhs => rw [hsplit]
  have hother : (c.peerId == peer) = false := beq_eq_false_iff_ne.mpr hne
  simp only [List.any_append, List.any_cons, hother, Bool.and_false]

/-- The second route. -/
theorem flushQueues_outbox
    {mem : Nat → Bool} {up : Bool} (haware : s.sky.selfAware = true)
    (hall : (s.findActiveChan peer).isSome → ∀ i < (s.sky.msgqueues.get peer).length,
      ((s.sky.msgqueues.get peer).getD i []).length ≤ Proto.C2CMSG_MAXDATASIZE ∧ mem i = true) :
    Outbox.Step ⟨s.sky.msgqueues.get peer, up⟩ []
      (if s.sky.selfAware ∧ s.sky.msgqueues.contains peer then
        match s.findActiveChan peer with
        | some chan => flushCalls chan.ptr mem s 0 (s.sky.msgqueues.get peer)
        | none => []
      else [])
      ((s.flushQueues peer mem).outbox peer) := by
  have hafter : (s.flushQueues peer mem).outbox peer =
      ⟨(s.flushQueues peer mem).sky.msgqueues.get peer, (s.findActiveChan peer).isSome⟩ := by
    rw [outbox, flushQueues_same.findActiveChan]
  rw [hafter]
  rw [flushQueues]
  by_cases hcontains : s.sky.msgqueues.contains peer = true
  · rw [if_pos ⟨haware, hcontains⟩, if_pos ⟨haware, hcontains⟩]
    cases hchan : s.findActiveChan peer with
    | none => exact .idle _ fun h => by cases h
    | some chan =>
        obtain ⟨hnil, hcalls⟩ := @flushLoop_all s peer chan.ptr mem 0 (s.sky.msgqueues.get peer)
          (by
            intro j hj
            rw [Nat.zero_add]
            exact hall (by rw [hchan]; rfl) j hj)
        dsimp only
        rw [hnil, hcalls]
        have hremoved : ((flushLoop chan.ptr peer mem s 0 (s.sky.msgqueues.get peer)).1.removeQueue
            peer).sky.msgqueues.get peer = [] := by
          dsimp only [removeQueue]
          rw [Queues.get_remove, if_pos rfl]
        rw [List.isEmpty_nil, if_pos rfl, hremoved]
        exact .flushed _ _
  · have hempty : s.sky.msgqueues.get peer = [] :=
      Queues.get_of_not_contains (Bool.not_eq_true _ ▸ hcontains)
    rw [if_neg fun h => hcontains h.2, if_neg fun h => hcontains h.2, hempty]
    cases (s.findActiveChan peer).isSome with
    | true => exact .flushed [] up
    | false => exact .idle [] fun h => by cases h

/-! ### Sessions -/

/-- The callbacks leave the queues while another link is active. -/
theorem nodelink_msgqueues (sky : SkyNet) (c2n : C2n) :
    (∀ u, sky.selfAware = true → (sky.nodelinkActivated c2n u).msgqueues = sky.msgqueues) ∧
      (sky.nodelinkClosed c2n).msgqueues = sky.msgqueues ∧
        ∀ code, (sky.nodelinkFailed c2n code).msgqueues = sky.msgqueues := by
  refine ⟨fun u haware => ?_, ?_, fun code => ?_⟩
  · obtain ⟨sig, htake⟩ := SkyNet.takeConnecting_eq sky c2n
      (fun s nr => s.nodeStatusChanged nr true) fun s nr => ⟨_, rfl⟩
    rw [SkyNet.nodelinkActivated, htake, if_pos haware]
  · obtain ⟨sig, htake⟩ := SkyNet.takeConnecting_eq sky c2n (fun s _ => s)
      fun s _ => ⟨s.signals, rfl⟩
    rw [SkyNet.nodelinkClosed]
    split_ifs
    · rfl
    · rw [htake]
  · obtain ⟨sig, timer, hfailed⟩ := SkyNet.nodelinkFailed_eq sky c2n code
    rw [hfailed]

theorem skyStep_msgqueues
    {sky sky' : SkyNet} {e : SkyNet.Event} (h : sky.step e = some sky')
    (haware : sky.selfAware = true) (haware' : sky'.selfAware = true) :
    sky'.msgqueues = sky.msgqueues := by
  cases e with
  | join opened nodes =>
      simp only [SkyNet.step] at h
      split_ifs at h
      exact (SkyNet.join_frame h).2.2.2
  | reconnect opened nodes =>
      simp only [SkyNet.step] at h
      split_ifs at h
      exact (SkyNet.join_frame h).2.2.2
  | eventLoop =>
      simp only [SkyNet.step] at h
      split_ifs at h
      cases h
      rfl
  | closeConnected =>
      simp only [SkyNet.step] at h
      split_ifs at h
      cases h
      rw [SkyNet.closeAll_eq]
  | exit =>
      simp only [SkyNet.step] at h
      split_ifs at h
      cases h
      rw [SkyNet.exit, SkyNet.closeAll_eq] at haware'
      cases haware'
  | process r =>
      obtain ⟨c, rest, -, hprocess⟩ := SkyNet.step_process h
      have hmsg := nodelink_msgqueues { sky with todo := some rest } c
      rcases SkyNet.processC2n_cases hprocess with ⟨-, rfl⟩ | ⟨u, -, -, rfl⟩ | ⟨u, -, -, rfl⟩ |
        ⟨code, -, -, rfl⟩ | ⟨code, -, -, rfl⟩
      · rfl
      · exact (nodelink_msgqueues _ c).1 u haware
      · exact ((nodelink_msgqueues _ c).2.1).trans ((nodelink_msgqueues _ c).1 u haware)
      · exact hmsg.2.1
      · exact hmsg.2.2 code

/-- `SendMessage` for a text that is not empty, whatever `History` has stored. -/
theorem typed_outbox
    {stored mem : Bool} {made : Option (Nat × Bool)} (hmsg : isEmptyMessage msg = false)
    (history : History) :
    Outbox.Step (s.outbox peer) (written isEmptyMessage peer (.typed p msg stored mem made))
      (calls isEmptyMessage peer s (.typed p msg stored mem made))
      ((sendMessage { s with history := history } p msg mem made).outbox peer) := by
  dsimp only [written, calls]
  by_cases hp : p = peer
  · subst hp
    rw [if_pos ⟨hmsg, rfl⟩, if_pos ⟨hmsg, rfl⟩]
    have hroutes := @sendMessage_outbox { s with history := history } p msg mem made
    simp only [sendMsg_history] at hroutes
    exact hroutes
  · rw [if_neg fun h => hp h.2, if_neg fun h => hp h.2]
    have hother := @sendMessage_other { s with history := history } peer p msg mem made (Ne.symm hp)
    rw [hother]
    exact .idle _ id

/-- **Each event is an event of the two routes.** -/
theorem step_outbox
    {e : Event} (hsound : Sound s) (hsession : InSession isEmptyMessage me c2n s e)
    (hflush : FlushAllowed peer s e) (hstep : s.step me isEmptyMessage e = some t) :
    Outbox.Step (s.outbox peer) (written isEmptyMessage peer e)
      (calls isEmptyMessage peer s e) (t.outbox peer) := by
  obtain ⟨haware, hactive, hnext⟩ := hsession
  obtain ⟨haware', hactive'⟩ := hnext t hstep
  have hidle : ∀ {u : App}, u.outbox peer = s.outbox peer →
      Outbox.Step (s.outbox peer) [] [] (u.outbox peer) := by
    intro u hu
    rw [hu]
    exact .idle _ id
  cases e with
  | node e =>
      simp only [App.step] at hstep
      split_ifs at hstep
      obtain ⟨sky, hsky, rfl⟩ := Option.map_eq_some_iff.mp hstep
      have hqueues := skyStep_msgqueues hsky haware haware'
      rw [outbox, outbox]
      dsimp only
      rw [hqueues]
      exact .idle _ (findActiveChan_of_sublist List.filter_sublist (hactive'.trans hactive.symm))
  | typed p msg stored mem made =>
      simp only [App.step] at hstep
      by_cases hempty : isEmptyMessage msg = true
      · rw [if_pos hempty] at hstep
        cases hstep
        dsimp only [written, calls]
        have hnot : ¬(isEmptyMessage msg = false ∧ p = peer) := by
          rw [hempty]
          exact fun h => by cases h.1
        rw [if_neg hnot, if_neg hnot]
        exact hidle rfl
      · rw [if_neg hempty] at hstep
        split_ifs at hstep with hfresh hstored <;> cases hstep
        · exact typed_outbox (Bool.not_eq_true _ ▸ hempty) _
        · exact typed_outbox (Bool.not_eq_true _ ▸ hempty) s.history
  | opened conn p ptr =>
      simp only [App.step] at hstep
      split_ifs at hstep
      cases hstep
      exact hidle outbox_allocC2c
  | established ptr mem =>
      simp only [App.step] at hstep
      dsimp only [written, calls]
      cases hc : Table.lookup Chan.ptr ptr s.chans with
      | none => simp [hc] at hstep
      | some c =>
          simp only [hc, Option.some.injEq] at hstep
          subst hstep
          dsimp only
          by_cases hp : c.peerId = peer
          · subst hp
            have hall := hflush c hc rfl
            have hstep := @flushQueues_outbox
              (s.modifyChan ptr fun c => { c with active := true }) c.peerId mem
              (s.findActiveChan c.peerId).isSome haware hall
            simp only [true_and]
            exact hstep
          · rw [if_neg fun h => hp h.1]
            refine hidle ?_
            rw [← outbox_activated hsound.distinct hc hp]
            exact outbox_same flushQueues_same (flushQueues_queue (Ne.symm hp))
  | accepted ptr =>
      simp only [App.step] at hstep
      cases hc : Table.lookup Chan.ptr ptr s.chans with
      | none => simp [hc] at hstep
      | some c =>
          cases hmsg : c.sent[c.accepted]? with
          | none => simp [hc, hmsg] at hstep
          | some msg =>
              simp only [hc, hmsg, Option.some.injEq] at hstep
              subst hstep
              have hmod := @modifyChan_same s ptr (fun c => { c with accepted := c.accepted + 1 })
                fun _ => rfl
              exact hidle (outbox_same { hmod with } rfl)
  | msgok ptr =>
      simp only [App.step] at hstep
      cases hc : Table.lookup Chan.ptr ptr s.chans with
      | none => simp [hc] at hstep
      | some c =>
          simp only [hc] at hstep
          split_ifs at hstep
          cases hstep
          have hmod := @modifyChan_same s ptr (fun c => { c with acked := c.acked + 1 })
            fun _ => rfl
          exact hidle (outbox_same { hmod with } rfl)
  | closed ptr =>
      cases hstep
      rw [outbox, outbox]
      exact .idle _ (findActiveChan_of_sublist List.filter_sublist rfl)
  | restart =>
      cases hstep
      cases haware'

/-- A session begins when a link is established while no other one is active. -/
theorem session_starts
    {es : List Event} {undelivered : Queues}
    (hrun : run (step me isEmptyMessage) start es = some s) (hoff : s.sky.selfAware = false)
    (hstep : s.step me isEmptyMessage (.node (.process (.established undelivered))) = some t) :
    ∃ c2n, SessionStart c2n t := by
  have hinv : ∀ (s : App) (e : Event) (t : App),
      Sound s → True → s.step me isEmptyMessage e = some t → Sound t :=
    fun _ _ _ h _ hstep => h.step hstep
  have hsound : Sound s := run_invariant hinv .start meets_true hrun
  have hsound' := hsound.step hstep
  simp only [App.step] at hstep
  split_ifs at hstep
  obtain ⟨sky, hsky, rfl⟩ := Option.map_eq_some_iff.mp hstep
  simp only [SkyNet.step] at hsky
  split at hsky
  next c rest htodo =>
    rw [SkyNet.processC2n] at hsky
    split_ifs at hsky with hc
    cases hsky
    obtain ⟨sig, queues, heq⟩ := SkyNet.nodelinkActivated_eq
      { s.sky with
        todo := some rest
        links := Function.update s.sky.links c (some .connected) } c undelivered
    dsimp only at heq hsound' ⊢
    refine ⟨c, ?_, ?_, hsound', ?_⟩
    · dsimp only
      rw [heq]
    · dsimp only
      rw [heq]
      dsimp only
      rw [hoff, if_neg Bool.false_ne_true]
    · rintro d hd rfl
      have hconn := hsound.conns d (List.mem_of_mem_filter hd)
      cases hconn.symm.trans hc
  next => cases hsky

theorem SessionStart.inOrder
    (h : SessionStart c2n s) (peer : Id) :
    Outbox.InOrder (s.outbox peer) (s.sky.msgqueues.get peer) [] := by
  refine ⟨rfl, fun hup => ?_⟩
  have hany : (s.findActiveChan peer).isSome = true := hup
  rw [findActiveChan_isSome, h.active, Option.any_some, List.any_eq_true] at hany
  obtain ⟨c, hc, hmatch⟩ := hany
  simp only [Bool.and_eq_true, beq_iff_eq] at hmatch
  exact absurd hmatch.1.1 (h.none c hc)

/-- **The order of the messages.**  As long as every text that waits can be written when a
channel to the peer is established, the texts are handed over in the order in which they were
written, and none is held back while a channel is active. -/
theorem sent_in_order
    {s₀ : App} {es : List Event} {l : Log} (hstart : SessionStart c2n s₀)
    (hok : Meets (Log.step isEmptyMessage me peer)
      (fun l e => InSession isEmptyMessage me c2n l.app e ∧ FlushAllowed peer l.app e)
      (Log.start s₀ peer) es)
    (hrun : run (Log.step isEmptyMessage me peer) (Log.start s₀ peer) es = some l) :
    SentInOrder l peer := by
  have hstep : ∀ (l : Log) (e : Event) (l' : Log),
      (Sound l.app ∧ Outbox.InOrder (l.app.outbox peer) l.written l.calls) →
      (InSession isEmptyMessage me c2n l.app e ∧ FlushAllowed peer l.app e) →
      Log.step isEmptyMessage me peer l e = some l' →
      Sound l'.app ∧ Outbox.InOrder (l'.app.outbox peer) l'.written l'.calls := by
    rintro l e l' ⟨hsound, horder⟩ ⟨hsession, hflush⟩ hl
    obtain ⟨t, ht, rfl⟩ := Option.map_eq_some_iff.mp hl
    exact ⟨hsound.step ht, (step_outbox hsound hsession hflush ht).inOrder horder⟩
  obtain ⟨-, horder⟩ := run_invariant hstep ⟨hstart.sound, hstart.inOrder peer⟩ hok hrun
  refine ⟨horder.accepted_sublist, fun hup => ?_⟩
  rw [horder.offered_eq hup]

instance (s : App) : ∀ e, Decidable (FlushAllowed peer s e)
  | .established ptr _ =>
      inferInstanceAs (Decidable (∀ c ∈ Table.lookup Chan.ptr ptr s.chans, _ → _ → ∀ i < _, _ ∧ _))
  | .node _ => .isTrue trivial
  | .typed .. => .isTrue trivial
  | .opened .. => .isTrue trivial
  | .accepted _ => .isTrue trivial
  | .msgok _ => .isTrue trivial
  | .closed _ => .isTrue trivial
  | .restart => .isTrue trivial

instance (s : App) (e : Event) : Decidable (InSession isEmptyMessage me c2n s e) :=
  inferInstanceAs (Decidable (_ ∧ _ ∧ ∀ t ∈ s.step me isEmptyMessage e, _ ∧ _))

/-- The link 1 is active. -/
def online : App :=
  { start with
    sky := { SkyNet.start with
      selfAware := true
      activeNodelink := some 1
      links := fun c2n => if c2n = 1 then some .connected else none } }

theorem online_sessionStart : SessionStart 1 online :=
  ⟨rfl, rfl, ⟨List.nodup_nil, fun _ hc => by cases hc⟩, fun _ hc => by cases hc⟩

/-- Two texts wait for the channel, and a third one is written to it. -/
def threeTexts : List Event :=
  [.typed bob [65] true true (some (1, true)), .typed bob [66] true true none,
    .established 1 fun _ => true, .typed bob [67] true true none]

theorem sent_in_order_three :
    ∃ l, run (Log.step blank alice bob) (Log.start online bob) threeTexts = some l ∧
      SentInOrder l bob ∧ succeeded l.calls = [[65], [66], [67]] := by
  obtain ⟨l, hl, hsent⟩ := run_ends
    (show (run (Log.step blank alice bob) (Log.start online bob) threeTexts).any (fun l => decide
      (succeeded l.calls = [[65], [66], [67]])) = true by decide +kernel)
  exact ⟨l, hl, sent_in_order online_sessionStart (by decide +kernel) hl, hsent⟩

/-- There is no memory for the first text when the channel is established. -/
def heldBack : List Event :=
  [.typed bob [65] true true (some (1, true)), .typed bob [66] true true none,
    .established 1 fun _ => false]

/-- Then a third text passes the two that wait, until another channel is established. -/
def passed : List Event :=
  heldBack ++ [.typed bob [67] true true none, .opened 1 bob 2, .established 2 fun _ => true]

theorem not_sent_in_order :
    (∃ l, run (Log.step blank alice bob) (Log.start online bob) heldBack = some l ∧
      (l.app.findActiveChan bob).isSome ∧ ¬l.written.Subperm (l.calls.map Prod.fst)) ∧
    ∃ l, run (Log.step blank alice bob) (Log.start online bob) passed = some l ∧
      l.written = [[65], [66], [67]] ∧ succeeded l.calls = [[67], [65], [66]] ∧
        ¬SentInOrder l bob := by
  constructor
  · obtain ⟨l, hl, hup, hwritten, hcalls⟩ := run_ends
      (show (run (Log.step blank alice bob) (Log.start online bob) heldBack).any (fun l => decide
        ((l.app.findActiveChan bob).isSome ∧ l.written = [[65], [66]] ∧
          l.calls.map Prod.fst = [[65]])) = true by decide +kernel)
    refine ⟨l, hl, hup, fun hsub => ?_⟩
    rw [hwritten, hcalls] at hsub
    exact absurd hsub.length_le (by decide)
  · obtain ⟨l, hl, hwritten, hcalls⟩ := run_ends
      (show (run (Log.step blank alice bob) (Log.start online bob) passed).any (fun l => decide
        (l.written = [[65], [66], [67]] ∧ succeeded l.calls = [[67], [65], [66]])) = true
        by decide +kernel)
    refine ⟨l, hl, hwritten, hcalls, fun hsent => ?_⟩
    have horder := hsent.order
    rw [hwritten, hcalls] at horder
    exact absurd horder (by decide)

end App
end Client
end PicaPica
