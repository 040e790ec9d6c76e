import PicaPica.Lib.Backoff
import PicaPica.Lib.Sweep
import PicaPica.Client.History

/-!
# Asking again for a peer that could not be reached

A text or a file for a peer without a channel waits in a queue.  Once a second, and at once
when a link to a node becomes active, `reconnect_c2c` goes through the peers with a queue and
requests a channel to each that has none.  A peer that is not found or whose channel fails
gets a number of seconds in `c2c_reconnect_timeouts`, which doubles with each failure up to
64; the request is made in the seconds that this number divides.

So no peer with a queue is left out for more than 64 seconds, a peer without a failure is
asked for every second, and a peer that has a channel is not asked for at all.
-/

namespace PicaPica

open Machine Backoff

namespace Client

/-- `pica-client` with the queues of files and `c2c_reconnect_timeouts`. -/
structure Reconnecting where
  app : App
  sndfilequeues : Queues
  c2cReconnectTimeouts : Id → Option Nat

/-- For each peer what `PICA_new_c2c` makes when it is called. -/
abbrev Made := Id → Option (Nat × Bool)

namespace Queues

/-- `QMap::uniqueKeys`, in the order of the map. -/
def uniqueKeys (q : Queues) : List Id :=
  (q.map Prod.fst).dedup.insertionSort fun i j => i.rank ≤ j.rank

end Queues

namespace App

/-- `SkyNet::filter_existing_chans`. -/
def filterExistingChans (s : App) (peerIds : List Id) : List Id :=
  match s.sky.activeNodelink with
  | none => peerIds
  | some c2n =>
      (s.chans.filter fun c => c.conn == c2n).foldl
        (fun ret c => if c.peerId ∈ peerIds then ret.erase c.peerId else ret) peerIds

/-- The active link has a channel to the peer. -/
def hasChan (s : App) (peer : Id) : Bool :=
  s.chans.any fun c => s.sky.activeNodelink == some c.conn && c.peerId == peer

end App

namespace Reconnecting

def start : Reconnecting :=
  ⟨.start, [], fun _ => none⟩

/-- The most that `update_c2c_reconnect_timeout` sets. -/
def longest : Nat := 2 ^ 6

/-- `SkyNet::update_c2c_reconnect_timeout`. -/
def updateC2cReconnectTimeout (s : Reconnecting) (peer : Id) : Reconnecting :=
  let d := match s.c2cReconnectTimeouts peer with
    | some d => d * 2
    | none => 1
  { s with
    c2cReconnectTimeouts :=
      Function.update s.c2cReconnectTimeouts peer (some (if longest ≤ d then longest else d)) }

/-- `SkyNet::reset_c2c_reconnect_timeout`. -/
def resetC2cReconnectTimeout (s : Reconnecting) (peer : Id) : Reconnecting :=
  { s with c2cReconnectTimeouts := Function.update s.c2cReconnectTimeouts peer none }

/-- `c2c_reconnect_timeouts.clear()`. -/
def clearTimeouts (s : Reconnecting) : Reconnecting :=
  { s with c2cReconnectTimeouts := fun _ => none }

/-- The body of the loop of `reconnect_c2c`. -/
def reconnectPeer (t : Nat) (made : Made) (s : Reconnecting) (peer : Id) : Option Reconnecting :=
  if due t (s.c2cReconnectTimeouts peer) then
    if (made peer).all fun r => s.app.freshChan r.1 then
      some { s with app := (s.app.newC2c peer (made peer)).1 }
    else none
  else some s

/-- The peers with a queue. -/
def queued (s : Reconnecting) : List Id :=
  Queues.uniqueKeys (s.app.sky.msgqueues ++ s.sndfilequeues)

/-- `SkyNet::reconnect_c2c` in the second `t`. -/
def reconnectC2c (s : Reconnecting) (t : Nat) (made : Made) : Option Reconnecting :=
  if s.app.sky.msgqueues.isEmpty ∧ s.sndfilequeues.isEmpty then some s
  else if s.app.sky.selfAware then
    (s.app.filterExistingChans s.queued).foldlM (reconnectPeer t made) s
  else some s

/-- The second loop of `flush_queues`, with the files that stay in the queue; `sent` tells for
which of them `PICA_send_file` succeeds. -/
def flushFiles (sent : Nat → Bool) : Nat → List Text → List Text
  | _, [] => []
  | i, f :: fs => if sent i then flushFiles sent (i + 1) fs else f :: fs

/-- What `flush_queues` does after the messages. -/
def flushFileQueue (s : Reconnecting) (peer : Id) (sent : Nat → Bool) : Reconnecting :=
  if s.app.sky.selfAware ∧ s.sndfilequeues.contains peer ∧ (s.app.findActiveChan peer).isSome then
    let left := flushFiles sent 0 (s.sndfilequeues.get peer)
    { s with
      sndfilequeues :=
        if left.isEmpty then Table.remove Prod.fst peer s.sndfilequeues
        else s.sndfilequeues.set peer left }
  else s

/-- `SkyNet::SendFile`; a channel that is active takes the file itself. -/
def sendFile
    (s : Reconnecting) (peer : Id) (filepath : Text) (made : Option (Nat × Bool)) : Reconnecting :=
  match s.app.findActiveChan peer with
  | some _ => s
  | none =>
      if s.sndfilequeues.contains peer then s
      else
        { s with
          app := (s.app.newC2c peer made).1
          sndfilequeues := s.sndfilequeues.set peer [filepath] }

/-- What happens to the application. -/
inductive Event
  /-- what has nothing to do with the channels that are requested again -/
  | app (e : App.Event)
  /-- the links to the nodes, in the second `t` -/
  | node (e : SkyNet.Event) (t : Nat) (made : Made)
  /-- `c2c_established_cb` -/
  | established (ptr : Nat) (mem sent : Nat → Bool)
  /-- `c2c_failed`, and the channel is closed -/
  | failed (ptr : Nat)
  /-- `procmsg_NOTFOUND` with `notfound_cb` -/
  | notfound (conn : C2n) (peer : Id)
  | sendFile (peer : Id) (filepath : Text) (made : Option (Nat × Bool))
  /-- the timer `c2c_reconnect_timer_id` in the second `t` -/
  | timer (t : Nat) (made : Made)
  /-- the program is started again -/
  | restart

/-- The events that have an event of their own here are those that change the timeouts. -/
def plain : App.Event → Bool
  | .node _ => false
  | .established .. => false
  | .restart => false
  | _ => true

/-- The end of `nodelink_activated`, when the link of the step has become the active one.  A
link that fails at once takes with it the channels that have been requested on it. -/
def afterNode
    (s : Reconnecting) (wasAware : Bool) (t : Nat) (made : Made) :
    SkyNet.Event → Option Reconnecting
  | .process (.established _) =>
      if wasAware then some s else s.clearTimeouts.reconnectC2c t made
  | .process (.establishedFailed _) => some (if wasAware then s else s.clearTimeouts)
  | _ => some s

/-- The request that a `NOTFOUND` is about is the newest one to the peer. -/
def requested (s : App) (conn : C2n) (peer : Id) : Option Chan :=
  (s.chans.filter fun c => c.conn == conn && c.peerId == peer).getLast?

variable (me : Id) (isEmptyMessage : Text → Bool)

/-- One step, for the account `me`. -/
def step (s : Reconnecting) : Event → Option Reconnecting
  | .app e =>
      if plain e then (s.app.step me isEmptyMessage e).map fun app => { s with app := app } else none
  | .node e t made =>
      (s.app.step me isEmptyMessage (.node e)).bind fun app =>
        { s with app := app }.afterNode s.app.sky.selfAware t made e
  | .established ptr mem sent =>
      match Table.lookup Chan.ptr ptr s.app.chans with
      | some c =>
          (s.app.step me isEmptyMessage (.established ptr mem)).map fun app =>
            { s.resetC2cReconnectTimeout c.peerId with app := app }.flushFileQueue c.peerId sent
      | none => none
  | .failed ptr =>
      match Table.lookup Chan.ptr ptr s.app.chans with
      | some c =>
          (s.app.step me isEmptyMessage (.closed ptr)).map fun app =>
            { s.updateC2cReconnectTimeout c.peerId with app := app }
      | none => none
  | .notfound conn peer =>
      match requested s.app conn peer with
      | some c =>
          (s.app.step me isEmptyMessage (.closed c.ptr)).map fun app =>
            { s with app := app }.updateC2cReconnectTimeout peer
      | none => none
  | .sendFile peer filepath made =>
      if made.all fun r => s.app.freshChan r.1 then some (s.sendFile peer filepath made) else none
  | .timer t made => if s.app.sky.selfAware then s.reconnectC2c t made else some s
  | .restart => (s.app.step me isEmptyMessage .restart).map fun app => { start with app := app }

variable {me isEmptyMessage} {s u v : Reconnecting} {a b : App} {peer : Id} {made : Made} {t : Nat}
  {e : Event}

/-! ### The channels that exist -/

/-- A peer is taken out once, however many channels it has. -/
theorem erase_chans
    {cs : List Chan} {peerIds ret : List Id} (hret : ret ⊆ peerIds) (hnd : ret.Nodup) :
    cs.foldl (fun ret c => if c.peerId ∈ peerIds then ret.erase c.peerId else ret) ret =
      ret.filter fun p => !cs.any fun c => c.peerId == p := by
  induction cs generalizing ret with
  | nil => simp
  | cons c cs ih =>
      have hstep : (if c.peerId ∈ peerIds then ret.erase c.peerId else ret) =
          ret.filter fun p => !(c.peerId == p) := by
        split_ifs with hc
        · rw [hnd.erase_eq_filter]
          refine List.filter_congr fun p _ => ?_
          rw [bne, Bool.beq_comm]
        · refine (List.filter_eq_self.mpr fun p hp => ?_).symm
          rw [Bool.not_eq_true', beq_eq_false_iff_ne]
          rintro rfl
          exact hc (hret hp)
      rw [List.foldl_cons, hstep, ih (fun p hp => hret (List.mem_of_mem_filter hp))
        (hnd.filter _), List.filter_filter]
      refine List.filter_congr fun p _ => ?_
      rw [List.any_cons, Bool.not_or, Bool.and_comm]

theorem filterExistingChans_eq
    {peerIds : List Id} (hnd : peerIds.Nodup) :
    a.filterExistingChans peerIds = peerIds.filter fun p => !a.hasChan p := by
  unfold App.filterExistingChans App.hasChan
  cases a.sky.activeNodelink with
  | none =>
      refine (List.filter_eq_self.mpr fun p _ => ?_).symm
      simp
  | some c2n =>
      dsimp only
      rw [erase_chans (List.Subset.refl _) hnd]
      refine List.filter_congr fun p _ => ?_
      rw [List.any_filter]
      simp [Bool.beq_comm]

theorem queued_nodup : s.queued.Nodup :=
  (List.perm_insertionSort _ _).nodup_iff.mpr (List.nodup_dedup _)

theorem queued_sorted : s.queued.Pairwise fun i j => i.rank < j.rank := by
  have : Std.Total fun i j : Id => i.rank ≤ j.rank := ⟨fun i j => Nat.le_total i.rank j.rank⟩
  have : IsTrans Id fun i j => i.rank ≤ j.rank := ⟨fun _ _ _ => Nat.le_trans⟩
  refine ((List.pairwise_insertionSort _ _).and queued_nodup).imp fun hij => ?_
  exact Nat.lt_of_le_of_ne hij.1 fun heq => hij.2 (Id.rank_inj.mp heq)

theorem mem_queued :
    peer ∈ s.queued ↔ ∃ msgs, (peer, msgs) ∈ s.app.sky.msgqueues ++ s.sndfilequeues := by
  simp [queued, Queues.uniqueKeys, exists_or]

/-! ### The channels that are requested -/

/-- The peers for which `reconnect_c2c` calls `PICA_new_c2c` in the second `t`. -/
def asked (s : Reconnecting) (t : Nat) : List Id :=
  s.queued.filter fun p => !s.app.hasChan p && due t (s.c2cReconnectTimeouts p)

/-- The channel that `PICA_new_c2c` makes for the active link. -/
def dialled (a : App) (made : Made) (peer : Id) : Option Chan :=
  match a.sky.activeNodelink, made peer with
  | some c2n, some (ptr, _) =>
      if a.sky.links c2n = some .connected then some ⟨ptr, c2n, peer, false, [], 0, 0⟩ else none
  | _, _ => none

def withChans (s : Reconnecting) (cs : List Chan) : Reconnecting :=
  { s with app := { s.app with chans := s.app.chans ++ cs } }

@[simp] theorem withChans_nil : s.withChans [] = s := by
  simp [withChans]

theorem withChans_withChans
    {cs ds : List Chan} : (s.withChans cs).withChans ds = s.withChans (cs ++ ds) := by
  simp [withChans]

@[simp] theorem withChans_timeouts
    {cs : List Chan} : (s.withChans cs).c2cReconnectTimeouts = s.c2cReconnectTimeouts :=
  rfl

@[simp] theorem dialled_withChans
    {cs : List Chan} : dialled (s.withChans cs).app made = dialled s.app made :=
  rfl

theorem newC2c_eq :
    (a.newC2c peer (made peer)).1 = { a with chans := a.chans ++ (dialled a made peer).toList } := by
  have hnone : { a with chans := a.chans ++ (none : Option Chan).toList } = a := by simp
  unfold App.newC2c dialled
  cases a.sky.activeNodelink with
  | none => exact hnone.symm
  | some c2n =>
      cases made peer with
      | none => exact hnone.symm
      | some r =>
          dsimp only
          split_ifs
          · rfl
          · exact hnone.symm

theorem reconnectPeer_eq
    (h : reconnectPeer t made s peer = some u) :
    u = s.withChans
      (if due t (s.c2cReconnectTimeouts peer) then (dialled s.app made peer).toList else []) := by
  unfold reconnectPeer at h
  split_ifs at h with hdue hfresh
  · rw [← Option.some.inj h, newC2c_eq, if_pos hdue]
    rfl
  · rw [← Option.some.inj h, if_neg hdue, withChans_nil]

theorem reconnectLoop_eq
    {peers : List Id} (h : peers.foldlM (reconnectPeer t made) s = some u) :
    u = s.withChans ((peers.filter fun p => due t (s.c2cReconnectTimeouts p)).filterMap
      (dialled s.app made)) := by
  induction peers generalizing s with
  | nil =>
      cases h
      simp
  | cons p peers ih =>
      rw [List.foldlM_cons] at h
      obtain ⟨v, hv, hrest⟩ := Option.bind_eq_some_iff.mp h
      have hfirst := reconnectPeer_eq hv
      rw [ih hrest, hfirst, withChans_withChans, withChans_timeouts, dialled_withChans]
      congr 1
      rw [List.filter_cons]
      split_ifs with hdue
      · rw [List.filterMap_cons]
        cases dialled s.app made p <;> rfl
      · rfl

/-- **`reconnect_c2c`** requests one channel for each peer that it asks for. -/
theorem reconnectC2c_eq
    (hself : s.app.sky.selfAware = true) (h : s.reconnectC2c t made = some u) :
    u = s.withChans ((s.asked t).filterMap (dialled s.app made)) := by
  unfold reconnectC2c at h
  split_ifs at h with hempty
  · have hnone : s.asked t = [] := by
      simp [asked, queued, Queues.uniqueKeys, List.isEmpty_iff.mp hempty.1,
        List.isEmpty_iff.mp hempty.2]
    rw [← Option.some.inj h, hnone, List.filterMap_nil, withChans_nil]
  · rw [reconnectLoop_eq h, filterExistingChans_eq queued_nodup, List.filter_filter, asked]
    simp only [Bool.and_comm]

/-! ### What a step leaves alone -/

theorem reconnectC2c_frame
    (h : s.reconnectC2c t made = some u) :
    ∃ cs, u = s.withChans cs := by
  cases hself : s.app.sky.selfAware with
  | true => exact ⟨_, reconnectC2c_eq hself h⟩
  | false =>
      simp only [reconnectC2c, hself, Bool.false_eq_true, if_false, ite_self,
        Option.some.injEq] at h
      exact ⟨[], by rw [withChans_nil, h]⟩

theorem flushFileQueue_app {sent : Nat → Bool} : (s.flushFileQueue peer sent).app = s.app := by
  unfold flushFileQueue
  split_ifs <;> rfl

theorem flushFileQueue_timeouts
    {sent : Nat → Bool} :
    (s.flushFileQueue peer sent).c2cReconnectTimeouts = s.c2cReconnectTimeouts := by
  unfold flushFileQueue
  split_ifs <;> rfl

theorem sendFile_eq
    {filepath : Text} {r : Option (Nat × Bool)} :
    (s.sendFile peer filepath r).c2cReconnectTimeouts = s.c2cReconnectTimeouts ∧
      ((s.sendFile peer filepath r).app = s.app ∨
        (s.sendFile peer filepath r).app = (s.app.newC2c peer r).1) := by
  unfold sendFile
  split
  · exact ⟨rfl, .inl rfl⟩
  · split_ifs
    · exact ⟨rfl, .inl rfl⟩
    · exact ⟨rfl, .inr rfl⟩

/-! ### The application underneath -/

variable (me isEmptyMessage) in
/-- A channel that is requested is one that is opened. -/
theorem newC2c_run
    {r : Option (Nat × Bool)} (hfresh : r.all (fun r => a.freshChan r.1) = true) :
    ∃ es, run (App.step me isEmptyMessage) a es = some (a.newC2c peer r).1 := by
  unfold App.newC2c
  split
  next c2n ptr pushed hactive =>
    split_ifs with hlive
    · refine ⟨[.opened c2n peer ptr], ?_⟩
      have hopen : a.sky.links c2n = some .connected ∧ a.freshChan ptr = true := ⟨hlive, hfresh⟩
      simp only [run, App.step, if_pos hopen, Option.bind_some]
    · exact ⟨[], rfl⟩
  next => exact ⟨[], rfl⟩

variable (me isEmptyMessage) in
theorem reconnectPeer_run
    (h : reconnectPeer t made s peer = some u) :
    ∃ es, run (App.step me isEmptyMessage) s.app es = some u.app := by
  unfold reconnectPeer at h
  split_ifs at h with hdue hfresh
  · rw [← Option.some.inj h]
    exact newC2c_run me isEmptyMessage hfresh
  · rw [← Option.some.inj h]
    exact ⟨[], rfl⟩

variable (me isEmptyMessage) in
theorem reconnectLoop_run
    {peers : List Id} (h : peers.foldlM (reconnectPeer t made) s = some u) :
    ∃ es, run (App.step me isEmptyMessage) s.app es = some u.app := by
  induction peers generalizing s with
  | nil =>
      cases h
      exact ⟨[], rfl⟩
  | cons p peers ih =>
      rw [List.foldlM_cons] at h
      obtain ⟨v, hv, hrest⟩ := Option.bind_eq_some_iff.mp h
      obtain ⟨es, hes⟩ := reconnectPeer_run me isEmptyMessage hv
      obtain ⟨fs, hfs⟩ := ih hrest
      exact ⟨es ++ fs, by rw [run_after hes, hfs]⟩

variable (me isEmptyMessage) in
theorem reconnectC2c_run
    (h : s.reconnectC2c t made = some u) :
    ∃ es, run (App.step me isEmptyMessage) s.app es = some u.app := by
  unfold reconnectC2c at h
  split_ifs at h
  · cases h
    exact ⟨[], rfl⟩
  · exact reconnectLoop_run me isEmptyMessage h
  · cases h
    exact ⟨[], rfl⟩

variable (me isEmptyMessage) in
theorem afterNode_run
    {aware : Bool} {x : SkyNet.Event} (h : s.afterNode aware t made x = some u) :
    ∃ es, run (App.step me isEmptyMessage) s.app es = some u.app := by
  unfold afterNode at h
  split at h
  · split_ifs at h
    · cases h
      exact ⟨[], rfl⟩
    · exact reconnectC2c_run me isEmptyMessage (s := s.clearTimeouts) h
  · rw [← Option.some.inj h]
    refine ⟨[], ?_⟩
    split_ifs <;> rfl
  · cases h
    exact ⟨[], rfl⟩

/-- **A step is a run of the application.** -/
theorem step_run
    (hstep : step me isEmptyMessage s e = some u) :
    ∃ es, run (App.step me isEmptyMessage) s.app es = some u.app := by
  have hone : ∀ {x : App.Event} {b : App}, s.app.step me isEmptyMessage x = some b →
      run (App.step me isEmptyMessage) s.app [x] = some b := by
    intro x b hx
    simp [run, hx]
  cases e with
  | app x =>
      simp only [step] at hstep
      split_ifs at hstep
      obtain ⟨b, hb, rfl⟩ := Option.map_eq_some_iff.mp hstep
      exact ⟨[x], hone hb⟩
  | node x t made =>
      simp only [step] at hstep
      obtain ⟨b, hb, hafter⟩ := Option.bind_eq_some_iff.mp hstep
      obtain ⟨es, hes⟩ := afterNode_run me isEmptyMessage hafter
      exact ⟨.node x :: es, by simpa [run, hb] using hes⟩
  | established ptr mem sent =>
      simp only [step] at hstep
      split at hstep
      · obtain ⟨b, hb, rfl⟩ := Option.map_eq_some_iff.mp hstep
        rw [flushFileQueue_app]
        exact ⟨_, hone hb⟩
      · cases hstep
  | failed ptr =>
      simp only [step] at hstep
      split at hstep
      · obtain ⟨b, hb, rfl⟩ := Option.map_eq_some_iff.mp hstep
        exact ⟨_, hone hb⟩
      · cases hstep
  | notfound conn peer =>
      simp only [step] at hstep
      split at hstep
      · obtain ⟨b, hb, rfl⟩ := Option.map_eq_some_iff.mp hstep
        exact ⟨_, hone hb⟩
      · cases hstep
  | sendFile peer filepath r =>
      simp only [step] at hstep
      split_ifs at hstep with hfresh
      cases hstep
      rcases (sendFile_eq (s := s)).2 with happ | happ
      · rw [happ]
        exact ⟨[], rfl⟩
      · rw [happ]
        exact newC2c_run me isEmptyMessage hfresh
  | timer t made =>
      simp only [step] at hstep
      split_ifs at hstep
      · exact reconnectC2c_run me isEmptyMessage hstep
      · cases hstep
        exact ⟨[], rfl⟩
  | restart =>
      simp only [step] at hstep
      obtain ⟨b, hb, rfl⟩ := Option.map_eq_some_iff.mp hstep
      exact ⟨[.restart], hone hb⟩

end Reconnecting

end Client

end PicaPica
