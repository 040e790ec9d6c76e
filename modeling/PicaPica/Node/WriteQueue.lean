import PicaPica.Client.Channel
import PicaPica.Lib.Run

/-!
# The write queues of the node

Every message to a client or to another node is appended to the write buffer of the
connection, `w_buf`, which grows as needed, and `SSL_write` is offered what has been
there at its first attempt: while it has to be repeated, `btw_ssl` keeps the number
of bytes, whatever is appended in between.

`process_c2n_write` also performs the handshake of a client and uses `w_pos` as a
flag until that is done.  A `PINGREQ` that `process_timeouts_c2n` has pushed by then is
lost.
-/

namespace PicaPica

open Area Machine

open Client (Memory SslWrite intMod)

/-- The write buffer of `struct client` and of `struct nodelink`. -/
structure WriteQueue where
  buf : Option (List UInt8)
  buflen : Nat
  pos : Nat
  /-- `btw_ssl` -/
  btw : Nat
  /-- `ev_write` is pending -/
  evWrite : Bool
deriving DecidableEq

/-- `SSL_connect`. -/
inductive SslConnect
  | done
  | wantWrite
  | wantRead
  | failed
deriving DecidableEq

namespace WriteQueue

def fresh : WriteQueue :=
  ⟨none, 0, 0, 0, false⟩

/-- The bytes that wait. -/
def queued (q : WriteQueue) : List UInt8 :=
  (q.buf.getD []).take q.pos

/-- The message is written behind the waiting bytes.  There is no result when it does
not lie within the buffer. -/
def place (q : WriteQueue) (b : List UInt8) (f : Frame) : Option (WriteQueue × Bool) :=
  if b.length < q.pos + f.length then none
  else
    some ({ q with
      buf := some (writeAt b q.pos f)
      buflen := b.length
      pos := uadd q.pos f.length
      evWrite := true }, true)

/-- A push into the buffer `b`, which is made larger when there is no room. -/
def grow (mem : Memory) (q : WriteQueue) (b : List UInt8) (f : Frame) :
    Option (WriteQueue × Bool) :=
  if usub b.length q.pos < f.length then
    if mem.realloc then
      let n := uadd f.length q.pos
      q.place ((b ++ List.replicate (n - b.length) 0).take n) f
    else some ({ q with buf := some b, buflen := b.length }, false)
  else q.place b f

/-- The two functions that push differ in the size `first` of the buffer that they
allocate on first use. -/
def push (first : Nat) (mem : Memory) (q : WriteQueue) (f : Frame) :
    Option (WriteQueue × Bool) :=
  match q.buf with
  | some b => q.grow mem b f
  | none => if mem.calloc then q.grow mem (List.replicate first 0) f else some (q, false)

/-- `client_wbuf_push`, together with the caller filling in the message. -/
def clientWbufPush (mem : Memory) (q : WriteQueue) (f : Frame) : Option (WriteQueue × Bool) :=
  q.push (uadd defaultBufSize (f.length / defaultBufSize * defaultBufSize)) mem f

/-- `nodelink_wbuf_push`. -/
def nodelinkWbufPush (mem : Memory) (q : WriteQueue) (f : Frame) : Option (WriteQueue × Bool) :=
  q.push defaultBufSize mem f

/-- The number of bytes for the next `SSL_write`. -/
def offer (q : WriteQueue) : Nat :=
  if q.btw = 0 then q.pos else q.btw

/-- The bytes that the next `SSL_write` is offered. -/
def offered (q : WriteQueue) : List UInt8 :=
  (q.buf.getD []).take q.offer

/-- `SSL_write` has taken what it was offered. -/
def taken (q : WriteQueue) : WriteQueue :=
  { q with
    buf := if q.offer < q.pos then q.buf.map fun b => moveDown b q.offer (q.pos - q.offer)
      else q.buf
    pos := usub q.pos q.offer
    btw := 0 }

/-- The call of `SSL_write` in both functions.  There is no result when the connection
has failed. -/
def sslWrite (r : SslWrite) (q : WriteQueue) : Option WriteQueue :=
  match r.on q.offer with
  | .all => some q.taken
  | .retry => some { q with btw := q.offer }
  | .closed => none
  | .error => none

/-- `event_add` when bytes are left. -/
def rearm (q : WriteQueue) : WriteQueue :=
  if q.pos = 0 then q else { q with evWrite := true }

/-- `process_n2n_write`, and `process_c2n_write` after the handshake. -/
def processWrite (r : SslWrite) (q : WriteQueue) : Option WriteQueue :=
  (if q.pos = 0 then some q else q.sslWrite r).map rearm

/-- `process_c2n_write` during the handshake. -/
def processConnect (r : SslConnect) (q : WriteQueue) : Option WriteQueue :=
  match r with
  | .done => some { q with pos := 0 }
  | .wantWrite => some { q with pos := 1, evWrite := true }
  | .wantRead => some { q with pos := 0 }
  | .failed => none

/-! ### Pushing -/

/-- The buffer has the length that is recorded, and the waiting bytes lie in it. -/
structure Ok (q : WriteQueue) : Prop where
  len : (q.buf.getD []).length = q.buflen
  len_lt : q.buflen < uintMod
  pos_le : q.pos ≤ q.buflen

/-- The queue without its waiting bytes. -/
def rewound (q : WriteQueue) : WriteQueue :=
  { q with pos := 0 }

/-- What a push leaves of the waiting bytes: the message is behind them, or there was no
memory for it. -/
structure Pushed (q t : WriteQueue) (f : Frame) (done : Bool) : Prop where
  ok : t.Ok
  queued : t.queued = q.queued ++ if done then f else []
  pos : t.pos = q.pos + if done then f.length else 0
  btw : t.btw = q.btw
  armed : t.evWrite = (done || q.evWrite)

variable {q : WriteQueue} {b : List UInt8} {f : Frame} {mem : Memory} {first : Nat}

theorem place_pushed
    (hroom : q.pos + f.length < uintMod) (hlen : b.length < uintMod)
    (hfits : q.pos + f.length ≤ b.length) (hqueued : b.take q.pos = q.queued) :
    ∃ t, q.place b f = some (t, true) ∧ Pushed q t f true := by
  rw [place, if_neg (by omega)]
  refine ⟨_, rfl, ⟨⟨?_, hlen, ?_⟩, ?_, uadd_eq hroom, rfl, rfl⟩⟩
  · exact length_writeAt
  · change uadd q.pos f.length ≤ b.length
    rw [uadd_eq hroom]
    exact hfits
  · change (writeAt b q.pos f).take (uadd q.pos f.length) = _
    rw [uadd_eq hroom, take_writeAt f (by omega), hqueued, if_pos rfl]

theorem grow_pushed
    (hroom : q.pos + f.length < uintMod) (hlen : b.length < uintMod) (hpos : q.pos ≤ b.length)
    (hqueued : b.take q.pos = q.queued) :
    ∃ t done, q.grow mem b f = some (t, done) ∧ Pushed q t f done := by
  rw [grow, usub_eq hpos]
  have hsum : uadd f.length q.pos = f.length + q.pos := uadd_eq (by omega)
  split_ifs with hsmall hmem
  · dsimp only
    rw [hsum]
    have hlong : ((b ++ List.replicate (f.length + q.pos - b.length) (0 : UInt8)).take
        (f.length + q.pos)).length = f.length + q.pos := by
      rw [List.length_take, List.length_append, List.length_replicate]
      omega
    obtain ⟨t, ht, hpushed⟩ := @place_pushed q _ f hroom (by rw [hlong]; omega)
      (by rw [hlong]; omega) (by
        rw [List.take_take, Nat.min_eq_left (by omega), List.take_append_of_le_length hpos, hqueued])
    exact ⟨t, true, ht, hpushed⟩
  · refine ⟨_, false, rfl, ⟨⟨rfl, hlen, hpos⟩, ?_, rfl, rfl, rfl⟩⟩
    rw [if_neg Bool.false_ne_true, List.append_nil]
    exact hqueued
  · obtain ⟨t, ht, hpushed⟩ := place_pushed hroom hlen (by omega) hqueued
    exact ⟨t, true, ht, hpushed⟩

/-- A push whose end is an `unsigned int` stays within the buffer. -/
theorem push_pushed
    (h : q.Ok) (hfirst : first < uintMod) (hroom : q.pos + f.length < uintMod) :
    ∃ t done, q.push first mem f = some (t, done) ∧ Pushed q t f done := by
  have hlen := h.len
  have hlt := h.len_lt
  have hle := h.pos_le
  unfold push
  cases hbuf : q.buf with
  | some b =>
      rw [hbuf, Option.getD_some] at hlen
      exact grow_pushed hroom (by omega) (by omega) (by rw [queued, hbuf, Option.getD_some])
  | none =>
      rw [hbuf, Option.getD_none, List.length_nil] at hlen
      have hzero : q.pos = 0 := by omega
      dsimp only
      split_ifs
      · refine grow_pushed hroom ?_ ?_ ?_
        · rwa [List.length_replicate]
        · omega
        · rw [queued, hzero, List.take_zero, List.take_zero]
      · exact ⟨q, false, rfl, ⟨h, by simp, rfl, rfl, rfl⟩⟩

theorem place_rewound
    {t : WriteQueue} {done : Bool} (hlen : b.length < uintMod)
    (h : q.place b f = some (t, done)) :
    t.rewound.Ok ∧ t.btw = q.btw := by
  rw [place] at h
  split_ifs at h
  cases h
  exact ⟨⟨length_writeAt, hlen, Nat.zero_le _⟩, rfl⟩

/-- Wherever the position is, a push leaves a buffer of the length that is recorded. -/
theorem push_rewound
    {t : WriteQueue} {done : Bool} (hok : q.rewound.Ok) (hfirst : first < uintMod)
    (hroom : q.pos + f.length < uintMod) (h : q.push first mem f = some (t, done)) :
    t.rewound.Ok ∧ t.btw = q.btw := by
  have hgrow : ∀ b : List UInt8, b.length < uintMod → q.grow mem b f = some (t, done) →
      t.rewound.Ok ∧ t.btw = q.btw := by
    intro b hb hgrow
    rw [grow] at hgrow
    split_ifs at hgrow with hsmall hmem
    · refine place_rewound ?_ hgrow
      have hlt : uadd f.length q.pos < uintMod := uadd_lt (by omega) (by omega)
      rw [List.length_take]
      exact lt_of_le_of_lt (Nat.min_le_left _ _) hlt
    · cases hgrow
      exact ⟨⟨rfl, hb, Nat.zero_le _⟩, rfl⟩
    · exact place_rewound hb hgrow
  rw [push] at h
  cases hbuf : q.buf with
  | some b =>
      simp only [hbuf] at h
      have hb : b.length = q.buflen := by
        have hlen := hok.len
        rwa [rewound, hbuf, Option.getD_some] at hlen
      exact hgrow b (hb ▸ hok.len_lt) h
  | none =>
      simp only [hbuf] at h
      split_ifs at h
      · exact hgrow _ (by rwa [List.length_replicate]) h
      · cases h
        exact ⟨hok, rfl⟩

/-! ### Writing -/

theorem Ok.length_queued (h : q.Ok) : q.queued.length = q.pos := by
  rw [queued, List.length_take, h.len, Nat.min_eq_left h.pos_le]

/-- What `SSL_write` is offered are the first waiting bytes. -/
theorem offered_eq (hbtw : q.btw ≤ q.pos) : q.offered = q.queued.take q.offer := by
  have hle : q.offer ≤ q.pos := by
    rw [offer]
    split_ifs <;> omega
  rw [offered, queued, List.take_take, Nat.min_eq_left hle]

/-- Everything is taken, or the same bytes have to be offered again. -/
theorem sslWrite_cases
    {r : SslWrite} {t : WriteQueue} (ht : q.sslWrite r = some t) :
    (r = .all ∧ t = q.taken) ∨ (r = .retry ∧ t = { q with btw := q.offer }) := by
  rw [sslWrite, SslWrite.on] at ht
  split_ifs at ht
  cases r with
  | all => exact .inl ⟨rfl, (Option.some.inj ht).symm⟩
  | retry => exact .inr ⟨rfl, (Option.some.inj ht).symm⟩
  | closed => cases ht
  | error => cases ht

theorem offer_le (hbtw : q.btw ≤ q.pos) : q.offer ≤ q.pos := by
  rw [offer]
  split_ifs <;> omega

/-- What was offered is taken out of the queue. -/
theorem taken_queued
    (h : q.Ok) (hbtw : q.btw ≤ q.pos) :
    q.taken.Ok ∧ q.queued = q.offered ++ q.taken.queued ∧ q.taken.pos = q.pos - q.offer := by
  have hle := offer_le hbtw
  have hlen := h.len
  have hpos := h.pos_le
  have htaken : q.taken.pos = q.pos - q.offer := usub_eq hle
  have hshrunk : q.taken.pos ≤ q.buflen := by omega
  suffices hrest : (q.taken.buf.getD []).length = q.buflen ∧
      q.taken.queued = q.queued.drop q.offer by
    refine ⟨⟨hrest.1, h.len_lt, hshrunk⟩, ?_, htaken⟩
    rw [hrest.2, offered_eq hbtw, List.take_append_drop]
  by_cases hlt : q.offer < q.pos
  · have hbuf : q.taken.buf = q.buf.map fun b => moveDown b q.offer (q.pos - q.offer) := if_pos hlt
    cases hb : q.buf with
    | none =>
        rw [hb, Option.getD_none, List.length_nil] at hlen
        omega
    | some b =>
        rw [hb, Option.map_some] at hbuf
        rw [hb, Option.getD_some] at hlen
        have hmove : q.offer + (q.pos - q.offer) ≤ b.length := by omega
        have hsum : q.offer + (q.pos - q.offer) = q.pos := by omega
        constructor
        · rw [hbuf, Option.getD_some, length_moveDown]
          exact hlen
        · simp only [queued, hbuf, htaken, hb, Option.getD_some]
          rw [take_moveDown hmove, hsum]
  · have hbuf : q.taken.buf = q.buf := if_neg hlt
    have hall : q.offer = q.pos := by omega
    constructor
    · rw [hbuf]
      exact hlen
    · have hnone : q.queued.drop q.offer = [] :=
        List.drop_eq_nil_of_le (Nat.le_of_eq (h.length_queued.trans hall.symm))
      rw [hnone, queued, htaken, hall, Nat.sub_self, List.take_zero]

theorem rearm_eq : q.rearm = { q with evWrite := q.evWrite || decide (q.pos ≠ 0) } := by
  rw [rearm]
  split_ifs with h
  · rw [decide_eq_false fun hne => hne h, Bool.or_false]
  · rw [decide_eq_true h, Bool.or_true]

theorem processWrite_cases
    {r : SslWrite} {t : WriteQueue} (ht : q.processWrite r = some t) :
    (q.pos = 0 ∧ t = q) ∨ (q.pos ≠ 0 ∧ r = .all ∧ t = q.taken.rearm) ∨
      (q.pos ≠ 0 ∧ r = .retry ∧ t = { q with btw := q.offer, evWrite := true }) := by
  rw [processWrite] at ht
  obtain ⟨u, hu, rfl⟩ := Option.map_eq_some_iff.mp ht
  split_ifs at hu with hpos
  · cases hu
    exact .inl ⟨hpos, if_pos hpos⟩
  · rcases sslWrite_cases hu with ⟨hr, rfl⟩ | ⟨hr, rfl⟩
    · exact .inr (.inl ⟨hpos, hr, rfl⟩)
    · exact .inr (.inr ⟨hpos, hr, if_neg hpos⟩)

end WriteQueue

/-! ### Connections -/

/-- Which of the two structures a queue belongs to. -/
inductive PeerKind
  | client
  | nodelink
deriving DecidableEq

/-- A connection with its queue: the messages that have been pushed since the handshake,
the bytes that `SSL_write` has taken, and those that it has been offered and wants to be
offered again. -/
structure Sender where
  /-- a client is `PICA_CLSTATE_CONNECTED` or `PICA_CLSTATE_MULTILOGIN_SECONDARY` -/
  connected : Bool
  queue : WriteQueue
  pushed : List Frame
  accepted : List UInt8
  pinned : Option (List UInt8)

namespace Sender

inductive Event
  /-- a handler or `process_timeouts` sends a message -/
  | push (mem : Memory) (msgid : Nat) (tail : List UInt8)
  /-- `process_c2n_write` and `process_n2n_write`; `fired` tells whether `ev_write` has
  called them -/
  | write (fired : Bool) (r : SslWrite)
  /-- `process_c2n_write` during the handshake -/
  | connect (fired : Bool) (r : SslConnect)

/-- A client starts with the handshake. -/
def start (kind : PeerKind) : Sender :=
  ⟨decide (kind = .nodelink), .fresh, [], [], none⟩

def pushTo (kind : PeerKind) (mem : Memory) (q : WriteQueue) (f : Frame) :
    Option (WriteQueue × Bool) :=
  match kind with
  | .client => q.clientWbufPush mem f
  | .nodelink => q.nodelinkWbufPush mem f

/-- What an attempt to write adds to the bytes that have been taken, and what has to be
offered again. -/
def attempt (r : SslWrite) (q : WriteQueue) : List UInt8 × Option (List UInt8) :=
  if q.pos = 0 then ([], none)
  else if r = .all then (q.offered, none)
  else ([], some q.offered)

def step (kind : PeerKind) (s : Sender) : Event → Option Sender
  | .push mem msgid tail =>
      if s.connected then
        (pushTo kind mem s.queue (head msgid ++ tail)).map fun r =>
          { s with
            queue := r.1
            pushed := s.pushed ++ if r.2 then [head msgid ++ tail] else [] }
      else if msgid = Proto.PINGREQ then
        (pushTo kind mem s.queue (head msgid ++ tail)).map fun r => { s with queue := r.1 }
      else none
  | .write fired r =>
      if s.connected then
        let q := { s.queue with evWrite := s.queue.evWrite && !fired }
        (q.processWrite r).map fun t =>
          { s with
            queue := t
            accepted := s.accepted ++ (attempt r q).1
            pinned := (attempt r q).2 }
      else none
  | .connect fired r =>
      if s.connected then none
      else
        (WriteQueue.processConnect r { s.queue with evWrite := s.queue.evWrite && !fired }).map
          fun t => { s with connected := r == .done, queue := t }

/-- The end of a message in the queue is an `unsigned int`. -/
def Allowed (s : Sender) : Event → Prop
  | .push _ _ tail => s.queue.pos + (tail.length + 2) < uintMod
  | _ => True

instance (s : Sender) : ∀ e, Decidable (s.Allowed e)
  | .push _ _ tail => inferInstanceAs (Decidable (s.queue.pos + (tail.length + 2) < uintMod))
  | .write .. => .isTrue trivial
  | .connect .. => .isTrue trivial

/-- What has been taken and what waits is what has been pushed. -/
structure Lossless (s : Sender) : Prop where
  ok : s.queue.Ok
  btw_le : s.queue.btw ≤ s.queue.pos
  fifo : s.accepted ++ s.queue.queued = s.pushed.flatten
  pinned : s.pinned = if s.queue.btw = 0 then none else some (s.queue.queued.take s.queue.btw)
  armed : s.queue.pos ≠ 0 → s.queue.evWrite = true

/-- Until the handshake is done nothing is written, and the position is overwritten. -/
structure Handshaking (s : Sender) : Prop where
  ok : s.queue.rewound.Ok
  btw : s.queue.btw = 0
  pushed : s.pushed = []
  accepted : s.accepted = []
  pinned : s.pinned = none

def Inv (s : Sender) : Prop :=
  if s.connected then s.Lossless else s.Handshaking

variable {kind : PeerKind} {s t : Sender}

theorem room_of_tail
    {pos msgid : Nat} {tail : List UInt8} (h : pos + (tail.length + 2) < uintMod) :
    pos + (head msgid ++ tail).length < uintMod := by
  rw [List.length_append, length_head]
  omega

theorem pushTo_pushed
    {mem : Memory} {q : WriteQueue} {f : Frame} (h : q.Ok)
    (hroom : q.pos + f.length < uintMod) :
    ∃ u done, pushTo kind mem q f = some (u, done) ∧ WriteQueue.Pushed q u f done := by
  have hsize : f.length / defaultBufSize * defaultBufSize ≤ f.length := Nat.div_mul_le_self ..
  cases kind with
  | client =>
      exact WriteQueue.push_pushed h (uadd_lt (by decide) (by omega)) hroom
  | nodelink => exact WriteQueue.push_pushed h (by decide) hroom

theorem pushTo_rewound
    {mem : Memory} {q u : WriteQueue} {f : Frame} {done : Bool} (h : q.rewound.Ok)
    (hroom : q.pos + f.length < uintMod) (hpush : pushTo kind mem q f = some (u, done)) :
    u.rewound.Ok ∧ u.btw = q.btw := by
  have hsize : f.length / defaultBufSize * defaultBufSize ≤ f.length := Nat.div_mul_le_self ..
  cases kind with
  | client => exact WriteQueue.push_rewound h (uadd_lt (by decide) (by omega)) hroom hpush
  | nodelink => exact WriteQueue.push_rewound h (by decide) hroom hpush

/-- A message is put behind the waiting bytes, and those that are pinned stay. -/
theorem Lossless.push
    {mem : Memory} {msgid : Nat} {tail : List UInt8} (h : s.Lossless) (hopen : s.connected = true)
    (hok : s.queue.pos + (tail.length + 2) < uintMod) :
    ∃ t, s.step kind (.push mem msgid tail) = some t ∧ t.connected = true ∧ t.Lossless := by
  have hroom := @room_of_tail s.queue.pos msgid tail hok
  obtain ⟨u, done, hu, hpushed⟩ := @pushTo_pushed kind mem s.queue _ h.ok hroom
  refine ⟨{ s with
    queue := u
    pushed := s.pushed ++ if done then [head msgid ++ tail] else [] }, ?_, hopen, ?_⟩
  · rw [step, if_pos hopen, hu, Option.map_some]
  refine ⟨hpushed.ok, ?_, ?_, ?_, ?_⟩ <;> dsimp only
  · rw [hpushed.btw, hpushed.pos]
    exact Nat.le_add_right_of_le h.btw_le
  · rw [hpushed.queued, ← List.append_assoc, h.fifo, List.flatten_append]
    cases done <;> simp
  · rw [h.pinned, hpushed.btw, hpushed.queued,
      List.take_append_of_le_length (h.ok.length_queued ▸ h.btw_le)]
  · rw [hpushed.armed, hpushed.pos]
    cases done with
    | false => simpa using h.armed
    | true => simp

/-- The bytes that are offered are taken from the front of the queue, or they stay there
and are pinned. -/
theorem Lossless.write
    {fired : Bool} {r : SslWrite} (h : s.Lossless) (hopen : s.connected = true)
    (hstep : s.step kind (.write fired r) = some t) :
    t.connected = true ∧ t.Lossless := by
  rw [step, if_pos hopen] at hstep
  obtain ⟨u, hu, rfl⟩ := Option.map_eq_some_iff.mp hstep
  refine ⟨hopen, ?_⟩
  have hok : ({ s.queue with evWrite := s.queue.evWrite && !fired } : WriteQueue).Ok :=
    ⟨h.ok.len, h.ok.len_lt, h.ok.pos_le⟩
  rcases WriteQueue.processWrite_cases hu with ⟨hpos, rfl⟩ | ⟨hpos, rfl, rfl⟩ | ⟨hpos, rfl, rfl⟩
  · have hbtw : s.queue.btw = 0 := Nat.le_zero.mp (hpos ▸ h.btw_le)
    refine ⟨hok, h.btw_le, ?_, ?_, fun hne => absurd hpos hne⟩
    · simp only [attempt, if_pos hpos, List.append_nil]
      exact h.fifo
    · simp only [attempt, if_pos hpos, hbtw, if_true]
  · obtain ⟨htaken, hqueued, htpos⟩ := WriteQueue.taken_queued hok h.btw_le
    rw [WriteQueue.rearm_eq]
    refine ⟨⟨htaken.len, htaken.len_lt, htaken.pos_le⟩, Nat.zero_le _, ?_, ?_, ?_⟩
    · simp only [attempt, if_neg hpos, if_true]
      rw [List.append_assoc]
      exact (congrArg (s.accepted ++ ·) hqueued).symm.trans h.fifo
    · simp only [attempt, if_neg hpos, if_true]
      rfl
    · intro hne
      simp only [Bool.or_eq_true, decide_eq_true_eq]
      exact .inr hne
  · have hoffer : s.queue.offer ≠ 0 := by
      rw [WriteQueue.offer]
      split_ifs with hzero
      · exact hpos
      · exact hzero
    refine ⟨⟨h.ok.len, h.ok.len_lt, h.ok.pos_le⟩, WriteQueue.offer_le h.btw_le, ?_, ?_, fun _ => rfl⟩
    · simp only [attempt, if_neg hpos, reduceCtorEq, if_false, List.append_nil]
      exact h.fifo
    · simp only [attempt, if_neg hpos, reduceCtorEq, if_false]
      refine Eq.trans ?_ (if_neg hoffer).symm
      exact congrArg some (WriteQueue.offered_eq h.btw_le)

/-- The handshake leaves an empty queue. -/
theorem Handshaking.connect
    {fired : Bool} {r : SslConnect} (h : s.Handshaking) (hopen : s.connected = false)
    (hstep : s.step kind (.connect fired r) = some t) :
    t.Inv := by
  rw [step, if_neg (by simp [hopen])] at hstep
  obtain ⟨u, hu, rfl⟩ := Option.map_eq_some_iff.mp hstep
  cases r with
  | done =>
      cases hu
      refine ⟨⟨h.ok.len, h.ok.len_lt, Nat.zero_le _⟩, ?_, ?_, ?_, fun hne => absurd rfl hne⟩ <;>
        dsimp only
      · exact Nat.le_of_eq h.btw
      · rw [h.accepted, h.pushed, WriteQueue.queued, List.take_zero]
        rfl
      · rw [h.btw, h.pinned]
        rfl
  | wantWrite =>
      cases hu
      exact ⟨⟨h.ok.len, h.ok.len_lt, Nat.zero_le _⟩, h.btw, h.pushed, h.accepted, h.pinned⟩
  | wantRead =>
      cases hu
      exact ⟨⟨h.ok.len, h.ok.len_lt, Nat.zero_le _⟩, h.btw, h.pushed, h.accepted, h.pinned⟩
  | failed => cases hu

/-- A `PINGREQ` of `process_timeouts_c2n` comes into the buffer, wherever the position is. -/
theorem Handshaking.push
    {mem : Memory} {msgid : Nat} {tail : List UInt8} (h : s.Handshaking)
    (hopen : s.connected = false) (hok : s.queue.pos + (tail.length + 2) < uintMod)
    (hstep : s.step kind (.push mem msgid tail) = some t) :
    t.connected = false ∧ t.Handshaking := by
  have hroom := @room_of_tail s.queue.pos msgid tail hok
  rw [step, if_neg (by simp [hopen])] at hstep
  split_ifs at hstep
  obtain ⟨⟨u, done⟩, hu, rfl⟩ := Option.map_eq_some_iff.mp hstep
  have hu' : u.rewound.Ok ∧ u.btw = s.queue.btw := pushTo_rewound h.ok hroom hu
  exact ⟨hopen, hu'.1, hu'.2.trans h.btw, h.pushed, h.accepted, h.pinned⟩

end Sender

end PicaPica
