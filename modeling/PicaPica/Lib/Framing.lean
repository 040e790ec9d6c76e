import Mathlib

/-!
# Cutting a byte stream into frames

A receiver keeps the bytes it has not handled yet.  A sizer `size` looks at
them and answers `0` when they cannot start a frame, the length of the frame
they start with, or a number larger than their own length when the frame (or
its header) is not complete yet.  `drain` hands complete frames to a handler
until one of these stops it, and `feed` does so after each read.

The only assumption on the sizer is that a verdict on complete data is final
(`Stable`).  Under it the reads do not matter: `feed_eq_drain` compares any
way of cutting the stream into reads with one single read.
-/

namespace Framing

variable {β σ : Type*}

/-- What handling the front of a buffer has done. -/
structure Outcome (β σ : Type*) where
  /-- handler state -/
  state : σ
  /-- frames the handler accepted, in order -/
  handled : List (List β)
  /-- the frame the handler refused, if it refused one -/
  refused : Option (List β)
  /-- bytes still in the buffer -/
  rest : List β
  ok : Bool

namespace Outcome

/-- All frames the handler was called with. -/
def calls (o : Outcome β σ) : List (List β) :=
  o.handled ++ o.refused.toList

/-- Nothing was handled, the buffer waits. -/
def wait (s : σ) (buf : List β) : Outcome β σ :=
  ⟨s, [], none, buf, true⟩

/-- The frames `fs` were handled before. -/
def after (fs : List (List β)) (o : Outcome β σ) : Outcome β σ :=
  { o with handled := fs ++ o.handled }

@[simp] theorem after_nil (o : Outcome β σ) : after [] o = o := rfl

@[simp] theorem after_after
    (fs gs : List (List β)) (o : Outcome β σ) :
    after fs (after gs o) = after (fs ++ gs) o := by
  simp [after]

@[simp] theorem after_ok (fs : List (List β)) (o : Outcome β σ) :
    (after fs o).ok = o.ok := rfl

@[simp] theorem after_state (fs : List (List β)) (o : Outcome β σ) :
    (after fs o).state = o.state := rfl

@[simp] theorem after_rest (fs : List (List β)) (o : Outcome β σ) :
    (after fs o).rest = o.rest := rfl

@[simp] theorem after_handled (fs : List (List β)) (o : Outcome β σ) :
    (after fs o).handled = fs ++ o.handled := rfl

@[simp] theorem after_calls (fs : List (List β)) (o : Outcome β σ) :
    (after fs o).calls = fs ++ o.calls := by
  simp [calls, after]

end Outcome

/-- A verdict on complete data does not change when more data follows. -/
def Stable (size : List β → Nat) : Prop :=
  ∀ x y, size x ≤ x.length → size (x ++ y) = size x

/-- The bytes do not contain a complete frame and are not refused. -/
def Quiet (size : List β → Nat) (buf : List β) : Prop :=
  buf = [] ∨ buf.length < size buf

section Drain

variable (size : List β → Nat) (handle : σ → List β → σ × Bool)

/-- The handling loop with an explicit bound on the number of frames. -/
def drainFuel : Nat → σ → List β → Outcome β σ
  | 0, s, buf => .wait s buf
  | fuel + 1, s, buf =>
      if buf.length = 0 then .wait s buf
      else if size buf = 0 then ⟨s, [], none, buf, false⟩
      else if buf.length < size buf then .wait s buf
      else
        let frame := buf.take (size buf)
        let r := handle s frame
        if r.2 then (drainFuel fuel r.1 (buf.drop (size buf))).after [frame]
        else ⟨r.1, [], some frame, buf, false⟩

/-- Handle complete frames until none is left: every frame has at least one
byte, so the number of bytes bounds the number of frames. -/
def drain (s : σ) (buf : List β) : Outcome β σ :=
  drainFuel size handle buf.length s buf

/-- Handle what is there after each read; stop at the first failure.  The
second component is the reads that were not made. -/
def feed (s : σ) (buf : List β) : List (List β) → Outcome β σ × List (List β)
  | [] => (.wait s buf, [])
  | c :: cs =>
      let o := drain size handle s (buf ++ c)
      if o.ok then
        ((feed o.state o.rest cs).1.after o.handled, (feed o.state o.rest cs).2)
      else (o, cs)

variable {size handle}

theorem drainFuel_of_le
    {fuel : Nat} {s : σ} {buf : List β}
    (h : buf.length ≤ fuel) :
    drainFuel size handle fuel s buf = drain size handle s buf := by
  induction fuel using Nat.strongRecOn generalizing s buf with
  | ind fuel ih =>
      rcases Nat.eq_or_lt_of_le h with heq | hlt
      · rw [drain, heq]
      · obtain ⟨fuel, rfl⟩ : ∃ k, fuel = k + 1 := ⟨fuel - 1, by omega⟩
        cases hb : buf.length with
        | zero => simp [drain, drainFuel, hb]
        | succ n =>
            have hne : buf.length ≠ 0 := by omega
            by_cases h0 : size buf = 0
            · simp [drain, drainFuel, hb, h0]
            by_cases h1 : buf.length < size buf
            · have h1' : n + 1 < size buf := by omega
              simp [drain, drainFuel, hb, h0, h1']
            have hdrop : (buf.drop (size buf)).length < buf.length := by
              simp only [List.length_drop]
              omega
            have hl : drainFuel size handle fuel (handle s (buf.take (size buf))).1
                (buf.drop (size buf)) = drain size handle _ _ :=
              ih fuel (by omega) (by omega)
            have hr : drainFuel size handle n (handle s (buf.take (size buf))).1
                (buf.drop (size buf)) = drain size handle _ _ :=
              ih n (by omega) (by omega)
            simp only [drain, drainFuel, hb, hl, hr]

theorem drain_nil (s : σ) : drain size handle s [] = .wait s [] := rfl

theorem drain_eq
    {s : σ} {buf : List β} (hne : buf ≠ []) :
    drain size handle s buf =
      if size buf = 0 then ⟨s, [], none, buf, false⟩
      else if buf.length < size buf then .wait s buf
      else if (handle s (buf.take (size buf))).2 then
        (drain size handle (handle s (buf.take (size buf))).1
          (buf.drop (size buf))).after [buf.take (size buf)]
      else ⟨(handle s (buf.take (size buf))).1, [],
        some (buf.take (size buf)), buf, false⟩ := by
  obtain ⟨n, hn⟩ : ∃ n, buf.length = n + 1 := by
    cases buf with
    | nil => exact absurd rfl hne
    | cons b bs => exact ⟨bs.length, rfl⟩
  by_cases h0 : size buf = 0
  · simp [drain, drainFuel, hn, h0]
  have hdrop : (buf.drop (size buf)).length ≤ n := by
    simp only [List.length_drop]
    omega
  rw [drain, hn, drainFuel, if_neg (by omega), hn]
  simp only [drainFuel_of_le hdrop]

/-- A buffer without a complete frame is left alone. -/
theorem drain_quiet
    {s : σ} {buf : List β} (hq : Quiet size buf) :
    drain size handle s buf = .wait s buf := by
  rcases hq with rfl | hlt
  · exact drain_nil s
  · by_cases hne : buf = []
    · subst hne
      exact drain_nil s
    · rw [drain_eq hne, if_neg (by omega), if_pos hlt]

/-- A complete accepted frame in front is handled first. -/
theorem drain_accept
    {s : σ} {f buf : List β}
    (hpos : f ≠ []) (hsize : size (f ++ buf) = f.length)
    (hok : (handle s f).2 = true) :
    drain size handle s (f ++ buf) =
      (drain size handle (handle s f).1 buf).after [f] := by
  have hlen : 0 < f.length := List.length_pos_of_ne_nil hpos
  have hne : f ++ buf ≠ [] := by simp [hpos]
  rw [drain_eq hne, hsize, if_neg (by omega), if_neg (by simp),
    List.take_left, List.drop_left, if_pos hok]

/-- What the loop leaves behind contains no complete frame. -/
theorem drain_rest_quiet
    (s : σ) (buf : List β)
    (hok : (drain size handle s buf).ok = true) :
    Quiet size (drain size handle s buf).rest := by
  induction hn : buf.length using Nat.strongRecOn generalizing s buf with
  | ind n ih =>
      by_cases hne : buf = []
      · subst hne
        exact Or.inl rfl
      rw [drain_eq hne] at hok ⊢
      split_ifs at hok ⊢ with h0 h1 h2
      · exact Or.inr h1
      · refine ih (buf.drop (size buf)).length ?_ _ _ ?_ rfl
        · simp only [List.length_drop]
          omega
        · simpa using hok

variable (size handle) in
/-- Handled frames and rest are the buffer. -/
theorem drain_conserves (s : σ) (buf : List β) :
    (drain size handle s buf).handled.flatten ++
      (drain size handle s buf).rest = buf := by
  induction hn : buf.length using Nat.strongRecOn generalizing s buf with
  | ind n ih =>
      by_cases hne : buf = []
      · subst hne
        rfl
      rw [drain_eq hne]
      split_ifs with h0 h1 h2
      · simp
      · simp [Outcome.wait]
      · have hlen : (buf.drop (size buf)).length < n := by
          simp only [List.length_drop]
          omega
        have := ih _ hlen (handle s (buf.take (size buf))).1 _ rfl
        simp [this]
      · simp

variable (hstable : Stable size)
include hstable

/-- Draining a concatenation: first what the front allows, then the rest of it
together with the new bytes. -/
theorem drain_append (s : σ) (x y : List β) :
    drain size handle s (x ++ y) =
      if (drain size handle s x).ok then
        (drain size handle (drain size handle s x).state
          ((drain size handle s x).rest ++ y)).after
            (drain size handle s x).handled
      else
        { drain size handle s x with rest := (drain size handle s x).rest ++ y } := by
  induction hn : x.length using Nat.strongRecOn generalizing s x with
  | ind n ih =>
      by_cases hne : x = []
      · subst hne
        simp [drain_nil, Outcome.wait]
      have hne' : x ++ y ≠ [] := by simp [hne]
      by_cases hdone : size x ≤ x.length
      · have hsz := hstable x y hdone
        have htake : (x ++ y).take (size x) = x.take (size x) :=
          List.take_append_of_le_length hdone
        have hdrop : (x ++ y).drop (size x) = x.drop (size x) ++ y :=
          List.drop_append_of_le_length hdone
        rw [drain_eq hne, drain_eq hne', hsz, htake, hdrop]
        by_cases h0 : size x = 0
        · simp [h0]
        · have hlt : ¬ x.length < size x := by omega
          have hlt' : ¬ (x ++ y).length < size x := by
            simp only [List.length_append]
            omega
          simp only [if_neg h0, if_neg hlt, if_neg hlt']
          by_cases h2 : (handle s (x.take (size x))).2
          · have hlen : (x.drop (size x)).length < n := by
              simp only [List.length_drop]
              omega
            simp only [if_pos h2, ih _ hlen _ _ rfl, Outcome.after_ok]
            split_ifs
            · simp only [Outcome.after_state, Outcome.after_handled, Outcome.after_after]
              rfl
            · rfl
          · simp [h2]
      · have hq : Quiet size x := Or.inr (by omega)
        rw [drain_quiet hq]
        simp [Outcome.wait, Outcome.after_nil]

/-- **Framing does not depend on the reads.**  From a buffer without a complete
frame, reading in pieces and reading at once give the same handler calls, state
and verdict; what is left, followed by the reads that were not made, is what a
single read leaves. -/
theorem feed_eq_drain
    (s : σ) (buf : List β) (cs : List (List β))
    (hq : Quiet size buf) :
    { (feed size handle s buf cs).1 with
      rest := (feed size handle s buf cs).1.rest ++
        (feed size handle s buf cs).2.flatten } =
      drain size handle s (buf ++ cs.flatten) := by
  induction cs generalizing s buf with
  | nil =>
      simp [feed, drain_quiet hq, Outcome.wait]
  | cons c cs ih =>
      rw [List.flatten_cons, ← List.append_assoc, drain_append hstable]
      by_cases hok : (drain size handle s (buf ++ c)).ok
      · have hrest := drain_rest_quiet s (buf ++ c) hok
        simp only [feed, hok, if_true]
        rw [← ih _ _ hrest]
        rfl
      · simp [feed, hok]

/-- Two ways of cutting one stream into reads. -/
theorem feed_cut
    (s : σ) (cs ds : List (List β)) (hflat : cs.flatten = ds.flatten) :
    let a := feed size handle s [] cs
    let b := feed size handle s [] ds
    a.1.state = b.1.state ∧ a.1.handled = b.1.handled ∧
      a.1.refused = b.1.refused ∧ a.1.ok = b.1.ok ∧
      a.1.rest ++ a.2.flatten = b.1.rest ++ b.2.flatten := by
  intro a b
  have ha := @feed_eq_drain _ _ _ handle hstable s [] cs (Or.inl rfl)
  have hb := @feed_eq_drain _ _ _ handle hstable s [] ds (Or.inl rfl)
  rw [hflat, ← hb] at ha
  simp only [Outcome.mk.injEq] at ha
  obtain ⟨hstate, hhandled, hrefused, hrest, hok⟩ := ha
  exact ⟨hstate, hhandled, hrefused, hok, hrest⟩

omit hstable

/-- A receiver that no failure has stopped has made all its reads. -/
theorem feed_unread_of_ok
    (s : σ) (buf : List β) (cs : List (List β))
    (hok : (feed size handle s buf cs).1.ok = true) :
    (feed size handle s buf cs).2 = [] := by
  induction cs generalizing s buf with
  | nil => rfl
  | cons c cs ih =>
      simp only [feed] at hok ⊢
      split_ifs at hok ⊢ with h
      · exact ih _ _ (by simpa using hok)
      · exact absurd hok h

/-- The reads that were made are the first ones, and they are the handled
frames followed by what is left. -/
theorem feed_conserves
    (s : σ) (buf : List β) (cs : List (List β)) :
    ∃ made, cs = made ++ (feed size handle s buf cs).2 ∧
      (feed size handle s buf cs).1.handled.flatten ++
        (feed size handle s buf cs).1.rest = buf ++ made.flatten := by
  induction cs generalizing s buf with
  | nil => exact ⟨[], rfl, by simp [feed, Outcome.wait]⟩
  | cons c cs ih =>
      have hd := drain_conserves size handle s (buf ++ c)
      by_cases hok : (drain size handle s (buf ++ c)).ok
      · obtain ⟨made, hcs, hmade⟩ :=
          ih (drain size handle s (buf ++ c)).state
            (drain size handle s (buf ++ c)).rest
        refine ⟨c :: made, ?_, ?_⟩
        · simp only [feed, hok, if_true, List.cons_append]
          rw [← hcs]
        · simp only [feed, hok, if_true, Outcome.after_handled,
            Outcome.after_rest, List.flatten_append, List.append_assoc]
          rw [hmade, ← List.append_assoc, hd, List.flatten_cons, List.append_assoc]
      · refine ⟨[c], ?_, ?_⟩
        · simp [feed, hok]
        · simpa [feed, hok] using hd

end Drain

section Stream

variable {size : List β → Nat} {handle : σ → List β → σ × Bool}

/-- The frames of `fs` that are complete within the first `n` bytes of their
concatenation. -/
def fitting : List (List β) → Nat → List (List β)
  | [], _ => []
  | f :: fs, n => if f.length ≤ n then f :: fitting fs (n - f.length) else []

variable (handle) in
/-- The handler state after all of the frames, if none of them is refused. -/
def handleAll : σ → List (List β) → Option σ
  | s, [] => some s
  | s, f :: fs => if (handle s f).2 then handleAll (handle s f).1 fs else none

/-- The bytes `left` belong to the first frame and do not complete it. -/
def Partial (left : List β) : List (List β) → Prop
  | [] => left = []
  | f :: _ => left.length < f.length

/-- A handler that accepts everything accepts all frames. -/
theorem handleAll_accepting
    (handle : σ → List β → σ × Bool) (haccept : ∀ s f, (handle s f).2 = true)
    (s : σ) (fs : List (List β)) :
    ∃ t, handleAll handle s fs = some t := by
  induction fs generalizing s with
  | nil => exact ⟨s, rfl⟩
  | cons f fs ih =>
      rw [handleAll, if_pos (haccept s f)]
      exact ih _

/-- What lies within the first bytes of a stream of frames: the frames that fit,
and a proper part of the next one. -/
theorem fitting_split
    {fs : List (List β)} {buf rest : List β}
    (hbuf : buf ++ rest = fs.flatten) :
    ∃ todo left, fs = fitting fs buf.length ++ todo ∧
      buf = (fitting fs buf.length).flatten ++ left ∧
      left ++ rest = todo.flatten ∧ Partial left todo := by
  induction fs generalizing buf with
  | nil =>
      obtain ⟨rfl, rfl⟩ := List.append_eq_nil_iff.mp hbuf
      exact ⟨[], [], rfl, rfl, rfl, rfl⟩
  | cons f fs ih =>
      have hpre : buf <+: f ++ fs.flatten := ⟨rest, hbuf⟩
      by_cases hfit : f.length ≤ buf.length
      · obtain ⟨tail, rfl⟩ : ∃ tail, buf = f ++ tail := by
          have := List.prefix_of_prefix_length_le (List.prefix_append f fs.flatten) hpre hfit
          exact this.imp fun _ h => h.symm
        rw [List.append_assoc, List.flatten_cons, List.append_cancel_left_eq] at hbuf
        obtain ⟨todo, left, hfs, htail, hrest, hpart⟩ := ih hbuf
        have hcut : fitting (f :: fs) (f ++ tail).length = f :: fitting fs tail.length := by
          simp [fitting]
        refine ⟨todo, left, ?_, ?_, hrest, hpart⟩
        · rw [hcut, List.cons_append, ← hfs]
        · rw [hcut, List.flatten_cons, List.append_assoc, ← htail]
      · have hcut : fitting (f :: fs) buf.length = [] := if_neg hfit
        refine ⟨f :: fs, buf, by rw [hcut]; rfl, by rw [hcut]; rfl, hbuf, ?_⟩
        exact Nat.lt_of_not_le hfit

variable (hstable : Stable size)
include hstable

/-- A proper part of a frame is no frame. -/
theorem quiet_front
    {f buf rest : List β}
    (hsize : size f = f.length) (hbuf : buf ++ rest = f)
    (hlt : buf.length < f.length) :
    Quiet size buf := by
  refine Or.inr ?_
  by_contra hle
  have hdone := hstable buf rest (Nat.le_of_not_lt hle)
  rw [hbuf, hsize] at hdone
  omega

/-- **Reading a stream of frames.**  When the bytes in the buffer are the beginning
of a stream of frames and the handler accepts the complete ones, exactly these are
handled and the rest waits. -/
theorem drain_stream
    {s t : σ} {fs : List (List β)} {buf rest : List β}
    (hframes : ∀ f ∈ fs, f ≠ [] ∧ size f = f.length)
    (hbuf : buf ++ rest = fs.flatten)
    (hok : handleAll handle s (fitting fs buf.length) = some t) :
    drain size handle s buf =
      ⟨t, fitting fs buf.length, none, buf.drop (fitting fs buf.length).flatten.length, true⟩ := by
  induction fs generalizing buf s with
  | nil =>
      obtain ⟨rfl, rfl⟩ := List.append_eq_nil_iff.mp hbuf
      obtain rfl : s = t := by simpa [fitting, handleAll] using hok
      rfl
  | cons f fs ih =>
      obtain ⟨hne, hsize⟩ := hframes f List.mem_cons_self
      have hpre : buf <+: f ++ fs.flatten := ⟨rest, hbuf⟩
      by_cases hfit : f.length ≤ buf.length
      · obtain ⟨tail, rfl⟩ : ∃ tail, buf = f ++ tail := by
          have := List.prefix_of_prefix_length_le (List.prefix_append f fs.flatten) hpre hfit
          exact this.imp fun _ h => h.symm
        rw [List.append_assoc, List.flatten_cons, List.append_cancel_left_eq] at hbuf
        have hcut : fitting (f :: fs) (f ++ tail).length = f :: fitting fs tail.length := by
          simp [fitting]
        rw [hcut, handleAll] at hok
        split_ifs at hok with hacc
        have hsz : size (f ++ tail) = f.length := by
          rw [hstable f tail (by omega), hsize]
        rw [drain_accept hne hsz hacc,
          ih (fun g hg => hframes g (List.mem_cons_of_mem f hg)) hbuf hok, hcut]
        simp [Outcome.after, ← List.drop_drop]
      · have hcut : fitting (f :: fs) buf.length = [] := if_neg hfit
        rw [hcut] at hok ⊢
        obtain rfl : s = t := by simpa [handleAll] using hok
        have hlt : buf.length < f.length := Nat.lt_of_not_le hfit
        obtain ⟨y, hy⟩ : buf <+: f :=
          List.prefix_of_prefix_length_le hpre
            (List.prefix_append f fs.flatten) (Nat.le_of_lt hlt)
        rw [drain_quiet (quiet_front hstable hsize hy hlt)]
        simp [Outcome.wait]

/-- **Reading a stream of frames, whatever the handler does.**  It is called with frames of the
stream, one after the other.  When it refuses none of them, they are the complete ones; a failure
is its refusal of the last one. -/
theorem drain_stream_calls
    {s : σ} {fs : List (List β)} {buf rest : List β}
    (hframes : ∀ f ∈ fs, f ≠ [] ∧ size f = f.length)
    (hbuf : buf ++ rest = fs.flatten) :
    (∃ todo, fs = (drain size handle s buf).calls ++ todo) ∧
      ((drain size handle s buf).ok = true →
        (drain size handle s buf).handled = fitting fs buf.length) ∧
      ((drain size handle s buf).ok = false → (drain size handle s buf).refused ≠ none) := by
  induction fs generalizing buf s with
  | nil =>
      obtain ⟨rfl, rfl⟩ := List.append_eq_nil_iff.mp hbuf
      exact ⟨⟨[], rfl⟩, fun _ => rfl, (nomatch ·)⟩
  | cons f fs ih =>
      obtain ⟨hne, hsize⟩ := hframes f List.mem_cons_self
      have hpre : buf <+: f ++ fs.flatten := ⟨rest, hbuf⟩
      by_cases hfit : f.length ≤ buf.length
      · obtain ⟨tail, rfl⟩ : ∃ tail, buf = f ++ tail := by
          have := List.prefix_of_prefix_length_le (List.prefix_append f fs.flatten) hpre hfit
          exact this.imp fun _ h => h.symm
        rw [List.append_assoc, List.flatten_cons, List.append_cancel_left_eq] at hbuf
        have hsz : size (f ++ tail) = f.length := by
          rw [hstable f tail (by omega), hsize]
        have hcut : fitting (f :: fs) (f ++ tail).length = f :: fitting fs tail.length := by
          simp [fitting]
        by_cases hacc : (handle s f).2 = true
        · rw [drain_accept hne hsz hacc, hcut]
          obtain ⟨⟨todo, hcalls⟩, hok, hbad⟩ :=
            @ih (handle s f).1 tail (fun g hg => hframes g (List.mem_cons_of_mem f hg)) hbuf
          refine ⟨⟨todo, ?_⟩, fun h => ?_, hbad⟩
          · rw [Outcome.after_calls, List.append_assoc, ← hcalls]
            rfl
          · rw [Outcome.after_handled, hok h]
            rfl
        · have hpos : 0 < f.length := List.length_pos_of_ne_nil hne
          have hnil : f ++ tail ≠ [] := by simp [hne]
          rw [drain_eq hnil, hsz, if_neg (by omega), if_neg (by simp), List.take_left, if_neg hacc]
          exact ⟨⟨fs, rfl⟩, (nomatch ·), fun _ => nofun⟩
      · have hlt : buf.length < f.length := Nat.lt_of_not_le hfit
        obtain ⟨y, hy⟩ : buf <+: f :=
          List.prefix_of_prefix_length_le hpre
            (List.prefix_append f fs.flatten) (Nat.le_of_lt hlt)
        rw [drain_quiet (quiet_front hstable hsize hy hlt)]
        exact ⟨⟨f :: fs, rfl⟩, fun _ => (if_neg hfit).symm, (nomatch ·)⟩

end Stream

end Framing
