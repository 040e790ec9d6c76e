import PicaPica.Proto
import PicaPica.Lib.Area
import PicaPica.Lib.Framing

/-!
# Message framing (`PICA_msgproc.c`)

A message table tells the size of each message kind.  `msggetsize` measures the
message a buffer starts with, `processmsg` calls its handler, and
`processdatastream` repeats both, moving the remaining bytes to the front of
the buffer after each message.

The loop refines the abstract one of `Lib/Framing.lean` on the bytes in front
of the read position (`processdatastream_refines`), which makes the result
independent of how the stream was cut into reads.
-/

namespace PicaPica

open Area Framing

/-- `PICA_MSG_FIXED_SIZE` and `PICA_MSG_VAR_SIZE`. -/
inductive SizeKind
  | fixedSize
  | varSize
deriving DecidableEq

/-- `struct PICA_msginfo`: a handler gets the message and the state behind its
`void*` argument.  The size is the whole message for a fixed size, and the
number of length bytes, one or two, otherwise. -/
structure MsgInfo (σ : Type) where
  msgid : Nat
  fixedsz : SizeKind
  sz : Nat
  msgprocfn : σ → Frame → σ × Nat
  sz_ok : match fixedsz with
    | .fixedSize => 2 ≤ sz
    | .varSize => sz = 1 ∨ sz = 2

/-! The sizes that the tables have. -/

theorem sz_four : 2 ≤ 4 := by decide

theorem sz_thirty : 2 ≤ 30 := by decide

theorem sz_int16 : 2 = 1 ∨ 2 = 2 := .inr rfl

variable {σ : Type}

/-- The value of the length field.  Both byte-order branches of the source put
`buf[2 + j]` into the byte of weight `256 ^ j`. -/
def tailLen (buf : List UInt8) (sz : Nat) : Nat :=
  leNat ((buf.drop 2).take sz)

/-- The table scan of `PICA_msggetsize`. -/
def msggetsizeScan (buf : List UInt8) (nb : Nat) : List (MsgInfo σ) → Nat
  | [] => 0
  | m :: msgs =>
      if byteAt buf 0 = m.msgid % 256 then
        match m.fixedsz with
        | .fixedSize => m.sz
        | .varSize =>
            if m.sz + 2 ≤ nb then 2 + m.sz + tailLen buf m.sz else uintMax
      else msggetsizeScan buf nb msgs

/-- `PICA_msggetsize`: the size of the message, `UINT_MAX` if the `nb` bytes do
not determine it yet, `0` for wrong data. -/
def msggetsize (buf : List UInt8) (nb : Nat) (msgs : List (MsgInfo σ)) : Nat :=
  if nb < 2 then uintMax
  else if byteAt buf 0 ≠ byteAt buf 1 then 0
  else msggetsizeScan buf nb msgs

/-- The table scan of `PICA_processmsg`. -/
def processmsgScan (buf : List UInt8) (size : Nat) (arg : σ) :
    List (MsgInfo σ) → σ × Nat
  | [] => (arg, 0)
  | m :: msgs =>
      if byteAt buf 0 = m.msgid % 256 then m.msgprocfn arg (buf.take size)
      else processmsgScan buf size arg msgs

/-- `PICA_processmsg`. -/
def processmsg (buf : List UInt8) (size : Nat) (arg : σ)
    (msgs : List (MsgInfo σ)) : σ × Nat :=
  if byteAt buf 0 ≠ byteAt buf 1 then (arg, 0)
  else processmsgScan buf size arg msgs

/-- Buffer, read position, handler state and result of
`PICA_processdatastream`, with the calls it made. -/
structure StreamResult (σ : Type) where
  buf : List UInt8
  readPos : Nat
  arg : σ
  ret : Nat
  /-- messages whose handler did not return 0 -/
  handled : List Frame
  /-- the message whose handler returned 0 -/
  refused : Option Frame

/-- `PICA_processdatastream`, with a bound on the number of loop passes. -/
def processdatastream (msgs : List (MsgInfo σ)) :
    Nat → List UInt8 → Nat → σ → StreamResult σ
  | 0, buf, readPos, arg => ⟨buf, readPos, arg, 1, [], none⟩
  | fuel + 1, buf, readPos, arg =>
      if readPos = 0 then ⟨buf, readPos, arg, 1, [], none⟩
      else
        let uret := msggetsize buf readPos msgs
        if uret = 0 then ⟨buf, readPos, arg, 0, [], none⟩
        else if readPos < uret then ⟨buf, readPos, arg, 1, [], none⟩
        else
          let r := processmsg buf uret arg msgs
          if r.2 = 0 then ⟨buf, readPos, r.1, 0, [], some (buf.take uret)⟩
          else
            let next := processdatastream msgs fuel
              (moveDown buf uret (readPos - uret)) (readPos - uret) r.1
            { next with handled := buf.take uret :: next.handled }

/-- All messages the handlers were called with. -/
def StreamResult.calls (r : StreamResult σ) : List Frame :=
  r.handled ++ r.refused.toList

/-- Size of the message the bytes `x` start with. -/
def sizer (msgs : List (MsgInfo σ)) (x : List UInt8) : Nat :=
  msggetsize x x.length msgs

/-- The handler selected for a complete message. -/
def handler (msgs : List (MsgInfo σ)) (arg : σ) (f : Frame) : σ × Bool :=
  ((processmsg f f.length arg msgs).1, (processmsg f f.length arg msgs).2 ≠ 0)

section Measure

theorem byteAt_take {x : List UInt8} {i n : Nat} (h : i < n) :
    byteAt (x.take n) i = byteAt x i := by
  simp [byteAt, List.getD_eq_getElem?_getD, h]

theorem byteAt_append {x y : List UInt8} {i : Nat} (h : i < x.length) :
    byteAt (x ++ y) i = byteAt x i := by
  simp [byteAt, List.getD_eq_getElem?_getD, List.getElem?_append_left h]

theorem tailLen_take {x : List UInt8} {sz n : Nat} (h : sz + 2 ≤ n) :
    tailLen (x.take n) sz = tailLen x sz := by
  rw [tailLen, tailLen, List.drop_take, List.take_take, Nat.min_eq_left (by omega)]

theorem tailLen_append {x y : List UInt8} {sz : Nat} (h : sz + 2 ≤ x.length) :
    tailLen (x ++ y) sz = tailLen x sz := by
  rw [tailLen, tailLen, List.drop_append_of_le_length (by omega),
    List.take_append_of_le_length (by simp only [List.length_drop]; omega)]

/-- The measure reads nothing behind the bytes it is told about. -/
theorem msggetsizeScan_take
    {buf : List UInt8} {nb : Nat} (hnb : 2 ≤ nb) (msgs : List (MsgInfo σ)) :
    msggetsizeScan (buf.take nb) nb msgs = msggetsizeScan buf nb msgs := by
  induction msgs with
  | nil => rfl
  | cons m msgs ih =>
      have h0 : byteAt (buf.take nb) 0 = byteAt buf 0 := byteAt_take (by omega)
      simp only [msggetsizeScan, h0, ih]
      cases m.fixedsz with
      | fixedSize => rfl
      | varSize =>
          by_cases hsz : m.sz + 2 ≤ nb
          · simp only [if_pos hsz, tailLen_take hsz]
          · simp only [if_neg hsz]

theorem msggetsize_take
    {buf : List UInt8} {nb : Nat} (msgs : List (MsgInfo σ)) :
    msggetsize (buf.take nb) nb msgs = msggetsize buf nb msgs := by
  by_cases h2 : nb < 2
  · simp [msggetsize, h2]
  · have h0 : byteAt (buf.take nb) 0 = byteAt buf 0 := byteAt_take (by omega)
    have h1 : byteAt (buf.take nb) 1 = byteAt buf 1 := byteAt_take (by omega)
    simp only [msggetsize, h2, if_false, h0, h1,
      msggetsizeScan_take (by omega : 2 ≤ nb)]

/-- A verdict other than "more bytes needed" is final. -/
theorem msggetsizeScan_append
    {x y : List UInt8} (h2 : 2 ≤ x.length) (msgs : List (MsgInfo σ))
    (hdone : msggetsizeScan x x.length msgs ≤ x.length) :
    msggetsizeScan (x ++ y) (x ++ y).length msgs =
      msggetsizeScan x x.length msgs := by
  induction msgs with
  | nil => rfl
  | cons m msgs ih =>
      have h0 : byteAt (x ++ y) 0 = byteAt x 0 := byteAt_append (by omega)
      simp only [msggetsizeScan, h0] at hdone ⊢
      by_cases hid : byteAt x 0 = m.msgid % 256
      · simp only [if_pos hid] at hdone ⊢
        have hok := m.sz_ok
        revert hdone hok
        cases m.fixedsz with
        | fixedSize => simp
        | varSize =>
            intro hdone hok
            simp only at hdone hok ⊢
            have hsz : m.sz + 2 ≤ x.length := by
              by_contra hlt
              rw [if_neg hlt, uintMax] at hdone
              omega
            have hsz' : m.sz + 2 ≤ (x ++ y).length := by
              simp only [List.length_append]
              omega
            simp only [if_pos hsz, if_pos hsz', tailLen_append hsz]
      · simp only [if_neg hid] at hdone ⊢
        exact ih hdone

theorem sizer_stable (msgs : List (MsgInfo σ)) : Stable (sizer msgs) := by
  intro x y hdone
  simp only [sizer, msggetsize] at hdone ⊢
  by_cases h2 : x.length < 2
  · rw [if_pos h2, uintMax] at hdone
    omega
  · have h2' : ¬ (x ++ y).length < 2 := by
      simp only [List.length_append]
      omega
    have h0 : byteAt (x ++ y) 0 = byteAt x 0 := byteAt_append (by omega)
    have h1 : byteAt (x ++ y) 1 = byteAt x 1 := byteAt_append (by omega)
    simp only [if_neg h2, if_neg h2', h0, h1] at hdone ⊢
    by_cases heq : byteAt x 0 = byteAt x 1
    · simp only [heq, ne_eq, not_true_eq_false, if_false] at hdone ⊢
      exact msggetsizeScan_append (by omega) msgs hdone
    · simp [heq]

/-- A measured message has at least its two header bytes. -/
theorem two_le_of_msggetsizeScan_ne_zero
    {buf : List UInt8} {nb : Nat} (msgs : List (MsgInfo σ))
    (h : msggetsizeScan buf nb msgs ≠ 0) :
    2 ≤ msggetsizeScan buf nb msgs := by
  induction msgs with
  | nil => simp [msggetsizeScan] at h
  | cons m msgs ih =>
      simp only [msggetsizeScan] at h ⊢
      by_cases hid : byteAt buf 0 = m.msgid % 256
      · simp only [if_pos hid] at h ⊢
        have hok := m.sz_ok
        revert h hok
        cases m.fixedsz with
        | fixedSize =>
            intro _ hok
            exact hok
        | varSize =>
            intro _ _
            simp only
            split_ifs
            · omega
            · simp [uintMax]
      · simp only [if_neg hid] at h ⊢
        exact ih h

theorem two_le_of_msggetsize_ne_zero
    {buf : List UInt8} {nb : Nat} {msgs : List (MsgInfo σ)}
    (h : msggetsize buf nb msgs ≠ 0) :
    2 ≤ msggetsize buf nb msgs := by
  simp only [msggetsize] at h ⊢
  split_ifs at h ⊢ with h2 hhead
  · simp [uintMax]
  · exact absurd rfl h
  · exact two_le_of_msggetsizeScan_ne_zero msgs h

theorem processmsgScan_take
    {buf : List UInt8} {size : Nat} (hsize : 2 ≤ size)
    (hlen : size ≤ buf.length) (arg : σ) (msgs : List (MsgInfo σ)) :
    processmsgScan (buf.take size) (buf.take size).length arg msgs =
      processmsgScan buf size arg msgs := by
  have hl : (buf.take size).length = size := by
    simp only [List.length_take]
    omega
  have h0 : byteAt (buf.take size) 0 = byteAt buf 0 := byteAt_take (by omega)
  rw [hl]
  induction msgs with
  | nil => rfl
  | cons m msgs ih =>
      simp only [processmsgScan, h0, ih, List.take_take, Nat.min_self]

/-- A handler depends on the message only, not on what follows it. -/
theorem processmsg_take
    {buf : List UInt8} {size : Nat} (hsize : 2 ≤ size)
    (hlen : size ≤ buf.length) (arg : σ) (msgs : List (MsgInfo σ)) :
    processmsg (buf.take size) (buf.take size).length arg msgs =
      processmsg buf size arg msgs := by
  have h0 : byteAt (buf.take size) 0 = byteAt buf 0 := byteAt_take (by omega)
  have h1 : byteAt (buf.take size) 1 = byteAt buf 1 := byteAt_take (by omega)
  simp only [processmsg, h0, h1, processmsgScan_take hsize hlen]

end Measure

/-- What the concrete loop and the abstract one agree on. -/
structure Refines (r : StreamResult σ) (o : Outcome UInt8 σ) (len : Nat) : Prop where
  arg : r.arg = o.state
  handled : r.handled = o.handled
  refused : r.refused = o.refused
  ret : r.ret = if o.ok then 1 else 0
  rest : r.buf.take r.readPos = o.rest
  length : r.buf.length = len
  pos : r.readPos ≤ r.buf.length

/-- The loop over the buffer is the abstract loop over the bytes in front of
the read position. -/
theorem processdatastream_refines
    (msgs : List (MsgInfo σ)) (fuel : Nat)
    (buf : List UInt8) (readPos : Nat) (arg : σ)
    (hfuel : readPos ≤ fuel) (hpos : readPos ≤ buf.length) :
    Refines (processdatastream msgs fuel buf readPos arg)
      (drain (sizer msgs) (handler msgs) arg (buf.take readPos))
      buf.length := by
  induction fuel generalizing buf readPos arg with
  | zero =>
      have h0 : readPos = 0 := by omega
      subst h0
      exact ⟨rfl, rfl, rfl, rfl, rfl, rfl, hpos⟩
  | succ fuel ih =>
      by_cases h0 : readPos = 0
      · subst h0
        simp only [processdatastream, if_true, List.take_zero, drain_nil]
        exact ⟨rfl, rfl, rfl, rfl, rfl, rfl, hpos⟩
      have hlen : (buf.take readPos).length = readPos := by
        simp only [List.length_take]
        omega
      have hne : buf.take readPos ≠ [] := by
        intro hnil
        rw [hnil] at hlen
        exact h0 hlen.symm
      have hsz : sizer msgs (buf.take readPos) = msggetsize buf readPos msgs := by
        rw [sizer, hlen, msggetsize_take]
      rw [drain_eq hne, hsz, hlen]
      simp only [processdatastream, if_neg h0]
      by_cases hbad : msggetsize buf readPos msgs = 0
      · simp only [if_pos hbad]
        exact ⟨rfl, rfl, rfl, rfl, rfl, rfl, hpos⟩
      by_cases hmore : readPos < msggetsize buf readPos msgs
      · simp only [if_neg hbad, if_pos hmore]
        exact ⟨rfl, rfl, rfl, rfl, rfl, rfl, hpos⟩
      simp only [if_neg hbad, if_neg hmore]
      have h2 := two_le_of_msggetsize_ne_zero hbad
      generalize msggetsize buf readPos msgs = uret at *
      have htake : (buf.take readPos).take uret = buf.take uret := by
        rw [List.take_take, Nat.min_eq_left (by omega)]
      have hproc : handler msgs arg (buf.take uret) =
          ((processmsg buf uret arg msgs).1,
            decide ((processmsg buf uret arg msgs).2 ≠ 0)) := by
        rw [handler, processmsg_take h2 (by omega)]
      rw [htake, hproc]
      by_cases hret : (processmsg buf uret arg msgs).2 = 0
      · simp only [hret, if_true, ne_eq, not_true_eq_false, decide_false,
          Bool.false_eq_true, if_false]
        exact ⟨rfl, rfl, rfl, rfl, rfl, rfl, hpos⟩
      · have hmove : uret + (readPos - uret) ≤ buf.length := by omega
        have hml := @length_moveDown _ buf uret (readPos - uret)
        have hrest : (moveDown buf uret (readPos - uret)).take (readPos - uret) =
            (buf.take readPos).drop uret := by
          rw [take_moveDown hmove]
          congr 2
          omega
        have hrec := ih (moveDown buf uret (readPos - uret)) (readPos - uret)
          (processmsg buf uret arg msgs).1 (by omega) (by omega)
        rw [hrest, hml] at hrec
        simp only [hret, if_false, ne_eq, not_false_eq_true, decide_true, if_true]
        exact ⟨hrec.arg, by simp [hrec.handled], hrec.refused, hrec.ret,
          hrec.rest, hrec.length, hrec.pos⟩

/-- A receiver: append one read behind the read position and call
`PICA_processdatastream`; stop when it returns 0.  The second component is the
reads that were not made. -/
def readAll (msgs : List (MsgInfo σ)) (buf : List UInt8) (readPos : Nat) (arg : σ) :
    List (List UInt8) → StreamResult σ × List (List UInt8)
  | [] => (⟨buf, readPos, arg, 1, [], none⟩, [])
  | c :: cs =>
      let r := processdatastream msgs (readPos + c.length)
        (writeAt buf readPos c) (readPos + c.length) arg
      if r.ret = 0 then (r, cs)
      else
        let next := readAll msgs r.buf r.readPos r.arg cs
        ({ next.1 with handled := r.handled ++ next.1.handled }, next.2)

/-- Each read fits into the room that is left in the buffer, for which `SSL_read` is called. -/
def readsFit (msgs : List (MsgInfo σ)) (buf : List UInt8) (readPos : Nat) (arg : σ) :
    List (List UInt8) → Bool
  | [] => readPos ≤ buf.length
  | c :: cs =>
      let r := processdatastream msgs (readPos + c.length)
        (writeAt buf readPos c) (readPos + c.length) arg
      readPos + c.length ≤ buf.length && (r.ret = 0 || readsFit msgs r.buf r.readPos r.arg cs)

/-- A read that fits, on the buffer and on its contents. -/
theorem read_refines
    {msgs : List (MsgInfo σ)} {buf c : List UInt8} {readPos : Nat} {arg : σ}
    (hfit : readPos + c.length ≤ buf.length) :
    Refines (processdatastream msgs (readPos + c.length) (writeAt buf readPos c)
        (readPos + c.length) arg)
      (drain (sizer msgs) (handler msgs) arg (buf.take readPos ++ c)) buf.length := by
  have hlen := @length_writeAt _ buf c readPos
  have hstep := processdatastream_refines msgs (readPos + c.length)
    (writeAt buf readPos c) (readPos + c.length) arg (Nat.le_refl _) (by omega)
  rwa [take_writeAt c (by omega), hlen] at hstep

/-- Reads that are together no longer than the buffer fit. -/
theorem readsFit_of_length
    {msgs : List (MsgInfo σ)} {buf : List UInt8} {readPos : Nat} {arg : σ}
    {reads : List (List UInt8)} (hcap : readPos + reads.flatten.length ≤ buf.length) :
    readsFit msgs buf readPos arg reads := by
  induction reads generalizing buf readPos arg with
  | nil => simpa [readsFit] using hcap
  | cons c cs ih =>
      simp only [List.flatten_cons, List.length_append] at hcap
      have hread := @read_refines σ msgs buf c readPos arg (by omega)
      rw [readsFit, Bool.and_eq_true, Bool.or_eq_true]
      refine ⟨decide_eq_true (by omega), .inr (ih ?_)⟩
      -- no more bytes are left than there were
      have hcons := congrArg List.length
        (drain_conserves (sizer msgs) (handler msgs) arg (buf.take readPos ++ c))
      have hrest := congrArg List.length hread.rest
      have hpos := hread.pos
      have hlen := hread.length
      simp only [List.length_take, List.length_append] at hrest hcons
      omega

/-- The receiver's loop over the buffer is `Framing.feed` over its contents. -/
theorem readAll_refines
    (msgs : List (MsgInfo σ)) (reads : List (List UInt8))
    (buf : List UInt8) (readPos : Nat) (arg : σ)
    (hfit : readsFit msgs buf readPos arg reads) :
    Refines (readAll msgs buf readPos arg reads).1
        (feed (sizer msgs) (handler msgs) arg (buf.take readPos) reads).1
        buf.length ∧
      (readAll msgs buf readPos arg reads).2 =
        (feed (sizer msgs) (handler msgs) arg (buf.take readPos) reads).2 := by
  induction reads generalizing buf readPos arg with
  | nil => exact ⟨⟨rfl, rfl, rfl, rfl, rfl, rfl, of_decide_eq_true hfit⟩, rfl⟩
  | cons c cs ih =>
      simp only [readsFit, Bool.and_eq_true, Bool.or_eq_true, decide_eq_true_eq] at hfit
      obtain ⟨hroom, hnextFit⟩ := hfit
      have hstep := @read_refines σ msgs buf c readPos arg hroom
      simp only [readAll, feed]
      generalize processdatastream msgs (readPos + c.length)
        (writeAt buf readPos c) (readPos + c.length) arg = r at *
      rw [← hstep.arg, ← hstep.rest, ← hstep.handled]
      by_cases hok : (drain (sizer msgs) (handler msgs) arg (buf.take readPos ++ c)).ok
      · have hret : r.ret ≠ 0 := by simp [hstep.ret, hok]
        obtain ⟨hnext, htail⟩ := ih r.buf r.readPos r.arg (hnextFit.resolve_left hret)
        simp only [hok, if_neg hret, if_true]
        exact ⟨⟨hnext.arg, by simp [hnext.handled], hnext.refused, hnext.ret,
          hnext.rest, hstep.length ▸ hnext.length, hnext.pos⟩, htail⟩
      · have hret : r.ret = 0 := by simp [hstep.ret, hok]
        simp only [hok, if_pos hret, Bool.false_eq_true, if_false, and_true]
        exact hstep

/-- The bytes a receiver keeps for its next read. -/
def StreamResult.leftover (r : StreamResult σ) : List UInt8 :=
  r.buf.take r.readPos

section Dispatch

variable {msgs : List (MsgInfo σ)} {f : Frame}

/-- The size and the handler of a message come from one entry of the table. -/
theorem scan_entry
    {nb size : Nat}
    (h : msggetsizeScan f nb msgs ≠ 0) :
    ∃ m ∈ msgs, byteAt f 0 = m.msgid % 256 ∧ msggetsizeScan f nb msgs = msggetsizeScan f nb [m] ∧
      ∀ arg, processmsgScan f size arg msgs = m.msgprocfn arg (f.take size) := by
  induction msgs with
  | nil => exact absurd rfl h
  | cons m msgs ih =>
      by_cases hm : byteAt f 0 = m.msgid % 256
      · exact ⟨m, by simp, hm, by simp [msggetsizeScan, hm], by simp [processmsgScan, hm]⟩
      · simp only [msggetsizeScan, hm, if_false] at h
        obtain ⟨m', hmem, hid, hsize, hcall⟩ := ih h
        refine ⟨m', by simp [hmem], hid, ?_, ?_⟩
        · rw [msggetsizeScan, if_neg hm, hsize]
        · intro arg
          rw [processmsgScan, if_neg hm, hcall]

/-- A message that is measured as complete is handled by an entry of the table. -/
theorem processmsg_entry
    (h : msggetsize f f.length msgs = f.length) :
    ∃ m ∈ msgs, byteAt f 0 = m.msgid % 256 ∧
      ∀ arg, processmsg f f.length arg msgs = m.msgprocfn arg f := by
  rw [msggetsize] at h
  split_ifs at h with hshort hbytes
  · rw [uintMax] at h
    omega
  · omega
  · obtain ⟨m, hm, hid, -, hcall⟩ := @scan_entry _ msgs f f.length f.length (by omega)
    refine ⟨m, hm, hid, ?_⟩
    intro arg
    rw [processmsg, if_neg hbytes, hcall, List.take_length]

/-- One pass of the loop: it stops in front of a message, or the message is handled
and refused, or the loop goes on behind it. -/
theorem processdatastream_pass
    (msgs : List (MsgInfo σ)) (fuel : Nat) (buf : List UInt8) (pos : Nat) (arg : σ) :
    let r := processdatastream msgs (fuel + 1) buf pos arg
    let size := msggetsize buf pos msgs
    let c := processmsg buf size arg msgs
    let next := processdatastream msgs fuel (moveDown buf size (pos - size)) (pos - size) c.1
    r.arg = arg ∨
      size ≠ 0 ∧ size ≤ pos ∧
        (c.2 = 0 ∧ r.arg = c.1 ∧ r.ret = 0 ∨
          c.2 ≠ 0 ∧ r.arg = next.arg ∧ r.ret = next.ret) := by
  dsimp only
  rw [processdatastream]
  dsimp only
  split_ifs with hpos hsize hmore hret
  · exact .inl rfl
  · exact .inl rfl
  · exact .inl rfl
  · exact .inr ⟨hsize, Nat.le_of_not_lt hmore, .inl ⟨hret, rfl, rfl⟩⟩
  · exact .inr ⟨hsize, Nat.le_of_not_lt hmore, .inr ⟨hret, rfl, rfl⟩⟩

end Dispatch

/-- **Framing is independent of how the stream is cut.**  Whatever the reads are,
the handlers are called with the same messages and reach the same state as when
the whole stream arrives in one read, and `0` is returned in both cases or in
neither.  The bytes left, followed by the reads a failure has prevented, are the
bytes a single read leaves, and the handled messages followed by the bytes left
are the reads that were made. -/
theorem readAll_cut_independent
    (msgs : List (MsgInfo σ)) (arg : σ) (buf : List UInt8)
    (reads : List (List UInt8))
    (hcap : reads.flatten.length ≤ buf.length) :
    let cut := readAll msgs buf 0 arg reads
    let whole := readAll msgs buf 0 arg [reads.flatten]
    cut.1.calls = whole.1.calls ∧
      cut.1.handled = whole.1.handled ∧
      cut.1.arg = whole.1.arg ∧
      cut.1.ret = whole.1.ret ∧
      cut.1.leftover ++ cut.2.flatten = whole.1.leftover ∧
      (cut.1.ret ≠ 0 → cut.2 = []) ∧
      ∃ made, reads = made ++ cut.2 ∧
        cut.1.handled.flatten ++ cut.1.leftover = made.flatten := by
  intro cut whole
  obtain ⟨hcut, hcutTail⟩ :=
    readAll_refines msgs reads buf 0 arg (readsFit_of_length (by omega))
  obtain ⟨hwhole, -⟩ :=
    readAll_refines msgs [reads.flatten] buf 0 arg (readsFit_of_length (by simpa using hcap))
  simp only [List.take_zero] at hcut hcutTail hwhole
  obtain ⟨hstate, hhandled, hrefused, hok, hrest⟩ :=
    @feed_cut _ _ _ (handler msgs) (sizer_stable msgs) arg reads [reads.flatten]
      (by simp)
  have honeTail : (feed (sizer msgs) (handler msgs) arg [] [reads.flatten]).2 = [] := by
    simp only [feed]
    split_ifs <;> rfl
  obtain ⟨made, hmade, hmadeEq⟩ :=
    @feed_conserves _ _ (sizer msgs) (handler msgs) arg [] reads
  have hh : cut.1.handled = whole.1.handled := by
    rw [hcut.handled, hwhole.handled, hhandled]
  have hr : cut.1.refused = whole.1.refused := by
    rw [hcut.refused, hwhole.refused, hrefused]
  refine ⟨?_, hh, ?_, ?_, ?_, ?_, made, ?_, ?_⟩
  · simp only [StreamResult.calls, hh, hr]
  · rw [hcut.arg, hwhole.arg, hstate]
  · rw [hcut.ret, hwhole.ret, hok]
  · rw [honeTail, List.flatten_nil, List.append_nil] at hrest
    rw [StreamResult.leftover, StreamResult.leftover, hcut.rest, hwhole.rest,
      hcutTail, hrest]
  · intro hret
    rw [hcutTail]
    apply feed_unread_of_ok
    by_contra hbad
    rw [hcut.ret, if_neg hbad] at hret
    exact hret rfl
  · rw [hcutTail]
    exact hmade
  · rw [StreamResult.leftover, hcut.rest, hcut.handled]
    simpa using hmadeEq

/-- A table with one message of each kind; its handler counts messages. -/
def sampleTable : List (MsgInfo Nat) :=
  [⟨Proto.MSGOK, .fixedSize, 4, fun n _ => (n + 1, 1), sz_four⟩,
   ⟨Proto.MSGUTF8, .varSize, 2, fun n _ => (n + 1, 1), sz_int16⟩]

/-- Two messages and a half, cut inside a header and inside a length field. -/
def sampleReads : List (List UInt8) :=
  [[0x40], [0x40, 9, 9, 0x30, 0x30, 1], [0, 65, 0x40]]

theorem readAll_cut_independent_sample :
    (readAll sampleTable (List.replicate 32 0) 0 0 sampleReads).1.calls =
        [[0x40, 0x40, 9, 9], [0x30, 0x30, 1, 0, 65]] ∧
      (readAll sampleTable (List.replicate 32 0) 0 0 sampleReads).1.calls =
        (readAll sampleTable (List.replicate 32 0) 0 0 [sampleReads.flatten]).1.calls :=
  ⟨by decide, (readAll_cut_independent sampleTable 0 (List.replicate 32 0) sampleReads
    (by decide)).1⟩

end PicaPica
