import PicaPica.Client.Channel
import PicaPica.Lib.Run
import PicaPica.Node.Handlers

/-!
# The read buffers of the node

`process_c2n_read` and `process_n2n_read` read behind the bytes that are left, handle
the complete messages and make the buffer larger when what is left fills it.  What is
left is shorter than a message, so the buffer stays below a bound and always has
room for another byte.
-/

namespace PicaPica

open Area Framing Machine

open Client (SslRead)

/-- The longest message that a length field of two bytes allows. -/
def maxFrame : Nat := 65539

/-- The read buffer of `struct client` and of `struct nodelink`; `buflen_r` is its
length. -/
structure ReadBuffer where
  buf : List UInt8
  pos : Nat

namespace ReadBuffer

def fresh : ReadBuffer :=
  ⟨List.replicate defaultBufSize 0, 0⟩

/-- `client_rbuf_grow` and `nodelink_rbuf_grow`. -/
def rbufGrow (mem : Bool) (s : ReadBuffer) : Option ReadBuffer :=
  if mem then some { s with buf := s.buf ++ List.replicate defaultBufSize 0 } else none

variable {σ : Type}

/-- The body of both functions.  There is no result when the connection is deleted. -/
def read (msgs : List (MsgInfo σ)) (arg : σ) (mem : Bool) (r : SslRead) (s : ReadBuffer) :
    Option (ReadBuffer × σ) :=
  match r with
  | .data bytes =>
      let got := bytes.take (usub s.buf.length s.pos)
      if got = [] then none
      else
        let pos := s.pos + got.length
        let t := processdatastream msgs pos (writeAt s.buf s.pos got) pos arg
        if t.ret = 0 then none
        else if t.buf.length = t.readPos then
          (rbufGrow mem ⟨t.buf, t.readPos⟩).map fun u => (u, t.arg)
        else some (⟨t.buf, t.readPos⟩, t.arg)
  | .retry => some (s, arg)
  | .closed => none
  | .error => none

/-- `process_c2n_read` after the handshake. -/
def processC2nRead
    (ci : Ptr) (secondary : Bool) (n : Except Fault Node) (mem : Bool) (r : SslRead)
    (s : ReadBuffer) :
    Option (ReadBuffer × Except Fault Node) :=
  s.read (if secondary then msginfoMulti ci else msginfoComm ci) n mem r

/-- `process_n2n_read`. -/
def processN2nRead
    (nl : Ptr) (n : Except Fault Node) (mem : Bool) (r : SslRead) (s : ReadBuffer) :
    Option (ReadBuffer × Except Fault Node) :=
  s.read (msginfoNode nl) n mem r

/-! ### What is left of a stream -/

/-- No message of a fixed size is longer than the longest one. -/
def Bounded (msgs : List (MsgInfo σ)) : Prop :=
  ∀ m ∈ msgs, m.fixedsz = .fixedSize → m.sz ≤ maxFrame

theorem scan_bounded
    {msgs : List (MsgInfo σ)} {x : List UInt8} {nb : Nat} (h : Bounded msgs)
    (hmore : nb < msggetsizeScan x nb msgs) :
    nb < maxFrame := by
  induction msgs with
  | nil => exact absurd hmore (Nat.not_lt_zero nb)
  | cons m msgs ih =>
      rw [msggetsizeScan] at hmore
      by_cases hid : byteAt x 0 = m.msgid % 256
      · rw [if_pos hid] at hmore
        have hfixed := h m List.mem_cons_self
        have hsz := m.sz_ok
        cases hkind : m.fixedsz with
        | fixedSize =>
            rw [hkind] at hmore
            exact Nat.lt_of_lt_of_le hmore (hfixed hkind)
        | varSize =>
            rw [hkind] at hmore hsz
            have htwo : m.sz ≤ 2 := by
              dsimp only at hsz
              omega
            have htail : tailLen x m.sz < 65536 :=
              leNat_two_lt (Nat.le_trans (List.length_take_le _ _) htwo)
            dsimp only at hmore
            rw [maxFrame]
            by_cases hlen : m.sz + 2 ≤ nb
            · rw [if_pos hlen] at hmore
              omega
            · omega
      · rw [if_neg hid] at hmore
        exact ih (fun d hd => h d (List.mem_cons_of_mem m hd)) hmore

/-- Bytes without a complete message are fewer than those of the longest one. -/
theorem quiet_bounded
    {msgs : List (MsgInfo σ)} {x : List UInt8} (h : Bounded msgs) (hq : Quiet (sizer msgs) x) :
    x.length < maxFrame := by
  rcases hq with rfl | hlt
  · decide
  · rw [sizer, msggetsize] at hlt
    split_ifs at hlt with htwo
    · simp only [maxFrame]
      omega
    · exact absurd hlt (Nat.not_lt_zero _)
    · exact scan_bounded h hlt

theorem bounded_comm (ci : Ptr) : Bounded (msginfoComm ci) := by
  simp [Bounded, msginfoComm, fixedMsg, varMsg, maxFrame]

theorem bounded_multi (ci : Ptr) : Bounded (msginfoMulti ci) := by
  simp [Bounded, msginfoMulti, fixedMsg, varMsg, maxFrame]

theorem bounded_node (nl : Ptr) : Bounded (msginfoNode nl) := by
  simp [Bounded, msginfoNode, fixedMsg, varMsg, maxFrame]

/-! ### The size of the buffer -/

/-- There is room for another byte, and the buffer has grown in steps up to a bound. -/
structure Ready (s : ReadBuffer) : Prop where
  room : s.pos < s.buf.length
  steps : defaultBufSize ∣ s.buf.length
  bound : s.buf.length ≤ 69632

theorem Ready.fresh : Ready fresh := by
  have hlen : ReadBuffer.fresh.buf.length = defaultBufSize := List.length_replicate
  refine ⟨?_, ⟨1, hlen⟩, ?_⟩
  · rw [hlen]
    exact Nat.zero_lt_succ _
  · rw [hlen]
    decide

variable {s t : ReadBuffer}

/-- What `PICA_processdatastream` leaves in the buffer is shorter than a message. -/
theorem leftover_bounded
    {msgs : List (MsgInfo σ)} {arg : σ} {got : List UInt8} {r : StreamResult σ}
    (hmsgs : Bounded msgs) (hgot : s.pos + got.length ≤ s.buf.length)
    (hr : r = processdatastream msgs (s.pos + got.length) (writeAt s.buf s.pos got)
      (s.pos + got.length) arg)
    (hok : r.ret ≠ 0) :
    r.readPos < maxFrame ∧ r.readPos ≤ r.buf.length ∧ r.buf.length = s.buf.length := by
  have hlen := @length_writeAt _ s.buf got s.pos
  have href := processdatastream_refines msgs (s.pos + got.length) (writeAt s.buf s.pos got)
    (s.pos + got.length) arg (Nat.le_refl _) (by omega)
  rw [← hr, hlen] at href
  have hret := href.ret
  split_ifs at hret with hdrain
  · have hquiet := quiet_bounded hmsgs (drain_rest_quiet _ _ hdrain)
    rw [← href.rest, List.length_take, Nat.min_eq_left href.pos] at hquiet
    exact ⟨hquiet, href.pos, href.length⟩
  · exact absurd hret hok

/-- A full buffer is a multiple of the step below the bound of a message. -/
theorem grown_ready
    {mem : Bool} (hfull : s.buf.length = s.pos) (hsteps : defaultBufSize ∣ s.buf.length)
    (hleft : s.pos < maxFrame) (hgrow : rbufGrow mem s = some t) :
    t.Ready := by
  obtain ⟨k, hk⟩ := hsteps
  rw [rbufGrow] at hgrow
  split_ifs at hgrow
  cases hgrow
  have hlong : (s.buf ++ List.replicate defaultBufSize (0 : UInt8)).length =
      s.buf.length + defaultBufSize := by
    rw [List.length_append, List.length_replicate]
  simp only [maxFrame, defaultBufSize] at hleft hk hlong
  refine ⟨?_, ?_, ?_⟩ <;> dsimp only <;> rw [defaultBufSize, hlong]
  · omega
  · omega
  · omega

/-- A read that keeps the connection. -/
theorem Ready.read
    {msgs : List (MsgInfo σ)} {arg arg' : σ} {mem : Bool} {r : SslRead}
    (hmsgs : Bounded msgs) (h : s.Ready) (hread : s.read msgs arg mem r = some (t, arg')) :
    t.Ready := by
  cases r with
  | data bytes =>
      have hgot : s.pos + (bytes.take (usub s.buf.length s.pos)).length ≤ s.buf.length := by
        have hroom := h.room
        rw [usub_eq (by omega), List.length_take]
        omega
      rw [ReadBuffer.read] at hread
      dsimp only at hread
      generalize hr : processdatastream msgs _ _ _ arg = r at hread
      split_ifs at hread with hnone hret hfull
      · obtain ⟨hleft, hpos, hlen⟩ := leftover_bounded hmsgs hgot hr.symm hret
        obtain ⟨u, hu, heq⟩ := Option.map_eq_some_iff.mp hread
        cases heq
        exact grown_ready hfull (hlen ▸ h.steps) hleft hu
      · obtain ⟨-, hpos, hlen⟩ := leftover_bounded hmsgs hgot hr.symm hret
        cases hread
        exact ⟨Nat.lt_of_le_of_ne hpos (Ne.symm hfull), hlen ▸ h.steps, hlen ▸ h.bound⟩
  | retry =>
      cases hread
      exact h
  | closed => cases hread
  | error => cases hread

/-! ### Connections -/

/-- A call of the function that reads, with the node as it is then; `secondary` tells
whether the state of a client is `PICA_CLSTATE_MULTILOGIN_SECONDARY`. -/
structure Read where
  node : Except Fault Node
  secondary : Bool
  mem : Bool
  result : SslRead

/-- The connection that a buffer belongs to. -/
inductive Peer
  | client (ci : Ptr)
  | nodelink (nl : Ptr)

def step (peer : Peer) (s : ReadBuffer) (e : Read) : Option ReadBuffer :=
  match peer with
  | .client ci => (s.processC2nRead ci e.secondary e.node e.mem e.result).map Prod.fst
  | .nodelink nl => (s.processN2nRead nl e.node e.mem e.result).map Prod.fst

theorem Ready.step
    {peer : Peer} {e : Read} (h : s.Ready) (hstep : s.step peer e = some t) : t.Ready := by
  cases peer with
  | client ci =>
      obtain ⟨r, hr, rfl⟩ := Option.map_eq_some_iff.mp hstep
      rw [processC2nRead] at hr
      split_ifs at hr
      · exact h.read (bounded_multi ci) hr
      · exact h.read (bounded_comm ci) hr
  | nodelink nl =>
      obtain ⟨r, hr, rfl⟩ := Option.map_eq_some_iff.mp hstep
      exact h.read (bounded_node nl) hr

/-- **Read buffers.**  After every read that keeps the connection there is room for
another byte, and the size of the buffer is a multiple of 4096 up to 69632. -/
theorem read_buffer_bounded
    {peer : Peer} {es : List Read} (hrun : run (step peer) fresh es = some s) :
    s.pos < s.buf.length ∧ 4096 ∣ s.buf.length ∧ s.buf.length ≤ 69632 := by
  have h : s.Ready := run_invariant (fun _ _ _ h _ => h.step) Ready.fresh meets_true hrun
  exact ⟨h.room, h.steps, h.bound⟩

/-- A message that fills the buffer and is not complete makes it grow. -/
def fullBuffer : List Read :=
  [⟨.error .stuck, false, true,
    .data (head Proto.MULTILOGIN ++ le16 65535 ++ List.replicate 4092 0)⟩]

theorem read_buffer_bounded_full :
    ∃ s, run (step (.client 1)) fresh fullBuffer = some s ∧ s.pos < s.buf.length ∧
      s.buf.length = 8192 := by
  have hlen : (run (step (.client 1)) fresh fullBuffer).map (fun s => s.buf.length) =
      some 8192 := by
    decide +kernel
  obtain ⟨s, hs, hbuf⟩ := Option.map_eq_some_iff.mp hlen
  exact ⟨s, hs, (read_buffer_bounded hs).1, hbuf⟩

end ReadBuffer

end PicaPica
