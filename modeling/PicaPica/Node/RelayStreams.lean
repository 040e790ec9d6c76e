import PicaPica.Node.Relay

/-!
# Both byte streams of a relay

Runs of `process_c2c_read`, `process_c2c_write` and `procmsg_N2NMSG` on one link,
with the bytes that entered and left each direction.  As long as every write
finds pending bytes only where it can send them (`WriteClean`), what entered a
direction is what left it followed by what its buffer holds.
-/

namespace PicaPica

open Area Machine

namespace CCLink

variable (cc : CCLink) (d e : Dir) (b : RelayBuf)

@[simp] theorem relay_setRelay_self : (cc.setRelay d b).relay d = b := by
  cases d <;> rfl

theorem relay_setRelay_of_ne (h : e ≠ d) : (cc.setRelay d b).relay e = cc.relay e := by
  cases d <;> cases e <;> first | rfl | exact absurd rfl h

@[simp] theorem relay_armRead : (cc.armRead d).relay e = cc.relay e := by
  cases d <;> cases e <;> rfl

@[simp] theorem relay_disarmRead : (cc.disarmRead d).relay e = cc.relay e := by
  cases d <;> cases e <;> rfl

@[simp] theorem relay_armWrite : (cc.armWrite d).relay e = cc.relay e := by
  cases d <;> cases e <;> rfl

/-- The parts of a link that relaying never touches. -/
structure SameEnds (a b : CCLink) : Prop where
  state : b.state = a.state
  sckP1 : b.sckP1 = a.sckP1
  sckP2 : b.sckP2 = a.sckP2

namespace SameEnds

variable {a b c : CCLink}

theorem refl (a : CCLink) : SameEnds a a := ⟨rfl, rfl, rfl⟩

theorem trans (h : SameEnds a b) (k : SameEnds b c) : SameEnds a c :=
  ⟨k.state.trans h.state, k.sckP1.trans h.sckP1, k.sckP2.trans h.sckP2⟩

theorem dstSck (h : SameEnds a b) (d : Dir) : b.dstSck d = a.dstSck d := by
  cases d
  · exact h.sckP2
  · exact h.sckP1

end SameEnds

theorem sameEnds_setRelay : SameEnds cc (cc.setRelay d b) := by
  cases d <;> exact ⟨rfl, rfl, rfl⟩

theorem sameEnds_armRead : SameEnds cc (cc.armRead d) := by
  cases d <;> exact ⟨rfl, rfl, rfl⟩

theorem sameEnds_disarmRead : SameEnds cc (cc.disarmRead d) := by
  cases d <;> exact ⟨rfl, rfl, rfl⟩

theorem sameEnds_armWrite : SameEnds cc (cc.armWrite d) := by
  cases d <;> exact ⟨rfl, rfl, rfl⟩

end CCLink

/-- A buffer whose position and length are meaningful. -/
structure RelayBuf.Wf (b : RelayBuf) : Prop where
  pos_le : b.bufpos ≤ b.buflen
  length : b.buf.length = b.buflen
  small : b.buflen ≤ defaultBufSize

/-- The direction has given away exactly the bytes `xs`. -/
structure RelayBuf.Gave (b b' : RelayBuf) (xs : List UInt8) : Prop where
  content : b.content = xs ++ b'.content
  wf : b'.Wf
  buflen : b'.buflen = b.buflen
  kept : xs = [] → b'.buf = b.buf ∧ b'.bufpos = b.bufpos

namespace RelayBuf

variable {b : RelayBuf}

theorem Gave.refl (h : b.Wf) : b.Gave b [] :=
  ⟨rfl, h, rfl, fun _ => ⟨rfl, rfl⟩⟩

/-- Removing bytes that are there removes them from the front. -/
theorem consume_gave (h : b.Wf) {n : Nat} (hpos : 0 < n) (hn : n ≤ b.bufpos) :
    b.Gave (b.consume n) (b.buf.take n) := by
  have hle := h.pos_le
  have hlen := h.length
  have hsmall := h.small
  have hbufpos : (b.consume n).bufpos = b.bufpos - n := usub_eq hn
  have hmem : (b.consume n).buf.length = b.buf.length := by
    simp only [consume]
    split_ifs
    · exact length_moveDown
    · rfl
  have hcontent : (b.consume n).content = b.content.drop n := by
    rw [content, content, hbufpos]
    by_cases hlt : n < b.bufpos
    · rw [consume, if_pos hlt, take_moveDown (by omega)]
      congr 2
      omega
    · have heq : b.bufpos - n = 0 := by omega
      rw [heq, List.take_zero, List.drop_eq_nil_of_le]
      simp only [List.length_take]
      omega
  refine ⟨?_, ⟨?_, ?_, hsmall⟩, rfl, ?_⟩
  · have htake : b.buf.take n = b.content.take n := by
      rw [content, List.take_take, Nat.min_eq_left hn]
    rw [hcontent, htake, List.take_append_drop]
  · rw [hbufpos]
    exact Nat.le_trans (Nat.sub_le _ _) hle
  · rw [hmem]
    exact hlen
  · intro hnil
    have := congrArg List.length hnil
    simp only [List.length_take, List.length_nil] at this
    omega

/-- Appending bytes that fit. -/
theorem append_wf (h : b.Wf) {xs : List UInt8} (hfit : b.bufpos + xs.length ≤ b.buflen) :
    (b.append xs).Wf ∧ (b.append xs).content = b.content ++ xs ∧
      (b.append xs).bufpos = b.bufpos + xs.length := by
  have hlen := h.length
  have hsmall := h.small
  have hbufpos : (b.append xs).bufpos = b.bufpos + xs.length :=
    uadd_eq (by simp only [defaultBufSize, uintMod] at *; omega)
  refine ⟨⟨?_, ?_, hsmall⟩, ?_, hbufpos⟩
  · rw [hbufpos]
    exact hfit
  · exact length_writeAt.trans hlen
  · rw [content, hbufpos]
    exact take_writeAt xs (by omega)

theorem room_eq (h : b.Wf) : b.room = b.buflen - b.bufpos :=
  usub_eq h.pos_le

end RelayBuf

/-- The direction has no bytes, or the call can send them: they go to another
node, or the call is for the socket they go to. -/
def DirClean (cc : CCLink) (d : Dir) (s : Socket) : Prop :=
  (cc.relay d).bufpos ≠ 0 → cc.state = remoteState d ∨ s = cc.dstSck d

/-- A call `process_c2c_write(s)` assigns `ret` wherever it uses it. -/
def WriteClean (cc : CCLink) (s : Socket) : Prop :=
  DirClean cc .p1p2 s ∧ DirClean cc .p2p1 s

instance (cc : CCLink) (d : Dir) (s : Socket) : Decidable (DirClean cc d s) :=
  inferInstanceAs (Decidable (_ → _))

instance (cc : CCLink) (s : Socket) : Decidable (WriteClean cc s) :=
  inferInstanceAs (Decidable (_ ∧ _))

/-- What the block of one direction does: its bytes leave from the front of its
buffer and the other direction is untouched. -/
structure WroteDir (d : Dir) (w w' : C2cWrite) : Prop where
  ends : CCLink.SameEnds w.cc w'.cc
  gave : ∃ xs, w'.out d = w.out d ++ xs ∧ (w.cc.relay d).Gave (w'.cc.relay d) xs
  other : ∀ e, e ≠ d → w'.cc.relay e = w.cc.relay e ∧ w'.out e = w.out e

section WriteDir

variable {d : Dir} {s : Socket} {o : SendOutcome} {mem : Bool} {w : C2cWrite}

theorem out_emit_self (xs : List UInt8) : (w.emit d xs).out d = w.out d ++ xs := by
  cases d <;> rfl

theorem out_emit_of_ne {e : Dir} (h : e ≠ d) (xs : List UInt8) :
    (w.emit d xs).out e = w.out e := by
  cases d <;> cases e <;> first | rfl | exact absurd rfl h

@[simp] theorem cc_emit (xs : List UInt8) : (w.emit d xs).cc = w.cc := by
  cases d <;> rfl

@[simp] theorem out_withRet (w : C2cWrite) (r : Int) (p : List (Option Ptr × Frame)) (e : Dir) :
    ({ w with ret := r, pushed := p } : C2cWrite).out e = w.out e := by
  cases e <;> rfl

@[simp] theorem out_withCc (w : C2cWrite) (c : CCLink) (e : Dir) :
    ({ w with cc := c } : C2cWrite).out e = w.out e := by
  cases e <;> rfl

/-- The attempt changes nothing in the link, and when it can send, `ret` is the
number of bytes that left, taken from the front. -/
theorem attemptDir_spec
    (hclean : w.cc.state = remoteState d ∨ s = w.cc.dstSck d) :
    (attemptDir d s o mem w).cc = w.cc ∧
      (∀ e, e ≠ d → (attemptDir d s o mem w).out e = w.out e) ∧
      (attemptDir d s o mem w).ret.toNat ≤ (w.cc.relay d).bufpos ∧
      (attemptDir d s o mem w).out d = w.out d ++
        (w.cc.relay d).buf.take (attemptDir d s o mem w).ret.toNat := by
  by_cases hremote : w.cc.state = remoteState d
  · cases mem with
    | true =>
        have he : attemptDir d s o true w =
            { w.emit d ((w.cc.relay d).buf.take
                (min (w.cc.relay d).bufpos Proto.N2NMSG_MAXDATASIZE)) with
              ret := (min (w.cc.relay d).bufpos Proto.N2NMSG_MAXDATASIZE : Nat)
              pushed := w.pushed ++ [(w.cc.dstNode d,
                n2nmsg (w.cc.senderId d) (w.cc.receiverId d)
                  ((w.cc.relay d).buf.take
                    (min (w.cc.relay d).bufpos Proto.N2NMSG_MAXDATASIZE)))] } := by
          simp [attemptDir, hremote]
        rw [he]
        refine ⟨cc_emit _, ?_, ?_, ?_⟩
        · intro e hne
          exact (out_withRet _ _ _ e).trans (out_emit_of_ne hne _)
        · simp only [Int.toNat_natCast]
          exact Nat.min_le_left _ _
        · simp only [Int.toNat_natCast]
          exact (out_withRet _ _ _ d).trans (out_emit_self _)
    | false =>
        have he : attemptDir d s o false w = { w with ret := 0 } := by
          simp [attemptDir, hremote]
        rw [he]
        refine ⟨rfl, ?_, by simp, ?_⟩
        · intro e _
          exact out_withRet w 0 w.pushed e
        · simp
  · have hs : s = w.cc.dstSck d := hclean.resolve_left hremote
    have he : attemptDir d s o mem w =
        { w.emit d ((w.cc.relay d).buf.take (o.ret (w.cc.relay d).bufpos).toNat) with
          ret := o.ret (w.cc.relay d).bufpos } := by
      simp [attemptDir, hremote, hs]
    rw [he]
    refine ⟨cc_emit _, ?_, ?_, ?_⟩
    · intro e hne
      exact (out_withRet _ _ _ e).trans (out_emit_of_ne hne _)
    · simp only [SendOutcome.ret]
      cases o.taken with
      | none => simp
      | some n =>
          simp only [Int.toNat_natCast]
          exact Nat.min_le_right _ _
    · exact (out_withRet _ _ _ d).trans (out_emit_self _)

/-- The bytes that left are removed from the buffer, and nothing else is. -/
theorem settleSent_spec
    (hwf : (w.cc.relay d).Wf) (hn : w.ret.toNat ≤ (w.cc.relay d).bufpos) :
    CCLink.SameEnds w.cc (settleSent d w).cc ∧
      (∀ e, (settleSent d w).out e = w.out e) ∧
      (∀ e, e ≠ d → (settleSent d w).cc.relay e = w.cc.relay e) ∧
      (w.cc.relay d).Gave ((settleSent d w).cc.relay d)
        ((w.cc.relay d).buf.take w.ret.toNat) := by
  by_cases hpos : 0 < w.ret
  · have hgave := RelayBuf.consume_gave hwf (by omega) hn
    refine ⟨?_, ?_, ?_, ?_⟩
    · simp only [settleSent, if_pos hpos]
      split_ifs
      · exact (CCLink.sameEnds_setRelay _ _ _).trans (CCLink.sameEnds_armRead _ _)
      · exact CCLink.sameEnds_setRelay _ _ _
    · intro e
      simp only [settleSent, if_pos hpos, out_withCc]
    · intro e hne
      simp only [settleSent, if_pos hpos]
      split_ifs
      · rw [CCLink.relay_armRead, CCLink.relay_setRelay_of_ne _ _ _ _ hne]
      · exact CCLink.relay_setRelay_of_ne _ _ _ _ hne
    · simp only [settleSent, if_pos hpos]
      split_ifs
      · rw [CCLink.relay_armRead, CCLink.relay_setRelay_self]
        exact hgave
      · rw [CCLink.relay_setRelay_self]
        exact hgave
  · have h0 : w.ret.toNat = 0 := by omega
    simp only [settleSent, if_neg hpos, h0, List.take_zero]
    exact ⟨CCLink.SameEnds.refl _, fun _ => trivial, fun _ _ => trivial,
      RelayBuf.Gave.refl hwf⟩

/-- Errors change flags only. -/
theorem settleError_spec :
    CCLink.SameEnds w.cc (settleError d o w).cc ∧
      (∀ e, (settleError d o w).out e = w.out e) ∧
      (∀ e, e ≠ d → (settleError d o w).cc.relay e = w.cc.relay e) ∧
      ((settleError d o w).cc.relay d).buf = (w.cc.relay d).buf ∧
      ((settleError d o w).cc.relay d).bufpos = (w.cc.relay d).bufpos ∧
      ((settleError d o w).cc.relay d).buflen = (w.cc.relay d).buflen := by
  have hsame : ∀ w' : C2cWrite, w'.cc = w.cc → w'.out12 = w.out12 →
      w'.out21 = w.out21 →
      CCLink.SameEnds w.cc w'.cc ∧ (∀ e, w'.out e = w.out e) ∧
        (∀ e, e ≠ d → w'.cc.relay e = w.cc.relay e) ∧
        (w'.cc.relay d).buf = (w.cc.relay d).buf ∧
        (w'.cc.relay d).bufpos = (w.cc.relay d).bufpos ∧
        (w'.cc.relay d).buflen = (w.cc.relay d).buflen := by
    intro w' hcc h12 h21
    rw [hcc]
    refine ⟨CCLink.SameEnds.refl _, ?_, fun _ _ => rfl, rfl, rfl, rfl⟩
    intro e
    cases e
    · exact h12
    · exact h21
  simp only [settleError]
  split_ifs with h0 h1 h2
  · exact hsame _ rfl rfl rfl
  · refine ⟨CCLink.sameEnds_setRelay _ _ _, ?_, ?_, ?_, ?_, ?_⟩
    · intro e
      cases e <;> rfl
    · intro e hne
      exact CCLink.relay_setRelay_of_ne _ _ _ _ hne
    · rw [CCLink.relay_setRelay_self]
    · rw [CCLink.relay_setRelay_self]
    · rw [CCLink.relay_setRelay_self]
  · exact hsame _ rfl rfl rfl
  · exact hsame _ rfl rfl rfl

/-- **One direction.**  When the direction can send, its block removes from the
front of its buffer exactly the bytes that left. -/
theorem writeDir_spec
    (hwf : (w.cc.relay d).Wf) (hclean : DirClean w.cc d s) :
    WroteDir d w (writeDir d s o mem w) := by
  by_cases hpos : (w.cc.relay d).bufpos = 0
  · rw [writeDir, if_pos hpos]
    exact ⟨CCLink.SameEnds.refl _, ⟨[], by simp, RelayBuf.Gave.refl hwf⟩,
      fun _ _ => ⟨rfl, rfl⟩⟩
  obtain ⟨hcc, hother, hret, hout⟩ :=
    @attemptDir_spec d s o mem w (hclean hpos)
  have hwf' : ((attemptDir d s o mem w).cc.relay d).Wf := by rw [hcc]; exact hwf
  obtain ⟨hends, hsout, hsother, hgave⟩ :=
    settleSent_spec hwf' (by rw [hcc]; exact hret)
  obtain ⟨heends, heout, heother, hbuf, hbufpos, hbuflen⟩ :=
    @settleError_spec d o (settleSent d (attemptDir d s o mem w))
  rw [hcc] at hends hsother hgave
  generalize hw : settleError d o (settleSent d (attemptDir d s o mem w)) = w'
    at heends heout heother hbuf hbufpos hbuflen
  have hgave' : (w.cc.relay d).Gave (w'.cc.relay d)
      ((w.cc.relay d).buf.take (attemptDir d s o mem w).ret.toNat) := by
    refine ⟨?_, ⟨?_, ?_, ?_⟩, ?_, ?_⟩
    · rw [hgave.content, RelayBuf.content, RelayBuf.content, hbuf, hbufpos]
    · rw [hbufpos, hbuflen]
      exact hgave.wf.pos_le
    · rw [hbuf, hbuflen]
      exact hgave.wf.length
    · rw [hbuflen]
      exact hgave.wf.small
    · rw [hbuflen]
      exact hgave.buflen
    · intro hnil
      rw [hbuf, hbufpos]
      exact hgave.kept hnil
  have hwrote : WroteDir d w w' := by
    refine ⟨hends.trans heends, ⟨_, ?_, hgave'⟩, ?_⟩
    · rw [heout, hsout, hout]
    · intro e hne
      exact ⟨(heother e hne).trans (hsother e hne),
        (heout e).trans ((hsout e).trans (hother e hne))⟩
  rw [writeDir, if_neg hpos]
  simp only [hw]
  split_ifs
  · refine ⟨hwrote.ends.trans (CCLink.sameEnds_armWrite _ _), ?_, ?_⟩
    · simpa using hwrote.gave
    · intro e hne
      simpa using hwrote.other e hne
  · exact hwrote

end WriteDir

/-- What one call does to a direction: `inp` enters, `out` leaves. -/
structure RelayBuf.Relayed (b b' : RelayBuf) (inp out : List UInt8) : Prop where
  conserved : b.content ++ inp = out ++ b'.content
  wf : b'.Wf
  kept : inp = [] → out = [] → b'.buf = b.buf ∧ b'.bufpos = b.bufpos

namespace RelayBuf

variable {b b' b'' : RelayBuf}

theorem Relayed.refl (h : b.Wf) : b.Relayed b [] [] :=
  ⟨by simp, h, fun _ _ => ⟨rfl, rfl⟩⟩

theorem Gave.relayed {xs : List UInt8} (h : b.Gave b' xs) : b.Relayed b' [] xs :=
  ⟨by rw [List.append_nil, h.content], h.wf, fun _ hnil => h.kept hnil⟩

theorem Relayed.trans {i j o p : List UInt8}
    (h : b.Relayed b' i o) (k : b'.Relayed b'' j p) :
    b.Relayed b'' (i ++ j) (o ++ p) := by
  refine ⟨?_, k.wf, ?_⟩
  · rw [← List.append_assoc, h.conserved, List.append_assoc, k.conserved,
      List.append_assoc]
  · intro hi ho
    obtain ⟨rfl, rfl⟩ := List.append_eq_nil_iff.mp hi
    obtain ⟨rfl, rfl⟩ := List.append_eq_nil_iff.mp ho
    obtain ⟨hb, hp⟩ := h.kept rfl rfl
    obtain ⟨kb, kp⟩ := k.kept rfl rfl
    exact ⟨kb.trans hb, kp.trans hp⟩

theorem relayed_append (h : b.Wf) {xs : List UInt8} (hfit : b.bufpos + xs.length ≤ b.buflen)
    (jam : Bool) :
    b.Relayed { b.append xs with jam := jam } xs [] := by
  obtain ⟨hwf, hcontent, hbufpos⟩ := append_wf h hfit
  refine ⟨hcontent.symm, ⟨hwf.pos_le, hwf.length, hwf.small⟩, ?_⟩
  rintro rfl -
  refine ⟨?_, hbufpos⟩
  simp [append, writeAt, overwrite]

end RelayBuf

/-- Both buffers of the link are meaningful. -/
def CCLink.BufsWf (cc : CCLink) : Prop :=
  ∀ d, (cc.relay d).Wf

/-- **`process_c2c_write`.** -/
theorem processC2cWrite_spec
    {cc : CCLink} {s : Socket} (env : WriteEnv)
    (hwf : cc.BufsWf) (hclean : WriteClean cc s) :
    CCLink.SameEnds cc (processC2cWrite s env cc).cc ∧
      ∀ d, (cc.relay d).Relayed ((processC2cWrite s env cc).cc.relay d) []
        ((processC2cWrite s env cc).out d) := by
  have h1 := @writeDir_spec .p1p2 s env.send12 env.mem12
    ⟨cc, env.ret0, false, [], [], []⟩ (hwf .p1p2) hclean.1
  rw [processC2cWrite]
  generalize writeDir .p1p2 s env.send12 env.mem12
    ⟨cc, env.ret0, false, [], [], []⟩ = w1 at h1
  obtain ⟨hends, ⟨xs, hxs, hgave⟩, hother⟩ := h1
  obtain ⟨hrelay, hout⟩ := hother .p2p1 (by decide)
  have hclean2 : DirClean w1.cc .p2p1 s := by
    rw [DirClean, hrelay, hends.state, hends.dstSck]
    exact hclean.2
  have h2 := @writeDir_spec .p2p1 s env.send21 env.mem21 w1
    (by rw [hrelay]; exact hwf .p2p1) hclean2
  generalize writeDir .p2p1 s env.send21 env.mem21 w1 = w2 at h2
  obtain ⟨hends2, ⟨ys, hys, hgave2⟩, hother2⟩ := h2
  obtain ⟨hrelay2, hout2⟩ := hother2 .p1p2 (by decide)
  refine ⟨hends.trans hends2, ?_⟩
  intro d
  cases d with
  | p1p2 =>
      rw [hrelay2, hout2, hxs]
      exact hgave.relayed
  | p2p1 =>
      rw [hys, hout]
      rw [hrelay] at hgave2
      exact hgave2.relayed

/-- The other relay direction. -/
def Dir.other : Dir → Dir
  | .p1p2 => .p2p1
  | .p2p1 => .p1p2

theorem Dir.ne_iff {d e : Dir} : e ≠ d ↔ e = d.other := by
  cases d <;> cases e <;> decide

/-- Reading from a client whose peer is remote calls `process_c2c_write(-1)`,
which can send nothing to a socket: nothing waits for the client itself. -/
def ReadClean (cc : CCLink) (d : Dir) (s : Socket) : Prop :=
  cc.state = remoteState d → cc.srcSck d = s → (cc.relay d.other).bufpos = 0

instance (cc : CCLink) (d : Dir) (s : Socket) : Decidable (ReadClean cc d s) :=
  inferInstanceAs (Decidable (_ → _ → _))

section ReadDir

variable {d : Dir} {s : Socket} {data : List UInt8} {env : WriteEnv} {cc cc' : CCLink}

theorem fillDir_spec
    (hwf : cc.BufsWf) {xs : List UInt8}
    (hfit : (cc.relay d).bufpos + xs.length ≤ (cc.relay d).buflen) :
    CCLink.SameEnds cc (fillDir d xs cc) ∧
      (cc.relay d).Relayed ((fillDir d xs cc).relay d) xs [] ∧
      (fillDir d xs cc).relay d.other = cc.relay d.other := by
  have hne' : d.other ≠ d := Dir.ne_iff.mpr rfl
  simp only [fillDir]
  split_ifs
  · refine ⟨(CCLink.sameEnds_setRelay _ _ _).trans (CCLink.sameEnds_disarmRead _ _), ?_, ?_⟩
    · rw [CCLink.relay_disarmRead, CCLink.relay_setRelay_self]
      exact RelayBuf.relayed_append (hwf d) hfit true
    · rw [CCLink.relay_disarmRead, CCLink.relay_setRelay_of_ne _ _ _ _ hne']
  · refine ⟨CCLink.sameEnds_setRelay _ _ _, ?_, CCLink.relay_setRelay_of_ne _ _ _ _ hne'⟩
    rw [CCLink.relay_setRelay_self]
    exact RelayBuf.relayed_append (hwf d) hfit ((cc.relay d).append xs).jam

/-- **One direction of `process_c2c_read`.** -/
theorem readDir_spec
    (hwf : cc.BufsWf) (hclean : ReadClean cc d s)
    (hcc : (readDir d s data env cc).cc = some cc') :
    CCLink.SameEnds cc cc' ∧
      ∀ e, (cc.relay e).Relayed (cc'.relay e) ((readDir d s data env cc).inp e)
        ((readDir d s data env cc).out e) := by
  by_cases hread : (cc.state = .localActive ∨ cc.state = remoteState d) ∧
      cc.srcSck d = s ∧ !(cc.relay d).jam
  swap
  · rw [readDir, if_neg hread] at hcc ⊢
    obtain rfl : cc = cc' := by simpa [C2cRead.idle] using hcc
    refine ⟨CCLink.SameEnds.refl _, ?_⟩
    intro e
    cases e <;> exact RelayBuf.Relayed.refl (hwf _)
  rw [readDir, if_pos hread] at hcc ⊢
  obtain ⟨hstate, hs, -⟩ := hread
  have hfit : (cc.relay d).bufpos + (data.take (cc.relay d).room).length ≤
      (cc.relay d).buflen := by
    have := (hwf d).pos_le
    rw [RelayBuf.room_eq (hwf d), List.length_take]
    omega
  generalize hxs : data.take (cc.relay d).room = xs at *
  simp only at hcc ⊢
  by_cases hnil : xs = []
  · simp [hnil] at hcc
  obtain ⟨hends, hfilled, hother⟩ := fillDir_spec hwf hfit
  have hin : ∀ e, (if e = d then xs else []) =
      C2cRead.inp ⟨none, if d = .p1p2 then xs else [], if d = .p2p1 then xs else [],
        [], [], []⟩ e := by
    intro e
    cases e <;> cases d <;> rfl
  have hfill : ∀ e, (cc.relay e).Relayed ((fillDir d xs cc).relay e)
      (if e = d then xs else []) [] := by
    intro e
    by_cases he : e = d
    · subst he
      simpa using hfilled
    · rw [if_neg he]
      obtain rfl := Dir.ne_iff.mp he
      rw [hother]
      exact RelayBuf.Relayed.refl (hwf _)
  by_cases hlocal : cc.state = .localActive
  · simp only [hnil, hlocal, if_false, if_true, Option.some.injEq] at hcc ⊢
    subst hcc
    refine ⟨hends.trans (CCLink.sameEnds_armWrite _ _), ?_⟩
    intro e
    have := hfill e
    rw [hin] at this
    cases e <;> simpa [C2cRead.inp, C2cRead.out] using this
  · simp only [hnil, hlocal, if_false] at hcc ⊢
    have hremote := hstate.resolve_left hlocal
    have hwclean : WriteClean (fillDir d xs cc) (-1) := by
      have hempty := hclean hremote hs
      have hd : DirClean (fillDir d xs cc) d (-1) := fun _ =>
        Or.inl (hends.state.trans hremote)
      have ho : DirClean (fillDir d xs cc) d.other (-1) := fun hpos =>
        absurd (hother ▸ hempty) hpos
      cases d
      · exact ⟨hd, ho⟩
      · exact ⟨ho, hd⟩
    obtain ⟨hwends, hwrote⟩ :=
      processC2cWrite_spec env (fun e => (hfill e).wf) hwclean
    generalize processC2cWrite (-1) env (fillDir d xs cc) = w at *
    by_cases hkill : w.kill
    · simp [hkill] at hcc
    simp only [hkill, Bool.false_eq_true, if_false, Option.some.injEq] at hcc ⊢
    subst hcc
    refine ⟨hends.trans hwends, ?_⟩
    intro e
    have := (hfill e).trans (hwrote e)
    rw [hin] at this
    cases e <;> simpa [C2cRead.inp, C2cRead.out, C2cWrite.out] using this

end ReadDir

theorem readDir_idle
    {d : Dir} {s : Socket} {data : List UInt8} {env : WriteEnv} {cc : CCLink}
    (h : cc.state ≠ .localActive) (hd : cc.state ≠ remoteState d) :
    readDir d s data env cc = .idle cc := by
  rw [readDir, if_neg]
  rintro ⟨h' | h', -⟩
  · exact h h'
  · exact hd h'

/-- **`process_c2c_read`.** -/
theorem processC2cRead_spec
    {s : Socket} {data12 data21 : List UInt8} {env : WriteEnv} {cc cc' : CCLink}
    (hwf : cc.BufsWf) (hclean : ∀ d, ReadClean cc d s)
    (hcc : (processC2cRead s data12 data21 env cc).cc = some cc') :
    CCLink.SameEnds cc cc' ∧
      ∀ e, (cc.relay e).Relayed (cc'.relay e)
        ((processC2cRead s data12 data21 env cc).inp e)
        ((processC2cRead s data12 data21 env cc).out e) := by
  cases h1 : (readDir .p1p2 s data12 env cc).cc with
  | none =>
      simp only [processC2cRead, h1] at hcc
      cases hcc
  | some c1 =>
      obtain ⟨hends1, hrel1⟩ := readDir_spec hwf (hclean .p1p2) h1
      have hclean2 : ReadClean c1 .p2p1 s := by
        intro hstate hs
        -- the first block is idle on a link whose caller is remote
        have hcle : cc.state = .n2nCleActive := hends1.state.symm.trans hstate
        have hidle : readDir .p1p2 s data12 env cc = .idle cc :=
          readDir_idle (by rw [hcle]; decide) (by rw [hcle]; decide)
        obtain rfl : cc = c1 := by simpa [hidle, C2cRead.idle] using h1
        exact hclean .p2p1 hstate hs
      simp only [processC2cRead, h1] at hcc ⊢
      obtain ⟨hends2, hrel2⟩ := readDir_spec (fun e => (hrel1 e).wf) hclean2 hcc
      refine ⟨hends1.trans hends2, ?_⟩
      intro e
      have := (hrel1 e).trans (hrel2 e)
      cases e <;> exact this

/-- A relayed link with the bytes that entered and left each direction. -/
structure RelayRun where
  cc : CCLink
  inp : Dir → List UInt8
  out : Dir → List UInt8

/-- A call on the link: the event of a socket, or data from another node, which
a 16-bit length field has measured. -/
inductive RelayEvent
  | read (s : Socket) (data12 data21 : List UInt8) (env : WriteEnv)
  | write (s : Socket) (env : WriteEnv)
  | n2nmsg (data : List UInt8) (hlen : 2 * idSize + data.length < 65536)

/-- One call on the link; it has no successor when it deletes the link. -/
def relayStep (r : RelayRun) : RelayEvent → Option RelayRun
  | .read s data12 data21 env =>
      let x := processC2cRead s data12 data21 env r.cc
      x.cc.map fun cc =>
        ⟨cc, fun d => r.inp d ++ x.inp d, fun d => r.out d ++ x.out d⟩
  | .write s env =>
      let w := processC2cWrite s env r.cc
      if w.kill then none
      else some ⟨w.cc, r.inp, fun d => r.out d ++ w.out d⟩
  | .n2nmsg data _ =>
      match n2nDir r.cc.state with
      | none => some r
      | some d =>
          (relayN2nmsg d data r.cc).map fun cc =>
            ⟨cc, fun e => if e = d then r.inp e ++ data else r.inp e, r.out⟩

/-- The condition under which a call sends what it removes. -/
def RelayClean (r : RelayRun) : RelayEvent → Prop
  | .read s _ _ _ => ∀ d, ReadClean r.cc d s
  | .write s _ => WriteClean r.cc s
  | .n2nmsg _ _ => True

instance (r : RelayRun) (e : RelayEvent) : Decidable (RelayClean r e) :=
  match e with
  | .read s _ _ _ =>
      decidable_of_iff (ReadClean r.cc .p1p2 s ∧ ReadClean r.cc .p2p1 s) (by
        constructor
        · rintro ⟨h12, h21⟩ d
          cases d
          · exact h12
          · exact h21
        · intro h
          exact ⟨h .p1p2, h .p2p1⟩)
  | .write s _ => inferInstanceAs (Decidable (WriteClean r.cc s))
  | .n2nmsg _ _ => .isTrue trivial

/-- What holds of a direction after any number of calls. -/
structure Conserved (r : RelayRun) (d : Dir) : Prop where
  stream : r.inp d = r.out d ++ (r.cc.relay d).content
  wf : (r.cc.relay d).Wf

theorem Conserved.of_relayed
    {r r' : RelayRun} {d : Dir} {inp out : List UInt8} (h : Conserved r d)
    (hin : r'.inp d = r.inp d ++ inp) (hout : r'.out d = r.out d ++ out)
    (hrel : (r.cc.relay d).Relayed (r'.cc.relay d) inp out) :
    Conserved r' d := by
  refine ⟨?_, hrel.wf⟩
  rw [hin, hout, h.stream, List.append_assoc, hrel.conserved, List.append_assoc]

/-- Each direction is relayed by every call that meets the condition. -/
theorem relayStep_relayed
    {r r' : RelayRun} {e : RelayEvent}
    (hinv : ∀ d, Conserved r d) (hclean : RelayClean r e)
    (hstep : relayStep r e = some r') (d : Dir) :
    ∃ inp out, r'.inp d = r.inp d ++ inp ∧ r'.out d = r.out d ++ out ∧
      (r.cc.relay d).Relayed (r'.cc.relay d) inp out := by
  have hwf : r.cc.BufsWf := fun d => (hinv d).wf
  cases e with
  | read s data12 data21 env =>
      simp only [relayStep, Option.map_eq_some_iff] at hstep
      obtain ⟨cc', hcc, rfl⟩ := hstep
      exact ⟨_, _, rfl, rfl, (processC2cRead_spec hwf hclean hcc).2 d⟩
  | write s env =>
      simp only [relayStep] at hstep
      split_ifs at hstep with hkill
      obtain rfl := Option.some.inj hstep
      exact ⟨[], _, by simp, rfl, (processC2cWrite_spec env hwf hclean).2 d⟩
  | n2nmsg data hlen =>
      simp only [relayStep] at hstep
      cases hdir : n2nDir r.cc.state with
      | none =>
          simp only [hdir, Option.some.injEq] at hstep
          subst hstep
          exact ⟨[], [], by simp, by simp, RelayBuf.Relayed.refl (hwf d)⟩
      | some k =>
          simp only [hdir, Option.map_eq_some_iff] at hstep
          obtain ⟨cc', hcc, rfl⟩ := hstep
          simp only [relayN2nmsg] at hcc
          split_ifs at hcc with hfull
          obtain rfl := Option.some.inj hcc
          by_cases hd : d = k
          · subst hd
            have hpos := (hwf d).pos_le
            have hsmall := (hwf d).small
            -- the 16-bit length field and the fixed buffer keep the sum exact
            have hfit : uadd data.length (r.cc.relay d).bufpos =
                data.length + (r.cc.relay d).bufpos :=
              uadd_eq (by simp only [defaultBufSize, uintMod] at *; omega)
            refine ⟨data, [], by simp, by simp, ?_⟩
            rw [CCLink.relay_setRelay_self]
            exact RelayBuf.relayed_append (hwf d) (by omega) (r.cc.relay d).jam
          · refine ⟨[], [], by simp [hd], by simp, ?_⟩
            rw [CCLink.relay_setRelay_of_ne _ _ _ _ hd]
            exact RelayBuf.Relayed.refl (hwf d)

theorem relayStep_conserved
    {r r' : RelayRun} {e : RelayEvent}
    (hinv : ∀ d, Conserved r d) (hclean : RelayClean r e)
    (hstep : relayStep r e = some r') (d : Dir) :
    Conserved r' d := by
  obtain ⟨inp, out, hin, hout, hrel⟩ := relayStep_relayed hinv hclean hstep d
  exact (hinv d).of_relayed hin hout hrel

/-- A link as `cclink_activate` leaves it: active, with the empty buffers of
`cclink_allocbufs`. -/
structure Activated (cc : CCLink) : Prop where
  active : cc.state = .localActive ∨ cc.state = .n2nClrActive ∨ cc.state = .n2nCleActive
  length : ∀ d, (cc.relay d).buf.length = defaultBufSize
  buflen : ∀ d, (cc.relay d).buflen = defaultBufSize
  bufpos : ∀ d, (cc.relay d).bufpos = 0

/-- A link before any byte was relayed. -/
def RelayRun.start (cc : CCLink) : RelayRun :=
  ⟨cc, fun _ => [], fun _ => []⟩

theorem Activated.conserved
    {cc : CCLink} (h : Activated cc) (d : Dir) : Conserved (.start cc) d := by
  refine ⟨?_, ?_, ?_, ?_⟩
  · simp [RelayRun.start, RelayBuf.content, h.bufpos d]
  · simp [RelayRun.start, h.bufpos d]
  · simp [RelayRun.start, h.length d, h.buflen d]
  · simp [RelayRun.start, h.buflen d]

/-- **The relay preserves both byte streams.**  In every run from activation
whose calls all meet `RelayClean`, what entered a direction is what left it
followed by what its buffer holds; and no such call touches a direction that it
neither feeds nor drains. -/
theorem relay_preserves_streams
    {cc : CCLink} {es : List RelayEvent} {r : RelayRun}
    (hact : Activated cc)
    (hclean : Meets relayStep RelayClean (.start cc) es)
    (hrun : run relayStep (.start cc) es = some r) :
    (∀ d, r.inp d = r.out d ++ (r.cc.relay d).buf.take (r.cc.relay d).bufpos ∧
      (r.cc.relay d).bufpos ≤ (r.cc.relay d).buflen) ∧
    ∀ e r', RelayClean r e → relayStep r e = some r' →
      ∀ d, r'.inp d = r.inp d → r'.out d = r.out d →
        (r'.cc.relay d).buf = (r.cc.relay d).buf ∧
          (r'.cc.relay d).bufpos = (r.cc.relay d).bufpos := by
  have hinv : ∀ d, Conserved r d :=
    @run_invariant _ _ _ RelayClean (fun r => ∀ d, Conserved r d)
      (fun s e t h hok hst => relayStep_conserved h hok hst) _ _ _
      hact.conserved hclean hrun
  refine ⟨fun d => ⟨(hinv d).stream, (hinv d).wf.pos_le⟩, ?_⟩
  intro e r' hok hstep d hin hout
  obtain ⟨inp, out, hin', hout', hrel⟩ := relayStep_relayed hinv hok hstep d
  refine hrel.kept ?_ ?_
  · exact List.self_eq_append_right.mp (hin.symm.trans hin')
  · exact List.self_eq_append_right.mp (hout.symm.trans hout')

/-- A buffer of `cclink_allocbufs`. -/
def emptyRelayBuf : RelayBuf :=
  ⟨List.replicate defaultBufSize 0, defaultBufSize, 0, false⟩

/-- A link between the clients behind sockets 5 and 6 of one node. -/
def sampleLink : CCLink where
  ptr := 0
  state := .localActive
  tmst := 0
  p1 := some 1
  p2 := some 2
  callerId := Id.ofByte 1
  calleeId := Id.ofByte 2
  callerNode := none
  calleeNode := none
  sckP1 := 5
  sckP2 := 6
  p1p2 := emptyRelayBuf
  p2p1 := emptyRelayBuf
  evReadP1 := some true
  evReadP2 := some true
  evWriteP1 := some false
  evWriteP2 := some false

theorem sampleLink_activated : Activated sampleLink := by
  refine ⟨.inl rfl, ?_, ?_, ?_⟩ <;> rintro (_ | _) <;> simp [sampleLink, emptyRelayBuf, CCLink.relay]

/-- Sockets that take two bytes at a time. -/
def sampleEnv : WriteEnv :=
  ⟨0, ⟨some 2, 0⟩, ⟨some 2, 0⟩, true, true⟩

/-- Data in one direction only. -/
def sampleOneWay : List RelayEvent :=
  [.read 5 [1, 2, 3] [] sampleEnv, .write 6 sampleEnv]

/-- Data in both directions, then a write to one of the sockets. -/
def sampleCrossed : List RelayEvent :=
  [.read 5 [1, 2, 3] [] sampleEnv, .read 6 [] [7, 8, 9] sampleEnv, .write 6 sampleEnv]

theorem relay_preserves_streams_oneWay :
    ∃ r, run relayStep (.start sampleLink) sampleOneWay = some r ∧
      ∀ d, r.inp d = r.out d ++ (r.cc.relay d).buf.take (r.cc.relay d).bufpos := by
  have hsome : (run relayStep (.start sampleLink) sampleOneWay).isSome = true := by
    decide +kernel
  obtain ⟨r, hr⟩ := Option.isSome_iff_exists.mp hsome
  refine ⟨r, hr, fun d => ?_⟩
  exact ((relay_preserves_streams sampleLink_activated (by decide +kernel) hr).1 d).1

/-- The write to socket 6 takes two bytes of `p1p2` and, with the same `ret`,
drops two bytes of `p2p1` that were never sent. -/
theorem relay_crossed_drops_bytes :
    Activated sampleLink ∧
      ∃ r, run relayStep (.start sampleLink) sampleCrossed = some r ∧
        r.inp .p2p1 ≠
          r.out .p2p1 ++ (r.cc.relay .p2p1).buf.take (r.cc.relay .p2p1).bufpos := by
  refine ⟨sampleLink_activated, ?_⟩
  have hany : ((run relayStep (.start sampleLink) sampleCrossed).any fun r =>
      r.inp .p2p1 ≠
        r.out .p2p1 ++ (r.cc.relay .p2p1).buf.take (r.cc.relay .p2p1).bufpos) = true := by
    decide +kernel
  obtain ⟨r, hr, hne⟩ := (Option.any_eq_true _ _).mp hany
  exact ⟨r, hr, of_decide_eq_true hne⟩

end PicaPica
