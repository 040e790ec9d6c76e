import PicaPica.Node.Acts

/-!
# Relaying to another node

What the relay of a link leaves alone, and what it does to a direction whose
destination is on another node: the bytes that are read from the client leave in one
`N2NMSG` at once, so that the buffer of such a direction is empty between the calls.
-/

namespace PicaPica

open Area

/-- There is memory for the message of the direction. -/
def WriteEnv.memFor (env : WriteEnv) : Dir → Bool
  | .p1p2 => env.mem12
  | .p2p1 => env.mem21

/-- The buffer of a direction holds `xs` and nothing else. -/
structure RelayBuf.Holds (b : RelayBuf) (xs : List UInt8) : Prop where
  length : b.buf.length = defaultBufSize
  buflen : b.buflen = defaultBufSize
  bufpos : b.bufpos = xs.length
  content : b.content = xs

theorem state_of_core {l l' : CCLink} (h : l'.core = l.core) : l'.state = l.state :=
  congrArg (·.2.1) h

@[simp] theorem RelayBuf.length_consume
    {b : RelayBuf} {n : Nat} :
    (b.consume n).buf.length = b.buf.length := by
  rw [RelayBuf.consume]
  split_ifs <;> simp

@[simp] theorem RelayBuf.length_append
    {b : RelayBuf} {xs : List UInt8} :
    (b.append xs).buf.length = b.buf.length :=
  length_writeAt

section Unseen

variable {α : Type} {g : CCLink → α} {d : Dir} {s : Socket} {cc cc' : CCLink}

/-- A reading of the link that relaying does not see. -/
structure Unseen (g : CCLink → α) : Prop where
  setRelay : ∀ (cc : CCLink) (d : Dir) (b : RelayBuf),
    b.buflen = (cc.relay d).buflen → b.buf.length = (cc.relay d).buf.length →
      g (cc.setRelay d b) = g cc
  armRead : ∀ (cc : CCLink) (d : Dir), g (cc.armRead d) = g cc
  disarmRead : ∀ (cc : CCLink) (d : Dir), g (cc.disarmRead d) = g cc
  armWrite : ∀ (cc : CCLink) (d : Dir), g (cc.armWrite d) = g cc
  fired : ∀ (cc : CCLink) (s : Socket), g (cc.fired s) = g cc

theorem attemptDir_cc {o : SendOutcome} {b : Bool} {w : C2cWrite} :
    (attemptDir d s o b w).cc = w.cc := by
  simp only [attemptDir]
  split_ifs <;> simp

theorem Unseen.settleSent (hg : Unseen g) {w : C2cWrite} :
    g (settleSent d w).cc = g w.cc := by
  simp only [PicaPica.settleSent]
  split_ifs
  · rw [hg.armRead]
    exact hg.setRelay w.cc d _ rfl RelayBuf.length_consume
  · exact hg.setRelay w.cc d _ rfl RelayBuf.length_consume
  · rfl

theorem Unseen.settleError (hg : Unseen g) {o : SendOutcome} {w : C2cWrite} :
    g (settleError d o w).cc = g w.cc := by
  simp only [PicaPica.settleError]
  split_ifs
  · rfl
  · exact hg.setRelay w.cc d _ rfl rfl
  · rfl
  · rfl

theorem Unseen.writeDir (hg : Unseen g) {o : SendOutcome} {b : Bool} {w : C2cWrite} :
    g (writeDir d s o b w).cc = g w.cc := by
  have hsettle : g (PicaPica.settleError d o
      (PicaPica.settleSent d (attemptDir d s o b w))).cc = g w.cc := by
    rw [hg.settleError, hg.settleSent, attemptDir_cc]
  simp only [PicaPica.writeDir]
  split_ifs
  · rfl
  · rw [hg.armWrite, hsettle]
  · exact hsettle

theorem Unseen.processC2cWrite (hg : Unseen g) {env : WriteEnv} :
    g (processC2cWrite s env cc).cc = g cc := by
  rw [PicaPica.processC2cWrite, hg.writeDir, hg.writeDir]

theorem Unseen.fillDir (hg : Unseen g) {xs : List UInt8} : g (fillDir d xs cc) = g cc := by
  simp only [PicaPica.fillDir]
  split_ifs
  · rw [hg.disarmRead]
    exact hg.setRelay cc d _ rfl RelayBuf.length_append
  · exact hg.setRelay cc d _ rfl RelayBuf.length_append

theorem Unseen.readDir
    (hg : Unseen g) {data : List UInt8} {env : WriteEnv}
    (h : (readDir d s data env cc).cc = some cc') :
    g cc' = g cc := by
  simp only [PicaPica.readDir, apply_ite C2cRead.cc] at h
  split_ifs at h
  · simp only [Option.some.injEq] at h
    rw [← h, hg.armWrite, hg.fillDir]
  · simp only [Option.some.injEq] at h
    rw [← h, hg.processC2cWrite, hg.fillDir]
  · simp only [C2cRead.idle, Option.some.injEq] at h
    rw [← h]

theorem Unseen.processC2cRead
    (hg : Unseen g) {data₁ data₂ : List UInt8} {env : WriteEnv}
    (h : (processC2cRead s data₁ data₂ env cc).cc = some cc') :
    g cc' = g cc := by
  simp only [PicaPica.processC2cRead] at h
  cases h₁ : (PicaPica.readDir .p1p2 s data₁ env cc).cc with
  | none => simp [h₁] at h
  | some c₁ =>
      simp only [h₁] at h
      rw [hg.readDir h, hg.readDir h₁]

theorem relayN2nmsg_eq_some
    {data : List UInt8}
    (h : relayN2nmsg d data cc = some cc') :
    cc' = cc.setRelay d ((cc.relay d).append data) := by
  simp only [relayN2nmsg] at h
  split_ifs at h
  cases h
  rfl

/-- **Relaying changes nothing that it does not see.** -/
theorem Unseen.relayedBy
    (hg : Unseen g) {n₀ : Node} {e : NodeEvent}
    (h : RelayedBy n₀ e cc cc') :
    g cc' = g cc := by
  cases h with
  | read s data₁ data₂ env he hcc => exact hg.processC2cRead hcc
  | write s env he hkill hcc => rw [hcc, hg.processC2cWrite, hg.fired]
  | n2nmsg d data hdir hcc hfeeds =>
      rw [relayN2nmsg_eq_some hcc]
      exact hg.setRelay cc d _ rfl RelayBuf.length_append

theorem unseen_core : Unseen CCLink.core := by
  refine ⟨?_, ?_, ?_, ?_, fun _ _ => rfl⟩
  · intro cc d b _ _
    cases d <;> rfl
  · intro cc d
    cases d <;> rfl
  · intro cc d
    cases d <;> rfl
  · intro cc d
    cases d <;> rfl

theorem relay_fired : (cc.fired s).relay d = cc.relay d := by
  cases d <;> rfl

end Unseen

section Remote

variable {d e : Dir} {s : Socket} {cc cc' : CCLink} {o : SendOutcome} {mem : Bool} {w : C2cWrite}

theorem settleSent_other (h : e ≠ d) : (settleSent d w).cc.relay e = w.cc.relay e := by
  simp only [settleSent]
  split_ifs <;> simp [CCLink.relay_setRelay_of_ne _ _ _ _ h]

theorem settleError_other (h : e ≠ d) : (settleError d o w).cc.relay e = w.cc.relay e := by
  simp only [settleError]
  split_ifs <;> simp [CCLink.relay_setRelay_of_ne _ _ _ _ h]

/-- A block touches the buffer of its own direction only. -/
theorem writeDir_other (h : e ≠ d) : (writeDir d s o mem w).cc.relay e = w.cc.relay e := by
  have hsettle : (settleError d o (settleSent d (attemptDir d s o mem w))).cc.relay e =
      w.cc.relay e := by
    rw [settleError_other h, settleSent_other h, attemptDir_cc]
  simp only [writeDir]
  split_ifs
  · rfl
  · rw [CCLink.relay_armWrite, hsettle]
  · exact hsettle

theorem writeDir_state : (writeDir d s o mem w).cc.state = w.cc.state :=
  state_of_core unseen_core.writeDir

theorem settleSent_pushed : (settleSent d w).pushed = w.pushed := by
  simp only [settleSent]
  split_ifs <;> rfl

theorem settleError_pushed : (settleError d o w).pushed = w.pushed := by
  simp only [settleError]
  split_ifs <;> rfl

theorem settleSent_kill : (settleSent d w).kill = w.kill := by
  simp only [settleSent]
  split_ifs <;> rfl

theorem settleError_kill (h : w.kill) : (settleError d o w).kill := by
  simp only [settleError]
  split_ifs <;> first | rfl | exact h

theorem attemptDir_kill : (attemptDir d s o mem w).kill = w.kill := by
  simp only [attemptDir]
  split_ifs <;> cases d <;> rfl

/-- A link that is to be deleted stays so. -/
theorem writeDir_kill (h : w.kill) : (writeDir d s o mem w).kill := by
  have hsettle : (settleError d o (settleSent d (attemptDir d s o mem w))).kill := by
    refine settleError_kill ?_
    rwa [settleSent_kill, attemptDir_kill]
  simp only [writeDir]
  split_ifs
  · exact h
  · exact hsettle
  · exact hsettle

/-- A block whose destination is a client of this node makes no message. -/
theorem writeDir_pushed (h : w.cc.state ≠ remoteState d) :
    (writeDir d s o mem w).pushed = w.pushed := by
  have hattempt : (attemptDir d s o mem w).pushed = w.pushed := by
    simp only [attemptDir, if_neg h]
    split_ifs <;> cases d <;> rfl
  have hsettle : (settleError d o (settleSent d (attemptDir d s o mem w))).pushed = w.pushed := by
    rw [settleError_pushed, settleSent_pushed, hattempt]
  simp only [writeDir]
  split_ifs
  · rfl
  · exact hsettle
  · exact hsettle

/-- A block whose destination is on another node empties its buffer into one message,
or gives the link up. -/
theorem writeDir_remote
    {xs : List UInt8}
    (hst : w.cc.state = remoteState d) (hne : xs ≠ []) (hfit : xs.length ≤ defaultBufSize)
    (hb : (w.cc.relay d).Holds xs) :
    (mem = false → (writeDir d s o mem w).kill) ∧
    (mem = true → ((writeDir d s o mem w).cc.relay d).Idle ∧
      (writeDir d s o mem w).kill = w.kill ∧
      (writeDir d s o mem w).pushed = w.pushed ++ [(w.cc.dstNode d,
        n2nmsg (w.cc.senderId d) (w.cc.receiverId d) xs)]) := by
  have hpos : 0 < xs.length := List.length_pos_iff.mpr hne
  have hbufpos : (w.cc.relay d).bufpos ≠ 0 := by
    rw [hb.bufpos]
    omega
  have hsend : min (w.cc.relay d).bufpos Proto.N2NMSG_MAXDATASIZE = xs.length := by
    rw [hb.bufpos]
    simp only [Proto.N2NMSG_MAXDATASIZE, defaultBufSize] at hfit ⊢
    omega
  have htake : (w.cc.relay d).buf.take xs.length = xs := by
    rw [← hb.bufpos]
    exact hb.content
  constructor
  · rintro rfl
    have hattempt : attemptDir d s o false w = { w with ret := 0 } := by
      simp [attemptDir, hst]
    simp [writeDir, hbufpos, hattempt, settleSent, settleError]
  · rintro rfl
    -- the whole buffer leaves, and nothing is left to be done with an error
    have hattempt : attemptDir d s o true w = { w.emit d xs with
        ret := xs.length
        pushed := w.pushed ++ [(w.cc.dstNode d,
          n2nmsg (w.cc.senderId d) (w.cc.receiverId d) xs)] } := by
      simp only [attemptDir, if_pos hst, if_true, hsend, htake]
    generalize hw : attemptDir d s o true w = w₁ at hattempt
    have hret : w₁.ret = xs.length := by rw [hattempt]
    have hcc : w₁.cc = w.cc := by rw [hattempt, cc_emit]
    have hsent : (settleSent d w₁).cc.relay d = (w.cc.relay d).consume xs.length := by
      simp only [settleSent, hret, hcc]
      rw [if_pos (by omega)]
      split_ifs <;> simp
    have hret' : (settleSent d w₁).ret = xs.length := by
      simp only [settleSent]
      split_ifs <;> exact hret
    have herror : settleError d o (settleSent d w₁) = settleSent d w₁ := by
      rw [settleError, hret', if_neg (by omega), if_neg (by omega)]
    have hidle : ((w.cc.relay d).consume xs.length).Idle := by
      refine ⟨?_, hb.buflen, ?_, rfl⟩
      · simp [RelayBuf.consume, hb.bufpos, hb.length]
      · simp [RelayBuf.consume, hb.bufpos, usub_eq]
    have hwrite : writeDir d s o true w = settleSent d w₁ := by
      simp only [writeDir, hw, herror, hsent]
      rw [if_neg hbufpos, if_neg (by simp [hidle.2.2.1])]
    rw [hwrite, hsent, settleSent_pushed, settleSent_kill]
    refine ⟨hidle, ?_, by rw [hattempt]⟩
    rw [← hw, attemptDir_kill]

/-- A write leaves the empty buffer of a direction alone. -/
theorem processC2cWrite_idle
    {env : WriteEnv}
    (hb : (cc.relay d).Idle) :
    ((processC2cWrite s env cc).cc.relay d).Idle := by
  rw [processC2cWrite]
  cases d with
  | p1p2 =>
      have hne : Dir.p1p2 ≠ .p2p1 := by rintro ⟨⟩
      rw [writeDir_other hne, writeDir]
      simp only [hb.2.2.1, if_true]
      exact hb
  | p2p1 =>
      have hskip : ((writeDir .p1p2 s env.send12 env.mem12 ⟨cc, env.ret0, false, [], [], []⟩).cc.relay
          .p2p1) = cc.relay .p2p1 := writeDir_other (by rintro ⟨⟩)
      rw [writeDir, hskip, if_pos hb.2.2.1, hskip]
      exact hb

/-- A write makes one message of what a direction to another node holds. -/
theorem processC2cWrite_remote
    {xs : List UInt8} {env : WriteEnv}
    (hst : cc.state = remoteState d) (hne : xs ≠ []) (hfit : xs.length ≤ defaultBufSize)
    (hb : (cc.relay d).Holds xs) :
    (env.memFor d = false → (processC2cWrite s env cc).kill) ∧
    (env.memFor d = true → ((processC2cWrite s env cc).cc.relay d).Idle ∧
      (processC2cWrite s env cc).pushed =
        [(cc.dstNode d, n2nmsg (cc.senderId d) (cc.receiverId d) xs)]) := by
  rw [processC2cWrite]
  cases d with
  | p1p2 =>
      obtain ⟨hfail, hsent⟩ := @writeDir_remote .p1p2 s env.send12 env.mem12
        ⟨cc, env.ret0, false, [], [], []⟩ xs hst hne hfit hb
      refine ⟨fun hmem => writeDir_kill (hfail hmem), fun hmem => ?_⟩
      obtain ⟨hidle, -, hpushed⟩ := hsent hmem
      have hne : Dir.p1p2 ≠ .p2p1 := by rintro ⟨⟩
      rw [writeDir_other hne, writeDir_pushed, hpushed]
      · exact ⟨hidle, rfl⟩
      · rw [writeDir_state, hst]
        decide
  | p2p1 =>
      generalize hw : writeDir .p1p2 s env.send12 env.mem12 ⟨cc, env.ret0, false, [], [], []⟩ = w
      have hcore : w.cc.core = cc.core := by rw [← hw, unseen_core.writeDir]
      have hrelay : w.cc.relay .p2p1 = cc.relay .p2p1 := by
        have hne : Dir.p2p1 ≠ .p1p2 := by rintro ⟨⟩
        rw [← hw, writeDir_other hne]
      have hpushed : w.pushed = [] := by
        rw [← hw, writeDir_pushed]
        rw [hst]
        decide
      simp only [CCLink.core, Prod.mk.injEq] at hcore
      obtain ⟨-, hst', -, -, hcaller, hcallee, hnode, -⟩ := hcore
      obtain ⟨hfail, hsent⟩ := @writeDir_remote .p2p1 s env.send21 env.mem21 w xs
        (hst'.trans hst) hne hfit (hrelay ▸ hb)
      refine ⟨hfail, fun hmem => ?_⟩
      obtain ⟨hidle, -, hsent⟩ := hsent hmem
      rw [hsent, hpushed]
      simp only [CCLink.dstNode, CCLink.senderId, CCLink.receiverId, hcaller, hcallee, hnode]
      exact ⟨hidle, rfl⟩

/-- What was read is in the buffer. -/
theorem fillDir_holds
    {xs : List UInt8}
    (hb : (cc.relay d).Idle) (hfit : xs.length ≤ defaultBufSize) :
    ((fillDir d xs cc).relay d).Holds xs := by
  obtain ⟨hlen, hbuflen, hpos, -⟩ := hb
  have hbufpos : ((cc.relay d).append xs).bufpos = xs.length := by
    simp only [RelayBuf.append, hpos]
    rw [uadd_eq (by simp only [defaultBufSize, uintMod] at *; omega)]
    omega
  have hcells : ((cc.relay d).append xs).buf.length = defaultBufSize := by
    rw [RelayBuf.append, hpos]
    rw [length_writeAt, hlen]
  have hcontent : ((cc.relay d).append xs).content = xs := by
    rw [RelayBuf.content, hbufpos, RelayBuf.append, hpos]
    have := @take_writeAt _ (cc.relay d).buf 0 xs (by omega)
    simpa using this
  simp only [fillDir]
  split_ifs
  · rw [CCLink.relay_disarmRead, CCLink.relay_setRelay_self]
    exact ⟨hcells, hbuflen, hbufpos, hcontent⟩
  · rw [CCLink.relay_setRelay_self]
    exact ⟨hcells, hbuflen, hbufpos, hcontent⟩

theorem fillDir_state {xs : List UInt8} : (fillDir d xs cc).state = cc.state :=
  state_of_core unseen_core.fillDir

theorem room_idle {b : RelayBuf} (h : b.Idle) : b.room = defaultBufSize := by
  rw [RelayBuf.room, h.2.2.1, h.2.1]
  rfl

/-- Reading leaves the direction empty again. -/
theorem readDir_remote_idle
    {data : List UInt8} {env : WriteEnv}
    (hst : cc.state = remoteState d) (hb : (cc.relay d).Idle)
    (hcc : (readDir d s data env cc).cc = some cc') :
    (cc'.relay d).Idle := by
  have hlocal : cc.state ≠ .localActive := by
    rw [hst]
    cases d <;> decide
  simp only [readDir, if_neg hlocal, apply_ite C2cRead.cc] at hcc
  split_ifs at hcc with hread hnil hkill
  · have hfit : (data.take (cc.relay d).room).length ≤ defaultBufSize := by
      rw [room_idle hb]
      exact List.length_take_le _ _
    obtain ⟨hfail, hsent⟩ := @processC2cWrite_remote d (-1) (fillDir d _ cc) _ env
      (fillDir_state.trans hst) hnil hfit (fillDir_holds hb hfit)
    cases hcc
    cases hmem : env.memFor d with
    | false => exact absurd (hfail hmem) hkill
    | true => exact (hsent hmem).1
  · cases hcc
    exact hb

theorem processC2cRead_idle
    {data₁ data₂ : List UInt8} {env : WriteEnv}
    (hst : cc.state = remoteState d) (hb : (cc.relay d).Idle)
    (hcc : (processC2cRead s data₁ data₂ env cc).cc = some cc') :
    (cc'.relay d).Idle := by
  have hlocal : cc.state ≠ .localActive := by
    rw [hst]
    cases d <;> decide
  simp only [processC2cRead] at hcc
  cases d with
  | p1p2 =>
      cases hr : (readDir .p1p2 s data₁ env cc).cc with
      | none => simp [hr] at hcc
      | some c =>
          simp only [hr] at hcc
          have hcst : c.state = cc.state := state_of_core (unseen_core.readDir hr)
          rw [readDir_idle (by rwa [hcst]) (by rw [hcst, hst]; decide)] at hcc
          cases hcc
          exact readDir_remote_idle hst hb hr
  | p2p1 =>
      rw [readDir_idle hlocal (by rw [hst]; decide)] at hcc
      exact readDir_remote_idle hst hb hcc

/-- The message that leaves a link when its client has been read. -/
theorem processC2cRead_pushed
    {xs : List UInt8} {env : WriteEnv}
    (hst : cc.state = remoteState d) (hb : (cc.relay d).Idle) (hne : xs ≠ [])
    (hfit : xs.length ≤ defaultBufSize) (hmem : env.memFor d) :
    (processC2cRead (cc.srcSck d) xs xs env cc).pushed =
      [(cc.dstNode d, n2nmsg (cc.senderId d) (cc.receiverId d) xs)] := by
  have hlocal : cc.state ≠ .localActive := by
    rw [hst]
    cases d <;> decide
  have htake : xs.take (cc.relay d).room = xs := by
    rw [room_idle hb]
    exact List.take_of_length_le hfit
  have hsent := ((@processC2cWrite_remote d (-1) (fillDir d xs cc) xs env
    (fillDir_state.trans hst) hne hfit (fillDir_holds hb hfit)).2 hmem).2
  have hids : (fillDir d xs cc).dstNode d = cc.dstNode d ∧
      (fillDir d xs cc).senderId d = cc.senderId d ∧
      (fillDir d xs cc).receiverId d = cc.receiverId d := by
    have hcore := @Unseen.fillDir _ _ d cc unseen_core xs
    simp only [CCLink.core, Prod.mk.injEq] at hcore
    obtain ⟨-, -, -, -, hcaller, hcallee, hnode, hnode'⟩ := hcore
    cases d
    · exact ⟨hnode', hcaller, hcallee⟩
    · exact ⟨hnode, hcallee, hcaller⟩
  rw [hids.1, hids.2.1, hids.2.2] at hsent
  have hread : (readDir d (cc.srcSck d) xs env cc).pushed =
      [(cc.dstNode d, n2nmsg (cc.senderId d) (cc.receiverId d) xs)] := by
    rw [readDir, if_pos ⟨.inr hst, rfl, by simp [hb.2.2.2]⟩, htake, if_neg hne, if_neg hlocal]
    exact hsent
  simp only [processC2cRead]
  cases d with
  | p1p2 =>
      cases hr : (readDir .p1p2 (cc.srcSck .p1p2) xs env cc).cc with
      | none => exact hread
      | some c =>
          have hcst : c.state = cc.state := state_of_core (unseen_core.readDir hr)
          dsimp only
          rw [hread, readDir_idle (by rwa [hcst]) (by rw [hcst, hst]; decide)]
          rfl
  | p2p1 =>
      rw [readDir_idle hlocal (by rw [hst]; decide)]
      exact hread

end Remote

end PicaPica
