import PicaPica.Node.InterNode

/-!
# A conversation across two nodes

A call between clients of two nodes has one half at each of them: the link of the caller's
node, whose direction `p1p2` ends at the other node, and the link of the callee's node, whose
direction `p2p1` does.  `TwoEnds` puts the halves together with the `N2NMSG` messages that are
on their way, which the connection between the nodes keeps in their order.

What a client has sent is what the other one has been given, then what waits in the buffer of
its link, then what is on its way (`conversation_across_nodes`).
-/

namespace PicaPica

open Machine

/-- What `procmsg_N2NMSG` takes out of a message for the link. -/
def n2nmsgData (f : Frame) : List UInt8 :=
  (f.drop (4 + 2 * idSize)).take (load16 f 2 - 2 * idSize)

theorem n2nmsgData_small (f : Frame) : 2 * idSize + (n2nmsgData f).length < 65536 := by
  have hlen : load16 f 2 < 65536 := leNat_two_lt (List.length_take_le _ _)
  have htake : (n2nmsgData f).length ≤ load16 f 2 - 2 * idSize := List.length_take_le _ _
  simp only [idSize] at htake ⊢
  omega

/-- The data is taken out as it was put in. -/
theorem n2nmsgData_n2nmsg
    {sender receiver : Id} {data : List UInt8} (h : data.length ≤ defaultBufSize) :
    n2nmsgData (n2nmsg sender receiver data) = data := by
  have hlen : load16 (n2nmsg sender receiver data) 2 = 2 * idSize + data.length := by
    simpa using @load16_n2nmsg sender receiver data [] h
  have hpre : (head Proto.N2NMSG ++ le16 (2 * idSize + data.length) ++ sender.1 ++
      receiver.1).length = 4 + 2 * idSize := by
    simp only [List.length_append, length_head, length_le16, Id.length_val]
    omega
  rw [n2nmsgData, hlen, Nat.add_sub_cancel_left, n2nmsg, List.drop_left' hpre, List.take_length]

/-! ## The messages that a half sends -/

section Sends

variable {d : Dir} {s : Socket} {cc cc' : CCLink} {env : WriteEnv}

/-- The data of messages to other nodes. -/
def dataOf (pushed : List (Option Ptr × Frame)) : List UInt8 :=
  pushed.flatMap fun p => n2nmsgData p.2

theorem dataOf_append (p q : List (Option Ptr × Frame)) :
    dataOf (p ++ q) = dataOf p ++ dataOf q :=
  List.flatMap_append

/-- A block that reads for a direction to the other node sends all that it has read. -/
theorem readDir_sends
    {data : List UInt8}
    (hst : cc.state = remoteState d) (hidle : (cc.relay d).Idle)
    (hcc : (readDir d s data env cc).cc = some cc') :
    dataOf (readDir d s data env cc).pushed = (readDir d s data env cc).inp d := by
  have hlocal : cc.state ≠ .localActive := by
    rw [hst]
    cases d <;> decide
  by_cases hread : (cc.state = .localActive ∨ cc.state = remoteState d) ∧
      cc.srcSck d = s ∧ !(cc.relay d).jam
  swap
  · rw [readDir, if_neg hread]
    cases d <;> rfl
  rw [readDir, if_pos hread] at hcc ⊢
  have hfit : (data.take (cc.relay d).room).length ≤ defaultBufSize := by
    rw [room_idle hidle]
    exact List.length_take_le _ _
  generalize data.take (cc.relay d).room = xs at hcc hfit ⊢
  by_cases hnil : xs = []
  · simp [hnil] at hcc
  simp only [if_neg hnil, if_neg hlocal] at hcc ⊢
  -- the message cannot have been refused, since the link is still there
  obtain ⟨hfail, hsent⟩ := @processC2cWrite_remote d (-1) (fillDir d xs cc) xs env
    (fillDir_state.trans hst) hnil hfit (fillDir_holds hidle hfit)
  cases hmem : env.memFor d with
  | false => simp [hfail hmem] at hcc
  | true =>
      rw [(hsent hmem).2]
      have hdata := @n2nmsgData_n2nmsg ((fillDir d xs cc).senderId d)
        ((fillDir d xs cc).receiverId d) xs hfit
      simp only [dataOf, List.flatMap_cons, List.flatMap_nil, List.append_nil, hdata]
      cases d <;> rfl

/-- `process_c2c_read` sends all that it has read to the other node. -/
theorem processC2cRead_sends
    {data₁ data₂ : List UInt8}
    (hst : cc.state = remoteState d) (hidle : (cc.relay d).Idle)
    (hcc : (processC2cRead s data₁ data₂ env cc).cc = some cc') :
    dataOf (processC2cRead s data₁ data₂ env cc).pushed =
      (processC2cRead s data₁ data₂ env cc).inp d := by
  have hlocal : cc.state ≠ .localActive := by
    rw [hst]
    cases d <;> decide
  simp only [processC2cRead] at hcc ⊢
  cases d with
  | p1p2 =>
      cases hr : (readDir .p1p2 s data₁ env cc).cc with
      | none => simp [hr] at hcc
      | some c =>
          have hcst : c.state = cc.state := state_of_core (unseen_core.readDir hr)
          have hskip : readDir .p2p1 s data₂ env c = .idle c :=
            readDir_idle (by rwa [hcst]) (by rw [hcst, hst]; decide)
          simp only [hskip, C2cRead.idle, C2cRead.inp, List.append_nil]
          exact readDir_sends hst hidle hr
  | p2p1 =>
      have hskip : readDir .p1p2 s data₁ env cc = .idle cc :=
        readDir_idle hlocal (by rw [hst]; decide)
      simp only [hskip, C2cRead.idle, C2cRead.inp, List.nil_append] at hcc ⊢
      exact readDir_sends hst hidle hcc

/-- A write has nothing to send to the other node, since reading has sent it already. -/
theorem processC2cWrite_silent
    (hst : cc.state = remoteState d) (hidle : (cc.relay d).Idle) :
    (processC2cWrite s env cc).pushed = [] := by
  have hskip : ∀ {o : SendOutcome} {b : Bool} {w : C2cWrite}, (w.cc.relay d).bufpos = 0 →
      writeDir d s o b w = w := fun hpos => by rw [writeDir, if_pos hpos]
  rw [processC2cWrite]
  cases d with
  | p1p2 =>
      rw [hskip hidle.2.2.1, writeDir_pushed]
      rw [hst]
      decide
  | p2p1 =>
      generalize hw : writeDir .p1p2 s env.send12 env.mem12 ⟨cc, env.ret0, false, [], [], []⟩ = w
      have hpushed : w.pushed = [] := by
        rw [← hw, writeDir_pushed]
        rw [hst]
        decide
      have hrelay : w.cc.relay .p2p1 = cc.relay .p2p1 := by
        have hne : Dir.p2p1 ≠ .p1p2 := by rintro ⟨⟩
        rw [← hw, writeDir_other hne]
      rw [hskip (by rw [hrelay]; exact hidle.2.2.1), hpushed]

end Sends

/-! ## The two halves -/

/-- A call of `libevent` for a socket of the link. -/
inductive SocketCall
  | read (s : Socket) (data12 data21 : List UInt8) (env : WriteEnv)
  | write (s : Socket) (env : WriteEnv)

/-- The call as the link sees it. -/
def SocketCall.event : SocketCall → RelayEvent
  | .read s data12 data21 env => .read s data12 data21 env
  | .write s env => .write s env

/-- The link when the call begins: a write event is not persistent. -/
def SocketCall.begin (r : RelayRun) : SocketCall → RelayRun
  | .read _ _ _ _ => r
  | .write s _ => { r with cc := r.cc.fired s }

/-- The messages to the other node that the call makes. -/
def SocketCall.pushed (cc : CCLink) : SocketCall → List (Option Ptr × Frame)
  | .read s data12 data21 env => (processC2cRead s data12 data21 env cc).pushed
  | .write s env => (processC2cWrite s env (cc.fired s)).pushed

/-- Both halves of a conversation between clients of two nodes. -/
structure TwoEnds where
  /-- the link at the node from which the direction leads to the other one -/
  half : Dir → RelayRun
  /-- messages that are on their way, the oldest first -/
  wire : Dir → List (Option Ptr × Frame)

/-- A call at the node where a direction begins, or a message that comes to the node where it
ends. -/
inductive TwoEndsEvent
  | call (d : Dir) (c : SocketCall)
  | arrive (d : Dir)

/-- One event.  It has no successor when a link is deleted. -/
def twoEndsStep (t : TwoEnds) : TwoEndsEvent → Option TwoEnds
  | .call d c =>
      (relayStep (c.begin (t.half d)) c.event).map fun r =>
        { half := Function.update t.half d r
          wire := Function.update t.wire d (t.wire d ++ c.pushed (t.half d).cc) }
  | .arrive d =>
      match t.wire d with
      | [] => none
      | m :: ms =>
          (relayStep (t.half d.other) (.n2nmsg (n2nmsgData m.2) (n2nmsgData_small m.2))).map
            fun r =>
              { half := Function.update t.half d.other r
                wire := Function.update t.wire d ms }

/-- The condition under which a call sends what it removes. -/
def TwoEndsClean (t : TwoEnds) : TwoEndsEvent → Prop
  | .call d c => RelayClean (c.begin (t.half d)) c.event
  | .arrive _ => True

instance (t : TwoEnds) (e : TwoEndsEvent) : Decidable (TwoEndsClean t e) :=
  match e with
  | .call d c => inferInstanceAs (Decidable (RelayClean (c.begin (t.half d)) c.event))
  | .arrive _ => .isTrue trivial

/-- Two links before any byte was relayed. -/
def TwoEnds.start (cc : Dir → CCLink) : TwoEnds :=
  ⟨fun d => .start (cc d), fun _ => []⟩

/-- What holds of both halves after any number of events. -/
structure TwoEnds.Passing (t : TwoEnds) : Prop where
  state : ∀ d, (t.half d).cc.state = remoteState d
  conserved : ∀ d e, Conserved (t.half d) e
  idle : ∀ d, ((t.half d).cc.relay d).Idle
  /-- what has come to the node where the direction begins has left it in messages -/
  passed : ∀ d, (t.half d).inp d = (t.half d.other).inp d ++ dataOf (t.wire d)

section Step

variable {t t' : TwoEnds} {r r' : RelayRun} {d e : Dir} {c : SocketCall}

theorem Dir.other_other (d : Dir) : d.other.other = d := by
  cases d <;> rfl

theorem Dir.other_ne (d : Dir) : d.other ≠ d :=
  Dir.ne_iff.mpr rfl

/-- The link takes data from the other node into the direction that ends here. -/
theorem n2nDir_remoteState (d : Dir) : n2nDir (remoteState d.other) = some d := by
  cases d <;> rfl

theorem relayStep_state
    {x : RelayEvent}
    (hstep : relayStep r x = some r') :
    r'.cc.state = r.cc.state := by
  refine state_of_core ?_
  cases x with
  | read s data₁ data₂ env =>
      simp only [relayStep, Option.map_eq_some_iff] at hstep
      obtain ⟨cc', hcc, rfl⟩ := hstep
      exact unseen_core.processC2cRead hcc
  | write s env =>
      simp only [relayStep] at hstep
      split_ifs at hstep with hkill
      obtain rfl := Option.some.inj hstep
      exact unseen_core.processC2cWrite
  | n2nmsg data hlen =>
      simp only [relayStep] at hstep
      cases hdir : n2nDir r.cc.state with
      | none =>
          simp only [hdir, Option.some.injEq] at hstep
          rw [hstep]
      | some k =>
          simp only [hdir, Option.map_eq_some_iff] at hstep
          obtain ⟨cc', hcc, rfl⟩ := hstep
          rw [relayN2nmsg_eq_some hcc]
          cases k <;> rfl

theorem begin_state : (c.begin r).cc.state = r.cc.state := by
  cases c <;> rfl

theorem begin_conserved (h : Conserved r e) : Conserved (c.begin r) e := by
  cases c with
  | read s data₁ data₂ env => exact h
  | write s env =>
      refine ⟨?_, ?_⟩
      · simpa [SocketCall.begin, relay_fired] using h.stream
      · simpa [SocketCall.begin, relay_fired] using h.wf

theorem readDir_inp_other
    {s : Socket} {data : List UInt8} {env : WriteEnv} {cc : CCLink} :
    (readDir d s data env cc).inp d.other = [] := by
  cases d <;> simp only [readDir, reduceCtorEq, if_true, if_false] <;> split_ifs <;> rfl

/-- Nothing is read for the direction that ends here. -/
theorem processC2cRead_inp_other
    {s : Socket} {data₁ data₂ : List UInt8} {env : WriteEnv} {cc : CCLink}
    (hst : cc.state = remoteState d) :
    (processC2cRead s data₁ data₂ env cc).inp d.other = [] := by
  have hlocal : cc.state ≠ .localActive := by
    rw [hst]
    cases d <;> decide
  have hown := @readDir_inp_other d s
  simp only [processC2cRead]
  cases d with
  | p1p2 =>
      cases hr : (readDir .p1p2 s data₁ env cc).cc with
      | none => exact hown
      | some c =>
          have hcst : c.state = cc.state := state_of_core (unseen_core.readDir hr)
          have hskip : readDir .p2p1 s data₂ env c = .idle c :=
            readDir_idle (by rwa [hcst]) (by rw [hcst, hst]; decide)
          simp only [hskip, C2cRead.idle, C2cRead.inp, Dir.other, List.append_nil]
          exact hown
  | p2p1 =>
      have hskip : readDir .p1p2 s data₁ env cc = .idle cc :=
        readDir_idle hlocal (by rw [hst]; decide)
      simp only [hskip, C2cRead.idle, C2cRead.inp, Dir.other, List.nil_append]
      exact hown

/-- What a call at the beginning of a direction reads goes into messages. -/
theorem call_sends
    (hst : r.cc.state = remoteState d) (hidle : (r.cc.relay d).Idle)
    (hstep : relayStep (c.begin r) c.event = some r') :
    r'.inp d = r.inp d ++ dataOf (c.pushed r.cc) ∧ r'.inp d.other = r.inp d.other ∧
      (r'.cc.relay d).Idle := by
  cases c with
  | read s data₁ data₂ env =>
      simp only [SocketCall.event, SocketCall.begin, relayStep, Option.map_eq_some_iff] at hstep
      obtain ⟨cc', hcc, rfl⟩ := hstep
      refine ⟨?_, ?_, processC2cRead_idle hst hidle hcc⟩
      · simp only [SocketCall.pushed, processC2cRead_sends hst hidle hcc]
      · simp only [processC2cRead_inp_other hst, List.append_nil]
  | write s env =>
      have hidle' : ((r.cc.fired s).relay d).Idle := by
        rw [relay_fired]
        exact hidle
      dsimp only [SocketCall.event, SocketCall.begin, relayStep] at hstep
      split_ifs at hstep with hkill
      obtain rfl := Option.some.inj hstep
      refine ⟨?_, rfl, processC2cWrite_idle hidle'⟩
      have hsilent := @processC2cWrite_silent d s (r.cc.fired s) env hst hidle'
      simp [SocketCall.pushed, hsilent, dataOf]

/-- A message that arrives fills the direction that ends here, and no other. -/
theorem arrive_takes
    {data : List UInt8} {hlen : 2 * idSize + data.length < 65536}
    (hst : r.cc.state = remoteState d.other)
    (hstep : relayStep r (.n2nmsg data hlen) = some r') :
    r'.inp d = r.inp d ++ data ∧ r'.inp d.other = r.inp d.other ∧
      r'.cc.relay d.other = r.cc.relay d.other := by
  have hdir : n2nDir r.cc.state = some d := by rw [hst, n2nDir_remoteState]
  simp only [relayStep, hdir, Option.map_eq_some_iff] at hstep
  obtain ⟨cc', hcc, rfl⟩ := hstep
  refine ⟨if_pos rfl, if_neg d.other_ne, ?_⟩
  rw [relayN2nmsg_eq_some hcc, CCLink.relay_setRelay_of_ne _ _ _ _ d.other_ne]

/-- **One event** keeps the bytes of both directions. -/
theorem twoEndsStep_passing
    {x : TwoEndsEvent}
    (h : t.Passing) (hclean : TwoEndsClean t x) (hstep : twoEndsStep t x = some t') :
    t'.Passing := by
  cases x with
  | call d c =>
      simp only [twoEndsStep, Option.map_eq_some_iff] at hstep
      obtain ⟨r, hr, rfl⟩ := hstep
      obtain ⟨hinp, hother, hidle⟩ := call_sends (h.state d) (h.idle d) hr
      have hcons := relayStep_conserved (fun e => begin_conserved (h.conserved d e)) hclean hr
      have hst : r.cc.state = remoteState d := by
        rw [relayStep_state hr, begin_state, h.state d]
      refine ⟨?_, ?_, ?_, ?_⟩
      · intro k
        by_cases hk : k = d
        · subst hk
          simpa using hst
        · simpa [hk] using h.state k
      · intro k
        by_cases hk : k = d
        · subst hk
          simpa using hcons
        · simpa [hk] using h.conserved k
      · intro k
        by_cases hk : k = d
        · subst hk
          simpa using hidle
        · simpa [hk] using h.idle k
      · intro k
        by_cases hk : k = d
        · subst hk
          have hne := k.other_ne
          simp only [Function.update_self, Function.update_of_ne hne, hinp, h.passed k,
            dataOf_append, List.append_assoc]
        · obtain rfl := Dir.ne_iff.mp hk
          have hne := d.other_ne
          simp only [Function.update_of_ne hne, Dir.other_other, Function.update_self, hother]
          simpa [Dir.other_other] using h.passed d.other
  | arrive d =>
      simp only [twoEndsStep] at hstep
      cases hwire : t.wire d with
      | nil => simp [hwire] at hstep
      | cons m ms =>
          simp only [hwire, Option.map_eq_some_iff] at hstep
          obtain ⟨r, hr, rfl⟩ := hstep
          obtain ⟨hinp, hother, hrelay⟩ := arrive_takes (h.state d.other) hr
          have hcons := @relayStep_conserved _ _
            (.n2nmsg (n2nmsgData m.2) (n2nmsgData_small m.2)) (h.conserved d.other) trivial hr
          have hst : r.cc.state = remoteState d.other := by
            rw [relayStep_state hr, h.state]
          have hpassed := h.passed d
          rw [hwire] at hpassed
          refine ⟨?_, ?_, ?_, ?_⟩
          · intro k
            by_cases hk : k = d.other
            · subst hk
              simpa using hst
            · simpa [hk] using h.state k
          · intro k
            by_cases hk : k = d.other
            · subst hk
              simpa using hcons
            · simpa [hk] using h.conserved k
          · intro k
            by_cases hk : k = d.other
            · subst hk
              simpa [hrelay] using h.idle d.other
            · simpa [hk] using h.idle k
          · intro k
            by_cases hk : k = d.other
            · subst hk
              have hne := d.other_ne
              simp only [Function.update_self, Dir.other_other, Function.update_of_ne hne,
                Function.update_of_ne hne.symm, hother]
              simpa [Dir.other_other] using h.passed d.other
            · obtain rfl : k = d := by
                cases k <;> cases d <;> simp_all [Dir.other]
              have hne := k.other_ne
              simp only [Function.update_self, Function.update_of_ne hne.symm, hinp, hpassed]
              simp [dataOf]

end Step

/-- **A conversation across two nodes.**  In every run from the activation of both links, with
the calls of both nodes and the arrivals of messages in any order, what has been read from a
client for the conversation is what has been written to the other client, then what waits in
the buffer of its link, then the data of the messages on their way; as long as the calls all
meet `RelayClean`. -/
theorem conversation_across_nodes
    {cc : Dir → CCLink} {es : List TwoEndsEvent} {t : TwoEnds}
    (hact : ∀ d, Activated (cc d)) (hst : ∀ d, (cc d).state = remoteState d)
    (hjam : ∀ d, ((cc d).relay d).jam = false)
    (hclean : Meets twoEndsStep TwoEndsClean (.start cc) es)
    (hrun : run twoEndsStep (.start cc) es = some t) (d : Dir) :
    (t.half d).inp d = (t.half d.other).out d ++
      ((t.half d.other).cc.relay d).content ++ dataOf (t.wire d) := by
  have hstart : (TwoEnds.start cc).Passing := by
    refine ⟨hst, fun d e => (hact d).conserved e, fun d => ?_, fun d => rfl⟩
    exact ⟨(hact d).length d, (hact d).buflen d, (hact d).bufpos d, hjam d⟩
  have hend : t.Passing := run_invariant
    (fun s e t hs hok hstep => twoEndsStep_passing hs hok hstep) hstart hclean hrun
  rw [hend.passed d, (hend.conserved d.other d).stream]

/-- The halves of a call between the clients behind the sockets 5 and 6 of two nodes. -/
def sampleHalf : Dir → CCLink
  | .p1p2 => { sampleLink with
      state := .n2nClrActive, p2 := none, calleeNode := some 3, sckP2 := -1
      evReadP2 := none, evWriteP2 := none }
  | .p2p1 => { sampleLink with
      state := .n2nCleActive, p1 := none, callerNode := some 4, sckP1 := -1
      evReadP1 := none, evWriteP1 := none }

theorem sampleHalf_activated (d : Dir) :
    Activated (sampleHalf d) ∧ (sampleHalf d).state = remoteState d ∧
      ((sampleHalf d).relay d).jam = false := by
  cases d
  · refine ⟨⟨.inr (.inl rfl), ?_, ?_, ?_⟩, rfl, rfl⟩ <;> rintro (_ | _) <;>
      simp [sampleHalf, sampleLink, emptyRelayBuf, CCLink.relay]
  · refine ⟨⟨.inr (.inr rfl), ?_, ?_, ?_⟩, rfl, rfl⟩ <;> rintro (_ | _) <;>
      simp [sampleHalf, sampleLink, emptyRelayBuf, CCLink.relay]

/-- The caller sends twice, and the first message has come to the callee's node. -/
def sampleAcross : List TwoEndsEvent :=
  [.call .p1p2 (.read 5 [1, 2, 3] [] sampleEnv), .call .p1p2 (.read 5 [4, 5] [] sampleEnv),
    .arrive .p1p2, .call .p2p1 (.write 6 sampleEnv)]

theorem conversation_across_nodes_twice :
    ∃ t, run twoEndsStep (.start sampleHalf) sampleAcross = some t ∧
      (t.half .p1p2).inp .p1p2 = [1, 2, 3, 4, 5] ∧ (t.half .p2p1).out .p1p2 = [1, 2] ∧
      (t.half .p1p2).inp .p1p2 = (t.half .p2p1).out .p1p2 ++
        ((t.half .p2p1).cc.relay .p1p2).content ++ dataOf (t.wire .p1p2) := by
  obtain ⟨t, hrun, hinp, hout⟩ := @run_ends _ _ twoEndsStep
    (fun t => (t.half .p1p2).inp .p1p2 = [1, 2, 3, 4, 5] ∧ (t.half .p2p1).out .p1p2 = [1, 2])
    inferInstance (.start sampleHalf) sampleAcross (by decide +kernel)
  exact ⟨t, hrun, hinp, hout, conversation_across_nodes
    (fun d => (sampleHalf_activated d).1) (fun d => (sampleHalf_activated d).2.1)
    (fun d => (sampleHalf_activated d).2.2) (by decide +kernel) hrun .p1p2⟩

end PicaPica
