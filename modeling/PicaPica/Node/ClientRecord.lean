import PicaPica.Node.LinkRecord

/-!
# The records of clients

What a change of the node can do to one client, and the size of what is pushed to a
client: a message has to fit the buffer of the client's reader, and does so unless
another peer has sent a longer one, or there are too many nodes (`client_frames_fit`).
-/

namespace PicaPica

open Table Machine

/-! ## Changes of one client -/

/-- What a change of the node makes of a client that stays in the list. -/
structure ClientKept (n₀ : Node) (e : NodeEvent) (c c' : Client) : Prop where
  ptr : c'.ptr = c.ptr
  sckComm : c'.sckComm = c.sckComm
  waiting : c'.state = .waitAnonTlsShutdown → c.state = .waitAnonTlsShutdown
  pushed : ∀ f ∈ c'.pushed, f ∈ c.pushed ∨ (65536 < f.length → e.overlong n₀)

section Change

variable {n₀ n n' : Node} {e : NodeEvent} {c c' : Client}

theorem ClientKept.refl : ClientKept n₀ e c c :=
  ⟨rfl, rfl, fun h => h, fun _ hf => .inl hf⟩

/-- One client is changed, the others stay. -/
theorem modify_client
    {p : Ptr} {g : Client → Client}
    (hc' : c' ∈ (n.modifyClient p g).clients) (hg : ∀ c, ClientKept n₀ e c (g c)) :
    ∃ c ∈ n.clients, ClientKept n₀ e c c' := by
  obtain ⟨c, hc, rfl⟩ := mem_modify.mp hc'
  refine ⟨c, hc, ?_⟩
  split_ifs
  · exact hg c
  · exact .refl

theorem dropClient_kept
    (hcore : Core n) (hc : c ∈ n.clients) (hc' : c' ∈ (n.dropClient c).clients) :
    ∃ d ∈ n.clients, ClientKept n₀ e d c' := by
  rcases dropClient_cases hcore hc with ⟨ms, heq⟩ | ⟨q, ms, -, -, heq⟩
  · rw [heq] at hc'
    exact ⟨c', (mem_remove.mp hc').1, .refl⟩
  · rw [heq] at hc'
    obtain ⟨d, hd, hkept⟩ := @modify_client n₀ (n.withoutClient c.ptr) e c' q
      (fun d => { d with state := .connected }) hc' fun d => ⟨rfl, rfl, nofun, fun _ hf => .inl hf⟩
    exact ⟨d, (mem_remove.mp hd).1, hkept⟩

/-- **Every client after a change was there before it, or is a new one.** -/
theorem Act.client_cases
    (hcore : Core n) (hact : Act n₀ e n n') (hc' : c' ∈ n'.clients) :
    (∃ c ∈ n.clients, ClientKept n₀ e c c') ∨ c'.ptr = n.next ∧ c'.pushed = [] := by
  cases hact with
  | tickClient p t b =>
      exact .inl (modify_client hc' fun _ => ⟨rfl, rfl, fun h => h, fun _ hf => .inl hf⟩)
  | push p f hf hlong =>
      refine .inl (modify_client hc' fun c => ⟨rfl, rfl, fun h => h, fun x hx => ?_⟩)
      rcases List.mem_append.mp hx with hx | hx
      · exact .inl hx
      · obtain rfl := List.mem_singleton.mp hx
        exact .inr hlong
  | login c id hc hst hid hno hmiss =>
      exact .inl (modify_client hc' fun _ => ⟨rfl, rfl, nofun, fun _ hf => .inl hf⟩)
  | loginMulti c s id hc hst hid hs =>
      exact .inl (modify_client hc' fun _ => ⟨rfl, rfl, nofun, fun _ hf => .inl hf⟩)
  | deleteClient c call hc hdel hleave => exact .inl (dropClient_kept hcore hc hc')
  | initreq i he hocc hone =>
      rcases List.mem_append.mp hc' with hc' | hc'
      · exact .inl ⟨c', hc', .refl⟩
      · obtain rfl := List.mem_singleton.mp hc'
        exact .inr ⟨rfl, rfl⟩
  | close i g n' he hg htype hclose =>
      obtain ⟨k, hk, rfl⟩ := newconnClose_ok hclose
      rcases hk with ⟨-, rfl⟩ | ⟨c, hc, -, -, rfl⟩ | ⟨l, -, -, -, rfl⟩
      · exact .inl ⟨c', hc', .refl⟩
      · rw [dropClient_setSlot] at hc'
        exact .inl (dropClient_kept hcore hc hc')
      · exact .inl ⟨c', hc', .refl⟩
  | clientReady i c he hi hty hc =>
      exact .inl (modify_client hc' fun _ => ⟨rfl, rfl, nofun, fun _ hf => .inl hf⟩)
  | _ => exact .inl ⟨c', hc', .refl⟩

end Change

/-! ## The size of messages -/

/-- Every message in the buffers of the clients fits a client's reader. -/
def Node.FramesFit (n : Node) : Prop :=
  ∀ c ∈ n.clients, ∀ f ∈ c.pushed, f.length ≤ 65536

section FramesFit

variable {n₀ n n' : Node} {e : NodeEvent}

theorem Act.framesFit
    (hcore : Core n) (h : n.FramesFit) (hshort : e.overlong n₀ = false) (hact : Act n₀ e n n') :
    n'.FramesFit := by
  intro c' hc' f hf
  rcases hact.client_cases hcore hc' with ⟨c, hc, hkept⟩ | ⟨-, hnone⟩
  · rcases hkept.pushed f hf with hold | hlong
    · exact h c hc f hold
    · by_contra hlt
      rw [hlong (Nat.lt_of_not_le hlt)] at hshort
      cases hshort
  · rw [hnone] at hf
    cases hf

theorem nodeStep_framesFit
    (hcore : Core n) (h : n.FramesFit) (hshort : e.overlong n = false)
    (hstep : nodeStep n e = some n') :
    n'.FramesFit := by
  have hact : ∀ u v, (Core u ∧ u.FramesFit) → Act n e u v → Core v ∧ v.FramesFit :=
    fun u v hu hact => ⟨hact.core hu.1, hact.framesFit hu.1 hu.2 hshort⟩
  exact (changes_invariant hact ⟨hcore, h⟩ (nodeStep_acts hcore hstep)).2

end FramesFit

/-- **What the node pushes to a client fits its reader** in every state of every run in
which no peer sends a longer `MULTILOGIN` message and no client asks for the list of more
nodes than one message holds. -/
theorem client_frames_fit
    {a : SockAddr} {r : Bool} {now : Nat} {mem : Nat → Bool} {rnd : Nat → UInt8}
    {verify : Ptr → Frame → Bool} {reached : List ClientEvent → Ptr → Bool}
    {es : List NodeEvent} {n : Node}
    (hshort : Meets nodeStep (fun n e => e.overlong n = false)
      (Node.init a r now mem rnd verify reached) es)
    (hrun : run nodeStep (Node.init a r now mem rnd verify reached) es = some n) :
    ∀ c ∈ n.clients, ∀ f ∈ c.pushed, f.length ≤ 65536 := by
  have hstep : ∀ s e t, (Core s ∧ s.FramesFit) → e.overlong s = false →
      nodeStep s e = some t → Core t ∧ t.FramesFit := fun s e t hs hse hstep =>
    ⟨nodeStep_core hs.1 hstep, nodeStep_framesFit hs.1 hs.2 hse hstep⟩
  have hnone : (Node.init a r now mem rnd verify reached).FramesFit := fun c hc => nomatch hc
  exact (run_invariant hstep ⟨core_init, hnone⟩ hshort hrun).2

/-- The call of client 1 to client 2. -/
theorem client_frames_fit_call :
    ∃ c ∈ (stateAfter freshNode callRequested).clients, ∃ f ∈ c.pushed, f.length ≤ 65536 := by
  have hshort : Meets nodeStep (fun n e => e.overlong n = false) freshNode callRequested := by
    decide +kernel
  have hrun := @stateAfter_run freshNode callRequested (by decide +kernel)
  obtain ⟨c, hc, hne⟩ : ∃ c ∈ (stateAfter freshNode callRequested).clients,
      c.pushed ≠ [] := by decide +kernel
  obtain ⟨f, hf⟩ := List.exists_mem_of_ne_nil c.pushed hne
  exact ⟨c, hc, f, hf, client_frames_fit hshort hrun c hc f hf⟩

/-! ## A message that does not fit -/

/-- A `MULTILOGIN` message. -/
def multilogin (payload : List UInt8) : Frame :=
  head Proto.MULTILOGIN ++ le16 payload.length ++ payload

section Multilogin

variable {payload : List UInt8} {c : Client}

theorem byteAt_multilogin :
    byteAt (multilogin payload) 0 = Proto.MULTILOGIN ∧
      byteAt (multilogin payload) 1 = Proto.MULTILOGIN := by
  constructor <;> simp [multilogin, head, byteAt, Proto.MULTILOGIN]

theorem load16_multilogin (h : payload.length < 65536) :
    load16 (multilogin payload) 2 = payload.length := by
  have hfield : ((multilogin payload).drop 2).take 2 = le16 payload.length := by
    rw [multilogin, List.append_assoc, List.drop_left' (length_head _),
      List.take_left' (length_le16 _)]
  rw [load16, hfield, leNat_le16 h]

/-- A client in either state may send the message. -/
theorem msginfoClient_MULTILOGIN
    {buf : List UInt8} {nb : Nat}
    (h0 : byteAt buf 0 = Proto.MULTILOGIN) (hnb : 4 ≤ nb) :
    msggetsizeScan buf nb (Node.msginfoClient c) = 4 + load16 buf 2 ∧
      ∀ size n, processmsgScan buf size n (Node.msginfoClient c) =
        handlerFn (·.procmsgMULTILOGINClient c.ptr) n (buf.take size) := by
  rw [Node.msginfoClient]
  split_ifs
  · constructor
    · simp [msggetsizeScan, msginfoMulti, fixedMsg, varMsg, h0, Proto.CONNREQOUTG,
        Proto.CONNALLOW, Proto.CONNDENY, Proto.CLNODELISTREQ, Proto.PINGREQ, Proto.PINGREP,
        Proto.MULTILOGIN, hnb, tailLen, load16]
    · simp [processmsgScan, msginfoMulti, fixedMsg, varMsg, h0, Proto.CONNREQOUTG,
        Proto.CONNALLOW, Proto.CONNDENY, Proto.CLNODELISTREQ, Proto.PINGREQ, Proto.PINGREP,
        Proto.MULTILOGIN]
  · constructor
    · simp [msggetsizeScan, msginfoComm, fixedMsg, varMsg, h0, Proto.CONNREQOUTG,
        Proto.CONNALLOW, Proto.CONNDENY, Proto.CLNODELISTREQ, Proto.PINGREQ, Proto.PINGREP,
        Proto.MULTILOGIN, hnb, tailLen, load16]
    · simp [processmsgScan, msginfoComm, fixedMsg, varMsg, h0, Proto.CONNREQOUTG,
        Proto.CONNALLOW, Proto.CONNDENY, Proto.CLNODELISTREQ, Proto.PINGREQ, Proto.PINGREP,
        Proto.MULTILOGIN]

/-- The message is complete and handed over. -/
theorem frame_multilogin (h : payload.length < 65536) :
    msggetsize (multilogin payload) (multilogin payload).length (Node.msginfoClient c) =
        (multilogin payload).length ∧
      ∀ n, processmsg (multilogin payload) (multilogin payload).length n (Node.msginfoClient c) =
        handlerFn (·.procmsgMULTILOGINClient c.ptr) n (multilogin payload) := by
  obtain ⟨h0, h1⟩ := @byteAt_multilogin payload
  have hlen : (multilogin payload).length = 4 + payload.length := by
    simp [multilogin]
    omega
  obtain ⟨hsize, hcall⟩ := @msginfoClient_MULTILOGIN c _ (multilogin payload).length h0 (by omega)
  constructor
  · rw [msggetsize, if_neg (by omega), if_neg (by simp [h0, h1]), hsize, load16_multilogin h, hlen]
  · intro n
    rw [processmsg, if_neg (by simp [h0, h1]), hcall, List.take_length]

end Multilogin

/-- Two clients log in with one identifier. -/
def twoLogins : List NodeEvent :=
  clientLogin 10 0 1 (Id.ofByte 1) ++ clientLogin 11 1 2 (Id.ofByte 1)

/-- What the first login sends is pushed to the second one, however long it is. -/
theorem multilogin_relayed
    {payload : List UInt8} (h : payload.length < 65536) :
    ∃ n, run nodeStep freshNode (twoLogins ++ [.c2nFrame 1 (multilogin payload)]) = some n ∧
      ∃ c ∈ n.clients, c.pushed = [multilogin payload] := by
  obtain ⟨c, hc, hptr, hst⟩ : ∃ c ∈ (stateAfter freshNode twoLogins).clients,
      c.ptr = 1 ∧ c.state = .connected := by decide +kernel
  have hdist : Distinct Client.ptr (stateAfter freshNode twoLogins).clients := by
    unfold Distinct
    decide +kernel
  have hderef : (stateAfter freshNode twoLogins).derefClient (some 1) = .ok c := by
    simp only [Node.derefClient, deref, ← hptr, hdist.lookup hc]
  obtain ⟨hsize, hcall⟩ := @frame_multilogin payload c h
  -- the handler is evaluated on a message whose content is left open
  have hpush : ((stateAfter freshNode twoLogins).procmsgMULTILOGINClient 1
      (multilogin payload)).map (fun r => (r.1.clients.map (·.pushed), r.2)) =
        .ok ([[], [multilogin payload]], 1) := rfl
  cases hres : (stateAfter freshNode twoLogins).procmsgMULTILOGINClient 1
      (multilogin payload) with
  | error x => simp [hres, Except.map] at hpush
  | ok r =>
      simp only [hres, Except.map, Except.ok.injEq, Prod.mk.injEq] at hpush
      have hreact : (stateAfter freshNode twoLogins).processC2nFrame 1 (multilogin payload) =
          .ok r.1 := by
        simp [Node.processC2nFrame, hderef, hcall, hptr, handlerFn, hres, hpush.2, bind,
          Except.bind, pure, Except.pure]
      have hen : NodeEvent.enabled (stateAfter freshNode twoLogins)
          (.c2nFrame 1 (multilogin payload)) := by
        simp only [NodeEvent.enabled, List.any_eq_true, decide_eq_true_eq]
        exact ⟨c, hc, hptr, .inl hst, hsize⟩
      refine ⟨r.1, run_concat (stateAfter_run (by decide +kernel)) ?_, ?_⟩
      · exact nodeStep_eq_some.mpr ⟨hen, hreact⟩
      · have hlast : [multilogin payload] ∈ r.1.clients.map (·.pushed) := by
          rw [hpush.1]
          exact List.mem_cons_of_mem _ (List.mem_singleton_self _)
        exact List.mem_map.mp hlast

/-- The longest `MULTILOGIN` message has 65539 bytes. -/
theorem client_frame_too_long :
    ∃ es n, run nodeStep freshNode es = some n ∧
      ∃ c ∈ n.clients, ∃ f ∈ c.pushed, f.length = 65539 := by
  have hlen : (List.replicate 65535 (0 : UInt8)).length = 65535 := List.length_replicate
  obtain ⟨n, hrun, c, hc, hpushed⟩ := @multilogin_relayed (List.replicate 65535 0) (by omega)
  refine ⟨_, n, hrun, c, hc, multilogin (List.replicate 65535 0), ?_, ?_⟩
  · rw [hpushed]
    exact List.mem_singleton_self _
  · rw [multilogin, List.length_append, List.length_append, hlen]
    rfl

end PicaPica
