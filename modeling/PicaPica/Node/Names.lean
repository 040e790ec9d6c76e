import PicaPica.Node.HandlerSends

/-!
# Clients and their identifiers

A client has an identifier from the moment its certificate has been checked, and keeps it
(`nodeStep_named`).  Until then nothing is written to its connection but the `PINGREQ` of
`process_timeouts_c2n` (`unauthenticated_told_nothing`), which does not look at the state of
the client.
-/

namespace PicaPica

open Table Machine

/-- What has become of the client `c`: an identifier it has is kept. -/
structure Client.Named (c c' : Client) : Prop where
  ptr : c'.ptr = c.ptr
  named : c.state.early = false → c'.id = c.id ∧ c'.state.early = false

section Named

variable {n₀ n n' : Node} {e : NodeEvent} {c c' d : Client}

theorem Client.Named.refl : c.Named c :=
  ⟨rfl, fun h => ⟨rfl, h⟩⟩

theorem Client.Named.trans (h : c.Named c') (h' : c'.Named d) : c.Named d := by
  refine ⟨h'.ptr.trans h.ptr, fun hst => ?_⟩
  obtain ⟨hid, hst'⟩ := h.named hst
  obtain ⟨hid', hend⟩ := h'.named hst'
  exact ⟨hid'.trans hid, hend⟩

/-- One client is changed, the others stay. -/
theorem modifyClient_named
    {p : Ptr} {g : Client → Client}
    (hc' : c' ∈ (n.modifyClient p g).clients)
    (hg : ∀ c ∈ n.clients, c.ptr = p → c.Named (g c)) :
    ∃ c ∈ n.clients, c.Named c' := by
  obtain ⟨c, hc, rfl⟩ := mem_modify.mp hc'
  refine ⟨c, hc, ?_⟩
  split_ifs with hp
  · exact hg c hc hp
  · exact .refl

theorem dropClient_named
    (hcore : Core n) (hc : c ∈ n.clients) (hc' : c' ∈ (n.dropClient c).clients) :
    ∃ d ∈ n.clients, d.Named c' := by
  rcases dropClient_cases hcore hc with ⟨ms, heq⟩ | ⟨q, ms, -, -, heq⟩
  · rw [heq] at hc'
    exact ⟨c', (mem_remove.mp hc').1, .refl⟩
  · rw [heq] at hc'
    obtain ⟨d, hd, hnamed⟩ := @modifyClient_named (n.withoutClient c.ptr) c' q
      (fun d => { d with state := .connected }) hc' fun d _ _ => ⟨rfl, fun _ => ⟨rfl, rfl⟩⟩
    exact ⟨d, (mem_remove.mp hd).1, hnamed⟩

/-- **No change takes an identifier away.** -/
theorem Act.named
    (hcore : Core n) (hact : Act n₀ e n n') (hc' : c' ∈ n'.clients) :
    (∃ c ∈ n.clients, c.Named c') ∨ c'.ptr = n.next := by
  -- a client that gets its identifier had none
  have fresh : ∀ {x y : Client}, x ∈ n.clients → x.state.early → ∀ d ∈ n.clients, d.ptr = x.ptr →
      y.ptr = d.ptr → d.Named y := by
    intro x y hx hst d hd hp hy
    obtain rfl := hcore.clientsDistinct.eq hd hx hp
    exact ⟨hy, fun h => by simp [hst] at h⟩
  cases hact with
  | tickClient p t b =>
      exact .inl (modifyClient_named hc' fun _ _ _ => ⟨rfl, fun h => ⟨rfl, h⟩⟩)
  | push p f hf hlong =>
      exact .inl (modifyClient_named hc' fun _ _ _ => ⟨rfl, fun h => ⟨rfl, h⟩⟩)
  | login c id hc hst hid hno hmiss =>
      exact .inl (modifyClient_named hc' fun d hd hp => fresh hc (by rw [hst]; rfl) d hd hp rfl)
  | loginMulti c s id hc hst hid hs =>
      exact .inl (modifyClient_named hc' fun d hd hp => fresh hc (by rw [hst]; rfl) d hd hp rfl)
  | deleteClient c call hc hdel hleave => exact .inl (dropClient_named hcore hc hc')
  | initreq i he hocc hone =>
      rcases List.mem_append.mp hc' with hc' | hc'
      · exact .inl ⟨c', hc', .refl⟩
      · obtain rfl := List.mem_singleton.mp hc'
        exact .inr rfl
  | close i g n' he hg htype hclose =>
      obtain ⟨k, hk, rfl⟩ := newconnClose_ok hclose
      rcases hk with ⟨-, rfl⟩ | ⟨c, hc, -, -, rfl⟩ | ⟨l, -, -, -, rfl⟩
      · exact .inl ⟨c', hc', .refl⟩
      · rw [dropClient_setSlot] at hc'
        exact .inl (dropClient_named hcore hc hc')
      · exact .inl ⟨c', hc', .refl⟩
  | clientReady i c he hi hty hc =>
      have hwait : c.state.early := by
        rw [(hcore.slots i).client c.ptr hi c hc rfl]
        rfl
      exact .inl (modifyClient_named hc' fun d hd hp => fresh hc hwait d hd hp rfl)
  | _ => exact .inl ⟨c', hc', .refl⟩

/-- A client that was there before the call keeps its identifier. -/
theorem nodeStep_named
    (hcore : Core n) (hstep : nodeStep n e = some n') (hc : c ∈ n.clients) (hc' : c' ∈ n'.clients)
    (hptr : c'.ptr = c.ptr) :
    c.Named c' := by
  have hall : ∀ u v, (Core u ∧ n.next ≤ u.next ∧ ∀ c' ∈ u.clients, (∃ c ∈ n.clients, c.Named c') ∨
      n.next ≤ c'.ptr) → Act n e u v → Core v ∧ n.next ≤ v.next ∧
        ∀ c' ∈ v.clients, (∃ c ∈ n.clients, c.Named c') ∨ n.next ≤ c'.ptr := by
    rintro u v ⟨hu, hnext, hnamed⟩ hact
    refine ⟨hact.core hu, Nat.le_trans hnext (hact.next_le hu), fun y hy => ?_⟩
    rcases hact.named hu hy with ⟨x, hx, hxy⟩ | hfresh
    · rcases hnamed x hx with ⟨c, hc, hcx⟩ | hnew
      · exact .inl ⟨c, hc, hcx.trans hxy⟩
      · exact .inr (by rwa [hxy.ptr])
    · exact .inr (by rwa [hfresh])
  have hbegin : Core n ∧ n.next ≤ n.next ∧ ∀ c' ∈ n.clients, (∃ c ∈ n.clients, c.Named c') ∨
      n.next ≤ c'.ptr := ⟨hcore, Nat.le_refl _, fun y hy => .inl ⟨y, hy, .refl⟩⟩
  have hend := (changes_invariant hall hbegin (nodeStep_acts hcore hstep)).2.2
  rcases hend c' hc' with ⟨d, hd, hnamed⟩ | hnew
  · rwa [← hcore.clientsDistinct.eq hd hc (hnamed.ptr.symm.trans hptr)]
  · rw [hptr] at hnew
    exact absurd hnew (Nat.not_le_of_lt (hcore.clientsOld c hc))

end Named

/-! ## Who can be written to -/

section Receivers

variable {n m : Node} {e : NodeEvent} {p : Ptr} {x : Frame}

/-- A client that the node knows by its identifier. -/
theorem not_early_of_id
    {c d : Client} (hcore : Core n) (hc : c ∈ n.clients) (hd : d ∈ n.clients) (hid : d.id = c.id)
    (hst : c.state.early = false) :
    d.state.early = false := by
  by_contra hearly
  have hnone := (hcore.unnamed d hd).mpr (by simpa using hearly)
  have := (hcore.unnamed c hc).mp (by rw [← hid, hnone])
  simp [hst] at this

/-- What is queued for a client is queued for one that is there, and for one without an
identifier it is a `PINGREQ`. -/
theorem Sends.client
    (hcore : Core n) (hen : e.enabled n) (h : Sends n e (.client p) x) :
    ∃ c ∈ n.clients, c.ptr = p ∧ (c.state.early → byteAt x 0 = Proto.PINGREQ) := by
  have prim : ∀ {p i}, n.Primary p i →
      ∃ c ∈ n.clients, c.ptr = p ∧ (c.state.early → byteAt x 0 = Proto.PINGREQ) := by
    rintro p i ⟨c, hc, hptr, hst, -⟩
    exact ⟨c, hc, hptr, fun hearly => by simp [hst, ClState.early] at hearly⟩
  have tree : ∀ {i c}, n.clientTreeSearch i = some c →
      ∃ d ∈ n.clients, d.ptr = c.ptr ∧ (d.state.early → byteAt x 0 = Proto.PINGREQ) := by
    intro i c hs
    obtain ⟨hc, hst, -⟩ := clientTreeSearch_primary hs
    exact ⟨c, hc, rfl, fun hearly => by simp [hst, ClState.early] at hearly⟩
  have named : ∀ {d : Client}, d ∈ n.clients → d.state.early = false →
      ∃ c ∈ n.clients, c.ptr = d.ptr ∧ (c.state.early → byteAt x 0 = Proto.PINGREQ) :=
    fun {d} hd hst => ⟨d, hd, rfl, fun hearly => by simp [hst] at hearly⟩
  have sender : ∀ {ci f}, e = .c2nFrame ci f →
      ∃ c ∈ n.clients, c.ptr = ci ∧ (c.state.early → byteAt x 0 = Proto.PINGREQ) := by
    rintro ci f rfl
    simp only [NodeEvent.enabled, List.any_eq_true, decide_eq_true_eq] at hen
    obtain ⟨c, hc, hptr, hst, -⟩ := hen
    refine ⟨c, hc, hptr, fun hearly => ?_⟩
    rcases hst with hst | hst <;> simp [hst, ClState.early] at hearly
  cases h with
  | connreqinc ci f i o hk hprim hs hne hno => exact tree hs
  | notfound p f i hk hprim hs hwait hempty => exact prim hprim
  | denied ci p f i l hk hprim hs hst hp1 =>
      exact prim ((hcore.ends l (cclinkListSearch_spec hs).1).p1 p hp1)
  | clientPingrep p f a b hk => exact sender rfl
  | multilogin me d f hf hme hst hd hid hne => exact named hd (not_early_of_id hcore hme hd hid hst)
  | clnodelist p f items hk hscan => exact sender rfl
  | connreqincRemote nl f c hk hs => exact tree hs
  | foundRemote nl p f l hk hs hp1 =>
      exact prim ((hcore.ends l (cclinkListSearch_spec hs).1).p1 p hp1)
  | notfoundRemote nl p f l hk hs hp1 =>
      exact prim ((hcore.ends l (cclinkListSearch_spec hs).1).p1 p hp1)
  | multiloginNode nl f c d hk hc hst hv hd hid =>
      exact named hd (not_early_of_id hcore hc hd hid (by rw [hst]; rfl))
  | found i io l p hshut hi hty hl hst hp1 => exact prim ((hcore.ends l hl).p1 p hp1)
  | clientPingreq c a b hc htick hidle => exact ⟨c, hc, rfl, fun _ => byteAt_head⟩

/-- A message in the write buffer of a client was there before, for the same client, or is
queued by the call. -/
theorem nodeStep_queued
    {c' : Client}
    (hcore : Core n) (hstep : nodeStep n e = some m) (hc' : c' ∈ m.clients) (hx : x ∈ c'.pushed) :
    ∃ c ∈ n.clients, c.Named c' ∧ (x ∈ c.pushed ∨
      Sends n e (.client c.ptr) x ∧ (c.state.early → byteAt x 0 = Proto.PINGREQ)) := by
  rcases (nodeStep_adds hcore hstep).queued (.client c'.ptr) x ⟨c', hc', rfl, hx⟩ with hold | hs
  · obtain ⟨c, hc, hptr, hxc⟩ := hold
    exact ⟨c, hc, nodeStep_named hcore hstep hc hc' hptr.symm, .inl hxc⟩
  · obtain ⟨c, hc, hptr, hearly⟩ := hs.client hcore (nodeStep_eq_some.mp hstep).1
    rw [← hptr] at hs
    exact ⟨c, hc, nodeStep_named hcore hstep hc hc' hptr.symm, .inr ⟨hs, hearly⟩⟩

end Receivers

/-- Clients without an identifier have only been asked for a sign of life. -/
def Node.Discreet (n : Node) : Prop :=
  ∀ c ∈ n.clients, c.state.early → ∀ x ∈ c.pushed, byteAt x 0 = Proto.PINGREQ

theorem nodeStep_discreet
    {n m : Node} {e : NodeEvent}
    (hcore : Core n) (h : n.Discreet) (hstep : nodeStep n e = some m) :
    m.Discreet := by
  intro c' hc' hearly x hx
  obtain ⟨c, hc, hnamed, hby⟩ := nodeStep_queued hcore hstep hc' hx
  have hst : c.state.early := by
    by_contra hst
    have := (hnamed.named (by simpa using hst)).2
    simp [hearly] at this
  rcases hby with hold | ⟨-, hping⟩
  · exact h c hc hst x hold
  · exact hping hst

/-- **Who has not authenticated is told nothing.**  In every state that a node reaches, what it
has queued for a client whose certificate it has not checked is `PINGREQ` messages, and nothing
else. -/
theorem unauthenticated_told_nothing
    {n : Node} {c : Client} {x : Frame}
    (hn : Reachable n) (hc : c ∈ n.clients)
    (hst : c.state = .waitAnonTlsShutdown ∨ c.state = .tlsNegotiation) (hx : x ∈ c.pushed) :
    byteAt x 0 = Proto.PINGREQ := by
  obtain ⟨a, r, now, mem, rnd, verify, reached, es, hrun⟩ := hn
  have hstep : ∀ s e t, (Core s ∧ s.Discreet) → True → nodeStep s e = some t →
      Core t ∧ t.Discreet := fun s e t hs _ hstep =>
    ⟨nodeStep_core hs.1 hstep, nodeStep_discreet hs.1 hs.2 hstep⟩
  have hnone : (Node.init a r now mem rnd verify reached).Discreet := fun c hc => nomatch hc
  have hend := run_invariant hstep ⟨core_init, hnone⟩ meets_true hrun
  refine hend.2 c hc ?_ x hx
  rcases hst with hst | hst <;> rw [hst] <;> rfl

/-- A client that has stopped in the middle of its login is asked for a sign of life. -/
def loginStopped : List NodeEvent :=
  [.accept 10 ⟨7, 8⟩ true, .newconnRead 0 (readBytes (head Proto.INITREQ ++ [0, 5])),
    .newconnRead 0 shutdownDone, .clock 100, .timeoutC2n 1]

theorem unauthenticated_told_nothing_stopped :
    ∃ c ∈ (stateAfter freshNode loginStopped).clients, ∃ x ∈ c.pushed,
      c.state = .tlsNegotiation ∧ byteAt x 0 = Proto.PINGREQ := by
  have hreach := @stateAfter_reachable loginStopped (by decide +kernel)
  obtain ⟨c, hc, hst, hne⟩ : ∃ c ∈ (stateAfter freshNode loginStopped).clients,
      c.state = .tlsNegotiation ∧ c.pushed ≠ [] := by decide +kernel
  obtain ⟨x, hx⟩ := List.exists_mem_of_ne_nil c.pushed hne
  exact ⟨c, hc, x, hx, hst, unauthenticated_told_nothing hreach hc (.inr hst) hx⟩

end PicaPica
