import PicaPica.Node.LinkRecord

/-!
# Sockets of links

Which connection becomes a socket of a link.  `procmsg_CONNID` looks the link up,
chooses the party by the state of the link and compares the addresses,
`cclink_setwaitanontlsshutdown` assigns the socket, and `cclink_activate` lets the link
go on to the other party (`sockets_bound_to_party`).
-/

namespace PicaPica

open Table Machine

/-- The two ends of a link. -/
inductive Party
  | p1
  | p2
deriving DecidableEq

namespace CCLink

variable (l : CCLink)

def party : Party → Option Ptr
  | .p1 => l.p1
  | .p2 => l.p2

def sckOf : Party → Socket
  | .p1 => l.sckP1
  | .p2 => l.sckP2

end CCLink

namespace CcState

/-- The party whose connection the link waits for. -/
def awaits : CcState → Option Party
  | localWaitConnCle => some .p2
  | localWaitConnClr => some .p1
  | n2nClrWaitConnClr => some .p1
  | n2nCleWaitConnCle => some .p2
  | _ => none

/-- The party whose connection has arrived and still has to end the anonymous session. -/
def joining : CcState → Option Party
  | localWaitConnCleAnonTlsShutdown => some .p2
  | localWaitConnClrAnonTlsShutdown => some .p1
  | n2nClrWaitConnClrAnonTlsShutdown => some .p1
  | n2nCleWaitConnCleAnonTlsShutdown => some .p2
  | _ => none

/-- The connection of the party has not arrived yet. -/
def lacks : CcState → Party → Bool
  | localWaitRep, _ => true
  | localWaitConnCle, _ => true
  | localWaitConnCleAnonTlsShutdown, .p1 => true
  | localWaitConnClr, .p1 => true
  | n2nClrWaitSearch, _ => true
  | n2nClrWaitRep, _ => true
  | n2nClrWaitConnClr, _ => true
  | n2nClrWaitConnClrAnonTlsShutdown, .p2 => true
  | n2nClrActive, .p2 => true
  | n2nCleWaitRep, _ => true
  | n2nCleWaitConnCle, _ => true
  | n2nCleWaitConnCleAnonTlsShutdown, .p1 => true
  | n2nCleActive, .p1 => true
  | _, _ => false

/-- Between two clients of this node: the callee has connected. -/
def calleeDone : CcState → Bool
  | localWaitConnClr => true
  | localWaitConnClrAnonTlsShutdown => true
  | localActive => true
  | _ => false

end CcState

section Sockets

variable {l l' : CCLink} {x : Party} {s : Socket}

theorem awaited_eq (l : CCLink) : l.awaited = l.state.awaits.map l.party := by
  cases hst : l.state <;> simp [CCLink.awaited, CcState.awaits, CCLink.party, hst]

theorem sckOf_setwaitconn : l.setwaitconn.sckOf x = l.sckOf x := by
  cases hst : l.state <;> cases x <;> simp [CCLink.setwaitconn, CCLink.sckOf, hst]

theorem sckOf_attachRemotecleNode {nl : Ptr} :
    (l.attachRemotecleNode nl).sckOf x = l.sckOf x := by
  rw [CCLink.attachRemotecleNode]
  split_ifs <;> cases x <;> rfl

theorem sckOf_activate : l.activate.sckOf x = l.sckOf x := by
  cases hst : l.state <;> cases x <;> simp [CCLink.activate, CCLink.sckOf, hst]

/-- Only the socket of the party that the link waits for is assigned. -/
theorem sckOf_setwaitanontlsshutdown :
    (l.setwaitanontlsshutdown s).sckOf x = if l.state.awaits = some x then s else l.sckOf x := by
  cases hst : l.state <;> cases x <;>
    simp [CCLink.setwaitanontlsshutdown, CCLink.allocbufs, CCLink.sckOf, CcState.awaits, hst]

theorem sckOf_of_supplies (h : l'.supplies = l.supplies) : l'.sckOf x = l.sckOf x := by
  simp only [CCLink.supplies, Prod.mk.injEq] at h
  cases x
  · exact h.1
  · exact h.2.1

theorem joining_setwaitanontlsshutdown
    (h : l.state.awaits = some x) :
    (l.setwaitanontlsshutdown s).state.joining = some x := by
  cases hst : l.state <;> simp_all [CCLink.setwaitanontlsshutdown, CcState.awaits, CcState.joining]

/-- A party that has not connected has no socket. -/
def CCLink.Unbound (l : CCLink) : Prop :=
  ∀ x, l.state.lacks x → l.sckOf x = -1

theorem unbound_setwaitconn (h : l.Unbound) : l.setwaitconn.Unbound := by
  intro x hx
  rw [sckOf_setwaitconn]
  apply h x
  cases hst : l.state <;> simp_all [CCLink.setwaitconn, CcState.lacks]

theorem unbound_attachRemotecleNode {nl : Ptr} (h : l.Unbound) :
    (l.attachRemotecleNode nl).Unbound := by
  intro x hx
  rw [sckOf_attachRemotecleNode]
  apply h x
  rw [CCLink.attachRemotecleNode] at hx
  split_ifs at hx with hst
  · rw [hst]
    rfl
  · exact hx

theorem unbound_activate (h : l.Unbound) : l.activate.Unbound := by
  intro x hx
  rw [sckOf_activate]
  apply h x
  cases hst : l.state <;> cases x <;> simp_all [CCLink.activate, CcState.lacks]

theorem unbound_setwaitanontlsshutdown (h : l.Unbound) :
    (l.setwaitanontlsshutdown s).Unbound := by
  intro x hx
  rw [sckOf_setwaitanontlsshutdown]
  split_ifs with haw
  · cases hst : l.state <;> cases x <;>
      simp_all [CCLink.setwaitanontlsshutdown, CcState.awaits, CcState.lacks]
  · apply h x
    cases hst : l.state <;> cases x <;>
      simp_all [CCLink.setwaitanontlsshutdown, CcState.awaits, CcState.lacks]

theorem unbound_kept {n₀ : Node} {e : NodeEvent} : LinkKept n₀ e CCLink.Unbound := by
  refine ⟨fun hstart x _ => ?_, fun hchange h => ?_⟩
  · cases hstart <;> cases x <;> rfl
  · cases hchange with
    | same => exact h
    | attach nl => exact unbound_attachRemotecleNode h
    | setwaitconn => exact unbound_setwaitconn h
    | connid i f c => exact unbound_setwaitanontlsshutdown h
    | activate i io => exact unbound_activate h
    | relay l' hst hcore hidle hby =>
        intro x hx
        rw [sckOf_of_supplies (unseen_supplies.relayedBy hby)]
        apply h x
        rwa [← state_of_core hcore]

/-- The party a link waits for has no socket. -/
theorem CCLink.Unbound.awaits (h : l.Unbound) (haw : l.state.awaits = some x) :
    l.sckOf x = -1 := by
  apply h x
  cases hst : l.state <;> cases x <;> simp_all [CcState.awaits, CcState.lacks]

end Sockets

/-! ## Slots and the sockets they become -/

/-- The connection in a slot that refers to a link is the socket of the party that is
joining. -/
def Node.SlotSockets (n : Node) : Prop :=
  ∀ i, ∀ l ∈ n.cclinks, (n.slot i).iconn = some l.ptr →
    ∀ x, l.state.joining = some x → (n.slot i).sck = l.sckOf x

section SlotSockets

variable {n₀ n n' : Node} {e : NodeEvent} {i : Nat} {g : NewConn → NewConn}

/-- Links come from links, and those a slot refers to stay as they are. -/
theorem Node.SlotSockets.links
    (h : n.SlotSockets) (hcore : Core n) (hslots : ∀ i, n'.slot i = n.slot i)
    (hlinks : ∀ l' ∈ n'.cclinks, l' ∈ n.cclinks ∨ n.next ≤ l'.ptr ∨
      ∃ l ∈ n.cclinks, l'.ptr = l.ptr ∧
        ∀ i, (n.slot i).iconn = some l.ptr → l.state.anon → l' = l) :
    n'.SlotSockets := by
  intro i l' hl' hi
  rw [hslots] at hi ⊢
  rcases hlinks l' hl' with hl | hnew | ⟨l, hl, hptr, hsame⟩
  · exact h i l' hl hi
  · exact absurd ((hcore.slots i).old _ hi) (Nat.not_lt_of_le hnew)
  · rw [hptr] at hi
    rw [hsame i hi ((hcore.slots i).link _ hi l hl rfl)]
    exact h i l hl hi

/-- A slot is changed so that it refers to what it did, or to no link. -/
theorem Node.SlotSockets.setSlot
    (h : n.SlotSockets)
    (hg : (g (n.slot i)).iconn = (n.slot i).iconn ∧ (g (n.slot i)).sck = (n.slot i).sck ∨
      ∀ l ∈ n.cclinks, (g (n.slot i)).iconn ≠ some l.ptr) :
    (n.setSlot i g).SlotSockets := by
  intro j l hl hj
  rw [slot_setSlot] at hj ⊢
  split_ifs at hj ⊢ with hji
  · rcases hg with ⟨hiconn, hsck⟩ | hno
    · rw [hsck]
      exact h i l hl (hiconn ▸ hj)
    · exact absurd hj (hno l hl)
  · exact h j l hl hj

/-- Fewer links. -/
theorem Node.SlotSockets.fewer
    (h : n.SlotSockets) (hslots : ∀ i, n'.slot i = n.slot i)
    (hlinks : ∀ l ∈ n'.cclinks, l ∈ n.cclinks) :
    n'.SlotSockets := by
  intro i l hl hi
  rw [hslots] at hi ⊢
  exact h i l (hlinks l hl) hi

theorem slotSockets_free (h : n.SlotSockets) : (n.newconnFree i).SlotSockets := by
  rw [Node.newconnFree]
  refine h.setSlot (.inr fun l _ => ?_)
  rintro ⟨⟩

theorem modify_link
    {p : Ptr} {g : CCLink → CCLink} {l' : CCLink}
    (hg : ∀ l ∈ n.cclinks, (g l).ptr = l.ptr ∧ (l.state.anon → g l = l))
    (hl' : l' ∈ modify CCLink.ptr p g n.cclinks) :
    ∃ l ∈ n.cclinks, l'.ptr = l.ptr ∧
      ∀ i, (n.slot i).iconn = some l.ptr → l.state.anon → l' = l := by
  obtain ⟨l, hl, rfl⟩ := mem_modify.mp hl'
  refine ⟨l, hl, ?_⟩
  split_ifs
  · exact ⟨(hg l hl).1, fun _ _ => (hg l hl).2⟩
  · exact ⟨rfl, fun _ _ _ => rfl⟩

/-- The connection that is bound to a link is in one slot. -/
theorem Node.SlotSockets.bindSlot
    {l : CCLink}
    (h : n.SlotSockets) (hcore : Core n) (hl : l ∈ n.cclinks) (haw : l.awaited ≠ none)
    (hocc : (n.slot i).sck ≠ -1) :
    (n.bindSlot i l).SlotSockets := by
  intro j l' hl' hj x hx
  obtain ⟨y, hy, rfl⟩ := mem_modify.mp hl'
  change ((n.setSlot i _).slot j).iconn = _ at hj
  change ((n.setSlot i _).slot j).sck = _
  have hptr : (if y.ptr = l.ptr then y.setwaitanontlsshutdown (n.slot i).sck else y).ptr =
      y.ptr := by
    split_ifs
    · exact endpoints_setwaitanontlsshutdown.ptr
    · rfl
  rw [hptr] at hj
  rw [slot_setSlot] at hj ⊢
  by_cases hji : j = i
  · subst hji
    rw [if_pos ⟨rfl, lt_of_slot hocc⟩] at hj ⊢
    simp only [Option.some.injEq] at hj
    rw [if_pos hj.symm] at hx ⊢
    obtain rfl := hcore.linksDistinct.eq hy hl hj.symm
    rw [sckOf_setwaitanontlsshutdown]
    rw [awaited_eq] at haw
    cases hst : y.state.awaits with
    | none => simp [hst] at haw
    | some z =>
        rw [joining_setwaitanontlsshutdown hst] at hx
        cases hx
        rw [if_pos rfl]
  · rw [if_neg (fun hc => hji hc.1)] at hj ⊢
    by_cases hyl : y.ptr = l.ptr
    · -- the link does not wait for the end of a session yet
      obtain rfl := hcore.linksDistinct.eq hy hl hyl
      have hanon := (hcore.slots j).link _ hj y hy rfl
      rw [awaited_eq] at haw
      cases hst : y.state <;> simp_all [CcState.anon, CcState.awaits]
    · rw [if_neg hyl] at hx ⊢
      exact h j y hy hj x hx

theorem Act.slotSockets
    (hcore : Core n) (h : n.SlotSockets) (hact : Act n₀ e n n') :
    n'.SlotSockets := by
  have same : ∀ i, n.slot i = n.slot i := fun _ => rfl
  have closed : ∀ {m : Node}, m.SlotSockets → ∀ {i g},
      ((m.setSlot i g).setSlot i fun nc =>
        { nc with sck := -1, buf := [], iconn := none, type := .unknown }).SlotSockets := by
    intro m hm i g
    rw [setSlot_setSlot]
    exact hm.setSlot (.inr fun _ _ => nofun)
  have dropped : ∀ {c : Client}, c ∈ n.clients → (n.dropClient c).SlotSockets := by
    intro c hc
    refine h.fewer (fun i => ?_) fun l hl => ?_
    · rw [Node.slot, dropClient_newconns hcore hc, Node.slot]
    · rw [dropClient_cclinks hcore hc] at hl
      exact (List.mem_filter.mp hl).1
  have without : ∀ l : CCLink, (n.dropLink l).SlotSockets := fun l =>
    h.fewer same fun l hl => (mem_remove.mp hl).1
  cases hact with
  | deleteClient c call hc hdel hleave => exact dropped hc
  | deleteNodelink nl hnl hdel => exact h.fewer same fun l hl => (List.mem_filter.mp hl).1
  | addLink l hl hask =>
      refine h.links hcore same fun l' hl' => ?_
      rcases List.mem_append.mp hl' with hl' | hl'
      · exact .inl hl'
      · obtain rfl := List.mem_singleton.mp hl'
        exact .inr (.inl (Nat.le_of_eq (linkStart_ok hl).1.symm))
  | attach l nl f he hk hlinked hs =>
      refine h.links hcore same fun l' hl' => .inr (.inr (modify_link (fun l _ => ?_) hl'))
      refine ⟨endpoints_attachRemotecleNode.ptr, fun hanon => ?_⟩
      cases hst : l.state <;> simp_all [CCLink.attachRemotecleNode, CcState.anon]
  | allow l ci id f he hk hp hs hst | n2nallow l nl f he hk hs hp1 hm =>
      refine h.links hcore same fun l' hl' => .inr (.inr (modify_link (fun l _ => ?_) hl'))
      refine ⟨endpoints_setwaitconn.ptr, fun hanon => ?_⟩
      cases hst : l.state <;> simp_all [CCLink.setwaitconn, CcState.anon]
  | relay l m hl hst heq hidle hby =>
      refine h.links hcore same fun l' hl' => .inr (.inr ?_)
      obtain ⟨y, hy, rfl⟩ := mem_modify.mp hl'
      refine ⟨y, hy, ?_⟩
      split_ifs with hp
      · obtain rfl := hcore.linksDistinct.eq hy hl hp
        exact ⟨(endpoints_of_core heq).ptr, fun _ _ hanon => absurd hst (active_of_anon hanon)⟩
      · exact ⟨rfl, fun _ _ _ => rfl⟩
  | deleteLink l hl hdel he => exact without l
  | takeSlot i he hfree =>
      have hnone := (hcore.slots i).idle (.inl hfree)
      have hset : (n.setSlot i fun nc =>
          { nc with sck := -1, buf := [], tmst := n.now }).SlotSockets :=
        h.setSlot (.inr fun l _ => by simp [hnone])
      exact hset.fewer (fun _ => rfl) fun l hl => hl
  | openSlot i s a he hs hfree hold =>
      have hnone := (hcore.slots i).idle (.inl hfree)
      exact h.setSlot (.inr fun l _ => by simp [hnone])
  | greeted i he hst | fillSlot i b he | answered i he hst | request i t st he hocc href hone ht =>
      exact h.setSlot (.inl ⟨rfl, rfl⟩)
  | initreq i he hocc hone =>
      have hadd : (n.addClient (n.newClient i)).SlotSockets := h.fewer same fun l hl => hl
      refine hadd.setSlot (.inr fun l hl heq => ?_)
      simp only [Option.some.injEq] at heq
      exact absurd (hcore.linksOld l hl) (heq ▸ Nat.lt_irrefl _)
  | connid i l f c he hocc hnone hs haw hc haddr hbrings hid hsame =>
      exact h.bindSlot hcore (cclinkListSearch_spec hs).1 (by simp [haw]) hocc
  | connidLost i l he hfail hocc hnone hl haw =>
      refine (without l).setSlot (.inr fun l' hl' heq => ?_)
      simp only [Option.some.injEq] at heq
      exact (mem_remove.mp hl').2 heq.symm
  | close i g n' he hg htype hclose =>
      obtain ⟨k, hk, rfl⟩ := newconnClose_ok hclose
      rcases hk with ⟨-, rfl⟩ | ⟨c, hc, -, -, rfl⟩ | ⟨l, hl, -, -, rfl⟩
      · exact closed h
      · rw [dropClient_logged_setSlot]
        exact closed (dropped hc)
      · rw [dropLink_setSlot]
        exact closed (without l)
  | clientReady i c he hi hty hc => exact slotSockets_free (h.fewer same fun l hl => hl)
  | linkReady i l he hi hty hl hwait hdone hlinks hslots =>
      have hfree : (n.newconnFree i).SlotSockets := slotSockets_free h
      refine hfree.links hcore.free (fun _ => rfl) fun l' hl' => .inr (.inr ?_)
      obtain ⟨y, hy, rfl⟩ := mem_modify.mp hl'
      refine ⟨y, hy, ?_⟩
      split_ifs with hp
      · refine ⟨endpoints_activate.ptr, fun j hj => ?_⟩
        exact absurd (hp ▸ hj) (free_not_held hcore hi j)
      · exact ⟨rfl, fun _ _ _ => rfl⟩
  | nodeReady i nl he hty hptr hsck => exact slotSockets_free (h.fewer same fun l hl => hl)
  | _ => exact h.fewer same fun l hl => hl

end SlotSockets

/-! ## One call -/

/-- The call binds the connection `s` to a party of the link: a `CONNID` names the two
clients of the link, it arrives from the address of the party, and the link waits for
this party. -/
structure Binds (n : Node) (e : NodeEvent) (l : CCLink) (x : Party) (s : Socket) : Prop where
  waiting : l.state.awaits = some x
  unset : l.sckOf x = -1
  connid : ∃ i f, ∃ c ∈ n.clients, e.brings n i f ∧ byteAt f 0 = Proto.CONNID ∧
    idAt f 2 = l.callerId ∧ idAt f (2 + idSize) = l.calleeId ∧
    l.party x = some c.ptr ∧ (n.slot i).addr.addr = c.addr.addr ∧ (n.slot i).sck = s

/-- The call completes the shutdown of the anonymous session on the callee's connection. -/
def ShutsDown (n : Node) (e : NodeEvent) (l : CCLink) : Prop :=
  ∃ i io, e = .newconnRead i io ∧ io.shutdown = .done ∧
    (n.slot i).state = .waitAnonTlsShutdown ∧ (n.slot i).type = .c2c ∧
    (n.slot i).iconn = some l.ptr ∧ (n.slot i).sck = l.sckP2

/-- How the link `l'` comes from the link `l` that was there before the call. -/
structure Since (n₀ : Node) (e : NodeEvent) (l l' : CCLink) : Prop where
  same : l.SameEndpoints l'
  sockets : ∀ x, l'.sckOf x = l.sckOf x ∨ Binds n₀ e l x (l'.sckOf x)
  callee : l'.state.calleeDone → l'.sckP2 = l.sckP2 ∧
    (l.state.calleeDone ∨ l.sckP1 = -1 ∧ ShutsDown n₀ e l)

/-- What is known while a call is going on. -/
structure SocketsDuring (n₀ : Node) (e : NodeEvent) (n : Node) : Prop where
  core : Core n
  next : n₀.next ≤ n.next
  links : ∀ l' ∈ n.cclinks, (∃ l ∈ n₀.cclinks, Since n₀ e l l') ∨
    n₀.next ≤ l'.ptr ∧ ∀ x, l'.sckOf x = -1

section During

variable {n₀ n n' : Node} {e : NodeEvent} {l l' l'' : CCLink}

theorem Since.refl : Since n₀ e l l :=
  ⟨⟨rfl, rfl, rfl, rfl, rfl, rfl⟩, fun _ => .inl rfl, fun h => ⟨rfl, .inl h⟩⟩

/-- A change that leaves the sockets alone and does not bring the callee. -/
theorem Since.quiet
    (h : Since n₀ e l l') (hsame : l'.SameEndpoints l'')
    (hsck : ∀ x, l''.sckOf x = l'.sckOf x) (hdone : l''.state.calleeDone → l'.state.calleeDone) :
    Since n₀ e l l'' := by
  refine ⟨h.same.trans hsame, fun x => ?_, fun hst => ?_⟩
  · rw [hsck]
    exact h.sockets x
  · have hp2 : l''.sckP2 = l'.sckP2 := hsck .p2
    rw [hp2]
    exact h.callee (hdone hst)

/-- The link was not touched by the call before. -/
theorem since_connid
    {i : Nat} {f : Frame} {c : Client}
    (hunbound : l.Unbound)
    (hs : n.cclinkListSearch (idAt f 2) (idAt f (2 + idSize)) = some l)
    (haw : l.awaited = some (some c.ptr)) (hc : c ∈ n.clients)
    (haddr : (n.slot i).addr.addr = c.addr.addr) (hbrings : e.brings n₀ i f)
    (hid : byteAt f 0 = Proto.CONNID) (hsame : n₀.Unmoved n i) :
    Since n₀ e l (l.setwaitanontlsshutdown (n.slot i).sck) := by
  refine ⟨endpoints_setwaitanontlsshutdown, fun x => ?_, fun hdone => ?_⟩
  · rw [sckOf_setwaitanontlsshutdown]
    split_ifs with hx
    · obtain ⟨-, hcaller, hcallee⟩ := cclinkListSearch_spec hs
      refine .inr ⟨hx, hunbound.awaits hx, i, f, c, hsame.clients ▸ hc, hbrings, hid,
        hcaller.symm, hcallee.symm, ?_, hsame.addr ▸ haddr, hsame.sck.symm⟩
      rw [awaited_eq, hx] at haw
      exact Option.some.inj haw
    · exact .inl rfl
  · cases hst : l.state <;>
      simp_all [CCLink.setwaitanontlsshutdown, CCLink.allocbufs, CcState.calleeDone]

theorem since_activate
    {i : Nat} {io : NewconnResults}
    (hsockets : n₀.SlotSockets) (hl : l ∈ n₀.cclinks) (hunbound : l.Unbound)
    (hi : (n.slot i).iconn = some l.ptr) (hty : (n.slot i).type = .c2c)
    (hwait : (n.slot i).state = .waitAnonTlsShutdown)
    (he : e = .newconnRead i io) (hshut : io.shutdown = .done) (hslots : n.newconns = n₀.newconns) :
    Since n₀ e l l.activate := by
  have hslot : n.slot i = n₀.slot i := by rw [Node.slot, hslots, Node.slot]
  rw [hslot] at hi hty hwait
  have hp2 : l.activate.sckP2 = l.sckP2 := @sckOf_activate l .p2
  refine ⟨endpoints_activate, fun x => .inl sckOf_activate, fun hdone => ⟨hp2, ?_⟩⟩
  by_cases hcle : l.state = .localWaitConnCleAnonTlsShutdown
  · refine .inr ⟨hunbound .p1 (by rw [hcle]; rfl), i, io, he, hshut, hwait, hty, hi, ?_⟩
    exact hsockets i l hl hi .p2 (by rw [hcle]; rfl)
  · left
    cases hst : l.state <;> simp_all [CCLink.activate, CcState.calleeDone]

theorem SocketsDuring.act
    (hunbound : ∀ l ∈ n₀.cclinks, l.Unbound) (hsockets : n₀.SlotSockets)
    (h : SocketsDuring n₀ e n) (hact : Act n₀ e n n') :
    SocketsDuring n₀ e n' := by
  refine ⟨hact.core h.core, Nat.le_trans h.next (hact.next_le h.core), fun l' hl' => ?_⟩
  rcases hact.link_cases h.core hl' with ⟨l, hl, hchange⟩ | ⟨hstart, -, -⟩
  · -- a change that leaves the sockets alone
    have quiet : (∀ x, l'.sckOf x = l.sckOf x) →
        (l'.state.calleeDone → l.state.calleeDone) →
        (∃ l ∈ n₀.cclinks, Since n₀ e l l') ∨ n₀.next ≤ l'.ptr ∧ ∀ x, l'.sckOf x = -1 := by
      intro hsck hdone
      rcases h.links l hl with ⟨l₀, hl₀, hsince⟩ | ⟨hnew, hunset⟩
      · exact .inl ⟨l₀, hl₀, hsince.quiet hchange.endpoints hsck hdone⟩
      · refine .inr ⟨hchange.endpoints.ptr ▸ hnew, fun x => ?_⟩
        rw [hsck, hunset]
    cases hchange with
    | same => exact h.links _ hl
    | attach nl =>
        refine quiet (fun x => sckOf_attachRemotecleNode) fun hdone => ?_
        cases hst : l.state <;> simp_all [CCLink.attachRemotecleNode, CcState.calleeDone]
    | setwaitconn =>
        refine quiet (fun x => sckOf_setwaitconn) fun hdone => ?_
        cases hst : l.state <;> simp_all [CCLink.setwaitconn, CcState.calleeDone]
    | connid i f c hocc hs haw hc haddr hbrings hid hsame =>
        have hl₀ : l ∈ n₀.cclinks := hsame.cclinks ▸ hl
        exact .inl ⟨l, hl₀, since_connid (hunbound l hl₀) hs haw hc haddr hbrings hid hsame⟩
    | activate i io hi hty hwait he hshut hlinks hslots =>
        have hl₀ : l ∈ n₀.cclinks := hlinks ▸ hl
        exact .inl ⟨l, hl₀,
          since_activate hsockets hl₀ (hunbound l hl₀) hi hty hwait he hshut hslots⟩
    | relay m hst hcore hidle hby =>
        refine quiet (fun x => sckOf_of_supplies (unseen_supplies.relayedBy hby)) fun hdone => ?_
        rwa [state_of_core hcore] at hdone
  · refine .inr ⟨?_, fun x => ?_⟩
    · rw [(linkStart_ok hstart).1]
      exact h.next
    · cases hstart <;> cases x <;> rfl

/-- What is known of the sockets between the calls. -/
structure SocketsKnown (n : Node) : Prop where
  core : Core n
  unbound : ∀ l ∈ n.cclinks, l.Unbound
  slots : n.SlotSockets

theorem nodeStep_socketsKnown
    (h : SocketsKnown n) (hstep : nodeStep n e = some n') :
    SocketsKnown n' := by
  have hact : ∀ u v, (Core u ∧ u.SlotSockets) → Act n e u v → Core v ∧ v.SlotSockets :=
    fun u v hu hact => ⟨hact.core hu.1, hact.slotSockets hu.1 hu.2⟩
  have hend := changes_invariant hact ⟨h.core, h.slots⟩ (nodeStep_acts h.core hstep)
  exact ⟨hend.1, nodeStep_links unbound_kept h.core h.unbound hstep, hend.2⟩

theorem nodeStep_since
    (h : SocketsKnown n) (hstep : nodeStep n e = some n') :
    SocketsDuring n e n' := by
  have hbegin : SocketsDuring n e n := ⟨h.core, Nat.le_refl _, fun l hl => .inl ⟨l, hl, .refl⟩⟩
  exact changes_invariant (fun _ _ hm hact => hm.act h.unbound h.slots hact) hbegin
    (nodeStep_acts h.core hstep)

/-- The links of the later node that were there before, with the sockets they had. -/
def KeepsSockets (n n' : Node) : Prop :=
  n.next ≤ n'.next ∧ ∀ l' ∈ n'.cclinks, l'.ptr < n.next →
    ∃ l ∈ n.cclinks, l'.ptr = l.ptr ∧ ∀ x, l.sckOf x ≠ -1 → l'.sckOf x = l.sckOf x

theorem nodeStep_keepsSockets
    (h : SocketsKnown n) (hstep : nodeStep n e = some n') :
    KeepsSockets n n' := by
  have hduring := nodeStep_since h hstep
  refine ⟨hduring.next, fun l' hl' hold => ?_⟩
  rcases hduring.links l' hl' with ⟨l, hl, hsince⟩ | ⟨hnew, -⟩
  · refine ⟨l, hl, hsince.same.ptr, fun x hset => ?_⟩
    rcases hsince.sockets x with heq | hbinds
    · exact heq
    · exact absurd hbinds.unset hset
  · exact absurd hold (Nat.not_lt_of_le hnew)

theorem KeepsSockets.trans
    {m : Node}
    (h : KeepsSockets n m) (h' : KeepsSockets m n') :
    KeepsSockets n n' := by
  refine ⟨Nat.le_trans h.1 h'.1, fun l' hl' hold => ?_⟩
  obtain ⟨l, hl, hptr, hkept⟩ := h'.2 l' hl' (Nat.lt_of_lt_of_le hold h.1)
  obtain ⟨l₀, hl₀, hptr₀, hkept₀⟩ := h.2 l hl (hptr ▸ hold)
  refine ⟨l₀, hl₀, hptr.trans hptr₀, fun x hset => ?_⟩
  have hsame := hkept₀ x hset
  rw [← hsame]
  apply hkept
  rwa [hsame]

theorem run_keepsSockets
    {es : List NodeEvent}
    (h : SocketsKnown n) (hrun : run nodeStep n es = some n') :
    KeepsSockets n n' := by
  induction es generalizing n with
  | nil =>
      simp only [run, Option.some.injEq] at hrun
      subst hrun
      exact ⟨Nat.le_refl _, fun l hl _ => ⟨l, hl, rfl, fun _ _ => rfl⟩⟩
  | cons e es ih =>
      obtain ⟨m, hm, hrest⟩ := run_cons hrun
      exact (nodeStep_keepsSockets h hm).trans (ih (nodeStep_socketsKnown h hm) hrest)

end During

/-! ## All runs -/

section Runs

variable {n₀ n : Node} {es : List NodeEvent} {l : CCLink}

theorem socketsKnown_init
    {a : SockAddr} {r : Bool} {now : Nat} {mem : Nat → Bool} {rnd : Nat → UInt8}
    {verify : Ptr → Frame → Bool} {reached : List ClientEvent → Ptr → Bool} :
    SocketsKnown (Node.init a r now mem rnd verify reached) := by
  refine ⟨core_init, ?_, ?_⟩
  · intro l hl
    cases hl
  · intro i l hl
    cases hl

theorem run_socketsKnown
    (h : SocketsKnown n₀) (hrun : run nodeStep n₀ es = some n) :
    SocketsKnown n :=
  run_invariant (fun _ _ _ hs _ hstep => nodeStep_socketsKnown hs hstep) h meets_true hrun

/-- A socket that is set was bound by a call. -/
theorem bound_by_connid
    {x : Party}
    (h : SocketsKnown n₀) (hnone : n₀.cclinks = [])
    (hrun : run nodeStep n₀ es = some n) (hl : l ∈ n.cclinks) (hset : l.sckOf x ≠ -1) :
    ∃ before e after u, es = before ++ e :: after ∧ run nodeStep n₀ before = some u ∧
      ∃ l₀ ∈ u.cclinks, l₀.SameEndpoints l ∧ Binds u e l₀ x (l.sckOf x) := by
  have hcause : ∀ s e t, SocketsKnown s → True → nodeStep s e = some t →
      (∃ y ∈ t.cclinks, y.SameEndpoints l ∧ y.sckOf x = l.sckOf x) →
      (∃ y ∈ s.cclinks, y.SameEndpoints l ∧ y.sckOf x = l.sckOf x) ∨
        ∃ l₀ ∈ s.cclinks, l₀.SameEndpoints l ∧ Binds s e l₀ x (l.sckOf x) := by
    rintro s e t hs - hstep ⟨y, hy, hsame, heq⟩
    rcases (nodeStep_since hs hstep).links y hy with ⟨l₀, hl₀, hsince⟩ | ⟨-, hunset⟩
    · rcases hsince.sockets x with hkept | hbinds
      · exact .inl ⟨l₀, hl₀, hsince.same.trans hsame, hkept.symm.trans heq⟩
      · exact .inr ⟨l₀, hl₀, hsince.same.trans hsame, heq ▸ hbinds⟩
    · exact absurd (heq ▸ hunset x) hset
  rcases run_cause (fun s e t hs _ hstep => nodeStep_socketsKnown hs hstep) hcause h meets_true
    hrun ⟨l, hl, ⟨rfl, rfl, rfl, rfl, rfl, rfl⟩, rfl⟩ with ⟨y, hy, -⟩ | hfound
  · simp [hnone] at hy
  · exact hfound

/-- A link whose callee has connected has seen the end of the callee's session. -/
theorem callee_shut_down
    (h : SocketsKnown n₀) (hnone : n₀.cclinks = [])
    (hrun : run nodeStep n₀ es = some n) (hl : l ∈ n.cclinks) (hdone : l.state.calleeDone)
    (hset : l.sckP2 ≠ -1) :
    ∃ before e after u, es = before ++ e :: after ∧ run nodeStep n₀ before = some u ∧
      ∃ l₀ ∈ u.cclinks, l₀.SameEndpoints l ∧ l₀.sckP1 = -1 ∧ l₀.sckP2 = l.sckP2 ∧
        ShutsDown u e l₀ := by
  have hcause : ∀ s e t, SocketsKnown s → True → nodeStep s e = some t →
      (∃ y ∈ t.cclinks, y.SameEndpoints l ∧ y.state.calleeDone ∧ y.sckP2 = l.sckP2) →
      (∃ y ∈ s.cclinks, y.SameEndpoints l ∧ y.state.calleeDone ∧ y.sckP2 = l.sckP2) ∨
        ∃ l₀ ∈ s.cclinks, l₀.SameEndpoints l ∧ l₀.sckP1 = -1 ∧ l₀.sckP2 = l.sckP2 ∧
          ShutsDown s e l₀ := by
    rintro s e t hs - hstep ⟨y, hy, hsame, hydone, heq⟩
    rcases (nodeStep_since hs hstep).links y hy with ⟨l₀, hl₀, hsince⟩ | ⟨-, hunset⟩
    · obtain ⟨hkept, hdone₀ | ⟨hp1, hshut⟩⟩ := hsince.callee hydone
      · exact .inl ⟨l₀, hl₀, hsince.same.trans hsame, hdone₀, hkept.symm.trans heq⟩
      · exact .inr ⟨l₀, hl₀, hsince.same.trans hsame, hp1, hkept.symm.trans heq, hshut⟩
    · exact absurd (heq ▸ hunset .p2) hset
  rcases run_cause (fun s e t hs _ hstep => nodeStep_socketsKnown hs hstep) hcause h meets_true
    hrun ⟨l, hl, ⟨rfl, rfl, rfl, rfl, rfl, rfl⟩, hdone, rfl⟩ with ⟨y, hy, -⟩ | hfound
  · simp [hnone] at hy
  · exact hfound

/-- Of a link between two clients of this node, the caller connects last. -/
theorem calleeDone_of_sckP1
    (h : l.Unbound) (hk : l.state.kind = .loc) (hset : l.sckP1 ≠ -1) :
    l.state.calleeDone ∧ l.state.last := by
  cases hl : l.state.lacks .p1 with
  | true => exact absurd (h .p1 hl) hset
  | false =>
      cases hst : l.state <;>
        simp_all [CcState.lacks, CcState.kind, CcState.calleeDone, CcState.last]

end Runs

/-- **The sockets of a link belong to its clients.**  A socket of a link is set by a
`CONNID` for this link from the address of the party the link waits for, it is never
replaced, and on a link between two clients of this node the caller's socket is set
after the session on the callee's connection has been shut down. -/
theorem sockets_bound_to_party
    {a : SockAddr} {r : Bool} {now : Nat} {mem : Nat → Bool} {rnd : Nat → UInt8}
    {verify : Ptr → Frame → Bool} {reached : List ClientEvent → Ptr → Bool}
    {es fs : List NodeEvent} {n n' : Node}
    (hrun : run nodeStep (Node.init a r now mem rnd verify reached) es = some n)
    (hlater : run nodeStep n fs = some n') :
    (∀ l ∈ n.cclinks, ∀ x, l.sckOf x ≠ -1 →
      ∃ before e after u, es = before ++ e :: after ∧
        run nodeStep (Node.init a r now mem rnd verify reached) before = some u ∧
        ∃ l₀ ∈ u.cclinks, l₀.SameEndpoints l ∧ Binds u e l₀ x (l.sckOf x)) ∧
    (∀ l ∈ n.cclinks, ∀ l' ∈ n'.cclinks, l'.ptr = l.ptr →
      ∀ x, l.sckOf x ≠ -1 → l'.sckOf x = l.sckOf x) ∧
    ∀ l ∈ n.cclinks, l.state.kind = .loc → l.sckP1 ≠ -1 →
      ∃ before e after u, es = before ++ e :: after ∧
        run nodeStep (Node.init a r now mem rnd verify reached) before = some u ∧
        ∃ l₀ ∈ u.cclinks, l₀.SameEndpoints l ∧ l₀.sckP1 = -1 ∧ l₀.sckP2 = l.sckP2 ∧
          ShutsDown u e l₀ := by
  have hknown := run_socketsKnown socketsKnown_init hrun
  refine ⟨fun l hl x => bound_by_connid socketsKnown_init rfl hrun hl, ?_, ?_⟩
  · intro l hl l' hl' hptr x hset
    have hold : l'.ptr < n.next := hptr ▸ hknown.core.linksOld l hl
    obtain ⟨l₀, hl₀, hptr₀, hkept⟩ := (run_keepsSockets hknown hlater).2 l' hl' hold
    obtain rfl := hknown.core.linksDistinct.eq hl₀ hl (hptr₀.symm.trans hptr)
    exact hkept x hset
  · intro l hl hk hset
    obtain ⟨hdone, hlast⟩ := calleeDone_of_sckP1 (hknown.unbound l hl) hk hset
    have hsupplied : l.Supplied := run_links (fun _ _ _ => supplied_kept) meets_true hrun l hl
    exact callee_shut_down socketsKnown_init rfl hrun hl hdone
      (hsupplied.sckP2 hlast (by simp [hk]))

/-- The call of client 1 to client 2: the callee connects, then the caller. -/
theorem sockets_bound_to_party_connected :
    ∃ l ∈ (stateAfter freshNode callConnected).cclinks, l.sckP1 = 13 ∧ l.sckP2 = 12 ∧
      (∃ before e after u, callConnected = before ++ e :: after ∧
        run nodeStep freshNode before = some u ∧
        ∃ l₀ ∈ u.cclinks, l₀.SameEndpoints l ∧ Binds u e l₀ .p2 12) ∧
      ∃ before e after u, callConnected = before ++ e :: after ∧
        run nodeStep freshNode before = some u ∧
        ∃ l₀ ∈ u.cclinks, l₀.SameEndpoints l ∧ l₀.sckP1 = -1 ∧ l₀.sckP2 = l.sckP2 ∧
          ShutsDown u e l₀ := by
  have hrun := @stateAfter_run freshNode callConnected (by decide +kernel)
  obtain ⟨hbound, -, hshut⟩ := sockets_bound_to_party hrun
    (show run nodeStep (stateAfter freshNode callConnected) [] = some _ from rfl)
  obtain ⟨l, hl, hst, hs1, hs2⟩ : ∃ l ∈ (stateAfter freshNode callConnected).cclinks,
      l.state = .localActive ∧ l.sckP1 = 13 ∧ l.sckP2 = 12 := by decide +kernel
  have hp2 := hbound l hl .p2 (by simp [CCLink.sckOf, hs2])
  rw [show l.sckOf .p2 = 12 from hs2] at hp2
  exact ⟨l, hl, hs1, hs2, hp2, hshut l hl (by rw [hst]; rfl) (by simp [hs1])⟩

end PicaPica
