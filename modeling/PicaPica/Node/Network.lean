import PicaPica.Node.Names
import PicaPica.Node.InterNode
import PicaPica.Lib.Network

/-!
# A network of nodes

Any number of nodes run the program.  A message that one of them has queued for another node
can arrive at any node, at any time and more than once (`Lib/Network.lean`); `INITRESPOK` and
`VERDIFFER` are written without being queued.  The clients, and everything else the nodes take
events from, are arbitrary.

A node believes what other nodes write: `procmsg_N2NCONNREQOUTG` and `procmsg_N2NALLOW` act on
two identifiers in a message.  In a network in which all nodes run this code that is justified.
Whoever is told of a caller is told of one who asked for it (`caller_has_asked`), whoever is told
that a callee is there was allowed to connect by this callee after asking for it
(`found_after_consent`), no byte of a conversation leaves a node without this consent
(`relayed_with_consent`), and a `MULTILOGIN` message is one that a client has sent
(`notice_has_sender`).
-/

namespace PicaPica

open Table Machine

/-- How nodes exchange messages. -/
def nodeWire : Wire Node NodeEvent Frame where
  takes
    | .n2nFrame _ f => some f
    | _ => none
  out n := n.nodelinks.flatMap NodeLink.pushed
  free f := byteAt f 0 = Proto.INITRESPOK ∨ byteAt f 0 = Proto.VERDIFFER

/-- A node that has just been started. -/
def Node.Fresh (n : Node) : Prop :=
  ∃ a r now mem rnd verify reached, n = Node.init a r now mem rnd verify reached

/-- What clients say to their nodes. -/
inductive Word
  | asked (caller callee : Id)
  | allowed (caller callee : Id)
  | announced (f : Frame)

/-- The event brings the word of a client that has authenticated; who allows a caller answers
to a link that waits for it. -/
def Says (n : Node) (e : NodeEvent) : Word → Prop
  | .asked i j => ∃ ci f, e = .c2nFrame ci f ∧ byteAt f 0 = Proto.CONNREQOUTG ∧
      n.Primary ci i ∧ idAt f 2 = j
  | .allowed i j => ∃ ci f l, e = .c2nFrame ci f ∧ byteAt f 0 = Proto.CONNALLOW ∧
      n.Primary ci j ∧ idAt f 2 = i ∧ n.cclinkListSearch i j = some l ∧
      (l.state = .localWaitRep ∨ l.state = .n2nCleWaitRep)
  | .announced f => ∃ c ∈ n.clients, e = .c2nFrame c.ptr f ∧ isMultilogin f ∧
      c.state.early = false

/-- What a message between nodes says has been said by clients. -/
structure Backed (A : Word → Prop) (x : Frame) : Prop where
  request : byteAt x 0 = Proto.N2NCONNREQOUTG → A (.asked (idAt x 2) (idAt x (2 + idSize)))
  answer : byteAt x 0 = Proto.N2NALLOW → A (.allowed (idAt x 2) (idAt x (2 + idSize)))
  relayed : byteAt x 0 = Proto.N2NMSG → A (.allowed (idAt x 4) (idAt x (4 + idSize))) ∨
    A (.allowed (idAt x (4 + idSize)) (idAt x 4))
  notice : byteAt x 0 = Proto.MULTILOGIN → A (.announced x)

/-- What a message to the client with the identifier `i` says has been said by clients. -/
structure Told (A : Word → Prop) (i : Id) (x : Frame) : Prop where
  request : byteAt x 0 = Proto.CONNREQINC → A (.asked (idAt x 2) i)
  found : byteAt x 0 = Proto.FOUND → A (.allowed i (idAt x 2))
  notice : byteAt x 0 = Proto.MULTILOGIN → A (.announced x)

/-- Everything a node knows of the calls of clients has been said by them. -/
structure Justified (A : Word → Prop) (n : Node) : Prop where
  core : Core n
  discreet : n.Discreet
  asked : ∀ l ∈ n.cclinks, A (.asked l.callerId l.calleeId)
  allowed : ∀ l ∈ n.cclinks, l.state.undecided = false → A (.allowed l.callerId l.calleeId)
  told : ∀ c ∈ n.clients, ∀ x ∈ c.pushed, Told A c.id x
  backed : ∀ m ∈ n.nodelinks, ∀ x ∈ m.pushed, Backed A x

section Messages

variable {A B : Word → Prop} {x : Frame} {i j : Id} {k : Nat} {xs ys : List UInt8}

theorem byteAt_head_append : byteAt (head k ++ xs ++ ys) 0 = k % 256 := by
  rw [List.append_assoc, byteAt_head]

theorem idAt_head : idAt (head k ++ i.1) 2 = i := by
  simpa using @idAt_append (head k) [] i

theorem idAt_head_two :
    idAt (head k ++ i.1 ++ j.1) 2 = i ∧ idAt (head k ++ i.1 ++ j.1) (2 + idSize) = j := by
  constructor
  · simpa using @idAt_append (head k) j.1 i
  · simpa using @idAt_append (head k ++ i.1) [] j

theorem idAt_n2nmsg :
    idAt (n2nmsg i j xs) 4 = i ∧ idAt (n2nmsg i j xs) (4 + idSize) = j := by
  constructor
  · simpa [n2nmsg] using @idAt_append (head Proto.N2NMSG ++ le16 (2 * idSize + xs.length))
      (j.1 ++ xs) i
  · have := @idAt_append (head Proto.N2NMSG ++ le16 (2 * idSize + xs.length) ++ i.1) xs j
    have hlen : (head Proto.N2NMSG ++ le16 (2 * idSize + xs.length) ++ i.1).length =
        4 + idSize := by
      simp
      omega
    rw [hlen] at this
    simpa [n2nmsg] using this

theorem Backed.mono (h : ∀ w, A w → B w) (hx : Backed A x) : Backed B x :=
  ⟨fun hk => h _ (hx.request hk), fun hk => h _ (hx.answer hk),
    fun hk => (hx.relayed hk).imp (h _) (h _), fun hk => h _ (hx.notice hk)⟩

theorem Told.mono (h : ∀ w, A w → B w) (hx : Told A i x) : Told B i x :=
  ⟨fun hk => h _ (hx.request hk), fun hk => h _ (hx.found hk), fun hk => h _ (hx.notice hk)⟩

/-- Other messages say nothing of this kind. -/
theorem Backed.other
    (hx : byteAt x 0 = k)
    (hk : k ≠ Proto.N2NCONNREQOUTG ∧ k ≠ Proto.N2NALLOW ∧ k ≠ Proto.N2NMSG ∧
      k ≠ Proto.MULTILOGIN) :
    Backed A x := by
  subst hx
  exact ⟨fun h => absurd h hk.1, fun h => absurd h hk.2.1, fun h => absurd h hk.2.2.1,
    fun h => absurd h hk.2.2.2⟩

theorem Told.other
    (hx : byteAt x 0 = k)
    (hk : k ≠ Proto.CONNREQINC ∧ k ≠ Proto.FOUND ∧ k ≠ Proto.MULTILOGIN) :
    Told A i x := by
  subst hx
  exact ⟨fun h => absurd h hk.1, fun h => absurd h hk.2.1, fun h => absurd h hk.2.2⟩

theorem Told.of_request (h : A (.asked j i)) : Told A i (head Proto.CONNREQINC ++ j.1) := by
  refine ⟨fun _ => by rwa [idAt_head], fun hk => ?_, fun hk => ?_⟩
  · rw [byteAt_head] at hk
    cases hk
  · rw [byteAt_head] at hk
    cases hk

theorem Told.of_found (h : A (.allowed i j)) : Told A i (head Proto.FOUND ++ j.1) := by
  refine ⟨fun hk => ?_, fun _ => by rwa [idAt_head], fun hk => ?_⟩
  · rw [byteAt_head] at hk
    cases hk
  · rw [byteAt_head] at hk
    cases hk

theorem Told.of_notice (hk : byteAt x 0 = Proto.MULTILOGIN) (h : A (.announced x)) :
    Told A i x := by
  refine ⟨fun hk' => ?_, fun hk' => ?_, fun _ => h⟩
  · rw [hk] at hk'
    cases hk'
  · rw [hk] at hk'
    cases hk'

theorem Backed.of_notice (hk : byteAt x 0 = Proto.MULTILOGIN) (h : A (.announced x)) :
    Backed A x := by
  refine ⟨fun hk' => ?_, fun hk' => ?_, fun hk' => ?_, fun _ => h⟩
  · rw [hk] at hk'
    cases hk'
  · rw [hk] at hk'
    cases hk'
  · rw [hk] at hk'
    cases hk'

theorem Backed.of_request (h : A (.asked i j)) :
    Backed A (head Proto.N2NCONNREQOUTG ++ i.1 ++ j.1) := by
  obtain ⟨hi, hj⟩ := @idAt_head_two i j Proto.N2NCONNREQOUTG
  refine ⟨fun _ => by rwa [hi, hj], fun hk => ?_, fun hk => ?_, fun hk => ?_⟩
  · rw [byteAt_head_append] at hk
    cases hk
  · rw [byteAt_head_append] at hk
    cases hk
  · rw [byteAt_head_append] at hk
    cases hk

theorem Backed.of_answer (h : A (.allowed i j)) :
    Backed A (head Proto.N2NALLOW ++ i.1 ++ j.1) := by
  obtain ⟨hi, hj⟩ := @idAt_head_two i j Proto.N2NALLOW
  refine ⟨fun hk => ?_, fun _ => by rwa [hi, hj], fun hk => ?_, fun hk => ?_⟩
  · rw [byteAt_head_append] at hk
    cases hk
  · rw [byteAt_head_append] at hk
    cases hk
  · rw [byteAt_head_append] at hk
    cases hk

theorem Backed.of_relayed (h : A (.allowed i j) ∨ A (.allowed j i)) :
    Backed A (n2nmsg i j xs) := by
  obtain ⟨hi, hj⟩ := @idAt_n2nmsg i j xs
  have hkind : byteAt (n2nmsg i j xs) 0 = Proto.N2NMSG := by
    simpa using (@byteAt_n2nmsg i j xs []).1
  refine ⟨fun hk => ?_, fun hk => ?_, fun _ => by rwa [hi, hj], fun hk => ?_⟩
  · rw [hkind] at hk
    cases hk
  · rw [hkind] at hk
    cases hk
  · rw [hkind] at hk
    cases hk

end Messages

/-! ## One step -/

section Step

variable {A : Word → Prop} {n m : Node} {e : NodeEvent} {x : Frame} {p : Ptr}

/-- The message of another node has arrived on its way. -/
theorem backed_of_takes
    {nl : Ptr} {f : Frame}
    (htakes : ∀ x, nodeWire.takes (.n2nFrame nl f) = some x → nodeWire.free x ∨ Backed A x)
    (hk : byteAt f 0 ≠ Proto.INITRESPOK ∧ byteAt f 0 ≠ Proto.VERDIFFER) :
    Backed A f := by
  rcases htakes f rfl with hfree | hbacked
  · simp [nodeWire, hk.1, hk.2] at hfree
  · exact hbacked

/-- What is queued for a client has been said by clients. -/
theorem Sends.told
    {c : Client}
    (hjust : Justified A n) (htells : ∀ w, Says n e w → A w)
    (htakes : ∀ x, nodeWire.takes e = some x → nodeWire.free x ∨ Backed A x)
    (hc : c ∈ n.clients) (h : Sends n e (.client c.ptr) x) :
    Told A c.id x := by
  have hcore := hjust.core
  -- a client in the tree is the one with the address
  have named : ∀ {o : Client} {i : Id}, n.clientTreeSearch i = some o → o.ptr = c.ptr →
      c.id = i := by
    intro o i hs hptr
    obtain ⟨ho, -, hid⟩ := clientTreeSearch_primary hs
    rw [← hcore.clientsDistinct.eq ho hc hptr, hid]
  have caller : ∀ {l : CCLink}, l ∈ n.cclinks → l.p1 = some c.ptr → c.id = l.callerId := by
    intro l hl hp1
    obtain ⟨o, ho, hptr, -, hid⟩ := (hcore.ends l hl).p1 c.ptr hp1
    rw [← hcore.clientsDistinct.eq ho hc hptr, hid]
  generalize hr : Receiver.client c.ptr = r at h
  cases h with
  | connreqinc ci f i o hk hprim hs hne hno =>
      have hptr : o.ptr = c.ptr := (Receiver.client.inj hr).symm
      refine .of_request (htells _ ⟨ci, f, rfl, hk, hprim, ?_⟩)
      exact (named hs hptr).symm
  | notfound ci f i hk hprim hs hwait hempty => exact .other byteAt_head (by decide)
  | denied ci p f i l hk hprim hs hst hp1 => exact .other byteAt_head (by decide)
  | clientPingrep ci f a b hk => exact .other byteAt_head (by decide)
  | multilogin me d f hf hme hst hd hid hne =>
      have hkind : byteAt x 0 = Proto.MULTILOGIN := by
        simp only [isMultilogin, decide_eq_true_eq] at hf
        exact hf.1
      exact .of_notice hkind (htells _ ⟨me, hme, rfl, hf, hst⟩)
  | clnodelist ci f items hk hscan => exact .other byteAt_head_append (by decide)
  | connreqincRemote nl f o hk hs =>
      have hptr : o.ptr = c.ptr := (Receiver.client.inj hr).symm
      have hbacked := backed_of_takes htakes (by rw [hk]; decide)
      have hasked := hbacked.request hk
      rw [← named hs hptr] at hasked
      exact .of_request hasked
  | foundRemote nl p f l hk hs hp1 =>
      cases hr
      obtain ⟨hl, hcaller, -⟩ := cclinkListSearch_spec hs
      have hallowed := (backed_of_takes htakes (by rw [hk]; decide)).answer hk
      rw [← hcaller, ← caller hl hp1] at hallowed
      exact .of_found hallowed
  | notfoundRemote nl p f l hk hs hp1 => exact .other byteAt_head (by decide)
  | multiloginNode nl f o d hk ho hst hv hd hid =>
      exact .of_notice hk ((backed_of_takes htakes (by rw [hk]; decide)).notice hk)
  | found i io l p hshut hi hty hl hst hp1 =>
      cases hr
      have hallowed := hjust.allowed l hl (by rw [hst]; rfl)
      rw [← caller hl hp1] at hallowed
      exact .of_found hallowed
  | clientPingreq o a b ho htick hidle => exact .other byteAt_head (by decide)
  | _ => cases hr

/-- What is queued for a node has been said by clients. -/
theorem Sends.backed
    (hjust : Justified A n) (htells : ∀ w, Says n e w → A w) (h : Sends n e (.node p) x) :
    Backed A x := by
  cases h with
  | search ci p f i hk hprim hs hwait hlinked => exact .other byteAt_head (by decide)
  | deniedRemote ci p f i l hk hprim hs hst hnode => exact .other byteAt_head_append (by decide)
  | multiloginNodes me p f hf hme hst hlinked =>
      have hkind : byteAt x 0 = Proto.MULTILOGIN := by
        simp only [isMultilogin, decide_eq_true_eq] at hf
        exact hf.1
      exact .of_notice hkind (htells _ ⟨me, hme, rfl, hf, hst⟩)
  | newnode p f hk h2 h3 => exact .other byteAt_head (by decide)
  | nodelistreq p f a b hk h2 h3 => exact .other byteAt_head (by decide)
  | nodelist m f items hk hm hscan => exact .other byteAt_head_append (by decide)
  | n2nfound p f c hk hs => exact .other byteAt_head (by decide)
  | n2nconnreqoutg p f l hk hl hst hid => exact .of_request (hjust.asked l hl)
  | n2nnotfound p f hk hs => exact .other byteAt_head_append (by decide)
  | n2nmsgLost p f hk hcle hclr => exact .other byteAt_head_append (by decide)
  | nodePingrep p f a b hk => exact .other byteAt_head (by decide)
  | n2nallow i io l p hshut hi hty hl hst hnode =>
      exact .of_answer (hjust.allowed l hl (by rw [hst]; rfl))
  | nodePingreq m a b hm htick hidle => exact .other byteAt_head (by decide)
  | n2nmsg e l d p data he hl hst hnode hlen =>
      have hallowed := hjust.allowed l hl (by rw [hst]; cases d <;> rfl)
      cases d with
      | p1p2 => exact .of_relayed (.inl hallowed)
      | p2p1 => exact .of_relayed (.inr hallowed)
  | nodeconnreq s a => exact .other byteAt_head (by decide)

/-- A decision rests on the word of the callee. -/
theorem Decides.allowed
    {i j : Id} (htells : ∀ w, Says n e w → A w)
    (htakes : ∀ x, nodeWire.takes e = some x → nodeWire.free x ∨ Backed A x)
    (h : Decides n e i j) :
    A (.allowed i j) := by
  cases h with
  | connallow ci f i l hk hprim hs hst => exact htells _ ⟨ci, f, l, rfl, hk, hprim, rfl, hs, hst⟩
  | n2nallow nl f hk => exact (backed_of_takes htakes (by rw [hk]; decide)).answer hk

/-- A link is made for a caller who has asked for it. -/
theorem Makes.asked
    {l : CCLink} (htells : ∀ w, Says n e w → A w)
    (htakes : ∀ x, nodeWire.takes e = some x → nodeWire.free x ∨ Backed A x)
    (h : Makes n e l) :
    A (.asked l.callerId l.calleeId) := by
  cases h with
  | localLink ci f i o _ hk hprim hs hne hno hp1 hp2 hcaller hcallee =>
      rw [hcaller, hcallee]
      exact htells _ ⟨ci, f, rfl, hk, hprim, rfl⟩
  | callerSide ci f i _ hk hprim hs hp1 hp2 hcaller hcallee =>
      rw [hcaller, hcallee]
      exact htells _ ⟨ci, f, rfl, hk, hprim, rfl⟩
  | calleeSide nl f o _ hk hs hp1 hp2 hnode hcaller hcallee =>
      rw [hcaller, hcallee]
      exact (backed_of_takes htakes (by rw [hk]; decide)).request hk

/-- A client keeps what it has been told. -/
theorem Told.kept
    {c c' : Client}
    (hdiscreet : c.state.early → byteAt x 0 = Proto.PINGREQ) (hnamed : c.Named c')
    (h : Told A c.id x) :
    Told A c'.id x := by
  cases hst : c.state.early with
  | false => rwa [(hnamed.named hst).1]
  | true => exact .other (hdiscreet hst) (by decide)

/-- **A step relies on what clients have said.** -/
theorem nodeStep_justified
    (hjust : Justified A n) (htells : ∀ w, Says n e w → A w)
    (htakes : ∀ x, nodeWire.takes e = some x → nodeWire.free x ∨ Backed A x)
    (hstep : nodeStep n e = some m) :
    Justified A m := by
  have hcore := hjust.core
  have hadds := nodeStep_adds hcore hstep
  refine ⟨nodeStep_core hcore hstep, nodeStep_discreet hcore hjust.discreet hstep, ?_, ?_, ?_, ?_⟩
  · intro l hl
    rcases hadds.links l hl with ⟨l₀, hl₀, hgo⟩ | ⟨hmakes, -⟩
    · rw [hgo.same.callerId, hgo.same.calleeId]
      exact hjust.asked l₀ hl₀
    · exact hmakes.asked htells htakes
  · intro l hl hdec
    rcases hadds.links l hl with ⟨l₀, hl₀, hgo⟩ | ⟨-, hby⟩
    · rw [hgo.same.callerId, hgo.same.calleeId]
      rcases hgo.decided hdec with hold | hby
      · exact hjust.allowed l₀ hl₀ hold
      · exact hby.allowed htells htakes
    · exact (hby hdec).allowed htells htakes
  · intro c' hc' x hx
    obtain ⟨c, hc, hnamed, hold | ⟨hs, hearly⟩⟩ := nodeStep_queued hcore hstep hc' hx
    · exact (hjust.told c hc x hold).kept (fun hst => hjust.discreet c hc hst x hold) hnamed
    · exact (hs.told hjust htells htakes hc).kept hearly hnamed
  · intro l hl x hx
    rcases hadds.queued (.node l.ptr) x ⟨l, hl, rfl, hx⟩ with ⟨l₀, hl₀, -, hold⟩ | hs
    · exact hjust.backed l₀ hl₀ x hold
    · exact hs.backed hjust htells

theorem justified_attribution : Attribution nodeStep nodeWire Says Justified Backed where
  monoParty h hjust := ⟨hjust.core, hjust.discreet, fun l hl => h _ (hjust.asked l hl),
    fun l hl hdec => h _ (hjust.allowed l hl hdec), fun c hc x hx => (hjust.told c hc x hx).mono h,
    fun m hm x hx => (hjust.backed m hm x hx).mono h⟩
  monoMessage h hx := hx.mono h
  step htells hjust htakes hstep := nodeStep_justified hjust htells htakes hstep
  out hjust hx := by
    obtain ⟨m, hm, hx⟩ := List.mem_flatMap.mp hx
    exact hjust.backed m hm _ hx

theorem Node.Fresh.justified (h : n.Fresh) : Justified (fun _ => False) n := by
  obtain ⟨a, r, now, mem, rnd, verify, reached, rfl⟩ := h
  constructor
  · exact core_init
  · exact fun c hc => by simp [Node.init] at hc
  · exact fun l hl => by simp [Node.init] at hl
  · exact fun l hl => by simp [Node.init] at hl
  · exact fun c hc => by simp [Node.init] at hc
  · exact fun m hm => by simp [Node.init] at hm

end Step

/-! ## All runs of the network -/

/-- Two nodes are linked, and client `01..01` of the one calls client `02..02` of the other. -/
def askedAcross : List (Bool × NodeEvent) :=
  (clientLogin 10 0 1 (.ofByte 1) ++ [NodeEvent.nodewait 20 ⟨0x08080808, 2299⟩]).map (false, ·) ++
    (clientLogin 10 0 1 (.ofByte 2) ++ [NodeEvent.nodewait 20 ⟨0x08080808, 2299⟩]).map (true, ·) ++
    [(false, .c2nFrame 1 (head Proto.CONNREQOUTG ++ (Id.ofByte 2).1)),
      (true, .n2nFrame 2 (head Proto.SEARCH ++ (Id.ofByte 2).1)),
      (false, .n2nFrame 2 (head Proto.N2NFOUND ++ (Id.ofByte 2).1)),
      (true, .n2nFrame 2 (head Proto.N2NCONNREQOUTG ++ (Id.ofByte 1).1 ++ (Id.ofByte 2).1))]

/-- The callee allows the call and connects, and its node tells the other one. -/
def foundAcross : List (Bool × NodeEvent) :=
  askedAcross ++
    [(true, .c2nFrame 1 (head Proto.CONNALLOW ++ (Id.ofByte 1).1)),
      (true, .accept 12 ⟨7, 8⟩ true),
      (true, .newconnRead 1 (readBytes (head Proto.CONNID ++ (Id.ofByte 1).1 ++ (Id.ofByte 2).1))),
      (true, .newconnRead 1 shutdownDone),
      (false, .n2nFrame 2 (head Proto.N2NALLOW ++ (Id.ofByte 1).1 ++ (Id.ofByte 2).1))]

/-- The caller connects as well, and says something. -/
def relayedAcross : List (Bool × NodeEvent) :=
  foundAcross ++
    [(false, .accept 12 ⟨7, 8⟩ true),
      (false, .newconnRead 1 (readBytes (head Proto.CONNID ++ (Id.ofByte 1).1 ++ (Id.ofByte 2).1))),
      (false, .newconnRead 1 shutdownDone),
      (false, .c2cRead 3 12 [42] [42] relayEnv)]

/-- What holds at the end of a run of the two nodes. -/
theorem network_ends
    {P : Net Bool Node Frame → Prop} [DecidablePred P] {es : List (Bool × NodeEvent)}
    (h : (run (netStep nodeStep nodeWire) (Net.start fun _ => freshNode) es).any
      (fun w => decide (P w)) = true) :
    (∀ _ : Bool, freshNode.Fresh) ∧
      ∃ w, run (netStep nodeStep nodeWire) (Net.start fun _ => freshNode) es = some w ∧ P w :=
  ⟨fun _ => ⟨_, _, _, _, _, _, _, rfl⟩, run_ends h⟩

section Runs

variable {ι : Type} [DecidableEq ι] {s : ι → Node} {es : List (ι × NodeEvent)}
  {w : Net ι Node Frame} {i : ι}

/-- What the nodes and their messages rely on has been said by clients before. -/
theorem network_justified
    (hs : ∀ i, (s i).Fresh)
    (hrun : run (netStep nodeStep nodeWire) (Net.start s) es = some w) :
    (∀ i, Justified (Noted nodeStep nodeWire s Says es) (w.party i)) ∧
      ∀ x ∈ w.sent, Backed (Noted nodeStep nodeWire s Says es) x :=
  attribution justified_attribution (fun i => (hs i).justified) hrun

/-- Who has allowed a caller has been asked by it before. -/
theorem allowed_after_asked
    {a b : Id}
    (hs : ∀ i, (s i).Fresh) (h : Noted nodeStep nodeWire s Says es (.allowed a b)) :
    ∃ before x after u, es = before ++ x :: after ∧
      run (netStep nodeStep nodeWire) (Net.start s) before = some u ∧
      Says (u.party x.1) x.2 (.allowed a b) ∧
      Noted nodeStep nodeWire s Says before (.asked a b) := by
  obtain ⟨before, x, after, u, hes, hu, htells⟩ := h
  refine ⟨before, x, after, u, hes, hu, htells, ?_⟩
  obtain ⟨ci, f, l, -, -, -, -, hsearch, -⟩ := htells
  obtain ⟨hl, rfl, rfl⟩ := cclinkListSearch_spec hsearch
  exact ((network_justified hs hu).1 x.1).asked l hl

/-- **A caller has asked.**  A client is told of a caller only after a client that has
authenticated with the identifier of this caller has asked its node for it, wherever the two are
connected. -/
theorem caller_has_asked
    {c : Client} {f : Frame}
    (hs : ∀ i, (s i).Fresh)
    (hrun : run (netStep nodeStep nodeWire) (Net.start s) es = some w)
    (hc : c ∈ (w.party i).clients) (hf : f ∈ c.pushed) (hk : byteAt f 0 = Proto.CONNREQINC) :
    Noted nodeStep nodeWire s Says es (.asked (idAt f 2) c.id) :=
  (((network_justified hs hrun).1 i).told c hc f hf).request hk

/-- The callee is told of the caller at the other node. -/
theorem caller_has_asked_across :
    ∃ w, run (netStep nodeStep nodeWire) (Net.start fun _ => freshNode) askedAcross = some w ∧
      ∃ c ∈ (w.party true).clients, ∃ f ∈ c.pushed,
        Noted nodeStep nodeWire (fun _ : Bool => freshNode) Says askedAcross
          (.asked (idAt f 2) c.id) := by
  obtain ⟨hs, w, hrun, c, hc, f, hf, hk⟩ := @network_ends
    (fun w => ∃ c ∈ (w.party true).clients, ∃ f ∈ c.pushed, byteAt f 0 = Proto.CONNREQINC)
    inferInstance askedAcross (by decide +kernel)
  exact ⟨w, hrun, c, hc, f, hf, caller_has_asked hs hrun hc hf hk⟩

/-- **Consent in the network.**  A client is told that a callee is there only after this callee,
wherever it is connected, has allowed this client to connect, as an answer to its request. -/
theorem found_after_consent
    {c : Client} {f : Frame}
    (hs : ∀ i, (s i).Fresh)
    (hrun : run (netStep nodeStep nodeWire) (Net.start s) es = some w)
    (hc : c ∈ (w.party i).clients) (hf : f ∈ c.pushed) (hk : byteAt f 0 = Proto.FOUND) :
    ∃ before x after u, es = before ++ x :: after ∧
      run (netStep nodeStep nodeWire) (Net.start s) before = some u ∧
      Says (u.party x.1) x.2 (.allowed c.id (idAt f 2)) ∧
      Noted nodeStep nodeWire s Says before (.asked c.id (idAt f 2)) :=
  allowed_after_asked hs ((((network_justified hs hrun).1 i).told c hc f hf).found hk)

/-- The caller is told that the callee of the other node is there. -/
theorem found_after_consent_across :
    ∃ w, run (netStep nodeStep nodeWire) (Net.start fun _ => freshNode) foundAcross = some w ∧
      ∃ c ∈ (w.party false).clients, ∃ f ∈ c.pushed,
        ∃ before x after u, foundAcross = before ++ x :: after ∧
          run (netStep nodeStep nodeWire) (Net.start fun _ => freshNode) before = some u ∧
          Says (u.party x.1) x.2 (.allowed c.id (idAt f 2)) ∧
          Noted nodeStep nodeWire (fun _ : Bool => freshNode) Says before
            (.asked c.id (idAt f 2)) := by
  obtain ⟨hs, w, hrun, c, hc, f, hf, hk⟩ := @network_ends
    (fun w => ∃ c ∈ (w.party false).clients, ∃ f ∈ c.pushed, byteAt f 0 = Proto.FOUND)
    inferInstance foundAcross (by decide +kernel)
  exact ⟨w, hrun, c, hc, f, hf, found_after_consent hs hrun hc hf hk⟩

/-- **No conversation without consent.**  A link that is active at any node, and every message in
which nodes have passed on bytes of a conversation, is between a caller and a callee who has
allowed it. -/
theorem relayed_with_consent
    (hs : ∀ i, (s i).Fresh)
    (hrun : run (netStep nodeStep nodeWire) (Net.start s) es = some w) :
    (∀ i, ∀ l ∈ (w.party i).cclinks, l.state.active →
      Noted nodeStep nodeWire s Says es (.allowed l.callerId l.calleeId)) ∧
    ∀ f ∈ w.sent, byteAt f 0 = Proto.N2NMSG →
      Noted nodeStep nodeWire s Says es (.allowed (idAt f 4) (idAt f (4 + idSize))) ∨
      Noted nodeStep nodeWire s Says es (.allowed (idAt f (4 + idSize)) (idAt f 4)) := by
  obtain ⟨hparty, hsent⟩ := network_justified hs hrun
  refine ⟨fun i l hl hst => (hparty i).allowed l hl ?_, fun f hf => (hsent f hf).relayed⟩
  cases hact : l.state <;> simp_all [CcState.active, CcState.undecided]

/-- The first byte of a conversation. -/
theorem relayed_with_consent_across :
    ∃ w, run (netStep nodeStep nodeWire) (Net.start fun _ => freshNode) relayedAcross = some w ∧
      ∃ f ∈ w.sent, byteAt f 0 = Proto.N2NMSG ∧
        (Noted nodeStep nodeWire (fun _ : Bool => freshNode) Says relayedAcross
          (.allowed (idAt f 4) (idAt f (4 + idSize))) ∨
        Noted nodeStep nodeWire (fun _ : Bool => freshNode) Says relayedAcross
          (.allowed (idAt f (4 + idSize)) (idAt f 4))) := by
  obtain ⟨hs, w, hrun, f, hf, hk⟩ := @network_ends
    (fun w => ∃ f ∈ w.sent, byteAt f 0 = Proto.N2NMSG)
    inferInstance relayedAcross (by decide +kernel)
  exact ⟨w, hrun, f, hf, hk, (relayed_with_consent hs hrun).2 f hf hk⟩

/-- **A notice has a sender.**  A `MULTILOGIN` message that any client is given is, byte for byte,
one that a client which has authenticated has sent to its node. -/
theorem notice_has_sender
    {c : Client} {f : Frame}
    (hs : ∀ i, (s i).Fresh)
    (hrun : run (netStep nodeStep nodeWire) (Net.start s) es = some w)
    (hc : c ∈ (w.party i).clients) (hf : f ∈ c.pushed) (hk : byteAt f 0 = Proto.MULTILOGIN) :
    Noted nodeStep nodeWire s Says es (.announced f) :=
  (((network_justified hs hrun).1 i).told c hc f hf).notice hk

/-- One login of a client tells the other one. -/
theorem notice_has_sender_two :
    ∃ w, run (netStep nodeStep nodeWire) (Net.start fun _ => freshNode)
        ((twoLogins ++ [NodeEvent.c2nFrame 1 (multilogin [7])]).map (false, ·)) = some w ∧
      ∃ c ∈ (w.party false).clients, ∃ f ∈ c.pushed,
        Noted nodeStep nodeWire (fun _ : Bool => freshNode) Says
          ((twoLogins ++ [NodeEvent.c2nFrame 1 (multilogin [7])]).map (false, ·)) (.announced f) := by
  obtain ⟨hs, w, hrun, c, hc, f, hf, hk⟩ := @network_ends
    (fun w => ∃ c ∈ (w.party false).clients, ∃ f ∈ c.pushed, byteAt f 0 = Proto.MULTILOGIN)
    inferInstance ((twoLogins ++ [NodeEvent.c2nFrame 1 (multilogin [7])]).map (false, ·))
    (by decide +kernel)
  exact ⟨w, hrun, c, hc, f, hf, notice_has_sender hs hrun hc hf hk⟩

end Runs

end PicaPica
