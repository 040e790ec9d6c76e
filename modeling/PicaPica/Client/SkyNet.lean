import PicaPica.Proto

/-!
# The links of a client to the nodes

`SkyNet::Join` opens a link to every known node, the first one that is established
becomes `active_nodelink`, and `self_aware` tells the user interface whether there is
one.  `PICA_event_loop` handles the links one after another and reports what became
of them with the callbacks `nodelink_activated`, `nodelink_failed` and
`nodelink_closed`.
-/

namespace PicaPica

namespace Client

/-- `Nodes::NodeRecord`. -/
structure NodeRecord where
  address : String
  port : UInt16
deriving DecidableEq

/-- A text in UTF-8. -/
abbrev Text := List UInt8

/-- `QMap<QByteArray, QList<QString> >`. -/
abbrev Queues := List (Id × List Text)

/-- What the client tells the user interface and the list of nodes. -/
inductive Signal
  | becameSelfAware
  | lostSelfAwareness
  | statusMsg (msg : String) (isCritical : Bool)
  | unableToDeliver (peer : Id) (msg : Text)
  | updateStatus (nr : NodeRecord) (alive : Bool)
  | makeClean
deriving DecidableEq

/-- The address of a `PICA_c2n`. -/
abbrev C2n := Nat

/-- Whether the state of a link is `PICA_C2N_STATE_CONNECTED`. -/
inductive C2nState
  | connecting
  | connected
deriving DecidableEq

/-- `SkyNet`, with the links that have been allocated and not been closed, and those
that the running call of `PICA_event_loop` has still to handle. -/
structure SkyNet where
  connectingNodes : List (C2n × NodeRecord)
  connectedNodesToClose : List C2n
  selfAware : Bool
  activeNodelink : Option C2n
  /-- `acc` is not null -/
  acc : Bool
  msgqueues : Queues
  /-- the timer `nodelink_reconnect_timer_id` is running -/
  reconnectTimer : Bool
  signals : List Signal
  links : C2n → Option C2nState
  todo : Option (List C2n)

def errSock : Int := -4

def errProtoOld : Int := -14

def errProtoNew : Int := -15

namespace SkyNet

/-- The constructor. -/
def start : SkyNet :=
  ⟨[], [], false, none, false, [], false, [], fun _ => none, none⟩

def emit (s : SkyNet) (x : Signal) : SkyNet :=
  { s with signals := s.signals ++ [x] }

def nodeStatusChanged (s : SkyNet) (nr : NodeRecord) (alive : Bool) : SkyNet :=
  s.emit (.updateStatus nr alive)

/-- `PICA_close_c2n`. -/
def closeC2n (s : SkyNet) (c2n : C2n) : SkyNet :=
  { s with links := Function.update s.links c2n none }

def closeAll (s : SkyNet) (c2ns : List C2n) : SkyNet :=
  c2ns.foldl closeC2n s

/-- The loop over `connecting_nodes` that looks for a link, reports what became of it
and takes it out. -/
def takeConnecting (s : SkyNet) (c2n : C2n) (report : SkyNet → NodeRecord → SkyNet) : SkyNet :=
  match s.connectingNodes.find? fun e => e.1 == c2n with
  | some e =>
      let s := report s e.2
      { s with connectingNodes := s.connectingNodes.eraseP fun e => e.1 == c2n }
  | none => s

/-- `undelivered` is what `History::GetUndeliveredMessages` returns. -/
def nodelinkActivated
    (s : SkyNet) (c2n : C2n) (undelivered : Queues) : SkyNet :=
  let s := s.takeConnecting c2n fun s nr => s.nodeStatusChanged nr true
  if s.selfAware then
    { s with connectedNodesToClose := s.connectedNodesToClose ++ [c2n] }
  else
    let s := { s with selfAware := true, activeNodelink := some c2n }
    let s := (s.emit .makeClean).emit .becameSelfAware
    { s with msgqueues := if s.msgqueues.isEmpty then undelivered else s.msgqueues }

def nodelinkClosed (s : SkyNet) (c2n : C2n) : SkyNet :=
  if s.selfAware ∧ s.activeNodelink = some c2n then
    let s := { s with activeNodelink := none, selfAware := false }
    { s.emit .lostSelfAwareness with reconnectTimer := true }
  else s.takeConnecting c2n fun s _ => s

def protoMsg (s : SkyNet) (nr : NodeRecord) (error : Int) : SkyNet :=
  let node := "Node " ++ nr.address ++ ":" ++ toString nr.port
  if error = errProtoNew then
    s.emit (.statusMsg (node ++ " has newer protocol version. " ++
      "Please check if update for pica-client is available") true)
  else if error = errProtoOld then
    s.emit (.statusMsg (node ++ " has older protocol. Disconnected.") false)
  else s

def nodelinkFailed (s : SkyNet) (c2n : C2n) (error : Int) : SkyNet :=
  let s := s.takeConnecting c2n fun s nr => (s.protoMsg nr error).nodeStatusChanged nr false
  if s.connectingNodes.isEmpty then
    let s := { s with selfAware := false }
    { s.emit .lostSelfAwareness with reconnectTimer := true }
  else s

/-- The loop of `Join` over the known nodes, each with the result of `PICA_new_c2n`:
a link at an address that is free, or an error. -/
def connectAll (s : SkyNet) : List (NodeRecord × Option C2n) → Option SkyNet
  | [] => some s
  | (nr, none) :: rest => (s.nodeStatusChanged nr false).connectAll rest
  | (nr, some c2n) :: rest =>
      if s.links c2n = none then
        connectAll
          { s with
            links := Function.update s.links c2n (some .connecting)
            connectingNodes := s.connectingNodes ++ [(c2n, nr)] }
          rest
      else none

/-- `Join`; `opened` tells whether `open_account` succeeds when it is called. -/
def join (s : SkyNet) (opened : Bool) (nodes : List (NodeRecord × Option C2n)) : Option SkyNet :=
  if ¬ s.acc ∧ ¬ opened then some s
  else
    let s := { s with acc := true }
    if nodes.isEmpty then some (s.emit (.statusMsg "No known Pica Pica nodes" true))
    else
      connectAll { s.closeAll (s.connectingNodes.map Prod.fst) with connectingNodes := [] } nodes

def exit (s : SkyNet) : SkyNet :=
  let s := match s.selfAware, s.activeNodelink with
    | true, some c2n => { s.closeC2n c2n with activeNodelink := none }
    | _, _ => s
  let s := { s with selfAware := false, msgqueues := [] }
  { s.closeAll (s.connectingNodes.map Prod.fst) with connectingNodes := [] }.emit .lostSelfAwareness

/-- What `process_c2n` does with a link. -/
inductive LinkResult
  | ok
  /-- the state becomes `PICA_C2N_STATE_CONNECTED` -/
  | established (undelivered : Queues)
  /-- the same, and the message that is sent next cannot be made -/
  | establishedFailed (undelivered : Queues)
  | error (code : Int)

/-- The body of the loop of `PICA_event_loop` over the links. -/
def processC2n (s : SkyNet) (c2n : C2n) : LinkResult → Option SkyNet
  | .ok => some s
  | .established undelivered =>
      if s.links c2n = some .connecting then
        some ({ s with links := Function.update s.links c2n (some .connected) }.nodelinkActivated
          c2n undelivered)
      else none
  | .establishedFailed undelivered =>
      if s.links c2n = some .connecting then
        some (((({ s with links := Function.update s.links c2n (some .connected) }.nodelinkActivated
          c2n undelivered)).nodelinkClosed c2n).closeC2n c2n)
      else none
  | .error code =>
      match s.links c2n with
      | some .connected => some ((s.nodelinkClosed c2n).closeC2n c2n)
      | some .connecting => some ((s.nodelinkFailed c2n code).closeC2n c2n)
      | none => none

/-- What happens to the client. -/
inductive Event
  | join (opened : Bool) (nodes : List (NodeRecord × Option C2n))
  /-- the timer `nodelink_reconnect_timer_id` -/
  | reconnect (opened : Bool) (nodes : List (NodeRecord × Option C2n))
  /-- the timer of the event loop, up to the call of `PICA_event_loop` -/
  | eventLoop
  | process (r : LinkResult)
  /-- the rest of `timerEvent` after the call -/
  | closeConnected
  | exit

/-- One step of the client.  The links are handled in the order of the vector that
`timerEvent` builds, and nothing else happens in between. -/
def step (s : SkyNet) : Event → Option SkyNet
  | .join opened nodes => if s.todo = none then s.join opened nodes else none
  | .reconnect opened nodes =>
      if s.todo = none ∧ s.selfAware = false ∧ s.reconnectTimer then
        join { s with reconnectTimer := false } opened nodes
      else none
  | .eventLoop =>
      if s.todo = none ∧ (s.connectingNodes ≠ [] ∨ s.selfAware) then
        some { s with
          todo := some (s.connectingNodes.map Prod.fst ++
            bif s.selfAware then s.activeNodelink.toList else []) }
      else none
  | .process r =>
      match s.todo with
      | some (c2n :: rest) => processC2n { s with todo := some rest } c2n r
      | _ => none
  | .closeConnected =>
      if s.todo = some [] then
        some { s.closeAll s.connectedNodesToClose with connectedNodesToClose := [], todo := none }
      else none
  | .exit => if s.todo = none then some s.exit else none

/-- Two nodes: the link to the first one is established. -/
def twoNodes : List Event :=
  [.join true [(⟨"a", 2233⟩, some 1), (⟨"b", 2233⟩, some 2)], .eventLoop,
    .process (.established [])]

variable {s t : SkyNet} {c2n : C2n} {rest : List C2n}

/-! ### The operations -/

theorem closeAll_eq
    {c2ns : List C2n} :
    s.closeAll c2ns = { s with links := fun c => if c ∈ c2ns then none else s.links c } := by
  induction c2ns generalizing s with
  | nil => simp [closeAll]
  | cons c2n rest ih =>
      rw [closeAll, List.foldl_cons, ← closeAll, ih]
      congr 1
      funext c
      by_cases hc : c = c2n
      · simp [closeC2n, hc]
      · simp [closeC2n, hc]

/-- What remains of the connecting links when one is taken out. -/
theorem mem_erased
    {l : List (C2n × NodeRecord)} {e : C2n × NodeRecord} (h : (l.map Prod.fst).Nodup) :
    e ∈ l.eraseP (fun e => e.1 == c2n) ↔ e ∈ l ∧ e.1 ≠ c2n := by
  induction l with
  | nil => simp
  | cons d rest ih =>
      obtain ⟨hd, hrest⟩ := List.nodup_cons.mp h
      by_cases hc : d.1 = c2n
      · subst hc
        rw [List.eraseP_cons_of_pos (by simp)]
        constructor
        · intro he
          refine ⟨List.mem_cons_of_mem d he, ?_⟩
          intro heq
          exact hd (heq ▸ List.mem_map_of_mem he)
        · rintro ⟨he, hne⟩
          rcases List.mem_cons.mp he with rfl | he
          · exact absurd rfl hne
          · exact he
      · rw [List.eraseP_cons_of_neg (by simpa using hc), List.mem_cons, ih hrest, List.mem_cons]
        constructor
        · rintro (rfl | ⟨he, hne⟩)
          · exact ⟨.inl rfl, hc⟩
          · exact ⟨.inr he, hne⟩
        · rintro ⟨rfl | he, hne⟩
          · exact .inl rfl
          · exact .inr ⟨he, hne⟩

theorem distinct_erased
    {l : List (C2n × NodeRecord)} (h : (l.map Prod.fst).Nodup) :
    ((l.eraseP fun e => e.1 == c2n).map Prod.fst).Nodup :=
  h.sublist (List.eraseP_sublist.map Prod.fst)

variable (s c2n) in
theorem takeConnecting_eq
    (report : SkyNet → NodeRecord → SkyNet)
    (h : ∀ s nr, ∃ sig, report s nr = { s with signals := sig }) :
    ∃ sig, s.takeConnecting c2n report =
      { s with
        connectingNodes := s.connectingNodes.eraseP fun e => e.1 == c2n
        signals := sig } := by
  unfold takeConnecting
  cases hf : s.connectingNodes.find? fun e => e.1 == c2n with
  | none =>
      rw [List.eraseP_of_forall_not (List.find?_eq_none.mp hf)]
      exact ⟨s.signals, rfl⟩
  | some e =>
      obtain ⟨sig, hsig⟩ := h s e.2
      exact ⟨sig, by simp only [hsig]⟩

variable (s c2n) in
theorem nodelinkActivated_eq
    (u : Queues) :
    ∃ sig queues, s.nodelinkActivated c2n u =
      { s with
        connectingNodes := s.connectingNodes.eraseP fun e => e.1 == c2n
        connectedNodesToClose :=
          s.connectedNodesToClose ++ if s.selfAware then [c2n] else []
        selfAware := true
        activeNodelink := if s.selfAware then s.activeNodelink else some c2n
        msgqueues := queues
        signals := sig } := by
  obtain ⟨sig, hsig⟩ := takeConnecting_eq s c2n
    (fun s nr => s.nodeStatusChanged nr true) fun s nr => ⟨_, rfl⟩
  simp only [nodelinkActivated, hsig]
  cases hself : s.selfAware with
  | true => exact ⟨sig, s.msgqueues, rfl⟩
  | false =>
      rw [if_neg Bool.false_ne_true, if_neg Bool.false_ne_true, List.append_nil]
      exact ⟨_, _, rfl⟩

variable (s) in
theorem protoMsg_eq (nr : NodeRecord) (code : Int) :
    ∃ sig, s.protoMsg nr code = { s with signals := sig } := by
  unfold protoMsg
  split_ifs
  · exact ⟨_, rfl⟩
  · exact ⟨_, rfl⟩
  · exact ⟨s.signals, rfl⟩

variable (s c2n) in
/-- The handler of a failure looks at the list of connecting links alone. -/
theorem nodelinkFailed_eq
    (code : Int) :
    ∃ sig timer, s.nodelinkFailed c2n code =
      { s with
        connectingNodes := s.connectingNodes.eraseP fun e => e.1 == c2n
        selfAware :=
          s.selfAware && !(s.connectingNodes.eraseP fun e => e.1 == c2n).isEmpty
        reconnectTimer := timer
        signals := sig } := by
  obtain ⟨sig, hsig⟩ := takeConnecting_eq s c2n
    (fun s nr => (s.protoMsg nr code).nodeStatusChanged nr false) (by
      intro s nr
      obtain ⟨sig, hsig⟩ := protoMsg_eq s nr code
      exact ⟨_, by rw [hsig]; rfl⟩)
  simp only [nodelinkFailed, hsig]
  cases hempty : (s.connectingNodes.eraseP fun e => e.1 == c2n).isEmpty with
  | true =>
      rw [if_pos rfl, Bool.not_true, Bool.and_false]
      exact ⟨_, true, rfl⟩
  | false =>
      rw [if_neg Bool.false_ne_true, Bool.not_false, Bool.and_true]
      exact ⟨sig, s.reconnectTimer, rfl⟩

theorem connectAll_rule
    {P : SkyNet → Prop} {nodes : List (NodeRecord × Option C2n)}
    (hstatus : ∀ u nr alive, P u → P (u.nodeStatusChanged nr alive))
    (hconnect : ∀ u c2n nr, P u → u.links c2n = none →
      P { u with
        links := Function.update u.links c2n (some .connecting)
        connectingNodes := u.connectingNodes ++ [(c2n, nr)] })
    (h : P s) (hall : s.connectAll nodes = some t) :
    P t := by
  induction nodes generalizing s with
  | nil =>
      rw [SkyNet.connectAll, Option.some.injEq] at hall
      exact hall ▸ h
  | cons d rest ih =>
      obtain ⟨nr, result⟩ := d
      cases result with
      | none => exact ih (hstatus s nr false h) hall
      | some c2n =>
          rw [SkyNet.connectAll] at hall
          split_ifs at hall with hfree
          exact ih (hconnect s c2n nr h hfree) hall

theorem exit_todo : s.exit.todo = s.todo := by
  unfold SkyNet.exit
  simp only [closeAll_eq, emit]
  split <;> rfl

/-- `Join` leaves the active link and the queues alone. -/
theorem join_frame
    {opened : Bool} {nodes : List (NodeRecord × Option C2n)} (hjoin : s.join opened nodes = some t) :
    t.selfAware = s.selfAware ∧ t.activeNodelink = s.activeNodelink ∧ t.todo = s.todo ∧
      t.msgqueues = s.msgqueues := by
  unfold SkyNet.join at hjoin
  dsimp only at hjoin
  split_ifs at hjoin
  · cases hjoin
    exact ⟨rfl, rfl, rfl, rfl⟩
  · cases hjoin
    exact ⟨rfl, rfl, rfl, rfl⟩
  · refine connectAll_rule
      (P := fun u => u.selfAware = s.selfAware ∧ u.activeNodelink = s.activeNodelink ∧
        u.todo = s.todo ∧ u.msgqueues = s.msgqueues) ?_ ?_ ?_ hjoin
    · exact fun u nr alive h => h
    · exact fun u c2n nr h _ => h
    · rw [closeAll_eq]
      exact ⟨rfl, rfl, rfl, rfl⟩

theorem processC2n_cases
    {r : LinkResult} (h : s.processC2n c2n r = some t) :
    (r = .ok ∧ t = s) ∨
    (∃ u, r = .established u ∧ s.links c2n = some .connecting ∧
      t = { s with links := Function.update s.links c2n (some .connected) }.nodelinkActivated
        c2n u) ∨
    (∃ u, r = .establishedFailed u ∧ s.links c2n = some .connecting ∧
      t = ({ s with links := Function.update s.links c2n (some .connected) }.nodelinkActivated
        c2n u |>.nodelinkClosed c2n).closeC2n c2n) ∨
    (∃ code, r = .error code ∧ s.links c2n = some .connected ∧
      t = (s.nodelinkClosed c2n).closeC2n c2n) ∨
    ∃ code, r = .error code ∧ s.links c2n = some .connecting ∧
      t = (s.nodelinkFailed c2n code).closeC2n c2n := by
  cases r with
  | ok =>
      cases h
      exact .inl ⟨rfl, rfl⟩
  | established u =>
      rw [processC2n] at h
      split_ifs at h with hc
      cases h
      exact .inr (.inl ⟨u, rfl, hc, rfl⟩)
  | establishedFailed u =>
      rw [processC2n] at h
      split_ifs at h with hc
      cases h
      exact .inr (.inr (.inl ⟨u, rfl, hc, rfl⟩))
  | error code =>
      rw [processC2n] at h
      cases hc : s.links c2n with
      | none =>
          rw [hc] at h
          cases h
      | some state =>
          rw [hc] at h
          cases state with
          | connected =>
              cases h
              exact .inr (.inr (.inr (.inl ⟨code, rfl, rfl, rfl⟩)))
          | connecting =>
              cases h
              exact .inr (.inr (.inr (.inr ⟨code, rfl, rfl, rfl⟩)))

theorem step_process
    {r : LinkResult} (hstep : s.step (.process r) = some t) :
    ∃ c2n rest, s.todo = some (c2n :: rest) ∧
      processC2n { s with todo := some rest } c2n r = some t := by
  simp only [SkyNet.step] at hstep
  split at hstep
  next c2n rest htodo => exact ⟨c2n, rest, htodo, hstep⟩
  next => cases hstep

end SkyNet

end Client

end PicaPica
