import PicaPica.Client.ListenerPass
import PicaPica.Lib.Chain

/-!
# The loops over the accepted connections

`process_listener` and `process_directc2c` follow the pointers `next` and take connections out of
the list while they do.  Both loops are described by what becomes of the list: the first one
keeps the connections whose handshake goes on, the second one ends at the first complete
connection, which it attaches or closes.
-/

namespace PicaPica
namespace Client

open DoubleChain PointerTree

/-! ## `process_listener` goes through the list -/

section Handshakes

variable {io : ConnIo} {d d' : Direct}

theorem ConnIo.on_some (h : io.on d = some d') :
    d'.freed = d.freed ∧
      (d'.state = d.state ∧ d'.peerCert = d.peerCert ∨ d'.state = .active ∧ d'.peerCert ≠ none) := by
  unfold ConnIo.on Direct.processListenerConn at h
  split at h
  · split at h
    · cases h
      exact ⟨rfl, .inl ⟨rfl, rfl⟩⟩
    · split at h
      · obtain ⟨c, -, rfl⟩ := Option.map_eq_some_iff.mp h
        exact ⟨rfl, .inr ⟨rfl, Option.some_ne_none c⟩⟩
      · split at h
        · cases h
          exact ⟨rfl, .inl ⟨rfl, rfl⟩⟩
        · cases h
  · cases h
    exact ⟨rfl, .inl ⟨rfl, rfl⟩⟩

/-- Only a handshake can fail. -/
theorem ConnIo.on_none (h : io.on d = none) : d.peerCert = none ∧ io.fails = true := by
  unfold ConnIo.on Direct.processListenerConn at h
  split at h
  · next hready =>
    split at h
    · cases h
    · next hcert =>
      refine ⟨not_not.mp hcert, ?_⟩
      split at h
      · next hdone =>
        rw [Option.map_eq_none_iff] at h
        simp [fails, hready, hdone, h, SslCall.again]
      · next hdone =>
        split at h
        · cases h
        · next hagain => simp [fails, hready, hdone, hagain]
  · cases h

end Handshakes

namespace Listener

section Listen

variable {l : Listener} {io : ConnPtr → ConnIo} {pre rest ps ds : List ConnPtr} {p : ConnPtr}

theorem get_ok (h : (l.conn p).freed = false) : l.get p = .ok (l.conn p) := by
  simp [get, h]

theorem getNext_ok (h : (l.conn p).freed = false) : l.getNext p = .ok (l.next p) := by
  simp [getNext, h]

@[simp]
theorem put_self (d : Direct) : (l.put p d).conn p = d :=
  Function.update_self _ _ _

theorem put_of_ne {q : ConnPtr} (h : q ≠ p) (d : Direct) : (l.put p d).conn q = l.conn q :=
  Function.update_of_ne h _ _

/-- The listener after `PICA_close_directc2c`. -/
def closed (l : Listener) (p : ConnPtr) : Listener :=
  { l.put p (l.conn p).close with next := Function.update l.next p none }

theorem close_ok (h : (l.conn p).freed = false) : l.closeDirectc2c p = .ok (l.closed p) := by
  simp [closeDirectc2c, closed, h]

theorem closed_of_ne {q : ConnPtr} (h : q ≠ p) : (l.closed p).conn q = l.conn q :=
  put_of_ne h _

/-- A record that has been taken out of the list is not seen by it. -/
theorem chain_update
    {o : Option ConnPtr} {next : ConnPtr → Option ConnPtr} {v : Option ConnPtr}
    (h : Chain next o ps) (hp : p ∉ ps) : Chain (Function.update next p v) o ps := by
  refine h.congr fun q hq => Function.update_of_ne ?_ _ _
  rintro rfl
  exact hp hq

theorem listenerLoop_spec
    {fuel : Nat} (hchain : Chain l.next l.acceptedConnections (pre ++ rest))
    (hnd : (pre ++ rest).Nodup) (hlive : ∀ q ∈ rest, (l.conn q).freed = false)
    (hfuel : rest.length ≤ fuel) :
    ∃ l', listenerLoop io fuel rest.head? pre.getLast? l = .ok l' ∧ l'.count = l.count ∧
      Chain l'.next l'.acceptedConnections
        (pre ++ rest.filter fun q => ((io q).on (l.conn q)).isSome) ∧
      ∀ q, l'.conn q =
        if q ∈ rest then ((io q).on (l.conn q)).getD (l.conn q).close else l.conn q := by
  induction rest generalizing l pre fuel with
  | nil =>
      refine ⟨l, ?_, rfl, by simpa using hchain, by simp⟩
      cases fuel with
      | zero => rfl
      | succ fuel => rfl
  | cons p rest ih =>
      obtain ⟨fuel, rfl⟩ : ∃ n, fuel = n + 1 := ⟨fuel - 1, by simp at hfuel; omega⟩
      have hget := get_ok (hlive p List.mem_cons_self)
      have hnext : l.next p = rest.head? := Chain.next_eq hchain
      obtain ⟨-, hprest, hcross⟩ := List.nodup_append.mp hnd
      have hp : p ∉ rest := (List.nodup_cons.mp hprest).1
      have hne : ∀ q ∈ rest, q ≠ p := by
        rintro q hq rfl
        exact hp hq
      rw [List.head?_cons, listenerLoop, hget]
      cases hon : (io p).on (l.conn p) with
      | some d =>
          obtain ⟨l', hrun, hcount, hch, hconn⟩ := @ih (l.put p d) (pre ++ [p]) fuel
            (by rwa [List.append_assoc]) (by rwa [List.append_assoc])
            (fun q hq => by
              rw [put_of_ne (hne q hq)]
              exact hlive q (List.mem_cons_of_mem p hq))
            (Nat.le_of_succ_le_succ hfuel)
          have hother : ∀ q ∈ rest, (l.put p d).conn q = l.conn q :=
            fun q hq => put_of_ne (hne q hq) d
          refine ⟨l', ?_, hcount, ?_, ?_⟩
          · simp only [bind, Except.bind, hon, hnext]
            rw [List.getLast?_concat] at hrun
            exact hrun
          · rw [List.filter_congr fun q hq => by rw [hother q hq]] at hch
            rw [List.filter_cons_of_pos (by simp [hon])]
            simpa using hch
          · intro q
            rw [hconn q]
            by_cases hq : q ∈ rest
            · rw [if_pos hq, if_pos (List.mem_cons_of_mem p hq), hother q hq]
            · rw [if_neg hq]
              by_cases hqp : q = p
              · subst hqp
                rw [if_pos List.mem_cons_self, hon, put_self]
                rfl
              · rw [if_neg (by simp [hqp, hq]), put_of_ne hqp]
      | none =>
          have hskip := Chain.skip hchain hnd
          have hkeep : p ∉ pre ++ rest := by
            rw [List.mem_append, not_or]
            exact ⟨fun hpre => hcross p hpre p List.mem_cons_self rfl, hp⟩
          have hclose := @close_ok (l.setSlot pre.getLast? (l.next p)) p
            (hlive p List.mem_cons_self)
          obtain ⟨l', hrun, hcount, hch, hconn⟩ :=
            @ih ((l.setSlot pre.getLast? (l.next p)).closed p) pre fuel
              (chain_update hskip hkeep)
              (hnd.sublist (List.Sublist.append_left (List.sublist_cons_self p rest) pre))
              (fun q hq => by
                rw [closed_of_ne (hne q hq)]
                exact hlive q (List.mem_cons_of_mem p hq))
              (Nat.le_of_succ_le_succ hfuel)
          have hother : ∀ q ∈ rest,
              ((l.setSlot pre.getLast? (l.next p)).closed p).conn q = l.conn q :=
            fun q hq => closed_of_ne (hne q hq)
          refine ⟨l', ?_, hcount, ?_, ?_⟩
          · simp only [bind, Except.bind, hon]
            rw [hclose]
            rw [hnext] at hrun ⊢
            exact hrun
          · rw [List.filter_congr fun q hq => by rw [hother q hq]] at hch
            rwa [List.filter_cons_of_neg (by simp [hon])]
          · intro q
            rw [hconn q]
            by_cases hq : q ∈ rest
            · rw [if_pos hq, if_pos (List.mem_cons_of_mem p hq), hother q hq]
            · rw [if_neg hq]
              by_cases hqp : q = p
              · subst hqp
                rw [if_pos List.mem_cons_self, hon]
                exact put_self _
              · rw [if_neg (by simp [hqp, hq]), closed_of_ne hqp]
                rfl

variable {turnIo : TurnIo}

/-- The list with the records. -/
def listed (l : Listener) (ps : List ConnPtr) : List (ConnPtr × Direct) :=
  ps.map fun p => (p, l.conn p)

/-- What is not in the list and was there before is as it was. -/
def Untouched (l l' : Listener) (ps : List ConnPtr) : Prop :=
  ∀ p, p ∉ ps → p < l.count → l'.conn p = l.conn p

/-- What becomes of the connections at the turn of a link: they remain in the list `ps'`, their
handshake has failed as `lost` says, or they are attached as `att` says. -/
structure Fate (l l' : Listener) (ps ps' : List ConnPtr) (lost att : ConnPtr → Prop) : Prop where
  grows : l.count ≤ l'.count
  fate : ∀ p, p ∈ ps ∨ l.count ≤ p ∧ p < l'.count →
    p ∈ ps' ∨ ((l'.conn p).freed = true ∧ (l'.conn p).state ≠ .active ∧ lost p) ∨
      ((l'.conn p).state = .active ∧ att p)
  old : ∀ p ∈ ps', p ∈ ps ∨ l.count ≤ p ∧ p < l'.count

theorem accepting_spec (h : l.Sound ps ds) :
    ∃ new, (l.accepting turnIo).Sound (new ++ ps) ds ∧
      (l.accepting turnIo).listed (new ++ ps) =
        (turnIo.accept.bind Direct.accepted).toList.map (l.count, ·) ++ l.listed ps ∧
      (l.accepting turnIo).count = allocated turnIo l.count ∧
      (∀ p, p < l.count → (l.accepting turnIo).conn p = l.conn p) ∧
      ∀ p, p ∈ new ↔ l.count ≤ p ∧ p < (l.accepting turnIo).count := by
  have hsame : (turnIo.accept.bind Direct.accepted) = none → l.accepting turnIo = l := by
    unfold accepting addConnection
    cases turnIo.accept with
    | none => exact fun _ => rfl
    | some r =>
        intro hr
        rw [Option.bind_some] at hr
        simp [hr]
  cases hacc : turnIo.accept.bind Direct.accepted with
  | none =>
      rw [hsame hacc]
      refine ⟨[], h, rfl, by simp [allocated, hacc], fun _ _ => rfl, fun p => ?_⟩
      simp
  | some d =>
      obtain ⟨r, hr, hd⟩ := Option.bind_eq_some_iff.mp hacc
      have hnew : l.accepting turnIo =
          { acceptedConnections := some l.count
            next := Function.update l.next l.count l.acceptedConnections
            conn := Function.update l.conn l.count d
            count := l.count + 1 } := by
        simp [accepting, hr, addConnection, hd]
      have hfresh : l.count ∉ ps ++ ds := fun hm => Nat.lt_irrefl _ (h.allocated _ hm)
      have hold : ∀ p, p ≠ l.count → (l.accepting turnIo).conn p = l.conn p := by
        intro p hp
        rw [hnew]
        exact Function.update_of_ne hp _ _
      have hself : (l.accepting turnIo).conn l.count = d := by
        rw [hnew]
        exact Function.update_self _ _ _
      have hmem : ∀ p ∈ ps ++ ds, p ≠ l.count := by
        rintro p hp rfl
        exact hfresh hp
      have hps : ∀ p ∈ ps, p ≠ l.count := fun p hp => hmem p (List.mem_append_left ds hp)
      have hstate : d.freed = false ∧ d.state ≠ .active := by
        unfold Direct.accepted at hd
        split at hd
        · cases hd
        · cases hd
          exact ⟨rfl, nofun⟩
      refine ⟨[l.count], ⟨?_, ?_, ?_, ?_, ?_⟩, ?_, ?_, ?_, ?_⟩
      · rw [hnew]
        refine ⟨rfl, ?_⟩
        dsimp only
        rw [Function.update_self]
        exact chain_update h.chain fun hm => hfresh (List.mem_append_left ds hm)
      · exact List.nodup_cons.mpr ⟨hfresh, h.distinct⟩
      · intro p hp
        rcases List.mem_cons.mp hp with rfl | hp
        · rw [hself]
          exact hstate.1
        · rw [hold p (hmem p hp)]
          exact h.live p hp
      · intro p hp
        rw [hnew]
        rcases List.mem_cons.mp hp with rfl | hp
        · exact Nat.lt_succ_self _
        · exact Nat.lt_succ_of_lt (h.allocated p hp)
      · intro p hp
        rcases List.mem_cons.mp hp with rfl | hp
        · rw [hself]
          exact fun hactive => absurd hactive hstate.2
        · rw [hold p (hps p hp)]
          exact h.certified p hp
      · simp only [listed, List.singleton_append, List.map_cons, hself, Option.toList_some,
          List.map_nil]
        rw [List.map_congr_left fun p hp => by rw [hold p (hps p hp)]]
      · rw [hnew]
        simp [allocated, hacc]
      · exact fun p hp => hold p (Nat.ne_of_lt hp)
      · intro p
        rw [hnew]
        simp only [List.mem_singleton]
        exact ⟨fun hp => hp ▸ ⟨Nat.le_refl _, Nat.lt_succ_self _⟩, fun hp => Nat.le_antisymm (Nat.le_of_lt_succ hp.2) hp.1⟩

theorem length_le_count (h : l.Sound ps ds) : ps.length ≤ l.count := by
  have hsub : ps ⊆ List.range l.count := by
    intro p hp
    exact List.mem_range.mpr (h.allocated p (List.mem_append_left ds hp))
  have hlen := (List.subperm_of_subset (List.nodup_append.mp h.distinct).1 hsub).length_le
  rwa [List.length_range] at hlen

theorem listed_filter
    {l₀ l₁ : Listener}
    (h : ∀ q ∈ ps, l₁.conn q = ((io q).on (l₀.conn q)).getD (l₀.conn q).close) :
    l₁.listed (ps.filter fun q => ((io q).on (l₀.conn q)).isSome) =
      (l₀.listed ps).filterMap fun e => ((io e.1).on e.2).map (e.1, ·) := by
  induction ps with
  | nil => rfl
  | cons p ps ih =>
      have hrest := ih fun q hq => h q (List.mem_cons_of_mem p hq)
      have hp := h p List.mem_cons_self
      simp only [listed] at hrest ⊢
      cases hon : (io p).on (l₀.conn p) with
      | none =>
          rw [List.filter_cons_of_neg (by simp [hon]), List.map_cons,
            List.filterMap_cons_none (by simp [hon])]
          exact hrest
      | some d =>
          rw [List.filter_cons_of_pos (by simp [hon]), List.map_cons, List.map_cons,
            List.filterMap_cons_some (b := (p, d)) (by simp [hon]), hrest, hp, hon]
          rfl

/-- **`process_listener`.**  It goes on with all handshakes, and drops the connections whose
handshake fails. -/
theorem processListener_spec (h : l.Sound ps ds) :
    ∃ l' ps', l.processListener turnIo = .ok l' ∧ l'.Sound ps' ds ∧
      l'.listed ps' = heard turnIo l.count (l.listed ps) ∧
      l'.count = allocated turnIo l.count ∧ Untouched l l' ps ∧
      Fate l l' ps ps' (fun p => (turnIo.conn p).fails = true) fun _ => False := by
  obtain ⟨new, hsound, hlisted, hcount, hold, hnew⟩ := @accepting_spec l ps ds turnIo h
  generalize hl0 : l.accepting turnIo = l0 at *
  have hnd : (new ++ ps).Nodup := (List.nodup_append.mp hsound.distinct).1
  obtain ⟨l', hrun, hcount', hchain, hconn⟩ := @listenerLoop_spec l0 turnIo.conn [] (new ++ ps)
    l0.count hsound.chain hnd
    (fun q hq => hsound.live q (List.mem_append_left ds hq)) (length_le_count hsound)
  have hin : ∀ {q d}, q ∈ new ++ ps → (turnIo.conn q).on (l0.conn q) = some d → l'.conn q = d := by
    intro q d hq hd
    rw [hconn q, if_pos hq, hd]
    rfl
  have hkept : ∀ q ∈ (new ++ ps).filter fun q => ((turnIo.conn q).on (l0.conn q)).isSome,
      q ∈ new ++ ps ∧ (turnIo.conn q).on (l0.conn q) = some (l'.conn q) := by
    intro q hq
    obtain ⟨hmem, hsome⟩ := List.mem_filter.mp hq
    obtain ⟨d, hd⟩ := Option.isSome_iff_exists.mp hsome
    exact ⟨hmem, by rw [hd, hin hmem hd]⟩
  have hds : ∀ q ∈ ds, l'.conn q = l0.conn q := by
    intro q hq
    rw [hconn q, if_neg]
    intro hmem
    exact (List.nodup_append.mp hsound.distinct).2.2 q hmem q hq rfl
  refine ⟨l', _, ?_, ⟨hchain, ?_, ?_, ?_, ?_⟩, ?_, hcount'.trans hcount, ?_, ?_⟩
  · rw [processListener, hl0]
    have hhead : l0.acceptedConnections = (new ++ ps).head? := Chain.head_eq hsound.chain
    rw [hhead]
    exact hrun
  · rw [List.nil_append]
    exact hsound.distinct.sublist (List.filter_sublist.append_right ds)
  · intro p hp
    rcases List.mem_append.mp hp with hp | hp
    · obtain ⟨hmem, hon⟩ := hkept p hp
      rw [(ConnIo.on_some hon).1]
      exact hsound.live p (List.mem_append_left ds hmem)
    · rw [hds p hp]
      exact hsound.live p (List.mem_append_right _ hp)
  · intro p hp
    rw [hcount']
    refine hsound.allocated p ?_
    rcases List.mem_append.mp hp with hp | hp
    · exact List.mem_append_left ds (hkept p hp).1
    · exact List.mem_append_right _ hp
  · intro p hp hactive
    obtain ⟨hmem, hon⟩ := hkept p hp
    rcases (ConnIo.on_some hon).2 with ⟨hstate, hcert⟩ | ⟨-, hcert⟩
    · rw [hcert]
      exact hsound.certified p hmem (hstate ▸ hactive)
    · exact hcert
  · rw [heard, ← hlisted, List.nil_append]
    exact listed_filter fun q hq => hconn q ▸ if_pos hq
  · intro p hp hlt
    rw [hconn p, if_neg, hold p hlt]
    rw [List.mem_append, not_or]
    exact ⟨fun hm => absurd ((hnew p).mp hm).1 (Nat.not_le.mpr hlt), hp⟩
  have hall : ∀ p, p ∈ new ++ ps ↔ p ∈ ps ∨ l.count ≤ p ∧ p < l'.count := by
    intro p
    rw [List.mem_append, hnew p, ← hcount', or_comm]
  refine ⟨?_, ?_, fun p hp => (hall p).mp (hkept p hp).1⟩
  · rw [hcount', hcount]
    exact Nat.le_add_right _ _
  · intro p hp
    have hmem := (hall p).mpr hp
    cases hon : (turnIo.conn p).on (l0.conn p) with
    | some d => exact .inl (List.mem_filter.mpr ⟨hmem, by rw [hon]; rfl⟩)
    | none =>
        have hp' : l'.conn p = (l0.conn p).close := by
          rw [hconn p, if_pos hmem, hon]
          rfl
        rw [hp']
        refine .inr (.inl ⟨rfl, fun hactive => ?_, (ConnIo.on_none hon).2⟩)
        exact hsound.certified p hmem hactive (ConnIo.on_none hon).1

end Listen

section Serve

variable {l : Listener} {io : TurnIo} {pre rest ps ds : List ConnPtr} {p : ConnPtr}
  {cs : List ListenChan}

/-- The loop passes over connections whose handshake is not complete. -/
theorem acceptedLoop_skip
    {skip : List ConnPtr} {fuel : Nat}
    (hchain : Chain l.next l.acceptedConnections (pre ++ (skip ++ rest)))
    (hlive : ∀ q ∈ skip, (l.conn q).freed = false)
    (hskip : ∀ q ∈ skip, (l.conn q).state ≠ .active) :
    acceptedLoop io (skip.length + fuel) (skip ++ rest).head? pre.getLast? l cs =
      acceptedLoop io fuel rest.head? (pre ++ skip).getLast? l cs := by
  induction skip generalizing pre with
  | nil => simp
  | cons p skip ih =>
      have hp := hlive p List.mem_cons_self
      have hnext : l.next p = (skip ++ rest).head? := Chain.next_eq hchain
      have hrest := @ih (pre ++ [p]) (by simpa using hchain)
        (fun q hq => hlive q (List.mem_cons_of_mem p hq))
        (fun q hq => hskip q (List.mem_cons_of_mem p hq))
      have hfuel : (p :: skip).length + fuel = (skip.length + fuel) + 1 := by
        rw [List.length_cons]
        omega
      rw [hfuel, List.cons_append, List.head?_cons, acceptedLoop, get_ok hp]
      simp only [bind, Except.bind, if_neg (hskip p List.mem_cons_self), pure, Except.pure,
        getNext_ok hp, hnext]
      rw [List.getLast?_concat, List.append_assoc] at hrest
      exact hrest

/-- No channel of the link waits for the first complete connection: it is closed, and then its
`next` is read. -/
theorem acceptedLoop_rejected
    {fuel : Nat} {slot : Option ConnPtr} (hlive : (l.conn p).freed = false)
    (hactive : (l.conn p).state = .active) (h : matching io cs p (l.conn p) = none) :
    acceptedLoop io (fuel + 1) (some p) slot l cs = .error .freedDirect := by
  have hclose := @close_ok (l.setSlot slot (l.next p)) p hlive
  have hfreed : (((l.setSlot slot (l.next p)).closed p).conn p).freed = true := by
    rw [closed, put_self]
    rfl
  rw [acceptedLoop, get_ok hlive]
  simp only [bind, Except.bind, if_pos hactive, serve, h, hclose, pure, Except.pure]
  simp [getNext, hfreed]

/-- What is attached: the connection `p`, to the channel `c` that becomes `c'`. -/
structure Attached (l : Listener) (c : ListenChan) (p : ConnPtr) (l' : Listener) (c' : ListenChan) :
    Prop where
  direct : c'.direct = some p
  peerId : c'.peerId = c.peerId
  state : c'.chn.directState = .active
  head : l'.acceptedConnections = l.acceptedConnections
  count : l'.count = l.count
  next : ∀ q, c.direct ≠ some q → l'.next q = l.next q
  conn : ∀ q, q ≠ p → c.direct ≠ some q → l'.conn q = l.conn q
  self : l'.conn p = (l.conn p).verifiedFor c.peerId

theorem attach_fits
    {c : ListenChan} (hdirect : ∀ q, c.direct = some q → q ≠ p ∧ (l.conn q).freed = false)
    (hsend : (sendDirectc2cSwitch io.mem c.chn io.r₀ io.r₁).map Prod.snd = some .ok) :
    ∃ l' c', l.attach io c p = .ok (l', c') ∧ Attached l c p l' c' := by
  obtain ⟨⟨chn, code⟩, hchn, hcode⟩ := Option.map_eq_some_iff.mp hsend
  unfold attach closeOld
  cases hd : c.direct with
  | none =>
      refine ⟨l.put p ((l.conn p).verifiedFor c.peerId),
        { c with chn := { chn with directState := .active }, direct := some p }, ?_,
        rfl, rfl, rfl, rfl, rfl, fun _ _ => rfl, fun q hq _ => put_of_ne hq _, put_self _⟩
      simp only [bind, Except.bind, pure, Except.pure, hchn]
      rw [if_neg (not_not.mpr hcode)]
  | some q =>
      obtain ⟨hqp, hq⟩ := hdirect q hd
      have hlive : ((l.put p ((l.conn p).verifiedFor c.peerId)).conn q).freed = false := by
        rw [put_of_ne hqp]
        exact hq
      refine ⟨(l.put p ((l.conn p).verifiedFor c.peerId)).closed q,
        { c with chn := { chn with directState := .active }, direct := some p }, ?_,
        rfl, rfl, rfl, rfl, rfl, ?_, ?_, ?_⟩
      · simp only [bind, Except.bind, pure, Except.pure, hchn, close_ok hlive]
        rw [if_neg (not_not.mpr hcode)]
      · intro r hr
        refine Function.update_of_ne ?_ _ _
        rintro rfl
        exact hr hd
      · intro r hr hrq
        rw [closed_of_ne, put_of_ne hr]
        rintro rfl
        exact hrq hd
      · rw [closed_of_ne (Ne.symm hqp), put_self]

/-- The message for the switch does not fit: the connection is closed, and then its `next`
is read. -/
theorem serve_unfit
    {c : ListenChan} {i : Nat} {slot : Option ConnPtr} {r : Direct}
    (hmatch : matching io cs p r = some (c, i))
    (hsend : (sendDirectc2cSwitch io.mem c.chn io.r₀ io.r₁).map Prod.snd ≠ some .ok) :
    ∃ e, l.serve io cs p slot r = .error e := by
  unfold serve
  rw [hmatch]
  dsimp only
  unfold attach
  cases (l.put p ((l.conn p).verifiedFor c.peerId)).closeOld c with
  | error e => exact ⟨e, rfl⟩
  | ok l₀ =>
      simp only [bind, Except.bind]
      cases hs : sendDirectc2cSwitch io.mem c.chn io.r₀ io.r₁ with
      | none => exact ⟨_, rfl⟩
      | some r =>
          obtain ⟨chn, code⟩ := r
          have hcode : code ≠ .ok := by
            rintro rfl
            exact hsend (by rw [hs]; rfl)
          simp only [if_pos hcode]
          cases hclose : l₀.closeDirectc2c p with
          | error e => exact ⟨e, rfl⟩
          | ok l₁ =>
              have hfreed : (l₁.conn p).freed = true := by
                unfold closeDirectc2c at hclose
                split at hclose
                · cases hclose
                · cases hclose
                  exact congrArg Direct.freed (put_self _)
              simp [pure, Except.pure, getNext, hfreed]

/-- The listener after a record has been taken out of the list. -/
def unlinked (l : Listener) (slot : Option ConnPtr) (p : ConnPtr) : Listener :=
  { l.setSlot slot (l.next p) with
    next := Function.update (l.setSlot slot (l.next p)).next p none }

/-- The first complete connection is attached, and the loop ends behind it. -/
theorem acceptedLoop_attached
    {fuel i : Nat} {slot : Option ConnPtr} {c c' : ListenChan} {l' : Listener}
    (hlive : (l.conn p).freed = false) (hactive : (l.conn p).state = .active)
    (hmatch : matching io cs p (l.conn p) = some (c, i))
    (hattach : l.attach io c p = .ok (l', c')) (h : Attached l c p l' c') :
    acceptedLoop io (fuel + 1) (some p) slot l cs =
      .ok (l'.unlinked slot p, cs.set i c') := by
  have hfreed : (l'.conn p).freed = false := by
    rw [h.self]
    exact hlive
  rw [acceptedLoop, get_ok hlive]
  simp only [bind, Except.bind, if_pos hactive, serve, hmatch, hattach, getNext_ok hfreed, pure,
    Except.pure]
  rw [getNext, if_neg (by rw [setSlot]; simp [hfreed])]
  simp only [Function.update_self]
  cases fuel with
  | zero => rfl
  | succ fuel => rfl

end Serve

end Listener

end Client
end PicaPica
