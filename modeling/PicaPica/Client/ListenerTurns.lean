import PicaPica.Client.ListenerWalks

/-!
# Turns of the links and passes of the event loop

The turn of a link leaves the list as it is after `process_listener`, or takes the first complete
connection out of it, or fails.  A pass is one turn after another, and
`pass_right_iff` says when it does what it should.
-/

namespace PicaPica
namespace Client

open DoubleChain PointerTree

namespace Listener

section DirectC2c

variable {l : Listener} {io : TurnIo} {ps xs ys : List ConnPtr} {p : ConnPtr}
  {cs : List ListenChan}

theorem matching_waits
    {d : Direct} {c : ListenChan} {i : Nat} (h : matching io cs p d = some (c, i)) :
    cs[i]? = some c ∧ Waits io c p d := by
  obtain ⟨hfind, hverify⟩ := Option.filter_eq_some_iff.mp h
  unfold findMatchingC2c at hfind
  split at hfind
  · cases hfind
  · have hmem := List.mem_of_find?_eq_some hfind
    have hprop := List.find?_some hfind
    simp only [Bool.and_eq_true, decide_eq_true_eq] at hprop hverify
    exact ⟨List.mem_zipIdx_iff_getElem?.mp hmem, hprop.1, hverify⟩

/-- The first complete connection divides the list. -/
theorem listed_find
    {e : ConnPtr × Direct}
    (h : ((l.listed ps).find? fun e => decide (e.2.state = .active)) = some e) :
    ∃ skip post, ps = skip ++ e.1 :: post ∧ e.2 = l.conn e.1 ∧ (l.conn e.1).state = .active ∧
      (∀ q ∈ skip, (l.conn q).state ≠ .active) ∧
      ((l.listed ps).eraseP fun e => decide (e.2.state = .active)) =
        l.listed (skip ++ post) := by
  obtain ⟨hactive, as, bs, hsplit, has⟩ := List.find?_eq_some_iff_append.mp h
  obtain ⟨skip, rest, rfl, hskip, hrest⟩ := List.map_eq_append_iff.mp hsplit
  obtain ⟨p, post, rfl, rfl, hpost⟩ := List.map_eq_cons_iff.mp hrest
  have hno : ∀ a ∈ as, ¬decide (a.2.state = .active) = true := by
    intro a ha
    simpa using has a ha
  refine ⟨skip, post, rfl, rfl, by simpa using hactive, ?_, ?_⟩
  · intro q hq
    have hq' : (q, l.conn q) ∈ as := hskip ▸ List.mem_map_of_mem hq
    simpa using has _ hq'
  · rw [hsplit, List.eraseP_append_right _ hno, List.eraseP_cons, hactive, cond_true, listed,
      List.map_append, hskip, hpost]

theorem processDirectc2c_none
    {ds : List ConnPtr} (h : l.Sound ps ds) (hno : ∀ q ∈ ps, (l.conn q).state ≠ .active) :
    l.processDirectc2c io cs = .ok (l, cs) := by
  have hhead : l.acceptedConnections = (ps ++ []).head? := by
    rw [List.append_nil]
    exact Chain.head_eq h.chain
  obtain ⟨fuel, hfuel⟩ : ∃ fuel, l.count = ps.length + fuel :=
    ⟨l.count - ps.length, (Nat.add_sub_of_le (length_le_count h)).symm⟩
  have hskip := @acceptedLoop_skip l io [] [] cs ps fuel (by simpa using h.chain)
    (fun q hq => h.live q (List.mem_append_left ds hq)) hno
  rw [processDirectc2c, hhead, hfuel]
  refine hskip.trans ?_
  cases fuel with
  | zero => rfl
  | succ fuel => rfl

/-- The loop gets to the first complete connection. -/
theorem processDirectc2c_first
    {ds skip post : List ConnPtr} (h : l.Sound (skip ++ p :: post) ds)
    (hskip : ∀ q ∈ skip, (l.conn q).state ≠ .active) :
    ∃ fuel, l.processDirectc2c io cs =
      acceptedLoop io (fuel + 1) (some p) skip.getLast? l cs := by
  have hlen := length_le_count h
  rw [List.length_append, List.length_cons] at hlen
  refine ⟨l.count - skip.length - 1, ?_⟩
  have hfuel : l.count = skip.length + (l.count - skip.length - 1 + 1) := by omega
  rw [processDirectc2c, Chain.head_eq h.chain]
  conv_lhs => rw [hfuel]
  exact @acceptedLoop_skip l io [] (p :: post) cs skip _ h.chain
    (fun q hq => h.live q (List.mem_append_left ds (List.mem_append_left _ hq))) hskip

/-- The direct connection a channel has had is none of the others. -/
theorem Sound.not_old
    {c : ListenChan} (h : l.Sound ps (xs ++ c.direct.toList ++ ys)) :
    ∀ q ∈ ps ++ (xs ++ ys), c.direct ≠ some q := by
  intro q hq hdirect
  have hnd := h.distinct
  rw [hdirect, Option.toList_some, List.append_assoc xs, List.singleton_append,
    ← List.append_assoc] at hnd
  refine (List.nodup_cons.mp (List.nodup_middle.mp hnd)).1 ?_
  rwa [List.append_assoc]

/-- The direct connection a channel has had is closed, and it gets `p`. -/
theorem Sound.attached
    {skip post : List ConnPtr} {c c' : ListenChan} {l' : Listener}
    (h : l.Sound (skip ++ p :: post) (xs ++ c.direct.toList ++ ys)) (ha : Attached l c p l' c') :
    (l'.unlinked skip.getLast? p).Sound (skip ++ post) (xs ++ c'.direct.toList ++ ys) := by
  have hperm : (skip ++ post ++ (xs ++ c'.direct.toList ++ ys)).Perm
      (skip ++ p :: post ++ (xs ++ ys)) := by
    rw [ha.direct]
    simp only [Option.toList_some, List.append_assoc, List.cons_append, List.nil_append]
    refine List.Perm.append_left skip ?_
    rw [← List.append_assoc, ← List.append_assoc]
    exact List.perm_middle
  have hsub : (skip ++ p :: post ++ (xs ++ ys)).Sublist
      (skip ++ p :: post ++ (xs ++ c.direct.toList ++ ys)) :=
    ((List.sublist_append_left xs c.direct.toList).append_right ys).append_left _
  have hold := h.not_old
  have hmem : ∀ q ∈ skip ++ post ++ (xs ++ c'.direct.toList ++ ys),
      q ∈ skip ++ p :: post ++ (xs ++ ys) := fun q hq => hperm.mem_iff.mp hq
  have hlist : ∀ q ∈ skip ++ p :: post, c.direct ≠ some q :=
    fun q hq => hold q (List.mem_append_left _ hq)
  have hnd : (skip ++ p :: post).Nodup := (List.nodup_append.mp h.distinct).1
  have hconn : ∀ q ∈ skip ++ p :: post ++ (xs ++ ys),
      (l'.conn q).freed = (l.conn q).freed ∧ (l'.conn q).state = (l.conn q).state ∧
        (l'.conn q).peerCert = (l.conn q).peerCert := by
    intro q hq
    by_cases hqp : q = p
    · subst hqp
      rw [ha.self]
      exact ⟨rfl, rfl, rfl⟩
    · rw [ha.conn q hqp (hold q hq)]
      exact ⟨rfl, rfl, rfl⟩
  refine ⟨?_, hperm.nodup_iff.mpr (h.distinct.sublist hsub), ?_, ?_, ?_⟩
  · have hchain : Chain l'.next l'.acceptedConnections (skip ++ p :: post) := by
      rw [ha.head]
      exact h.chain.congr fun q hq => ha.next q (hlist q hq)
    refine chain_update (Chain.skip hchain hnd) ?_
    exact (List.nodup_cons.mp (List.nodup_middle.mp hnd)).1
  · intro q hq
    exact (hconn q (hmem q hq)).1.trans (h.live q (hsub.subset (hmem q hq)))
  · intro q hq
    exact ha.count ▸ h.allocated q (hsub.subset (hmem q hq))
  · intro q hq hactive
    have hq' : q ∈ skip ++ p :: post := by
      rcases List.mem_append.mp hq with hq | hq
      · exact List.mem_append_left _ hq
      · exact List.mem_append_right _ (List.mem_cons_of_mem p hq)
    obtain ⟨-, hstate, hcert⟩ := hconn q (List.mem_append_left _ hq')
    exact hcert ▸ h.certified q hq' (hstate ▸ hactive)

/-- **The turn of a link** at which no handshake is complete, or which takes no
direct connections. -/
theorem turn_idle
    {c : ListenC2n} {ds : List ConnPtr} (h : l.Sound ps ds)
    (hidle : c.config = .disabled ∨
      ((heard io l.count (l.listed ps)).find? fun e => decide (e.2.state = .active)) = none) :
    ∃ l' ps', l.turn io c = .ok (l', c) ∧ l'.Sound ps' ds ∧
      l'.listed ps' = heard io l.count (l.listed ps) ∧ l'.count = allocated io l.count ∧
      Untouched l l' ps ∧ Fate l l' ps ps' (fun p => (io.conn p).fails = true) fun _ => False := by
  obtain ⟨l', ps', hrun, hsound, hlisted, hcount, hsame, hfate⟩ := @processListener_spec l ps ds io h
  refine ⟨l', ps', ?_, hsound, hlisted, hcount, hsame, hfate⟩
  simp only [turn, hrun, bind, Except.bind]
  rcases hidle with hdisabled | hnone
  · rw [if_pos hdisabled]
    rfl
  · split
    · rfl
    · have hno : ∀ q ∈ ps', (l'.conn q).state ≠ .active := by
        intro q hq
        rw [← hlisted] at hnone
        simpa using List.find?_eq_none.mp hnone (q, l'.conn q) (List.mem_map_of_mem hq)
      rw [processDirectc2c_none hsound hno]
      rfl

/-- The direct connections of the channels before and behind one of them. -/
theorem directs_split
    {c : ListenC2n} {ch : ListenChan} {i : Nat} (h : c.chans[i]? = some ch) :
    ∃ xs ys, c.directs = xs ++ ch.direct.toList ++ ys ∧
      ∀ ch', ListenC2n.directs { c with chans := c.chans.set i ch' } =
        xs ++ ch'.direct.toList ++ ys := by
  obtain ⟨hi, rfl⟩ := List.getElem?_eq_some_iff.mp h
  have hone : ∀ ch : ListenChan, [ch].filterMap ListenChan.direct = ch.direct.toList := by
    intro ch
    cases hd : ch.direct with
    | none => simp [hd]
    | some q => simp [hd]
  refine ⟨(c.chans.take i).filterMap ListenChan.direct,
    (c.chans.drop (i + 1)).filterMap ListenChan.direct, ?_, ?_⟩
  · rw [← hone, ← List.filterMap_append, ← List.filterMap_append, List.append_assoc,
      List.singleton_append, List.getElem_cons_drop, List.take_append_drop]
    rfl
  · intro ch'
    rw [← hone, ← List.filterMap_append, ← List.filterMap_append, List.append_assoc,
      List.singleton_append, ListenC2n.directs, List.set_eq_take_append_cons_drop, if_pos hi]

/-- **The turn of a link** that takes the first complete connection. -/
theorem turn_taken
    {c : ListenC2n} {done after : List ConnPtr} {e : ConnPtr × Direct}
    (h : l.Sound ps (done ++ c.directs ++ after)) (henabled : c.config ≠ .disabled)
    (hfind : ((heard io l.count (l.listed ps)).find? fun e => decide (e.2.state = .active)) =
      some e)
    (hfits : Fits io c.chans e.1 e.2) :
    ∃ l' ps' c', l.turn io c = .ok (l', c') ∧ l'.Sound ps' (done ++ c'.directs ++ after) ∧
      l'.listed ps' =
        ((heard io l.count (l.listed ps)).eraseP fun e => decide (e.2.state = .active)) ∧
      l'.count = allocated io l.count ∧ Untouched l l' (ps ++ c.directs) ∧
      Fate l l' ps ps' (fun p => (io.conn p).fails = true)
        fun p => AttachedAt io c.chans c'.chans p (l'.conn p) := by
  obtain ⟨l₁, ps₁, hrun, hsound, hlisted, hcount, hsame, hfate⟩ := @processListener_spec l ps _ io h
  rw [← hlisted] at hfind ⊢
  obtain ⟨skip, post, rfl, hd, hactive, hskip, herase⟩ := listed_find hfind
  obtain ⟨p, d⟩ := e
  dsimp only at hd hfits hactive hsound
  subst hd
  obtain ⟨⟨ch, i⟩, hmatch, hsend⟩ := hfits
  obtain ⟨hch, hwaits⟩ := matching_waits hmatch
  obtain ⟨xs, ys, hsplit, hset⟩ := directs_split hch
  have hsound' : l₁.Sound (skip ++ p :: post) (done ++ xs ++ ch.direct.toList ++ (ys ++ after)) := by
    rw [hsplit] at hsound
    simpa only [List.append_assoc] using hsound
  have hold := hsound'.not_old
  have hpmem : p ∈ skip ++ p :: post := List.mem_append_right _ List.mem_cons_self
  have hlive : (l₁.conn p).freed = false := hsound.live p (List.mem_append_left _ hpmem)
  have hdirect : ∀ q, ch.direct = some q → q ≠ p ∧ (l₁.conn q).freed = false := by
    intro q hq
    refine ⟨?_, hsound'.live q ?_⟩
    · rintro rfl
      exact hold q (List.mem_append_left _ hpmem) hq
    · simp [hq]
  obtain ⟨l₂, ch', hattach, ha⟩ := attach_fits hdirect hsend
  have hnd : p ∉ skip ++ post :=
    (List.nodup_cons.mp (List.nodup_middle.mp (List.nodup_append.mp hsound.distinct).1)).1
  have hkeep : ∀ q, q ≠ p → ch.direct ≠ some q → l₂.conn q = l₁.conn q := ha.conn
  have hmid : ∀ q ∈ skip ++ post, q ≠ p ∧ q ∈ skip ++ p :: post := by
    intro q hq
    refine ⟨?_, ?_⟩
    · rintro rfl
      exact hnd hq
    · rcases List.mem_append.mp hq with hq | hq
      · exact List.mem_append_left _ hq
      · exact List.mem_append_right _ (List.mem_cons_of_mem p hq)
  refine ⟨l₂.unlinked skip.getLast? p, skip ++ post, { c with chans := c.chans.set i ch' },
    ?_, ?_, ?_, ?_, ?_, ?_⟩
  · obtain ⟨fuel, hloop⟩ := @processDirectc2c_first l₁ io p c.chans _ skip post hsound hskip
    simp only [turn, hrun, bind, Except.bind, if_neg henabled]
    rw [hloop, acceptedLoop_attached hlive hactive hmatch hattach ha]
    rfl
  · have hnew := Sound.attached hsound' ha
    rw [hset ch']
    simpa only [List.append_assoc] using hnew
  · rw [herase]
    refine List.map_congr_left fun q hq => ?_
    have hq' : (l₂.unlinked skip.getLast? p).conn q = l₁.conn q :=
      hkeep q (hmid q hq).1 (hold q (List.mem_append_left _ (hmid q hq).2))
    rw [hq']
  · exact ha.count.trans hcount
  · intro q hq hlt
    rw [List.mem_append, not_or] at hq
    refine (hkeep q ?_ ?_).trans (hsame q hq.1 hlt)
    · rintro rfl
      rcases hfate.old q hpmem with hps | ⟨hge, -⟩
      · exact hq.1 hps
      · exact Nat.lt_irrefl _ (Nat.lt_of_lt_of_le hlt hge)
    · intro hdirect
      refine hq.2 ?_
      rw [hsplit, hdirect]
      simp
  · refine ⟨ha.count ▸ hfate.grows, ?_, fun q hq => ha.count ▸ hfate.old q (hmid q hq).2⟩
    intro q hq
    by_cases hqp : q = p
    · subst hqp
      have hself : (l₂.unlinked skip.getLast? q).conn q = (l₁.conn q).verifiedFor ch.peerId := ha.self
      refine .inr (.inr ⟨?_, i, ch, ch', hch, ?_, ?_, ha.direct, ha.peerId, ha.state⟩)
      · rw [hself]
        exact hactive
      · exact List.getElem?_set_self (List.getElem?_eq_some_iff.mp hch).1
      · rw [hself]
        exact hwaits
    · have hq₁ : q ∈ ps ∨ l.count ≤ q ∧ q < l₁.count := by
        rw [← ha.count]
        exact hq
      rcases hfate.fate q hq₁ with hmem | ⟨hfreed, hstate, hlost⟩ | ⟨-, hno⟩
      · left
        rw [List.mem_append, List.mem_cons] at hmem
        rw [List.mem_append]
        exact hmem.imp_right fun h => h.resolve_left hqp
      · right
        left
        have hq' : (l₂.unlinked skip.getLast? p).conn q = l₁.conn q := by
          refine hkeep q hqp fun hd => ?_
          rw [(hdirect q hd).2] at hfreed
          cases hfreed
        rw [hq']
        exact ⟨hfreed, hstate, hlost⟩
      · exact hno.elim

/-- **The turn of a link** to which the first complete connection does not belong. -/
theorem turn_rejected
    {c : ListenC2n} {ds : List ConnPtr} {e : ConnPtr × Direct} (h : l.Sound ps ds)
    (henabled : c.config ≠ .disabled)
    (hfind : ((heard io l.count (l.listed ps)).find? fun e => decide (e.2.state = .active)) =
      some e)
    (hunfit : ¬Fits io c.chans e.1 e.2) :
    ∃ fault, l.turn io c = .error fault := by
  obtain ⟨l₁, ps₁, hrun, hsound, hlisted, -, -, -⟩ := @processListener_spec l ps _ io h
  rw [← hlisted] at hfind
  obtain ⟨skip, post, rfl, hd, hactive, hskip, -⟩ := listed_find hfind
  obtain ⟨p, d⟩ := e
  dsimp only at hd hunfit hactive hsound
  subst hd
  have hlive : (l₁.conn p).freed = false :=
    hsound.live p (List.mem_append_left _ (List.mem_append_right _ List.mem_cons_self))
  obtain ⟨fuel, hloop⟩ := @processDirectc2c_first l₁ io p c.chans _ skip post hsound hskip
  simp only [turn, hrun, bind, Except.bind, if_neg henabled]
  rw [hloop]
  cases hmatch : matching io c.chans p (l₁.conn p) with
  | none =>
      rw [acceptedLoop_rejected hlive hactive hmatch]
      exact ⟨_, rfl⟩
  | some m =>
      obtain ⟨fault, hserve⟩ := @serve_unfit l₁ io p c.chans m.1 m.2 skip.getLast? _ hmatch
        fun hsend => hunfit ⟨m, hmatch, hsend⟩
      refine ⟨fault, ?_⟩
      rw [acceptedLoop, get_ok hlive]
      simp only [bind, Except.bind, if_pos hactive, hserve]

end DirectC2c

section Pass

variable {l l₁ l' : Listener} {io : TurnIo} {ps ps₁ ps' done : List ConnPtr} {p : ConnPtr}
  {c c' : ListenC2n} {turns rest : List (ListenC2n × TurnIo)} {ts : List ListenC2n}

/-- The direct connections of all channels. -/
def allDirects (turns : List (ListenC2n × TurnIo)) : List ConnPtr :=
  turns.flatMap fun e => e.1.directs

theorem AttachedAt.mem_directs {d : Direct} (h : AttachedAt io c.chans c'.chans p d) :
    p ∈ c'.directs := by
  obtain ⟨i, ch, ch', -, hch', -, hdirect, -⟩ := h
  exact List.mem_filterMap.mpr ⟨ch', List.mem_of_getElem? hch', hdirect⟩

theorem AttachedTo.mem_directs {d : Direct} (h : AttachedTo turns ts p d) :
    p ∈ ts.flatMap ListenC2n.directs := by
  obtain ⟨k, e, t, -, ht, hat⟩ := h
  exact List.mem_flatMap.mpr ⟨t, List.mem_of_getElem? ht, hat.mem_directs⟩

theorem AttachedTo.wanted {d : Direct} (h : AttachedTo turns ts p d) : Wanted turns p d := by
  obtain ⟨k, e, t, he, -, i, ch, ch', hch, -, hwaits, -⟩ := h
  exact ⟨e, List.mem_of_getElem? he, ch, List.mem_of_getElem? hch, hwaits⟩

/-- A pass from `l` with the list `ps` to `l'` with the list `ps'`; `done` are the direct
connections of the links in front. -/
structure Passed (l : Listener) (ps : List ConnPtr) (turns : List (ListenC2n × TurnIo))
    (l' : Listener) (ps' : List ConnPtr) (ts : List ListenC2n) (done : List ConnPtr) : Prop where
  sound : l'.Sound ps' (done ++ ts.flatMap ListenC2n.directs)
  untouched : Untouched l l' (ps ++ allDirects turns)
  fate : Fate l l' ps ps' (fun p => ∃ e ∈ turns, (e.2.conn p).fails = true)
    fun p => AttachedTo turns ts p (l'.conn p)
  served : Served turns l.count (l.listed ps) ↔ ∀ p ∈ ps', (l'.conn p).state ≠ .active

/-- A turn and the rest of the pass. -/
theorem Passed.cons
    (hps : ∀ q ∈ ps, q < l.count)
    (hsound : l₁.Sound ps₁ (done ++ c'.directs ++ allDirects rest))
    (hsame : Untouched l l₁ (ps ++ c.directs))
    (hfate : Fate l l₁ ps ps₁ (fun p => (io.conn p).fails = true)
      fun p => AttachedAt io c.chans c'.chans p (l₁.conn p))
    (hserved : Served ((c, io) :: rest) l.count (l.listed ps) ↔
      Served rest l₁.count (l₁.listed ps₁))
    (h : Passed l₁ ps₁ rest l' ps' ts (done ++ c'.directs)) :
    Passed l ps ((c, io) :: rest) l' ps' (c' :: ts) done := by
  -- A record that is in none of the lists keeps its contents until the end.
  have hkeep : ∀ q, q < l₁.count → q ∉ ps₁ → q ∉ allDirects rest → l'.conn q = l₁.conn q := by
    intro q hlt hps hrest
    refine h.untouched q ?_ hlt
    rw [List.mem_append, not_or]
    exact ⟨hps, hrest⟩
  refine ⟨?_, ?_, ⟨Nat.le_trans hfate.grows h.fate.grows, ?_, ?_⟩, hserved.trans h.served⟩
  · have hs := h.sound
    rw [List.append_assoc] at hs
    exact hs
  · intro q hq hlt
    rw [allDirects, List.flatMap_cons, ← List.append_assoc, List.mem_append, not_or] at hq
    have hlt₁ := Nat.lt_of_lt_of_le hlt hfate.grows
    refine (hkeep q hlt₁ ?_ hq.2).trans (hsame q hq.1 hlt)
    intro hmem
    rcases hfate.old q hmem with hps | ⟨hge, -⟩
    · exact hq.1 (List.mem_append_left _ hps)
    · exact Nat.lt_irrefl _ (Nat.lt_of_lt_of_le hlt hge)
  · intro q hq
    have hshift : ∀ d, AttachedTo rest ts q d → AttachedTo ((c, io) :: rest) (c' :: ts) q d := by
      rintro d ⟨k, e, t, he, ht, hat⟩
      exact ⟨k + 1, e, t, he, ht, hat⟩
    have hthen : q ∈ ps₁ ∨ l₁.count ≤ q ∧ q < l'.count →
        q ∈ ps' ∨ ((l'.conn q).freed = true ∧ (l'.conn q).state ≠ .active ∧
            ∃ e ∈ (c, io) :: rest, (e.2.conn q).fails = true) ∨
          ((l'.conn q).state = .active ∧ AttachedTo ((c, io) :: rest) (c' :: ts) q (l'.conn q)) := by
      intro hq₁
      rcases h.fate.fate q hq₁ with hmem | ⟨hfreed, hstate, e, he, hlost⟩ | ⟨hstate, hat⟩
      · exact .inl hmem
      · exact .inr (.inl ⟨hfreed, hstate, e, List.mem_cons_of_mem _ he, hlost⟩)
      · exact .inr (.inr ⟨hstate, hshift _ hat⟩)
    by_cases hlt : q < l₁.count
    · have hq₁ : q ∈ ps ∨ l.count ≤ q ∧ q < l₁.count := hq.imp_right fun hn => ⟨hn.1, hlt⟩
      rcases hfate.fate q hq₁ with hmem | ⟨hfreed, hstate, hlost⟩ | ⟨hstate, hat⟩
      · exact hthen (.inl hmem)
      · have hdead : ∀ q' ∈ ps₁ ++ (done ++ c'.directs ++ allDirects rest), q' ≠ q := by
          rintro q' hq' rfl
          rw [hsound.live q' hq'] at hfreed
          cases hfreed
        rw [hkeep q hlt (fun hm => hdead q (by simp [hm]) rfl)
          (fun hm => hdead q (by simp [hm]) rfl)]
        exact .inr (.inl ⟨hfreed, hstate, _, List.mem_cons_self, hlost⟩)
      · have hmem := hat.mem_directs
        obtain ⟨-, hds, hcross⟩ := List.nodup_append.mp hsound.distinct
        obtain ⟨-, -, hcross'⟩ := List.nodup_append.mp hds
        rw [hkeep q hlt (fun hm => hcross q hm q (by simp [hmem]) rfl)
          (fun hm => hcross' q (by simp [hmem]) q hm rfl)]
        exact .inr (.inr ⟨hstate, 0, _, _, rfl, rfl, hat⟩)
    · refine hthen (.inr ⟨Nat.le_of_not_lt hlt, ?_⟩)
      rcases hq with hmem | ⟨-, hlt'⟩
      · exact absurd (Nat.lt_of_lt_of_le (hps q hmem) hfate.grows) hlt
      · exact hlt'
  · intro q hq
    rcases h.fate.old q hq with hmem | ⟨hge, hlt⟩
    · exact (hfate.old q hmem).imp_right fun hn =>
        ⟨hn.1, Nat.lt_of_lt_of_le hn.2 h.fate.grows⟩
    · exact .inr ⟨Nat.le_trans hfate.grows hge, hlt⟩

/-- **The pass.**  It fails when a complete connection is not served; otherwise every connection
remains in the list, fails its handshake or is attached. -/
theorem pass_spec (h : l.Sound ps (done ++ allDirects turns)) :
    (∃ fault, l.pass turns = .error fault ∧ ¬Served turns l.count (l.listed ps)) ∨
      ∃ l' ts ps', l.pass turns = .ok (l', ts) ∧ Passed l ps turns l' ps' ts done := by
  induction turns generalizing l ps done with
  | nil =>
      refine .inr ⟨l, [], ps, rfl, h, fun _ _ _ => rfl, ⟨Nat.le_refl _, ?_, fun p hp => .inl hp⟩, ?_⟩
      · rintro p (hp | ⟨hge, hlt⟩)
        · exact .inl hp
        · exact absurd (Nat.lt_of_le_of_lt hge hlt) (Nat.lt_irrefl _)
      · simp [Served, listed]
  | cons e rest ih =>
      obtain ⟨c, io⟩ := e
      have hps : ∀ q ∈ ps, q < l.count := fun q hq => h.allocated q (List.mem_append_left _ hq)
      have hall : done ++ allDirects ((c, io) :: rest) = done ++ c.directs ++ allDirects rest := by
        simp [allDirects]
      rw [hall] at h
      -- What remains to be shown when the turn succeeds.
      have hrest : ∀ {l₁ c' ps₁}, l.turn io c = .ok (l₁, c') →
          l₁.Sound ps₁ (done ++ c'.directs ++ allDirects rest) →
          Untouched l l₁ (ps ++ c.directs) →
          Fate l l₁ ps ps₁ (fun p => (io.conn p).fails = true)
            (fun p => AttachedAt io c.chans c'.chans p (l₁.conn p)) →
          (Served ((c, io) :: rest) l.count (l.listed ps) ↔
            Served rest l₁.count (l₁.listed ps₁)) →
          (∃ fault, l.pass ((c, io) :: rest) = .error fault ∧
              ¬Served ((c, io) :: rest) l.count (l.listed ps)) ∨
            ∃ l' ts ps', l.pass ((c, io) :: rest) = .ok (l', ts) ∧
              Passed l ps ((c, io) :: rest) l' ps' ts done := by
        intro l₁ c' ps₁ hturn hsound hsame hfate hserved
        rcases ih hsound with ⟨fault, hrun, hno⟩ | ⟨l', ts, ps', hrun, hpassed⟩
        · refine .inl ⟨fault, ?_, fun hs => hno (hserved.mp hs)⟩
          simp only [pass, hturn, bind, Except.bind, hrun]
        · refine .inr ⟨l', c' :: ts, ps', ?_, Passed.cons hps hsound hsame hfate hserved hpassed⟩
          simp only [pass, hturn, bind, Except.bind, hrun]
          rfl
      by_cases hidle : c.config = .disabled ∨
          ((heard io l.count (l.listed ps)).find? fun e => decide (e.2.state = .active)) = none
      · obtain ⟨l₁, ps₁, hturn, hsound, hlisted, hcount, hsame, hfate⟩ := turn_idle h hidle
        refine hrest hturn hsound ?_ ⟨hfate.grows, ?_, hfate.old⟩ ?_
        · exact fun q hq hlt => hsame q (fun hm => hq (List.mem_append_left _ hm)) hlt
        · exact fun q hq => (hfate.fate q hq).imp_right (Or.imp_right fun hno => hno.2.elim)
        · rw [Served, hlisted, hcount]
          rcases hidle with hdisabled | hnone
          · rw [if_pos hdisabled]
          · rw [hnone]
            simp
      · obtain ⟨henabled, hsome⟩ := not_or.mp hidle
        obtain ⟨e, hfind⟩ := Option.ne_none_iff_exists'.mp hsome
        by_cases hfits : Fits io c.chans e.1 e.2
        · obtain ⟨l₁, ps₁, c', hturn, hsound, hlisted, hcount, hsame, hfate⟩ :=
            turn_taken h henabled hfind hfits
          refine hrest hturn hsound hsame hfate ?_
          rw [Served, hlisted, hcount, if_neg henabled, hfind]
          exact and_iff_right hfits
        · obtain ⟨fault, hturn⟩ := turn_rejected h henabled hfind hfits
          refine .inl ⟨fault, ?_, ?_⟩
          · simp only [pass, hturn, bind, Except.bind]
          · rw [Served, if_neg henabled, hfind]
            exact fun hs => hfits hs.1

/-- **Accepted connections find their channel** exactly when the first complete connection
at the turn of a link belongs to this link, and none is left at the end. -/
theorem pass_right_iff (h : l.Sound ps (allDirects turns)) :
    PassRight l ps turns ↔ Served turns l.count (l.listed ps) := by
  have h' : l.Sound ps ([] ++ allDirects turns) := h
  rcases pass_spec h' with ⟨fault, hrun, hno⟩ | ⟨l', ts, ps', hrun, hpassed⟩
  · refine iff_of_false ?_ hno
    rintro ⟨l', ts, ps', hok, -⟩
    rw [hrun] at hok
    cases hok
  · have hsound := hpassed.sound
    rw [List.nil_append] at hsound
    rw [hpassed.served]
    constructor
    · rintro ⟨l'', ts', ps'', hok, hchain, hright⟩ p hp hactive
      rw [hrun] at hok
      cases hok
      obtain rfl := hsound.chain.unique hchain
      have hfor := hright p (hpassed.fate.old p hp)
      by_cases hwanted : Wanted turns p (l'.conn p)
      · exact (hfor.attached hactive hwanted).2.2.2 hp
      · exact (hfor.rejected hactive hwanted).2 hp
    · intro hnone
      refine ⟨l', ts, ps', hrun, hsound.chain, fun p hp => ?_⟩
      obtain ⟨-, hds, hcross⟩ := List.nodup_append.mp hsound.distinct
      have hdone : (l'.conn p).state = .active → AttachedTo turns ts p (l'.conn p) := by
        intro hactive
        rcases hpassed.fate.fate p hp with hmem | ⟨-, hstate⟩ | ⟨-, hat⟩
        · exact absurd hactive (hnone p hmem)
        · exact absurd hactive hstate.1
        · exact hat
      refine ⟨?_, ?_, ?_⟩
      · intro hactive _
        have hmem := (hdone hactive).mem_directs
        refine ⟨hdone hactive, List.count_eq_one_of_mem hds hmem,
          hsound.live p (List.mem_append_right _ hmem), fun hp' => hcross p hp' p hmem rfl⟩
      · exact fun hactive hwanted => absurd (hdone hactive).wanted hwanted
      · intro hstate hfine
        rcases hpassed.fate.fate p hp with hmem | ⟨-, -, e, he, hlost⟩ | ⟨hactive, -⟩
        · exact ⟨hsound.live p (List.mem_append_left _ hmem), hmem⟩
        · rw [hfine e he] at hlost
          cases hlost
        · exact absurd hactive hstate

/-- A complete connection of the peer `b`. -/
def complete (b : UInt8) : Direct :=
  ⟨false, .active, some ⟨true, none⟩, some ⟨some 4096, some (Id.ofByte b)⟩, none, 0, false⟩

/-- The records 0 and 1 are complete, and the first in the list is not. -/
def three : Listener where
  acceptedConnections := some 2
  next p := if p = 2 then some 0 else if p = 0 then some 1 else none
  conn p := if p = 0 then complete 5 else if p = 1 then complete 6
    else ⟨false, .waitingTls, some ⟨false, none⟩, none, none, 0, false⟩
  count := 3

/-- A link with a channel that waits for the peer `b`. -/
def waitingFor (b : UInt8) : ListenC2n :=
  ⟨.allowIncoming,
    [⟨{ C2c.opened .waitingIncoming .allowIncoming with writeBuf := some (List.replicate 8 0) },
      Id.ofByte b, none⟩]⟩

/-- Nothing is ready, and the user accepts all certificates. -/
def quiet : TurnIo :=
  ⟨none, fun _ => ⟨false, .wantRead, none⟩, fun _ => true, .enough, 7, 7⟩

theorem three_sound : three.Sound [2, 0, 1] [] where
  chain := ⟨rfl, rfl, rfl, rfl⟩
  distinct := by decide
  live := by decide
  allocated := by decide
  certified := by decide

theorem pass_right_three :
    PassRight three [2, 0, 1] [(waitingFor 5, quiet), (waitingFor 6, quiet)] :=
  (pass_right_iff three_sound).mpr (by decide +kernel)

/-- A link that is not established has no channels; it closes the connection that the next link
waits for, and reads its `next`. -/
theorem pass_not_right :
    three.Sound [2, 0, 1] (allDirects [(⟨.allowIncoming, []⟩, quiet), (waitingFor 5, quiet)]) ∧
      Wanted [(⟨.allowIncoming, []⟩, quiet), (waitingFor 5, quiet)] 0 (three.conn 0) ∧
      three.pass [(⟨.allowIncoming, []⟩, quiet), (waitingFor 5, quiet)] = .error .freedDirect ∧
      ¬PassRight three [2, 0, 1] [(⟨.allowIncoming, []⟩, quiet), (waitingFor 5, quiet)] := by
  have hrun : three.pass [(⟨.allowIncoming, []⟩, quiet), (waitingFor 5, quiet)] =
      .error .freedDirect := rfl
  refine ⟨three_sound, ?_, hrun, ?_⟩
  · exact ⟨_, List.mem_cons_of_mem _ List.mem_cons_self, _, List.mem_cons_self, rfl, rfl⟩
  · rintro ⟨l', ts, ps', hok, -⟩
    rw [hrun] at hok
    cases hok

end Pass

end Listener

end Client
end PicaPica
