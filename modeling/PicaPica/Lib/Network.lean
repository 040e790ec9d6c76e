import PicaPica.Lib.Run

/-!
# Parties that exchange messages

Several parties run the same machine.  `sent` collects every message that a party has had on
the way, and an event that takes a message can happen when the message is among them, or when
it is one that parties write without queueing it.  Nothing else is asked of the way: messages
are delayed, reordered, duplicated, lost or brought to another party than they were meant for.

`Noted` says that a fact was established by an earlier event at some party.  The rule
`attribution` follows facts through the network: when a party relies on established facts only,
and passes on messages that rely on established facts only, as long as the messages it takes
do, then this holds of every party and every message in every run.
-/

namespace Machine

/-! ## Runs that are read from their end -/

section History

variable {S E : Type*} {step : S → E → Option S}

theorem run_snoc
    {s u : S} {e : E} {es : List E}
    (h : run step s (es ++ [e]) = some u) :
    ∃ t, run step s es = some t ∧ step t e = some u := by
  obtain ⟨t, ht, hlast⟩ := run_append h
  obtain ⟨v, hv, hu⟩ := run_cons hlast
  cases hu
  exact ⟨t, ht, hv⟩

/-- **Invariant rule with the events so far.** -/
theorem run_history
    {I : List E → S → Prop} {s : S}
    (h0 : I [] s)
    (hstep : ∀ es t e u, run step s es = some t → I es t → step t e = some u →
      I (es ++ [e]) u)
    {es : List E} {t : S} (hrun : run step s es = some t) :
    I es t := by
  induction es using List.reverseRecOn generalizing t with
  | nil =>
      cases hrun
      exact h0
  | append_singleton es e ih =>
      obtain ⟨u, hu, hlast⟩ := run_snoc hrun
      exact hstep es u e t hu (ih hu) hlast

/-- At some step of the run the condition on the event and on the state before it held. -/
def Occurred (step : S → E → Option S) (s : S) (es : List E) (C : S → E → Prop) : Prop :=
  ∃ before e after u, es = before ++ e :: after ∧ run step s before = some u ∧ C u e

variable {s t : S} {e : E} {es fs : List E} {C : S → E → Prop}

theorem Occurred.append (h : Occurred step s es C) : Occurred step s (es ++ fs) C := by
  obtain ⟨before, e, after, u, rfl, hu, hC⟩ := h
  exact ⟨before, e, after ++ fs, u, by simp, hu, hC⟩

theorem Occurred.last (hrun : run step s es = some t) (hC : C t e) :
    Occurred step s (es ++ [e]) C :=
  ⟨es, e, [], t, rfl, hrun, hC⟩

end History

/-! ## Networks -/

/-- The parties, and the messages they have had on the way. -/
structure Net (ι S M : Type*) where
  party : ι → S
  sent : List M

/-- How the machine of the parties deals with messages. -/
structure Wire (S E M : Type*) where
  /-- the message that an event brings -/
  takes : E → Option M
  /-- the messages that a party has on the way -/
  out : S → List M
  /-- messages that arrive without having been on the way -/
  free : M → Bool

section Net

variable {ι S E M : Type*} [DecidableEq ι] [DecidableEq M]

/-- The message of the event can arrive. -/
def Wire.arrives (W : Wire S E M) (sent : List M) (e : E) : Bool :=
  (W.takes e).all fun m => W.free m ∨ m ∈ sent

/-- One event at one party. -/
def netStep (step : S → E → Option S) (W : Wire S E M) (w : Net ι S M) (x : ι × E) :
    Option (Net ι S M) :=
  if W.arrives w.sent x.2 then
    (step (w.party x.1) x.2).map fun t =>
      ⟨Function.update w.party x.1 t, w.sent ++ W.out t⟩
  else none

/-- The parties at the beginning; no message is on the way. -/
def Net.start (s : ι → S) : Net ι S M :=
  ⟨s, []⟩

variable {step : S → E → Option S} {W : Wire S E M} {w w' : Net ι S M} {i : ι} {e : E}

theorem netStep_eq_some :
    netStep step W w (i, e) = some w' ↔ W.arrives w.sent e ∧
      ∃ t, step (w.party i) e = some t ∧
        w' = ⟨Function.update w.party i t, w.sent ++ W.out t⟩ := by
  rw [netStep]
  split_ifs with harr
  · simp only [Option.map_eq_some_iff, harr, true_and]
    exact exists_congr fun t => and_congr_right fun _ => eq_comm
  · simp [harr]

theorem Wire.arrives_iff {sent : List M} :
    W.arrives sent e ↔ ∀ m, W.takes e = some m → W.free m ∨ m ∈ sent := by
  rw [Wire.arrives]
  cases W.takes e with
  | none => simp
  | some m => simp

/-- The fact was established by an event at some party. -/
def Noted {α : Type*} (step : S → E → Option S) (W : Wire S E M) (s : ι → S)
    (Est : S → E → α → Prop) (es : List (ι × E)) (a : α) : Prop :=
  Occurred (netStep step W) (Net.start s) es fun w x => Est (w.party x.1) x.2 a

/-- What a party and a message rely on, and why a step relies on established facts only. -/
structure Attribution {α : Type*} (step : S → E → Option S) (W : Wire S E M)
    (Est : S → E → α → Prop) (P : (α → Prop) → S → Prop) (Q : (α → Prop) → M → Prop) :
    Prop where
  monoParty : ∀ {A B : α → Prop} {s : S}, (∀ a, A a → B a) → P A s → P B s
  monoMessage : ∀ {A B : α → Prop} {m : M}, (∀ a, A a → B a) → Q A m → Q B m
  step : ∀ {A : α → Prop} {s : S} {e : E} {t : S}, (∀ a, Est s e a → A a) → P A s →
    (∀ m, W.takes e = some m → W.free m ∨ Q A m) → step s e = some t → P A t
  out : ∀ {A : α → Prop} {s : S} {m : M}, P A s → m ∈ W.out s → Q A m

/-- **Attribution.**  Parties and messages rely on facts that were established. -/
theorem attribution
    {α : Type*} {Est : S → E → α → Prop} {P : (α → Prop) → S → Prop}
    {Q : (α → Prop) → M → Prop} {s : ι → S} {es : List (ι × E)}
    (hA : Attribution step W Est P Q) (h0 : ∀ i, P (fun _ => False) (s i))
    (hrun : run (netStep step W) (Net.start s) es = some w) :
    (∀ i, P (Noted step W s Est es) (w.party i)) ∧ ∀ m ∈ w.sent, Q (Noted step W s Est es) m := by
  refine run_history (I := fun es w => (∀ i, P (Noted step W s Est es) (w.party i)) ∧
    ∀ m ∈ w.sent, Q (Noted step W s Est es) m) ?_ ?_ hrun
  · exact ⟨fun i => hA.monoParty (fun _ => False.elim) (h0 i), fun m hm => nomatch hm⟩
  · rintro es u ⟨j, e⟩ v hu ⟨hparty, hsent⟩ hv
    have hmono : ∀ a, Noted step W s Est es a → Noted step W s Est (es ++ [(j, e)]) a :=
      fun a => Occurred.append
    have hnow : ∀ a, Est (u.party j) e a → Noted step W s Est (es ++ [(j, e)]) a :=
      fun a ha => Occurred.last hu ha
    obtain ⟨harr, t, ht, rfl⟩ := netStep_eq_some.mp hv
    have htakes : ∀ m, W.takes e = some m →
        W.free m ∨ Q (Noted step W s Est (es ++ [(j, e)])) m := by
      intro m hm
      rcases Wire.arrives_iff.mp harr m hm with hfree | hmem
      · exact .inl hfree
      · exact .inr (hA.monoMessage hmono (hsent m hmem))
    have hnext := hA.step hnow (hA.monoParty hmono (hparty j)) htakes ht
    constructor
    · intro k
      by_cases hk : k = j
      · subst hk
        simpa using hnext
      · simpa [hk] using hA.monoParty hmono (hparty k)
    · intro m hm
      rcases List.mem_append.mp hm with hold | hnew
      · exact hA.monoMessage hmono (hsent m hold)
      · exact hA.out hnext hnew

end Net

end Machine
