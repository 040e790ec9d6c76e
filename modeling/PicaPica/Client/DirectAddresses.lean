import PicaPica.Client.ClnodelistItems
import PicaPica.Client.DirectAttempt

/-!
# The attempts for a list of direct addresses

`directc2c_connect_next` with the bytes it reads and the addresses `connect` is called with.
The position counts from the two bytes of the length, and is compared with the length alone,
so that two bytes at the end are left over; only an IPv4 address moves it.  While every attempt
fails, the calls go through a list of IPv4 addresses and end.  An item of another type holds
them for ever, and a short address of at least three bytes is tried as well, or is read behind
the memory of the list.
-/

namespace PicaPica

open Items

namespace Client

/-- A direct connection, and the addresses that `connect` has been called with. -/
structure Dial where
  direct : Direct
  tried : List SockAddr

/-- How the calls of `directc2c_connect_next` end, with a bound on their number. -/
inductive DialEnd
  /-- `PICA_ERRNOTFOUND` -/
  | notFound (t : Dial)
  /-- a byte outside the memory of the list is read -/
  | outside
  /-- no attempt has been made, and the connection is `NEW`: no call follows -/
  | ignored (t : Dial)
  /-- the bound is reached -/
  | running (t : Dial)

namespace Dial

/-- The record for the list in the frame `f`, before the first call. -/
def listed (f : Frame) : Dial :=
  ⟨{ Direct.fresh with addrlist := some (f.drop 2) }, []⟩

variable (t : Dial)

/-- The session is dropped, and the place of the next address is known. -/
def ready : Direct :=
  { t.direct with ssl := none, addrpos := t.direct.nextPos }

/-- `connect` is called with the address `a`, and the position moves on. -/
def attempt (connect : Bool) (a : SockAddr) : Dial where
  direct := { t.ready with
    state := if connect then .connecting else .failed
    addrpos := t.direct.nextPos + Proto.DIRECTC2C_ADDRLIST_ITEM_IPV4_SIZE }
  tried := t.tried ++ [a]

/-- `directc2c_connect_next`; the memory of the list has a zero behind the bytes of the
message. -/
def connectNext (connect : Bool) : Except SessionFault (Dial × Bool) :=
  if t.direct.freed then .error .freedDirect
  else
    match t.direct.addrlist with
    | none => .error .nullPtr
    | some l =>
        let mem := l ++ [0]
        let pos := t.direct.nextPos
        if mem.length < 2 then .error .outside
        else if load16 mem 0 ≤ pos then .ok (⟨t.ready, t.tried⟩, false)
        else if mem.length ≤ pos then .error .outside
        else if byteAt mem pos = Proto.DIRECTC2C_IPV4 then
          if mem.length < pos + Proto.DIRECTC2C_ADDRLIST_ITEM_IPV4_SIZE then .error .outside
          else .ok (t.attempt connect (addrAt mem (pos + 1)), true)
        else .ok (⟨t.ready, t.tried⟩, true)

/-- The attempt has failed, in `connect` or in a later pass of `process_directc2c`. -/
def failed : Dial :=
  { t with direct := { t.direct with ssl := none, state := .failed } }

/-- The first call is made by the handler of the list, and `process_directc2c` makes one for a
connection that has `FAILED`; it makes none for a connection that is `NEW`.  The list says for
each call whether the connection is in progress at first. -/
def calls : List Bool → Dial → DialEnd
  | [], t => .running t
  | connect :: cs, t =>
      match t.connectNext connect with
      | .error _ => .outside
      | .ok (t', false) => .notFound t'
      | .ok (t', true) =>
          if t'.direct.state = .new then .ignored t' else calls cs t'.failed

end Dial

/-! ## One call -/

section Call

variable {t t' : Dial} {connect found : Bool}

theorem byteAt_zero_behind {l : List UInt8} {i : Nat} : byteAt (l ++ [0]) i = byteAt l i := by
  rcases Nat.lt_or_ge i l.length with hlt | hge
  · exact byteAt_append hlt
  · have hnone : l[i]? = none := List.getElem?_eq_none hge
    rcases Nat.eq_zero_or_pos (i - l.length) with hz | hz
    · simp [byteAt, List.getD_eq_getElem?_getD, List.getElem?_append_right hge, hz, hnone]
    · have hout : [(0 : UInt8)][i - l.length]? = none := List.getElem?_eq_none hz
      simp [byteAt, List.getD_eq_getElem?_getD, List.getElem?_append_right hge, hout, hnone]

theorem load16_zero_behind {l : List UInt8} : load16 (l ++ [0]) 0 = load16 l 0 := by
  match l with
  | [] => rfl
  | [b] => simp [load16, leNat]
  | b :: c :: l => simp [load16, leNat]

/-- **A call that reads inside the list is the call of the session.** -/
theorem Dial.connectNext_refines
    (h : t.connectNext connect = .ok (t', found)) :
    t.direct.connectNext connect = .ok (t'.direct, found) := by
  rw [Dial.connectNext] at h
  rw [Direct.connectNext]
  by_cases hfreed : t.direct.freed
  · rw [if_pos hfreed] at h
    cases h
  rw [if_neg hfreed] at h ⊢
  cases hl : t.direct.addrlist with
  | none =>
      rw [hl] at h
      cases h
  | some l =>
      rw [hl] at h
      dsimp only at h ⊢
      rw [load16_zero_behind, byteAt_zero_behind] at h
      by_cases hend : load16 l 0 ≤ t.direct.nextPos
      · split_ifs at h
        cases h
        simp [Dial.ready, hl, hend]
      · rw [if_neg hend]
        by_cases hkind : byteAt l t.direct.nextPos = Proto.DIRECTC2C_IPV4
        · rw [if_neg hend, if_pos hkind] at h
          rw [if_pos hkind]
          by_cases hroom : (l ++ [0]).length < t.direct.nextPos +
              Proto.DIRECTC2C_ADDRLIST_ITEM_IPV4_SIZE
          · split_ifs at h
          · rw [if_neg hroom] at h
            split_ifs at h
            cases h
            simp [Dial.attempt, Dial.ready, hl]
        · rw [if_neg hend, if_neg hkind] at h
          rw [if_neg hkind]
          split_ifs at h
          cases h
          simp [Dial.ready, hl]

/-- The length does not exceed the position. -/
theorem Dial.connectNext_past
    {l : List UInt8}
    (hlive : t.direct.freed = false) (hlist : t.direct.addrlist = some l) (hne : l ≠ [])
    (hpast : load16 (l ++ [0]) 0 ≤ t.direct.nextPos) :
    t.connectNext connect = .ok (⟨t.ready, t.tried⟩, false) := by
  have hlen : 0 < l.length := List.length_pos_iff.mpr hne
  rw [Dial.connectNext, if_neg (by simp [hlive]), hlist]
  dsimp only
  rw [if_neg (by rw [List.length_append, List.length_singleton]; omega), if_pos hpast]

/-- **The handler of a list makes the first call for it.** -/
theorem procmsgDIRECTC2CADDRLIST_calls
    {s : Session} {env : Session.FrameEnv} {f : Frame} {u : Dial}
    (hs : s.Connects) (hcalloc : env.calloc) (hmalloc : env.malloc)
    (h : (Dial.listed f).connectNext env.connect = .ok (u, found)) :
    let s' : Session := { s.setDirectState .connecting with direct := some u.direct }
    s.procmsgDIRECTC2CADDRLIST env f =
      .ok (if found then s' else s'.setDirectState .failedToConnect, 1) := by
  intro s'
  obtain ⟨hconf, hstate, hnow⟩ := hs
  have hfree : ¬(s.chn.directState ≠ .inactive ∧ s.chn.directState ≠ .waitingIncoming) := by
    rcases hstate with hst | hst
    · exact fun hboth => hboth.1 hst
    · exact fun hboth => hboth.2 hst
  have hlater : ¬((s.setDirectState .connecting).outgoing = false ∧
      (s.setDirectState .connecting).chn.config = .allowIncoming) := by
    change ¬(s.outgoing = false ∧ s.chn.config = .allowIncoming)
    rintro ⟨hout, hallow⟩
    rcases hnow with hnow | hnow
    · rw [hout] at hnow
      cases hnow
    · rw [hallow] at hnow
      cases hnow
  have hcall := Dial.connectNext_refines h
  change { Direct.fresh with addrlist := some (f.drop 2) }.connectNext env.connect = _ at hcall
  rw [Session.procmsgDIRECTC2CADDRLIST, if_neg hconf, if_neg hfree]
  dsimp only
  rw [if_neg (by simp [hcalloc]), if_neg (by simp [hmalloc]), if_pos hnow, Session.directListed]
  dsimp only
  rw [if_neg hlater, hcall]
  rfl

/-- **A pass over a connection that has failed makes the next call**, and the record is dropped
with `PICA_ERRNOTFOUND`. -/
theorem directSwitch_calls
    {s : Session} {io : Session.DirectIo}
    (hfailed : t.direct.state = .failed) (h : t.connectNext io.connect = .ok (t', found)) :
    s.directSwitch io t.direct =
      .ok (if found then { s with direct := some t'.direct }
        else { s with direct := none }.setDirectState .failedToConnect) := by
  rw [Session.directSwitch, hfailed]
  dsimp only
  rw [Dial.connectNext_refines h]
  rfl

/-- A pass over a connection that is `NEW` does nothing. -/
theorem directSwitch_new
    {s : Session} {io : Session.DirectIo} {d : Direct}
    (hnew : d.state = .new) :
    s.directSwitch io d = .ok s := by
  rw [Session.directSwitch, hnew]
  rfl

/-- The bytes `x` of the list are still to come. -/
structure Dial.At (t : Dial) (x : List UInt8) : Prop where
  live : t.direct.freed = false
  place : ∃ pre, t.direct.addrlist = some (pre ++ x) ∧ t.direct.nextPos = pre.length ∧
    2 ≤ pre.length ∧ load16 (pre ++ (x ++ [0])) 0 + 2 = pre.length + x.length

/-- Two bytes are left, or fewer. -/
theorem Dial.At.connectNext_end
    {x : List UInt8}
    (h : t.At x) (hx : x.length ≤ 2) :
    t.connectNext connect = .ok (⟨t.ready, t.tried⟩, false) := by
  obtain ⟨pre, hlist, hpos, htwo, hsize⟩ := h.place
  refine Dial.connectNext_past h.live hlist ?_ ?_
  · intro hnil
    rw [(List.append_eq_nil_iff.mp hnil).1] at htwo
    cases htwo
  · rw [List.append_assoc, hpos]
    omega

/-- More than two bytes are left, and they begin with another type. -/
theorem Dial.At.connectNext_other
    {x : List UInt8} {k : UInt8}
    (h : t.At (k :: x)) (hx : 2 ≤ x.length) (hk : k.toNat ≠ Proto.DIRECTC2C_IPV4) :
    t.connectNext connect = .ok (⟨t.ready, t.tried⟩, true) := by
  obtain ⟨pre, hlist, hpos, htwo, hsize⟩ := h.place
  have hlen : (pre ++ (k :: x ++ [0])).length = pre.length + (x.length + 2) := by
    rw [List.length_append, List.cons_append, List.length_cons, List.length_append]
    rfl
  rw [List.length_cons] at hsize
  rw [Dial.connectNext, if_neg (by simp [h.live]), hlist]
  dsimp only
  rw [hpos, List.append_assoc, if_neg (by omega), if_neg (by omega), if_neg (by omega),
    if_neg (by rw [List.cons_append, byteAt_suffix]; exact hk)]

/-- More than two bytes are left, and they begin with the type of an IPv4 address. -/
theorem Dial.At.connectNext_ipv4
    {x : List UInt8} {k : UInt8}
    (h : t.At (k :: x)) (hx : 2 ≤ x.length) (hk : k.toNat = Proto.DIRECTC2C_IPV4) :
    t.connectNext connect =
      if x.length < 5 then .error .outside
      else .ok (t.attempt connect ⟨leNat (x.take 4), leNat (((x ++ [0]).drop 4).take 2)⟩, true) := by
  obtain ⟨pre, hlist, hpos, htwo, hsize⟩ := h.place
  have hlen : (pre ++ (k :: x ++ [0])).length = pre.length + (x.length + 2) := by
    rw [List.length_append, List.cons_append, List.length_cons, List.length_append]
    rfl
  rw [List.length_cons] at hsize
  have hseven : Proto.DIRECTC2C_ADDRLIST_ITEM_IPV4_SIZE = 7 := rfl
  rw [Dial.connectNext, if_neg (by simp [h.live]), hlist]
  dsimp only
  rw [hpos, List.append_assoc, if_neg (by omega), if_neg (by omega), if_neg (by omega),
    if_pos (by rw [List.cons_append, byteAt_suffix]; exact hk)]
  by_cases hshort : x.length < 5
  · rw [if_pos hshort, if_pos (by omega)]
  · have hdrop : (pre ++ (k :: x ++ [0])).drop (pre.length + 1) = x ++ [0] := by
      rw [← List.drop_drop, List.drop_left, List.cons_append, List.drop_succ_cons, List.drop_zero]
    have hport : (pre ++ (k :: x ++ [0])).drop (pre.length + 1 + 4) = (x ++ [0]).drop 4 := by
      rw [← List.drop_drop, hdrop]
    have haddr : addrAt (pre ++ (k :: x ++ [0])) (pre.length + 1) =
        ⟨leNat (x.take 4), leNat (((x ++ [0]).drop 4).take 2)⟩ := by
      rw [addrAt, load16, hport, hdrop, List.take_append_of_le_length (by omega)]
    rw [if_neg hshort, if_neg (by omega), haddr]

end Call

/-! ## The calls -/

section Calls

variable {t : Dial}

/-- A call that makes an attempt. -/
theorem calls_attempt
    {t' : Dial} {connect : Bool} {cs : List Bool}
    (h : t.connectNext connect = .ok (t', true)) (hnew : t'.direct.state ≠ .new) :
    t.calls (connect :: cs) = t'.failed.calls cs := by
  rw [Dial.calls, h]
  exact if_neg hnew

/-- A call that finds no address. -/
theorem calls_end
    {t' : Dial} {connect : Bool} {cs : List Bool}
    (h : t.connectNext connect = .ok (t', false)) :
    t.calls (connect :: cs) = .notFound t' := by
  rw [Dial.calls, h]

theorem attempt_not_new {connect : Bool} {a : SockAddr} :
    (t.attempt connect a).direct.state ≠ .new := by
  cases connect with
  | true => exact nofun
  | false => exact nofun

theorem attempt_nextPos {connect : Bool} {a : SockAddr} :
    (t.attempt connect a).failed.direct.nextPos =
      t.direct.nextPos + Proto.DIRECTC2C_ADDRLIST_ITEM_IPV4_SIZE :=
  if_neg (Nat.succ_ne_zero _)

/-- The list behind an IPv4 address, after the attempt. -/
theorem Dial.At.calls_ipv4
    {x : List UInt8} {addr : Bytes 4} {port : Bytes 2}
    (h : t.At ((NodeItem.ipv4 addr port).enc ++ x)) :
    ∃ t' : Dial, t'.At x ∧ t'.tried = t.tried ++ [⟨leNat addr.1, leNat port.1⟩] ∧
      ∀ connect cs, t.calls (connect :: cs) = t'.calls cs := by
  obtain ⟨pre, hlist, hpos, htwo, hsize⟩ := h.place
  have henc : (NodeItem.ipv4 addr port).enc ++ x =
      UInt8.ofNat Proto.NEWNODE_IPV4 :: (addr.1 ++ (port.1 ++ x)) := by
    rw [NodeItem.enc, List.cons_append, List.append_assoc]
  have hlen : (addr.1 ++ (port.1 ++ x)).length = 6 + x.length := by
    rw [List.length_append, List.length_append, addr.2, port.2]
    omega
  have htake : (addr.1 ++ (port.1 ++ x)).take 4 = addr.1 := List.take_left' addr.2
  have hdrop : ((addr.1 ++ (port.1 ++ x) ++ [0]).drop 4).take 2 = port.1 := by
    rw [List.append_assoc, List.drop_left' addr.2, List.append_assoc, List.take_left' port.2]
  have hat : t.At (UInt8.ofNat Proto.NEWNODE_IPV4 :: (addr.1 ++ (port.1 ++ x))) := henc ▸ h
  have hcall : ∀ connect, t.connectNext connect =
      .ok (t.attempt connect ⟨leNat addr.1, leNat port.1⟩, true) := by
    intro connect
    rw [hat.connectNext_ipv4 (by omega) (by decide), if_neg (by omega), htake, hdrop]
  refine ⟨(t.attempt true ⟨leNat addr.1, leNat port.1⟩).failed, ⟨h.live, pre ++ (NodeItem.ipv4 addr port).enc, ?_, ?_, ?_, ?_⟩, ?_,
    fun connect cs => ?_⟩
  · rw [List.append_assoc]
    exact hlist
  · rw [List.length_append, enc_length_ipv4, attempt_nextPos, hpos]
    rfl
  · rw [List.length_append]
    omega
  · rw [List.append_assoc, ← List.append_assoc _ x, hsize, List.length_append, List.length_append]
    omega
  · rfl
  · rw [calls_attempt (hcall connect) attempt_not_new]
    rfl

/-- **IPv4 addresses are tried one after the other, and the call behind the last ends.** -/
theorem Dial.At.calls_items
    {l : List NodeItem} {rest : List UInt8} {cs : List Bool}
    (hall : ∀ i ∈ l, i.sockAddr ≠ none) (hrest : rest.length ≤ 2)
    (h : t.At (l.flatMap NodeItem.enc ++ rest)) :
    (cs.length ≤ l.length ∧ ∃ t', t.calls cs = .running t') ∨
      ∃ t', t.calls cs = .notFound t' ∧ t'.tried = t.tried ++ l.filterMap NodeItem.sockAddr := by
  induction l generalizing t cs with
  | nil =>
      cases cs with
      | nil => exact .inl ⟨Nat.le_refl _, t, rfl⟩
      | cons connect cs =>
          exact .inr ⟨_, calls_end (h.connectNext_end hrest), (List.append_nil _).symm⟩
  | cons i l ih =>
      have hrestall : ∀ j ∈ l, j.sockAddr ≠ none := fun j hj => hall j (List.mem_cons_of_mem _ hj)
      cases cs with
      | nil => exact .inl ⟨Nat.zero_le _, t, rfl⟩
      | cons connect cs =>
          rw [List.flatMap_cons, List.append_assoc] at h
          cases i with
          | ipv4 addr port =>
              obtain ⟨u, hu, htried, hcalls⟩ := h.calls_ipv4
              rw [hcalls]
              rcases @ih u cs hrestall hu with ⟨hfew, hrun⟩ | ⟨t', hend, htried'⟩
              · exact .inl ⟨Nat.succ_le_succ hfew, hrun⟩
              · refine .inr ⟨t', hend, ?_⟩
                rw [htried', htried, List.append_assoc]
                rfl
          | ipv6 addr port => exact absurd rfl (hall _ List.mem_cons_self)
          | dns name port => exact absurd rfl (hall _ List.mem_cons_self)

/-- An item of another type is never passed. -/
theorem Dial.At.calls_stuck
    {x : List UInt8} {k : UInt8} {cs : List Bool} {t' : Dial}
    (h : t.At (k :: x)) (hx : 2 ≤ x.length) (hk : k.toNat ≠ Proto.DIRECTC2C_IPV4) :
    t.calls cs ≠ .notFound t' := by
  induction cs generalizing t with
  | nil => exact nofun
  | cons connect cs ih =>
      rw [Dial.calls, h.connectNext_other hx hk]
      dsimp only
      by_cases hnew : t.ready.state = .new
      · rw [if_pos hnew]
        exact nofun
      · rw [if_neg hnew]
        obtain ⟨pre, hlist, hpos, htwo, hsize⟩ := h.place
        refine ih ⟨h.live, pre, hlist, ?_, htwo, hsize⟩
        rw [← hpos]
        exact if_neg (show t.direct.nextPos ≠ 0 by omega)

/-- A short IPv4 address is read behind the memory of the list, or tried. -/
theorem Dial.At.calls_short
    {x : List UInt8} {k : UInt8}
    (h : t.At (k :: x)) (hx : 2 ≤ x.length) (hk : k.toNat = Proto.DIRECTC2C_IPV4)
    (hshort : x.length < 6) :
    (∃ cs, t.calls cs = .outside) ∨
      ∀ cs t', t.calls cs = .notFound t' → t'.tried.length = t.tried.length + 1 := by
  by_cases hfive : x.length < 5
  · refine .inl ⟨[true], ?_⟩
    rw [Dial.calls, h.connectNext_ipv4 hx hk, if_pos hfive]
  · refine .inr fun cs t' hend => ?_
    obtain ⟨pre, hlist, hpos, htwo, hsize⟩ := h.place
    cases cs with
    | nil => cases hend
    | cons connect cs =>
        have hcall := @Dial.At.connectNext_ipv4 t connect x k h hx hk
        rw [if_neg hfive] at hcall
        rw [calls_attempt hcall attempt_not_new] at hend
        cases cs with
        | nil => cases hend
        | cons again cs =>
            have hpast := @Dial.connectNext_past
              (t.attempt connect ⟨leNat (x.take 4), leNat (((x ++ [0]).drop 4).take 2)⟩).failed
              again (pre ++ k :: x) h.live hlist (by simp) (by
                have hseven : Proto.DIRECTC2C_ADDRLIST_ITEM_IPV4_SIZE = 7 := rfl
                rw [attempt_nextPos, List.append_assoc, hpos]
                rw [List.length_cons] at hsize
                omega)
            rw [calls_end hpast] at hend
            cases hend
            exact List.length_append

/-- **Every other list is left untried in part, read behind its memory, or tried too often.** -/
theorem Dial.At.calls_other
    {x rest : List UInt8} {l : List NodeItem}
    (hsplits : Splits NodeItem.code x l rest)
    (hother : ¬((∀ i ∈ l, i.sockAddr ≠ none) ∧ rest.length ≤ 2)) (h : t.At x) :
    (∃ cs, t.calls cs = .outside) ∨
      ∀ cs t', t.calls cs = .notFound t' →
        t'.tried.length = t.tried.length + (l.filterMap NodeItem.sockAddr).length + 1 := by
  induction l generalizing t x with
  | nil =>
      obtain rfl : x = rest := hsplits.eq
      have hlong : ¬x.length ≤ 2 := fun hle => hother ⟨List.forall_mem_nil _, hle⟩
      cases x with
      | nil => exact absurd (Nat.zero_le 2) hlong
      | cons k x =>
          rw [List.length_cons] at hlong
          by_cases hk : k.toNat = Proto.DIRECTC2C_IPV4
          · have hshort : x.length < 6 := by
              by_contra hge
              have hstop : NodeItem.read (k :: x) = none := hsplits.stop
              rw [NodeItem.read, if_pos (show k.toNat = Proto.NEWNODE_IPV4 from hk),
                dif_pos (by omega)] at hstop
              cases hstop
            exact h.calls_short (by omega) hk hshort
          · exact .inr fun cs t' hend => absurd hend (h.calls_stuck (by omega) hk)
  | cons i l ih =>
      obtain ⟨y, rfl, hy⟩ := hsplits.exists_tail
      change t.At (i.enc ++ y) at h
      cases i with
      | ipv4 addr port =>
          have hrest : ¬((∀ i ∈ l, i.sockAddr ≠ none) ∧ rest.length ≤ 2) := by
            rintro ⟨hall, hle⟩
            refine hother ⟨fun j hj => ?_, hle⟩
            rcases List.mem_cons.mp hj with rfl | hj
            · rintro ⟨⟩
            · exact hall j hj
          obtain ⟨u, hu, htried, hcalls⟩ := h.calls_ipv4
          rcases ih hy hrest hu with ⟨cs, hout⟩ | hlen
          · exact .inl ⟨true :: cs, (hcalls true cs).trans hout⟩
          · refine .inr fun cs t' hend => ?_
            cases cs with
            | nil => cases hend
            | cons connect cs =>
                have haddr : (NodeItem.ipv4 addr port).sockAddr =
                    some ⟨leNat addr.1, leNat port.1⟩ := rfl
                rw [hlen cs t' ((hcalls connect cs).symm.trans hend), htried,
                  List.filterMap_cons_some haddr, List.length_append, List.length_singleton,
                  List.length_cons]
                omega
      | ipv6 addr port =>
          refine .inr fun cs t' hend => absurd hend (h.calls_stuck ?_ (by decide))
          change 2 ≤ (addr.1 ++ port.1 ++ y).length
          rw [List.length_append, List.length_append, addr.2]
          omega
      | dns name port =>
          refine .inr fun cs t' hend => absurd hend (h.calls_stuck ?_ (by decide))
          change 2 ≤ (UInt8.ofNat name.1.length :: (name.1 ++ port.1) ++ y).length
          rw [List.length_append, List.length_cons, List.length_append, port.2]
          omega

end Calls

/-! ## The lists that are tried -/

/-- While every attempt fails, the calls for the list in the frame `f` read inside the list,
come to an end, and have tried each complete IPv4 address once and in order. -/
structure TriedOnce (f : Frame) : Prop where
  inside : ∀ cs, (Dial.listed f).calls cs ≠ .outside
  ends : ∃ n, ∀ cs, n ≤ cs.length → ∃ t, (Dial.listed f).calls cs = .notFound t
  exact : ∀ cs t items rest, (Dial.listed f).calls cs = .notFound t →
    Splits NodeItem.code (f.drop 4) items rest → t.tried = items.filterMap NodeItem.sockAddr

/-- The list behind the length. -/
theorem listed_at
    {f : Frame} (hlen : f.length = 4 + load16 f 2) :
    (Dial.listed f).At (f.drop 4) := by
  obtain ⟨a, b, c, d, x, rfl⟩ : ∃ a b c d x, f = a :: b :: c :: d :: x := by
    match f with
    | [] => exact absurd hlen (by rw [List.length_nil]; omega)
    | [a] => exact absurd hlen (by rw [List.length_singleton]; omega)
    | [a, b] => exact absurd hlen (by change 2 ≠ _; omega)
    | [a, b, c] => exact absurd hlen (by change 3 ≠ _; omega)
    | a :: b :: c :: d :: x => exact ⟨a, b, c, d, x, rfl⟩
  refine ⟨rfl, [c, d], rfl, rfl, Nat.le_refl _, ?_⟩
  have hload : load16 ([c, d] ++ (x ++ [0])) 0 = load16 (a :: b :: c :: d :: x) 2 := rfl
  rw [List.length_cons, List.length_cons, List.length_cons, List.length_cons] at hlen
  change load16 ([c, d] ++ (x ++ [0])) 0 + 2 = 2 + x.length
  omega

section Tried

variable {env : Session.FrameEnv} {f : Frame} {l : List NodeItem} {rest : List UInt8}

/-- A frame that `PICA_msggetsize` accepts. -/
theorem addrlist_frame
    (hid : byteAt f 0 = Proto.DIRECTC2C_ADDRLIST)
    (hsize : msggetsize f f.length (Session.c2cMessages env) = f.length) :
    (Dial.listed f).At (f.drop 4) := by
  have hentry : entryOf (Session.c2cMessages env) (byteAt f 0) = some (.varSize, 2) := by
    rw [hid]
    rfl
  exact listed_at (length_of_entry hentry hsize)

theorem triedOnce_of_ipv4
    (hat : (Dial.listed f).At (f.drop 4)) (hsplits : Splits NodeItem.code (f.drop 4) l rest)
    (hall : ∀ i ∈ l, i.sockAddr ≠ none) (hrest : rest.length ≤ 2) :
    TriedOnce f := by
  have hsplit : f.drop 4 = l.flatMap NodeItem.enc ++ rest := hsplits.eq
  rw [hsplit] at hat
  refine ⟨fun cs hout => ?_, ⟨l.length + 1, fun cs hcs => ?_⟩, fun cs t items rest' hend hother => ?_⟩
  · rcases @Dial.At.calls_items _ l rest cs hall hrest hat with ⟨-, t, hrun⟩ | ⟨t, hend, -⟩
    · exact absurd (hrun.symm.trans hout) nofun
    · exact absurd (hend.symm.trans hout) nofun
  · rcases @Dial.At.calls_items _ l rest cs hall hrest hat with ⟨hfew, -⟩ | ⟨t, hend, -⟩
    · omega
    · exact ⟨t, hend⟩
  · obtain ⟨rfl, -⟩ := hsplits.unique hother
    rcases @Dial.At.calls_items _ l rest cs hall hrest hat with ⟨-, u, hrun⟩ | ⟨u, hend', htried⟩
    · exact absurd (hrun.symm.trans hend) nofun
    · obtain rfl := DialEnd.notFound.inj (hend'.symm.trans hend)
      exact htried

theorem ipv4_of_triedOnce
    (hat : (Dial.listed f).At (f.drop 4)) (hsplits : Splits NodeItem.code (f.drop 4) l rest)
    (h : TriedOnce f) :
    (∀ i ∈ l, i.sockAddr ≠ none) ∧ rest.length ≤ 2 := by
  by_contra hother
  rcases hat.calls_other hsplits hother with ⟨cs, hout⟩ | hlen
  · exact h.inside cs hout
  · obtain ⟨n, hends⟩ := h.ends
    obtain ⟨t, hend⟩ := hends (List.replicate n true) (List.length_replicate.symm ▸ Nat.le_refl n)
    have hmore := hlen _ t hend
    rw [h.exact _ t l rest hend hsplits] at hmore
    exact absurd hmore (by simp [Dial.listed])

end Tried

/-- **The addresses of a list are tried once each exactly when they are IPv4 addresses, with
at most two bytes behind them.** -/
theorem addrlist_tried_iff
    (env : Session.FrameEnv) (f : Frame) (hid : byteAt f 0 = Proto.DIRECTC2C_ADDRLIST)
    (hsize : msggetsize f f.length (Session.c2cMessages env) = f.length) :
    TriedOnce f ↔
      ∃ l rest, Splits NodeItem.code (f.drop 4) l rest ∧ (∀ i ∈ l, i.sockAddr ≠ none) ∧
        rest.length ≤ 2 := by
  have hat := addrlist_frame hid hsize
  constructor
  · intro h
    obtain ⟨l, rest, hsplits⟩ := exists_splits (c := NodeItem.code) (f.drop 4)
    exact ⟨l, rest, hsplits, ipv4_of_triedOnce hat hsplits h⟩
  · rintro ⟨l, rest, hsplits, hall, hrest⟩
    exact triedOnce_of_ipv4 hat hsplits hall hrest

/-- A frame with a list. -/
def addrlistOf (list : List UInt8) : Frame :=
  head Proto.DIRECTC2C_ADDRLIST ++ le16 list.length ++ list

/-- The surroundings of a frame in which everything succeeds. -/
def fineFrame : Session.FrameEnv :=
  ⟨.fine .later, .enough, .enough, true, true, true⟩

/-- Two addresses, and a byte behind them. -/
theorem addrlist_tried_two :
    TriedOnce (addrlistOf [160, 10, 0, 0, 1, 0, 80, 160, 8, 8, 8, 8, 0, 80, 7]) :=
  (addrlist_tried_iff fineFrame
    (addrlistOf [160, 10, 0, 0, 1, 0, 80, 160, 8, 8, 8, 8, 0, 80, 7]) (by decide) (by decide)).mpr
    ⟨[.ipv4 ⟨[10, 0, 0, 1], rfl⟩ ⟨[0, 80], rfl⟩, .ipv4 ⟨[8, 8, 8, 8], rfl⟩ ⟨[0, 80], rfl⟩], [7],
      ⟨rfl, rfl⟩, by simp [NodeItem.sockAddr], by decide⟩

/-- An IPv4 address and an IPv6 address: `PICA_msggetsize` accepts the frame, and no number of
calls comes to an end.  With the IPv6 address alone no call follows the first. -/
theorem addrlist_ipv6_holds :
    let v6 : List UInt8 := 161 :: List.replicate 18 0
    let f := addrlistOf ([160, 10, 0, 0, 1, 0, 80] ++ v6)
    byteAt f 0 = Proto.DIRECTC2C_ADDRLIST ∧
      msggetsize f f.length (Session.c2cMessages fineFrame) = f.length ∧
      ¬TriedOnce f ∧ (∀ cs t, (Dial.listed f).calls cs ≠ .notFound t) ∧
      ∃ t, (Dial.listed (addrlistOf v6)).calls [true] = .ignored t := by
  intro v6 f
  have hid : byteAt f 0 = Proto.DIRECTC2C_ADDRLIST := by decide
  have hsize : msggetsize f f.length (Session.c2cMessages fineFrame) = f.length := by decide
  have hat := addrlist_frame hid hsize
  have hsplits : Splits NodeItem.code (f.drop 4)
      [.ipv4 ⟨[10, 0, 0, 1], rfl⟩ ⟨[0, 80], rfl⟩,
        .ipv6 ⟨List.replicate 16 0, rfl⟩ ⟨[0, 0], rfl⟩] [] := ⟨rfl, Code.read_nil⟩
  obtain ⟨u, hu, -, hcalls⟩ := @Dial.At.calls_ipv4 _ _ ⟨[10, 0, 0, 1], rfl⟩ ⟨[0, 80], rfl⟩ hat
  have hfirst : (Dial.listed (addrlistOf v6)).At v6 := listed_at (by decide)
  refine ⟨hid, hsize, fun h => ?_, fun cs t => ?_,
    ⟨(Dial.listed (addrlistOf v6)).ready, []⟩, ?_⟩
  · exact (ipv4_of_triedOnce hat hsplits h).1 _ (.tail _ (.head _)) rfl
  · cases cs with
    | nil => exact nofun
    | cons connect cs =>
        rw [hcalls]
        exact hu.calls_stuck (by decide) (by decide)
  · rw [Dial.calls, hfirst.connectNext_other (by decide) (by decide)]
    exact if_pos rfl

end Client
end PicaPica
