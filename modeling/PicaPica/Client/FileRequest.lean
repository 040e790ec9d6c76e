import PicaPica.ByteOrder

/-!
# The name in an offer of a file

`procmsg_SENDFILEREQUEST` computes the length of the name as an `unsigned int`, checks the name
as a C string, and gives all its bytes to `accept_file_cb`.  The check ends at a zero byte, and
the length is not checked at all.
-/

namespace PicaPica
namespace Client

/-- What `procmsg_SENDFILEREQUEST` has done; `offered` is the name `accept_file_cb` was called
with. -/
structure Requested where
  chan : FileChan
  ret : Nat
  offered : Option (List UInt8)

/-- The answer to an offer, according to the result of `accept_file_cb`. -/
def requestAnswered (env : FileEnv) (asked : FileChan) : FileChan × Nat :=
  match env.answer with
  | .accept =>
      let r := acceptFile env.mem env.opened env.r₀ env.r₁ asked
      if r.2 = .ok then (r.1, 1)
      else
        let d := denyFile env.memDeny env.r₀ env.r₁ r.1
        (d.1, if d.2 = .ok then 1 else 0)
  | .later => (asked, 1)
  | .refuse =>
      let d := denyFile env.memDeny env.r₀ env.r₁ asked
      (d.1, if d.2 = .ok then 1 else 0)

/-- `procmsg_SENDFILEREQUEST` with the bytes it reads: `validate_file_name` copies
`filenamesize` bytes. -/
def procmsgSENDFILEREQUESTBytes (env : FileEnv) (c : FileChan) (buf : Frame) :
    Except FileFault Requested :=
  let filenamesize := usub (load16 buf 2) 8
  if c.recvState ≠ .idle then .ok ⟨c, 0, none⟩
  else if buf.length < 12 + filenamesize then .error .outside
  else
    let filename := (buf.drop 12).take filenamesize
    if validateFileName filename = false then .ok ⟨c, 0, none⟩
    else
      let r := requestAnswered env
        { c with recvState := .waitAccept, recvSize := load64 buf 4, recvPos := 0 }
      .ok ⟨r.1, r.2, some filename⟩

/-- No byte of the name is forbidden, and no two dots stand side by side. -/
def CleanName (name : List UInt8) : Prop :=
  (∀ b ∈ name, b ≠ 0x2A ∧ b ≠ 0x3A ∧ b ≠ 0x2F) ∧ ¬[0x2E, 0x2E] <:+: name

instance (name : List UInt8) : Decidable (CleanName name) :=
  inferInstanceAs (Decidable (_ ∧ _))

section Name

variable {name : List UInt8} {a b : UInt8}

theorem mem_zip_tail_iff : (a, b) ∈ name.zip name.tail ↔ [a, b] <:+: name := by
  induction name with
  | nil => simp
  | cons x name ih =>
      rw [List.tail_cons, List.infix_cons_iff, List.cons_prefix_cons, ← ih]
      cases name with
      | nil => simp
      | cons y name =>
          rw [List.zip_cons_cons, List.mem_cons, Prod.mk.injEq, List.tail_cons,
            List.cons_prefix_cons]
          simp

/-- **What `validate_file_name` checks.** -/
theorem validateFileName_iff :
    validateFileName name = true ↔ CleanName (name.takeWhile (· ≠ 0)) := by
  have hdots := @mem_zip_tail_iff (name.takeWhile (· ≠ 0)) 0x2E 0x2E
  rw [validateFileName, CleanName, ← hdots]
  generalize name.takeWhile (· ≠ 0) = str
  simp only [Bool.not_eq_true', Bool.or_eq_false_iff, List.contains_eq_mem, decide_eq_false_iff_not]
  constructor
  · rintro ⟨⟨⟨hstar, hcolon⟩, hslash⟩, hpair⟩
    refine ⟨fun b hb => ⟨?_, ?_, ?_⟩, hpair⟩
    · rintro rfl
      exact hstar hb
    · rintro rfl
      exact hcolon hb
    · rintro rfl
      exact hslash hb
  · rintro ⟨hbytes, hpair⟩
    exact ⟨⟨⟨fun h => (hbytes _ h).1 rfl, fun h => (hbytes _ h).2.1 rfl⟩,
      fun h => (hbytes _ h).2.2 rfl⟩, hpair⟩

end Name

/-- `procmsg_SENDFILEREQUEST` reads nothing outside the message; the application is asked only
about a name that is not empty and has no forbidden bytes, and otherwise the message is
refused and nothing changes. -/
structure RequestValidated (env : FileEnv) (c : FileChan) (f : Frame) : Prop where
  inside : procmsgSENDFILEREQUESTBytes env c f ≠ .error .outside
  asked : ∀ r name, procmsgSENDFILEREQUESTBytes env c f = .ok r → r.offered = some name →
    9 ≤ load16 f 2 ∧ CleanName name
  otherwise : ∀ r, procmsgSENDFILEREQUESTBytes env c f = .ok r → r.offered = none →
    r.ret = 0 ∧ r.chan.recvState = c.recvState ∧ r.chan.recvSize = c.recvSize ∧
      r.chan.recvPos = c.recvPos

section Request

variable {env : FileEnv} {c : FileChan} {f : Frame} {σ : Type} {h : Nat → σ → Frame → σ × Nat}

/-- The name in a message that `PICA_msggetsize` has accepted. -/
theorem request_length
    (hid : byteAt f 0 = Proto.SENDFILEREQUEST)
    (hsize : msggetsize f f.length (c2cTable h) = f.length) :
    f.length = 4 + load16 f 2 ∧
      (f.length < 12 + usub (load16 f 2) 8 ↔ load16 f 2 < 8) := by
  have hentry : entryOf (c2cTable h) (byteAt f 0) = some (.varSize, 2) := by
    rw [hid]
    rfl
  have hlen := length_of_entry hentry hsize
  refine ⟨hlen, ?_⟩
  have hmod : uintMod = 4294967296 := rfl
  rw [usub]
  split_ifs with hle
  · omega
  · omega

/-- **The handler in `FileTransfer.lean` is this one.** -/
theorem procmsgSENDFILEREQUEST_bytes
    (hid : byteAt f 0 = Proto.SENDFILEREQUEST)
    (hsize : msggetsize f f.length (c2cTable h) = f.length) :
    procmsgSENDFILEREQUEST env c f =
      (procmsgSENDFILEREQUESTBytes env c f).map fun r => (r.chan, r.ret) := by
  obtain ⟨-, hshort⟩ := request_length hid hsize
  rw [procmsgSENDFILEREQUEST, procmsgSENDFILEREQUESTBytes]
  by_cases hstate : c.recvState = .idle
  · rw [if_neg (not_not.mpr hstate)]
    dsimp only
    rw [if_neg (not_not.mpr hstate)]
    by_cases hlen : load16 f 2 < 8
    · rw [if_pos hlen, if_pos (hshort.mpr hlen)]
      rfl
    · rw [if_neg hlen, if_neg (fun hout => hlen (hshort.mp hout)),
        usub_eq (Nat.le_of_not_lt hlen)]
      by_cases hname : validateFileName ((f.drop 12).take (load16 f 2 - 8)) = false
      · rw [if_pos hname, if_pos hname]
        rfl
      · rw [if_neg hname, if_neg hname, requestAnswered]
        cases env.answer with
        | accept =>
            dsimp only
            by_cases haccepted : (acceptFile env.mem env.opened env.r₀ env.r₁
                { c with recvState := .waitAccept, recvSize := load64 f 4, recvPos := 0 }).2 = .ok
            · rw [if_pos haccepted, if_pos haccepted]
              rfl
            · rw [if_neg haccepted, if_neg haccepted]
              rfl
        | later => rfl
        | refuse => rfl
  · rw [if_pos hstate]
    dsimp only
    rw [if_pos hstate]
    rfl

end Request

/-- **Offers of files are validated over all bytes** when the length field is at least 9 and
nothing forbidden stands behind a zero byte of the name unless something forbidden stands in
front of it, and only then; a channel that is receiving a file refuses every offer. -/
theorem request_validated_iff
    {σ : Type} (h : Nat → σ → Frame → σ × Nat) (env : FileEnv) (c : FileChan) (f : Frame)
    (hid : byteAt f 0 = Proto.SENDFILEREQUEST)
    (hsize : msggetsize f f.length (c2cTable h) = f.length) :
    RequestValidated env c f ↔
      (c.recvState = .idle → 9 ≤ load16 f 2 ∧
        (CleanName ((f.drop 12).takeWhile (· ≠ 0)) → CleanName (f.drop 12))) := by
  obtain ⟨hlen, hshort⟩ := request_length hid hsize
  by_cases hstate : c.recvState = .idle
  swap
  · have hrefused : procmsgSENDFILEREQUESTBytes env c f = .ok ⟨c, 0, none⟩ := by
      rw [procmsgSENDFILEREQUESTBytes]
      dsimp only
      rw [if_pos hstate]
    refine iff_of_true ?_ (fun hidle => absurd hidle hstate)
    refine ⟨?_, fun r name hr hname => ?_, fun r hr _ => ?_⟩
    · rw [hrefused]
      exact nofun
    · obtain rfl := Except.ok.inj (hrefused.symm.trans hr)
      cases hname
    · obtain rfl := Except.ok.inj (hrefused.symm.trans hr)
      exact ⟨rfl, rfl, rfl, rfl⟩
  have hrun : 8 ≤ load16 f 2 → procmsgSENDFILEREQUESTBytes env c f =
      if validateFileName (f.drop 12) = false then .ok ⟨c, 0, none⟩
      else
        let r := requestAnswered env
          { c with recvState := .waitAccept, recvSize := load64 f 4, recvPos := 0 }
        .ok ⟨r.1, r.2, some (f.drop 12)⟩ := by
    intro hlong
    have hname : (f.drop 12).take (load16 f 2 - 8) = f.drop 12 := by
      refine List.take_of_length_le ?_
      rw [List.length_drop]
      omega
    rw [procmsgSENDFILEREQUESTBytes]
    dsimp only
    rw [if_neg (not_not.mpr hstate), if_neg (fun hout => absurd (hshort.mp hout) (by omega)),
      usub_eq hlong, hname]
  constructor
  · intro hvalid _
    have hlong : 8 ≤ load16 f 2 := by
      by_contra hlt
      refine hvalid.inside ?_
      rw [procmsgSENDFILEREQUESTBytes]
      dsimp only
      rw [if_neg (not_not.mpr hstate), if_pos (hshort.mpr (by omega))]
    have hasked : validateFileName (f.drop 12) = true →
        9 ≤ load16 f 2 ∧ CleanName (f.drop 12) := by
      intro hname
      have hres := hrun hlong
      rw [if_neg (by rw [hname]; exact nofun)] at hres
      exact hvalid.asked _ _ hres rfl
    refine ⟨?_, fun hclean => (hasked (validateFileName_iff.mpr hclean)).2⟩
    -- an empty name is valid
    by_contra hlt
    have hempty : f.drop 12 = [] := List.drop_eq_nil_of_le (by omega)
    have hname : validateFileName (f.drop 12) = true := by
      rw [hempty]
      rfl
    exact hlt (hasked hname).1
  · intro hcond
    obtain ⟨hnine, hclean⟩ := hcond hstate
    have hres := hrun (by omega)
    by_cases hname : validateFileName (f.drop 12) = false
    · rw [if_pos hname] at hres
      refine ⟨?_, fun r name hr hoffered => ?_, fun r hr _ => ?_⟩
      · rw [hres]
        exact nofun
      · obtain rfl := Except.ok.inj (hres.symm.trans hr)
        cases hoffered
      · obtain rfl := Except.ok.inj (hres.symm.trans hr)
        exact ⟨rfl, rfl, rfl, rfl⟩
    · rw [if_neg hname] at hres
      have hvalid : validateFileName (f.drop 12) = true := Bool.not_eq_false _ ▸ hname
      refine ⟨?_, fun r name hr hoffered => ?_, fun r hr hoffered => ?_⟩
      · rw [hres]
        exact nofun
      · obtain rfl := Except.ok.inj (hres.symm.trans hr)
        obtain rfl := Option.some.inj hoffered
        exact ⟨hnine, hclean (validateFileName_iff.mp hvalid)⟩
      · obtain rfl := Except.ok.inj (hres.symm.trans hr)
        cases hoffered

/-- A file of one byte with the name a. -/
theorem request_validated_one :
    RequestValidated (.fine .later) .fresh (requestFrame 1 [97]) := by
  have hname : (requestFrame 1 [97]).drop 12 = [97] := rfl
  refine (request_validated_iff (fun _ (s : Unit) _ => (s, 1)) (.fine .later) .fresh
    (requestFrame 1 [97]) (by decide) (by decide)).mpr fun _ => ⟨by decide, fun _ => ?_⟩
  rw [hname]
  refine ⟨fun b hb => ?_, fun hdots => absurd hdots.length_le (by decide)⟩
  rw [List.mem_singleton.mp hb]
  decide

/-- A length field below 8 makes the name begin behind the message, an empty name is offered to
the application, and so is a name with a slash behind a zero byte. -/
theorem request_not_validated :
    procmsgSENDFILEREQUESTBytes (.fine .later) .fresh
        (head Proto.SENDFILEREQUEST ++ [0, 0]) = .error .outside ∧
      (∃ r, procmsgSENDFILEREQUESTBytes (.fine .later) .fresh (requestFrame 1 []) = .ok r ∧
        r.offered = some []) ∧
      ∃ r, procmsgSENDFILEREQUESTBytes (.fine .later) .fresh (requestFrame 1 [97, 0, 0x2F]) =
          .ok r ∧
        r.offered = some [97, 0, 0x2F] :=
  ⟨rfl, ⟨_, rfl, rfl⟩, ⟨_, rfl, rfl⟩⟩

end Client
end PicaPica
