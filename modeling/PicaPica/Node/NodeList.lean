import PicaPica.Node.DerefSafety

/-!
# Lists of nodes

`procmsg_NODELISTREQ` writes its own address and then the addresses of the nodes it is
linked with; `nodelistScan_eq` says which of them are in the list.  `procmsg_NODELIST`
takes the first item of a list for the address of the sender and offers the others to
`PICA_nodeaddr_save`, which the handler in `Handlers.lean` leaves out.
-/

namespace PicaPica

open Table Machine

/-! ## The items of a list -/

/-- The address that the loop of `procmsg_NODELISTREQ` adds for a node. -/
def advertised (asking : Option NodeLink) (nlp : NodeLink) : Option SockAddr :=
  if nlp.addrType = Proto.NEWNODE_IPV4 then
    nlp.nodeAddr.filter fun a => asking.bind NodeLink.nodeAddr ≠ some a
  else none

/-- The number of items that can be added to a list of `len` bytes. -/
def nodelistRoom (len : Nat) : Nat :=
  (65532 - len + 6) / 7

/-- The items of the list: the own address and as many of the others as there is room
for. -/
def nodelistItems (asking : Option NodeLink) (myAddr : SockAddr) (nls : List NodeLink) :
    List SockAddr :=
  myAddr :: (nls.filterMap (advertised asking)).take (nodelistRoom 7)

/-- A message with the addresses in `items`. -/
def nodelistFrame (msgid : Nat) (items : List SockAddr) : Frame :=
  head msgid ++ le16 (7 * items.length) ++ items.flatMap Node.nodelistItem

section Encoder

variable {asking : Option NodeLink} {nls : List NodeLink} {nlBuf out : List UInt8}

theorem length_items (items : List SockAddr) :
    (items.flatMap Node.nodelistItem).length = 7 * items.length := by
  induction items with
  | nil => rfl
  | cons a items ih =>
      rw [List.flatMap_cons, List.length_append, ih, length_nodelistItem, List.length_cons]
      omega

/-- **What the loop adds to the list.** -/
theorem nodelistScan_eq
    (h : Node.nodelistScan asking nls nlBuf = .ok out) :
    out = nlBuf ++ ((nls.filterMap (advertised asking)).take
      (nodelistRoom nlBuf.length)).flatMap Node.nodelistItem := by
  induction nls generalizing nlBuf with
  | nil =>
      cases h
      simp
  | cons nlp nls ih =>
      unfold Node.nodelistScan at h
      split_ifs at h with hroom htype
      · have hone : nodelistRoom nlBuf.length = nodelistRoom (nlBuf.length + 7) + 1 := by
          simp only [nodelistRoom]
          omega
        -- an address that is added
        have hadd : ∀ a, advertised asking nlp = some a →
            Node.nodelistScan asking nls (nlBuf ++ Node.nodelistItem a) = .ok out →
            out = nlBuf ++ (((nlp :: nls).filterMap (advertised asking)).take
              (nodelistRoom nlBuf.length)).flatMap Node.nodelistItem := by
          intro a ha hrest
          rw [ih hrest, List.filterMap_cons_some ha, hone, List.take_succ_cons,
            List.flatMap_cons, List.length_append, length_nodelistItem, List.append_assoc]
        have hskip : advertised asking nlp = none →
            Node.nodelistScan asking nls nlBuf = .ok out →
            out = nlBuf ++ (((nlp :: nls).filterMap (advertised asking)).take
              (nodelistRoom nlBuf.length)).flatMap Node.nodelistItem := by
          intro hnone hrest
          rw [ih hrest, List.filterMap_cons_none hnone]
        cases ha : nlp.nodeAddr with
        | none =>
            simp only [ha] at h
            cases h
        | some a =>
            cases asking with
            | none =>
                simp only [ha] at h
                exact hadd a (by simp [advertised, htype, ha]) h
            | some m =>
                cases hb : m.nodeAddr with
                | none =>
                    simp only [ha, hb] at h
                    cases h
                | some b =>
                    simp only [ha, hb] at h
                    split_ifs at h with hab
                    · exact hskip (by simp [advertised, htype, ha, hb, hab]) h
                    · have hba : b ≠ a := Ne.symm hab
                      exact hadd a (by simp [advertised, htype, ha, hb, hba]) h
      · rw [ih h, List.filterMap_cons_none (by simp [advertised, htype])]
      · cases h
        have hzero : nodelistRoom out.length = 0 := by
          simp only [nodelistRoom]
          omega
        rw [hzero, List.take_zero, List.flatMap_nil, List.append_nil]

/-- The loop ends when every address it looks at is there. -/
theorem nodelistScan_ok
    (hnls : ∀ nlp ∈ nls, nlp.addrType = Proto.NEWNODE_IPV4 → nlp.nodeAddr ≠ none)
    (hask : ∀ m, asking = some m → m.nodeAddr ≠ none) :
    ∃ out, Node.nodelistScan asking nls nlBuf = .ok out := by
  induction nls generalizing nlBuf with
  | nil => exact ⟨nlBuf, rfl⟩
  | cons nlp nls ih =>
      have hrest : ∀ nlp ∈ nls, nlp.addrType = Proto.NEWNODE_IPV4 → nlp.nodeAddr ≠ none :=
        fun x hx => hnls x (List.mem_cons_of_mem nlp hx)
      unfold Node.nodelistScan
      split_ifs with hroom htype
      · obtain ⟨a, ha⟩ := Option.ne_none_iff_exists'.mp (hnls nlp List.mem_cons_self htype)
        cases asking with
        | none =>
            simp only [ha]
            exact ih hrest
        | some m =>
            obtain ⟨b, hb⟩ := Option.ne_none_iff_exists'.mp (hask m rfl)
            simp only [ha, hb]
            split_ifs
            · exact ih hrest
            · exact ih hrest
      · exact ih hrest
      · exact ⟨nlBuf, rfl⟩

/-- The list that is sent. -/
theorem nodelistScan_items
    {myAddr : SockAddr}
    (h : Node.nodelistScan asking nls (Node.nodelistItem myAddr) = .ok out) :
    out = (nodelistItems asking myAddr nls).flatMap Node.nodelistItem ∧
      out.length = 7 * (nodelistItems asking myAddr nls).length := by
  have heq := nodelistScan_eq h
  rw [length_nodelistItem] at heq
  have hout : out = (nodelistItems asking myAddr nls).flatMap Node.nodelistItem := by
    rw [heq, nodelistItems, List.flatMap_cons]
  exact ⟨hout, by rw [hout, length_items]⟩

theorem length_nodelistItems {myAddr : SockAddr} :
    (nodelistItems asking myAddr nls).length ≤ 9362 := by
  have hroom : nodelistRoom 7 = 9361 := by decide
  simp only [nodelistItems, List.length_cons, List.length_take, hroom]
  omega

/-- The whole list is sent when the last item begins in front of the threshold. -/
theorem nodelistItems_whole
    {myAddr : SockAddr}
    (h : 7 * (nls.filterMap (advertised asking)).length < 65532) :
    nodelistItems asking myAddr nls = myAddr :: nls.filterMap (advertised asking) := by
  have hroom : nodelistRoom 7 = 9361 := by decide
  rw [nodelistItems, hroom, List.take_of_length_le (by omega)]

end Encoder

/-- The message that `procmsg_NODELISTREQ` builds. -/
def Node.nodelistReply (n : Node) (asking : Option NodeLink) : Except Fault Frame := do
  let nlBuf ← Node.nodelistScan asking n.nodelinks (Node.nodelistItem n.myAddr)
  pure (head (if asking.isNone then Proto.CLNODELIST else Proto.NODELIST) ++
    le16 nlBuf.length ++ nlBuf)

section Reply

variable {n : Node} {asking : Option NodeLink} {f : Frame}

/-- The answer to a client. -/
theorem procmsgNODELISTREQClient_eq
    {ci : Ptr} {req : Frame} (hmem : n.mem n.tick) :
    n.procmsgNODELISTREQClient ci req = (do
      let f ← n.nodelistReply none
      let (m, _) ← n.asked.clientWbufPush (some ci) f
      pure (m, 1)) := by
  rw [Node.procmsgNODELISTREQClient, if_pos hmem, Node.nodelistReply]
  cases Node.nodelistScan none n.nodelinks (Node.nodelistItem n.myAddr) with
  | error e => rfl
  | ok nlBuf => rfl

/-- The answer to a node. -/
theorem procmsgNODELISTREQ_eq
    {nl : Ptr} {req : Frame} {m : NodeLink} (hmem : n.mem n.tick)
    (hm : n.derefNodelink (some nl) = .ok m) :
    n.procmsgNODELISTREQ nl req = (do
      let f ← n.nodelistReply (some m)
      let (n, _) ← n.asked.nodelinkWbufPush (some nl) f
      pure (n, 1)) := by
  rw [Node.procmsgNODELISTREQ, if_pos hmem, hm, Node.nodelistReply]
  change (Node.nodelistScan (some m) n.nodelinks (Node.nodelistItem n.myAddr) >>= _) = _
  cases Node.nodelistScan (some m) n.nodelinks (Node.nodelistItem n.myAddr) with
  | error e => rfl
  | ok nlBuf => rfl

theorem nodelistReply_eq
    (h : n.nodelistReply asking = .ok f) :
    f = nodelistFrame (if asking.isNone then Proto.CLNODELIST else Proto.NODELIST)
      (nodelistItems asking n.myAddr n.nodelinks) := by
  obtain ⟨nlBuf, hscan, h⟩ := bind_eq_ok.mp h
  obtain ⟨hbuf, hlen⟩ := nodelistScan_items hscan
  cases h
  rw [nodelistFrame, hlen, ← hbuf]

end Reply

/-! ## Reading an item -/

/-- The address and the port have 32 and 16 bits. -/
def SockAddr.Fits (a : SockAddr) : Prop :=
  a.addr < 4294967296 ∧ a.port < 65536

instance (a : SockAddr) : Decidable a.Fits :=
  inferInstanceAs (Decidable (_ ∧ _))

section Item

variable {a : SockAddr} {pre post : List UInt8}

theorem leNat_addr {n : Nat} (h : n < 4294967296) :
    leNat (le16 n ++ le16 (n / 65536)) = n := by
  simp only [le16, List.cons_append, List.nil_append, leNat, UInt8.toNat_ofNat']
  omega

/-- The address behind the type of an item is the one that was written. -/
theorem addrAt_item (ha : a.Fits) :
    addrAt (pre ++ Node.nodelistItem a ++ post) (pre.length + 1) = a := by
  have haddr : ((pre ++ Node.nodelistItem a ++ post).drop (pre.length + 1)).take 4 =
      le16 a.addr ++ le16 (a.addr / 65536) := by
    rw [List.append_assoc, List.drop_append, List.drop_eq_nil_of_le (by omega)]
    simp [Node.nodelistItem, addrBytes, le16]
  have hport : ((pre ++ Node.nodelistItem a ++ post).drop (pre.length + 1 + 4)).take 2 =
      le16 a.port := by
    rw [List.append_assoc, List.drop_append, List.drop_eq_nil_of_le (by omega)]
    have hsub : pre.length + 1 + 4 - pre.length = 5 := by omega
    rw [hsub]
    simp [Node.nodelistItem, addrBytes, le16]
  rw [addrAt, load16, haddr, hport, leNat_addr ha.1, leNat_le16 ha.2]

theorem byteAt_item :
    byteAt (pre ++ Node.nodelistItem a ++ post) pre.length = Proto.NEWNODE_IPV4 := by
  simp [byteAt, Node.nodelistItem, List.getD_eq_getElem?_getD]
  decide

end Item

/-! ## `procmsg_NODELIST` -/

/-- `struct PICA_nodeaddr`: the address as text, and the port. -/
structure Nodeaddr where
  addr : List Char
  port : Nat
deriving DecidableEq

/-- `inet_ntoa`. -/
def inetNtoa (addr : Nat) : List Char :=
  Nat.toDigits 10 (addr % 256) ++ '.' :: Nat.toDigits 10 (addr / 256 % 256) ++
    '.' :: Nat.toDigits 10 (addr / 65536 % 256) ++ '.' :: Nat.toDigits 10 (addr / 16777216 % 256)

/-- `ntohs`. -/
def ntohs (n : Nat) : Nat :=
  n % 256 * 256 + n / 256 % 256

/-- What is saved of an address: `%.16s` takes at most 16 characters. -/
def nodeaddrOf (a : SockAddr) : Nodeaddr :=
  ⟨(inetNtoa a.addr).take 16, ntohs a.port⟩

theorem length_octet {b : Nat} (h : b < 256) : (Nat.toDigits 10 b).length ≤ 3 := by
  have hall : ∀ b : Fin 256, (Nat.toDigits 10 b).length ≤ 3 := by decide +kernel
  exact hall ⟨b, h⟩

/-- The text of an address is short enough. -/
theorem nodeaddrOf_eq (a : SockAddr) : nodeaddrOf a = ⟨inetNtoa a.addr, ntohs a.port⟩ := by
  have hlen : (inetNtoa a.addr).length ≤ 16 := by
    have h0 := length_octet (Nat.mod_lt a.addr (show 0 < 256 by omega))
    have h1 := length_octet (Nat.mod_lt (a.addr / 256) (show 0 < 256 by omega))
    have h2 := length_octet (Nat.mod_lt (a.addr / 65536) (show 0 < 256 by omega))
    have h3 := length_octet (Nat.mod_lt (a.addr / 16777216) (show 0 < 256 by omega))
    simp only [inetNtoa, List.length_append, List.length_cons]
    omega
  rw [nodeaddrOf, List.take_of_length_le hlen]

/-- The loop of `procmsg_NODELIST` with the addresses that are given to
`PICA_nodeaddr_save`. -/
def nodelistLoopSaving (nl : Ptr) (buf : Frame) (size listsize : Nat) :
    Nat → Nat → Node × List Nodeaddr → Except Fault (Node × List Nodeaddr)
  | _, 0, s => pure s
  | 0, _, _ => .error .stuck
  | fuel + 1, listleft, (n, saved) =>
      if byteAt buf (size - listleft) ≠ Proto.NEWNODE_IPV4 then .error .stuck
      else if listleft < Proto.NODELIST_ITEM_IPV4_SIZE then .error .bounds
      else
        let a := addrAt buf (size - listleft + 1)
        let s :=
          if listleft = listsize then (n.nodelinkAttachNodeaddr nl a, saved)
          else if n.disableReservedAddrs ∧ isReservedAddrIpv4 a.addr then (n, saved)
          else (n, saved ++ [nodeaddrOf a])
        nodelistLoopSaving nl buf size listsize fuel
          (listleft - Proto.NODELIST_ITEM_IPV4_SIZE) s

/-- `procmsg_NODELIST` with the addresses it offers for saving. -/
def procmsgNODELISTSaving (n : Node) (nl : Ptr) (buf : Frame) :
    Except Fault ((Node × List Nodeaddr) × Nat) := do
  let s ← nodelistLoopSaving nl buf buf.length (buf.length - 4) buf.length (buf.length - 4)
    (n, [])
  pure (s, 1)

section Decoder

variable {n : Node} {nl : Ptr} {buf : Frame} {size listsize fuel listleft : Nat}

theorem nodelistLoopSaving_zero (s : Node × List Nodeaddr) :
    nodelistLoopSaving nl buf size listsize fuel 0 s = .ok s := by
  cases fuel with
  | zero => rfl
  | succ fuel => rfl

theorem nodelistLoopSaving_fst
    {s : Node × List Nodeaddr} :
    (nodelistLoopSaving nl buf size listsize fuel listleft s).map Prod.fst =
      Node.nodelistLoop nl buf size listsize fuel listleft s.1 := by
  induction fuel generalizing listleft s with
  | zero =>
      cases listleft with
      | zero => rfl
      | succ k => rfl
  | succ fuel ih =>
      cases listleft with
      | zero => rfl
      | succ k =>
          rw [nodelistLoopSaving, Node.nodelistLoop]
          split_ifs
          · rfl
          · rfl
          · exact ih
          · dsimp only
            rw [ih]
            split_ifs
            · rfl
            · rfl
          · exact Nat.succ_ne_zero k
          · exact Nat.succ_ne_zero k

/-- **The handler with the saved addresses does what the one in `Handlers.lean` does.** -/
theorem procmsgNODELISTSaving_fst :
    (procmsgNODELISTSaving n nl buf).map (fun r => (r.1.1, r.2)) = n.procmsgNODELIST nl buf := by
  have hloop := @nodelistLoopSaving_fst nl buf buf.length (buf.length - 4) buf.length
    (buf.length - 4) (n, [])
  rw [procmsgNODELISTSaving, Node.procmsgNODELIST, ← hloop]
  cases nodelistLoopSaving nl buf buf.length (buf.length - 4) buf.length (buf.length - 4)
    (n, []) with
  | error e => rfl
  | ok s => rfl

/-- The addresses that are offered for saving. -/
def offered (n : Node) (items : List SockAddr) : List Nodeaddr :=
  (items.filter fun a => ¬(n.disableReservedAddrs ∧ isReservedAddrIpv4 a.addr)).map nodeaddrOf

theorem offered_cons
    {a : SockAddr} {items : List SockAddr} :
    offered n (a :: items) =
      (if n.disableReservedAddrs ∧ isReservedAddrIpv4 a.addr then [] else [nodeaddrOf a]) ++
        offered n items := by
  by_cases h : n.disableReservedAddrs ∧ isReservedAddrIpv4 a.addr
  · simp [offered, h]
  · simp only [offered, List.filter_cons, if_neg h, decide_eq_true h, if_true, List.map_cons]
    rfl

/-- The loop behind the first item. -/
theorem nodelistLoopSaving_items
    {pre : List UInt8} {items : List SockAddr} {saved : List Nodeaddr}
    (hfits : ∀ a ∈ items, a.Fits) (hlist : 7 * items.length < listsize)
    (hfuel : items.length ≤ fuel) :
    nodelistLoopSaving nl (pre ++ items.flatMap Node.nodelistItem)
        (pre.length + 7 * items.length) listsize fuel (7 * items.length) (n, saved) =
      .ok (n, saved ++ offered n items) := by
  induction items generalizing pre fuel saved with
  | nil =>
      rw [List.length_nil, Nat.mul_zero, nodelistLoopSaving_zero]
      simp [offered]
  | cons a items ih =>
      simp only [List.length_cons] at hlist hfuel ⊢
      obtain ⟨fuel, rfl⟩ : ∃ k, fuel = k + 1 := ⟨fuel - 1, by omega⟩
      have hpos : pre.length + 7 * (items.length + 1) - 7 * (items.length + 1) =
          pre.length := Nat.add_sub_cancel _ _
      have hnext : 7 * (items.length + 1) - Proto.NODELIST_ITEM_IPV4_SIZE =
          7 * items.length := by
        simp only [Proto.NODELIST_ITEM_IPV4_SIZE]
        omega
      have hbuf : pre ++ (a :: items).flatMap Node.nodelistItem =
          pre ++ Node.nodelistItem a ++ items.flatMap Node.nodelistItem := by
        rw [List.flatMap_cons, List.append_assoc]
      have hsize : pre.length + 7 * (items.length + 1) =
          (pre ++ Node.nodelistItem a).length + 7 * items.length := by
        rw [List.length_append, length_nodelistItem]
        omega
      have hroom : ¬ 7 * (items.length + 1) < Proto.NODELIST_ITEM_IPV4_SIZE := by
        simp only [Proto.NODELIST_ITEM_IPV4_SIZE]
        omega
      have hrest : ∀ saved, nodelistLoopSaving nl
          (pre ++ Node.nodelistItem a ++ items.flatMap Node.nodelistItem)
          (pre.length + 7 * (items.length + 1)) listsize fuel (7 * items.length) (n, saved) =
            .ok (n, saved ++ offered n items) := by
        intro saved
        rw [hsize]
        exact ih (fun b hb => hfits b (List.mem_cons_of_mem a hb)) (by omega) (by omega)
      rw [nodelistLoopSaving, hpos, hbuf, byteAt_item, addrAt_item (hfits a List.mem_cons_self),
        hnext, if_neg (by simp), if_neg hroom, offered_cons]
      · dsimp only
        rw [if_neg (by omega)]
        split_ifs
        · rw [hrest, List.nil_append]
        · rw [hrest, List.append_assoc]
      · omega

theorem offered_attach
    {a : SockAddr} {items : List SockAddr} :
    offered (n.nodelinkAttachNodeaddr nl a) items = offered n items := by
  rw [Node.nodelinkAttachNodeaddr]
  split_ifs
  · rfl
  · rfl

/-- **What `procmsg_NODELIST` makes of a list.** -/
theorem procmsgNODELISTSaving_frame
    {msgid : Nat} {own : SockAddr} {items : List SockAddr}
    (hown : own.Fits) (hfits : ∀ a ∈ items, a.Fits) :
    procmsgNODELISTSaving n nl (nodelistFrame msgid (own :: items)) =
      .ok ((n.nodelinkAttachNodeaddr nl own, offered n items), 1) := by
  set pre := head msgid ++ le16 (7 * (own :: items).length) with hpre
  have hlen : pre.length = 4 := rfl
  have hframe : nodelistFrame msgid (own :: items) =
      pre ++ Node.nodelistItem own ++ items.flatMap Node.nodelistItem := by
    rw [nodelistFrame, ← hpre, List.flatMap_cons, ← List.append_assoc]
  have hsize : (nodelistFrame msgid (own :: items)).length =
      (pre ++ Node.nodelistItem own).length + 7 * items.length := by
    rw [hframe, List.length_append, length_items]
  have htotal : (nodelistFrame msgid (own :: items)).length = 11 + 7 * items.length := by
    rw [hsize, List.length_append, hlen, length_nodelistItem]
  have hloop := @nodelistLoopSaving_items (n.nodelinkAttachNodeaddr nl own) nl
    (7 * items.length + 7) (7 * items.length + 10) (pre ++ Node.nodelistItem own) items []
    hfits (by omega) (by omega)
  rw [← hframe, ← hsize, htotal, List.nil_append, offered_attach] at hloop
  have hfirst : 11 + 7 * items.length - (7 * items.length + 7) = pre.length := by
    rw [hlen]
    omega
  have hnext : 7 * items.length + 7 - Proto.NODELIST_ITEM_IPV4_SIZE = 7 * items.length := by
    simp only [Proto.NODELIST_ITEM_IPV4_SIZE]
    omega
  have hroom : ¬ 7 * items.length + 7 < Proto.NODELIST_ITEM_IPV4_SIZE := by
    simp only [Proto.NODELIST_ITEM_IPV4_SIZE]
    omega
  have hbytes : byteAt (nodelistFrame msgid (own :: items)) pre.length = Proto.NEWNODE_IPV4 := by
    rw [hframe]
    exact byteAt_item
  have haddr : addrAt (nodelistFrame msgid (own :: items)) (pre.length + 1) = own := by
    rw [hframe]
    exact addrAt_item hown
  have hlist : 11 + 7 * items.length - 4 = 7 * items.length + 7 := by omega
  have hfuel : 11 + 7 * items.length = (7 * items.length + 10) + 1 := by omega
  rw [procmsgNODELISTSaving, htotal, hlist]
  nth_rewrite 2 [hfuel]
  rw [nodelistLoopSaving, hfirst, hbytes, haddr, hnext, if_neg (by simp), if_neg hroom]
  · dsimp only
    rw [if_pos rfl, hloop]
    rfl
  · omega

end Decoder

/-- A node with two others, one of which has not announced an address. -/
def twoNodes : Node :=
  let n := Node.init ⟨16909060, 5000⟩ true 0 (fun _ => true) (fun _ => 0) (fun _ _ => true) fun _ _ => true
  { n with nodelinks :=
    [⟨1, 5, ⟨0, 0⟩, Proto.NEWNODE_IPV4, some ⟨134744072, 2323⟩, 0, false, []⟩,
      ⟨2, 6, ⟨0, 0⟩, 0, none, 0, false, []⟩] }

end PicaPica
