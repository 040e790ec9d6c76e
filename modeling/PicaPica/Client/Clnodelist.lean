import PicaPica.Node.NodeList

/-!
# The list of nodes that a client gets

`procmsg_CLNODELIST` calls `nodelist_cb` for each item of a list.  A list of a node
(`Node/NodeList.lean`) comes back item by item, in both decoders.
-/

namespace PicaPica

open Machine

namespace Client

/-- A call of `nodelist_cb`: the type, what `addr_bin` points to, `addr_str` and the port. -/
structure NodelistCall where
  type : Nat
  addrBin : List UInt8
  addrStr : List Char
  port : Nat
deriving DecidableEq

/-- The text that a C string in a buffer has. -/
def cString (bytes : List UInt8) : List Char :=
  (bytes.takeWhile (· ≠ 0)).map fun b => Char.ofNat b.toNat

section Loop

-- `inet_ntop` for the 16 bytes of an IPv6 address
variable (ntop6 : List UInt8 → List Char)

/-- The loop of `procmsg_CLNODELIST`, whose body is executed before the first test of
`pos`, with the calls and the result.  A read outside the message is a `Fault.bounds`. -/
def clnodelistLoop (buf : Frame) : Nat → Nat → Except Fault (List NodelistCall × Nat)
  | 0, _ => .error .stuck
  | fuel + 1, pos =>
      -- the item, its size, and the rest of the loop
      let go (size : Nat) (call : NodelistCall) : Except Fault (List NodelistCall × Nat) :=
        if buf.length < pos + size then .error .bounds
        else if pos + size < buf.length then do
          let r ← clnodelistLoop buf fuel (pos + size)
          pure (call :: r.1, r.2)
        else pure ([call], 1)
      if buf.length ≤ pos then .error .bounds
      else if byteAt buf pos = Proto.NEWNODE_IPV4 then
        let a := addrAt buf (pos + 1)
        go Proto.NODELIST_ITEM_IPV4_SIZE
          ⟨Proto.NEWNODE_IPV4, (buf.drop (pos + 1)).take 4, inetNtoa a.addr, ntohs a.port⟩
      else if byteAt buf pos = Proto.NEWNODE_IPV6 then
        go Proto.NODELIST_ITEM_IPV6_SIZE
          ⟨Proto.NEWNODE_IPV6, (buf.drop (pos + 1)).take 16,
            ntop6 ((buf.drop (pos + 1)).take 16), ntohs (load16 buf (pos + 17))⟩
      else if byteAt buf pos = Proto.NEWNODE_DNS then
        let len := byteAt buf (pos + 1)
        let name := (buf.drop (pos + 2)).take len
        go (4 + len) ⟨Proto.NEWNODE_DNS, name, cString name, ntohs (load16 buf (pos + len + 2))⟩
      else pure ([], 0)

/-- `procmsg_CLNODELIST`. -/
def procmsgCLNODELIST (buf : Frame) : Except Fault (List NodelistCall × Nat) :=
  clnodelistLoop ntop6 buf buf.length 4

end Loop

/-- The call for an item with the address `a`. -/
def nodelistCall (a : SockAddr) : NodelistCall :=
  ⟨Proto.NEWNODE_IPV4, (addrBytes a).take 4, inetNtoa a.addr, ntohs a.port⟩

section Decoder

variable {ntop6 : List UInt8 → List Char} {pre : List UInt8} {items : List SockAddr} {fuel : Nat}

theorem addrBin_item {a : SockAddr} {post : List UInt8} :
    ((pre ++ Node.nodelistItem a ++ post).drop (pre.length + 1)).take 4 =
      (addrBytes a).take 4 := by
  rw [List.append_assoc, List.drop_append, List.drop_eq_nil_of_le (by omega)]
  simp [Node.nodelistItem, addrBytes, le16]

/-- The loop from an item on. -/
theorem clnodelistLoop_items
    (hne : items ≠ []) (hfits : ∀ a ∈ items, a.Fits) (hfuel : items.length ≤ fuel) :
    clnodelistLoop ntop6 (pre ++ items.flatMap Node.nodelistItem) fuel pre.length =
      .ok (items.map nodelistCall, 1) := by
  induction items generalizing pre fuel with
  | nil => exact absurd rfl hne
  | cons a items ih =>
      simp only [List.length_cons] at hfuel
      obtain ⟨fuel, rfl⟩ : ∃ k, fuel = k + 1 := ⟨fuel - 1, by omega⟩
      have hbuf : pre ++ (a :: items).flatMap Node.nodelistItem =
          pre ++ Node.nodelistItem a ++ items.flatMap Node.nodelistItem := by
        rw [List.flatMap_cons, List.append_assoc]
      have hlen : (pre ++ Node.nodelistItem a ++ items.flatMap Node.nodelistItem).length =
          pre.length + 7 + 7 * items.length := by
        rw [List.length_append, List.length_append, length_nodelistItem, length_items]
      have hpos : pre.length + 7 = (pre ++ Node.nodelistItem a).length := by
        rw [List.length_append, length_nodelistItem]
      rw [hbuf, clnodelistLoop]
      simp only
      rw [if_neg (by omega)]
      simp only [byteAt_item, if_true, addrAt_item (hfits a List.mem_cons_self), addrBin_item,
        Proto.NODELIST_ITEM_IPV4_SIZE, hlen]
      rw [if_neg (by omega)]
      cases hitems : items with
      | nil =>
          rw [if_neg (by simp)]
          rfl
      | cons b rest =>
          rw [← hitems]
          have hpositive : 0 < items.length := by
            rw [hitems]
            exact Nat.succ_pos _
          rw [if_pos (by omega), hpos,
            ih (by rw [hitems]; simp) (fun b hb => hfits b (List.mem_cons_of_mem a hb)) (by omega)]
          rfl

/-- **What `procmsg_CLNODELIST` makes of a list.** -/
theorem procmsgCLNODELIST_frame
    {msgid : Nat} {own : SockAddr}
    (hown : own.Fits) (hfits : ∀ a ∈ items, a.Fits) :
    procmsgCLNODELIST ntop6 (nodelistFrame msgid (own :: items)) =
      .ok ((own :: items).map nodelistCall, 1) := by
  have hpre : (head msgid ++ le16 (7 * (own :: items).length)).length = 4 := rfl
  have hall : ∀ a ∈ own :: items, a.Fits := by
    intro a ha
    rcases List.mem_cons.mp ha with rfl | ha
    · exact hown
    · exact hfits a ha
  rw [procmsgCLNODELIST, ← hpre, nodelistFrame]
  refine clnodelistLoop_items (List.cons_ne_nil _ _) hall ?_
  rw [List.length_append, length_items]
  omega

end Decoder

end Client

/-- **Lists of nodes survive encoding and decoding.**  The message is built when every
node with the type of an IPv4 address has one; whenever it is built, the two decoders
find the own address and the addresses of the other nodes in their order, as many as
there is room for. -/
theorem nodelist_round_trip
    (n : Node) (asking : Option NodeLink) (hmy : n.myAddr.Fits)
    (hfits : ∀ nlp ∈ n.nodelinks, ∀ a, nlp.nodeAddr = some a → a.Fits) :
    ((∀ nlp ∈ n.nodelinks, nlp.addrType = Proto.NEWNODE_IPV4 → nlp.nodeAddr ≠ none) →
        (∀ m, asking = some m → m.nodeAddr ≠ none) → ∃ f, n.nodelistReply asking = .ok f) ∧
      ∀ f, n.nodelistReply asking = .ok f →
        ∃ others, others <+: n.nodelinks.filterMap (advertised asking) ∧
          (7 * (n.nodelinks.filterMap (advertised asking)).length < 65532 →
            others = n.nodelinks.filterMap (advertised asking)) ∧
          (∀ ntop6, Client.procmsgCLNODELIST ntop6 f =
            .ok ((n.myAddr :: others).map Client.nodelistCall, 1)) ∧
          ∀ m nl, procmsgNODELISTSaving m nl f =
            .ok ((m.nodelinkAttachNodeaddr nl n.myAddr, offered m others), 1) := by
  constructor
  · intro hlinks hasking
    obtain ⟨nlBuf, hscan⟩ :=
      @nodelistScan_ok asking n.nodelinks (Node.nodelistItem n.myAddr) hlinks hasking
    exact ⟨_, by rw [Node.nodelistReply, hscan]; rfl⟩
  · intro f hf
    have hframe := nodelistReply_eq hf
    have hothers : ∀ a ∈ (n.nodelinks.filterMap (advertised asking)).take (nodelistRoom 7),
        a.Fits := by
      intro a ha
      obtain ⟨nlp, hnlp, hadv⟩ := List.mem_filterMap.mp (List.mem_of_mem_take ha)
      rw [advertised] at hadv
      split_ifs at hadv
      exact hfits nlp hnlp a (Option.filter_eq_some_iff.mp hadv).1
    refine ⟨(n.nodelinks.filterMap (advertised asking)).take (nodelistRoom 7),
      List.take_prefix _ _, ?_, ?_, ?_⟩
    · intro hroom
      have hitems := @nodelistItems_whole asking n.nodelinks n.myAddr hroom
      exact List.tail_eq_of_cons_eq hitems
    · intro ntop6
      rw [hframe]
      exact Client.procmsgCLNODELIST_frame hmy hothers
    · intro m nl
      rw [hframe]
      exact procmsgNODELISTSaving_frame hmy hothers

theorem nodelist_round_trip_two :
    ∃ f, twoNodes.nodelistReply none = .ok f ∧ ∀ ntop6, Client.procmsgCLNODELIST ntop6 f =
      .ok ([twoNodes.myAddr, ⟨134744072, 2323⟩].map Client.nodelistCall, 1) := by
  obtain ⟨hbuilt, hround⟩ := nodelist_round_trip twoNodes none (by decide +kernel) (by
    simp [twoNodes, SockAddr.Fits])
  obtain ⟨f, hf⟩ := hbuilt (by decide +kernel) nofun
  obtain ⟨others, -, hwhole, hclient, -⟩ := hround f hf
  have hothers : others = [⟨134744072, 2323⟩] := hwhole (by decide +kernel)
  rw [hothers] at hclient
  exact ⟨f, hf, hclient⟩

end PicaPica
