import Engram.Cmd.PairwiseLinks
import Engram.Library.HexText
import Engram.Node.PeerFilter
import Engram.Node.Sensors

/-!
The peers of a generated testnet. Every node is given the identifiers and the link
addresses of all the others as one text, and reads the identifiers back from it; what its
peer observer then reports of them is a matter of how many are connected.
-/

set_option autoImplicit false
set_option relaxedAutoImplicit false

namespace Engram.Cmd

open Engram.Types Engram.Library Engram.Library.HexText Engram.Library.TriangularIndex
  Engram.Node Engram.Node.PeerHealth

section Texts

/-- `unicode.IsSpace`. -/
def isSpace (c : Char) : Bool :=
  [9, 10, 11, 12, 13, 32, 0x85, 0xA0, 0x1680, 0x2028, 0x2029, 0x202F, 0x205F, 0x3000].contains
      c.toNat || decide (0x2000 ≤ c.toNat ∧ c.toNat ≤ 0x200A)

def trimSpace (text : List Char) : List Char :=
  ((text.dropWhile isSpace).reverse.dropWhile isSpace).reverse

/-- The identifier of one entry: what stands before its first `@`. -/
def entryID (entry : List Char) : Option (List Char) :=
  let entry := trimSpace entry
  if entry = [] then none
  else
    let at' := entry.findIdx (fun c => c == '@')
    if at' = 0 ∨ at' = entry.length then none else some (entry.take at')

/-- `parsePersistentPeerIDs`, as the membership test of the set it builds. -/
def parsePersistentPeerIDs (raw : List Char) (id : List Char) : Bool :=
  ((raw.splitOn ',').filterMap entryID).contains id

def nodeID (address : Bytes) : List Char := toHex address

def peerEntry (id : List Char) (ip : LinkAddress) (p2pPort : ℤ) : List Char :=
  id ++ '@' :: (ip.text.toList ++ ':' :: (toString p2pPort).toList)

def others (n i : ℕ) : List ℕ := (List.range n).filter (fun j => j ≠ i)

/-- `persistent_peers` of validator `i`, as `testnetInitFiles` writes it. -/
def persistentPeers (n : ℕ) (address : ℕ → Bytes) (p2pPort : ℤ) (i : ℕ) : List Char :=
  [','].intercalate
    ((others n i).map fun j => peerEntry (nodeID (address j)) (peerIP n i j) p2pPort)

end Texts

/-- The address of a link end in four bytes, when its link number is an octet. -/
def LinkAddress.ip (address : LinkAddress) : IP :=
  [172, 40, address.link.toInt.toNat.toUInt8, address.host.toInt.toNat.toUInt8]

def validatorPeer (n : ℕ) (address : ℕ → Bytes) (i j : ℕ) (duration rtt : Int64) :
    Peer (List Char) :=
  ⟨nodeID (address j), some (subnetOf (peerIP n i j).ip), duration, rtt⟩

section Parsing

/-- A character that neither ends an entry nor is trimmed from it. -/
def Plain (c : Char) : Prop := isSpace c = false ∧ c ≠ ','

private theorem plain_of_mem_toHex {bytes : Bytes} {c : Char} (listed : c ∈ toHex bytes) :
    Plain c ∧ c ≠ '@' := by
  obtain ⟨n, nibble, rfl⟩ := List.mem_map.mp listed
  have small := nibbles_lt bytes n nibble
  have digits : ∀ n < 16, (isSpace (Nat.digitChar n) = false ∧ Nat.digitChar n ≠ ',') ∧
      Nat.digitChar n ≠ '@' := by decide
  exact digits n small

private theorem plain_of_isDigit {c : Char} (digit : c.isDigit = true) : Plain c := by
  simp only [Char.isDigit, Bool.and_eq_true, decide_eq_true_eq] at digit
  obtain ⟨low, high⟩ := digit
  have below : c.toNat ≤ 57 := high
  have above : 48 ≤ c.toNat := low
  refine ⟨?_, ?_⟩
  · simp only [isSpace, List.contains_eq_mem, Bool.or_eq_false_iff, decide_eq_false_iff_not,
      List.mem_cons, List.not_mem_nil, or_false]
    omega
  · rintro rfl
    exact absurd above (by decide)

private theorem plain_of_mem_toString {z : ℤ} {c : Char} (listed : c ∈ (toString z).toList) :
    Plain c := by
  have natural : ∀ k : ℕ, ∀ c ∈ (toString k).toList, Plain c := by
    intro k c listed
    rw [show toString k = k.repr from rfl, Nat.toList_repr] at listed
    exact plain_of_isDigit (Nat.isDigit_of_mem_toDigits (by decide) (by decide) listed)
  cases z with
  | ofNat k => exact natural k c listed
  | negSucc k =>
      have text : toString (Int.negSucc k) = "-" ++ toString (k + 1) := rfl
      rw [text, String.toList_append, List.mem_append] at listed
      rcases listed with sign | digits
      · obtain rfl : c = '-' := by simpa using sign
        exact ⟨by decide, by decide⟩
      · exact natural _ c digits

private theorem plain_of_mem_text {ip : LinkAddress} {c : Char} (listed : c ∈ ip.text.toList) :
    Plain c := by
  simp only [LinkAddress.text, String.toList_append, List.mem_append, or_assoc] at listed
  have fixed : ∀ c ∈ "172.40.".toList, isSpace c = false ∧ c ≠ ',' := by simp [isSpace]
  rcases listed with net | link | dot | host
  · exact fixed c net
  · exact plain_of_mem_toString link
  · obtain rfl : c = '.' := by simpa using dot
    exact ⟨by decide, by decide⟩
  · exact plain_of_mem_toString host

variable {bytes : Bytes} {ip : LinkAddress} {p2pPort : ℤ}

private theorem plain_of_mem_peerEntry {c : Char}
    (listed : c ∈ peerEntry (nodeID bytes) ip p2pPort) : Plain c := by
  simp only [peerEntry, List.mem_append, List.mem_cons] at listed
  rcases listed with id | rfl | host | rfl | port
  · exact (plain_of_mem_toHex id).1
  · exact ⟨by decide, by decide⟩
  · exact plain_of_mem_text host
  · exact ⟨by decide, by decide⟩
  · exact plain_of_mem_toString port

private theorem trimSpace_of_plain {text : List Char} (plain : ∀ c ∈ text, Plain c) :
    trimSpace text = text := by
  have kept : ∀ l : List Char, (∀ c ∈ l, Plain c) → l.dropWhile isSpace = l := by
    intro l plain
    cases l with
    | nil => rfl
    | cons c l =>
        rw [List.dropWhile_cons_of_neg]
        rw [(plain c (List.mem_cons_self)).1]
        decide
  rw [trimSpace, kept text plain, kept text.reverse (by simpa using plain), List.reverse_reverse]

private theorem entryID_peerEntry (present : bytes ≠ []) :
    entryID (peerEntry (nodeID bytes) ip p2pPort) = some (nodeID bytes) := by
  have trimmed : trimSpace (peerEntry (nodeID bytes) ip p2pPort) =
      peerEntry (nodeID bytes) ip p2pPort :=
    trimSpace_of_plain (fun c listed => plain_of_mem_peerEntry listed)
  have first : (peerEntry (nodeID bytes) ip p2pPort).findIdx (fun c => c == '@') =
      (nodeID bytes).length := by
    rw [peerEntry, List.findIdx_append, List.findIdx_eq_length_of_false, if_neg (lt_irrefl _),
      List.findIdx_cons]
    · simp
    · intro c listed
      simpa using (plain_of_mem_toHex listed).2
  have long : 0 < (nodeID bytes).length := by
    rw [nodeID, length_toHex]
    have := List.length_pos_iff.mpr present
    omega
  have more : (nodeID bytes).length < (peerEntry (nodeID bytes) ip p2pPort).length := by
    simp [peerEntry]
  have nonempty : peerEntry (nodeID bytes) ip p2pPort ≠ [] := by
    intro empty
    rw [empty] at more
    cases more
  simp only [entryID, trimmed, first, if_neg nonempty]
  rw [if_neg (by omega), peerEntry, List.take_left]

private theorem mem_others {n i j : ℕ} : j ∈ others n i ↔ j < n ∧ j ≠ i := by
  simp [others]

private theorem parse_persistentPeers {n i : ℕ} {address : ℕ → Bytes}
    (present : ∀ j < n, address j ≠ []) (id : List Char) :
    parsePersistentPeerIDs (persistentPeers n address p2pPort i) id = true ↔
      ∃ j < n, j ≠ i ∧ id = nodeID (address j) := by
  have read : ((persistentPeers n address p2pPort i).splitOn ',').filterMap entryID =
      (others n i).map fun j => nodeID (address j) := by
    cases empty : others n i with
    | nil =>
        simp only [persistentPeers, empty, List.map_nil]
        decide
    | cons first rest =>
        rw [← empty, persistentPeers, List.splitOn_intercalate, List.filterMap_map]
        · rw [← List.filterMap_eq_map]
          refine List.filterMap_congr (fun j listed => ?_)
          exact entryID_peerEntry (present j (mem_others.mp listed).1)
        · intro entry listed comma
          obtain ⟨j, _, rfl⟩ := List.mem_map.mp listed
          exact (plain_of_mem_peerEntry comma).2 rfl
        · rw [empty]
          exact List.cons_ne_nil _ _
  rw [parsePersistentPeerIDs, read, List.contains_iff_mem, List.mem_map]
  constructor
  · rintro ⟨j, listed, rfl⟩
    obtain ⟨below, other⟩ := mem_others.mp listed
    exact ⟨j, below, other, rfl⟩
  · rintro ⟨j, below, other, rfl⟩
    exact ⟨j, mem_others.mpr ⟨below, other⟩, rfl⟩

end Parsing

section Snapshot

variable {ID : Type} [DecidableEq ID]

private theorem counts_foldl_visit (persistentPeerIDs : ID → Bool) (time : ℤ)
    (peers : List (Peer ID)) (s : Scan ID) :
    (peers.foldl (Scan.visit persistentPeerIDs time) s).activeAnchors =
        s.activeAnchors + .ofNat (peers.countP fun p => persistentPeerIDs p.id) ∧
      (peers.foldl (Scan.visit persistentPeerIDs time) s).cleanPeers =
        s.cleanPeers + .ofNat peers.length := by
  induction peers generalizing s with
  | nil => simp
  | cons p peers ih =>
      obtain ⟨anchors, clean⟩ := ih (s.visit persistentPeerIDs time p)
      rw [List.foldl_cons, anchors, clean, List.length_cons, UInt64.ofNat_add]
      refine ⟨?_, ?_⟩
      · by_cases known : persistentPeerIDs p.id = true
        · rw [List.countP_cons_of_pos (p := fun p : Peer ID => persistentPeerIDs p.id) known,
            UInt64.ofNat_add]
          simp only [Scan.visit, if_pos known]
          rw [UInt64.add_assoc, UInt64.add_comm 1]
          rfl
        · rw [List.countP_cons_of_neg (p := fun p : Peer ID => persistentPeerIDs p.id) known]
          simp only [Scan.visit, if_neg known]
      · simp only [Scan.visit]
        rw [UInt64.add_assoc, UInt64.add_comm 1]
        rfl

private theorem snapshot_counts (persistentPeerIDs : ID → Bool) (time : ℤ)
    (seconds : Int64 → UInt64) (a : Adapter ID) {peers : List (Peer ID)}
    (known : ∀ p ∈ peers, persistentPeerIDs p.id = true) :
    (a.peerHealthSnapshot persistentPeerIDs time seconds peers).2.activeAnchors =
        .ofNat peers.length ∧
      (a.peerHealthSnapshot persistentPeerIDs time seconds peers).2.cleanPeers =
        .ofNat peers.length := by
  obtain ⟨anchors, clean⟩ := counts_foldl_visit persistentPeerIDs time peers
    { firstSeen := a.firstSeen, churnEvents := a.churnEvents }
  have all : peers.countP (fun p => persistentPeerIDs p.id) = peers.length :=
    List.countP_eq_length.mpr known
  rw [all, UInt64.zero_add] at anchors
  rw [UInt64.zero_add] at clean
  exact ⟨anchors, clean⟩

private theorem churnEvents_before_of_known {persistentPeerIDs : ID → Bool}
    {seconds : Int64 → UInt64} {call : ℕ → Call ID}
    (known : ∀ k, ∀ p ∈ (call k).peers, persistentPeerIDs p.id = true) (k : ℕ) :
    (before persistentPeerIDs seconds call k).churnEvents = [] := by
  have listed : ∀ k, ∀ id ∈ ids (call k).peers, persistentPeerIDs id = true := by
    intro k id member
    obtain ⟨p, here, rfl⟩ := List.mem_map.mp (List.mem_toFinset.mp member)
    exact known k p here
  induction k with
  | zero => rfl
  | succ k ih =>
      obtain ⟨_, events, _⟩ := peerHealthSnapshot_spec persistentPeerIDs (call k).now seconds
        (before persistentPeerIDs seconds call k) (call k).peers
      have none' : counted persistentPeerIDs (symmDiff
          (before persistentPeerIDs seconds call k).firstSeen.keys.toFinset
            (ids (call k).peers)) = ∅ := by
        rw [toFinset_keys_before, counted, Finset.filter_eq_empty_iff]
        intro id changed
        have member : id ∈ peersBefore call k ∪ ids (call k).peers :=
          Finset.symmDiff_subset_union changed
        rcases Finset.mem_union.mp member with earlier | now
        · cases k with
          | zero => cases earlier
          | succ k => simp [countsAsChurn, listed k id earlier]
        · simp [countsAsChurn, listed k id now]
      change ((before persistentPeerIDs seconds call k).peerHealthSnapshot persistentPeerIDs
        (call k).now seconds (call k).peers).1.churnEvents = []
      rw [events, ih, none']
      rfl

private theorem churnRate_of_known {persistentPeerIDs : ID → Bool} {seconds : Int64 → UInt64}
    {call : ℕ → Call ID}
    (known : ∀ k, ∀ p ∈ (call k).peers, persistentPeerIDs p.id = true) (k : ℕ) :
    (returned persistentPeerIDs seconds call k).churnRate = 0 := by
  have next : (before persistentPeerIDs seconds call (k + 1)).churnEvents = [] :=
    churnEvents_before_of_known known (k + 1)
  have rate := (peerHealthSnapshot_spec persistentPeerIDs (call k).now seconds
    (before persistentPeerIDs seconds call k) (call k).peers).2.2
  change ((before persistentPeerIDs seconds call k).peerHealthSnapshot persistentPeerIDs
    (call k).now seconds (call k).peers).1.churnEvents = [] at next
  rw [next] at rate
  exact rate

end Snapshot

section Subnets

private theorem subnetOf_linkIP_inj {a b : LinkAddress}
    (octet : 0 ≤ a.link.toInt ∧ a.link.toInt < 256) (octet' : 0 ≤ b.link.toInt ∧ b.link.toInt < 256)
    (same : subnetOf a.ip = subnetOf b.ip) : a.link = b.link := by
  have byte : ∀ z : ℤ, 0 ≤ z → z < 256 → (z.toNat.toUInt8.toNat : ℤ) = z := by
    intro z low high
    rw [Nat.toUInt8_eq, UInt8.toNat_ofNat']
    omega
  have text : ∀ c : LinkAddress, subnetOf c.ip =
      "172.40." ++ c.link.toInt.toNat.toUInt8.toNat.repr ++ ".0" := by
    intro c
    have four : c.ip.to4 = some c.ip := rfl
    simp only [subnetOf, four]
    simp only [LinkAddress.ip, List.getD_cons_zero, List.getD_cons_succ]
    rfl
  have chars := congrArg String.toList ((text a).symm.trans (same.trans (text b)))
  simp only [String.toList_append, Nat.toList_repr] at chars
  have digits := List.append_cancel_left (List.append_cancel_right chars)
  have number := congrArg (fun l => Nat.ofDigitChars 10 l 0) digits
  simp only [Nat.ofDigitChars_toDigits (by decide : 1 < 10) (by decide : 10 ≤ 10)] at number
  rw [← Int64.toInt_inj, ← byte _ octet.1 octet.2, ← byte _ octet'.1 octet'.2, number]

private theorem nodup_subnets {n i : ℕ} (inside : i < n) (octets : n * (n - 1) / 2 ≤ 256)
    {js : List ℕ} (distinct : js.Nodup) (other : ∀ j ∈ js, j < n ∧ j ≠ i) :
    (js.map fun j => subnetOf (peerIP n i j).ip).Nodup := by
  have few : n ≤ 3037000501 := by
    by_contra many
    have total : 3037000502 * 1 ≤ n * (n - 1) := Nat.mul_le_mul (by omega) (by omega)
    omega
  have numbering := numbering_of_few few
  refine distinct.map_on ?_
  intro j listed j' listed' same
  obtain ⟨below, apart⟩ := other j listed
  obtain ⟨below', apart'⟩ := other j' listed'
  have link := subnetOf_linkIP_inj (numbering.octet octets i inside j below (Ne.symm apart))
    (numbering.octet octets i inside j' below' (Ne.symm apart')) same
  have pair := numbering.links octets i inside j below (Ne.symm apart) i inside j' below'
    (Ne.symm apart') link
  simp only [sorted, Prod.mk.injEq] at pair
  omega

end Subnets

section Testnet

variable {n i : ℕ} {address : ℕ → Bytes} {js : ℕ → List ℕ}

/-- The calls of the peer observer of validator `i`: at each, some of the others are
connected. -/
def testnetCall (n : ℕ) (address : ℕ → Bytes) (i : ℕ) (time : ℕ → ℤ) (js : ℕ → List ℕ)
    (duration rtt : ℕ → ℕ → Int64) (k : ℕ) : Call (List Char) where
  now := time k
  peers := (js k).map fun j => validatorPeer n address i j (duration k j) (rtt k j)

def testnetSnapshot (n : ℕ) (address : ℕ → Bytes) (p2pPort : ℤ) (i : ℕ)
    (seconds : Int64 → UInt64) (time : ℕ → ℤ) (js : ℕ → List ℕ) (duration rtt : ℕ → ℕ → Int64)
    (k : ℕ) : P2PSnapshot :=
  returned (parsePersistentPeerIDs (persistentPeers n address p2pPort i)) seconds
    (testnetCall n address i time js duration rtt) k

private theorem testnetSnapshot_counts (inside : i < n) (octets : n * (n - 1) / 2 ≤ 256)
    (present : ∀ j < n, address j ≠ []) (p2pPort : ℤ) (seconds : Int64 → UInt64) (time : ℕ → ℤ)
    (other : ∀ k, (js k).Nodup ∧ ∀ j ∈ js k, j < n ∧ j ≠ i) (duration rtt : ℕ → ℕ → Int64) (k : ℕ) :
    let snap := testnetSnapshot n address p2pPort i seconds time js duration rtt k
    snap.subnetDiversity.toNat = (js k).length ∧ snap.activeAnchors.toNat = (js k).length ∧
      snap.cleanPeers.toNat = (js k).length ∧ snap.churnRate = 0 := by
  have known : ∀ k, ∀ p ∈ (testnetCall n address i time js duration rtt k).peers,
      parsePersistentPeerIDs (persistentPeers n address p2pPort i) p.id = true := by
    intro k p listed
    obtain ⟨j, here, rfl⟩ := List.mem_map.mp listed
    obtain ⟨below, apart⟩ := (other k).2 j here
    exact (parse_persistentPeers present _).mpr ⟨j, below, apart, rfl⟩
  have few : (js k).length ≤ n := by
    have subset : (js k).toFinset ⊆ Finset.range n := by
      intro j listed
      exact Finset.mem_range.mpr ((other k).2 j (List.mem_toFinset.mp listed)).1
    have card := Finset.card_le_card subset
    rwa [Finset.card_range, List.toFinset_card_of_nodup (other k).1] at card
  have small : n < 2 ^ 64 := by
    by_contra large
    have total : 2 ^ 64 * 1 ≤ n * (n - 1) := Nat.mul_le_mul (by omega) (by omega)
    omega
  have length : (testnetCall n address i time js duration rtt k).peers.length =
      (js k).length := List.length_map _
  have word : (UInt64.ofNat (js k).length).toNat = (js k).length :=
    UInt64.toNat_ofNat_of_lt' (few.trans_lt small)
  obtain ⟨anchors, clean⟩ := snapshot_counts _ (time k) seconds
    (before _ seconds (testnetCall n address i time js duration rtt) k) (known k)
  refine ⟨?_, ?_, ?_, churnRate_of_known known k⟩
  · refine (PeerFilter.subnetDiversity_eq _ (time k) seconds _
      (length ▸ few.trans_lt small)).trans ?_
    have subnets : (testnetCall n address i time js duration rtt k).peers.filterMap Peer.subnet =
        (js k).map fun j => subnetOf (peerIP n i j).ip := by
      rw [testnetCall, List.filterMap_map, ← List.filterMap_eq_map]
      rfl
    rw [subnets, List.toFinset_card_of_nodup
      (nodup_subnets inside octets (other k).1 (other k).2), List.length_map]
  · exact (congrArg UInt64.toNat anchors).trans (length ▸ word)
  · exact (congrArg UInt64.toNat clean).trans (length ▸ word)

end Testnet

/-- Peer health on a generated testnet whose link numbers are octets. A node reads back
exactly the identifiers of the others. Whichever of them are connected at each reading,
and however they come and go, every reading reports their number as subnet diversity, as
active anchors and as clean peers, and no churn; so the peer condition holds exactly when
that number reaches the three minima and the connections are old and fast enough. -/
theorem testnet_peer_health {n i : ℕ} (inside : i < n) (octets : n * (n - 1) / 2 ≤ 256)
    {address : ℕ → Bytes} (present : ∀ j < n, address j ≠ []) (p2pPort : ℤ)
    (seconds : Int64 → UInt64) (time : ℕ → ℤ) {js : ℕ → List ℕ}
    (other : ∀ k, (js k).Nodup ∧ ∀ j ∈ js k, j < n ∧ j ≠ i) (duration rtt : ℕ → ℕ → Int64)
    (k : ℕ) :
    let snap := testnetSnapshot n address p2pPort i seconds time js duration rtt k
    (∀ id, parsePersistentPeerIDs (persistentPeers n address p2pPort i) id = true ↔
      ∃ j < n, j ≠ i ∧ id = nodeID (address j)) ∧
    (snap.subnetDiversity.toNat = (js k).length ∧ snap.activeAnchors.toNat = (js k).length ∧
      snap.cleanPeers.toNat = (js k).length ∧ snap.churnRate = 0) ∧
    ∀ (p : Params) (height : UInt64) (st : Keeper.Store) (s : Sensors), s.p2p = snap →
      (isP2PQualityHealthy (s.snapshot p height st) p = true ↔
        p.minSubnetDiversity.toNat ≤ (js k).length ∧ p.minAnchorPeers.toNat ≤ (js k).length ∧
        p.minPeers.toNat ≤ (js k).length ∧ p.minAvgTenure ≤ snap.avgTenure ∧
        snap.latency ≤ p.maxPeerLatency) := by
  intro snap
  have counts := testnetSnapshot_counts inside octets present p2pPort seconds time other duration
    rtt k
  refine ⟨parse_persistentPeers present, counts, ?_⟩
  intro p height st s reads
  obtain ⟨diversity, anchors, clean, churn⟩ := counts
  have metrics : isP2PQualityHealthy (s.snapshot p height st) p = true ↔
      ((((p.minSubnetDiversity ≤ snap.subnetDiversity ∧ p.minAnchorPeers ≤ snap.activeAnchors) ∧
        p.minPeers ≤ snap.cleanPeers) ∧ snap.churnRate ≤ p.maxChurnRate) ∧
        p.minAvgTenure ≤ snap.avgTenure) ∧ snap.latency ≤ p.maxPeerLatency := by
    simp only [isP2PQualityHealthy, Sensors.snapshot, reads, Bool.and_eq_true, decide_eq_true_eq,
      ge_iff_le]
  rw [metrics, UInt64.le_iff_toNat_le, UInt64.le_iff_toNat_le, UInt64.le_iff_toNat_le, diversity,
    anchors, clean]
  have quiet : snap.churnRate ≤ p.maxChurnRate := by
    rw [UInt64.le_iff_toNat_le, churn]
    exact Nat.zero_le _
  constructor
  · rintro ⟨⟨⟨⟨⟨a, b⟩, c⟩, _⟩, d⟩, e⟩
    exact ⟨a, b, c, d, e⟩
  · rintro ⟨a, b, c, d, e⟩
    exact ⟨⟨⟨⟨⟨a, b⟩, c⟩, quiet⟩, d⟩, e⟩

/-- Validator 1 of four with validators 0 and 3 connected, under the default parameters:
one clean peer too few. -/
theorem testnet_peer_health_twoConnected :
    isP2PQualityHealthy (Sensors.snapshot ⟨⟨0, none⟩, ⟨true, false, false, none⟩,
      testnetSnapshot 4 (fun j => [j.toUInt8]) 26656 1 (fun _ => 300) (fun _ => 0)
        (fun _ => [0, 3]) (fun _ _ => 0) (fun _ _ => 0) 0, none, none⟩ defaultParams 1 {})
      defaultParams = false := by
  have other : ∀ _k : ℕ, [0, 3].Nodup ∧ ∀ j ∈ [0, 3], j < 4 ∧ j ≠ 1 := fun _ => by decide
  obtain ⟨_, _, health⟩ := testnet_peer_health (n := 4) (i := 1) (by decide) (by decide)
    (fun _ _ => List.cons_ne_nil _ _) 26656 (fun _ => 300) (fun _ => 0) other (fun _ _ => 0)
    (fun _ _ => 0) 0
  rw [Bool.eq_false_iff, ne_eq, health defaultParams 1 {} _ rfl]
  rintro ⟨_, _, clean, _⟩
  exact absurd clean (by decide)

end Engram.Cmd
