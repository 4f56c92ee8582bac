import Engram.Node.Sensors
import Mathlib.Data.List.AList
import Mathlib.Data.Finset.SymmDiff
import Mathlib.Data.Int.ConditionallyCompleteOrder
import Mathlib.Data.Set.Card
import Mathlib.Algebra.BigOperators.Group.Finset.Sigma
import Mathlib.Order.Monotone.Basic

/-!
The peer health observer of the plain p2p switch. Arrivals and departures since the call
before are logged with the time of the call, and the log forgets what is an hour old.
-/

set_option autoImplicit false
set_option relaxedAutoImplicit false

namespace Engram.Node

namespace PeerHealth

variable {ID : Type} [DecidableEq ID]

/-- A connected peer as the switch reports it: durations in nanoseconds, and the subnet of
its remote IP when there is one. -/
structure Peer (ID : Type) where
  id : ID
  subnet : Option String
  duration : Int64
  rtt : Int64

/-- What the adapter remembers between two calls. -/
structure Adapter (ID : Type) where
  firstSeen : AList (fun _ : ID => ℤ) := ∅
  churnEvents : List ℤ := []

def p2pChurnWindow : ℤ := 3600000000000

def countsAsChurn (id : ID) (persistentPeerIDs : ID → Bool) : Bool := !persistentPeerIDs id

/-- The variables of the loop of a call over the connected peers. -/
structure Scan (ID : Type) where
  firstSeen : AList (fun _ : ID => ℤ)
  churnEvents : List ℤ
  seen : Finset ID := ∅
  subnets : Finset String := ∅
  activeAnchors : UInt64 := 0
  cleanPeers : UInt64 := 0
  tenureSum : Int64 := 0
  maxRTT : Int64 := 0

section Call

variable (persistentPeerIDs : ID → Bool) (now : ℤ)

def logChurn (id : ID) (churnEvents : List ℤ) : List ℤ :=
  if countsAsChurn id persistentPeerIDs then churnEvents ++ [now] else churnEvents

/-- One connected peer. -/
def Scan.visit (s : Scan ID) (p : Peer ID) : Scan ID where
  firstSeen := if p.id ∈ s.firstSeen then s.firstSeen else s.firstSeen.insert p.id now
  churnEvents :=
    if p.id ∈ s.firstSeen then s.churnEvents
    else logChurn persistentPeerIDs now p.id s.churnEvents
  seen := insert p.id s.seen
  subnets := match p.subnet with
    | some subnet => insert subnet s.subnets
    | none => s.subnets
  activeAnchors := if persistentPeerIDs p.id then s.activeAnchors + 1 else s.activeAnchors
  cleanPeers := s.cleanPeers + 1
  tenureSum := s.tenureSum + p.duration
  maxRTT := if p.rtt > s.maxRTT then p.rtt else s.maxRTT

/-- One remembered peer, dropped and logged when it is no longer connected. -/
def Adapter.depart (seen : Finset ID) (a : Adapter ID) (id : ID) : Adapter ID :=
  if id ∈ seen then a
  else ⟨a.firstSeen.erase id, logChurn persistentPeerIDs now id a.churnEvents⟩

/-- `PeerHealthSnapshot`. Every event of a call is logged with the same time, so the order
in which the remembered peers are gone through does not show. The conversion of a duration
to whole seconds goes through floating point and is a parameter. -/
def Adapter.peerHealthSnapshot (seconds : Int64 → UInt64) (a : Adapter ID)
    (peers : List (Peer ID)) : Adapter ID × P2PSnapshot :=
  let s := peers.foldl (Scan.visit persistentPeerIDs now)
    { firstSeen := a.firstSeen, churnEvents := a.churnEvents }
  let a := s.firstSeen.keys.foldl (Adapter.depart persistentPeerIDs now s.seen)
    ⟨s.firstSeen, s.churnEvents⟩
  let cutoff := now - p2pChurnWindow
  let kept := a.churnEvents.filter (fun t => cutoff < t)
  ({ a with churnEvents := kept },
    { subnetDiversity := s.subnets.card.toUInt64
      activeAnchors := s.activeAnchors
      cleanPeers := s.cleanPeers
      churnRate := kept.length.toUInt64
      avgTenure := if s.cleanPeers > 0 then
          seconds (s.tenureSum / s.cleanPeers.toInt64) else 0
      latency := (s.maxRTT / 1000000).toUInt64 })

end Call

section Loops

variable {persistentPeerIDs : ID → Bool} {now : ℤ}

def ids (peers : List (Peer ID)) : Finset ID := (peers.map Peer.id).toFinset

def counted (persistentPeerIDs : ID → Bool) (changed : Finset ID) : Finset ID :=
  changed.filter (fun id => countsAsChurn id persistentPeerIDs = true)

private theorem card_counted_insert {changed : Finset ID} {id : ID} (fresh : id ∉ changed) :
    (counted persistentPeerIDs (insert id changed)).card =
      (counted persistentPeerIDs changed).card +
        if countsAsChurn id persistentPeerIDs then 1 else 0 := by
  unfold counted
  rw [Finset.filter_insert]
  split_ifs
  · rw [Finset.card_insert_of_notMem (fun member => fresh (Finset.mem_of_mem_filter _ member))]
  · rfl

omit [DecidableEq ID] in
private theorem logChurn_eq (id : ID) (churnEvents : List ℤ) :
    logChurn persistentPeerIDs now id churnEvents = churnEvents ++
      List.replicate (if countsAsChurn id persistentPeerIDs then 1 else 0) now := by
  unfold logChurn
  split_ifs
  · rfl
  · rw [List.replicate_zero, List.append_nil]

private theorem toFinset_keys_insert (m : AList (fun _ : ID => ℤ)) (id : ID) (t : ℤ) :
    (m.insert id t).keys.toFinset = insert id m.keys.toFinset := by
  ext other
  rw [List.mem_toFinset, ← AList.mem_keys, AList.mem_insert, Finset.mem_insert, List.mem_toFinset,
    AList.mem_keys]

private theorem foldl_visit (persistentPeerIDs : ID → Bool) (now : ℤ) (peers : List (Peer ID))
    (s : Scan ID) :
    let s' := peers.foldl (Scan.visit persistentPeerIDs now) s
    s'.firstSeen.keys.toFinset = s.firstSeen.keys.toFinset ∪ ids peers ∧
      s'.seen = s.seen ∪ ids peers ∧
      s'.churnEvents = s.churnEvents ++ List.replicate
        (counted persistentPeerIDs (ids peers \ s.firstSeen.keys.toFinset)).card now := by
  induction peers generalizing s with
  | nil => simp [ids, counted]
  | cons p peers ih =>
      obtain ⟨keys, seen, events⟩ := ih (s.visit persistentPeerIDs now p)
      have all : ids (p :: peers) = insert p.id (ids peers) := by
        simp [ids]
      simp only [List.foldl_cons, keys, seen, events, all]
      refine ⟨?_, by simp [Scan.visit], ?_⟩
      all_goals by_cases known : p.id ∈ s.firstSeen
      · have listed : p.id ∈ s.firstSeen.keys.toFinset := List.mem_toFinset.mpr known
        simp only [Scan.visit, if_pos known, Finset.union_insert]
        rw [Finset.insert_eq_of_mem (Finset.mem_union_left _ listed)]
      · simp only [Scan.visit, if_neg known, toFinset_keys_insert, Finset.union_insert,
          Finset.insert_union]
      · have listed : p.id ∈ s.firstSeen.keys.toFinset := List.mem_toFinset.mpr known
        simp only [Scan.visit, if_pos known]
        rw [Finset.insert_sdiff_of_mem _ listed]
      · have arrived : insert p.id (ids peers) \ s.firstSeen.keys.toFinset =
            insert p.id (ids peers \ insert p.id s.firstSeen.keys.toFinset) := by
          ext other
          have fresh : p.id ∉ s.firstSeen.keys.toFinset := by
            rwa [List.mem_toFinset, ← AList.mem_keys]
          simp only [Finset.mem_sdiff, Finset.mem_insert]
          by_cases same : other = p.id
          · simp [same, fresh]
          · simp [same]
        simp only [Scan.visit, if_neg known, toFinset_keys_insert, logChurn_eq]
        rw [arrived, card_counted_insert (by simp), List.append_assoc,
          List.replicate_append_replicate, Nat.add_comm]

private theorem foldl_depart (persistentPeerIDs : ID → Bool) (now : ℤ) (seen : Finset ID)
    {known : List ID} (distinct : known.Nodup) (a : Adapter ID) :
    let a' := known.foldl (Adapter.depart persistentPeerIDs now seen) a
    a'.firstSeen.keys.toFinset = a.firstSeen.keys.toFinset \ (known.toFinset \ seen) ∧
      a'.churnEvents = a.churnEvents ++ List.replicate
        (counted persistentPeerIDs (known.toFinset \ seen)).card now := by
  induction known generalizing a with
  | nil => simp [counted]
  | cons id known ih =>
      obtain ⟨absent, distinct'⟩ := List.nodup_cons.mp distinct
      obtain ⟨keys, events⟩ := ih distinct' (a.depart persistentPeerIDs now seen id)
      simp only [List.foldl_cons, keys, events, List.toFinset_cons]
      by_cases connected : id ∈ seen
      · simp only [Adapter.depart, if_pos connected]
        rw [Finset.insert_sdiff_of_mem _ connected]
        exact ⟨rfl, rfl⟩
      · simp only [Adapter.depart, if_neg connected, logChurn_eq]
        rw [Finset.insert_sdiff_of_notMem _ connected]
        have fresh : id ∉ known.toFinset \ seen := by
          simp [absent]
        refine ⟨?_, ?_⟩
        · ext other
          simp only [AList.keys_erase, Finset.mem_sdiff, List.mem_toFinset, Finset.mem_insert,
            a.firstSeen.keys_nodup.mem_erase_iff]
          tauto
        · rw [card_counted_insert fresh, List.append_assoc, List.replicate_append_replicate,
            Nat.add_comm]

private theorem card_counted_symmDiff (old new : Finset ID) :
    (counted persistentPeerIDs (symmDiff old new)).card =
      (counted persistentPeerIDs (new \ old)).card +
        (counted persistentPeerIDs (old \ new)).card := by
  have disjoint : Disjoint (counted persistentPeerIDs (new \ old))
      (counted persistentPeerIDs (old \ new)) := by
    rw [Finset.disjoint_left]
    intro id arrived departed
    have inside := (Finset.mem_sdiff.mp (Finset.mem_of_mem_filter _ arrived)).1
    exact (Finset.mem_sdiff.mp (Finset.mem_of_mem_filter _ departed)).2 inside
  rw [← Finset.card_union_of_disjoint disjoint]
  congr 1
  ext id
  simp only [counted, Finset.mem_filter, Finset.mem_union, Finset.mem_symmDiff, Finset.mem_sdiff]
  tauto

/-- One call remembers exactly the connected peers, logs the changes since the call before
and forgets what is an hour old. -/
theorem peerHealthSnapshot_spec (persistentPeerIDs : ID → Bool) (now : ℤ)
    (seconds : Int64 → UInt64) (a : Adapter ID) (peers : List (Peer ID)) :
    let r := a.peerHealthSnapshot persistentPeerIDs now seconds peers
    r.1.firstSeen.keys.toFinset = ids peers ∧
      r.1.churnEvents = (a.churnEvents ++ List.replicate (counted persistentPeerIDs
        (symmDiff a.firstSeen.keys.toFinset (ids peers))).card now).filter
          (fun t => now - p2pChurnWindow < t) ∧
      r.2.churnRate = r.1.churnEvents.length.toUInt64 := by
  obtain ⟨keys, seen, events⟩ := foldl_visit persistentPeerIDs now peers
    { firstSeen := a.firstSeen, churnEvents := a.churnEvents }
  simp only [Finset.empty_union] at seen
  unfold Adapter.peerHealthSnapshot
  simp only
  generalize peers.foldl (Scan.visit persistentPeerIDs now)
    { firstSeen := a.firstSeen, churnEvents := a.churnEvents } = s at *
  obtain ⟨keys', events'⟩ := foldl_depart persistentPeerIDs now s.seen s.firstSeen.keys_nodup
    ⟨s.firstSeen, s.churnEvents⟩
  simp only [keys, seen, Finset.union_sdiff_right] at keys' events'
  refine ⟨?_, ?_, trivial⟩
  · rw [seen, keys']
    ext id
    simp only [Finset.mem_sdiff, Finset.mem_union]
    tauto
  · rw [seen, events', events, card_counted_symmDiff, List.append_assoc,
      List.replicate_append_replicate]

end Loops

structure Call (ID : Type) where
  now : ℤ
  peers : List (Peer ID)

section Sequence

variable (persistentPeerIDs : ID → Bool) (seconds : Int64 → UInt64) (call : ℕ → Call ID)

/-- The adapter before call `k` of a sequence. -/
def before : ℕ → Adapter ID
  | 0 => {}
  | k + 1 => ((before k).peerHealthSnapshot persistentPeerIDs (call k).now seconds
      (call k).peers).1

def returned (k : ℕ) : P2PSnapshot :=
  ((before persistentPeerIDs seconds call k).peerHealthSnapshot persistentPeerIDs (call k).now
    seconds (call k).peers).2

def peersAt (k : ℕ) : Finset ID := ids (call k).peers

def peersBefore : ℕ → Finset ID
  | 0 => ∅
  | k + 1 => peersAt call k

def changes (j : ℕ) : Finset ID :=
  counted persistentPeerIDs (symmDiff (peersBefore call j) (peersAt call j))

/-- The changes up to call `k` that are younger than an hour when it runs: pairs of a call
and a peer. -/
def churnPairs (k : ℕ) : Set (ℕ × ID) :=
  {e | e.1 ≤ k ∧ persistentPeerIDs e.2 = false ∧
    Xor (e.2 ∈ peersBefore call e.1) (e.2 ∈ peersAt call e.1) ∧
    (call k).now - p2pChurnWindow < (call e.1).now}

variable {persistentPeerIDs seconds call}

theorem toFinset_keys_before (k : ℕ) :
    (before persistentPeerIDs seconds call k).firstSeen.keys.toFinset = peersBefore call k := by
  cases k with
  | zero => rfl
  | succ k => exact (peerHealthSnapshot_spec _ _ _ _ _).1

private theorem countP_churnEvents_before (k : ℕ) {t : ℤ}
    (recent : ∀ j < k, (call j).now - p2pChurnWindow ≤ t) :
    (before persistentPeerIDs seconds call k).churnEvents.countP (fun e => t < e) =
      ∑ j ∈ Finset.range k,
        if t < (call j).now then (changes persistentPeerIDs call j).card else 0 := by
  induction k with
  | zero => rfl
  | succ k ih =>
      have earlier := ih (fun j lt => recent j (by omega))
      have cutoff := recent k (by omega)
      obtain ⟨-, logged, -⟩ := peerHealthSnapshot_spec persistentPeerIDs (call k).now seconds
        (before persistentPeerIDs seconds call k) (call k).peers
      rw [toFinset_keys_before] at logged
      have young : ∀ e : ℤ, (decide (t < e) && decide ((call k).now - p2pChurnWindow < e)) =
          decide (t < e) := by
        intro e
        rw [Bool.eq_iff_iff, Bool.and_eq_true, decide_eq_true_eq, decide_eq_true_eq]
        omega
      rw [before, logged, List.countP_filter, Finset.sum_range_succ, ← earlier]
      simp only [young, List.countP_append, List.countP_replicate, decide_eq_true_eq]
      rfl

private theorem churnRate_returned (k : ℕ) : (returned persistentPeerIDs seconds call k).churnRate =
    (before persistentPeerIDs seconds call (k + 1)).churnEvents.length.toUInt64 :=
  (peerHealthSnapshot_spec _ _ _ _ _).2.2

private theorem length_churnEvents_before (k : ℕ) (ordered : Monotone fun j => (call j).now) :
    (before persistentPeerIDs seconds call (k + 1)).churnEvents.length =
      ∑ j ∈ Finset.range (k + 1), if (call k).now - p2pChurnWindow < (call j).now then
        (changes persistentPeerIDs call j).card else 0 := by
  refine (List.countP_eq_length.mpr ?_).symm.trans (countP_churnEvents_before (k + 1) ?_)
  · intro e logged
    rw [before, (peerHealthSnapshot_spec _ _ _ _ _).2.1] at logged
    exact (List.mem_filter.mp logged).2
  · intro j lt
    have earlier : (call j).now ≤ (call k).now := ordered (by omega)
    omega

private theorem ncard_churnPairs (k : ℕ) : (churnPairs persistentPeerIDs call k).ncard =
    ∑ j ∈ Finset.range (k + 1), if (call k).now - p2pChurnWindow < (call j).now then
      (changes persistentPeerIDs call j).card else 0 := by
  let young : ℕ → Finset ID := fun j =>
    if (call k).now - p2pChurnWindow < (call j).now then changes persistentPeerIDs call j else ∅
  have same : churnPairs persistentPeerIDs call k =
      (((Finset.range (k + 1)).sigma young).map (Equiv.sigmaEquivProd ℕ ID).toEmbedding :
        Set (ℕ × ID)) := by
    ext ⟨j, id⟩
    rw [Finset.mem_coe, Finset.mem_map_equiv]
    change _ ↔ (⟨j, id⟩ : Σ _ : ℕ, ID) ∈ (Finset.range (k + 1)).sigma young
    rw [Finset.mem_sigma, Finset.mem_range, Nat.lt_succ_iff]
    change (j ≤ k ∧ _ ∧ _ ∧ _) ↔ j ≤ k ∧ id ∈ young j
    simp only [young]
    split_ifs with recent
    · simp [recent, changes, counted, countsAsChurn, Finset.mem_symmDiff, Xor, and_comm]
    · simp [recent]
  rw [same, Set.ncard_coe_finset, Finset.card_map, Finset.card_sigma]
  refine Finset.sum_congr rfl (fun j _ => ?_)
  simp only [young]
  split_ifs <;> rfl

/-- The churn rate of every call is the number of counted changes of the last hour. -/
theorem churnRate_exact (persistentPeerIDs : ID → Bool) (seconds : Int64 → UInt64)
    (call : ℕ → Call ID) (ordered : Monotone fun j => (call j).now) (k : ℕ) :
    (before persistentPeerIDs seconds call (k + 1)).churnEvents.length =
        (churnPairs persistentPeerIDs call k).ncard ∧
      (returned persistentPeerIDs seconds call k).churnRate =
        (churnPairs persistentPeerIDs call k).ncard.toUInt64 := by
  rw [churnRate_returned, length_churnEvents_before k ordered, ncard_churnPairs]
  exact ⟨rfl, rfl⟩

def visitorCalls (j : ℕ) : Call ℕ :=
  ⟨j * 1800000000000, if j = 0 then [⟨0, none, 0, 0⟩, ⟨1, none, 0, 0⟩] else [⟨0, none, 0, 0⟩]⟩

theorem churnRate_exact_visitor :
    (returned (· == 0) (fun _ => 0) visitorCalls 1).churnRate = 2 ∧
      (churnPairs (· == 0) visitorCalls 1).ncard = 2 := by
  have ordered : Monotone fun j => (visitorCalls j).now := by
    intro j j' le
    simp only [visitorCalls]
    omega
  have agreed := churnRate_exact (· == 0) (fun _ => 0) visitorCalls ordered 1
  have logged : (before (· == 0) (fun _ => 0) visitorCalls 2).churnEvents.length = 2 := by
    decide
  rw [← agreed.1, agreed.2, ← agreed.1, logged]
  exact ⟨rfl, rfl⟩

end Sequence

end PeerHealth

end Engram.Node
