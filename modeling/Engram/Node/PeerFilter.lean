import Engram.Node.PeerHealth
import Engram.Types.Params
import Engram.Types.RecoveryHeader
import Engram.Library.GuardedRun
import Mathlib.Algebra.Order.BigOperators.Group.Finset

/-!
The ingress filter. A connection is checked against the peers connected at that moment,
and becomes a peer only when its handshake is done; between the two the filter does not
count it.
-/

set_option autoImplicit false
set_option relaxedAutoImplicit false

namespace Engram.Types

/-- An address as the network library holds it, in four or sixteen bytes. -/
abbrev IP := Bytes

def IP.to4 (ip : IP) : Option Bytes :=
  if ip.length = 4 then some ip
  else if ip.length = 16 ∧ ip.take 12 = List.replicate 10 0 ++ [255, 255] then some (ip.drop 12)
  else none

/-- A group of an IPv6 address in hexadecimal, without leading zeros. -/
def hexGroup (hi lo : UInt8) : String :=
  String.ofList (Nat.toDigits 16 (hi.toNat * 256 + lo.toNat))

/-- The groups before the trailing zeros. The zeros behind a /48 are the longest run. -/
def leadingGroups (groups : List (UInt8 × UInt8)) : List (UInt8 × UInt8) :=
  (groups.reverse.dropWhile (fun g => g.1 == 0 && g.2 == 0)).reverse

/-- `SubnetOf`: the text of the /24 of an IPv4 address, of the /48 of an IPv6 address. Of
any other length the mask is nil. -/
def subnetOf (ip : IP) : String :=
  match ip.to4 with
  | some v4 => s!"{(v4.getD 0 0).toNat}.{(v4.getD 1 0).toNat}.{(v4.getD 2 0).toNat}.0"
  | none =>
      if ip.length = 16 then
        ":".intercalate ((leadingGroups [(ip.getD 0 0, ip.getD 1 0), (ip.getD 2 0, ip.getD 3 0),
          (ip.getD 4 0, ip.getD 5 0)]).map fun g => hexGroup g.1 g.2) ++ "::"
      else "<nil>"

example : subnetOf (List.replicate 10 0 ++ [255, 255, 10, 0, 0, 7]) = "10.0.0.0" := by
  decide +kernel

end Engram.Types

namespace Engram.Node.PeerFilter

open Engram.Types Engram.Library Engram.Node.PeerHealth

variable {ID : Type}

/-- How the network library reads an address: the host before a port, and the address a
host text denotes. -/
structure Net where
  splitHostPort : String → Option String
  parseIP : String → Option IP

/-- The subnet an address is counted in. A text without a port is read as a host. -/
def Net.subnet (net : Net) (info : String) : Option String :=
  (net.parseIP ((net.splitHostPort info).getD info)).map subnetOf

structure ResponseQuery where
  code : ℕ := 0
  log : String := ""
  deriving DecidableEq

/-- `PeerCountInSubnet`. -/
def peerCountInSubnet (peers : List (Peer ID)) (subnet : String) : UInt64 :=
  peers.foldl (fun count p => if p.subnet = some subnet then count + 1 else count) 0

/-- `FilterPeerByAddr`; it accepts before a source is wired and every address it cannot
read. -/
def filterPeerByAddr (p : Params) (net : Net) (src : Option (String → UInt64)) (info : String) :
    ResponseQuery :=
  match src with
  | none => {}
  | some peerCount =>
      match net.subnet info with
      | none => {}
      | some subnet =>
          if peerCount subnet ≥ p.maxPeersPerSubnet then
            ⟨1, "rejected: MaxPeersPerSubnet reached for this peer's subnet"⟩
          else {}

/-- The peers of a switch, and the connections that passed the filter and are not peers
yet. -/
structure Switch (ID : Type) where
  peers : List (Peer ID) := []
  handshaking : List String := []

/-- What happens at the switch: a connection arrives at the filter, a handshake ends with a
peer or without one, a peer leaves. -/
inductive Event (ID : Type) where
  | dial (info : String)
  | join (info : String) (peer : Peer ID)
  | fail (info : String)
  | leave (index : ℕ)

def connected (s : Switch ID) (subnet : String) : ℕ :=
  s.peers.countP (fun p => p.subnet = some subnet)

def pending (net : Net) (s : Switch ID) (subnet : String) : ℕ :=
  s.handshaking.countP (fun info => net.subnet info = some subnet)

/-- One event. A peer is counted under the address it connected from. -/
def switchStep (p : Params) (net : Net) (s : Switch ID) : Event ID → Option (Switch ID)
  | .dial info =>
      if (filterPeerByAddr p net (some (peerCountInSubnet s.peers)) info).code = 0 then
        some { s with handshaking := info :: s.handshaking }
      else some s
  | .join info peer =>
      if info ∈ s.handshaking ∧ peer.subnet = net.subnet info then
        some ⟨peer :: s.peers, s.handshaking.erase info⟩
      else none
  | .fail info => some { s with handshaking := s.handshaking.erase info }
  | .leave index => some { s with peers := s.peers.eraseIdx index }

section Bound

variable {p : Params} {net : Net} {s s' : Switch ID} {subnet : String}

private theorem toNat_peerCountInSubnet (fits : connected s subnet < 2 ^ 64) :
    (peerCountInSubnet s.peers subnet).toNat = connected s subnet := by
  have counted : ∀ (peers : List (Peer ID)) (count : UInt64),
      count.toNat + peers.countP (fun p => p.subnet = some subnet) < 2 ^ 64 →
      (peers.foldl (fun count p => if p.subnet = some subnet then count + 1 else count)
        count).toNat = count.toNat + peers.countP (fun p => p.subnet = some subnet) := by
    intro peers
    induction peers with
    | nil => intros; rfl
    | cons peer peers ih =>
        intro count room
        rw [List.foldl_cons]
        by_cases here : peer.subnet = some subnet
        · rw [List.countP_cons_of_pos (by simpa using here)] at room ⊢
          have next : (count + 1).toNat = count.toNat + 1 := by
            rw [UInt64.toNat_add]
            exact Nat.mod_eq_of_lt (by change count.toNat + 1 < _; omega)
          rw [if_pos here, ih _ (by omega), next]
          omega
        · rw [List.countP_cons_of_neg (by simpa using here)] at room ⊢
          rw [if_neg here, ih _ room]
  have total := counted s.peers 0 (by simpa [connected] using fits)
  simpa [peerCountInSubnet, connected] using total

end Bound

/-- A run of the switch from its start. -/
abbrev SwitchRun (p : Params) (net : Net) (past : List (Move (Switch ID) (Event ID)))
    (now : Switch ID) : Prop :=
  Run (switchStep p net) {} past now

/-- No subnet ever has more than so many handshakes open at once. -/
def OpenHandshakes (net : Net) (past : List (Move (Switch ID) (Event ID))) (handshakes : ℕ) :
    Prop :=
  ∀ m ∈ past, ∀ subnet, pending net m.target subnet ≤ handshakes

section Runs

variable {p : Params} {net : Net} {past : List (Move (Switch ID) (Event ID))} {now : Switch ID}
  {handshakes : ℕ}

private theorem subnets_foldl_visit [DecidableEq ID] (persistentPeerIDs : ID → Bool) (time : ℤ)
    (peers : List (Peer ID)) (s : Scan ID) :
    (peers.foldl (Scan.visit persistentPeerIDs time) s).subnets =
      s.subnets ∪ (peers.filterMap Peer.subnet).toFinset := by
  induction peers generalizing s with
  | nil => simp
  | cons peer peers ih =>
      rw [List.foldl_cons, ih]
      cases address : peer.subnet with
      | none => simp [Scan.visit, address]
      | some subnet =>
          simp [Scan.visit, address]

theorem subnetDiversity_eq [DecidableEq ID] (persistentPeerIDs : ID → Bool) (time : ℤ)
    (seconds : Int64 → UInt64) (a : Adapter ID) {peers : List (Peer ID)}
    (fits : peers.length < 2 ^ 64) :
    (a.peerHealthSnapshot persistentPeerIDs time seconds peers).2.subnetDiversity.toNat =
      (peers.filterMap Peer.subnet).toFinset.card := by
  have few : (peers.filterMap Peer.subnet).toFinset.card < 2 ^ 64 :=
    ((List.toFinset_card_le _).trans (List.length_filterMap_le _ _)).trans_lt fits
  simp only [Adapter.peerHealthSnapshot, subnets_foldl_visit, Finset.empty_union]
  exact UInt64.toNat_ofNat_of_lt' few

section Crowd

variable {info : String} {peer : Peer ID} {subnet : String}

/-- A switch crowded by one address. -/
def crowd (info : String) (peer : Peer ID) (a b : ℕ) : Switch ID :=
  ⟨List.replicate a peer, List.replicate b info⟩

private theorem connected_crowd (address : peer.subnet = some subnet) (a b : ℕ) :
    connected (crowd info peer a b) subnet = a := by
  rw [connected, crowd, List.countP_replicate, if_pos (by simpa using address)]

def Reached (p : Params) (net : Net) (handshakes : ℕ) (now : Switch ID) : Prop :=
  ∃ past, SwitchRun p net past now ∧ OpenHandshakes net past handshakes

theorem Reached.extend {now next : Switch ID} (reached : Reached p net handshakes now)
    {event : Event ID} (stepped : switchStep p net now event = some next)
    (few : next.handshaking.length ≤ handshakes) : Reached p net handshakes next := by
  obtain ⟨past, run, before⟩ := reached
  refine ⟨_, run.extend stepped, List.forall_mem_cons.mpr ⟨?_, before⟩⟩
  intro subnet
  exact List.countP_le_length.trans few

private theorem Reached.dial {a b : ℕ} (here : net.subnet info = some subnet)
    (address : peer.subnet = some subnet) (free : a < p.maxPeersPerSubnet.toNat)
    (few : b + 1 ≤ handshakes) (reached : Reached p net handshakes (crowd info peer a b)) :
    Reached p net handshakes (crowd info peer a (b + 1)) := by
  have count : connected (crowd info peer a b) subnet = a := connected_crowd address a b
  have word := p.maxPeersPerSubnet.toNat_lt
  have below : ¬ peerCountInSubnet (crowd info peer a b).peers subnet ≥ p.maxPeersPerSubnet := by
    rw [ge_iff_le, not_le, UInt64.lt_iff_toNat_lt, toNat_peerCountInSubnet (by omega), count]
    exact free
  have stepped : switchStep p net (crowd info peer a b) (.dial info) =
      some (crowd info peer a (b + 1)) := by
    simp only [switchStep, filterPeerByAddr, here, if_neg below, if_true]
    rfl
  exact reached.extend stepped (by simpa [crowd] using few)

private theorem Reached.join {a b : ℕ} (here : net.subnet info = some subnet)
    (address : peer.subnet = some subnet) (few : b ≤ handshakes)
    (reached : Reached p net handshakes (crowd info peer a (b + 1))) :
    Reached p net handshakes (crowd info peer (a + 1) b) := by
  have stepped : switchStep p net (crowd info peer a (b + 1)) (.join info peer) =
      some (crowd info peer (a + 1) b) := by
    simp only [switchStep, crowd, List.replicate_succ, List.mem_cons, true_or, address, here,
      and_self, if_true, List.erase_cons_head]
  exact reached.extend stepped (by simpa [crowd] using few)

end Crowd

end Runs

end Engram.Node.PeerFilter
