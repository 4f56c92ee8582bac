import Engram.Library.GuardedRun
import Engram.Library.Leases

/-!
`SubmitOpReturn` of several validators against the one wallet they share. Every RPC is one
step, so calls interleave freely between their RPCs; bitcoind can refuse a request, and a
request can get lost on its way, on its way back, or be served after the caller gave up.
Bitcoind itself is a parameter: only what it documents about its wallet is used.
-/

set_option autoImplicit false
set_option relaxedAutoImplicit false

namespace Engram.Node.Wallet

open Engram.Library

universe u

/-- The shape of `lockunspent` and of the `vin` entries. -/
structure UtxoRef where
  txid : String
  vout : UInt32
  deriving DecidableEq

/-- The outputs of a wallet: those it can spend, those of them it keeps out of its coin
selection, and those it saw spent. -/
structure Coins where
  unspent : Finset UtxoRef
  locked : Finset UtxoRef
  spent : Finset UtxoRef

namespace Coins

def lock (w : Coins) (vin : Finset UtxoRef) : Coins := { w with locked := w.locked ∪ vin }

def unlock (w : Coins) (vin : Finset UtxoRef) : Coins := { w with locked := w.locked \ vin }

/-- A lock goes with the output it is on. -/
def spend (w : Coins) (vin : Finset UtxoRef) : Coins where
  unspent := w.unspent \ vin
  locked := w.locked \ vin
  spent := w.spent ∪ vin

def unlockAll (w : Coins) : Coins := { w with locked := ∅ }

/-- Outputs arrived that the wallet had not seen spent. -/
structure Receives (w w' : Coins) : Prop where
  unspent : w.unspent ⊆ w'.unspent
  locked : w'.locked = w.locked
  spent : w'.spent = w.spent
  fresh : Disjoint (w'.unspent \ w.unspent) w.spent

end Coins

/-- The RPCs that change the wallet. -/
inductive Request (τ : Type u)
  | fundrawtransaction (raw : τ)
  | lockunspent (vin : Finset UtxoRef)
  | sendrawtransaction (signed : τ)

/-- A bitcoind with states `β`, texts of raw transactions `τ` and changes `δ` that no caller
asked for. An answer is none for an RPC error, whatever its cause. -/
structure Bitcoind (β τ δ : Type u) where
  wallet : β → Coins
  inputs : τ → Finset UtxoRef
  createrawtransaction : β → List UInt8 → Option τ
  fundrawtransaction : β → τ → β × Option τ
  decoderawtransaction : β → τ → Option (Finset UtxoRef)
  signrawtransactionwithwallet : β → τ → Option (τ × Bool)
  sendrawtransaction : β → τ → β × Option String
  lockunspent : β → Finset UtxoRef → β × Bool
  restart : β → β
  change : β → δ → β

/-- What a request leaves, and whether it succeeds. -/
def Bitcoind.serve {β τ δ : Type u} (node : Bitcoind β τ δ) (b : β) : Request τ → β × Bool
  | .fundrawtransaction raw =>
      ((node.fundrawtransaction b raw).1, (node.fundrawtransaction b raw).2.isSome)
  | .lockunspent vin => node.lockunspent b vin
  | .sendrawtransaction signed =>
      ((node.sendrawtransaction b signed).1, (node.sendrawtransaction b signed).2.isSome)

/-- What bitcoind documents. `fundrawtransaction` is called with `lockUnspents`; locks are
kept in memory only; and no one but the callers spends from the wallet. -/
structure Bitcoind.Documented {β τ δ : Type u} (node : Bitcoind β τ δ) : Prop where
  refused : ∀ b request, (node.serve b request).2 = false →
    node.wallet (node.serve b request).1 = node.wallet b
  funded : ∀ b raw hex, (node.fundrawtransaction b raw).2 = some hex →
    node.inputs hex ⊆ (node.wallet b).unspent \ (node.wallet b).locked ∧
      node.wallet (node.fundrawtransaction b raw).1 = (node.wallet b).lock (node.inputs hex)
  decoded : ∀ b hex vin, node.decoderawtransaction b hex = some vin → vin = node.inputs hex
  signed : ∀ b hex hex' complete,
    node.signrawtransactionwithwallet b hex = some (hex', complete) →
      node.inputs hex' = node.inputs hex
  sent : ∀ b hex txid, (node.sendrawtransaction b hex).2 = some txid →
    node.wallet (node.sendrawtransaction b hex).1 = (node.wallet b).spend (node.inputs hex)
  unlocked : ∀ b vin, (node.lockunspent b vin).2 = true →
    vin ⊆ (node.wallet b).unspent ∩ (node.wallet b).locked ∧
      node.wallet (node.lockunspent b vin).1 = (node.wallet b).unlock vin
  restarted : ∀ b, node.wallet (node.restart b) = (node.wallet b).unlockAll
  changed : ∀ b change, (node.wallet b).Receives (node.wallet (node.change b change))

/-- The fate of a request: served and answered; served with the answer lost; never served;
still to be served when the caller has given up. -/
inductive Reply
  | answered
  | lost
  | unserved
  | late
  deriving DecidableEq

/-- What the caller learns of an answer. -/
def Reply.heard {α : Type u} (answer : Option α) : Reply → Option α
  | .answered => answer
  | .lost | .unserved | .late => none

inductive SubmitError
  | createrawtransaction
  | fundrawtransaction
  | decoderawtransaction
  | signrawtransactionwithwallet
  | incompleteSignature
  | sendrawtransaction
  deriving DecidableEq

/-- Where a validator is in `SubmitOpReturn`: the RPC it makes next with its local variables,
or what its last call returned. `lockunspent` is the deferred call, made with the result
already fixed. -/
inductive Phase (τ : Type u)
  | returned (result : Option (Except SubmitError String))
  | createrawtransaction (payload : List UInt8)
  | fundrawtransaction (rawHex : τ)
  | decoderawtransaction (funded : τ)
  | signrawtransactionwithwallet (funded : τ) (vin : Finset UtxoRef)
  | sendrawtransaction (signed : τ) (vin : Finset UtxoRef)
  | lockunspent (vin : Finset UtxoRef) (result : Except SubmitError String)

/-- The return statements below the deferred call, which is registered for inputs only. -/
def Phase.leave {τ : Type u} (vin : Finset UtxoRef) (result : Except SubmitError String) :
    Phase τ :=
  if vin = ∅ then .returned (some result) else .lockunspent vin result

structure System (ι β τ : Type u) where
  bitcoind : β
  late : List (Request τ)
  phase : ι → Phase τ

inductive Event (ι δ : Type u)
  | submitOpReturn (i : ι) (payload : List UInt8)
  | createrawtransaction (i : ι) (reply : Reply)
  | fundrawtransaction (i : ι) (reply : Reply)
  | decoderawtransaction (i : ι) (reply : Reply)
  | signrawtransactionwithwallet (i : ι) (reply : Reply)
  | sendrawtransaction (i : ι) (reply : Reply)
  | lockunspent (i : ι) (reply : Reply)
  | serveLate (k : ℕ)
  | dropLate (k : ℕ)
  | change (d : δ)
  | restart

namespace System

variable {ι β τ δ : Type u}

/-- Bitcoind and the queue of late requests after a request met its fate. -/
def exchange (node : Bitcoind β τ δ) (s : System ι β τ) (request : Request τ) :
    Reply → System ι β τ
  | .answered | .lost => { s with bitcoind := (node.serve s.bitcoind request).1 }
  | .unserved => s
  | .late => { s with late := s.late ++ [request] }

variable [DecidableEq ι]

def goto (s : System ι β τ) (i : ι) (phase : Phase τ) : System ι β τ :=
  { s with phase := Function.update s.phase i phase }

def fail (s : System ι β τ) (i : ι) (error : SubmitError) : System ι β τ :=
  s.goto i (.returned (some (.error error)))

def step (node : Bitcoind β τ δ) (s : System ι β τ) : Event ι δ → Option (System ι β τ)
  | .submitOpReturn i payload =>
      match s.phase i with
      | .returned _ => some (s.goto i (.createrawtransaction payload))
      | _ => none
  | .createrawtransaction i reply =>
      match s.phase i with
      | .createrawtransaction payload =>
          some (match reply.heard (node.createrawtransaction s.bitcoind payload) with
            | some rawHex => s.goto i (.fundrawtransaction rawHex)
            | none => s.fail i .createrawtransaction)
      | _ => none
  | .fundrawtransaction i reply =>
      match s.phase i with
      | .fundrawtransaction rawHex =>
          let s' := s.exchange node (.fundrawtransaction rawHex) reply
          some (match reply.heard (node.fundrawtransaction s.bitcoind rawHex).2 with
            | some funded => s'.goto i (.decoderawtransaction funded)
            | none => s'.fail i .fundrawtransaction)
      | _ => none
  | .decoderawtransaction i reply =>
      match s.phase i with
      | .decoderawtransaction funded =>
          some (match reply.heard (node.decoderawtransaction s.bitcoind funded) with
            | some vin => s.goto i (.signrawtransactionwithwallet funded vin)
            | none => s.fail i .decoderawtransaction)
      | _ => none
  | .signrawtransactionwithwallet i reply =>
      match s.phase i with
      | .signrawtransactionwithwallet funded vin =>
          some (s.goto i (
            match reply.heard (node.signrawtransactionwithwallet s.bitcoind funded) with
            | some (signed, complete) =>
                if complete then .sendrawtransaction signed vin
                else .leave vin (.error .incompleteSignature)
            | none => .leave vin (.error .signrawtransactionwithwallet)))
      | _ => none
  | .sendrawtransaction i reply =>
      match s.phase i with
      | .sendrawtransaction signed vin =>
          some ((s.exchange node (.sendrawtransaction signed) reply).goto i (.leave vin (
            match reply.heard (node.sendrawtransaction s.bitcoind signed).2 with
            | some txid => .ok txid
            | none => .error .sendrawtransaction)))
      | _ => none
  | .lockunspent i reply =>
      match s.phase i with
      | .lockunspent vin result =>
          some ((s.exchange node (.lockunspent vin) reply).goto i (.returned (some result)))
      | _ => none
  | .serveLate k =>
      match s.late[k]? with
      | some request =>
          some { s with
            bitcoind := (node.serve s.bitcoind request).1
            late := s.late.eraseIdx k }
      | none => none
  | .dropLate k =>
      if k < s.late.length then some { s with late := s.late.eraseIdx k } else none
  | .change d => some { s with bitcoind := node.change s.bitcoind d }
  | .restart => some { s with bitcoind := node.restart s.bitcoind, late := [] }

def Quiet (s : System ι β τ) : Prop := ∀ i, ∃ result, s.phase i = .returned result

end System

structure Fresh {ι β τ δ : Type u} (node : Bitcoind β τ δ) (s : System ι β τ) : Prop where
  locked : (node.wallet s.bitcoind).locked = ∅
  late : s.late = []
  phase : ∀ i, s.phase i = .returned none
  apart : Disjoint (node.wallet s.bitcoind).unspent (node.wallet s.bitcoind).spent

/-! The outputs a call or a late `lockunspent` answers for, and those nobody answers for. -/

section Claims

variable {ι β τ δ : Type u} (node : Bitcoind β τ δ)

def Phase.claim : Phase τ → Finset UtxoRef
  | .decoderawtransaction funded => node.inputs funded
  | .signrawtransactionwithwallet _ vin | .sendrawtransaction _ vin | .lockunspent vin _ => vin
  | .returned _ | .createrawtransaction _ | .fundrawtransaction _ => ∅

def Request.claim : Request τ → Multiset UtxoRef
  | .lockunspent vin => vin.val
  | .fundrawtransaction _ | .sendrawtransaction _ => 0

def Reply.served : Reply → Bool
  | .answered | .lost => true
  | .unserved | .late => false

/-- The locks left behind by a request whose outcome reaches nobody. -/
def Request.orphaned (b : β) (served : Bool) : Request τ → Finset UtxoRef
  | .fundrawtransaction raw =>
      if served then ((node.fundrawtransaction b raw).2.map node.inputs).getD ∅ else ∅
  | .lockunspent vin =>
      if served && (node.lockunspent b vin).2 then ∅ else vin ∩ (node.wallet b).unspent
  | .sendrawtransaction _ => ∅

/-- The locks a step leaves behind: a funding whose answer got lost, a funded transaction that
could not be decoded, an unlock that was not carried out. -/
def Event.leak (s : System ι β τ) : Event ι δ → Finset UtxoRef
  | .fundrawtransaction i reply =>
      match reply, s.phase i with
      | .lost, .fundrawtransaction rawHex =>
          (Request.fundrawtransaction rawHex).orphaned node s.bitcoind true
      | _, _ => ∅
  | .decoderawtransaction i reply =>
      match s.phase i with
      | .decoderawtransaction funded =>
          if (reply.heard (node.decoderawtransaction s.bitcoind funded)).isSome then ∅
          else node.inputs funded ∩ (node.wallet s.bitcoind).unspent
      | _ => ∅
  | .lockunspent i reply =>
      if reply = .late then ∅
      else (Request.lockunspent ((s.phase i).claim node)).orphaned node s.bitcoind reply.served
  | .serveLate k => ((s.late[k]?).map (Request.orphaned node s.bitcoind true)).getD ∅
  | .dropLate k => ((s.late[k]?).map (Request.orphaned node s.bitcoind false)).getD ∅
  | .submitOpReturn _ _ | .createrawtransaction _ _ | .signrawtransactionwithwallet _ _
  | .sendrawtransaction _ _ | .change _ | .restart => ∅

end Claims

section Runs

variable {ι β τ δ : Type u}

end Runs

/-! The wallet against a multiset of claims. -/

/-- The locks are the claims on unspent outputs, each claimed once. -/
structure Ledger (w : Coins) (claims : Multiset UtxoRef) : Prop where
  apart : Disjoint w.unspent w.spent
  known : ∀ utxo ∈ claims, utxo ∈ w.unspent ∪ w.spent
  backed : w.locked.val = claims.filter (· ∈ w.unspent)

namespace Ledger

section Coins

variable {w w' : Coins} {claims rest : Multiset UtxoRef} {vin : Finset UtxoRef}

private theorem unlock (ledger : Ledger w (rest + vin.val)) (held : vin ⊆ w.unspent ∩ w.locked) :
    Ledger (w.unlock vin) rest := by
  refine ⟨ledger.apart, fun utxo member =>
    ledger.known utxo (Multiset.mem_add.mpr (.inl member)), ?_⟩
  refine Leases.eq_val_sdiff ?_
  rw [ledger.backed, Multiset.filter_add]
  congr 1
  exact Multiset.filter_eq_self.mpr fun utxo member =>
    (Finset.mem_inter.mp (held member)).1

private theorem spend (ledger : Ledger w claims) (vin : Finset UtxoRef) :
    Ledger (w.spend vin) claims := by
  refine ⟨?_, ?_, Leases.val_sdiff_eq_filter ledger.backed⟩
  · show Disjoint (w.unspent \ vin) (w.spent ∪ vin)
    rw [Finset.disjoint_union_right]
    exact ⟨ledger.apart.mono_left Finset.sdiff_subset, Finset.sdiff_disjoint⟩
  · intro utxo member
    show utxo ∈ w.unspent \ vin ∪ (w.spent ∪ vin)
    have known := ledger.known utxo member
    simp only [Finset.mem_union, Finset.mem_sdiff] at known ⊢
    tauto

private theorem giveUp (ledger : Ledger w (rest + vin.val)) :
    Ledger w (rest + (vin ∩ w.unspent).val) := by
  refine ⟨ledger.apart, ?_, ?_⟩
  · intro utxo member
    refine ledger.known utxo ?_
    rw [Multiset.mem_add] at member ⊢
    exact member.imp_right fun both => (Finset.mem_inter.mp both).1
  · rw [ledger.backed, Multiset.filter_add, Multiset.filter_add]
    congr 1
    rw [← Finset.filter_val, ← Finset.filter_val, Finset.val_inj]
    ext utxo
    simp only [Finset.mem_filter, Finset.mem_inter]
    tauto

theorem receive (ledger : Ledger w claims) (receives : w.Receives w') : Ledger w' claims := by
  have apart : Disjoint w'.unspent w'.spent := by
    rw [receives.spent, ← Finset.sdiff_union_of_subset receives.unspent]
    exact Finset.disjoint_union_left.mpr ⟨receives.fresh, ledger.apart⟩
  refine ⟨apart, ?_, ?_⟩
  · intro utxo member
    rw [receives.spent]
    exact Finset.union_subset_union_left receives.unspent (ledger.known utxo member)
  · rw [receives.locked, ledger.backed]
    refine Multiset.filter_congr fun utxo member => ⟨fun old => receives.unspent old, fun new => ?_⟩
    refine (Finset.mem_union.mp (ledger.known utxo member)).resolve_right fun spent => ?_
    exact Finset.disjoint_left.mp apart new (receives.spent ▸ spent)

end Coins

section Requests

variable {β τ δ : Type u} {node : Bitcoind β τ δ} {b : β} {claims rest : Multiset UtxoRef}

private theorem unserved (request : Request τ)
    (ledger : Ledger (node.wallet b) (rest + request.claim)) :
    Ledger (node.wallet b) (rest + (request.orphaned node b false).val) := by
  cases request with
  | fundrawtransaction raw => simpa [Request.orphaned, Request.claim] using ledger
  | lockunspent vin =>
      have start : Ledger (node.wallet b) (rest + vin.val) := ledger
      simpa [Request.orphaned] using start.giveUp
  | sendrawtransaction signed => simpa [Request.orphaned, Request.claim] using ledger

end Requests

end Ledger

/-! The claims of all calls and late requests, step by step. -/

namespace System

variable {ι β τ δ : Type u} {node : Bitcoind β τ δ}

variable [Fintype ι]

def claims (node : Bitcoind β τ δ) (s : System ι β τ) : Multiset UtxoRef :=
  ∑ i, ((s.phase i).claim node).val + (s.late.map Request.claim).sum

variable [DecidableEq ι]

end System

section Steps

variable {ι β τ δ : Type u} [Fintype ι] [DecidableEq ι] {node : Bitcoind β τ δ}
  {s s' : System ι β τ} {rest : Multiset UtxoRef}

end Steps

section Runs

variable {ι β τ δ : Type u} [Fintype ι] [DecidableEq ι] {node : Bitcoind β τ δ}
  {start now : System ι β τ} {past : List (Move (System ι β τ) (Event ι δ))}

private theorem Ledger.exclusive {s : System ι β τ} {rest : Multiset UtxoRef}
    (ledger : Ledger (node.wallet s.bitcoind) (s.claims node + rest)) :
    (∀ i j, i ≠ j → Disjoint ((s.phase i).claim node ∩ (node.wallet s.bitcoind).unspent)
      ((s.phase j).claim node ∩ (node.wallet s.bitcoind).unspent)) ∧
    ∀ i, (s.phase i).claim node ∩ (node.wallet s.bitcoind).unspent ⊆
      (node.wallet s.bitcoind).locked := by
  have inside : ∀ i, ((s.phase i).claim node).val.filter
      (· ∈ (node.wallet s.bitcoind).unspent) =
        ((s.phase i).claim node ∩ (node.wallet s.bitcoind).unspent).val := fun i => by
    rw [← Finset.filter_val, Finset.filter_mem_eq_inter]
  have total : ∑ i, ((s.phase i).claim node ∩ (node.wallet s.bitcoind).unspent).val ≤
      (node.wallet s.bitcoind).locked.val := by
    rw [ledger.backed, System.claims, Multiset.filter_add, Multiset.filter_add]
    refine le_trans (le_of_eq ?_) ((Multiset.le_add_right _ _).trans (Multiset.le_add_right _ _))
    simp only [Leases.filter_sum, inside]
  refine ⟨fun i j distinct => ?_, fun i => ?_⟩
  · have apart := Leases.disjoint_of_sum_le total distinct
    exact Finset.disjoint_val.mp apart
  · have bounded := Leases.le_of_sum_le total i
    exact Finset.val_le_iff.mp bounded

end Runs

/-! Runs in which no `sendrawtransaction` is served late. -/

section Unsent

variable {ι β τ δ : Type u} (node : Bitcoind β τ δ)

/-- The inputs of a call that has not asked for the broadcast of its transaction. -/
def Phase.unsent : Phase τ → Finset UtxoRef
  | .decoderawtransaction funded => node.inputs funded
  | .signrawtransactionwithwallet _ vin | .sendrawtransaction _ vin => vin
  | .lockunspent vin (.error error) => if error = .sendrawtransaction then ∅ else vin
  | .lockunspent _ (.ok _) | .returned _ | .createrawtransaction _ | .fundrawtransaction _ => ∅

/-- The inputs a call has read are those of the transaction it holds. -/
def Phase.Agrees : Phase τ → Prop
  | .signrawtransactionwithwallet funded vin => node.inputs funded = vin
  | .sendrawtransaction signed vin => node.inputs signed = vin
  | .decoderawtransaction _ | .lockunspent _ _ | .returned _ | .createrawtransaction _
  | .fundrawtransaction _ => True

/-- No one else spends the inputs of a call, and no one spends what is left behind. -/
structure Unspent (s : System ι β τ) (left : Multiset UtxoRef) : Prop where
  late : ∀ signed, Request.sendrawtransaction signed ∉ s.late
  agrees : ∀ i, (s.phase i).Agrees node
  calls : ∀ i, (s.phase i).unsent node ⊆ (node.wallet s.bitcoind).unspent
  left : ∀ utxo ∈ left, utxo ∈ (node.wallet s.bitcoind).unspent

variable {node}

private theorem Phase.unsent_subset_claim (phase : Phase τ) :
    phase.unsent node ⊆ phase.claim node := by
  unfold Phase.unsent
  split
  case h_4 =>
    split
    · exact Finset.empty_subset _
    · exact Finset.Subset.refl _
  all_goals first | exact Finset.Subset.refl _ | exact Finset.empty_subset _

private theorem Phase.agrees_leave (vin : Finset UtxoRef) (result : Except SubmitError String) :
    (Phase.leave vin result : Phase τ).Agrees node := by
  unfold Phase.leave
  split <;> trivial

private theorem Bitcoind.Documented.unspent_serve (documented : node.Documented) {b : β}
    {request : Request τ} (kept : ∀ signed, request ≠ .sendrawtransaction signed) :
    (node.wallet (node.serve b request).1).unspent = (node.wallet b).unspent := by
  cases served : (node.serve b request).2 with
  | false => rw [documented.refused b request served]
  | true =>
      cases request with
      | fundrawtransaction raw =>
          obtain ⟨hex, answer⟩ := Option.isSome_iff_exists.mp served
          show (node.wallet (node.fundrawtransaction b raw).1).unspent = _
          rw [(documented.funded b raw hex answer).2]
          rfl
      | lockunspent vin =>
          show (node.wallet (node.lockunspent b vin).1).unspent = _
          rw [(documented.unlocked b vin served).2]
          rfl
      | sendrawtransaction signed => exact absurd rfl (kept signed)

private theorem Bitcoind.Documented.orphaned_subset (documented : node.Documented)
    (request : Request τ)
    (b : β) (served : Bool) : request.orphaned node b served ⊆ (node.wallet b).unspent := by
  cases request with
  | fundrawtransaction raw =>
      simp only [Request.orphaned]
      split
      · cases answer : (node.fundrawtransaction b raw).2 with
        | none => exact Finset.empty_subset _
        | some hex => exact (documented.funded b raw hex answer).1.trans Finset.sdiff_subset
      · exact Finset.empty_subset _
  | lockunspent vin =>
      simp only [Request.orphaned]
      split
      · exact Finset.empty_subset _
      · exact Finset.inter_subset_right
  | sendrawtransaction signed => exact Finset.empty_subset _

private theorem Bitcoind.Documented.leak_subset (documented : node.Documented) (s : System ι β τ)
    (event : Event ι δ) : event.leak node s ⊆ (node.wallet s.bitcoind).unspent := by
  have queued : ∀ (served : Bool) (k : ℕ),
      ((s.late[k]?).map (Request.orphaned node s.bitcoind served)).getD ∅ ⊆
        (node.wallet s.bitcoind).unspent := by
    intro served k
    cases s.late[k]? with
    | none => exact Finset.empty_subset _
    | some request => exact documented.orphaned_subset request _ _
  cases event with
  | fundrawtransaction i reply =>
      simp only [Event.leak]
      split
      · exact documented.orphaned_subset _ _ _
      · exact Finset.empty_subset _
  | decoderawtransaction i reply =>
      simp only [Event.leak]
      split
      · split
        · exact Finset.empty_subset _
        · exact Finset.inter_subset_right
      · exact Finset.empty_subset _
  | lockunspent i reply =>
      simp only [Event.leak]
      split
      · exact Finset.empty_subset _
      · exact documented.orphaned_subset _ _ _
  | serveLate k => exact queued true k
  | dropLate k => exact queued false k
  | submitOpReturn i payload => exact Finset.empty_subset _
  | createrawtransaction i reply => exact Finset.empty_subset _
  | signrawtransactionwithwallet i reply => exact Finset.empty_subset _
  | sendrawtransaction i reply => exact Finset.empty_subset _
  | change d => exact Finset.empty_subset _
  | restart => exact Finset.empty_subset _

end Unsent

section LateFreeRuns

variable {ι β τ δ : Type u} {node : Bitcoind β τ δ} {s s' : System ι β τ}
  {left : Multiset UtxoRef}

private theorem Unspent.keep {leak : Finset UtxoRef} (unspent : Unspent node s left)
    (grows : (node.wallet s.bitcoind).unspent ⊆ (node.wallet s'.bitcoind).unspent)
    (late : ∀ signed, Request.sendrawtransaction signed ∈ s'.late →
      Request.sendrawtransaction signed ∈ s.late)
    (agrees : ∀ i, (s'.phase i).Agrees node)
    (calls : ∀ i, (s'.phase i).unsent node ⊆ (node.wallet s.bitcoind).unspent)
    (leaks : leak ⊆ (node.wallet s.bitcoind).unspent) : Unspent node s' (left + leak.val) := by
  refine ⟨fun signed member => unspent.late signed (late signed member), agrees,
    fun i => (calls i).trans grows, ?_⟩
  intro utxo member
  rcases Multiset.mem_add.mp member with old | new
  · exact grows (unspent.left utxo old)
  · exact grows (leaks new)

private theorem Ledger.notMem_left [Fintype ι]
    (ledger : Ledger (node.wallet s.bitcoind) (s.claims node + left)) {i : ι}
    {utxo : UtxoRef} (claimed : utxo ∈ (s.phase i).claim node)
    (unspent : utxo ∈ (node.wallet s.bitcoind).unspent) : utxo ∉ left := by
  intro member
  have nodup := (node.wallet s.bitcoind).locked.nodup
  rw [ledger.backed, Multiset.filter_add] at nodup
  refine Multiset.disjoint_left.mp (Multiset.nodup_add.mp nodup).2.2 ?_
    (Multiset.mem_filter.mpr ⟨member, unspent⟩)
  refine Multiset.mem_filter.mpr ⟨?_, unspent⟩
  refine Multiset.mem_add.mpr (.inl ?_)
  have own := Leases.le_of_sum_le (le_refl (∑ k, ((s.phase k).claim node).val)) i
  exact Multiset.mem_of_le own claimed

variable [DecidableEq ι]

private theorem forall_goto (P : Phase τ → Prop) (s : System ι β τ) {i : ι} {phase : Phase τ}
    (others : ∀ j, P (s.phase j)) (moved : P phase) (j : ι) : P ((s.goto i phase).phase j) := by
  show P (Function.update s.phase i phase j)
  rcases eq_or_ne j i with rfl | other
  · rwa [Function.update_self]
  · rw [Function.update_of_ne other]
    exact others j

private theorem Unspent.goto (documented : node.Documented) {i : ι} {phase : Phase τ}
    {event : Event ι δ} (unspent : Unspent node s left) (agrees : phase.Agrees node)
    (inside : phase.unsent node ⊆ (node.wallet s.bitcoind).unspent) :
    Unspent node (s.goto i phase) (left + (event.leak node s).val) :=
  unspent.keep (Finset.Subset.refl _) (fun _ member => member)
    (forall_goto (Phase.Agrees node) s unspent.agrees agrees)
    (forall_goto (fun phase => phase.unsent node ⊆ _) s unspent.calls inside)
    (documented.leak_subset s event)

private theorem Unspent.serveLate (documented : node.Documented) {k : ℕ} {event : Event ι δ}
    (unspent : Unspent node s left) (taken : s.step node (.serveLate k) = some s') :
    Unspent node s' (left + (event.leak node s).val) := by
  simp only [System.step] at taken
  split at taken
  case h_2 => cases taken
  rename_i request found
  obtain rfl := Option.some.inj taken
  have kept : ∀ signed, request ≠ .sendrawtransaction signed := fun signed same =>
    unspent.late signed (same ▸ List.mem_of_getElem? found)
  exact unspent.keep (documented.unspent_serve kept).ge
    (fun _ member => List.mem_of_mem_eraseIdx member) unspent.agrees unspent.calls
    (documented.leak_subset s event)

variable [Fintype ι]

private theorem Unspent.apart (unspent : Unspent node s left)
    (ledger : Ledger (node.wallet s.bitcoind) (s.claims node + left)) {i : ι}
    (held : (s.phase i).claim node ⊆ (node.wallet s.bitcoind).unspent) :
    (∀ j, j ≠ i → (s.phase j).unsent node ⊆
      (node.wallet s.bitcoind).unspent \ (s.phase i).claim node) ∧
    ∀ utxo ∈ left, utxo ∈ (node.wallet s.bitcoind).unspent \ (s.phase i).claim node := by
  refine ⟨fun j other utxo member => ?_, fun utxo member => ?_⟩
  · refine Finset.mem_sdiff.mpr ⟨unspent.calls j member, fun mine => ?_⟩
    refine Finset.disjoint_left.mp (ledger.exclusive.1 j i other) ?_
      (Finset.mem_inter.mpr ⟨mine, held mine⟩)
    exact Finset.mem_inter.mpr ⟨Phase.unsent_subset_claim _ member, unspent.calls j member⟩
  · refine Finset.mem_sdiff.mpr ⟨unspent.left utxo member, fun mine => ?_⟩
    exact ledger.notMem_left mine (held mine) member

/-- A call that has asked for its broadcast, whether bitcoind accepted it or not. -/
private theorem Unspent.asked (documented : node.Documented) {i : ι} {signed : τ}
    {vin : Finset UtxoRef} {result : Except SubmitError String} (unspent : Unspent node s left)
    (ledger : Ledger (node.wallet s.bitcoind) (s.claims node + left))
    (phase : s.phase i = .sendrawtransaction signed vin)
    (sent : (Phase.leave vin result : Phase τ).unsent node = ∅) :
    Unspent node (System.goto { s with
      bitcoind := (node.serve s.bitcoind (.sendrawtransaction signed)).1 } i
        (.leave vin result)) left := by
  have agrees : ∀ j, ((s.goto i (.leave vin result)).phase j).Agrees node :=
    forall_goto (Phase.Agrees node) s unspent.agrees (Phase.agrees_leave vin result)
  have claimed : (s.phase i).claim node = vin := by rw [phase]; rfl
  cases accepted : (node.serve s.bitcoind (.sendrawtransaction signed)).2 with
  | false =>
      have same := documented.refused _ _ accepted
      refine ⟨unspent.late, agrees, fun j => ?_, fun utxo member => ?_⟩
      · show _ ⊆ (node.wallet (node.serve s.bitcoind (.sendrawtransaction signed)).1).unspent
        rw [same]
        exact forall_goto (fun phase => phase.unsent node ⊆ _) s unspent.calls
          (sent.trans_subset (Finset.empty_subset _)) j
      · show _ ∈ (node.wallet (node.serve s.bitcoind (.sendrawtransaction signed)).1).unspent
        rw [same]
        exact unspent.left utxo member
  | true =>
      obtain ⟨txid, answer⟩ := Option.isSome_iff_exists.mp accepted
      have inputs : node.inputs signed = vin := by
        have agrees := unspent.agrees i
        rwa [phase] at agrees
      have spent : node.wallet (node.serve s.bitcoind (.sendrawtransaction signed)).1 =
          (node.wallet s.bitcoind).spend vin := by
        rw [← inputs]
        exact documented.sent _ _ txid answer
      have held : (s.phase i).claim node ⊆ (node.wallet s.bitcoind).unspent := by
        have calls := unspent.calls i
        rw [phase] at calls ⊢
        exact calls
      obtain ⟨others, leftovers⟩ := unspent.apart ledger held
      rw [claimed] at others leftovers
      refine ⟨unspent.late, agrees, fun j => ?_, fun utxo member => ?_⟩
      · show (Function.update s.phase i _ j).unsent node ⊆
          (node.wallet (node.serve s.bitcoind (.sendrawtransaction signed)).1).unspent
        rw [spent]
        rcases eq_or_ne j i with rfl | other
        · rw [Function.update_self, sent]
          exact Finset.empty_subset _
        · rw [Function.update_of_ne other]
          exact others j other
      · show utxo ∈ (node.wallet (node.serve s.bitcoind (.sendrawtransaction signed)).1).unspent
        rw [spent]
        exact leftovers utxo member

def plain {ι β τ δ : Type u} (m : Move (System ι β τ) (Event ι δ)) : Bool :=
  match m.input with
  | .restart | .sendrawtransaction _ .late => false
  | _ => true

end LateFreeRuns

end Engram.Node.Wallet
