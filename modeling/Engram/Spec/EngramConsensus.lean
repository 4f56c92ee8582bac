import Engram.Types.Health
import Mathlib.Algebra.BigOperators.Group.Finset.Basic
import Mathlib.Data.Finset.Card
import Mathlib.Data.Set.Insert

/-!
The abstract LiDO consensus of `EngramConsensus.tla`: a pacemaker over a set of caches.
`CHOOSE` is a choice operator, so two choices by equivalent predicates agree.
-/

set_option autoImplicit false
set_option relaxedAutoImplicit false

namespace Engram.Spec.Consensus

open Engram.Types

inductive CacheType where
  | e
  | m
  | c
  | t
  deriving DecidableEq, Repr

/-- A cache of the buffer tree; the method `"None"` is `none`. -/
structure Cache (Node Call : Type) where
  type : CacheType
  certRound : ℕ
  caller : Node
  method : Option Call
  voters : Finset Node
  btcAnchored : ℕ

structure Constants (Node Call : Type) where
  nodes : Finset Node
  nonempty : nodes.Nonempty
  method : Set Call
  stake : Node → ℕ
  resetTime : ℕ
  totalStake : ℕ
  kDeepFinality : ℕ

@[ext]
structure State (Node Call : Type) where
  tree : Set (Cache Node Call)
  localTimes : Node → ℕ
  round : ℕ
  remTime : ℕ
  fsmState : FSMState
  hBtcCurrent : ℕ
  hBtcAnchored : ℕ

variable {Node Call : Type} [DecidableEq Node] (k : Constants Node Call)

section Quorums

omit [DecidableEq Node]

def SumStake (q : Finset Node) : ℕ := ∑ n ∈ q, k.stake n

def IsSQuorum (q : Finset Node) : Prop := q ⊆ k.nodes ∧ SumStake k q * 3 > k.totalStake * 2

/-- `CHOOSE` over sets of nodes. -/
noncomputable def chooseNodes {Node : Type} (p : Finset Node → Prop) : Finset Node :=
  Classical.epsilon p

/-- `CHOOSE q \in SUBSET Nodes : IsSQuorum(q)`. -/
noncomputable def chosenQuorum : Finset Node := chooseNodes fun q => q ⊆ k.nodes ∧ IsSQuorum k q

end Quorums

def Init (a : State Node Call) : Prop :=
  a = { tree := ∅, localTimes := fun _ => 0, round := 1, remTime := k.resetTime,
        fsmState := .anchored, hBtcCurrent := k.kDeepFinality, hBtcAnchored := k.kDeepFinality }

section Pacemaker

omit [DecidableEq Node]

variable (a a' : State Node Call)

def startNext : State Node Call := { a with round := a.round + 1, remTime := k.resetTime }

def Elapse : Prop :=
  (¬ ∃ c ∈ a.tree, c.certRound = a.round ∧ (c.type = .e ∨ c.type = .m)) ∧ a.remTime > 0 ∧
    a' = { a with remTime := a.remTime - 1 }

def TimeoutStartNext : Prop := a.remTime = 0 ∧ a' = startNext k a

def EarlyStartNext : Prop :=
  (∃ c ∈ a.tree, c.type = .c ∧ c.certRound = a.round) ∧ a' = startNext k a

def TimeoutSkipNext : Prop :=
  (∃ c ∈ a.tree, c.type = .t ∧ c.certRound = a.round) ∧ a' = startNext k a

end Pacemaker

section ForkChoice

variable (a : State Node Call)

/-- The latest commit a node supports, or its genesis. -/
noncomputable def Active (s : Node) : Cache Node Call :=
  open Classical in
  if h : ∃ c ∈ a.tree, c.type = .c ∧ s ∈ c.voters then
    @Classical.epsilon _ ⟨h.choose⟩ fun c => (c ∈ a.tree ∧ c.type = .c ∧ s ∈ c.voters) ∧
      ∀ c' ∈ a.tree, c'.type = .c → s ∈ c'.voters → c.certRound ≥ c'.certRound
  else ⟨.c, 0, s, none, ∅, 0⟩

def IsKDeep (c : Cache Node Call) (depth : ℕ) : Prop :=
  c.btcAnchored ≤ a.hBtcAnchored ∧ (a.hBtcCurrent : ℤ) - c.btcAnchored ≥ depth

def IsMaxStakeBranch (c : Cache Node Call) : Prop :=
  c.certRound = 0 ∨ SumStake k c.voters ≥ k.totalStake / 2

def CanElect (c : Cache Node Call) (q : Finset Node) : Prop :=
  c.type = .c ∧ (∀ s ∈ q, c.certRound ≥ (Active a s).certRound) ∧
    match a.fsmState with
    | .anchored => IsKDeep a c k.kDeepFinality
    | .suspicious => IsKDeep a c k.kDeepFinality
    | .sovereign => IsMaxStakeBranch k c
    | _ => True

noncomputable def VirtualRoot : Cache Node Call := ⟨.c, 0, k.nonempty.choose, none, ∅, 0⟩

end ForkChoice

section CoreOperations

variable (a a' : State Node Call)

/-- The anchors a new cache may carry. -/
def chosenAnchors : Set ℕ := {a.hBtcAnchored, a.hBtcCurrent}

def Pull (n : Node) : Prop :=
  ∃ cmax ∈ insert (VirtualRoot k) {c ∈ a.tree | c.type = .c},
    CanElect k a cmax (chosenQuorum k) ∧ a.round > a.localTimes n ∧
    ∃ anchor ∈ chosenAnchors a, a' = { a with
      localTimes := fun s => if s ∈ chosenQuorum k then a.round else a.localTimes s
      tree := insert ⟨.e, a.round, n, none, chosenQuorum k, anchor⟩ a.tree }

def Invoke (n : Node) (m : Call) : Prop :=
  m ∈ k.method ∧ (∃ c ∈ a.tree, c.type = .e ∧ c.caller = n ∧ c.certRound = a.round) ∧
    ∃ anchor ∈ chosenAnchors a,
      a' = { a with tree := insert ⟨.m, a.round, n, some m, {n}, anchor⟩ a.tree }

def Push (n : Node) : Prop :=
  (∃ c ∈ a.tree, c.type = .m ∧ c.caller = n ∧ c.certRound = a.round) ∧
    ∃ anchor ∈ chosenAnchors a,
      a' = { a with tree := insert ⟨.c, a.round, n, none, {n}, anchor⟩ a.tree }

def Timeout (n : Node) : Prop :=
  (¬ ∃ c ∈ a.tree, c.type = .t ∧ c.certRound = a.round) ∧
    ∃ anchor ∈ chosenAnchors a,
      a' = { a with tree := insert ⟨.t, a.round, n, none, chosenQuorum k, anchor⟩ a.tree }

end CoreOperations

section Environment

omit [DecidableEq Node]

variable (a a' : State Node Call)

def UpdateEnv : Prop :=
  ∃ current ∈ ({a.hBtcCurrent, a.hBtcCurrent + 1} : Set ℕ), ∃ anchored,
    a.hBtcAnchored ≤ anchored ∧ anchored ≤ current ∧
    a' = { a with hBtcCurrent := current, hBtcAnchored := anchored }

def FSMStateChange : Prop :=
  ∃ state, (state = .anchored ∨ state = .sovereign) ∧ state ≠ a.fsmState ∧
    a' = { a with fsmState := state }

def BitcoinReorg : Prop :=
  a.hBtcAnchored > 0 ∧ ∃ current ∈ ({a.hBtcCurrent, a.hBtcCurrent + 1} : Set ℕ),
    ∃ lost < a.hBtcAnchored,
      a' = { a with hBtcCurrent := current, hBtcAnchored := lost, fsmState := .sovereign }

end Environment

def Next (a a' : State Node Call) : Prop :=
  Elapse a a' ∨ TimeoutStartNext k a a' ∨ EarlyStartNext k a a' ∨ TimeoutSkipNext k a a' ∨
  (∃ n ∈ k.nodes, Pull k a a' n) ∨
  (∃ n ∈ k.nodes, ∃ m ∈ k.method, Invoke k a a' n m) ∨
  (∃ n ∈ k.nodes, Push a a' n) ∨
  (∃ n ∈ k.nodes, Timeout k a a' n) ∨
  UpdateEnv a a' ∨ FSMStateChange a a' ∨ BitcoinReorg a a'

section Growth

variable {k} {a a' : State Node Call}

/-- What a step can add to the tree: one cache of the current round, with the round kept;
a new method call is a known method, and a new commit leaves the local times alone. -/
theorem Next.tree_cases (step : Next k a a') {c : Cache Node Call} (added : c ∈ a'.tree) :
    c ∈ a.tree ∨ (c.certRound = a.round ∧ a'.round = a.round ∧
      (c.type = .m → ∃ m ∈ k.method, c.method = some m) ∧
      (c.type = .c → a'.localTimes = a.localTimes)) := by
  rcases step with elapse | start | early | skip | pull | invoke | push | timeout | update |
    change | reorg
  · obtain ⟨-, -, rfl⟩ := elapse
    exact .inl added
  · obtain ⟨-, rfl⟩ := start
    exact .inl added
  · obtain ⟨-, rfl⟩ := early
    exact .inl added
  · obtain ⟨-, rfl⟩ := skip
    exact .inl added
  · obtain ⟨n, -, cmax, -, -, -, anchor, -, rfl⟩ := pull
    rcases added with rfl | old
    · exact .inr ⟨rfl, rfl, nofun, nofun⟩
    · exact .inl old
  · obtain ⟨n, -, m, -, known, -, anchor, -, rfl⟩ := invoke
    rcases added with rfl | old
    · exact .inr ⟨rfl, rfl, fun _ => ⟨m, known, rfl⟩, nofun⟩
    · exact .inl old
  · obtain ⟨n, -, -, anchor, -, rfl⟩ := push
    rcases added with rfl | old
    · exact .inr ⟨rfl, rfl, nofun, fun _ => rfl⟩
    · exact .inl old
  · obtain ⟨n, -, -, anchor, -, rfl⟩ := timeout
    rcases added with rfl | old
    · exact .inr ⟨rfl, rfl, nofun, nofun⟩
    · exact .inl old
  · obtain ⟨current, -, anchored, -, -, rfl⟩ := update
    exact .inl added
  · obtain ⟨state, -, -, rfl⟩ := change
    exact .inl added
  · obtain ⟨-, current, -, lost, -, rfl⟩ := reorg
    exact .inl added

/-- A step leaves the round, or the timer ran out or a commit or timeout cache of the
round is there. -/
theorem Next.round_cases (step : Next k a a') :
    a'.round = a.round ∨ a.remTime = 0 ∨
      ∃ c ∈ a.tree, (c.type = .c ∨ c.type = .t) ∧ c.certRound = a.round := by
  rcases step with elapse | start | early | skip | pull | invoke | push | timeout | update |
    change | reorg
  · obtain ⟨-, -, rfl⟩ := elapse
    exact .inl rfl
  · exact .inr (.inl start.1)
  · obtain ⟨⟨c, member, commit, current⟩, -⟩ := early
    exact .inr (.inr ⟨c, member, .inl commit, current⟩)
  · obtain ⟨⟨c, member, timeout, current⟩, -⟩ := skip
    exact .inr (.inr ⟨c, member, .inr timeout, current⟩)
  · obtain ⟨n, -, cmax, -, -, -, anchor, -, rfl⟩ := pull
    exact .inl rfl
  · obtain ⟨n, -, m, -, -, -, anchor, -, rfl⟩ := invoke
    exact .inl rfl
  · obtain ⟨n, -, -, anchor, -, rfl⟩ := push
    exact .inl rfl
  · obtain ⟨n, -, -, anchor, -, rfl⟩ := timeout
    exact .inl rfl
  · obtain ⟨current, -, anchored, -, -, rfl⟩ := update
    exact .inl rfl
  · obtain ⟨state, -, -, rfl⟩ := change
    exact .inl rfl
  · obtain ⟨-, current, -, lost, -, rfl⟩ := reorg
    exact .inl rfl

end Growth

end Engram.Spec.Consensus
