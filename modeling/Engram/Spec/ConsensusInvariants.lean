import Engram.Spec.EngramConsensus
import Mathlib.Logic.Relation

/-!
What every run of the abstract consensus keeps, for every stake and every set of nodes: each
cache rests on the caches it was certified from, and a member of the chosen quorum is elected
at most once a round.
-/

set_option autoImplicit false
set_option relaxedAutoImplicit false

namespace Engram.Spec.Consensus

open Relation

variable {Node Call : Type} {k : Constants Node Call} {a b : State Node Call}

def Supports (tree : Set (Cache Node Call)) (type : CacheType) (c : Cache Node Call) : Prop :=
  ∃ d ∈ tree, d.type = type ∧ d.caller = c.caller ∧ d.certRound = c.certRound

theorem Supports.insert {tree : Set (Cache Node Call)} {type : CacheType} {c : Cache Node Call}
    (supported : Supports tree type c) (new : Cache Node Call) :
    Supports (insert new tree) type c := by
  obtain ⟨d, member, same⟩ := supported
  exact ⟨d, Set.mem_insert_of_mem _ member, same⟩

structure Invariant (k : Constants Node Call) (a : State Node Call) : Prop where
  round_pos : 1 ≤ a.round
  known : ∀ c ∈ a.tree, 1 ≤ c.certRound ∧ c.certRound ≤ a.round ∧ c.caller ∈ k.nodes
  anchored : a.hBtcAnchored ≤ a.hBtcCurrent ∧ ∀ c ∈ a.tree, c.btcAnchored ≤ a.hBtcCurrent
  timer : a.remTime ≤ k.resetTime
  committed : ∀ c ∈ a.tree, c.type = .c → Supports a.tree .m c
  invoked : ∀ c ∈ a.tree, c.type = .m → Supports a.tree .e c
  timedOut : ∀ c ∈ a.tree, ∀ d ∈ a.tree, c.type = .t → d.type = .t →
    c.certRound = d.certRound → c = d
  outside : ∀ s, s ∉ chosenQuorum k → a.localTimes s = 0
  seen : ∀ s ∈ chosenQuorum k, a.localTimes s ≤ a.round ∧
    ∀ c ∈ a.tree, c.type = .e → c.certRound ≤ a.localTimes s
  elected : ∀ c ∈ a.tree, ∀ d ∈ a.tree, c.type = .e → d.type = .e →
    c.certRound = d.certRound → c.caller ∈ chosenQuorum k → d.caller ∈ chosenQuorum k → c = d

namespace Invariant

theorem initial (init : Init k a) : Invariant k a := by
  obtain rfl := init
  exact ⟨le_rfl, nofun, ⟨le_rfl, nofun⟩, le_rfl, nofun, nofun, nofun, fun _ _ => rfl,
    fun _ _ => ⟨Nat.zero_le _, nofun⟩, nofun⟩

private theorem anchor_le (invariant : Invariant k a) {anchor : ℕ}
    (chosen : anchor ∈ chosenAnchors a) : anchor ≤ a.hBtcCurrent := by
  rcases chosen with rfl | rfl
  · exact invariant.anchored.1
  · exact le_rfl

theorem startNext (invariant : Invariant k a) : Invariant k (startNext k a) where
  round_pos := Nat.le_add_left _ _
  known c member := by
    obtain ⟨positive, bounded, node⟩ := invariant.known c member
    exact ⟨positive, Nat.le_succ_of_le bounded, node⟩
  anchored := invariant.anchored
  timer := le_rfl
  committed := invariant.committed
  invoked := invariant.invoked
  timedOut := invariant.timedOut
  outside := invariant.outside
  seen s inside := by
    obtain ⟨bounded, before⟩ := invariant.seen s inside
    exact ⟨Nat.le_succ_of_le bounded, before⟩
  elected := invariant.elected

theorem extend (invariant : Invariant k a) {new : Cache Node Call}
    (current : new.certRound = a.round) (node : new.caller ∈ k.nodes)
    (anchor : new.btcAnchored ∈ chosenAnchors a) (notElection : new.type ≠ .e)
    (committed : new.type = .c → Supports a.tree .m new)
    (invoked : new.type = .m → Supports a.tree .e new)
    (timedOut : new.type = .t → ∀ c ∈ a.tree, c.type = .t → c.certRound ≠ a.round) :
    Invariant k { a with tree := insert new a.tree } where
  round_pos := invariant.round_pos
  known c member := by
    rcases member with rfl | old
    · exact ⟨current ▸ invariant.round_pos, current.le, node⟩
    · exact invariant.known c old
  anchored := by
    refine ⟨invariant.anchored.1, fun c member => ?_⟩
    rcases member with rfl | old
    · exact invariant.anchor_le anchor
    · exact invariant.anchored.2 c old
  timer := invariant.timer
  committed c member type := by
    rcases member with rfl | old
    · exact (committed type).insert _
    · exact (invariant.committed c old type).insert _
  invoked c member type := by
    rcases member with rfl | old
    · exact (invoked type).insert _
    · exact (invariant.invoked c old type).insert _
  timedOut c cMember d dMember cType dType same := by
    rcases cMember with rfl | cOld
    · rcases dMember with rfl | dOld
      · rfl
      · exact absurd (same.symm.trans current) (timedOut cType d dOld dType)
    · rcases dMember with rfl | dOld
      · exact absurd (same.trans current) (timedOut dType c cOld cType)
      · exact invariant.timedOut c cOld d dOld cType dType same
  outside := invariant.outside
  seen s inside := by
    obtain ⟨bounded, before⟩ := invariant.seen s inside
    refine ⟨bounded, fun c member election => ?_⟩
    rcases member with rfl | old
    · exact absurd election notElection
    · exact before c old election
  elected c cMember d dMember cType dType := by
    rcases cMember with rfl | cOld
    · exact absurd cType notElection
    · rcases dMember with rfl | dOld
      · exact absurd dType notElection
      · exact invariant.elected c cOld d dOld cType dType

theorem environment (invariant : Invariant k a) {current anchored : ℕ}
    {state : Engram.Types.FSMState} (grows : a.hBtcCurrent ≤ current)
    (bounded : anchored ≤ current) :
    Invariant k { a with hBtcCurrent := current, hBtcAnchored := anchored, fsmState := state } :=
  { invariant with
    anchored := ⟨bounded, fun c member => (invariant.anchored.2 c member).trans grows⟩ }

theorem election (invariant : Invariant k a) {c : Cache Node Call} (member : c ∈ a.tree)
    (type : c.type ≠ .t) : Supports a.tree .e c := by
  have invoked : ∀ d ∈ a.tree, d.type = .m → d.caller = c.caller → d.certRound = c.certRound →
      Supports a.tree .e c := by
    intro d dMember dType caller round
    obtain ⟨e, eMember, eType, eCaller, eRound⟩ := invariant.invoked d dMember dType
    exact ⟨e, eMember, eType, eCaller.trans caller, eRound.trans round⟩
  cases kind : c.type with
  | e => exact ⟨c, member, kind, rfl, rfl⟩
  | m => exact invoked c member kind rfl rfl
  | c =>
      obtain ⟨d, dMember, dType, caller, round⟩ := invariant.committed c member kind
      exact invoked d dMember dType caller round
  | t => exact absurd kind type

variable [DecidableEq Node]

/-- An election of the current round: no member of the quorum has seen the round yet when one
of them is elected. -/
theorem pull (invariant : Invariant k a) {n : Node} (node : n ∈ k.nodes) {anchor : ℕ}
    (chosen : anchor ∈ chosenAnchors a) (behind : a.round > a.localTimes n) :
    Invariant k { a with
      localTimes := fun s => if s ∈ chosenQuorum k then a.round else a.localTimes s
      tree := insert ⟨.e, a.round, n, none, chosenQuorum k, anchor⟩ a.tree } := by
  have fresh : n ∈ chosenQuorum k → ∀ c ∈ a.tree, c.type = .e → c.certRound ≠ a.round := by
    intro inside c member election current
    have before := (invariant.seen n inside).2 c member election
    omega
  refine ⟨invariant.round_pos, ?_, ?_, invariant.timer, ?_, ?_, ?_, ?_, ?_, ?_⟩
  · rintro c (rfl | old)
    · exact ⟨invariant.round_pos, le_rfl, node⟩
    · exact invariant.known c old
  · refine ⟨invariant.anchored.1, ?_⟩
    rintro c (rfl | old)
    · exact invariant.anchor_le chosen
    · exact invariant.anchored.2 c old
  · rintro c (rfl | old) type
    · cases type
    · exact (invariant.committed c old type).insert _
  · rintro c (rfl | old) type
    · cases type
    · exact (invariant.invoked c old type).insert _
  · rintro c (rfl | cOld) d (rfl | dOld) cType dType same
    · rfl
    · cases cType
    · cases dType
    · exact invariant.timedOut c cOld d dOld cType dType same
  · intro s outside
    show (if s ∈ chosenQuorum k then a.round else a.localTimes s) = 0
    rw [if_neg outside]
    exact invariant.outside s outside
  · intro s inside
    show (if s ∈ chosenQuorum k then a.round else a.localTimes s) ≤ a.round ∧ _
    simp only [if_pos inside]
    refine ⟨le_rfl, ?_⟩
    rintro c (rfl | old) -
    · exact le_rfl
    · exact (invariant.known c old).2.1
  · rintro c (rfl | cOld) d (rfl | dOld) cType dType same cInside dInside
    · rfl
    · exact absurd same.symm (fresh cInside d dOld dType)
    · exact absurd same (fresh dInside c cOld cType)
    · exact invariant.elected c cOld d dOld cType dType same cInside dInside

theorem step (invariant : Invariant k a) (next : Next k a b) : Invariant k b := by
  rcases next with elapse | start | early | skip | pulls | invokes | pushes | timesOut | update |
    change | reorg
  · obtain ⟨-, -, rfl⟩ := elapse
    exact { invariant with timer := (Nat.sub_le _ _).trans invariant.timer }
  · obtain ⟨-, rfl⟩ := start
    exact invariant.startNext
  · obtain ⟨-, rfl⟩ := early
    exact invariant.startNext
  · obtain ⟨-, rfl⟩ := skip
    exact invariant.startNext
  · obtain ⟨n, node, cmax, -, -, behind, anchor, chosen, rfl⟩ := pulls
    exact invariant.pull node chosen behind
  · obtain ⟨n, node, m, -, -, ⟨c, member, type, caller, current⟩, anchor, chosen, rfl⟩ := invokes
    exact invariant.extend rfl node chosen nofun nofun
      (fun _ => ⟨c, member, type, caller, current⟩) nofun
  · obtain ⟨n, node, ⟨c, member, type, caller, current⟩, anchor, chosen, rfl⟩ := pushes
    exact invariant.extend rfl node chosen nofun (fun _ => ⟨c, member, type, caller, current⟩)
      nofun nofun
  · obtain ⟨n, node, unique, anchor, chosen, rfl⟩ := timesOut
    exact invariant.extend rfl node chosen nofun nofun nofun fun _ c member type current =>
      unique ⟨c, member, type, current⟩
  · obtain ⟨current, tip, anchored, -, bounded, rfl⟩ := update
    refine invariant.environment ?_ bounded
    rcases tip with rfl | rfl
    · exact le_rfl
    · exact Nat.le_succ _
  · obtain ⟨state, -, -, rfl⟩ := change
    exact invariant.environment le_rfl invariant.anchored.1
  · obtain ⟨-, current, tip, lost, below, rfl⟩ := reorg
    have grows : a.hBtcCurrent ≤ current := by
      rcases tip with rfl | rfl
      · exact le_rfl
      · exact Nat.le_succ _
    exact invariant.environment grows
      (below.le.trans (invariant.anchored.1.trans grows))

end Invariant

section Runs

variable [DecidableEq Node]

def Reachable (k : Constants Node Call) (a : State Node Call) : Prop :=
  ∃ start, Init k start ∧ ReflTransGen (Next k) start a

theorem Reachable.invariant (reachable : Reachable k a) : Invariant k a := by
  obtain ⟨start, init, steps⟩ := reachable
  induction steps with
  | refl => exact .initial init
  | tail _ next ih => exact ih.step next

theorem Next.grows (next : Next k a b) : a.tree ⊆ b.tree ∧ a.round ≤ b.round := by
  rcases next with elapse | start | early | skip | pulls | invokes | pushes | timesOut | update |
    change | reorg
  · obtain ⟨-, -, rfl⟩ := elapse
    exact ⟨subset_rfl, le_rfl⟩
  · obtain ⟨-, rfl⟩ := start
    exact ⟨subset_rfl, Nat.le_succ _⟩
  · obtain ⟨-, rfl⟩ := early
    exact ⟨subset_rfl, Nat.le_succ _⟩
  · obtain ⟨-, rfl⟩ := skip
    exact ⟨subset_rfl, Nat.le_succ _⟩
  · obtain ⟨n, -, cmax, -, -, -, anchor, -, rfl⟩ := pulls
    exact ⟨Set.subset_insert _ _, le_rfl⟩
  · obtain ⟨n, -, m, -, -, -, anchor, -, rfl⟩ := invokes
    exact ⟨Set.subset_insert _ _, le_rfl⟩
  · obtain ⟨n, -, -, anchor, -, rfl⟩ := pushes
    exact ⟨Set.subset_insert _ _, le_rfl⟩
  · obtain ⟨n, -, -, anchor, -, rfl⟩ := timesOut
    exact ⟨Set.subset_insert _ _, le_rfl⟩
  · obtain ⟨current, -, anchored, -, -, rfl⟩ := update
    exact ⟨subset_rfl, le_rfl⟩
  · obtain ⟨state, -, -, rfl⟩ := change
    exact ⟨subset_rfl, le_rfl⟩
  · obtain ⟨-, current, -, lost, -, rfl⟩ := reorg
    exact ⟨subset_rfl, le_rfl⟩

private theorem run_settled (steps : ReflTransGen (Next k) a b) :
    a.tree ⊆ b.tree ∧ a.round ≤ b.round ∧ ∀ c ∈ b.tree, c.certRound < a.round → c ∈ a.tree := by
  induction steps with
  | refl => exact ⟨subset_rfl, le_rfl, fun _ member _ => member⟩
  | tail _ next ih =>
      obtain ⟨kept, forward, settled⟩ := ih
      obtain ⟨grown, later⟩ := next.grows
      refine ⟨kept.trans grown, forward.trans later, fun c member past => ?_⟩
      rcases next.tree_cases member with old | ⟨current, -⟩
      · exact settled c old past
      · omega

private theorem round_ends (a : State Node Call) :
    ∃ b, ReflTransGen (Next k) a b ∧ b.round = a.round + 1 := by
  by_cases timedOut : ∃ c ∈ a.tree, c.type = .t ∧ c.certRound = a.round
  · exact ⟨startNext k a, .single (.inr (.inr (.inr (.inl ⟨timedOut, rfl⟩)))), rfl⟩
  · obtain ⟨n, node⟩ := k.nonempty
    let cache : Cache Node Call := ⟨.t, a.round, n, none, chosenQuorum k, a.hBtcAnchored⟩
    let b : State Node Call := { a with tree := insert cache a.tree }
    have timeout : Next k a b := .inr (.inr (.inr (.inr (.inr (.inr (.inr (.inl
      ⟨n, node, timedOut, _, .inl rfl, rfl⟩)))))))
    have skip : Next k b (startNext k b) :=
      .inr (.inr (.inr (.inl ⟨⟨cache, Set.mem_insert _ _, rfl, rfl⟩, rfl⟩)))
    exact ⟨startNext k b, (ReflTransGen.single timeout).tail skip, rfl⟩

/-- In every run: a commit rests on a call and an election of its caller in its round; the
members of the chosen quorum have one leader a round among them; a round has one timeout cache;
no anchor is above the Bitcoin tip; the rounds before the current one are settled for good; and
no state is without a way out of its round. -/
theorem consensus_safety (reachable : Reachable k a) :
    (∀ c ∈ a.tree, c.type = .c → Supports a.tree .m c ∧ Supports a.tree .e c) ∧
    (∀ c ∈ a.tree, ∀ d ∈ a.tree, c.type ≠ .t → d.type ≠ .t → c.certRound = d.certRound →
      c.caller ∈ chosenQuorum k → d.caller ∈ chosenQuorum k → c.caller = d.caller) ∧
    (∀ c ∈ a.tree, ∀ d ∈ a.tree, c.type = .t → d.type = .t → c.certRound = d.certRound → c = d) ∧
    (∀ c ∈ a.tree, c.certRound ≤ a.round ∧ c.btcAnchored ≤ a.hBtcCurrent) ∧
    (∀ b, ReflTransGen (Next k) a b → a.tree ⊆ b.tree ∧
      ∀ c ∈ b.tree, c.certRound < a.round → c ∈ a.tree) ∧
    ∃ b, ReflTransGen (Next k) a b ∧ b.round = a.round + 1 := by
  have invariant := reachable.invariant
  refine ⟨fun c member commit => ?_, ?_, invariant.timedOut, fun c member => ?_, fun b steps => ?_,
    round_ends a⟩
  · exact ⟨invariant.committed c member commit,
      invariant.election member (by rw [commit]; exact nofun)⟩
  · intro c cMember d dMember cType dType same cInside dInside
    obtain ⟨e, eMember, eType, eCaller, eRound⟩ := invariant.election cMember cType
    obtain ⟨e', eMember', eType', eCaller', eRound'⟩ := invariant.election dMember dType
    have one : e = e' := by
      apply invariant.elected e eMember e' eMember' eType eType'
      · rw [eRound, eRound', same]
      · rwa [eCaller]
      · rwa [eCaller']
    rw [← eCaller, ← eCaller', one]
  · exact ⟨(invariant.known c member).2.1, invariant.anchored.2 c member⟩
  · obtain ⟨kept, -, settled⟩ := run_settled steps
    exact ⟨kept, settled⟩

def oneNode : Constants Unit Unit where
  nodes := {()}
  nonempty := ⟨(), Finset.mem_singleton_self ()⟩
  method := Set.univ
  stake _ := 1
  resetTime := 3
  totalStake := 1
  kDeepFinality := 2

/-- The node is elected, invokes its method and pushes. -/
theorem consensus_safety_oneCommit : ∃ a : State Unit Unit, Reachable oneNode a ∧
    ∃ c ∈ a.tree, c.type = .c ∧ c.certRound ≤ a.round ∧ Supports a.tree .e c := by
  let start : State Unit Unit := ⟨∅, fun _ => 0, 1, 3, .anchored, 2, 2⟩
  let e : Cache Unit Unit := ⟨.e, 1, (), none, chosenQuorum oneNode, 2⟩
  let m : Cache Unit Unit := ⟨.m, 1, (), some (), {()}, 2⟩
  let c : Cache Unit Unit := ⟨.c, 1, (), none, {()}, 2⟩
  let elected : State Unit Unit := { start with
    localTimes := fun s => if s ∈ chosenQuorum oneNode then 1 else 0
    tree := insert e ∅ }
  let invoked : State Unit Unit := { elected with tree := insert m elected.tree }
  let pushed : State Unit Unit := { elected with tree := insert c invoked.tree }
  have electable : CanElect oneNode start (VirtualRoot oneNode) (chosenQuorum oneNode) := by
    refine ⟨rfl, fun s _ => ?_, Nat.zero_le _, by decide⟩
    have nothing : ¬ ∃ c ∈ start.tree, c.type = .c ∧ s ∈ c.voters := nofun
    unfold Active
    rw [dif_neg nothing]
    exact le_rfl
  have pull : Next oneNode start elected := .inr (.inr (.inr (.inr (.inl
    ⟨(), Finset.mem_singleton_self (), _, Set.mem_insert _ _, electable, Nat.one_pos, 2,
      .inl rfl, rfl⟩))))
  have invoke : Next oneNode elected invoked := .inr (.inr (.inr (.inr (.inr (.inl
    ⟨(), Finset.mem_singleton_self (), (), trivial, trivial,
      ⟨e, Set.mem_insert _ _, rfl, rfl, rfl⟩, 2, .inl rfl, rfl⟩)))))
  have push : Next oneNode invoked pushed := .inr (.inr (.inr (.inr (.inr (.inr (.inl
    ⟨(), Finset.mem_singleton_self (), ⟨m, Set.mem_insert _ _, rfl, rfl, rfl⟩, 2, .inl rfl,
      rfl⟩))))))
  have reachable : Reachable oneNode pushed :=
    ⟨start, rfl, ((ReflTransGen.single pull).tail invoke).tail push⟩
  obtain ⟨supported, -, -, bounds, -⟩ := consensus_safety reachable
  have member : c ∈ pushed.tree := Set.mem_insert _ _
  exact ⟨pushed, reachable, c, member, rfl, (bounds c member).1, (supported c member rfl).2⟩

end Runs

end Engram.Spec.Consensus
