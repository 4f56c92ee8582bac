import Engram.Spec.ConsensusInvariants
import Engram.Library.Temporal
import Mathlib.Data.Countable.Defs
import Mathlib.Data.Fintype.EquivFin
import Mathlib.Data.Nat.Pairing

/-!
The pacemaker of `EngramConsensus.tla` under its own fairness. `Elapse` and `Timeout`
are not fair: a round that nothing touches need not end, and a round with an elected leader
ends because the leader's operations are fair.
-/

set_option autoImplicit false
set_option relaxedAutoImplicit false

namespace Engram.Spec.Consensus

open Engram.Library

variable {Node Call : Type} [DecidableEq Node] (k : Constants Node Call)

/-- `<A>_vars`: a step of the action that changes something. -/
def Changes (A : State Node Call → State Node Call → Prop) (a a' : State Node Call) : Prop :=
  A a a' ∧ a' ≠ a

structure LeaderlessLiveness (run : ℕ → State Node Call) : Prop where
  timeoutStart : WeaklyFair (Changes (TimeoutStartNext k)) run
  earlyStart : WeaklyFair (Changes (EarlyStartNext k)) run
  timeoutSkip : WeaklyFair (Changes (TimeoutSkipNext k)) run
  updateEnv : WeaklyFair (Changes UpdateEnv) run
  pull : ∀ n ∈ k.nodes, WeaklyFair (Changes fun a a' => Pull k a a' n) run

structure Liveness (run : ℕ → State Node Call) : Prop extends LeaderlessLiveness k run where
  push : ∀ n ∈ k.nodes, WeaklyFair (Changes fun a a' => Push a a' n) run
  invoke : ∀ n ∈ k.nodes, ∀ m ∈ k.method,
    WeaklyFair (Changes fun a a' => Invoke k a a' n m) run

/-- `[Next]_vars`. -/
def NextOrStutter (a a' : State Node Call) : Prop := Next k a a' ∨ a' = a

structure FairRun (run : ℕ → State Node Call) : Prop where
  init : Init k (run 0)
  next : ∀ n, NextOrStutter k (run n) (run (n + 1))
  live : Liveness k run

def Certified (type : CacheType) (r : ℕ) (a : State Node Call) : Prop :=
  ∃ c ∈ a.tree, c.type = type ∧ c.certRound = r

def CertifiedBy (type : CacheType) (n : Node) (r : ℕ) (a : State Node Call) : Prop :=
  ∃ c ∈ a.tree, c.type = type ∧ c.caller = n ∧ c.certRound = r

def Electable (a : State Node Call) : Prop :=
  ∃ cmax ∈ insert (VirtualRoot k) {c ∈ a.tree | c.type = .c}, CanElect k a cmax (chosenQuorum k)

section Steps

variable {k} {a b : State Node Call} {r : ℕ}

private theorem NextOrStutter.past_or_kept (step : NextOrStutter k a b) (current : a.round = r) :
    r < b.round ∨ b.round = r ∧ a.tree ⊆ b.tree := by
  rcases step with next | rfl
  · obtain ⟨grows, later⟩ := next.grows
    rcases Nat.lt_or_ge r b.round with past | within
    · exact .inl past
    · exact .inr ⟨by omega, grows⟩
  · exact .inr ⟨current, subset_rfl⟩

private theorem NextOrStutter.past_or_expired (step : NextOrStutter k a b) (current : a.round = r)
    (expired : a.remTime = 0) : r < b.round ∨ b.round = r ∧ b.remTime = 0 := by
  rcases step with (elapse | start | early | skip | pull | invoke | push | timeout | update |
    change | reorg) | rfl
  · exact absurd expired elapse.2.1.ne'
  · left
    rw [start.2, ← current]
    exact Nat.lt_succ_self _
  · left
    rw [early.2, ← current]
    exact Nat.lt_succ_self _
  · left
    rw [skip.2, ← current]
    exact Nat.lt_succ_self _
  · obtain ⟨n, -, cmax, -, -, -, anchor, -, rfl⟩ := pull
    exact .inr ⟨current, expired⟩
  · obtain ⟨n, -, m, -, -, -, anchor, -, rfl⟩ := invoke
    exact .inr ⟨current, expired⟩
  · obtain ⟨n, -, -, anchor, -, rfl⟩ := push
    exact .inr ⟨current, expired⟩
  · obtain ⟨n, -, -, anchor, -, rfl⟩ := timeout
    exact .inr ⟨current, expired⟩
  · obtain ⟨height, -, anchored, -, -, rfl⟩ := update
    exact .inr ⟨current, expired⟩
  · obtain ⟨state, -, -, rfl⟩ := change
    exact .inr ⟨current, expired⟩
  · obtain ⟨-, height, -, lost, -, rfl⟩ := reorg
    exact .inr ⟨current, expired⟩
  · exact .inr ⟨current, expired⟩

omit [DecidableEq Node] in
private theorem startNext_ne (a : State Node Call) : startNext k a ≠ a := by
  intro same
  exact absurd (congrArg State.round same) (Nat.succ_ne_self _)

omit [DecidableEq Node] in
private theorem ne_of_added {c : Cache Node Call} (added : c ∈ b.tree) (new : c ∉ a.tree) :
    b ≠ a := by
  rintro rfl
  exact new added

end Steps

section Behaviours

variable {k} {run : ℕ → State Node Call} {r : ℕ}

theorem FairRun.invariant (behaves : FairRun k run) (n : ℕ) : Invariant k (run n) := by
  refine always_of_steps behaves.next (.initial behaves.init) ?_ n
  rintro a b invariant (next | rfl)
  · exact invariant.step next
  · exact invariant

private theorem ends_of_fair {A : State Node Call → State Node Call → Prop}
    {G : State Node Call → Prop} (behaves : FairRun k run) (fair : WeaklyFair (Changes A) run)
    (starts : ∀ a b, A a b → b = startNext k a)
    (enabled : ∀ a, a.round = r → G a → A a (startNext k a))
    (lasts : ∀ a b, a.round = r → G a → NextOrStutter k a b → r < b.round ∨ b.round = r ∧ G b) :
    LeadsTo (fun a => a.round = r ∧ G a) (fun a => r < a.round) run := by
  refine fair.leadsTo_of_helps behaves.next ?_ ?_ ?_
  · rintro a b ⟨current, guard⟩ step
    exact lasts a b current guard step
  · rintro a b ⟨current, _⟩ ⟨taken, _⟩
    rw [starts a b taken, ← current]
    exact Nat.lt_succ_self _
  · rintro a ⟨current, guard⟩
    exact ⟨startNext k a, enabled a current guard, startNext_ne a⟩

theorem Certified.kept {type : CacheType} {a b : State Node Call} (current : a.round = r)
    (certified : Certified type r a) (step : NextOrStutter k a b) :
    r < b.round ∨ b.round = r ∧ Certified type r b := by
  obtain ⟨c, member, kind⟩ := certified
  refine (step.past_or_kept current).imp_right ?_
  rintro ⟨current', grows⟩
  exact ⟨current', c, grows member, kind⟩

private theorem FairRun.expired_ends (behaves : FairRun k run) (r : ℕ) :
    LeadsTo (fun a => a.round = r ∧ a.remTime = 0) (fun a => r < a.round) run :=
  ends_of_fair behaves behaves.live.timeoutStart (fun _ _ taken => taken.2)
    (fun _ _ expired => ⟨expired, rfl⟩)
    (fun _ _ current expired step => step.past_or_expired current expired)

private theorem FairRun.committed_ends (behaves : FairRun k run) (r : ℕ) :
    LeadsTo (fun a => a.round = r ∧ Certified .c r a) (fun a => r < a.round) run := by
  refine ends_of_fair behaves behaves.live.earlyStart (fun _ _ taken => taken.2) ?_
    (fun _ _ current certified step => certified.kept current step)
  rintro a rfl certified
  exact ⟨certified, rfl⟩

private theorem FairRun.timedOut_ends (behaves : FairRun k run) (r : ℕ) :
    LeadsTo (fun a => a.round = r ∧ Certified .t r a) (fun a => r < a.round) run := by
  refine ends_of_fair behaves behaves.live.timeoutSkip (fun _ _ taken => taken.2) ?_
    (fun _ _ current certified step => certified.kept current step)
  rintro a rfl certified
  exact ⟨certified, rfl⟩

theorem FairRun.answered {A : State Node Call → State Node Call → Prop} {n : Node}
    {type next : CacheType} (behaves : FairRun k run) (fair : WeaklyFair (Changes A) run)
    (adds : ∀ a b, A a b → b.round = a.round ∧ CertifiedBy next n a.round b)
    (enabled : ∀ a, CertifiedBy type n a.round a → ∃ c : Cache Node Call,
      (c.type = next ∧ c.caller = n ∧ c.certRound = a.round) ∧
        A a { a with tree := insert c a.tree }) (r : ℕ) :
    LeadsTo (fun a => a.round = r ∧ CertifiedBy type n r a)
      (fun a => r < a.round ∨ a.round = r ∧ CertifiedBy next n r a) run := by
  refine LeadsTo.of_unmet (I := fun _ => True) (fun _ => trivial)
    (fair.leadsTo_of_helps behaves.next ?_ ?_ ?_)
  · rintro a b ⟨⟨current, c, member, kind⟩, _, _⟩ step
    by_cases met : r < b.round ∨ b.round = r ∧ CertifiedBy next n r b
    · exact .inl met
    · rcases step.past_or_kept current with past | ⟨current', grows⟩
      · exact .inl (.inl past)
      · exact .inr ⟨⟨current', c, grows member, kind⟩, met, trivial⟩
  · rintro a b ⟨⟨rfl, _⟩, _, _⟩ ⟨taken, _⟩
    exact .inr (adds a b taken)
  · rintro a ⟨⟨rfl, certified⟩, unmet, _⟩
    obtain ⟨c, kind, step⟩ := enabled a certified
    refine ⟨_, step, ne_of_added (Set.mem_insert c _) fun member => ?_⟩
    exact unmet (.inr ⟨rfl, c, member, kind⟩)

private theorem FairRun.called_ends (behaves : FairRun k run) {n : Node} (node : n ∈ k.nodes)
    (r : ℕ) : LeadsTo (fun a => a.round = r ∧ CertifiedBy .m n r a) (fun a => r < a.round) run := by
  have pushed : LeadsTo (fun a => a.round = r ∧ CertifiedBy .m n r a)
      (fun a => r < a.round ∨ a.round = r ∧ CertifiedBy .c n r a) run := by
    apply behaves.answered (behaves.live.push n node)
    · rintro a b ⟨-, anchor, -, rfl⟩
      exact ⟨rfl, _, Set.mem_insert _ _, rfl, rfl, rfl⟩
    · intro a called
      exact ⟨⟨.c, a.round, n, none, {n}, a.hBtcAnchored⟩, ⟨rfl, rfl, rfl⟩, called, _, .inl rfl, rfl⟩
  refine pushed.trans fun m stands => behaves.committed_ends r m ⟨stands.1, ?_⟩
  obtain ⟨c, member, type, -, current⟩ := stands.2
  exact ⟨c, member, type, current⟩

private theorem FairRun.elected_ends (behaves : FairRun k run) (method : k.method.Nonempty)
    {n : Node} (node : n ∈ k.nodes) (r : ℕ) :
    LeadsTo (fun a => a.round = r ∧ CertifiedBy .e n r a) (fun a => r < a.round) run := by
  obtain ⟨m, known⟩ := method
  have invoked : LeadsTo (fun a => a.round = r ∧ CertifiedBy .e n r a)
      (fun a => r < a.round ∨ a.round = r ∧ CertifiedBy .m n r a) run := by
    apply behaves.answered (behaves.live.invoke n node m known)
    · rintro a b ⟨-, -, anchor, -, rfl⟩
      exact ⟨rfl, _, Set.mem_insert _ _, rfl, rfl, rfl⟩
    · intro a elected
      exact ⟨⟨.m, a.round, n, some m, {n}, a.hBtcAnchored⟩, ⟨rfl, rfl, rfl⟩, known, elected, _,
        .inl rfl, rfl⟩
  exact invoked.trans (behaves.called_ends node r)

private theorem FairRun.certified_ends (behaves : FairRun k run) (method : k.method.Nonempty)
    (r : ℕ) :
    LeadsTo (fun a => a.round = r ∧ ∃ c ∈ a.tree, c.certRound = r) (fun a => r < a.round) run := by
  rintro n ⟨current, c, member, certRound⟩
  have node := ((behaves.invariant n).known c member).2.2
  cases type : c.type with
  | e => exact behaves.elected_ends method node r n ⟨current, c, member, type, rfl, certRound⟩
  | m => exact behaves.called_ends node r n ⟨current, c, member, type, rfl, certRound⟩
  | c => exact behaves.committed_ends r n ⟨current, c, member, type, certRound⟩
  | t => exact behaves.timedOut_ends r n ⟨current, c, member, type, certRound⟩

/-- A node has seen the current round only through an election in it. -/
def SeenElected (a : State Node Call) : Prop :=
  ∀ s, a.localTimes s < a.round ∨ Certified .e a.round a

omit [DecidableEq Node] in
private theorem SeenElected.of_kept {a b : State Node Call} (seen : SeenElected a)
    (times : b.localTimes = a.localTimes) (round : b.round = a.round) (grows : a.tree ⊆ b.tree) :
    SeenElected b := by
  intro s
  rw [times, round]
  refine (seen s).imp_right ?_
  rintro ⟨c, member, kind⟩
  exact ⟨c, grows member, kind⟩

theorem SeenElected.next {a b : State Node Call} (seen : SeenElected a)
    (invariant : Invariant k a) (step : Next k a b) : SeenElected b := by
  have bounded : ∀ s, a.localTimes s ≤ a.round := by
    intro s
    by_cases inside : s ∈ chosenQuorum k
    · exact (invariant.seen s inside).1
    · rw [invariant.outside s inside]
      exact Nat.zero_le _
  have started : SeenElected (startNext k a) := fun s => .inl (Nat.lt_succ_of_le (bounded s))
  rcases step with elapse | start | early | skip | pull | invoke | push | timeout | update |
    change | reorg
  · obtain ⟨-, -, rfl⟩ := elapse
    exact seen.of_kept rfl rfl subset_rfl
  · obtain ⟨-, rfl⟩ := start
    exact started
  · obtain ⟨-, rfl⟩ := early
    exact started
  · obtain ⟨-, rfl⟩ := skip
    exact started
  · obtain ⟨n, -, cmax, -, -, -, anchor, -, rfl⟩ := pull
    exact fun _ => .inr ⟨_, Set.mem_insert _ _, rfl, rfl⟩
  · obtain ⟨n, -, m, -, -, -, anchor, -, rfl⟩ := invoke
    exact seen.of_kept rfl rfl (Set.subset_insert _ _)
  · obtain ⟨n, -, -, anchor, -, rfl⟩ := push
    exact seen.of_kept rfl rfl (Set.subset_insert _ _)
  · obtain ⟨n, -, -, anchor, -, rfl⟩ := timeout
    exact seen.of_kept rfl rfl (Set.subset_insert _ _)
  · obtain ⟨height, -, anchored, -, -, rfl⟩ := update
    exact seen.of_kept rfl rfl subset_rfl
  · obtain ⟨state, -, -, rfl⟩ := change
    exact seen.of_kept rfl rfl subset_rfl
  · obtain ⟨-, height, -, lost, -, rfl⟩ := reorg
    exact seen.of_kept rfl rfl subset_rfl

private theorem FairRun.seenElected (behaves : FairRun k run) (n : ℕ) : SeenElected (run n) := by
  induction n with
  | zero =>
      obtain init : run 0 = _ := behaves.init
      rw [init]
      exact fun _ => .inl Nat.one_pos
  | succ n ih =>
      rcases behaves.next n with next | same
      · exact ih.next (behaves.invariant n) next
      · rw [same]
        exact ih

private theorem FairRun.untouched (behaves : FairRun k run) (method : k.method.Nonempty) {n : ℕ}
    (never : ∀ m, n ≤ m → ¬ (run n).round < (run m).round) {m : ℕ} (later : n ≤ m) :
    (run m).round = (run n).round ∧ 0 < (run m).remTime ∧
      ∀ c ∈ (run m).tree, c.certRound ≠ (run n).round := by
  have current : (run m).round = (run n).round := by
    induction m, later using Nat.le_induction with
    | base => rfl
    | succ m later ih =>
        rcases (behaves.next m).past_or_kept ih with past | ⟨kept, -⟩
        · exact absurd past (never (m + 1) (by omega))
        · exact kept
  refine ⟨current, Nat.pos_of_ne_zero fun expired => ?_, fun c member certRound => ?_⟩
  · obtain ⟨m', later', past⟩ := behaves.expired_ends _ m ⟨current, expired⟩
    exact never m' (by omega) past
  · obtain ⟨m', later', past⟩ :=
      behaves.certified_ends method _ m ⟨current, c, member, certRound⟩
    exact never m' (by omega) past

end Behaviours

/-! Leaders that are elected and then silent. -/

section SilentLeaders

variable {k} {a : State Node Call}

def advance (a : State Node Call) : State Node Call :=
  { a with hBtcCurrent := a.hBtcCurrent + 1 }

/-- `Pull` of the root by a node that has not seen the round. -/
noncomputable def pullIfBehind (k : Constants Node Call) (n : Node) (a : State Node Call) :
    State Node Call :=
  if a.round > a.localTimes n then
    { a with
      localTimes := fun s => if s ∈ chosenQuorum k then a.round else a.localTimes s
      tree := insert ⟨.e, a.round, n, none, chosenQuorum k, a.hBtcCurrent⟩ a.tree }
  else a

structure Quiet (k : Constants Node Call) (a : State Node Call) : Prop where
  invariant : Invariant k a
  timer : a.remTime = k.resetTime
  fsmState : a.fsmState = .anchored
  deep : k.kDeepFinality ≤ a.hBtcCurrent
  silent : ∀ c ∈ a.tree, c.type = .e ∨ c.type = .t

namespace Quiet

omit [DecidableEq Node] in
theorem initial (init : Init k a) : Quiet k a := by
  have invariant := Invariant.initial init
  obtain rfl := init
  exact ⟨invariant, rfl, rfl, le_rfl, nofun⟩

omit [DecidableEq Node] in
theorem electable (quiet : Quiet k a) : Electable k a := by
  refine ⟨VirtualRoot k, Set.mem_insert _ _, rfl, fun s _ => ?_, ?_⟩
  · have nothing : ¬ ∃ c ∈ a.tree, c.type = .c ∧ s ∈ c.voters := by
      rintro ⟨c, member, commit, -⟩
      rcases quiet.silent c member with type | type <;> cases type.symm.trans commit
    unfold Active
    rw [dif_neg nothing]
    exact le_rfl
  · rw [quiet.fsmState]
    have deep := quiet.deep
    refine ⟨Nat.zero_le _, ?_⟩
    show (a.hBtcCurrent : ℤ) - (0 : ℕ) ≥ k.kDeepFinality
    omega

omit [DecidableEq Node] in
private theorem updates (quiet : Quiet k a) : UpdateEnv a (advance a) :=
  ⟨_, .inr rfl, _, le_rfl, quiet.invariant.anchored.1.trans (Nat.le_succ _), rfl⟩

private theorem advances (quiet : Quiet k a) : Next k a (advance a) :=
  .inr (.inr (.inr (.inr (.inr (.inr (.inr (.inr (.inl quiet.updates))))))))

theorem advance (quiet : Quiet k a) : Quiet k (advance a) :=
  ⟨quiet.invariant.step quiet.advances, quiet.timer, quiet.fsmState,
    quiet.deep.trans (Nat.le_succ _), quiet.silent⟩

theorem pulls (quiet : Quiet k a) {n : Node} (behind : a.round > a.localTimes n) :
    Pull k a (pullIfBehind k n a) n := by
  obtain ⟨cmax, candidate, elects⟩ := quiet.electable
  refine ⟨cmax, candidate, elects, behind, a.hBtcCurrent, .inr rfl, ?_⟩
  rw [pullIfBehind, if_pos behind]

private theorem pullStep (quiet : Quiet k a) {n : Node} (node : n ∈ k.nodes) :
    NextOrStutter k a (pullIfBehind k n a) := by
  by_cases behind : a.round > a.localTimes n
  · exact .inl (.inr (.inr (.inr (.inr (.inl ⟨n, node, quiet.pulls behind⟩)))))
  · exact .inr (if_neg behind)

theorem pull (quiet : Quiet k a) {n : Node} (node : n ∈ k.nodes) :
    Quiet k (pullIfBehind k n a) := by
  by_cases behind : a.round > a.localTimes n
  · have invariant : Invariant k (pullIfBehind k n a) :=
      quiet.invariant.step (.inr (.inr (.inr (.inr (.inl ⟨n, node, quiet.pulls behind⟩)))))
    rw [pullIfBehind, if_pos behind] at invariant ⊢
    refine ⟨invariant, quiet.timer, quiet.fsmState, quiet.deep, ?_⟩
    rintro c (rfl | old)
    · exact .inl rfl
    · exact quiet.silent c old
  · rw [pullIfBehind, if_neg behind]
    exact quiet

end Quiet

section Behaviours

variable {run : ℕ → State Node Call}

omit [DecidableEq Node] in
private theorem not_enabled_of_quiet (quiet : Quiet k a) (timed : 0 < k.resetTime) :
    ¬ Enabled (Changes (TimeoutStartNext k)) a ∧ ¬ Enabled (Changes (EarlyStartNext k)) a ∧
      ∀ n, ¬ Enabled (Changes fun a a' => Push a a' n) a := by
  refine ⟨?_, ?_, fun n => ?_⟩
  · rintro ⟨b, ⟨expired, -⟩, -⟩
    exact timed.ne' (quiet.timer.symm.trans expired)
  · rintro ⟨b, ⟨⟨c, member, commit, -⟩, -⟩, -⟩
    rcases quiet.silent c member with type | type <;> cases type.symm.trans commit
  · rintro ⟨b, ⟨⟨c, member, call, -⟩, -⟩, -⟩
    rcases quiet.silent c member with type | type <;> cases type.symm.trans call

private theorem leaderless_of_quiet (quiet : ∀ i, Quiet k (run i)) (timed : 0 < k.resetTime)
    (advances : ∀ i, ∃ m, i ≤ m ∧ run (m + 1) = advance (run m))
    (skips : WeaklyFair (Changes (TimeoutSkipNext k)) run)
    (pulls : ∀ n ∈ k.nodes, ∀ i, ∃ m, i ≤ m ∧ run (m + 1) = pullIfBehind k n (run m) ∧
      ∀ c ∈ (run m).tree, c.certRound = (run m).round → c.btcAnchored ≠ (run m).hBtcCurrent) :
    LeaderlessLiveness k run where
  timeoutStart i enabled :=
    absurd (enabled i le_rfl) (not_enabled_of_quiet (quiet i) timed).1
  earlyStart i enabled :=
    absurd (enabled i le_rfl) (not_enabled_of_quiet (quiet i) timed).2.1
  timeoutSkip := skips
  updateEnv i _ := by
    obtain ⟨m, later, step⟩ := advances i
    refine ⟨m, later, ?_⟩
    rw [step]
    exact ⟨(quiet m).updates, fun same =>
      absurd (congrArg State.hBtcCurrent same) (Nat.succ_ne_self _)⟩
  pull n node i enabled := by
    obtain ⟨m, later, step, fresh⟩ := pulls n node i
    refine ⟨m, later, ?_⟩
    obtain ⟨b, ⟨-, -, -, behind, -⟩, -⟩ := enabled m later
    rw [step]
    refine ⟨(quiet m).pulls behind, ?_⟩
    rw [pullIfBehind, if_pos behind]
    exact ne_of_added (Set.mem_insert _ _) fun member => fresh _ member rfl rfl

end Behaviours

omit [DecidableEq Node] in
private theorem exists_turns (k : Constants Node Call) : ∃ turn :
    ℕ → Node, (∀ j, turn j ∈ k.nodes) ∧ ∀ n ∈ k.nodes, ∀ i, ∃ j, i ≤ j ∧ turn j = n := by
  have : Nonempty k.nodes := k.nonempty.to_subtype
  obtain ⟨order, onto⟩ := exists_surjective_nat k.nodes
  refine ⟨fun j => order j.unpair.1, fun j => (order _).2, fun n node i => ?_⟩
  obtain ⟨m, place⟩ := onto ⟨n, node⟩
  refine ⟨Nat.pair m i, Nat.right_le_pair m i, ?_⟩
  show (order (Nat.pair m i).unpair.1 : Node) = n
  rw [Nat.unpair_pair, place]

noncomputable def silentRun (k : Constants Node Call) (turn : ℕ → Node)
    (start : State Node Call) : ℕ → State Node Call :=
  roundRobin 2 (fun s j a => if s = 0 then advance a else pullIfBehind k (turn j) a) start

def FirstElections (a : State Node Call) : Prop := a.round = 1 ∧ ∀ c ∈ a.tree, c.type = .e

section SilentRun

variable {turn : ℕ → Node} {start : State Node Call}

private theorem silentRun_advances (j : ℕ) : silentRun k turn start (2 * j + 0 + 1) =
    advance (silentRun k turn start (2 * j + 0)) := roundRobin_step Nat.two_pos j

private theorem silentRun_pulls (j : ℕ) : silentRun k turn start (2 * j + 1 + 1) =
    pullIfBehind k (turn j) (silentRun k turn start (2 * j + 1)) :=
  roundRobin_step Nat.one_lt_two j

private theorem silentRun_quiet (init : Init k start) (nodes : ∀ j, turn j ∈ k.nodes) (i : ℕ) :
    Quiet k (silentRun k turn start i) := by
  refine roundRobin_invariant (.initial init) (fun s j a quiet => ?_) i
  show Quiet k (if s = 0 then advance a else pullIfBehind k (turn j) a)
  split
  · exact quiet.advance
  · exact quiet.pull (nodes j)

private theorem silentRun_elections (init : Init k start) (i : ℕ) :
    FirstElections (silentRun k turn start i) := by
  have first : FirstElections start := by
    obtain rfl := init
    exact ⟨rfl, nofun⟩
  refine roundRobin_invariant first (fun s j a elections => ?_) i
  show FirstElections (if s = 0 then advance a else pullIfBehind k (turn j) a)
  unfold pullIfBehind
  split_ifs
  · exact elections
  · refine ⟨elections.1, ?_⟩
    rintro c (rfl | old)
    · rfl
    · exact elections.2 c old
  · exact elections

private theorem silentRun_next (init : Init k start) (nodes : ∀ j, turn j ∈ k.nodes) (i : ℕ) :
    NextOrStutter k (silentRun k turn start i) (silentRun k turn start (i + 1)) := by
  have quiet := silentRun_quiet init nodes i
  show NextOrStutter k _ (if i % 2 = 0 then advance (silentRun k turn start i) else
    pullIfBehind k (turn (i / 2)) (silentRun k turn start i))
  split
  · exact .inl quiet.advances
  · exact quiet.pullStep (nodes _)

private theorem silentRun_leaderless (init : Init k start) (nodes : ∀ j, turn j ∈ k.nodes)
    (again : ∀ n ∈ k.nodes, ∀ i, ∃ j, i ≤ j ∧ turn j = n) (timed : 0 < k.resetTime) :
    LeaderlessLiveness k (silentRun k turn start) := by
  have quiet := silentRun_quiet init nodes
  apply leaderless_of_quiet quiet timed
  · exact fun i => ⟨2 * i + 0, by omega, silentRun_advances i⟩
  · intro i enabled
    obtain ⟨b, ⟨⟨c, member, timeout, -⟩, -⟩, -⟩ := enabled i le_rfl
    cases ((silentRun_elections init i).2 c member).symm.trans timeout
  · intro n node i
    obtain ⟨j, later, place⟩ := again n node i
    refine ⟨2 * j + 1, by omega, ?_, fun c member _ same => ?_⟩
    · rw [silentRun_pulls, place]
    · rw [silentRun_advances] at member same
      have older := (quiet (2 * j + 0)).invariant.anchored.2 c member
      have tip : c.btcAnchored = (silentRun k turn start (2 * j + 0)).hBtcCurrent + 1 := same
      omega

private theorem silentRun_elected (init : Init k start) (nodes : ∀ j, turn j ∈ k.nodes) {n : ℕ}
    (later : 2 ≤ n) : Certified .e 1 (silentRun k turn start n) := by
  have round : ∀ i, (silentRun k turn start i).round = 1 :=
    fun i => (silentRun_elections init i).1
  induction n, later using Nat.le_induction with
  | base =>
      have unseen : (silentRun k turn start 1).localTimes (turn 0) = 0 := by
        obtain rfl := init
        rfl
      have behind : (silentRun k turn start 1).round >
          (silentRun k turn start 1).localTimes (turn 0) := by
        rw [round, unseen]
        exact Nat.one_pos
      rw [show silentRun k turn start 2 = _ from silentRun_pulls 0, pullIfBehind, if_pos behind]
      exact ⟨_, Set.mem_insert _ _, rfl, round 1⟩
  | succ n _ ih =>
      rcases ih.kept (round n) (silentRun_next init nodes n) with past | ⟨-, kept⟩
      · rw [round] at past
        exact absurd past (lt_irrefl 1)
      · exact kept

end SilentRun

/-- Without the fairness of `Push` and `Invoke` the first round may last for ever under
elected leaders that stay silent, so that the tree holds elections only: they stop the timer,
and `TimeoutSkipNext` is no way out, since no node has to give up on the round. -/
theorem silent_leaders_stall (k : Constants Node Call) (timed : 0 < k.resetTime) :
    ∃ run, Init k (run 0) ∧ (∀ n, NextOrStutter k (run n) (run (n + 1))) ∧
      LeaderlessLiveness k run ∧ (∀ n, (run n).round = 1) ∧
      (∀ n, 2 ≤ n → Certified .e 1 (run n)) ∧ ∀ n, ∀ c ∈ (run n).tree, c.type = .e := by
  obtain ⟨turn, nodes, again⟩ := exists_turns k
  obtain ⟨start, init⟩ : ∃ start : State Node Call, Init k start := ⟨_, rfl⟩
  exact ⟨silentRun k turn start, init, silentRun_next init nodes,
    silentRun_leaderless init nodes again timed, fun n => (silentRun_elections init n).1,
    fun n later => silentRun_elected init nodes later, fun n => (silentRun_elections init n).2⟩

theorem silent_leaders_stall_oneNode : ∃ run : ℕ → State Unit Unit,
    LeaderlessLiveness oneNode run ∧ ∀ n, (run n).round = 1 := by
  obtain ⟨run, -, -, fair, stalls, -⟩ := silent_leaders_stall oneNode (by decide)
  exact ⟨run, fair, stalls⟩

noncomputable def timeOutOnce (k : Constants Node Call) (n : Node) (a : State Node Call) :
    State Node Call :=
  open Classical in
  if Certified .t a.round a then a
  else { a with tree := insert ⟨.t, a.round, n, none, chosenQuorum k, a.hBtcAnchored⟩ a.tree }

omit [DecidableEq Node] in
private theorem timeOutOnce_certified (n : Node) : (timeOutOnce k n a).round = a.round ∧
    Certified .t a.round (timeOutOnce k n a) := by
  unfold timeOutOnce
  split_ifs with given
  · exact ⟨rfl, given⟩
  · exact ⟨rfl, _, Set.mem_insert _ _, rfl, rfl⟩

private theorem Quiet.timeOutStep (quiet : Quiet k a) {n : Node} (node : n ∈ k.nodes) :
    NextOrStutter k a (timeOutOnce k n a) ∧ Quiet k (timeOutOnce k n a) := by
  unfold timeOutOnce
  split_ifs with given
  · exact ⟨.inr rfl, quiet⟩
  · let new : Cache Node Call := ⟨.t, a.round, n, none, chosenQuorum k, a.hBtcAnchored⟩
    have step : Next k a { a with tree := insert new a.tree } :=
      .inr (.inr (.inr (.inr (.inr (.inr (.inr (.inl ⟨n, node, given, _, .inl rfl, rfl⟩)))))))
    refine ⟨.inl step, quiet.invariant.step step, quiet.timer, quiet.fsmState, quiet.deep, ?_⟩
    rintro c (rfl | old)
    · exact .inr rfl
    · exact quiet.silent c old

end SilentLeaders

section Progress

noncomputable def skippingRun (start : State Unit Unit) : ℕ → State Unit Unit :=
  roundRobin 4 (fun s _ a => match s with
    | 0 => advance a
    | 1 => pullIfBehind oneNode () a
    | 2 => timeOutOnce oneNode () a
    | _ => startNext oneNode a) start

section SkippingRun

variable {start : State Unit Unit}

private theorem skippingRun_advances (j : ℕ) :
    skippingRun start (4 * j + 0 + 1) = advance (skippingRun start (4 * j + 0)) :=
  roundRobin_step (show 0 < 4 by decide) j

private theorem skippingRun_quiet (init : Init oneNode start) (i : ℕ) :
    Quiet oneNode (skippingRun start i) := by
  have node : () ∈ oneNode.nodes := Finset.mem_singleton_self ()
  refine roundRobin_invariant (.initial init) (fun s j a quiet => ?_) i
  match s with
  | 0 => exact quiet.advance
  | 1 => exact quiet.pull node
  | 2 => exact (quiet.timeOutStep node).2
  | _ + 3 => exact ⟨quiet.invariant.startNext, rfl, quiet.fsmState, quiet.deep, quiet.silent⟩

private theorem skippingRun_skips (j : ℕ) : TimeoutSkipNext oneNode (skippingRun start (4 * j + 3))
    (skippingRun start (4 * j + 3 + 1)) := by
  have given : skippingRun start (4 * j + 2 + 1) =
      timeOutOnce oneNode () (skippingRun start (4 * j + 2)) := roundRobin_step (by decide) j
  obtain ⟨round, certified⟩ :=
    timeOutOnce_certified (k := oneNode) (a := skippingRun start (4 * j + 2)) ()
  rw [← round, ← given] at certified
  exact ⟨certified, roundRobin_step (by decide) j⟩

private theorem skippingRun_fresh (init : Init oneNode start) (j : ℕ) :
    ∀ c ∈ (skippingRun start (4 * j)).tree, c.certRound < (skippingRun start (4 * j)).round := by
  cases j with
  | zero =>
      obtain rfl := init
      exact nofun
  | succ j =>
      have started : skippingRun start (4 * j + 3 + 1) =
          startNext oneNode (skippingRun start (4 * j + 3)) := (skippingRun_skips j).2
      intro c member
      rw [show 4 * (j + 1) = 4 * j + 3 + 1 from rfl, started] at member ⊢
      exact Nat.lt_succ_of_le
        ((skippingRun_quiet init (4 * j + 3)).invariant.known c member).2.1

private theorem skippingRun_next (init : Init oneNode start) (i : ℕ) :
    NextOrStutter oneNode (skippingRun start i) (skippingRun start (i + 1)) := by
  have node : () ∈ oneNode.nodes := Finset.mem_singleton_self ()
  have quiet := skippingRun_quiet init
  refine roundRobin_next (by decide) (fun s j below => ?_) i
  match s, below with
  | 0, _ => exact .inl (quiet (4 * j)).advances
  | 1, _ => exact (quiet (4 * j + 1)).pullStep node
  | 2, _ => exact ((quiet (4 * j + 2)).timeOutStep node).1
  | 3, _ => exact .inl (.inr (.inr (.inr (.inl ⟨(skippingRun_skips j).1, rfl⟩))))

private theorem skippingRun_leaderless (init : Init oneNode start) :
    LeaderlessLiveness oneNode (skippingRun start) := by
  apply leaderless_of_quiet (skippingRun_quiet init) (by decide)
  · exact fun i => ⟨4 * i + 0, by omega, skippingRun_advances i⟩
  · intro i _
    refine ⟨4 * i + 3, by omega, skippingRun_skips i, ?_⟩
    rw [(skippingRun_skips i).2]
    exact startNext_ne _
  · intro n _ i
    refine ⟨4 * i + 1, by omega, roundRobin_step (by decide) i, fun c member current => ?_⟩
    rw [show 4 * i + 1 = 4 * i + 0 + 1 from rfl, skippingRun_advances] at member current
    exact absurd current (skippingRun_fresh init i c member).ne

private theorem skippingRun_fair (init : Init oneNode start) :
    FairRun oneNode (skippingRun start) := by
  refine ⟨init, skippingRun_next init, skippingRun_leaderless init, fun n _ i enabled => ?_,
    fun n _ m _ i enabled => ?_⟩
  · exact absurd (enabled i le_rfl)
      ((not_enabled_of_quiet (skippingRun_quiet init i) (by decide)).2.2 n)
  · obtain ⟨b, ⟨-, ⟨c, member, -, -, current⟩, -⟩, -⟩ := enabled (4 * i) (by omega)
    exact absurd current (skippingRun_fresh init i c member).ne

end SkippingRun

/-- In every fair behaviour a round ends, or it stays untouched for ever with time on its
timer, and then time and again nothing can be elected. -/
theorem round_progress (k : Constants Node Call) {run : ℕ → State Node Call}
    (behaves : FairRun k run) (method : k.method.Nonempty) (n : ℕ) :
    (∃ m, n ≤ m ∧ (run n).round < (run m).round) ∨
    ∀ m, n ≤ m → (run m).round = (run n).round ∧ 0 < (run m).remTime ∧
      (∀ c ∈ (run m).tree, c.certRound ≠ (run n).round) ∧
      ∃ m', m ≤ m' ∧ ¬ Electable k (run m') := by
  by_cases ends : ∃ m, n ≤ m ∧ (run n).round < (run m).round
  · exact .inl ends
  right
  have never : ∀ m, n ≤ m → ¬ (run n).round < (run m).round := fun m later past =>
    ends ⟨m, later, past⟩
  have untouched := fun m (later : n ≤ m) => behaves.untouched method never later
  intro m later
  obtain ⟨current, running, empty⟩ := untouched m later
  refine ⟨current, running, empty, ?_⟩
  by_contra electable
  obtain ⟨leader, node⟩ := k.nonempty
  -- A node that nothing keeps from being elected is elected, and that touches the round.
  obtain ⟨m', later', ⟨cmax, -, -, -, anchor, -, elected⟩, -⟩ :=
      behaves.live.pull leader node m fun m' later' => by
    obtain ⟨current', -, empty'⟩ := untouched m' (by omega)
    obtain ⟨cmax, candidate, elects⟩ : Electable k (run m') := by
      by_contra lost
      exact electable ⟨m', later', lost⟩
    have behind : (run m').round > (run m').localTimes leader := by
      rcases behaves.seenElected m' leader with behind | ⟨c, member, -, certRound⟩
      · exact behind
      · exact absurd (certRound.trans current') (empty' c member)
    refine ⟨_, ⟨cmax, candidate, elects, behind, _, .inl rfl, rfl⟩, ?_⟩
    exact ne_of_added (Set.mem_insert _ _) fun member => empty' _ member current'
  obtain ⟨-, -, empty'⟩ := untouched (m' + 1) (by omega)
  refine empty' ⟨.e, (run m').round, leader, none, chosenQuorum k, anchor⟩ ?_
    (untouched m' (by omega)).1
  rw [elected]
  exact Set.mem_insert _ _

/-- A leader that never speaks, and a node that gives up on it every time. -/
theorem round_progress_silentLeader : ∃ run : ℕ → State Unit Unit, FairRun oneNode run ∧
    ∀ n, ∃ m, n ≤ m ∧ (run n).round < (run m).round := by
  obtain ⟨start, init⟩ : ∃ start : State Unit Unit, Init oneNode start := ⟨_, rfl⟩
  refine ⟨skippingRun start, skippingRun_fair init, fun n => ?_⟩
  rcases round_progress oneNode (skippingRun_fair init) ⟨(), trivial⟩ n with ends | stuck
  · exact ends
  · obtain ⟨-, -, -, m, -, lost⟩ := stuck n le_rfl
    exact absurd (skippingRun_quiet init m).electable lost

end Progress

end Engram.Spec.Consensus
