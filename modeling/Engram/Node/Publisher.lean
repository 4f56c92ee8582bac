import Engram.Library.GuardedRun
import Engram.Library.Word64

/-!
The DA publisher and its background submissions. A call of `MaybePublish` holds
the mutex from its first line to its last, the availability RPC included. The
goroutine it may start runs `Submit` without the mutex and takes it once, after
`Submit` has returned, to write the outcome back. So the atomic steps are a
call, a return of `Submit` inside one goroutine, and that write.
-/

set_option autoImplicit false
set_option relaxedAutoImplicit false

namespace Engram.Node

open Engram.Library Engram.Library.Word64

def maxPendingBlocks : UInt64 := 60

structure Publisher where
  submitting : Bool := false
  pendingEngramHeight : UInt64 := 0
  pendingCelestiaHt : UInt64 := 0
  pendingSinceHeight : UInt64 := 0
  verifiedHeight : UInt64 := 0
  hasVerified : Bool := false
  lastSubmitFailed : Bool := false
  deriving DecidableEq, Repr

/-- What `Available` answers for a Celestia height: an error, or whether the blob
can be retrieved. -/
abbrev AvailableRPC := UInt64 → Option Bool

/-- A background submission. The inner option is what `Submit` returned, an error
or the Celestia height of the blob; the outer one is empty while it still blocks. -/
structure Submission where
  engramHeight : UInt64
  blockData : List UInt8
  submitResult : Option (Option UInt64)
  deriving DecidableEq, Repr

namespace Publisher

/-- The pending submission had `maxPendingBlocks` worth of checks. -/
def pendingExpired (p : Publisher) (engramHeight : UInt64) : Bool :=
  p.pendingEngramHeight != 0 && decide (engramHeight > p.pendingSinceHeight) &&
    decide (engramHeight - p.pendingSinceHeight > maxPendingBlocks)

def abandonExpired (p : Publisher) (engramHeight : UInt64) : Publisher :=
  if p.pendingExpired engramHeight then
    { p with pendingEngramHeight := 0, lastSubmitFailed := true }
  else p

/-- Whether the call goes on to a new `Submit` after looking at the pending one. -/
inductive Confirmation
  | returned (p : Publisher)
  | continues (p : Publisher)

def confirmPending (p : Publisher) (available : AvailableRPC) : Confirmation :=
  if p.pendingEngramHeight = 0 then .continues p
  else
    match available p.pendingCelestiaHt with
    | none => .returned { p with lastSubmitFailed := true }
    | some false => .returned p
    | some true =>
        .continues { p with
          verifiedHeight := p.pendingEngramHeight
          hasVerified := true
          lastSubmitFailed := false
          pendingEngramHeight := 0 }

/-- The publisher after the call, and the submission it started. -/
def maybePublish (p : Publisher) (engramHeight : UInt64) (blockData : List UInt8)
    (available : AvailableRPC) : Publisher × Option Submission :=
  match (p.abandonExpired engramHeight).confirmPending available with
  | .returned p => (p, none)
  | .continues p =>
      if p.submitting then (p, none)
      else ({ p with submitting := true }, some ⟨engramHeight, blockData, none⟩)

/-- The goroutine's critical section once `Submit` has returned. -/
def finishSubmit (p : Publisher) (engramHeight : UInt64) : Option UInt64 → Publisher
  | none => { p with submitting := false, lastSubmitFailed := true }
  | some celestiaHeight =>
      { p with
        submitting := false
        pendingEngramHeight := engramHeight
        pendingCelestiaHt := celestiaHeight
        pendingSinceHeight := engramHeight }

/-- The method `VerifiedHeight`. -/
def reportedHeight (p : Publisher) : UInt64 × Bool := (p.verifiedHeight, p.hasVerified)

/-- The Celestia height a call asks `Available` about. -/
def asked (p : Publisher) (engramHeight : UInt64) : Option UInt64 :=
  if (p.abandonExpired engramHeight).pendingEngramHeight = 0 then none
  else some p.pendingCelestiaHt

end Publisher

/-- The publisher with its live goroutines, and the height of the last call. -/
structure PublisherSystem where
  publisher : Publisher := {}
  goroutines : List Submission := []
  lastHeight : UInt64 := 0

inductive PublisherEvent
  | maybePublish (engramHeight : UInt64) (blockData : List UInt8) (available : AvailableRPC)
  | submitReturns (goroutine : Nat) (result : Option UInt64)
  | submitRecorded (goroutine : Nat)

/-- Calls come at heights from one on that never go back; goroutines interleave
freely. -/
def PublisherSystem.step (s : PublisherSystem) : PublisherEvent → Option PublisherSystem
  | .maybePublish engramHeight blockData available =>
      if 1 ≤ engramHeight ∧ s.lastHeight ≤ engramHeight then
        let (publisher, started) := s.publisher.maybePublish engramHeight blockData available
        some ⟨publisher, s.goroutines ++ started.toList, engramHeight⟩
      else none
  | .submitReturns i result =>
      match s.goroutines[i]? with
      | some ⟨height, data, none⟩ =>
          some { s with goroutines := s.goroutines.set i ⟨height, data, some result⟩ }
      | _ => none
  | .submitRecorded i =>
      match s.goroutines[i]? with
      | some ⟨height, _, some result⟩ =>
          some { s with
            publisher := s.publisher.finishSubmit height result
            goroutines := s.goroutines.eraseIdx i }
      | _ => none

abbrev PublisherRun (past : List (Move PublisherSystem PublisherEvent)) (now : PublisherSystem) :
    Prop :=
  Run PublisherSystem.step {} past now

/-- A `Submit` for `height` came back with the Celestia height `celestia`. -/
def SubmitSucceeded (past : List (Move PublisherSystem PublisherEvent))
    (height celestia : UInt64) : Prop :=
  ∃ m ∈ past, ∃ i data, m.input = .submitReturns i (some celestia) ∧
    m.source.goroutines[i]? = some ⟨height, data, none⟩

/-- A call asked about the pending blob of `height` and was told it is retrievable,
after a `Submit` for that height had put it at that Celestia height. -/
def ConfirmedAvailable (past : List (Move PublisherSystem PublisherEvent)) (height : UInt64) :
    Prop :=
  ∃ newer older call engramHeight data available celestia,
    past = newer ++ call :: older ∧
    call.input = .maybePublish engramHeight data available ∧
    call.source.publisher.pendingEngramHeight = height ∧
    call.source.publisher.asked engramHeight = some celestia ∧
    available celestia = some true ∧ SubmitSucceeded older height celestia

/-! One call and one write, each described once. -/

private theorem Publisher.pendingExpired_iff (p : Publisher) (engramHeight : UInt64) :
    p.pendingExpired engramHeight = true ↔ p.pendingEngramHeight ≠ 0 ∧
      p.pendingSinceHeight.toNat + maxPendingBlocks.toNat < engramHeight.toNat := by
  have limit : maxPendingBlocks.toNat = 60 := rfl
  simp only [pendingExpired, Bool.and_eq_true, bne_iff_ne, decide_eq_true_eq, gt_iff_lt,
    and_assoc, UInt64.lt_iff_toNat_lt, limit]
  constructor
  · rintro ⟨occupied, above, far⟩
    rw [UInt64.toNat_sub_of_le _ _ (UInt64.le_iff_toNat_le.mpr above.le)] at far
    exact ⟨occupied, by omega⟩
  · rintro ⟨occupied, far⟩
    have above : p.pendingSinceHeight.toNat < engramHeight.toNat := by omega
    refine ⟨occupied, above, ?_⟩
    rw [UInt64.toNat_sub_of_le _ _ (UInt64.le_iff_toNat_le.mpr above.le)]
    omega

/-- Everything a call can do: wait for the pending blob, confirm it, abandon it or
find none, and in the last three cases submit unless a goroutine is alive. -/
theorem Publisher.maybePublish_cases (p : Publisher) (engramHeight : UInt64)
    (data : List UInt8) (available : AvailableRPC) :
    (p.pendingEngramHeight ≠ 0 ∧ p.pendingExpired engramHeight = false ∧
      ∃ failed, p.maybePublish engramHeight data available =
        ({ p with lastSubmitFailed := failed }, none)) ∨
    ∃ verified has failed,
      ((p.pendingEngramHeight = 0 ∨ p.pendingExpired engramHeight = true) ∧
          verified = p.verifiedHeight ∧ has = p.hasVerified ∨
        p.pendingEngramHeight ≠ 0 ∧ p.pendingExpired engramHeight = false ∧
          available p.pendingCelestiaHt = some true ∧
          verified = p.pendingEngramHeight ∧ has = true) ∧
      p.maybePublish engramHeight data available =
        ({ p with
            submitting := true
            pendingEngramHeight := 0
            verifiedHeight := verified
            hasVerified := has
            lastSubmitFailed := failed },
          if p.submitting then none else some ⟨engramHeight, data, none⟩) := by
  by_cases none : p.pendingEngramHeight = 0
  · right
    have kept : p.abandonExpired engramHeight = p := by simp [abandonExpired, pendingExpired, none]
    refine ⟨p.verifiedHeight, p.hasVerified, p.lastSubmitFailed, .inl ⟨.inl none, rfl, rfl⟩, ?_⟩
    cases busy : p.submitting <;> cases p <;>
      simp_all [maybePublish, confirmPending]
  · cases expired : p.pendingExpired engramHeight with
    | true =>
        right
        refine ⟨p.verifiedHeight, p.hasVerified, true, .inl ⟨.inr rfl, rfl, rfl⟩, ?_⟩
        cases busy : p.submitting <;>
          simp [maybePublish, abandonExpired, expired, confirmPending, busy]
    | false =>
        have kept : p.abandonExpired engramHeight = p := by simp [abandonExpired, expired]
        cases answer : available p.pendingCelestiaHt with
        | none =>
            left
            refine ⟨none, rfl, true, ?_⟩
            simp [maybePublish, kept, confirmPending, none, answer]
        | some retrievable =>
            cases retrievable with
            | false =>
                left
                refine ⟨none, rfl, p.lastSubmitFailed, ?_⟩
                simp [maybePublish, kept, confirmPending, none, answer]
            | true =>
                right
                refine ⟨p.pendingEngramHeight, true, false,
                  .inr ⟨none, rfl, rfl, rfl, rfl⟩, ?_⟩
                cases busy : p.submitting <;>
                  simp [maybePublish, kept, confirmPending, none, answer, busy]

/-- A goroutine that is alive started at the height of some call, after the last
height that was verified, and its result is one that `Submit` really gave. -/
structure Submission.Tracked (g : Submission) (past : List (Move PublisherSystem PublisherEvent))
    (now : PublisherSystem) : Prop where
  occupied : g.engramHeight ≠ 0
  fresh : now.publisher.verifiedHeight ≤ g.engramHeight
  called : g.engramHeight ≤ now.lastHeight
  returned : ∀ c, g.submitResult = some (some c) → SubmitSucceeded past g.engramHeight c

structure PublisherInvariant (past : List (Move PublisherSystem PublisherEvent))
    (now : PublisherSystem) : Prop where
  goroutines : now.goroutines = [] ∧ now.publisher.submitting = false ∨
    ∃ g, now.goroutines = [g] ∧ now.publisher.submitting = true ∧
      now.publisher.pendingEngramHeight = 0 ∧ g.Tracked past now
  pending : now.publisher.pendingEngramHeight ≠ 0 →
    now.publisher.pendingSinceHeight = now.publisher.pendingEngramHeight ∧
    now.publisher.verifiedHeight ≤ now.publisher.pendingEngramHeight ∧
    now.publisher.pendingEngramHeight ≤ now.lastHeight ∧
    SubmitSucceeded past now.publisher.pendingEngramHeight now.publisher.pendingCelestiaHt
  verified : now.publisher.verifiedHeight ≤ now.lastHeight
  confirmed : now.publisher.hasVerified = true →
    ConfirmedAvailable past now.publisher.verifiedHeight

section Steps

variable {past : List (Move PublisherSystem PublisherEvent)} {now next : PublisherSystem}

theorem SubmitSucceeded.extend {height celestia : UInt64}
    (m : Move PublisherSystem PublisherEvent) (done : SubmitSucceeded past height celestia) :
    SubmitSucceeded (m :: past) height celestia := by
  obtain ⟨m', member, rest⟩ := done
  exact ⟨m', List.mem_cons_of_mem _ member, rest⟩

theorem ConfirmedAvailable.extend {height : UInt64} (m : Move PublisherSystem PublisherEvent)
    (done : ConfirmedAvailable past height) : ConfirmedAvailable (m :: past) height := by
  obtain ⟨newer, older, call, engramHeight, data, available, celestia, rfl, rest⟩ := done
  exact ⟨m :: newer, older, call, engramHeight, data, available, celestia, rfl, rest⟩

private theorem PublisherInvariant.no_goroutine (inv : PublisherInvariant past now)
    (pending : now.publisher.pendingEngramHeight ≠ 0) :
    now.goroutines = [] ∧ now.publisher.submitting = false := by
  rcases inv.goroutines with idle | ⟨_, _, _, cleared, _⟩
  · exact idle
  · exact absurd cleared pending

private theorem PublisherInvariant.goroutine_eq (inv : PublisherInvariant past now) {i : Nat}
    {g : Submission} (found : now.goroutines[i]? = some g) :
    i = 0 ∧ now.goroutines = [g] ∧ now.publisher.submitting = true ∧
      now.publisher.pendingEngramHeight = 0 ∧ g.Tracked past now := by
  rcases inv.goroutines with ⟨idle, _⟩ | ⟨g', alive, busy, cleared, tracked⟩
  · simp [idle] at found
  · rw [alive] at found
    cases i with
    | zero =>
        obtain rfl : g' = g := by simpa using found
        exact ⟨rfl, alive, busy, cleared, tracked⟩
    | succ i => simp at found

theorem PublisherInvariant.submitReturns (inv : PublisherInvariant past now) {i : Nat}
    {result : Option UInt64} (taken : now.step (.submitReturns i result) = some next) :
    PublisherInvariant (⟨now, .submitReturns i result, next⟩ :: past) next := by
  simp only [PublisherSystem.step] at taken
  split at taken
  · rename_i height data found
    obtain ⟨rfl, alive, busy, cleared, tracked⟩ := inv.goroutine_eq found
    cases taken
    refine ⟨.inr ⟨⟨height, data, some result⟩, by simp [alive], busy, cleared, ?_⟩, ?_,
      inv.verified, fun has => (inv.confirmed has).extend _⟩
    · refine ⟨tracked.occupied, tracked.fresh, tracked.called, ?_⟩
      intro c same
      obtain rfl : result = some c := Option.some.inj same
      exact ⟨_, List.mem_cons_self, 0, data, rfl, found⟩
    · exact fun pending => absurd cleared pending
  · cases taken

theorem PublisherInvariant.submitRecorded (inv : PublisherInvariant past now) {i : Nat}
    (taken : now.step (.submitRecorded i) = some next) :
    PublisherInvariant (⟨now, .submitRecorded i, next⟩ :: past) next := by
  simp only [PublisherSystem.step] at taken
  split at taken
  · rename_i height data result found
    obtain ⟨rfl, alive, busy, cleared, tracked⟩ := inv.goroutine_eq found
    cases taken
    cases result with
    | none =>
        exact ⟨.inl ⟨by simp [alive], rfl⟩, fun pending => absurd cleared pending, inv.verified,
          fun has => (inv.confirmed has).extend _⟩
    | some celestia =>
        refine ⟨.inl ⟨by simp [alive], rfl⟩, fun _ => ?_, inv.verified,
          fun has => (inv.confirmed has).extend _⟩
        exact ⟨rfl, tracked.fresh, tracked.called, (tracked.returned celestia rfl).extend _⟩
  · cases taken

theorem PublisherInvariant.maybePublish (inv : PublisherInvariant past now)
    {engramHeight : UInt64} {data : List UInt8} {available : AvailableRPC}
    (taken : now.step (.maybePublish engramHeight data available) = some next) :
    PublisherInvariant (⟨now, .maybePublish engramHeight data available, next⟩ :: past) next := by
  simp only [PublisherSystem.step] at taken
  split at taken
  · rename_i guard
    obtain ⟨positive, later⟩ := guard
    have occupied : engramHeight ≠ 0 := (pos_of_one_le positive).ne'
    cases taken
    obtain ⟨pending, live, failed, outcome⟩ |
      ⟨verified, has, failed, progress, outcome⟩ :=
        now.publisher.maybePublish_cases engramHeight data available
    · simp only [outcome]
      obtain ⟨idle, quiet⟩ := inv.no_goroutine pending
      obtain ⟨since, fresh, called, submitted⟩ := inv.pending pending
      exact ⟨.inl ⟨by simp [idle], quiet⟩,
        fun _ => ⟨since, fresh, called.trans later, submitted.extend _⟩,
        inv.verified.trans later, fun has => (inv.confirmed has).extend _⟩
    · simp only [outcome]
      have reached : verified ≤ engramHeight := by
        rcases progress with ⟨_, rfl, _⟩ | ⟨pending, _, _, rfl, _⟩
        · exact inv.verified.trans later
        · exact (inv.pending pending).2.2.1.trans later
      refine ⟨?_, fun pending => absurd rfl pending, reached, ?_⟩
      · rcases inv.goroutines with ⟨idle, quiet⟩ | ⟨g, alive, busy, cleared, tracked⟩
        · refine .inr ⟨⟨engramHeight, data, none⟩, by simp [idle, quiet], rfl, rfl, ?_⟩
          exact ⟨occupied, reached, le_rfl, fun _ same => nomatch same⟩
        · refine .inr ⟨g, by simp [alive, busy], rfl, rfl, ?_⟩
          have kept : verified = now.publisher.verifiedHeight := by
            rcases progress with ⟨_, same, _⟩ | ⟨pending, _⟩
            · exact same
            · exact absurd cleared pending
          exact ⟨tracked.occupied, kept.trans_le tracked.fresh, tracked.called.trans later,
            fun c same => (tracked.returned c same).extend _⟩
      · intro holds
        rcases progress with ⟨_, rfl, rfl⟩ | ⟨pending, live, answer, rfl, _⟩
        · exact (inv.confirmed holds).extend _
        · refine ⟨[], past, _, engramHeight, data, available, now.publisher.pendingCelestiaHt,
            rfl, rfl, rfl, ?_, answer, (inv.pending pending).2.2.2⟩
          simp [Publisher.asked, Publisher.abandonExpired, live, pending]
  · cases taken

theorem publisherInvariant_of_run (run : PublisherRun past now) :
    PublisherInvariant past now := by
  induction run with
  | initial =>
      exact ⟨.inl ⟨rfl, rfl⟩, fun pending => absurd rfl pending, le_rfl, fun has => nomatch has⟩
  | @extend past now next event _ taken inv =>
      cases event with
      | maybePublish engramHeight data available => exact inv.maybePublish taken
      | submitReturns i result => exact inv.submitReturns taken
      | submitRecorded i => exact inv.submitRecorded taken

private theorem PublisherInvariant.verifiedHeight_le (inv : PublisherInvariant past now)
    {event : PublisherEvent} (taken : now.step event = some next) :
    now.publisher.verifiedHeight ≤ next.publisher.verifiedHeight ∧
      (now.publisher.hasVerified = true → next.publisher.hasVerified = true) := by
  cases event with
  | maybePublish engramHeight data available =>
      simp only [PublisherSystem.step] at taken
      split at taken
      · cases taken
        obtain ⟨_, _, failed, outcome⟩ | ⟨verified, has, failed, progress, outcome⟩ :=
          now.publisher.maybePublish_cases engramHeight data available
        · simp [outcome]
        · simp only [outcome]
          rcases progress with ⟨_, rfl, rfl⟩ | ⟨pending, _, _, rfl, rfl⟩
          · exact ⟨le_rfl, id⟩
          · exact ⟨(inv.pending pending).2.1, fun _ => rfl⟩
      · cases taken
  | submitReturns i result =>
      simp only [PublisherSystem.step] at taken
      split at taken
      · cases taken
        exact ⟨le_rfl, id⟩
      · cases taken
  | submitRecorded i =>
      simp only [PublisherSystem.step] at taken
      split at taken
      · rename_i result _
        cases taken
        cases result <;> exact ⟨le_rfl, id⟩
      · cases taken

private theorem PublisherInvariant.pending_dropped (inv : PublisherInvariant past now)
    {event : PublisherEvent} (taken : now.step event = some next)
    (pending : now.publisher.pendingEngramHeight ≠ 0)
    (dropped : next.publisher.pendingEngramHeight ≠ now.publisher.pendingEngramHeight) :
    ∃ engramHeight data available, event = .maybePublish engramHeight data available ∧
      (available now.publisher.pendingCelestiaHt = some true ∧
          next.publisher.reportedHeight = (now.publisher.pendingEngramHeight, true) ∨
        now.publisher.pendingEngramHeight.toNat + maxPendingBlocks.toNat <
          engramHeight.toNat) := by
  obtain ⟨idle, _⟩ := inv.no_goroutine pending
  cases event with
  | maybePublish engramHeight data available =>
      refine ⟨engramHeight, data, available, rfl, ?_⟩
      simp only [PublisherSystem.step] at taken
      split at taken
      · cases taken
        obtain ⟨_, _, failed, outcome⟩ | ⟨verified, has, failed, progress, outcome⟩ :=
          now.publisher.maybePublish_cases engramHeight data available
        · simp [outcome] at dropped
        · rcases progress with ⟨cleared | expired, _⟩ | ⟨_, _, answer, rfl, rfl⟩
          · exact absurd cleared pending
          · right
            have far := ((Publisher.pendingExpired_iff _ _).mp expired).2
            rwa [(inv.pending pending).1] at far
          · exact .inl ⟨answer, by simp only [outcome, Publisher.reportedHeight]⟩
      · cases taken
  | submitReturns i result => simp [PublisherSystem.step, idle] at taken
  | submitRecorded i => simp [PublisherSystem.step, idle] at taken

private theorem PublisherInvariant.submit_started (inv : PublisherInvariant past now)
    (idle : now.goroutines = []) {engramHeight : UInt64} (data : List UInt8)
    (available : AvailableRPC) (positive : 1 ≤ engramHeight) (later : now.lastHeight ≤ engramHeight)
    (free : now.publisher.pendingEngramHeight = 0 ∨
      now.publisher.pendingEngramHeight.toNat + maxPendingBlocks.toNat < engramHeight.toNat) :
    ∃ next, now.step (.maybePublish engramHeight data available) = some next ∧
      next.goroutines = [⟨engramHeight, data, none⟩] := by
  have quiet : now.publisher.submitting = false := by
    rcases inv.goroutines with ⟨_, quiet⟩ | ⟨g, alive, _⟩
    · exact quiet
    · simp [idle] at alive
  have expired : now.publisher.pendingEngramHeight ≠ 0 →
      now.publisher.pendingExpired engramHeight = true := by
    intro pending
    rw [Publisher.pendingExpired_iff, (inv.pending pending).1]
    exact ⟨pending, free.resolve_left pending⟩
  obtain ⟨pending, live, _⟩ | ⟨_, _, _, _, outcome⟩ :=
    now.publisher.maybePublish_cases engramHeight data available
  · rw [expired pending] at live
    cases live
  · simp only [PublisherSystem.step, positive, later, and_self, if_true, outcome]
    exact ⟨_, rfl, by simp [idle, quiet]⟩

end Steps

/-- The publisher protocol over every interleaving of calls and goroutines. -/
theorem publisher_protocol {past : List (Move PublisherSystem PublisherEvent)}
    {now : PublisherSystem} (run : PublisherRun past now) :
    (now.goroutines.length ≤ 1 ∧
      (now.goroutines ≠ [] → now.publisher.pendingEngramHeight = 0)) ∧
    (∀ h, now.publisher.reportedHeight = (h, true) → ConfirmedAvailable past h) ∧
    (∀ m ∈ past, m.source.publisher.verifiedHeight ≤ m.target.publisher.verifiedHeight ∧
      (m.source.publisher.hasVerified = true → m.target.publisher.hasVerified = true)) ∧
    (∀ m ∈ past, m.source.publisher.pendingEngramHeight ≠ 0 →
      m.target.publisher.pendingEngramHeight ≠ m.source.publisher.pendingEngramHeight →
      ∃ engramHeight data available, m.input = .maybePublish engramHeight data available ∧
        (available m.source.publisher.pendingCelestiaHt = some true ∧
            m.target.publisher.reportedHeight =
              (m.source.publisher.pendingEngramHeight, true) ∨
          m.source.publisher.pendingEngramHeight.toNat + maxPendingBlocks.toNat <
            engramHeight.toNat)) ∧
    (now.goroutines = [] → ∀ engramHeight data available, 1 ≤ engramHeight →
      now.lastHeight ≤ engramHeight →
      (now.publisher.pendingEngramHeight = 0 ∨
        now.publisher.pendingEngramHeight.toNat + maxPendingBlocks.toNat <
          engramHeight.toNat) →
      ∃ next, now.step (.maybePublish engramHeight data available) = some next ∧
        next.goroutines = [⟨engramHeight, data, none⟩]) := by
  have inv := publisherInvariant_of_run run
  refine ⟨?_, ?_, ?_, ?_, ?_⟩
  · rcases inv.goroutines with ⟨idle, _⟩ | ⟨g, alive, _, cleared, _⟩
    · simp [idle]
    · exact ⟨by simp [alive], fun _ => cleared⟩
  · rintro h reported
    obtain ⟨rfl, has⟩ := Prod.mk.inj reported
    exact inv.confirmed has
  · intro m member
    obtain ⟨_, _, _, before, taken⟩ := run.cut_of_mem member
    exact (publisherInvariant_of_run before).verifiedHeight_le taken
  · intro m member pending dropped
    obtain ⟨_, _, _, before, taken⟩ := run.cut_of_mem member
    exact (publisherInvariant_of_run before).pending_dropped taken pending dropped
  · intro idle engramHeight data available positive later free
    exact inv.submit_started idle data available positive later free

/-- A blob submitted at height one and found retrievable at height two. -/
theorem publisher_protocol_verified_one :
    ∃ past now, PublisherRun past now ∧ now.publisher.reportedHeight = (1, true) ∧
      ConfirmedAvailable past 1 ∧ now.goroutines.length ≤ 1 := by
  obtain ⟨past, now, run, reported⟩ := exists_run_of_replayPasses PublisherSystem.step {}
    [.maybePublish 1 [] (fun _ => none), .submitReturns 0 (some 5), .submitRecorded 0,
      .maybePublish 2 [] (fun celestia => some (celestia == 5))]
    (fun _ now => now.publisher.reportedHeight == (1, true)) (by decide +kernel)
  have verified : now.publisher.reportedHeight = (1, true) := by simpa using reported
  obtain ⟨⟨single, _⟩, confirmed, _⟩ := publisher_protocol run
  exact ⟨past, now, run, verified, confirmed 1 verified, single⟩

end Engram.Node
