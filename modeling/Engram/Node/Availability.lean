import Engram.Node.Publisher

/-!
What a verified height says about the blob behind it. `Submit` and `Available` are two
RPC wrappers over one namespace; the second asks whether the namespace has any blob at
the height the first one reported.
-/

set_option autoImplicit false
set_option relaxedAutoImplicit false

namespace Engram.Node

open Engram.Library

/-- The answer to one `blob.Submit`. -/
inductive SubmitReply
  | landed (celestiaHeight : UInt64)
  | sequenceMismatch
  | failed
  deriving DecidableEq, Repr

def maxSubmitSequenceRetries : ℕ := 5

/-- The retry loop of `Submit` with the number of retries left. Its context is never
cancelled. -/
def submitLoop (reply : ℕ → SubmitReply) : ℕ → ℕ → Option UInt64
  | 0, attempt =>
      match reply attempt with
      | .landed celestiaHeight => some celestiaHeight
      | .sequenceMismatch | .failed => none
  | left + 1, attempt =>
      match reply attempt with
      | .landed celestiaHeight => some celestiaHeight
      | .sequenceMismatch => submitLoop reply left (attempt + 1)
      | .failed => none

def submit (reply : ℕ → SubmitReply) : Option UInt64 :=
  submitLoop reply maxSubmitSequenceRetries 0

private theorem submitLoop_eq_some {reply : ℕ → SubmitReply} {left attempt : ℕ}
    {celestiaHeight : UInt64} (returned : submitLoop reply left attempt = some celestiaHeight) :
    ∃ k ≤ left, reply (attempt + k) = .landed celestiaHeight := by
  induction left generalizing attempt with
  | zero =>
      rw [submitLoop] at returned
      split at returned
      · rename_i landed
        exact ⟨0, le_rfl, by rw [Nat.add_zero, landed, Option.some.inj returned]⟩
      all_goals cases returned
  | succ left ih =>
      rw [submitLoop] at returned
      split at returned
      · rename_i landed
        exact ⟨0, Nat.zero_le _, by rw [Nat.add_zero, landed, Option.some.inj returned]⟩
      · obtain ⟨k, few, landed⟩ := ih returned
        exact ⟨k + 1, by omega, by rwa [Nat.add_assoc, Nat.add_comm 1 k] at landed⟩
      · cases returned

/-- A blob as `blob.GetAll` returns it, its data decoded. -/
structure BlobResult where
  ns : List UInt8
  data : List UInt8
  deriving DecidableEq, Repr

inductive GetAllReply
  | blobs (found : List BlobResult)
  | notFound
  | failed
  deriving DecidableEq, Repr

/-- `Available`: a namespace without blobs is reported as an error of its own. -/
def available : GetAllReply → Option Bool
  | .blobs found => some (decide (found.length > 0))
  | .notFound => some false
  | .failed => none

/-- The steps of the publisher with the RPC replies themselves. -/
inductive CelestiaEvent
  | maybePublish (engramHeight : UInt64) (blockData : List UInt8)
      (getAll : UInt64 → GetAllReply)
  | submitReturns (goroutine : ℕ) (reply : ℕ → SubmitReply)
  | submitRecorded (goroutine : ℕ)

def CelestiaEvent.publisherEvent : CelestiaEvent → PublisherEvent
  | .maybePublish engramHeight blockData getAll =>
      .maybePublish engramHeight blockData (fun celestia => available (getAll celestia))
  | .submitReturns i reply => .submitReturns i (submit reply)
  | .submitRecorded i => .submitRecorded i

abbrev CelestiaRun (past : List (Move PublisherSystem CelestiaEvent)) (now : PublisherSystem) :
    Prop :=
  Run (fun s event => PublisherSystem.step s event.publisherEvent) {} past now

/-- `payload` was handed to `MaybePublish` for `height`, and an attempt of the `Submit` of
it landed at the Celestia height `celestia`. -/
def PayloadSubmitted (past : List (Move PublisherSystem CelestiaEvent)) (height : UInt64)
    (payload : List UInt8) (celestia : UInt64) : Prop :=
  (∃ m ∈ past, ∃ getAll, m.input = .maybePublish height payload getAll) ∧
    ∃ m ∈ past, ∃ i reply attempt, m.input = .submitReturns i reply ∧
      reply attempt = .landed celestia ∧ submit reply = some celestia ∧
      m.source.goroutines[i]? = some ⟨height, payload, none⟩

/-- The node returns, for every Celestia height a `Submit` of ours reported, a list with
the submitted payload in it or no list at all. -/
def ReturnsSubmitted (past : List (Move PublisherSystem CelestiaEvent))
    (getAll : UInt64 → GetAllReply) : Prop :=
  ∀ height payload celestia found, PayloadSubmitted past height payload celestia →
    getAll celestia = .blobs found → ∃ b ∈ found, b.data = payload

section Payload

variable {past : List (Move PublisherSystem CelestiaEvent)} {now : PublisherSystem}

private theorem available_eq_true {reply : GetAllReply} (answer : available reply = some true) :
    ∃ found, reply = .blobs found ∧ found ≠ [] := by
  cases reply with
  | blobs found =>
      have occupied : 0 < found.length := by simpa [available] using answer
      exact ⟨found, rfl, List.ne_nil_of_length_pos occupied⟩
  | notFound => cases answer
  | failed => cases answer

private theorem mem_started {p : Publisher} {engramHeight : UInt64} {data : List UInt8}
    {answers : AvailableRPC} {g : Submission}
    (started : g ∈ (p.maybePublish engramHeight data answers).2.toList) :
    g = ⟨engramHeight, data, none⟩ := by
  obtain ⟨-, -, failed, outcome⟩ | ⟨verified, has, failed, -, outcome⟩ :=
    p.maybePublish_cases engramHeight data answers
  · simp [outcome] at started
  · cases busy : p.submitting <;> simp_all

private theorem CelestiaRun.goroutine_called (run : CelestiaRun past now) :
    ∀ g ∈ now.goroutines, ∃ m ∈ past, ∃ getAll,
      m.input = .maybePublish g.engramHeight g.blockData getAll := by
  induction run with
  | initial => exact fun g alive => nomatch alive
  | @extend past now next event _ taken ih =>
      have earlier : ∀ g ∈ now.goroutines, ∃ m ∈ (⟨now, event, next⟩ :: past : List (Move _ _)),
          ∃ getAll, m.input = CelestiaEvent.maybePublish g.engramHeight g.blockData getAll := by
        intro g alive
        obtain ⟨m, member, called⟩ := ih g alive
        exact ⟨m, List.mem_cons_of_mem _ member, called⟩
      intro g alive
      cases event with
      | maybePublish engramHeight data getAll =>
          simp only [CelestiaEvent.publisherEvent, PublisherSystem.step] at taken
          split at taken
          · cases taken
            rcases List.mem_append.mp alive with old | started
            · exact earlier g old
            · refine ⟨_, List.mem_cons_self, getAll, ?_⟩
              rw [mem_started started]
          · cases taken
      | submitReturns i reply =>
          simp only [CelestiaEvent.publisherEvent, PublisherSystem.step] at taken
          split at taken
          · rename_i height data found
            cases taken
            rcases List.mem_or_eq_of_mem_set alive with old | rfl
            · exact earlier g old
            · exact earlier ⟨height, data, none⟩ (List.mem_of_getElem? found)
          · cases taken
      | submitRecorded i =>
          simp only [CelestiaEvent.publisherEvent, PublisherSystem.step] at taken
          split at taken
          · cases taken
            exact earlier g (List.mem_of_mem_eraseIdx alive)
          · cases taken

private theorem CelestiaRun.payloadSubmitted (run : CelestiaRun past now) {height celestia : UInt64}
    (done : SubmitSucceeded (past.map fun m => ⟨m.source, m.input.publisherEvent, m.target⟩)
      height celestia) : ∃ payload, PayloadSubmitted past height payload celestia := by
  obtain ⟨_, member, i, payload, input, alive⟩ := done
  obtain ⟨m, listed, rfl⟩ := List.mem_map.mp member
  obtain ⟨newer, older, rfl, earlier, -⟩ := run.cut_of_mem listed
  obtain ⟨call, before, getAll, called⟩ :=
    CelestiaRun.goroutine_called earlier _ (List.mem_of_getElem? alive)
  refine ⟨payload, ⟨call, ?_, getAll, called⟩, m, listed, i, ?_⟩
  · exact List.mem_append_right _ (List.mem_cons_of_mem _ before)
  · change m.input.publisherEvent = _ at input
    cases event : m.input with
    | submitReturns j reply =>
        rw [event] at input
        obtain ⟨rfl, returned⟩ := PublisherEvent.submitReturns.inj input
        obtain ⟨k, -, landed⟩ := submitLoop_eq_some returned
        exact ⟨reply, 0 + k, rfl, landed, returned, alive⟩
    | maybePublish engramHeight data getAll =>
        rw [event] at input
        cases input
    | submitRecorded j =>
        rw [event] at input
        cases input

private theorem confirming_call {older : List (Move PublisherSystem PublisherEvent)}
    {source target : PublisherSystem} {event : PublisherEvent}
    (inv : PublisherInvariant older source) (taken : source.step event = some target)
    {height : UInt64} (becomes : target.publisher.reportedHeight = (height, true))
    (changed : source.publisher.reportedHeight ≠ (height, true)) :
    ∃ engramHeight data answers, event = .maybePublish engramHeight data answers ∧
      answers source.publisher.pendingCelestiaHt = some true ∧
      SubmitSucceeded older height source.publisher.pendingCelestiaHt := by
  cases event with
  | maybePublish engramHeight data answers =>
      refine ⟨engramHeight, data, answers, rfl, ?_⟩
      simp only [PublisherSystem.step] at taken
      split at taken
      · cases taken
        obtain ⟨-, -, failed, outcome⟩ | ⟨verified, has, failed, progress, outcome⟩ :=
          source.publisher.maybePublish_cases engramHeight data answers
        · rw [outcome] at becomes
          exact absurd becomes changed
        · rw [outcome] at becomes
          rcases progress with ⟨-, rfl, rfl⟩ | ⟨pending, -, answer, rfl, rfl⟩
          · exact absurd becomes changed
          · have same : source.publisher.pendingEngramHeight = height := congrArg Prod.fst becomes
            exact ⟨answer, same ▸ (inv.pending pending).2.2.2⟩
      · cases taken
  | submitReturns i result =>
      simp only [PublisherSystem.step] at taken
      split at taken
      · cases taken
        exact absurd becomes changed
      · cases taken
  | submitRecorded i =>
      simp only [PublisherSystem.step] at taken
      split at taken
      · rename_i result _
        cases taken
        cases result <;> exact absurd becomes changed
      · cases taken

end Payload

/-- When the verified height becomes `height`, a payload of that height had been
submitted, and the namespace had some blob at the Celestia height it landed at; the
payload itself is among them if the node returns what was submitted there. -/
theorem verified_height_available {past : List (Move PublisherSystem CelestiaEvent)}
    {now : PublisherSystem} (run : CelestiaRun past now)
    {newer older : List (Move PublisherSystem CelestiaEvent)}
    {call : Move PublisherSystem CelestiaEvent} (split : past = newer ++ call :: older)
    {height : UInt64} (becomes : call.target.publisher.reportedHeight = (height, true))
    (changed : call.source.publisher.reportedHeight ≠ (height, true)) :
    ∃ engramHeight data getAll payload celestia found,
      call.input = .maybePublish engramHeight data getAll ∧
      PayloadSubmitted older height payload celestia ∧
      getAll celestia = .blobs found ∧ found ≠ [] ∧
      (ReturnsSubmitted older getAll → ∃ b ∈ found, b.data = payload) := by
  subst split
  obtain ⟨before, taken⟩ := run.cut
  obtain ⟨engramHeight, data, answers, input, answer, done⟩ :=
    confirming_call (publisherInvariant_of_run before.mapInput) taken becomes changed
  obtain ⟨payload, submitted⟩ := CelestiaRun.payloadSubmitted before done
  cases event : call.input with
  | maybePublish engramHeight' data' getAll =>
      rw [event] at input
      obtain ⟨rfl, rfl, rfl⟩ := PublisherEvent.maybePublish.inj input
      obtain ⟨found, blobs, nonempty⟩ := available_eq_true answer
      exact ⟨engramHeight', data', getAll, payload, _, found, rfl, submitted, blobs, nonempty,
        fun returns => returns _ _ _ _ submitted blobs⟩
  | submitReturns i reply =>
      rw [event] at input
      cases input
  | submitRecorded i =>
      rw [event] at input
      cases input

section Samples

def landedSystem : PublisherSystem :=
  ⟨{ pendingEngramHeight := 1, pendingCelestiaHt := 5, pendingSinceHeight := 1 }, [], 1⟩

def landedPast : List (Move PublisherSystem CelestiaEvent) :=
  let started : PublisherSystem := ⟨{ submitting := true }, [⟨1, [7], none⟩], 1⟩
  let returned : PublisherSystem := ⟨{ submitting := true }, [⟨1, [7], some (some 5)⟩], 1⟩
  [⟨returned, .submitRecorded 0, landedSystem⟩,
    ⟨started, .submitReturns 0 (fun _ => .landed 5), returned⟩,
    ⟨{}, .maybePublish 1 [7] (fun _ => .notFound), started⟩]

private theorem landedPast_run : CelestiaRun landedPast landedSystem :=
  .extend (.extend (.extend .initial rfl) rfl) rfl

def confirmingMove (blob : BlobResult) (blobs : List BlobResult) :
    Move PublisherSystem CelestiaEvent :=
  ⟨landedSystem, .maybePublish 2 [8] (fun _ => .blobs (blob :: blobs)),
    ⟨{ submitting := true, pendingCelestiaHt := 5, pendingSinceHeight := 1,
       verifiedHeight := 1, hasVerified := true }, [⟨2, [8], none⟩], 2⟩⟩

private theorem confirmingMove_run (blob : BlobResult) (blobs : List BlobResult) :
    CelestiaRun (confirmingMove blob blobs :: landedPast) (confirmingMove blob blobs).target :=
  .extend landedPast_run rfl

end Samples

/-- One blob of another submitter is enough to verify height 1. -/
theorem foreign_blob_verifies :
    ∃ call, CelestiaRun (call :: landedPast) call.target ∧
      call.target.publisher.reportedHeight = (1, true) ∧
      call.source.publisher.reportedHeight ≠ (1, true) ∧
      PayloadSubmitted landedPast 1 [7] 5 ∧
      ∃ getAll, call.input = .maybePublish 2 [8] getAll ∧
        getAll 5 = .blobs [⟨[1], [9]⟩] ∧ ¬ ∃ b ∈ [(⟨[1], [9]⟩ : BlobResult)], b.data = [7] := by
  refine ⟨confirmingMove ⟨[1], [9]⟩ [], confirmingMove_run _ _, rfl, by decide, ?_, _, rfl, rfl,
    by decide⟩
  refine ⟨⟨_, List.mem_cons_of_mem _ (List.mem_cons_of_mem _ List.mem_cons_self), _, rfl⟩,
    _, List.mem_cons_of_mem _ List.mem_cons_self, 0, _, 0, rfl, rfl, rfl, rfl⟩

/-- With the own blob beside the foreign one the payload is among those returned. -/
theorem verified_height_available_one :
    ∃ payload celestia, PayloadSubmitted landedPast 1 payload celestia ∧
      ∃ b ∈ [(⟨[1], [9]⟩ : BlobResult), ⟨[1], [7]⟩], b.data = payload := by
  obtain ⟨_, _, getAll, payload, celestia, found, input, submitted, blobs, -, returns⟩ :=
    verified_height_available (confirmingMove_run ⟨[1], [9]⟩ [⟨[1], [7]⟩])
      (show _ = [] ++ confirmingMove ⟨[1], [9]⟩ [⟨[1], [7]⟩] :: landedPast from rfl)
      rfl (by decide)
  obtain ⟨-, -, rfl⟩ := CelestiaEvent.maybePublish.inj input
  obtain rfl := GetAllReply.blobs.inj blobs
  refine ⟨payload, celestia, submitted, returns ?_⟩
  rintro height payload celestia found ⟨⟨m, member, getAll, called⟩, -⟩ same
  obtain rfl := GetAllReply.blobs.inj same
  have own : payload = [7] := by
    simp only [landedPast, List.mem_cons, List.not_mem_nil, or_false] at member
    rcases member with rfl | rfl | rfl <;> cases called
    rfl
  exact ⟨⟨[1], [7]⟩, by decide, own.symm⟩

end Engram.Node
