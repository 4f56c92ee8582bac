import Engram.Chain.HeaderHistory

/-!
Forced inclusion. A transaction enters the queue in the messages of a block;
the pre-blocker of every later block counts it as ignored or removes it, and the
validator refuses a proposal that leaves out a transaction ignored too often.
-/

set_option autoImplicit false
set_option relaxedAutoImplicit false

namespace Engram.Chain

open Engram.Types Engram.Keeper Engram.Node Engram.Library Engram.Library.Word64

def innerTxs (b : Block) : List Bytes := b.txs.tail

def Queued (st : Store) (tx : Bytes) : Prop := tx ∈ st.forcedTxQueueSlice

instance (st : Store) (tx : Bytes) : Decidable (Queued st tx) :=
  inferInstanceAs (Decidable (tx ∈ st.forcedTxQueueSlice))

def RejectsMarked (external : External) : Prop :=
  ∃ decoder, external.txDecoder = some decoder ∧
    ∀ tx, extendedProposalMarker.isPrefixOf tx = true → ∃ err, decoder tx = .error err

def EntersQueue (external : External) (p : Params) (m : Move Chain Block) (tx : Bytes) : Prop :=
  ¬ Queued (afterPreBlock external p m.source m.input) tx ∧ Queued m.target.store tx

instance (external : External) (p : Params) (m : Move Chain Block) (tx : Bytes) :
    Decidable (EntersQueue external p m tx) := inferInstanceAs (Decidable (_ ∧ _))

private theorem queued_iff (st : Store) (tx : Bytes) :
    Queued st tx ↔ (st.forcedTxQueue.get? tx).isSome = true :=
  OrderedMap.mem_keys_iff _ _

structure QueueInvariant (p : Params) (st : Store) : Prop where
  subset : ∀ tx, (st.txIgnoredRounds.get? tx).isSome = true → Queued st tx
  bounded : ∀ tx n, st.txIgnoredRounds.get? tx = some n → n ≤ p.maxIgnoreRounds + 1
  unmarked : ∀ tx, Queued st tx → extendedProposalMarker.isPrefixOf tx = false

section Messages

variable {external : External}

private theorem deliver_queue (rejects : RejectsMarked external) (st : Store) (msg : Msg) :
    (deliver external st msg).txIgnoredRounds = st.txIgnoredRounds ∧
      (∀ tx, Queued st tx → Queued (deliver external st msg) tx) ∧
      ∀ tx, Queued (deliver external st msg) tx →
        Queued st tx ∨ extendedProposalMarker.isPrefixOf tx = false := by
  obtain ⟨decoder, wired, refuses⟩ := rejects
  obtain same | ⟨forced, rfl, same⟩ | ⟨_, _, same⟩ | ⟨_, st', _, accepted, same⟩ :=
    deliver_cases external st msg
  · rw [same]
    exact ⟨rfl, fun _ queued => queued, fun _ queued => .inl queued⟩
  · cases marked : extendedProposalMarker.isPrefixOf forced with
    | true =>
        obtain ⟨err, refused⟩ := refuses forced marked
        have kept : deliver external st (.submitForcedTx forced) = st := by
          simp [deliver, handleMsg, submitForcedTx, wired, refused]
        rw [kept]
        exact ⟨rfl, fun _ queued => queued, fun _ queued => .inl queued⟩
    | false =>
        rw [same]
        refine ⟨rfl, ?_, ?_⟩
        · intro tx queued
          rw [queued_iff] at queued ⊢
          rw [OrderedMap.get?_set]
          split
          · rfl
          · exact queued
        · intro tx queued
          rw [queued_iff, OrderedMap.get?_set] at queued
          by_cases new : tx = forced
          · exact .inr (new ▸ marked)
          · rw [if_neg new] at queued
            exact .inl ((queued_iff st tx).mpr queued)
  · rw [same]
    exact ⟨rfl, fun _ queued => queued, fun _ queued => .inl queued⟩
  · obtain ⟨_, _, _, _, _, _, rfl⟩ := submitRecoveryProof_cases accepted
    rw [same]
    exact ⟨rfl, fun _ queued => queued, fun _ queued => .inl queued⟩

private theorem deliverAll_queue (rejects : RejectsMarked external) (st : Store) (msgs : List Msg) :
    (deliverAll external st msgs).txIgnoredRounds = st.txIgnoredRounds ∧
      (∀ tx, Queued st tx → Queued (deliverAll external st msgs) tx) ∧
      ∀ tx, Queued (deliverAll external st msgs) tx →
        Queued st tx ∨ extendedProposalMarker.isPrefixOf tx = false := by
  induction msgs generalizing st with
  | nil => exact ⟨rfl, fun _ queued => queued, fun _ queued => .inl queued⟩
  | cons msg msgs ih =>
      obtain ⟨counters, grows, adds⟩ := deliver_queue rejects st msg
      obtain ⟨counters', grows', adds'⟩ := ih (deliver external st msg)
      refine ⟨counters'.trans counters, fun tx queued => grows' tx (grows tx queued), ?_⟩
      intro tx queued
      rcases adds' tx queued with old | new
      · exact adds tx old
      · exact .inr new

end Messages

section Blocks

variable {external : External} {p : Params} {c c' : Chain} {b : Block}

private theorem afterPreBlock_queued (external : External) (p : Params) (c : Chain) (b : Block)
    (tx : Bytes) :
    (Queued (afterPreBlock external p c b) tx ↔ Queued c.store tx ∧ tx ∉ b.txs) ∧
      (afterPreBlock external p c b).txIgnoredRounds.get? tx =
        if Queued c.store tx then
          if tx ∈ b.txs then none
          else some (if c.store.ignoredRounds tx + 1 > p.maxIgnoreRounds + 1 then
            p.maxIgnoreRounds + 1 else c.store.ignoredRounds tx + 1)
        else c.store.txIgnoredRounds.get? tx := by
  obtain ⟨queue, ignored⟩ := preBlocker_get? external p c.nextHeight b.appHash c.store
    b.misbehavior b.txs tx
  refine ⟨?_, ignored⟩
  rw [queued_iff, queued_iff, afterPreBlock, queue]
  by_cases inside : tx ∈ b.txs <;> simp [inside]

private theorem decided_includes (decided : decideBlock external p c b = some c') :
    (∃ first, b.txs = first :: innerTxs b ∧
      extendedProposalMarker.isPrefixOf first = true) ∧
    (b.round < p.maxCensorshipRounds → ∀ tx, Queued c.store tx →
      p.maxIgnoreRounds ≤ c.store.ignoredRounds tx → tx ∈ innerTxs b) := by
  unfold decideBlock at decided
  split at decided
  · rename_i guard
    have accepted := guard.2
    unfold processProposal at accepted
    cases txs : b.txs with
    | nil => simp [txs] at accepted
    | cons first rest =>
        have inner : innerTxs b = rest := by rw [innerTxs, txs, List.tail_cons]
        simp only [txs] at accepted
        split at accepted
        · rename_i ext decoded
          refine ⟨⟨first, by rw [inner], ?_⟩, ?_⟩
          · unfold decodeExtendedProposal at decoded
            split at decoded
            · assumption
            · cases decoded
          · intro early tx queued overdue
            obtain ⟨uncensored, _⟩ := (processExtended_iff _ _ _ _ _ _ _).mp accepted
            by_contra omitted
            refine uncensored ⟨early, (isCensoring_iff _ _ _ _).mpr ⟨tx, ?_, ?_, ?_⟩⟩
            · simpa [Queued, Store.forcedTxQueueSlice] using queued
            · simpa [Store.ignoredRounds] using overdue
            · rw [inner] at omitted
              simpa using omitted
        · cases accepted
  · cases decided

private theorem QueueInvariant.preBlock (held : QueueInvariant p c.store) (external : External)
    (b : Block) :
    QueueInvariant p (afterPreBlock external p c b) := by
  refine ⟨?_, ?_, ?_⟩
  · intro tx counted
    obtain ⟨queued, ignored⟩ := afterPreBlock_queued external p c b tx
    rw [ignored] at counted
    rw [queued]
    by_cases before : Queued c.store tx
    · refine ⟨before, fun inside => ?_⟩
      simp [before, inside] at counted
    · rw [if_neg before] at counted
      exact absurd (held.subset tx counted) before
  · intro tx n counted
    rw [(afterPreBlock_queued external p c b tx).2] at counted
    split_ifs at counted with before inside capped
    · obtain rfl := Option.some.inj counted
      exact le_refl _
    · obtain rfl := Option.some.inj counted
      exact not_lt.mp capped
    · exact held.bounded tx n counted
  · intro tx queued
    exact held.unmarked tx ((afterPreBlock_queued external p c b tx).1.mp queued).1

theorem QueueInvariant.step (rejects : RejectsMarked external)
    (held : QueueInvariant p c.store) (decided : decideBlock external p c b = some c') :
    QueueInvariant p c'.store := by
  have before := held.preBlock external b
  obtain ⟨counters, grows, adds⟩ := deliverAll_queue rejects (afterPreBlock external p c b) b.msgs
  rw [← decided_store decided] at counters grows adds
  refine ⟨?_, ?_, ?_⟩
  · intro tx counted
    rw [counters] at counted
    exact grows tx (before.subset tx counted)
  · intro tx n counted
    rw [counters] at counted
    exact before.bounded tx n counted
  · intro tx queued
    rcases adds tx queued with old | new
    · exact before.unmarked tx old
    · exact new

end Blocks

private theorem queueInvariant_of_run {external : External} {p : Params}
    {past : List (Move Chain Block)} {now : Chain} (rejects : RejectsMarked external)
    (run : ChainRun external p past now) : QueueInvariant p now.store := by
  refine run.invariant (I := fun c => QueueInvariant p c.store) ?_ ?_
  · refine ⟨?_, ?_, ?_⟩
    · intro tx counted
      cases counted
    · intro tx n counted
      cases counted
    · intro tx queued
      cases queued
  · intro c b c' held decided
    exact held.step rejects decided

private theorem waiting_step {external : External} {p : Params} {c c' : Chain} {b : Block}
    {tx : Bytes} (room : p.maxIgnoreRounds.toNat + 1 < 2 ^ 64) (rejects : RejectsMarked external)
    (held : QueueInvariant p c.store) (decided : decideBlock external p c b = some c')
    (early : b.round < p.maxCensorshipRounds) (queued : Queued c.store tx) :
    (tx ∈ innerTxs b ∧ ¬ Queued (afterPreBlock external p c b) tx) ∨
      (Queued c'.store tx ∧
        (c'.store.ignoredRounds tx).toNat = (c.store.ignoredRounds tx).toNat + 1 ∧
        (c.store.ignoredRounds tx).toNat + 1 ≤ p.maxIgnoreRounds.toNat) := by
  obtain ⟨⟨first, txs, marked⟩, includes⟩ := decided_includes decided
  obtain ⟨kept, ignored⟩ := afterPreBlock_queued external p c b tx
  by_cases inner : tx ∈ innerTxs b
  · refine .inl ⟨inner, fun still => (kept.mp still).2 ?_⟩
    rw [txs]
    exact List.mem_cons_of_mem _ inner
  · have below : (c.store.ignoredRounds tx).toNat < p.maxIgnoreRounds.toNat := by
      by_contra overdue
      exact inner (includes early tx queued (UInt64.le_iff_toNat_le.mpr (not_lt.mp overdue)))
    have outside : tx ∉ b.txs := by
      rw [txs]
      intro listed
      rcases List.mem_cons.mp listed with rfl | behind
      · rw [held.unmarked tx queued] at marked
        cases marked
      · exact inner behind
    have more := toNat_add_one (a := c.store.ignoredRounds tx) (by omega)
    have cap := toNat_add_one room
    have uncapped : ¬ c.store.ignoredRounds tx + 1 > p.maxIgnoreRounds + 1 := by
      rw [gt_iff_lt, UInt64.lt_iff_toNat_lt, more, cap]
      omega
    rw [if_pos queued, if_neg outside, if_neg uncapped] at ignored
    obtain ⟨counters, grows, _⟩ := deliverAll_queue rejects (afterPreBlock external p c b) b.msgs
    rw [← decided_store decided] at counters grows
    refine .inr ⟨grows tx (kept.mpr ⟨queued, outside⟩), ?_, below⟩
    rw [Store.ignoredRounds, counters, ignored, Option.getD_some, more]

private theorem included_or_waiting {external : External} {p : Params} (valid : p.Valid)
    (rejects : RejectsMarked external) {newer older : List (Move Chain Block)}
    {m : Move Chain Block} {now : Chain} {tx : Bytes}
    (run : ChainRun external p (newer ++ m :: older) now)
    (early : ∀ x ∈ newer, x.input.round < p.maxCensorshipRounds)
    (enters : EntersQueue external p m tx) :
    (∃ x ∈ newer, m.target.height + 1 ≤ x.target.height ∧
      x.target.height ≤ m.target.height + p.maxIgnoreRounds.toNat + 1 ∧ tx ∈ innerTxs x.input ∧
      ¬ Queued (afterPreBlock external p x.source x.input) tx) ∨
    (Queued now.store tx ∧ (now.store.ignoredRounds tx).toNat = newer.length ∧
      newer.length ≤ p.maxIgnoreRounds.toNat ∧ now.height = m.target.height + newer.length) := by
  have room : p.maxIgnoreRounds.toNat + 1 < 2 ^ 64 := by
    have below := UInt64.lt_iff_toNat_lt.mp ((p.valid_iff.mp valid).2.2.2.2.2.2.2)
    have limit := p.maxCensorshipRounds.toNat_lt
    omega
  induction newer generalizing now with
  | nil =>
      right
      cases run with
      | @extend _ c _ b before decided =>
          have counters := (queueInvariant_of_run rejects before).preBlock external b
          have kept := (deliverAll_queue rejects (afterPreBlock external p c b) b.msgs).1
          rw [← decided_store decided] at kept
          have fresh : now.store.txIgnoredRounds.get? tx = none := by
            rw [kept, ← Option.not_isSome_iff_eq_none]
            intro counted
            exact enters.1 (counters.subset tx counted)
          refine ⟨enters.2, ?_, Nat.zero_le _, rfl⟩
          rw [Store.ignoredRounds, fresh]
          rfl
  | cons x newer ih =>
      cases run with
      | @extend _ c _ b before decided =>
          rcases ih before (fun x member => early x (List.mem_cons_of_mem _ member)) with
            ⟨x, member, found⟩ | ⟨queued, counted, waiting, height⟩
          · exact .inl ⟨x, List.mem_cons_of_mem _ member, found⟩
          · have grown := decideBlock_height decided
            rcases waiting_step room rejects (queueInvariant_of_run rejects before) decided
              (early _ List.mem_cons_self) queued with
              ⟨included, removed⟩ | ⟨queued', counted', waiting'⟩
            · have low : m.target.height + 1 ≤ now.height := by omega
              have high : now.height ≤ m.target.height + p.maxIgnoreRounds.toNat + 1 := by omega
              exact .inl ⟨_, List.mem_cons_self, low, high, included, removed⟩
            · right
              rw [List.length_cons]
              exact ⟨queued', by omega, by omega, by omega⟩

/-- Forced inclusion over a run: what enters the queue is included in time and
removed, and the counters stay within the queue and their cap. -/
structure ForcedInclusion (external : External) (p : Params) (past : List (Move Chain Block))
    (now : Chain) : Prop where
  deadline : ∀ newer m older tx, past = newer ++ m :: older → EntersQueue external p m tx →
    p.maxIgnoreRounds.toNat + 1 ≤ newer.length →
    ∃ x ∈ newer, m.target.height + 1 ≤ x.target.height ∧
      x.target.height ≤ m.target.height + p.maxIgnoreRounds.toNat + 1 ∧
      tx ∈ innerTxs x.input ∧ ¬ Queued (afterPreBlock external p x.source x.input) tx
  counters : ∀ kv ∈ now.store.txIgnoredRounds.entries, Queued now.store kv.1 ∧
    kv.2.toNat ≤ p.maxIgnoreRounds.toNat + 1

/-- Every run of blocks decided below the round limit, whatever is submitted and
resubmitted in between, keeps the deadline. -/
theorem forced_inclusion {external : External} {p : Params} (valid : p.Valid)
    (rejects : RejectsMarked external) {past : List (Move Chain Block)} {now : Chain}
    (run : ChainRun external p past now)
    (early : ∀ x ∈ past, x.input.round < p.maxCensorshipRounds) :
    ForcedInclusion external p past now := by
  constructor
  · intro newer m older tx split enters enough
    subst split
    rcases included_or_waiting valid rejects run
      (fun x member => early x (List.mem_append_left _ member)) enters with
      included | ⟨_, _, waiting, _⟩
    · exact included
    · omega
  · intro kv member
    have held := queueInvariant_of_run rejects run
    have stored := OrderedMap.get?_of_mem _ member
    refine ⟨held.subset kv.1 (by rw [stored]; rfl), ?_⟩
    have bound := UInt64.le_iff_toNat_le.mp (held.bounded kv.1 kv.2 stored)
    exact le_trans bound (toNat_add_one_le _)

section Samples

def forcedExternal : External :=
  { External.ofProposals [attestedProposal .anchored true 0 0] (fun _ _ => false) with
    txDecoder := some (fun tx =>
      if extendedProposalMarker.isPrefixOf tx then .error "tx parse error" else .ok ()) }

private theorem forcedExternal_rejects : RejectsMarked forcedExternal := by
  refine ⟨_, rfl, ?_⟩
  intro tx marked
  exact ⟨"tx parse error", by rw [marked]; rfl⟩

def carryingBlock (txs : List Bytes) (msgs : List Msg) : Block :=
  { proposalBlock (liveSensors 4 0) (attestedProposal .anchored true 0 0) [] msgs with
    txs := encodeExtendedProposal (attestedProposal .anchored true 0 0) :: txs }

/-- A transaction queued in block 1, ignored once, resubmitted, and included in the
last block the deadline allows. -/
theorem forced_inclusion_within_two_blocks :
    ∃ x y m now, ChainRun forcedExternal defaultParams [x, y, m] now ∧
      EntersQueue forcedExternal defaultParams m [7] ∧ ([7] : Bytes) ∉ innerTxs y.input ∧
      (∃ z ∈ [x, y], z.target.height ≤ m.target.height + 2 ∧ [7] ∈ innerTxs z.input ∧
        ¬ Queued (afterPreBlock forcedExternal defaultParams z.source z.input) [7]) ∧
      ForcedInclusion forcedExternal defaultParams [x, y, m] now := by
  obtain ⟨x, older, now, run, passed⟩ := exists_run_of_newestPasses
    (decideBlock forcedExternal defaultParams) genesisChain
    [carryingBlock [] [.submitForcedTx [7]], carryingBlock [] [.submitForcedTx [7]],
      carryingBlock [[7]] []]
    (fun x older => (x :: older).all (fun m => m.input.round < defaultParams.maxCensorshipRounds) &&
      match older with
      | [y, m] => decide (EntersQueue forcedExternal defaultParams m [7]) &&
          decide (([7] : Bytes) ∉ innerTxs y.input)
      | [] | [_] | _ :: _ :: _ :: _ => false)
    (by decide +kernel)
  obtain ⟨early, entered⟩ := Bool.and_eq_true_iff.mp passed
  simp only [List.all_eq_true, decide_eq_true_eq] at early
  obtain ⟨y, m, rfl⟩ : ∃ y m, older = [y, m] := by
    split at entered
    · exact ⟨_, _, rfl⟩
    all_goals cases entered
  simp only [Bool.and_eq_true, decide_eq_true_eq] at entered
  obtain ⟨enters, ignored⟩ := entered
  have forced := forced_inclusion (by decide) forcedExternal_rejects run early
  obtain ⟨z, member, _, deadline, included, removed⟩ :=
    forced.deadline [x, y] m [] [7] rfl enters le_rfl
  exact ⟨x, y, m, now, run, enters, ignored, ⟨z, member, deadline, included, removed⟩, forced⟩

end Samples

section HonestLeader

/-- Check 0 of `ProcessProposal` on the transactions of a block. -/
def passesCensorshipCheck (p : Params) (st : Store) (txs : List Bytes) (round : UInt64) : Bool :=
  !(round < p.maxCensorshipRounds &&
    isCensoring st.forcedTxQueueSlice st.ignoredRounds txs.tail.contains p.maxIgnoreRounds)

private theorem passesCensorshipCheck_refreshed (p : Params) (height : UInt64) (committed : Store)
    (s : Option Sensors) (txs : List Bytes) (round : UInt64) :
    passesCensorshipCheck p (refreshMetrics p height committed s) txs round =
      passesCensorshipCheck p committed txs round := by
  have counts : (refreshMetrics p height committed s).ignoredRounds = committed.ignoredRounds := by
    funext tx
    simp only [Store.ignoredRounds, refreshMetrics_txIgnoredRounds]
  simp only [passesCensorshipCheck, Store.forcedTxQueueSlice, refreshMetrics_forcedTxQueue, counts]

private theorem processProposal_censored {external : External} {p : Params} {s : Option Sensors}
    {height : UInt64} {committed : Store} {txs : List Bytes} {round : UInt64}
    (fails : passesCensorshipCheck p (refreshMetrics p height committed s) txs round = false) :
    processProposal external p s height committed ⟨txs, round⟩ = false := by
  simp only [passesCensorshipCheck, Bool.not_eq_false'] at fails
  unfold processProposal
  cases txs with
  | nil => rfl
  | cons tx innerTxs =>
      simp only
      split
      · rw [processExtended]
        exact if_pos fails
      · rfl

def Overdue (p : Params) (st : Store) (tx : Bytes) : Prop :=
  Queued st tx ∧ p.maxIgnoreRounds ≤ st.ignoredRounds tx

/-- The honest leader's block passes check 0 of every validator exactly when its own
withdrawal filter drops no overdue transaction. -/
theorem honest_leader_passes_iff {p : Params} (c : Chain) (leader validator : Option Sensors)
    {mempool : List Bytes} (queued : ∀ tx, Queued c.store tx → tx ∈ mempool) {round : UInt64}
    (early : round < p.maxCensorshipRounds) :
    passesCensorshipCheck p (refreshMetrics p c.nextHeight c.store validator)
        (prepareProposal p leader c.nextHeight c.store .honest mempool) round = true ↔
      ¬ (withdrawLocked (leaderProposal p leader c.nextHeight c.store).fsmState = true ∧
        ∃ tx, Overdue p c.store tx ∧ containsWithdrawal tx = true) := by
  have inner : (prepareProposal p leader c.nextHeight c.store .honest mempool).tail =
      leaderTxs (leaderProposal p leader c.nextHeight c.store).fsmState mempool := rfl
  have dropped : ∀ tx, Queued c.store tx →
      ((leaderTxs (leaderProposal p leader c.nextHeight c.store).fsmState mempool).contains tx =
          false ↔
        withdrawLocked (leaderProposal p leader c.nextHeight c.store).fsmState = true ∧
          containsWithdrawal tx = true) := by
    intro tx waiting
    have available := queued tx waiting
    unfold leaderTxs
    cases withdrawLocked (leaderProposal p leader c.nextHeight c.store).fsmState <;>
      simp [available]
  rw [passesCensorshipCheck_refreshed, passesCensorshipCheck, inner, decide_eq_true early,
    Bool.true_and, Bool.not_eq_true', ← Bool.not_eq_true, isCensoring_iff]
  refine not_congr ⟨?_, ?_⟩
  · rintro ⟨tx, waiting, overdue, omitted⟩
    obtain ⟨locked, withdrawal⟩ := (dropped tx waiting).mp omitted
    exact ⟨locked, tx, ⟨waiting, overdue⟩, withdrawal⟩
  · rintro ⟨locked, tx, ⟨waiting, overdue⟩, withdrawal⟩
    exact ⟨tx, waiting, overdue, (dropped tx waiting).mpr ⟨locked, withdrawal⟩⟩

def forcedWithdrawal : Bytes := utf8 "TX_WITHDRAWAL"

def overdueChain : Chain :=
  replayFinal (decideBlock forcedExternal defaultParams) genesisChain
    [carryingBlock [] [.submitForcedTx forcedWithdrawal], carryingBlock [] []]

theorem honest_leader_passes_while_anchored :
    (∃ past, ChainRun forcedExternal defaultParams past overdueChain) ∧
      Overdue defaultParams overdueChain.store forcedWithdrawal ∧
      passesCensorshipCheck defaultParams
        (refreshMetrics defaultParams overdueChain.nextHeight overdueChain.store none)
        (prepareProposal defaultParams (some (liveSensors 4 0)) overdueChain.nextHeight
          overdueChain.store .honest [forcedWithdrawal]) 0 = true := by
  have queue : overdueChain.store.forcedTxQueueSlice = [forcedWithdrawal] := by decide +kernel
  refine ⟨exists_run_replayFinal _ _ _, ⟨by decide +kernel, by decide +kernel⟩, ?_⟩
  refine (honest_leader_passes_iff overdueChain _ _ ?_ (by decide)).mpr ?_
  · intro tx waiting
    rwa [Queued, queue] at waiting
  · intro filtered
    exact absurd filtered.1 (by decide +kernel)

/-- The same chain in an outage: the leader filters the overdue withdrawal and every
validator judges its block as censoring. -/
theorem honest_leader_judged_censor :
    (∃ past, ChainRun forcedExternal defaultParams past overdueChain) ∧
      (∀ tx, Queued overdueChain.store tx → tx ∈ [forcedWithdrawal]) ∧
      ∀ validator : Option Sensors,
        let txs := prepareProposal defaultParams (some (outageSensors 0))
          overdueChain.nextHeight overdueChain.store .honest [forcedWithdrawal]
        passesCensorshipCheck defaultParams (refreshMetrics defaultParams
          overdueChain.nextHeight overdueChain.store validator) txs 0 = false ∧
        processProposal forcedExternal defaultParams validator overdueChain.nextHeight
          overdueChain.store ⟨txs, 0⟩ = false := by
  have queue : overdueChain.store.forcedTxQueueSlice = [forcedWithdrawal] := by decide +kernel
  refine ⟨exists_run_replayFinal _ _ _, fun tx waiting => ?_, fun validator => ?_⟩
  · rwa [Queued, queue] at waiting
  · intro txs
    have fails : passesCensorshipCheck defaultParams (refreshMetrics defaultParams
        overdueChain.nextHeight overdueChain.store validator) txs 0 = false := by
      rw [passesCensorshipCheck_refreshed]
      decide +kernel
    exact ⟨fails, processProposal_censored fails⟩

end HonestLeader

end Engram.Chain
