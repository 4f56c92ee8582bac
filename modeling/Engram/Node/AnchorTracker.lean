import Engram.Library.GuardedRun
import Engram.Node.BlockTag
import Engram.Node.FreshnessWindows

/-!
The anchor tracker as a protocol: at most one checkpoint is outstanding, and a height is
reported once the transaction at it was deep enough. Depth is counted inclusively by
bitcoind, as a difference of heights by `VerifyAnchor` and as a window by `VerifyReceipt`.
-/

set_option autoImplicit false
set_option relaxedAutoImplicit false

namespace Engram.Node.Anchor

open Engram.Types Engram.Library Engram.Library.Word64

/-- A transaction id of bitcoind. The empty string of the source stands for none. -/
structure Txid where
  text : String
  nonempty : text ≠ ""
  deriving DecidableEq

/-- The answer to `gettransaction`: an RPC error, or the confirmations with the height of
the block. -/
inductive TxConfirmation
  | failed
  | status (confirmations : Int64) (blockHeight : UInt64)
  deriving DecidableEq

/-- What one call of `MaybeSubmit` finds: bitcoind with its tip, and the pause file. -/
structure SubmitCall where
  engramHeight : UInt64
  tip : UInt64
  txConfirmation : Txid → TxConfirmation
  paused : Bool
  submitOpReturn : List UInt8 → Option Txid

structure Tracker where
  kDeepFinality : UInt64
  tag : List UInt8 := anchorTag
  pendingTxid : Option Txid := none
  lastConfirmedHeight : UInt64 := 0
  hasConfirmed : Bool := false

namespace Tracker

/-- The tracker that goes on to a new submission; none when the call returns early. -/
def confirmPending (t : Tracker) (call : SubmitCall) : Option Tracker :=
  match t.pendingTxid with
  | none => some t
  | some txid =>
      match call.txConfirmation txid with
      | .failed => none
      | .status confirmations blockHeight =>
          let mined := decide (confirmations > 0)
          if !mined then none
          else if confirmations.toUInt64 < t.kDeepFinality + 1 then none
          else some { t with
            lastConfirmedHeight := blockHeight
            hasConfirmed := true
            pendingTxid := none }

/-- The tag and the big-endian height. -/
def payload (t : Tracker) (engramHeight : UInt64) : List UInt8 :=
  t.tag ++ (List.range 8).map (fun i => (engramHeight.toNat / 256 ^ (7 - i)).toUInt8)

/-- The tracker after the call, and the transaction it broadcast. -/
def maybeSubmit (t : Tracker) (call : SubmitCall) : Tracker × Option Txid :=
  match t.confirmPending call with
  | none => (t, none)
  | some t =>
      if call.paused then (t, none)
      else
        match call.submitOpReturn (t.payload call.engramHeight) with
        | none => (t, none)
        | some txid => ({ t with pendingTxid := some txid }, some txid)

/-- The method `ConfirmedAnchorHeight`. -/
def confirmedAnchorHeight (t : Tracker) : UInt64 × Bool := (t.lastConfirmedHeight, t.hasConfirmed)

/-- The block height of the pending transaction when bitcoind reports it mined with at
least `kDeepFinality + 1` confirmations, over the integers. -/
def deepHeight (t : Tracker) (call : SubmitCall) : Option UInt64 :=
  match t.pendingTxid with
  | none => none
  | some txid =>
      match call.txConfirmation txid with
      | .failed => none
      | .status confirmations blockHeight =>
          if (t.kDeepFinality.toNat : ℤ) + 1 ≤ confirmations.toInt then some blockHeight else none

end Tracker

abbrev TrackerCalls : Tracker → List (Move Tracker SubmitCall) → Tracker → Prop :=
  Run (fun t call => some (t.maybeSubmit call).1)

abbrev TrackerRun (kDeepFinality : UInt64) : List (Move Tracker SubmitCall) → Tracker → Prop :=
  TrackerCalls { kDeepFinality := kDeepFinality }

def broadcast (m : Move Tracker SubmitCall) : Option Txid := (m.source.maybeSubmit m.input).2

def confirmedAt (m : Move Tracker SubmitCall) : Option UInt64 := m.source.deepHeight m.input

def broadcasts (past : List (Move Tracker SubmitCall)) : ℕ :=
  past.countP (fun m => (broadcast m).isSome)

def confirmations (past : List (Move Tracker SubmitCall)) : ℕ :=
  past.countP (fun m => (confirmedAt m).isSome)

/-- What bitcoind promises over a run: confirmations are inclusive, and a transaction
broadcast in or after the call that found another one deep is mined above it. -/
structure BitcoindSound (past : List (Move Tracker SubmitCall)) : Prop where
  inclusive : ∀ m ∈ past, ∀ txid count blockHeight,
    m.input.txConfirmation txid = .status count blockHeight → 0 < count →
      count.toInt = m.input.tip.toNat - blockHeight.toNat + 1
  ascending : ∀ newer m middle b older, past = newer ++ m :: middle ++ b :: older →
    ∀ txid, broadcast b = some txid → m.source.pendingTxid = some txid →
    ∀ count blockHeight, m.input.txConfirmation txid = .status count blockHeight → 0 < count →
    ∀ e ∈ b :: older, ∀ height, confirmedAt e = some height → height < blockHeight

structure TrackerGuarantee (kDeepFinality : UInt64) (past : List (Move Tracker SubmitCall))
    (now : Tracker) : Prop where
  outstanding : broadcasts past ≤ confirmations past + 1
  changes : ∀ m ∈ past, m.target.confirmedAnchorHeight ≠ m.source.confirmedAnchorHeight →
    confirmedAt m = some m.target.lastConfirmedHeight ∧ m.target.hasConfirmed = true
  monotone : ∀ m ∈ past, m.source.lastConfirmedHeight ≤ m.target.lastConfirmedHeight ∧
    (m.source.hasConfirmed = true → m.target.hasConfirmed = true)
  deep : now.hasConfirmed = true → ∃ m ∈ past, confirmedAt m = some now.lastConfirmedHeight ∧
    ∀ (view : AnchorTracker) (current : UInt64), view.kDeepFinality = kDeepFinality →
      view.currentHeight = some current → m.input.tip ≤ current →
      view.verifyAnchor now.lastConfirmedHeight = view.blockContainsTag now.lastConfirmedHeight
  fresh : now.hasConfirmed = true → ∀ fsmState healthy (current anchored : UInt64),
    now.lastConfirmedHeight ≤ current →
    current.toNat ≤ now.lastConfirmedHeight.toNat + kDeepFinality.toNat + 2 →
    anchored ≤ now.lastConfirmedHeight →
    verifyReceipt ⟨now.lastConfirmedHeight, expectedBlockHash now.lastConfirmedHeight⟩ fsmState
      healthy current anchored 0 kDeepFinality = true

section Steps

private theorem not_lt_add_one_iff {count : Int64} {kDeepFinality : UInt64} (mined : 0 < count)
    (fits : kDeepFinality.toNat + 1 < 2 ^ 64) :
    ¬ count.toUInt64 < kDeepFinality + 1 ↔ (kDeepFinality.toNat : ℤ) + 1 ≤ count.toInt := by
  have positive : 0 < count.toInt := Int64.lt_iff_toInt_lt.mp mined
  have value : count.toUInt64.toNat = count.toInt.toNat :=
    Int64.toNat_toUInt64_of_le (Int64.le_iff_toInt_le.mpr positive.le)
  rw [UInt64.lt_iff_toNat_lt, toNat_add_one fits, value]
  omega

private theorem pos_of_deep {count : Int64} {kDeepFinality : UInt64}
    (deep : (kDeepFinality.toNat : ℤ) + 1 ≤ count.toInt) : 0 < count := by
  rw [Int64.lt_iff_toInt_lt]
  show 0 < count.toInt
  omega

private theorem deepHeight_eq_some {t : Tracker} {call : SubmitCall} {height : UInt64}
    (found : t.deepHeight call = some height) : ∃ txid count, t.pendingTxid = some txid ∧
      call.txConfirmation txid = .status count height ∧
      (t.kDeepFinality.toNat : ℤ) + 1 ≤ count.toInt := by
  unfold Tracker.deepHeight at found
  split at found
  · cases found
  · rename_i txid pending
    split at found
    · cases found
    · rename_i count blockHeight status
      obtain ⟨deep, same⟩ := Option.ite_none_right_eq_some.mp found
      obtain rfl := Option.some.inj same
      exact ⟨txid, count, pending, status, deep⟩

private theorem maybeSubmit_of_continues {t t' : Tracker} {call : SubmitCall}
    (free : t'.pendingTxid = none) (continues : t.confirmPending call = some t') :
    ∃ sent, t.maybeSubmit call = ({ t' with pendingTxid := sent }, sent) := by
  have same : t' = { t' with pendingTxid := none } := by rw [← free]
  unfold Tracker.maybeSubmit
  simp only [continues]
  split
  · exact ⟨none, by rw [← same]⟩
  · split
    · exact ⟨none, by rw [← same]⟩
    · exact ⟨_, rfl⟩

private theorem maybeSubmit_cases (t : Tracker) (call : SubmitCall)
    (fits : t.kDeepFinality.toNat + 1 < 2 ^ 64) :
    (t.pendingTxid ≠ none ∧ t.deepHeight call = none ∧ t.maybeSubmit call = (t, none)) ∨
    ∃ height has sent,
      (t.pendingTxid = none ∧ t.deepHeight call = none ∧ height = t.lastConfirmedHeight ∧
          has = t.hasConfirmed ∨
        t.pendingTxid ≠ none ∧ t.deepHeight call = some height ∧ has = true) ∧
      t.maybeSubmit call = ({ t with
        pendingTxid := sent, lastConfirmedHeight := height, hasConfirmed := has }, sent) := by
  cases pending : t.pendingTxid with
  | none =>
      right
      have nothing : t.deepHeight call = none := by simp [Tracker.deepHeight, pending]
      have continues : t.confirmPending call = some t := by simp [Tracker.confirmPending, pending]
      obtain ⟨sent, outcome⟩ := maybeSubmit_of_continues pending continues
      exact ⟨_, _, sent, .inl ⟨rfl, nothing, rfl, rfl⟩, outcome⟩
  | some txid =>
      cases reply : call.txConfirmation txid with
      | failed =>
          left
          simp [Tracker.maybeSubmit, Tracker.confirmPending, Tracker.deepHeight, pending, reply]
      | status count blockHeight =>
          by_cases deep : (t.kDeepFinality.toNat : ℤ) + 1 ≤ count.toInt
          · right
            have mined := pos_of_deep deep
            have reached := (not_lt_add_one_iff mined fits).mpr deep
            have continues : t.confirmPending call = some { t with
                lastConfirmedHeight := blockHeight
                hasConfirmed := true
                pendingTxid := none } := by
              simp [Tracker.confirmPending, pending, reply, mined, reached]
            obtain ⟨sent, outcome⟩ := maybeSubmit_of_continues rfl continues
            refine ⟨blockHeight, true, sent, .inr ⟨nofun, ?_, rfl⟩, outcome⟩
            simp [Tracker.deepHeight, pending, reply, deep]
          · left
            have short : ¬ 0 < count ∨ count.toUInt64 < t.kDeepFinality + 1 := by
              by_cases mined : 0 < count
              · exact .inr (not_not.mp (mt (not_lt_add_one_iff mined fits).mp deep))
              · exact .inl mined
            have nothing : t.deepHeight call = none := by
              simp [Tracker.deepHeight, pending, reply, deep]
            refine ⟨nofun, nothing, ?_⟩
            rcases short with unmined | shallow
            · simp [Tracker.maybeSubmit, Tracker.confirmPending, pending, reply, unmined]
            · simp [Tracker.maybeSubmit, Tracker.confirmPending, pending, reply, shallow]

variable {kDeepFinality : UInt64} {past : List (Move Tracker SubmitCall)} {now : Tracker}

theorem BitcoindSound.tail {m : Move Tracker SubmitCall} (sound : BitcoindSound (m :: past)) :
    BitcoindSound past := by
  refine ⟨fun e member => sound.inclusive e (List.mem_cons_of_mem _ member), ?_⟩
  rintro newer e middle b older rfl
  exact sound.ascending (m :: newer) e middle b older rfl

/-- The pending transaction is the last one broadcast, nothing was found deep since, and
one more was broadcast than found deep while it is pending. -/
structure TrackerInvariant (kDeepFinality : UInt64) (past : List (Move Tracker SubmitCall))
    (now : Tracker) : Prop where
  depth : now.kDeepFinality = kDeepFinality
  counted : broadcasts past = confirmations past + if now.pendingTxid.isSome then 1 else 0
  pending : ∀ txid, now.pendingTxid = some txid → ∃ middle b older, past = middle ++ b :: older ∧
    broadcast b = some txid ∧ ∀ e ∈ middle, confirmedAt e = none
  recorded : now.hasConfirmed = true → ∃ e ∈ past, e.source.kDeepFinality = kDeepFinality ∧
    confirmedAt e = some now.lastConfirmedHeight
  unrecorded : now.hasConfirmed = false → now.lastConfirmedHeight = 0

private theorem broadcasts_cons (m : Move Tracker SubmitCall) :
    broadcasts (m :: past) = broadcasts past + if (broadcast m).isSome then 1 else 0 :=
  List.countP_cons

private theorem confirmations_cons (m : Move Tracker SubmitCall) :
    confirmations (m :: past) = confirmations past + if (confirmedAt m).isSome then 1 else 0 :=
  List.countP_cons

theorem TrackerInvariant.step (fits : kDeepFinality.toNat + 1 < 2 ^ 64)
    (inv : TrackerInvariant kDeepFinality past now) {call : SubmitCall} {next : Tracker}
    {sent : Option Txid} (taken : now.maybeSubmit call = (next, sent)) :
    TrackerInvariant kDeepFinality (⟨now, call, next⟩ :: past) next := by
  have sends : broadcast ⟨now, call, next⟩ = sent := congrArg Prod.snd taken
  have finds : confirmedAt ⟨now, call, next⟩ = now.deepHeight call := rfl
  have kept : ∀ height, (∃ e ∈ past, e.source.kDeepFinality = kDeepFinality ∧
      confirmedAt e = some height) → ∃ e ∈ (⟨now, call, next⟩ :: past),
        e.source.kDeepFinality = kDeepFinality ∧ confirmedAt e = some height := by
    rintro height ⟨e, member, found⟩
    exact ⟨e, List.mem_cons_of_mem _ member, found⟩
  obtain ⟨occupied, nothing, outcome⟩ | ⟨height, has, sent', progress, outcome⟩ :=
    maybeSubmit_cases now call (inv.depth ▸ fits)
  · obtain ⟨same, none⟩ := Prod.mk.inj (taken.symm.trans outcome)
    subst same none
    rw [nothing] at finds
    refine ⟨inv.depth, ?_, ?_, fun has => kept _ (inv.recorded has), inv.unrecorded⟩
    · rw [broadcasts_cons, confirmations_cons, sends, finds, inv.counted]
      rfl
    · intro txid pending
      obtain ⟨middle, b, older, split, sent, quiet⟩ := inv.pending txid pending
      refine ⟨_ :: middle, b, older, by rw [split]; rfl, sent, ?_⟩
      intro e member
      rcases List.mem_cons.mp member with rfl | old
      · exact finds
      · exact quiet e old
  · obtain ⟨same, same'⟩ := Prod.mk.inj (taken.symm.trans outcome)
    subst same' same
    have found : (now.deepHeight call).isSome = now.pendingTxid.isSome := by
      rcases progress with ⟨free, nothing, -, -⟩ | ⟨occupied, found, -⟩
      · rw [free, nothing]
        rfl
      · rw [found, Option.isSome_iff_ne_none.mpr occupied]
        rfl
    refine ⟨inv.depth, ?_, ?_, ?_, ?_⟩
    · rw [broadcasts_cons, confirmations_cons, sends, finds, found, inv.counted]
    · intro txid pending
      exact ⟨[], _, past, rfl, sends.trans pending, fun e none => nomatch none⟩
    · intro holds
      rcases progress with ⟨-, -, rfl, rfl⟩ | ⟨-, deep, -⟩
      · exact kept _ (inv.recorded holds)
      · exact ⟨_, List.mem_cons_self, inv.depth, finds.trans deep⟩
    · intro holds
      rcases progress with ⟨-, -, rfl, rfl⟩ | ⟨-, -, rfl⟩
      · exact inv.unrecorded holds
      · cases holds

private theorem trackerInvariant_of_run (fits : kDeepFinality.toNat + 1 < 2 ^ 64)
    (run : TrackerRun kDeepFinality past now) : TrackerInvariant kDeepFinality past now := by
  induction run with
  | initial => exact ⟨rfl, rfl, nofun, nofun, fun _ => rfl⟩
  | extend _ taken inv =>
      obtain rfl := Option.some.inj taken
      exact inv.step fits rfl

/-- A call that changes the reported height found the pending transaction deep there, and
that height is above the one reported before. -/
theorem TrackerInvariant.reported (fits : kDeepFinality.toNat + 1 < 2 ^ 64)
    {newer older : List (Move Tracker SubmitCall)} {m : Move Tracker SubmitCall}
    (sound : BitcoindSound (newer ++ m :: older))
    (inv : TrackerInvariant kDeepFinality older m.source)
    (taken : (m.source.maybeSubmit m.input).1 = m.target) :
    m.target.confirmedAnchorHeight = m.source.confirmedAnchorHeight ∨
      confirmedAt m = some m.target.lastConfirmedHeight ∧ m.target.hasConfirmed = true ∧
        m.source.lastConfirmedHeight ≤ m.target.lastConfirmedHeight := by
  obtain ⟨-, -, outcome⟩ | ⟨height, has, sent, progress, outcome⟩ :=
    maybeSubmit_cases m.source m.input (inv.depth ▸ fits)
  · rw [← taken, outcome]
    exact .inl rfl
  · rw [← taken, outcome]
    rcases progress with ⟨-, -, rfl, rfl⟩ | ⟨-, deep, rfl⟩
    · exact .inl rfl
    · refine .inr ⟨deep, rfl, ?_⟩
      change m.source.lastConfirmedHeight ≤ height
      cases before : m.source.hasConfirmed with
      | false =>
          rw [inv.unrecorded before]
          exact UInt64.le_iff_toNat_le.mpr (Nat.zero_le _)
      | true =>
          obtain ⟨txid, count, pending, status, enough⟩ := deepHeight_eq_some deep
          obtain ⟨middle, b, earlier, rfl, sent, quiet⟩ := inv.pending txid pending
          obtain ⟨e, member, -, found⟩ := inv.recorded before
          -- whatever was found deep before was so when the pending one was broadcast
          have since : e ∈ b :: earlier := by
            rcases List.mem_append.mp member with later | since
            · rw [quiet e later] at found
              cases found
            · exact since
          have above := sound.ascending newer m middle b earlier (by simp) txid sent pending count
            height status (pos_of_deep enough) e since _ found
          exact above.le

private theorem verifyAnchor_of_deep {view : AnchorTracker} {height current : UInt64}
    (tip : view.currentHeight = some current)
    (deep : height.toNat + view.kDeepFinality.toNat ≤ current.toNat) :
    view.verifyAnchor height = view.blockContainsTag height := by
  have reached : height ≤ current := by
    rw [UInt64.le_iff_toNat_le]
    omega
  have enough : ¬ current - height < view.kDeepFinality := by
    rw [UInt64.lt_iff_toNat_lt, UInt64.toNat_sub_of_le _ _ reached]
    omega
  simp [AnchorTracker.verifyAnchor, tip, UInt64.not_lt.mpr reached, enough]

private theorem verifyReceipt_of_near {height current anchored kDeepFinality : UInt64}
    (small : kDeepFinality.toNat + 1 < 2 ^ 63) (reached : height ≤ current)
    (near : current.toNat ≤ height.toNat + kDeepFinality.toNat + 2) (above : anchored ≤ height)
    (fsmState : FSMState) (healthy : Bool) :
    verifyReceipt ⟨height, expectedBlockHash height⟩ fsmState healthy current anchored 0
      kDeepFinality = true := by
  have lower := toNat_lowerBound current 0 kDeepFinality
  have start : windowStart current 0 kDeepFinality =
      current.toNat - (kDeepFinality.toNat + 2) := rfl
  have tip := current.toNat_lt
  rw [verifyReceipt_iff]
  intro required
  refine ⟨?_, reached, above, rfl⟩
  change _ ≤ height
  rw [UInt64.le_iff_toNat_le]
  rw [start] at lower
  split_ifs at lower <;> omega

private theorem TrackerInvariant.guarantee (fits : kDeepFinality.toNat + 1 < 2 ^ 64)
    (run : TrackerRun kDeepFinality past now) (sound : BitcoindSound past) :
    TrackerGuarantee kDeepFinality past now := by
  have inv := trackerInvariant_of_run fits run
  have steps : ∀ m ∈ past, m.target.confirmedAnchorHeight = m.source.confirmedAnchorHeight ∨
      confirmedAt m = some m.target.lastConfirmedHeight ∧ m.target.hasConfirmed = true ∧
        m.source.lastConfirmedHeight ≤ m.target.lastConfirmedHeight := by
    intro m member
    obtain ⟨newer, older, rfl, before, taken⟩ := run.cut_of_mem member
    exact (trackerInvariant_of_run fits before).reported fits sound (Option.some.inj taken)
  have latest : now.hasConfirmed = true → ∃ m ∈ past,
      confirmedAt m = some now.lastConfirmedHeight ∧ ∃ count : Int64,
        count.toInt = m.input.tip.toNat - now.lastConfirmedHeight.toNat + 1 ∧
        (kDeepFinality.toNat : ℤ) + 1 ≤ count.toInt := by
    intro has
    obtain ⟨m, member, depth, found⟩ := inv.recorded has
    obtain ⟨txid, count, -, status, deep⟩ := deepHeight_eq_some found
    exact ⟨m, member, found, count,
      sound.inclusive m member txid count _ status (pos_of_deep deep), depth ▸ deep⟩
  refine ⟨?_, ?_, ?_, ?_, ?_⟩
  · rw [inv.counted]
    split <;> omega
  · intro m member changed
    rcases steps m member with same | ⟨found, has, -⟩
    · exact absurd same changed
    · exact ⟨found, has⟩
  · intro m member
    rcases steps m member with same | ⟨-, has, grown⟩
    · obtain ⟨height, has⟩ := Prod.mk.inj same
      rw [height, has]
      exact ⟨le_rfl, id⟩
    · exact ⟨grown, fun _ => has⟩
  · intro has
    obtain ⟨m, member, found, count, inclusive, deep⟩ := latest has
    refine ⟨m, member, found, ?_⟩
    rintro view current depth tip behind
    rw [UInt64.le_iff_toNat_le] at behind
    apply verifyAnchor_of_deep tip
    rw [depth]
    omega
  · intro has fsmState healthy current anchored reached near above
    obtain ⟨m, -, -, count, -, deep⟩ := latest has
    have bound := count.toInt_lt
    exact verifyReceipt_of_near (by omega) reached near above fsmState healthy

end Steps

def TrackerProtocol (kDeepFinality : UInt64) : Prop :=
  ∀ past now, TrackerRun kDeepFinality past now → BitcoindSound past →
    TrackerGuarantee kDeepFinality past now

section Wrapping

def firstTxid : Txid := ⟨"txid-1", by decide⟩

def firstCall : SubmitCall where
  engramHeight := 42
  tip := 99
  txConfirmation := fun _ => .failed
  paused := false
  submitOpReturn := fun _ => some firstTxid

def shallowCall : SubmitCall where
  engramHeight := 43
  tip := 100
  txConfirmation := fun _ => .status 1 100
  paused := true
  submitOpReturn := fun _ => none

private theorem deepHeight_of_wrapping {t : Tracker} (wraps : t.kDeepFinality = 0xffffffffffffffff)
    (call : SubmitCall) : t.deepHeight call = none := by
  cases found : t.deepHeight call with
  | none => rfl
  | some height =>
      obtain ⟨txid, count, -, -, deep⟩ := deepHeight_eq_some found
      have bound := count.toInt_lt
      rw [wraps] at deep
      change (18446744073709551615 : ℤ) + 1 ≤ count.toInt at deep
      omega

private theorem exists_wrapping_run : ∃ past now, TrackerRun 0xffffffffffffffff past now ∧
    BitcoindSound past ∧ ¬ TrackerGuarantee 0xffffffffffffffff past now := by
  have run : TrackerRun 0xffffffffffffffff
      [⟨{ kDeepFinality := 0xffffffffffffffff, pendingTxid := some firstTxid }, shallowCall,
        ⟨0xffffffffffffffff, anchorTag, none, 100, true⟩⟩,
       ⟨{ kDeepFinality := 0xffffffffffffffff }, firstCall,
        { kDeepFinality := 0xffffffffffffffff, pendingTxid := some firstTxid }⟩]
      ⟨0xffffffffffffffff, anchorTag, none, 100, true⟩ :=
    .extend (.extend .initial rfl) rfl
  refine ⟨_, _, run, ⟨?_, ?_⟩, ?_⟩
  · intro m member txid count blockHeight status mined
    rcases List.mem_pair.mp member with rfl | rfl
    · obtain ⟨rfl, rfl⟩ := TxConfirmation.status.inj status
      decide
    · cases status
  · intro newer m middle b older split txid sent pending count blockHeight status mined e since
      height found
    have member : e ∈ newer ++ m :: middle ++ b :: older := List.mem_append_right _ since
    rw [← split] at member
    have nothing : confirmedAt e = none := by
      rcases List.mem_pair.mp member with rfl | rfl <;> exact deepHeight_of_wrapping rfl _
    rw [nothing] at found
    cases found
  · intro guarantee
    have recorded := guarantee.changes _ List.mem_cons_self (by decide)
    rw [show confirmedAt _ = none from deepHeight_of_wrapping rfl _] at recorded
    cases recorded.1

/-- The depths at which the bound of the comparison does not wrap are the good ones. -/
theorem tracker_protocol_iff (kDeepFinality : UInt64) :
    TrackerProtocol kDeepFinality ↔ kDeepFinality ≠ 0xffffffffffffffff := by
  constructor
  · rintro protocol rfl
    obtain ⟨past, now, run, sound, broken⟩ := exists_wrapping_run
    exact broken (protocol past now run sound)
  · intro inside past now run sound
    have fits : kDeepFinality.toNat + 1 < 2 ^ 64 := by
      have bound := kDeepFinality.toNat_lt
      have apart : kDeepFinality.toNat ≠ 18446744073709551615 := by
        rwa [← UInt64.toNat_inj.ne] at inside
      omega
    exact TrackerInvariant.guarantee fits run sound

theorem wrapping_depth_breaks_protocol : ¬ TrackerProtocol 0xffffffffffffffff := by
  intro protocol
  obtain ⟨past, now, run, sound, broken⟩ := exists_wrapping_run
  exact broken (protocol past now run sound)

end Wrapping

section DeadCheckpoint

/-- Calls in which bitcoind never reports `txid` mined and a submission would go through, at
increasing Engram heights above `height`, which the tracker gets as `uint64`. -/
structure DeadContinuation (txid : Txid) (height : ℕ) (later : List (Move Tracker SubmitCall)) :
    Prop where
  unmined : ∀ m ∈ later, ∀ count blockHeight,
    m.input.txConfirmation txid = .status count blockHeight → count ≤ 0
  unpaused : ∀ m ∈ later, m.input.paused = false
  submits : ∀ m ∈ later, ∀ payload, (m.input.submitOpReturn payload).isSome
  ascending : ∃ heights : List ℕ, (heights ++ [height]).Pairwise (· > ·) ∧
    later.map (fun m => m.input.engramHeight) = heights.map Nat.toUInt64

/-- Some call among the next `bound` broadcasts a new checkpoint, in every continuation in
which the pending one is dead. -/
def ResubmitsWithin (now : Tracker) (txid : Txid) (height bound : ℕ) : Prop :=
  ∀ later last, TrackerCalls now later last → DeadContinuation txid height later →
    later.length = bound → ∃ m ∈ later, (broadcast m).isSome

private theorem maybeSubmit_of_unmined {t : Tracker} {call : SubmitCall} {txid : Txid}
    (pending : t.pendingTxid = some txid) (unmined : ∀ count blockHeight,
      call.txConfirmation txid = .status count blockHeight → count ≤ 0) :
    t.maybeSubmit call = (t, none) := by
  cases reply : call.txConfirmation txid with
  | failed => simp [Tracker.maybeSubmit, Tracker.confirmPending, pending, reply]
  | status count blockHeight =>
      have short : ¬ 0 < count := Int64.not_lt.mpr (unmined count blockHeight reply)
      simp [Tracker.maybeSubmit, Tracker.confirmPending, pending, reply, short]

variable {now last : Tracker} {txid : Txid} {later : List (Move Tracker SubmitCall)}

private theorem idle_of_unmined (pending : now.pendingTxid = some txid)
    (calls : TrackerCalls now later last) (unmined : ∀ m ∈ later, ∀ count blockHeight,
      m.input.txConfirmation txid = .status count blockHeight → count ≤ 0) :
    last = now ∧ ∀ m ∈ later, broadcast m = none := by
  induction calls with
  | initial => exact ⟨rfl, nofun⟩
  | extend _ taken ih =>
      obtain ⟨rfl, silent⟩ := ih fun m member => unmined m (List.mem_cons_of_mem _ member)
      have idle := maybeSubmit_of_unmined pending (unmined _ List.mem_cons_self)
      obtain rfl := Option.some.inj taken
      refine ⟨congrArg Prod.fst idle, ?_⟩
      intro m member
      rcases List.mem_cons.mp member with rfl | old
      · exact congrArg Prod.snd idle
      · exact silent m old

def failingCall (height : ℕ) : SubmitCall where
  engramHeight := height.toUInt64
  tip := 0
  txConfirmation := fun _ => .failed
  paused := false
  submitOpReturn := fun _ => some firstTxid

def failingCalls (now : Tracker) (height count : ℕ) : List (Move Tracker SubmitCall) :=
  (List.range count).reverse.map fun i => ⟨now, failingCall (height + 1 + i), now⟩

private theorem failingCalls_calls (pending : now.pendingTxid = some txid) (height count : ℕ) :
    TrackerCalls now (failingCalls now height count) now := by
  induction count with
  | zero => exact .initial
  | succ count ih =>
      have idle : now.maybeSubmit (failingCall (height + 1 + count)) = (now, none) :=
        maybeSubmit_of_unmined pending nofun
      rw [failingCalls, List.range_succ, List.reverse_append]
      exact .extend ih (congrArg (fun outcome => some outcome.1) idle)

private theorem failingCalls_dead (now : Tracker) (txid : Txid) (height count : ℕ) :
    DeadContinuation txid height (failingCalls now height count) := by
  have shape : ∀ m ∈ failingCalls now height count, ∃ h, m.input = failingCall h := by
    intro m member
    obtain ⟨i, -, rfl⟩ := List.mem_map.mp member
    exact ⟨_, rfl⟩
  refine ⟨?_, ?_, ?_, (List.range count).reverse.map (height + 1 + ·), ?_, ?_⟩
  · intro m member confirmations blockHeight status
    obtain ⟨h, call⟩ := shape m member
    rw [call] at status
    cases status
  · intro m member
    obtain ⟨h, call⟩ := shape m member
    rw [call]
    rfl
  · intro m member payload
    obtain ⟨h, call⟩ := shape m member
    rw [call]
    rfl
  · rw [List.pairwise_append]
    refine ⟨?_, List.pairwise_singleton _ _, ?_⟩
    · rw [List.pairwise_map, List.pairwise_reverse]
      exact List.pairwise_lt_range.imp fun less => Nat.add_lt_add_left less _
    · intro later member start same
      obtain ⟨i, -, rfl⟩ := List.mem_map.mp member
      obtain rfl := List.mem_singleton.mp same
      omega
  · simp [failingCalls, failingCall]

private theorem not_resubmitsWithin (pending : now.pendingTxid = some txid) (height bound : ℕ) :
    ¬ ResubmitsWithin now txid height bound := by
  intro resubmits
  have calls := failingCalls_calls pending height bound
  have dead := failingCalls_dead now txid height bound
  obtain ⟨m, member, sent⟩ := resubmits _ _ calls dead (by simp [failingCalls])
  rw [(idle_of_unmined pending calls dead.unmined).2 m member] at sent
  cases sent

/-- No bound on the wait for a new checkpoint holds in any state with a pending transaction:
no dead continuation at all broadcasts one. -/
theorem dead_checkpoint_wedges (pending : now.pendingTxid = some txid) (height : ℕ) :
    (∀ bound, ¬ ResubmitsWithin now txid height bound) ∧
      ∀ later last, TrackerCalls now later last → DeadContinuation txid height later →
        last = now ∧ ¬ ∃ m ∈ later, (broadcast m).isSome := by
  refine ⟨not_resubmitsWithin pending height, ?_⟩
  intro later last calls dead
  obtain ⟨same, silent⟩ := idle_of_unmined pending calls dead.unmined
  refine ⟨same, ?_⟩
  rintro ⟨m, member, sent⟩
  rw [silent m member] at sent
  cases sent

theorem dead_checkpoint_wedges_first :
    ¬ ResubmitsWithin { kDeepFinality := 6, pendingTxid := some firstTxid } firstTxid 42 61 :=
  (dead_checkpoint_wedges rfl 42).1 61

theorem no_bound_resubmits : ¬ ∃ bound, ∀ past now txid height, TrackerRun 6 past now →
    (∀ m ∈ past, m.input.engramHeight.toNat ≤ height) → now.pendingTxid = some txid →
      ResubmitsWithin now txid height bound := by
  rintro ⟨bound, resubmits⟩
  have run : TrackerRun 6 [⟨{ kDeepFinality := 6 }, firstCall,
      { kDeepFinality := 6, pendingTxid := some firstTxid }⟩]
      { kDeepFinality := 6, pendingTxid := some firstTxid } := .extend .initial rfl
  refine not_resubmitsWithin rfl 42 bound (resubmits _ _ _ 42 run ?_ rfl)
  intro m member
  obtain rfl := List.mem_singleton.mp member
  decide

end DeadCheckpoint

end Engram.Node.Anchor
