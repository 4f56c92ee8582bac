import Engram.Node.Genesis
import Engram.Keeper.MsgServer
import Engram.Library.GuardedRun

/-!
The chain as a guarded machine: a block is decided when some validator's
`ProcessProposal` accepts it against the committed store with its own readings,
and is then executed by the pre-blocker and by its messages.
-/

set_option autoImplicit false
set_option relaxedAutoImplicit false

namespace Engram.Node

open Engram.Types Engram.Keeper Engram.Library

/-- A decided block: the readings of a validator that accepted it, the round, the
block data, and the messages its transactions deliver. -/
structure Block where
  sensors : Option Sensors
  round : UInt64
  txs : List Bytes
  appHash : Bytes
  misbehavior : List Misbehavior
  msgs : List Msg

structure Chain where
  height : Nat
  store : Store

def Chain.state (c : Chain) : FSMState := c.store.currState

def handleMsg (external : External) (st : Store) : Msg → Except String Store
  | .submitRecoveryProof msg => submitRecoveryProof external.verifyZKProof st msg
  | .submitForcedTx tx => submitForcedTx external.txDecoder st tx
  | .injectFault faultInputs => .ok (injectFault st faultInputs)

/-- A refused message leaves the store unchanged. -/
def deliver (external : External) (st : Store) (msg : Msg) : Store :=
  match handleMsg external st msg with
  | .ok st' => st'
  | .error _ => st

def deliverAll (external : External) (st : Store) (msgs : List Msg) : Store :=
  msgs.foldl (deliver external) st

def acceptsProof (external : External) (st : Store) : Msg → Bool
  | .submitRecoveryProof msg => (submitRecoveryProof external.verifyZKProof st msg).isOk
  | _ => false

/-- Some message of the list is a recovery proof accepted when its turn comes. -/
def proofAccepted (external : External) : Store → List Msg → Bool
  | _, [] => false
  | st, msg :: rest =>
      acceptsProof external st msg || proofAccepted external (deliver external st msg) rest

def Chain.nextHeight (c : Chain) : UInt64 := (c.height + 1).toUInt64

/-- The store after the pre-blocker of `b`, before its messages. -/
def afterPreBlock (external : External) (p : Params) (c : Chain) (b : Block) : Store :=
  preBlocker external p c.nextHeight b.appHash c.store b.misbehavior b.txs

/-- Decide and execute one block. Heights are `int64`, so the chain ends below
`2 ^ 63`. -/
def decideBlock (external : External) (p : Params) (c : Chain) (b : Block) : Option Chain :=
  if c.height + 1 < 2 ^ 63 ∧
      processProposal external p b.sensors c.nextHeight c.store ⟨b.txs, b.round⟩ = true then
    some ⟨c.height + 1, deliverAll external (afterPreBlock external p c b) b.msgs⟩
  else none

def genesisChain : Chain := ⟨0, genesisStore⟩

/-- A run of decided blocks from the default genesis, newest block first. -/
abbrev ChainRun (external : External) (p : Params) (past : List (Move Chain Block))
    (now : Chain) : Prop :=
  Run (decideBlock external p) genesisChain past now

def Block.proposal (external : External) (b : Block) : Option ExtendedProposal :=
  match b.txs with
  | [] => none
  | tx :: _ =>
      match decodeExtendedProposal external tx with
      | .proposal ext => some ext
      | _ => none

def Block.healthy (external : External) (b : Block) : Bool :=
  match b.proposal external with
  | some ext => ext.healthy
  | none => false

section Samples

/-- Readings of a node whose bitcoind, DA node and peers all answer. -/
def liveSensors (tip verified : UInt64) : Sensors where
  btc := ⟨0, some ⟨true, some tip⟩⟩
  da := ⟨true, false, false, some ⟨some verified, false, true⟩⟩
  p2p := ⟨2, 3, 2, 0, 300, 0⟩
  anchor := some ⟨2, some tip, fun _ => some true, none⟩
  daPublisher := some ⟨some verified, false, true⟩

def outageSensors (verified : UInt64) : Sensors :=
  { liveSensors 0 verified with
    btc := ⟨0, some ⟨false, none⟩⟩
    anchor := some ⟨2, none, fun _ => none, none⟩ }

/-- Block data with an attested DA height and a canonical checkpoint. -/
def attestedProposal (state : FSMState) (healthy : Bool) (published checkpoint : UInt64) :
    ExtendedProposal :=
  ⟨state, healthy, ⟨published, true⟩, ⟨checkpoint, Anchor.expectedBlockHash checkpoint⟩, []⟩

/-- A block of round zero that carries one proposal and some messages. -/
def proposalBlock (sensors : Sensors) (ext : ExtendedProposal) (appHash : Bytes)
    (msgs : List Msg) : Block where
  sensors := some sensors
  round := 0
  txs := [encodeExtendedProposal ext]
  appHash := appHash
  misbehavior := []
  msgs := msgs

end Samples

end Engram.Node
