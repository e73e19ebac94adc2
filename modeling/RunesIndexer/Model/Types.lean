import RunesIndexer.Lib.FinMap
import Mathlib.Data.BitVec

/-! # Data types of the indexer

    The values that `canister/src/index` computes with: outpoints, runes and
    their terms, the artifact a transaction carries, transactions and blocks.

    Integers are naturals; where the code checks or wraps an operation the model
    does so explicitly. Three sums have no bound here: the next height, which is
    a `u32`, and the counts of runes and of reserved runes, which are `u64`s. They
    are those of the code as long as the chain has fewer than `2 ^ 32` blocks and
    `2 ^ 64` runes.

    The canister is built for `wasm32-unknown-unknown`, so `usize` is `u32`:
    conversions between the two change nothing and are left out. A `Vec` has
    fewer than `2 ^ 32` elements, and at most `2 ^ 31 - 1` bytes; the second bound
    matters where a response of any size is collected, and is modelled there.
-/

namespace RunesIndexer

/-! ### Bitcoin -/

/-- The bound of `usize` and of every `Vec` length on the wasm32 target. -/
def usizeBound : Nat := 2 ^ 32

abbrev Txid : Type := BitVec 256

abbrev BlockHash : Type := BitVec 256

/-- `Txid::all_zeros`. -/
def Txid.allZeros : Txid := 0#256

abbrev Script : Type := List UInt8

abbrev Witness : Type := List (List UInt8)

structure OutPoint where
  txid : Txid
  vout : Nat
  deriving DecidableEq

structure TxIn where
  previousOutput : OutPoint
  scriptSig : Script
  sequence : Nat
  witness : Witness
  deriving DecidableEq

structure TxOut where
  value : Nat
  scriptPubkey : Script
  deriving DecidableEq

structure Transaction where
  version : Int
  lockTime : Nat
  input : List TxIn
  output : List TxOut
  outputFits : output.length < usizeBound
  deriving DecidableEq

structure Header where
  version : Nat
  prevBlockhash : BlockHash
  merkleRoot : BitVec 256
  time : Nat
  bits : Nat
  nonce : Nat
  deriving DecidableEq

/-- `bitcoin::Block`, as `getblock` returns it. -/
structure Block where
  header : Header
  txdata : List Transaction
  txdataFits : txdata.length < usizeBound
  deriving DecidableEq

/-- A block with the txid of each transaction (`updater::BlockData`). -/
structure BlockData where
  header : Header
  txdata : List (Transaction × Txid)
  txdataFits : txdata.length < usizeBound
  deriving DecidableEq

def BlockData.txids (b : BlockData) : List Txid := b.txdata.map Prod.snd

inductive BitcoinNetwork where
  | mainnet
  | testnet
  | regtest
  deriving DecidableEq

/-- An instruction of a decoded script. -/
inductive Instruction where
  | pushBytes (bytes : List UInt8)
  | op (opcode : UInt8)
  deriving DecidableEq

/-- `Instruction::push_bytes`. -/
def Instruction.pushed : Instruction → Option (List UInt8)
  | .pushBytes bytes => some bytes
  | .op _ => none

/-! ### Runes -/

@[ext] structure RuneId where
  block : Nat
  tx : Nat
  deriving DecidableEq

/-- `RuneId::default`, which an edict uses for the rune its transaction etches. -/
def RuneId.default : RuneId := ⟨0, 0⟩

/-- The derived order: by block, then by transaction. -/
def RuneId.Precedes (a b : RuneId) : Prop := a.block < b.block ∨ a.block = b.block ∧ a.tx < b.tx

instance (a b : RuneId) : Decidable (a.Precedes b) := by
  unfold RuneId.Precedes
  infer_instance

structure Rune where
  n : Nat
  deriving DecidableEq

structure SpacedRune where
  rune : Rune
  spacers : Nat
  deriving DecidableEq

structure Terms where
  amount : Option Nat
  cap : Option Nat
  height : Option Nat × Option Nat
  offset : Option Nat × Option Nat
  deriving DecidableEq

structure Etching where
  divisibility : Option Nat
  premine : Option Nat
  rune : Option Rune
  spacers : Option Nat
  symbol : Option Char
  terms : Option Terms
  turbo : Bool
  deriving DecidableEq

structure Edict where
  id : RuneId
  amount : Nat
  output : Nat
  deriving DecidableEq

structure Runestone where
  edicts : List Edict
  etching : Option Etching
  mint : Option RuneId
  pointer : Option Nat
  deriving DecidableEq

structure Cenotaph where
  etching : Option Rune
  mint : Option RuneId
  deriving DecidableEq

inductive Artifact where
  | runestone (runestone : Runestone)
  | cenotaph (cenotaph : Cenotaph)
  deriving DecidableEq

/-- `Artifact::mint`. -/
def Artifact.mint : Artifact → Option RuneId
  | .runestone r => r.mint
  | .cenotaph c => c.mint

/-- The letters of the modified base-26 name of `n - 1`, counted with `fuel` for the digits. -/
def nameLengthAux : Nat → Nat → Nat
  | 0, _ => 0
  | fuel + 1, n => if n = 0 then 0 else nameLengthAux fuel ((n - 1) / 26) + 1

/-- The number of letters of a rune's name; 28 suffice for a `u128`. -/
def Rune.nameLength (r : Rune) : Nat := nameLengthAux 28 (r.n + 1)

/-- What a spaced rune is after being printed and parsed back, which is how it is
    stored: the name has no place for a spacer after its last letter. -/
def SpacedRune.reload (sr : SpacedRune) : SpacedRune :=
  { sr with spacers := sr.spacers % 2 ^ (sr.rune.nameLength - 1) }

@[simp] theorem SpacedRune.reload_rune (sr : SpacedRune) : sr.reload.rune = sr.rune := rfl

@[simp] theorem SpacedRune.reload_reload (sr : SpacedRune) : sr.reload.reload = sr.reload := by
  simp [SpacedRune.reload]

/-! ### Panics and errors -/

/-- The ways the code can panic. -/
inductive Panic where
  /-- `expect("lot overflow")` in `Add for Lot`. -/
  | lotOverflow
  /-- `expect("lot underflow")` in `Sub for Lot`. -/
  | lotUnderflow
  /-- A failed `assert!`. -/
  | assertFailed
  /-- `unwrap` of a `None`, or of the `Err` of a checked operation. -/
  | unwrapFailed
  /-- An index out of bounds. -/
  | outOfBounds
  /-- `expect("No block found")` or `expect("No block height found")`. -/
  | noBlock
  /-- "capacity overflow": a `Vec` that would be too large. -/
  | capacityOverflow
  deriving DecidableEq

/-- The errors the indexing code returns or passes on. -/
inductive Error where
  /-- "Outpoint not found in outpoint_to_height: {:?}" -/
  | outpointHeightNotFound (outpoint : OutPoint)
  /-- "Transaction {} has no block hash" -/
  | noBlockHash (txid : Txid)
  /-- "wrong block hash: {}" -/
  | wrongBlockHash (hash : BlockHash)
  /-- "wrong block merkle root: {}" -/
  | wrongMerkleRoot (hash : BlockHash)
  /-- An output script that does not decode. -/
  | badScript
  /-- A failed call of the RPC endpoint, of the IC Bitcoin API or of a subscriber. -/
  | rpc
  deriving DecidableEq

/-! ### Code outside the repository -/

/-- The functions of the `ordinals` and `bitcoin` crates that the indexer calls. -/
structure Crates where
  /-- `Runestone::decipher` -/
  decipher : Transaction → Option Artifact
  /-- `Rune::reserved` -/
  reserved : Nat → Nat → Rune
  /-- `Rune::is_reserved` -/
  isReserved : Rune → Bool
  /-- `Rune::minimum_at_height` -/
  minimumAtHeight : BitcoinNetwork → Nat → Rune
  /-- `Rune::first_rune_height` -/
  firstRuneHeight : BitcoinNetwork → Nat
  /-- `Rune::commitment` -/
  commitment : Rune → List UInt8
  /-- `Runestone::COMMIT_CONFIRMATIONS` -/
  commitConfirmations : Nat
  /-- `Script::is_op_return` -/
  isOpReturn : Script → Bool
  /-- `Script::is_p2tr` -/
  isP2tr : Script → Bool
  /-- `Witness::tapscript` -/
  tapscript : Witness → Option Script
  /-- `Script::instructions` -/
  instructions : Script → List (Except Unit Instruction)
  /-- `Header::block_hash` -/
  blockHash : Header → BlockHash
  /-- `Transaction::compute_txid` -/
  computeTxid : Transaction → Txid
  /-- `Block::check_merkle_root` -/
  checkMerkleRoot : Block → Bool

/-- Is the output an OP_RETURN? -/
def Crates.burns (lib : Crates) (o : TxOut) : Bool := lib.isOpReturn o.scriptPubkey

end RunesIndexer
