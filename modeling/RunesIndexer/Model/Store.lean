import RunesIndexer.Lib.Resumption
import RunesIndexer.Model.Entry

/-! # The stable maps (`index.rs`)

    The memories of the canister and the `mem_*` functions over them, as
    functions of one state. An ordered map appears through lookups and through
    its last entry, which is what `iter().rev().next()` reads.
-/

namespace RunesIndexer

/-! ### State -/

/-- `config.rs` -/
structure Config where
  network : BitcoinNetwork
  bitcoinRpcUrl : String
  /-- The subscribed canisters, by number. -/
  subscribers : List Nat
  deriving DecidableEq

/-- `Config::default` -/
def Config.default : Config := ⟨.regtest, "", []⟩

structure Store where
  config : Config
  heightToBlockHeader : FinMap Nat Header
  heightToStatisticReservedRunes : FinMap Nat Nat
  heightToStatisticRunes : FinMap Nat Nat
  outpointToRuneBalances : FinMap OutPoint RuneBalances
  runeIdToRuneEntry : FinMap RuneId RuneEntry
  runeToRuneId : FinMap Rune RuneId
  transactionIdToRune : FinMap Txid Rune
  outpointToHeight : FinMap OutPoint Nat
  heightToChangeRecord : FinMap Nat ChangeRecord
  /-- The flag `SHUTTING_DOWN`, which is not in stable memory. -/
  shuttingDown : Bool
  deriving DecidableEq

/-- Freshly initialised memories. -/
def Store.empty (config : Config) : Store where
  config := config
  heightToBlockHeader := ∅
  heightToStatisticReservedRunes := ∅
  heightToStatisticRunes := ∅
  outpointToRuneBalances := ∅
  runeIdToRuneEntry := ∅
  runeToRuneId := ∅
  transactionIdToRune := ∅
  outpointToHeight := ∅
  heightToChangeRecord := ∅
  shuttingDown := false

namespace Store

/-! ### Block headers -/

def memLatestBlock (lib : Crates) (s : Store) : Option (Nat × BlockHash) :=
  s.heightToBlockHeader.last?.map fun e => (e.1, lib.blockHash e.2)

def memLatestBlockHeight (s : Store) : Option Nat :=
  s.heightToBlockHeader.last?.map Prod.fst

def memBlockHash (lib : Crates) (height : Nat) (s : Store) : Option BlockHash :=
  (s.heightToBlockHeader.get? height).map lib.blockHash

def memInsertBlockHeader (height : Nat) (header : Header) (s : Store) : Store :=
  { s with heightToBlockHeader := s.heightToBlockHeader.insert height header }

def memRemoveBlockHeader (height : Nat) (s : Store) : Store :=
  { s with heightToBlockHeader := s.heightToBlockHeader.erase height }

/-- The entries of an ordered map above `height`: what stays after removing
    `iter().take_while(|(h, _)| *h <= height)`. -/
def above {V : Type} (height : Nat) (m : FinMap Nat V) : FinMap Nat V :=
  m.filterKeys fun h => height < h

def memPruneBlockHeader (height : Nat) (s : Store) : Store :=
  { s with heightToBlockHeader := above height s.heightToBlockHeader }

/-! ### Statistics -/

def memStatisticReservedRunes (s : Store) : Nat :=
  (s.heightToStatisticReservedRunes.last?.map Prod.snd).getD 0

def memInsertStatisticReservedRunes (height runes : Nat) (s : Store) : Store :=
  { s with
    heightToStatisticReservedRunes := s.heightToStatisticReservedRunes.insert height runes }

def memRemoveStatisticReservedRunes (height : Nat) (s : Store) : Store :=
  { s with heightToStatisticReservedRunes := s.heightToStatisticReservedRunes.erase height }

def memPruneStatisticReservedRunes (height : Nat) (s : Store) : Store :=
  { s with heightToStatisticReservedRunes := above height s.heightToStatisticReservedRunes }

def memStatisticRunes (s : Store) : Nat :=
  (s.heightToStatisticRunes.last?.map Prod.snd).getD 0

def memInsertStatisticRunes (height runes : Nat) (s : Store) : Store :=
  { s with heightToStatisticRunes := s.heightToStatisticRunes.insert height runes }

def memRemoveStatisticRunes (height : Nat) (s : Store) : Store :=
  { s with heightToStatisticRunes := s.heightToStatisticRunes.erase height }

/-- This one removes `height` once more after the others. -/
def memPruneStatisticRunes (height : Nat) (s : Store) : Store :=
  { s with heightToStatisticRunes := (above height s.heightToStatisticRunes).erase height }

/-! ### Outpoints -/

def memGetOutpointToRuneBalances (o : OutPoint) (s : Store) : Option RuneBalances :=
  s.outpointToRuneBalances.get? o

def memInsertOutpointToRuneBalances (o : OutPoint) (balances : RuneBalances) (s : Store) : Store :=
  { s with outpointToRuneBalances := s.outpointToRuneBalances.insert o balances }

def memRemoveOutpointToRuneBalances (o : OutPoint) (s : Store) : Store :=
  { s with outpointToRuneBalances := s.outpointToRuneBalances.erase o }

def memGetOutpointToHeight (o : OutPoint) (s : Store) : Option Nat := s.outpointToHeight.get? o

def memInsertOutpointToHeight (o : OutPoint) (height : Nat) (s : Store) : Store :=
  { s with outpointToHeight := s.outpointToHeight.insert o height }

def memRemoveOutpointToHeight (o : OutPoint) (s : Store) : Store :=
  { s with outpointToHeight := s.outpointToHeight.erase o }

/-! ### The rune registry -/

def memGetRuneIdToRuneEntry (id : RuneId) (s : Store) : Option RuneEntry :=
  s.runeIdToRuneEntry.get? id

/-- The map holds the bytes of the entry, so what is kept is what they decode to. -/
def memInsertRuneIdToRuneEntry (id : RuneId) (entry : RuneEntry) (s : Store) : Store :=
  { s with runeIdToRuneEntry := s.runeIdToRuneEntry.insert id entry.reload }

def memRemoveRuneIdToRuneEntry (id : RuneId) (s : Store) : Store :=
  { s with runeIdToRuneEntry := s.runeIdToRuneEntry.erase id }

def memGetRuneToRuneId (rune : Rune) (s : Store) : Option RuneId := s.runeToRuneId.get? rune

def memInsertRuneToRuneId (rune : Rune) (id : RuneId) (s : Store) : Store :=
  { s with runeToRuneId := s.runeToRuneId.insert rune id }

def memRemoveRuneToRuneId (rune : Rune) (s : Store) : Store :=
  { s with runeToRuneId := s.runeToRuneId.erase rune }

def memInsertTransactionIdToRune (txid : Txid) (rune : Rune) (s : Store) : Store :=
  { s with transactionIdToRune := s.transactionIdToRune.insert txid rune }

def memRemoveTransactionIdToRune (txid : Txid) (s : Store) : Store :=
  { s with transactionIdToRune := s.transactionIdToRune.erase txid }

def memGetEtching (txid : Txid) (s : Store) : Option (RuneId × RuneEntry) :=
  (s.transactionIdToRune.get? txid).bind fun rune =>
    (s.runeToRuneId.get? rune).bind fun id =>
      (s.runeIdToRuneEntry.get? id).map fun e => (id, e)

/-! ### Change records -/

def memInsertChangeRecord (height : Nat) (record : ChangeRecord) (s : Store) : Store :=
  { s with heightToChangeRecord := s.heightToChangeRecord.insert height record }

def memGetChangeRecord (height : Nat) (s : Store) : Option ChangeRecord :=
  s.heightToChangeRecord.get? height

def memRemoveChangeRecord (height : Nat) (s : Store) : Store :=
  { s with heightToChangeRecord := s.heightToChangeRecord.erase height }

def memPruneChangeRecord (height : Nat) (s : Store) : Store :=
  { s with heightToChangeRecord := above height s.heightToChangeRecord }

/-! ### The next block -/

/-- The height to index next and the hash its block must name as predecessor. The sum is one
    of `u32`s, so it is this one below height `2 ^ 32 - 1`. -/
def nextBlock (lib : Crates) (network : BitcoinNetwork) (s : Store) : Nat × Option BlockHash :=
  match s.memLatestBlock lib with
  | some (height, prevBlockhash) => (height + 1, some prevBlockhash)
  -- nothing is stored, and any predecessor is accepted
  | none => (lib.firstRuneHeight network, none)

/-- `get_max_recoverable_reorg_depth` (`reorg.rs`) -/
def getMaxRecoverableReorgDepth : BitcoinNetwork → Nat
  | .regtest => 6
  | .testnet => 64
  | .mainnet => 6

end Store

/-! ### Calls to the environment -/

/-- `GetRawTransactionResult`, with each output script as `script()` decodes it. -/
structure RawTransaction where
  txid : Txid
  vout : List (Except Error Script)
  blockhash : Option BlockHash

/-- The points at which the indexing loop awaits an answer. -/
inductive Call where
  /-- `bitcoin_api::get_block_hash` -/
  | getBlockHash (network : BitcoinNetwork) (height : Nat)
  /-- `rpc::inner_get_block` -/
  | innerGetBlock (hash : BlockHash)
  /-- `rpc::get_raw_transaction_info` -/
  | getRawTransactionInfo (txid : Txid)
  /-- `rpc::get_block_header_info`, of which only the height is read -/
  | getBlockHeaderInfo (hash : BlockHash)
  /-- "new_block_detected", the message of `notifier::notify_new_block` to a subscriber -/
  | newBlockDetected (subscriber height : Nat) (hash : BlockHash) (time : Nat) (txids : List Txid)

/-- What each call answers. -/
def Reply : Call → Type
  | .getBlockHash _ _ => Except Error (Option BlockHash)
  | .innerGetBlock _ => Except Error Block
  | .getRawTransactionInfo _ => Except Error RawTransaction
  | .getBlockHeaderInfo _ => Except Error Nat
  | .newBlockDetected .. => Except Error Unit

/-- `fn`s of the index. -/
abbrev IndexM : Type → Type := Resumption.Sync Error Panic Store

/-- `async fn`s of the index. -/
abbrev AsyncM : Type → Type := Resumption.Async Call Reply Error Panic Store

/-- A run of such code, or what is left of one. -/
abbrev IndexProc : Type → Type := Resumption.Proc Call Reply Error Panic Store

abbrev IndexResult : Type → Type := Resumption.Result Error Panic Store

/-- Which answers the environment may give. -/
abbrev Answers : Type := (q : Call) → Reply q → Prop

/-- Every answer is allowed. -/
def Answers.any : Answers := fun _ _ => True

/-- Read the stable maps. -/
def gets {α : Type} (f : Store → α) : IndexM α := Resumption.Sync.gets f

/-- Write to the stable maps. -/
def modify (f : Store → Store) : IndexM Unit := Resumption.Sync.modify f

/-- `return Err(e)` -/
def fail {α : Type} (e : Error) : IndexM α := Resumption.Sync.fail e

/-- `?` on a `Result`. -/
def ofResult {α : Type} : Except Error α → IndexM α
  | .ok a => pure a
  | .error e => fail e

/-- Await the answer to `q`. -/
def call (q : Call) : AsyncM (Reply q) := Resumption.Async.call q

/-- `rpc::get_raw_transaction_info` followed by `?` -/
def getRawTransactionInfo (txid : Txid) : AsyncM RawTransaction := do
  let reply : Except Error RawTransaction ← call (.getRawTransactionInfo txid)
  ofResult reply

/-- The height in `rpc::get_block_header_info`, followed by `?` -/
def getBlockHeaderInfo (hash : BlockHash) : AsyncM Nat := do
  let reply : Except Error Nat ← call (.getBlockHeaderInfo hash)
  ofResult reply

/-- `Option::unwrap` -/
def unwrap {α : Type} : Option α → Except Panic α
  | some a => .ok a
  | none => .error .unwrapFailed

/-- `assert!` -/
def assertThat (p : Prop) [Decidable p] : Except Panic Unit :=
  if p then .ok () else .error .assertFailed

/-- `xs[i]` -/
def indexAt {α : Type} (xs : List α) (i : Nat) : Except Panic α :=
  match xs[i]? with
  | some a => .ok a
  | none => .error .outOfBounds

end RunesIndexer
