import RunesIndexer.Model.RuneUpdater

/-! # Blocks, reorgs and the indexing loop (`updater.rs`, `reorg.rs`)

    `index_block` runs the transactions of a block and inserts its header last.
    `detect_reorg` compares the stored headers with the node, `handle_reorg`
    undoes blocks from their change records, and `prune_change_record` forgets
    the old ones. `updateIndexIteration` is the body of the timer callback that
    `update_index` arms.
-/

namespace RunesIndexer

/-! ### Indexing a block -/

/-- The updater `index_block` starts a block with. -/
def RuneUpdater.new (lib : Crates) (network : BitcoinNetwork) (height : Nat) (time runes : Nat) :
    RuneUpdater where
  blockTime := time
  burned := ∅
  height := height
  minimum := lib.minimumAtHeight network height
  runes := runes
  changeRecord := ChangeRecord.new

/-- The loop over the transactions of a block, from transaction `i` on. -/
def indexTransactions (lib : Crates) (ord : HashOrder) :
    RuneUpdater → Nat → List (Transaction × Txid) → AsyncM RuneUpdater
  | u, _, [] => return u
  | u, i, (tx, txid) :: rest => do
    let u ← u.indexRunes lib ord i tx txid
    indexTransactions lib ord u (i + 1) rest

/-- Copy the counters into the rows of the new height. -/
def initStatistics (height : Nat) : IndexM Nat := do
  let runes ← gets Store.memStatisticRunes
  let reservedRunes ← gets Store.memStatisticReservedRunes
  modify (Store.memInsertStatisticRunes height runes)
  modify (Store.memInsertStatisticReservedRunes height reservedRunes)
  return runes

def indexBlock (lib : Crates) (ord : HashOrder) (network : BitcoinNetwork) (height : Nat)
    (block : BlockData) : AsyncM Unit := do
  let runes ← initStatistics height
  let u ← indexTransactions lib ord
    (RuneUpdater.new lib network height block.header.time runes) 0 block.txdata
  u.update ord
  -- until here the height counts as not indexed
  modify (Store.memInsertBlockHeader height block.header)

/-! ### Reorgs -/

/-- `reorg::Error` -/
inductive ReorgError where
  | recoverable (height depth : Nat)
  | unrecoverable
  | retry
  deriving DecidableEq

namespace Reorg

/-- `bitcoin_api::get_block_hash` -/
def getBlockHash (network : BitcoinNetwork) (height : Nat) :
    AsyncM (Except Error (Option BlockHash)) :=
  call (.getBlockHash network height)

/-- The loop of `detect_reorg` over the depths that are left. -/
def detectDepths (lib : Crates) (network : BitcoinNetwork) (height : Nat) :
    List Nat → AsyncM (Except ReorgError Unit)
  | [] => return .error .unrecoverable
  | depth :: rest => do
    -- below the first height and below the stored headers there is nothing to compare with
    match RuneUpdater.checkedSub height depth with
    | none => return .error .unrecoverable
    | some checkHeight =>
      match ← gets (Store.memBlockHash lib checkHeight) with
      | none => return .error .unrecoverable
      | some indexBlockHash =>
        match ← getBlockHash network checkHeight with
        | .ok (some bitcoinBlockHash) =>
          if indexBlockHash = bitcoinBlockHash then
            return .error (.recoverable height depth)
          else
            detectDepths lib network height rest
        -- no answer, or no block there yet
        | _ => return .error .retry

/-- The depths `1..=get_max_recoverable_reorg_depth(network)`. -/
def depths (network : BitcoinNetwork) : List Nat :=
  List.range' 1 (Store.getMaxRecoverableReorgDepth network)

def detectReorg (lib : Crates) (network : BitcoinNetwork) (indexPrevBlockhash : Option BlockHash)
    (bitcoindPrevBlockhash : BlockHash) (height : Nat) : AsyncM (Except ReorgError Unit) :=
  match indexPrevBlockhash with
  | some indexPrev =>
    if indexPrev = bitcoindPrevBlockhash then return .ok ()
    else detectDepths lib network height (depths network)
  | none => return .ok ()

/-- The loop bodies over `removed_outpoints` and `added_outpoints`. -/
def restoreOutpoint (s : Store) (e : OutPoint × RuneBalances × Nat) : Store :=
  (s.memInsertOutpointToRuneBalances e.1 e.2.1).memInsertOutpointToHeight e.1 e.2.2

def removeOutpoint (s : Store) (o : OutPoint) : Store :=
  (s.memRemoveOutpointToRuneBalances o).memRemoveOutpointToHeight o

/-- The loop body over `burned`. -/
def resetBurned (e : RuneId × Nat) : IndexM Unit := do
  let entry ← unwrap (← gets (Store.memGetRuneIdToRuneEntry e.1))
  modify (Store.memInsertRuneIdToRuneEntry e.1 { entry with burned := e.2 })

/-- The loop body over `mints`. -/
def resetMints (e : RuneId × Nat) : IndexM Unit := do
  let entry ← unwrap (← gets (Store.memGetRuneIdToRuneEntry e.1))
  modify (Store.memInsertRuneIdToRuneEntry e.1 { entry with mints := e.2 })

/-- The loop body over `added_runes`. -/
def removeRune (s : Store) (e : Rune × RuneId × Txid) : Store :=
  ((s.memRemoveRuneToRuneId e.1).memRemoveRuneIdToRuneEntry e.2.1).memRemoveTransactionIdToRune
    e.2.2

/-- Undo the changes a record lists. -/
def undoRecord (ord : HashOrder) (height : Nat) (record : ChangeRecord) : IndexM Unit := do
  modify fun s => record.removedOutpoints.foldl restoreOutpoint s
  -- an outpoint that was created and spent in the block is in both lists, and goes
  modify fun s => record.addedOutpoints.foldl removeOutpoint s
  (ord.iter (.recordBurned height) record.burned).forM resetBurned
  (ord.iter (.recordMints height) record.mints).forM resetMints
  modify fun s => record.addedRunes.foldl removeRune s

/-- The loop body of `handle_reorg` for one height. -/
def rollbackHeight (ord : HashOrder) (height : Nat) : IndexM Unit := do
  match ← gets (Store.memGetChangeRecord height) with
  -- the height is dropped all the same
  | none => pure ()
  | some record => undoRecord ord height record
  modify (Store.memRemoveChangeRecord height)
  modify (Store.memRemoveStatisticRunes height)
  modify (Store.memRemoveStatisticReservedRunes height)
  modify (Store.memRemoveBlockHeader height)

/-- The heights `(height - depth + 1..height).rev()`. -/
def rolledBack (height depth : Nat) : List Nat :=
  (List.range' (height - depth + 1) (height - (height - depth + 1))).reverse

def handleReorg (ord : HashOrder) (height depth : Nat) : IndexM Unit :=
  (rolledBack height depth).forM (rollbackHeight ord)

def pruneChangeRecord (network : BitcoinNetwork) (height : Nat) (s : Store) : Store :=
  if Store.getMaxRecoverableReorgDepth network ≤ height then
    let h := height - Store.getMaxRecoverableReorgDepth network
    (((s.memPruneChangeRecord h).memPruneStatisticRunes h).memPruneStatisticReservedRunes
      h).memPruneBlockHeader h
  else s

end Reorg

/-! ### Fetching a block (`rpc.rs`) -/

/-- `BlockData::from` -/
def BlockData.ofBlock (lib : Crates) (block : Block) : BlockData where
  header := block.header
  txdata := block.txdata.map fun tx => (tx, lib.computeTxid tx)
  txdataFits := by rw [List.length_map]; exact block.txdataFits

/-- `rpc::get_block` -/
def getBlock (lib : Crates) (hash : BlockHash) : AsyncM BlockData := do
  let reply : Except Error Block ← call (.innerGetBlock hash)
  let block ← ofResult reply
  -- the block is checked against the hash that was asked for and its own header
  if lib.blockHash block.header ≠ hash then
    fail (.wrongBlockHash hash)
  else if lib.checkMerkleRoot block then
    return BlockData.ofBlock lib block
  else
    fail (.wrongMerkleRoot hash)

/-! ### The loop -/

/-- What the timer callback does at its end. -/
inductive Flow where
  /-- It arms the timer again. -/
  | rearm
  /-- `is_shutting_down` -/
  | shutDown
  /-- It returned because `index_block` failed. -/
  | indexFailed
  /-- It returned because of an unrecoverable reorg. -/
  | unrecoverable
  deriving DecidableEq

/-- `notifier::notify_new_block`, which only logs a rejection. -/
def notifyNewBlock (canisterId height : Nat) (hash : BlockHash) (time : Nat) (txids : List Txid) :
    AsyncM Unit := do
  let _ ← call (.newBlockDetected canisterId height hash time txids)

/-- The notifications after an indexed block. -/
def notifySubscribers (height : Nat) (hash : BlockHash) (block : BlockData) :
    List Nat → AsyncM Unit
  | [] => return ()
  | subscriber :: rest => do
    notifyNewBlock subscriber height hash block.header.time block.txids
    notifySubscribers height hash block rest

/-- Arm the timer again unless a stop was requested. -/
def rearmUnlessStopped : AsyncM Flow := do
  if ← gets Store.shuttingDown then return .shutDown else return .rearm

/-- The callback's work on a fetched block. -/
def processBlock (lib : Crates) (ord : HashOrder) (network : BitcoinNetwork)
    (subscribers : List Nat) (height : Nat) (indexPrevBlockhash : Option BlockHash)
    (hash : BlockHash) (block : BlockData) : AsyncM Flow := do
  match ← Reorg.detectReorg lib network indexPrevBlockhash block.header.prevBlockhash height with
  | .ok () =>
    match ← Resumption.Async.attempt (indexBlock lib ord network height block) with
    -- no timer is armed again
    | .error _ => return .indexFailed
    | .ok () =>
      modify (Reorg.pruneChangeRecord network height)
      notifySubscribers height hash block subscribers
      rearmUnlessStopped
  | .error (.recoverable height depth) =>
    Reorg.handleReorg ord height depth
    rearmUnlessStopped
  | .error .unrecoverable => return .unrecoverable
  | .error .retry => rearmUnlessStopped

/-- The callback that `update_index` arms. -/
def updateIndexIteration (lib : Crates) (ord : HashOrder) (network : BitcoinNetwork)
    (subscribers : List Nat) : AsyncM Flow := do
  let (height, indexPrevBlockhash) ← gets (Store.nextBlock lib network)
  match ← Reorg.getBlockHash network height with
  | .ok (some blockHash) =>
    match ← Resumption.Async.attempt (getBlock lib blockHash) with
    | .ok block =>
      processBlock lib ord network subscribers height indexPrevBlockhash blockHash block
    | .error _ => rearmUnlessStopped
  -- the node has no block at this height yet
  | .ok none => rearmUnlessStopped
  | .error _ => rearmUnlessStopped

end RunesIndexer
