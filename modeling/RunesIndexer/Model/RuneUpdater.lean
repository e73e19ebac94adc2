import RunesIndexer.Model.Store

/-! # Indexing one transaction (`updater/rune_updater.rs`)

    `RuneUpdater::index_runes` takes the runes of a transaction's inputs, mints
    and etches, allocates by edicts, gives the rest to the default output or
    burns it, and writes the outputs. The local maps `unallocated`, `allocated`
    and `burned` are passed along; `&mut self` is the updater that each function
    returns. An `async fn` of the source is an `AsyncM`, a `fn` an `IndexM`, and
    code that only computes and may panic an `Except Panic`.
-/

namespace RunesIndexer

structure RuneUpdater where
  blockTime : Nat
  burned : LotMap
  height : Nat
  minimum : Rune
  runes : Nat
  changeRecord : ChangeRecord

namespace RuneUpdater

/-! ### Inputs -/

/-- The loop body of `unallocated`. -/
def unallocatedInput (st : LotMap × RuneUpdater) (input : TxIn) :
    IndexM (LotMap × RuneUpdater) := do
  let o := input.previousOutput
  match ← gets (Store.memGetOutpointToRuneBalances o) with
  | none => return st
  | some runeBalances =>
    -- the balances stay removed also if what follows returns an error
    modify (Store.memRemoveOutpointToRuneBalances o)
    let unallocated ← (runeBalances.foldlM (fun m b => LotMap.addTo m b.runeId b.balance) st.1 :
      Except Panic LotMap)
    match ← gets (Store.memGetOutpointToHeight o) with
    | none => fail (.outpointHeightNotFound o)
    | some height =>
      modify (Store.memRemoveOutpointToHeight o)
      return (unallocated, { st.2 with changeRecord := { st.2.changeRecord with
        removedOutpoints :=
          st.2.changeRecord.removedOutpoints ++ [(o, runeBalances, height)] } })

/-- The runes in the inputs of `tx`, whose outpoints it removes. -/
def unallocated (u : RuneUpdater) (tx : Transaction) : IndexM (LotMap × RuneUpdater) :=
  tx.input.foldlM unallocatedInput (∅, u)

/-! ### Mints -/

/-- The amount minted, if `id` can be minted at this height. -/
def mint (u : RuneUpdater) (id : RuneId) : IndexM (Option Nat × RuneUpdater) := do
  match ← gets (Store.memGetRuneIdToRuneEntry id) with
  | none => return (none, u)
  | some runeEntry =>
    match runeEntry.mintable u.height with
    | .error _ => return (none, u)
    | .ok amount =>
      modify (Store.memInsertRuneIdToRuneEntry id
        { runeEntry with mints := runeEntry.mints + 1 })
      -- `if !mints.contains_key(&id)`: the count before the first mint of the block is recorded
      return (some amount, { u with changeRecord := { u.changeRecord with
        mints := u.changeRecord.mints.insertNew id runeEntry.mints } })

/-! ### Etchings -/

/-- `u32::checked_sub` -/
def checkedSub (a b : Nat) : Option Nat := if b ≤ a then some (a - b) else none

/-- The loop over the instructions of the tapscript of the input that spends `o`:
    `true` when the code returns from `tx_commits_to_rune` with `Ok(true)`. -/
def commitsInScript (lib : Crates) (u : RuneUpdater) (commitment : List UInt8) (o : OutPoint) :
    List (Except Unit Instruction) → AsyncM Bool
  | [] => return false
  -- the rest of a script that does not decode is ignored
  | .error _ :: _ => return false
  | .ok instruction :: rest => do
    if instruction.pushed = some commitment then
      let txInfo ← getRawTransactionInfo o.txid
      -- an output that the node does not list is a panic
      let scriptPubkey ← indexAt txInfo.vout o.vout
      if lib.isP2tr (← ofResult scriptPubkey) then
        match txInfo.blockhash with
        | none => fail (.noBlockHash txInfo.txid)
        | some blockHash =>
          let commitTxHeight ← getBlockHeaderInfo blockHash
          -- so is a commitment in a block above this one; the sum is a `u32` and wraps
          let confirmations := ((← unwrap (checkedSub u.height commitTxHeight)) + 1) % 2 ^ 32
          if lib.commitConfirmations ≤ confirmations then
            return true
          else
            commitsInScript lib u commitment o rest
      else
        commitsInScript lib u commitment o rest
    else
      commitsInScript lib u commitment o rest

/-- The loop over the inputs in `tx_commits_to_rune`. -/
def commitsInInputs (lib : Crates) (u : RuneUpdater) (commitment : List UInt8) :
    List TxIn → AsyncM Bool
  | [] => return false
  | input :: rest => do
    match lib.tapscript input.witness with
    | none => commitsInInputs lib u commitment rest
    | some tapscript =>
      if ← commitsInScript lib u commitment input.previousOutput (lib.instructions tapscript) then
        return true
      else
        commitsInInputs lib u commitment rest

def txCommitsToRune (lib : Crates) (u : RuneUpdater) (tx : Transaction) (rune : Rune) :
    AsyncM Bool :=
  commitsInInputs lib u (lib.commitment rune) tx.input

/-- The rune an artifact etches: `none` if it etches nothing, `some none` if it
    leaves the name to the indexer. -/
def etchingOf : Artifact → Option (Option Rune)
  | .runestone runestone => runestone.etching.map (·.rune)
  | .cenotaph cenotaph => cenotaph.etching.map some

/-- The id and the name of the rune etched by `tx`, if its etching is accepted. -/
def etched (lib : Crates) (u : RuneUpdater) (txIndex : Nat) (tx : Transaction)
    (artifact : Artifact) : AsyncM (Option (RuneId × Rune)) := do
  match etchingOf artifact with
  | none => return none
  | some (some rune) =>
    -- `||` is lazy: the node is asked only about a name that passes the first three checks
    let taken ← gets (Store.memGetRuneToRuneId rune)
    if rune.n < u.minimum.n ∨ lib.isReserved rune ∨ taken.isSome then
      return none
    else if ← txCommitsToRune lib u tx rune then
      return some (⟨u.height, txIndex⟩, rune)
    else
      return none
  | some none =>
    let reservedRunes ← gets Store.memStatisticReservedRunes
    modify (Store.memInsertStatisticReservedRunes u.height (reservedRunes + 1))
    return some (⟨u.height, txIndex⟩, lib.reserved u.height txIndex)

/-- The entry of a newly etched rune. -/
def newRuneEntry (u : RuneUpdater) (txid : Txid) (artifact : Artifact) (id : RuneId)
    (rune : Rune) : Except Panic RuneEntry :=
  match artifact with
  -- of a cenotaph only the name is kept
  | .cenotaph _ => return {
      block := id.block
      burned := 0
      divisibility := 0
      etching := txid
      terms := none
      mints := 0
      number := u.runes
      premine := 0
      spacedRune := ⟨rune, 0⟩
      symbol := none
      timestamp := u.blockTime
      turbo := false }
  | .runestone runestone => do
    let etching ← unwrap runestone.etching
    return {
      block := id.block
      burned := 0
      divisibility := etching.divisibility.getD 0
      etching := txid
      terms := etching.terms
      mints := 0
      number := u.runes
      premine := etching.premine.getD 0
      spacedRune := ⟨rune, etching.spacers.getD 0⟩
      symbol := etching.symbol
      timestamp := u.blockTime
      turbo := etching.turbo }

def createRuneEntry (u : RuneUpdater) (txid : Txid) (artifact : Artifact) (id : RuneId)
    (rune : Rune) : IndexM RuneUpdater := do
  modify (Store.memInsertRuneToRuneId rune id)
  modify (Store.memInsertTransactionIdToRune txid rune)
  modify (Store.memInsertStatisticRunes u.height (u.runes + 1))
  -- name, etching and counter are written before the entry is there
  let entry ← newRuneEntry u txid artifact id rune
  modify (Store.memInsertRuneIdToRuneEntry id entry)
  return { u with
    runes := u.runes + 1
    changeRecord := { u.changeRecord with
      addedRunes := u.changeRecord.addedRunes ++ [(rune, id, txid)] } }

/-! ### Edicts -/

/-- The closure `allocate` of `index_runes`: move `amount` of the balance to `output`. -/
def allocate (id : RuneId) (st : Nat × List LotMap) (amount : Nat) (output : Nat) :
    Except Panic (Nat × List LotMap) :=
  if 0 < amount then do
    let balance ← Lot.sub st.1 amount
    let balances ← indexAt st.2 output
    let balances ← balances.addTo id amount
    return (balance, st.2.set output balances)
  else
    return st

/-- The non-OP_RETURN outputs. -/
def destinations (lib : Crates) (tx : Transaction) : List Nat :=
  tx.output.zipIdx.filterMap fun e => if lib.burns e.1 then none else some e.2

/-- `if i < remainder { amount + 1 } else { amount }` -/
def evenShare (amount remainder i : Nat) : Except Panic Nat :=
  if i < remainder then Lot.add amount 1 else return amount

/-- Divide the balance between the destinations. -/
def splitEvenly (id : RuneId) (destinations : List Nat) (st : Nat × List LotMap) :
    Except Panic (Nat × List LotMap) := do
  let amount := st.1 / destinations.length
  let remainder := st.1 % destinations.length
  -- `usize::try_from(remainder).unwrap()`
  let remainder ← unwrap (if remainder < usizeBound then some remainder else none)
  destinations.zipIdx.foldlM (fun st e => do
    allocate id st (← evenShare amount remainder e.2) e.1) st

/-- Give each destination the same amount while the balance lasts. -/
def distribute (id : RuneId) (amount : Nat) (destinations : List Nat) (st : Nat × List LotMap) :
    Except Panic (Nat × List LotMap) :=
  destinations.foldlM (fun st output => allocate id st (min amount st.1) output) st

/-- The rune an edict moves: the id `0:0` stands for the rune etched here. -/
def resolveEdict (etched : Option (RuneId × Rune)) (id : RuneId) : Option RuneId :=
  if id = RuneId.default then etched.map Prod.fst else some id

/-- What an edict does to the balance of its rune. -/
def applyEdict (lib : Crates) (tx : Transaction) (id : RuneId) (edict : Edict)
    (st : Nat × List LotMap) : Except Panic (Nat × List LotMap) :=
  if edict.output = tx.output.length then
    -- one past the last output stands for all of them but OP_RETURN
    if (destinations lib tx).isEmpty then return st
    else if edict.amount = 0 then splitEvenly id (destinations lib tx) st
    else distribute id edict.amount (destinations lib tx) st
  else
    allocate id st (if edict.amount = 0 then st.1 else min edict.amount st.1) edict.output

/-- The loop body over the edicts of a runestone. -/
def indexEdict (lib : Crates) (tx : Transaction) (etched : Option (RuneId × Rune))
    (st : LotMap × List LotMap) (edict : Edict) : Except Panic (LotMap × List LotMap) := do
  assertThat (edict.output ≤ tx.output.length)
  match resolveEdict etched edict.id with
  | none => return st
  | some id =>
    -- `get_mut`: a rune that is not among the unallocated ones is skipped
    match st.1.get? id with
    | none => return st
    | some balance =>
      let st' ← applyEdict lib tx id edict (balance, st.2)
      return (st.1.insert id st'.1, st'.2)

/-! ### One transaction -/

/-- The mint of an artifact: the minted amount joins the unallocated runes. -/
def indexMint (u : RuneUpdater) (artifact : Artifact) (unallocated : LotMap) :
    IndexM (LotMap × RuneUpdater) := do
  match artifact.mint with
  | none => return (unallocated, u)
  | some id =>
    match ← u.mint id with
    | (none, u) => return (unallocated, u)
    | (some amount, u) => return (← unallocated.addTo id amount, u)

/-- `*unallocated.entry(id).or_default() += runestone.etching.unwrap().premine…` -/
def addPremine (runestone : Runestone) (unallocated : LotMap) :
    Option (RuneId × Rune) → Except Panic LotMap
  | none => return unallocated
  | some (id, _) => do
    let etching ← unwrap runestone.etching
    unallocated.addTo id (etching.premine.getD 0)

/-- Premine and edicts, which only a runestone has. -/
def indexRunestone (lib : Crates) (tx : Transaction) (artifact : Artifact)
    (etched : Option (RuneId × Rune)) (unallocated : LotMap) :
    Except Panic (LotMap × List LotMap) := do
  let allocated := List.replicate tx.output.length ∅
  match artifact with
  | .cenotaph _ => return (unallocated, allocated)
  | .runestone runestone =>
    let unallocated ← addPremine runestone unallocated etched
    runestone.edicts.foldlM (indexEdict lib tx etched) (unallocated, allocated)

/-- The block `if let Some(artifact) = &artifact` of `index_runes`. -/
def indexArtifact (lib : Crates) (u : RuneUpdater) (txIndex : Nat) (tx : Transaction)
    (txid : Txid) (artifact : Artifact) (unallocated : LotMap) :
    AsyncM (LotMap × List LotMap × RuneUpdater) := do
  let (unallocated, u) ← u.indexMint artifact unallocated
  let etched ← etched lib u txIndex tx artifact
  let (unallocated, allocated) ← indexRunestone lib tx artifact etched unallocated
  match etched with
  | none => return (unallocated, allocated, u)
  | some (id, rune) => return (unallocated, allocated, ← u.createRuneEntry txid artifact id rune)

/-- `*burned.entry(id).or_default() += balance` along an iteration. -/
def addAll (burned : LotMap) (balances : List (RuneId × Nat)) : Except Panic LotMap :=
  balances.foldlM (fun m e => LotMap.addTo m e.1 e.2) burned

/-- `if balance > 0` around the loop bodies of the default assignment. -/
def positive (balances : List (RuneId × Nat)) : List (RuneId × Nat) :=
  balances.filter fun e => 0 < e.2

/-- The default output: the pointer, or else the first non-OP_RETURN output. -/
def defaultOutput (lib : Crates) (tx : Transaction) (pointer : Option Nat) :
    Except Panic (Option Nat) :=
  match pointer with
  | some pointer => do
    assertThat (pointer < tx.output.length)
    return some pointer
  | none => return tx.output.findIdx? fun txOut => !lib.burns txOut

/-- What becomes of the unallocated runes: the final allocation and the runes
    burned so far. -/
def assignUnallocated (lib : Crates) (tx : Transaction) (artifact : Option Artifact)
    (unallocated : List (RuneId × Nat)) (allocated : List LotMap) :
    Except Panic (List LotMap × LotMap) := do
  match artifact with
  -- a cenotaph burns all there is, entries of zero included
  | some (.cenotaph _) => return (allocated, ← addAll ∅ unallocated)
  | _ =>
    let pointer := match artifact with
      | some (.runestone runestone) => runestone.pointer
      | _ => none
    match ← defaultOutput lib tx pointer with
    | some vout =>
      let allocated ← (positive unallocated).foldlM (fun allocated e => do
        let balances ← indexAt allocated vout
        return allocated.set vout (← balances.addTo e.1 e.2)) allocated
      return (allocated, ∅)
    | none => return (allocated, ← addAll ∅ (positive unallocated))

/-- The loop body that writes output `vout`, or burns what an OP_RETURN got. -/
def updateOutpoint (lib : Crates) (ord : HashOrder) (txIndex : Nat) (tx : Transaction)
    (txid : Txid) (st : LotMap × RuneUpdater) (output : LotMap × Nat) :
    IndexM (LotMap × RuneUpdater) := do
  let (balances, vout) := output
  if balances.size = 0 then
    return st
  else
    let txOut ← indexAt tx.output vout
    let balances := ord.iter (.allocated st.2.height txIndex vout) balances
    -- `continue`: an OP_RETURN output is not stored
    if lib.burns txOut then
      return (← addAll st.1 balances, st.2)
    else
      let outpoint : OutPoint := ⟨txid, vout⟩
      modify (Store.memInsertOutpointToRuneBalances outpoint
        (balances.map fun e => ⟨e.1, e.2⟩))
      modify (Store.memInsertOutpointToHeight outpoint st.2.height)
      return (st.1, { st.2 with changeRecord := { st.2.changeRecord with
        addedOutpoints := st.2.changeRecord.addedOutpoints ++ [outpoint] } })

/-- From the assignment of the unallocated runes to the end of `index_runes`. -/
def finishTransaction (lib : Crates) (ord : HashOrder) (u : RuneUpdater) (txIndex : Nat)
    (tx : Transaction) (txid : Txid) (artifact : Option Artifact) (unallocated : LotMap)
    (allocated : List LotMap) : IndexM RuneUpdater := do
  let (allocated, burned) ← assignUnallocated lib tx artifact
    (ord.iter (.unallocated u.height txIndex) unallocated) allocated
  let (burned, u) ← allocated.zipIdx.foldlM (updateOutpoint lib ord txIndex tx txid) (burned, u)
  return { u with burned := ← addAll u.burned (ord.iter (.txBurned u.height txIndex) burned) }

/-- Without an artifact nothing is minted, etched or allocated. -/
def indexArtifact? (lib : Crates) (u : RuneUpdater) (txIndex : Nat) (tx : Transaction)
    (txid : Txid) (unallocated : LotMap) :
    Option Artifact → AsyncM (LotMap × List LotMap × RuneUpdater)
  | none => return (unallocated, List.replicate tx.output.length ∅, u)
  | some artifact => indexArtifact lib u txIndex tx txid artifact unallocated

def indexRunes (lib : Crates) (ord : HashOrder) (u : RuneUpdater) (txIndex : Nat)
    (tx : Transaction) (txid : Txid) : AsyncM RuneUpdater := do
  let artifact := lib.decipher tx
  let (unallocated, u) ← u.unallocated tx
  let (unallocated, allocated, u) ← indexArtifact? lib u txIndex tx txid unallocated artifact
  finishTransaction lib ord u txIndex tx txid artifact unallocated allocated

/-! ### The end of a block -/

/-- The loop body of `update`. -/
def updateBurned (record : ChangeRecord) (e : RuneId × Nat) : IndexM ChangeRecord := do
  let entry ← unwrap (← gets (Store.memGetRuneIdToRuneEntry e.1))
  -- `contains_key` again: the count before the block is recorded
  let record := { record with burned := record.burned.insertNew e.1 entry.burned }
  -- `entry.burned.checked_add(burned.n()).unwrap()`
  let burned ← unwrap (if entry.burned + e.2 < u128Bound then some (entry.burned + e.2) else none)
  modify (Store.memInsertRuneIdToRuneEntry e.1 { entry with burned := burned })
  return record

/-- Flush the burned runes into the entries and store the change record. -/
def update (ord : HashOrder) (u : RuneUpdater) : IndexM Unit := do
  let record ← (ord.iter (.blockBurned u.height) u.burned).foldlM updateBurned u.changeRecord
  modify (Store.memInsertChangeRecord u.height record)

end RuneUpdater

end RunesIndexer
