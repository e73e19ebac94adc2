import RunesIndexer.Model.Store

/-! # Queries (`main.rs`)

    The answers of the canister to its readers. Parsing and printing belong to the
    crates, so they are parameters. A query that expects a block and finds none traps.
-/

namespace RunesIndexer

/-! ### Answers (`interface`) -/

namespace Interface

structure RuneBalance where
  confirmations : Nat
  runeId : String
  amount : Nat
  divisibility : Nat
  symbol : Option String
  deriving DecidableEq

structure GetEtchingResult where
  confirmations : Nat
  runeId : String
  deriving DecidableEq

structure RuneEntry where
  confirmations : Nat
  runeId : String
  block : Nat
  burned : Nat
  divisibility : Nat
  etching : String
  mints : Nat
  number : Nat
  premine : Nat
  spacedRune : String
  symbol : Option String
  terms : Option Terms
  timestamp : Nat
  turbo : Bool
  deriving DecidableEq

inductive Error where
  | maxOutpointsExceeded
  deriving DecidableEq

end Interface

/-- `FromStr` and `Display` of the crates' types. -/
structure Texts where
  parseTxid : String → Option Txid
  parseSpacedRune : String → Option SpacedRune
  parseRuneId : String → Option RuneId
  parseOutPoint : String → Option OutPoint
  printTxid : Txid → String
  printSpacedRune : SpacedRune → String
  printRuneId : RuneId → String

/-! ### The queries -/

namespace Query

def maxOutpoints : Nat := 256

/-- `mem_latest_block_height().expect("No block height found")` -/
def curHeight (s : Store) : Except Panic Nat :=
  match s.memLatestBlockHeight with
  | some height => .ok height
  | none => .error .noBlock

/-- `print` is the `Display` of a block hash. -/
def getLatestBlock (lib : Crates) (print : BlockHash → String) (s : Store) :
    Except Panic (Nat × String) :=
  match s.memLatestBlock lib with
  | some (height, hash) => .ok (height, print hash)
  | none => .error .noBlock

/-- `cur_height - height as u32 + 1` -/
def confirmations (curHeight height : Nat) : Nat :=
  -- the height is cast to `u32` and the difference wraps
  (curHeight + 2 ^ 32 - height % 2 ^ 32 + 1) % 2 ^ 32

def getEtching (texts : Texts) (txid : String) (s : Store) :
    Except Panic (Option Interface.GetEtchingResult) :=
  match texts.parseTxid txid with
  | none => return none
  | some txid => do
    -- without a block this traps, whether the rune is known or not
    let curHeight ← curHeight s
    return (s.memGetEtching txid).map fun e => {
      confirmations := confirmations curHeight e.2.block
      runeId := texts.printRuneId e.1 }

/-- The answer about an entry, which both `get_rune` and `get_rune_by_id` build. -/
def runeEntry (texts : Texts) (curHeight : Nat) (runeId : String) (e : RuneEntry) :
    Interface.RuneEntry where
  confirmations := confirmations curHeight e.block
  runeId := runeId
  block := e.block
  burned := e.burned
  divisibility := e.divisibility
  etching := texts.printTxid e.etching
  mints := e.mints
  number := e.number
  premine := e.premine
  spacedRune := texts.printSpacedRune e.spacedRune
  symbol := e.symbol.map Char.toString
  terms := e.terms
  timestamp := e.timestamp
  turbo := e.turbo

def getRune (texts : Texts) (strSpacedRune : String) (s : Store) :
    Except Panic (Option Interface.RuneEntry) :=
  match texts.parseSpacedRune strSpacedRune with
  | none => return none
  | some spacedRune =>
    match s.memGetRuneToRuneId spacedRune.rune with
    | none => return none
    | some id =>
      match s.memGetRuneIdToRuneEntry id with
      | none => return none
      | some e => do
        let curHeight ← curHeight s
        return some (runeEntry texts curHeight (texts.printRuneId id) e)

def getRuneById (texts : Texts) (strRuneId : String) (s : Store) :
    Except Panic (Option Interface.RuneEntry) :=
  match texts.parseRuneId strRuneId with
  | none => return none
  | some id =>
    match s.memGetRuneIdToRuneEntry id with
    | none => return none
    | some e => do
      let curHeight ← curHeight s
      -- the answer repeats the text of the request
      return some (runeEntry texts curHeight strRuneId e)

/-- The loop body over the balances of an outpoint; one without an entry is left out. -/
def runeBalance (texts : Texts) (s : Store) (confirmations : Nat) (b : RuneBalance) :
    Option Interface.RuneBalance :=
  (s.memGetRuneIdToRuneEntry b.runeId).map fun e => {
    confirmations := confirmations
    runeId := texts.printRuneId b.runeId
    amount := b.balance
    divisibility := e.divisibility
    symbol := e.symbol.map Char.toString }

/-- The loop body over the requested outpoints. -/
def pile (texts : Texts) (s : Store) (curHeight : Nat) (strOutpoint : String) :
    Option (List Interface.RuneBalance) :=
  match texts.parseOutPoint strOutpoint with
  | none => none
  | some o =>
    match s.memGetOutpointToRuneBalances o with
    | none => none
    | some runeBalances =>
      match s.memGetOutpointToHeight o with
      | none => none
      | some height =>
        some (runeBalances.filterMap (runeBalance texts s (confirmations curHeight height)))

def getRuneBalancesForOutputs (texts : Texts) (outpoints : List String) (s : Store) :
    Except Panic (Except Interface.Error (List (Option (List Interface.RuneBalance)))) :=
  if maxOutpoints < outpoints.length then
    return .error .maxOutpointsExceeded
  else do
    let curHeight ← curHeight s
    return .ok (outpoints.map (pile texts s curHeight))

/-- A height that is not above the current one does not underflow. -/
theorem confirmations_eq {curHeight height : Nat} (h : height ≤ curHeight) :
    confirmations curHeight height = (curHeight - height + 1) % 2 ^ 32 := by
  unfold confirmations
  omega

end Query

end RunesIndexer
