import RunesIndexer.Model.Updater

/-! # The canister (`main.rs`)

    Installation, upgrades and the calls of a controller, as functions of the stable
    maps and of the timers that `update_index` has set. The queries are in
    `Model.Query`. A trap undoes the message it happens in, so the functions that may
    trap return the text of the trap in place of a canister.
-/

namespace RunesIndexer

/-! ### Arguments -/

structure UpgradeArgs where
  bitcoinRpcUrl : Option String
  subscribers : Option (List Nat)

inductive RunesIndexerArgs where
  | init (config : Config)
  | upgrade (args : Option UpgradeArgs)

/-! ### The stable maps -/

namespace Store

def shutDown (s : Store) : Store := { s with shuttingDown := true }

def cancelShutdown (s : Store) : Store := { s with shuttingDown := false }

def memSetConfig (config : Config) (s : Store) : Store := { s with config := config }

/-- The rune that `init_mainnet` inserts, its id and its etching. -/
def uncommonGoods : Rune := ⟨2055900680524219742⟩

def uncommonGoodsId : RuneId := ⟨1, 0⟩

/-- `SUBSIDY_HALVING_INTERVAL` -/
def subsidyHalvingInterval : Nat := 210000

def uncommonGoodsEntry : RuneEntry where
  block := uncommonGoodsId.block
  burned := 0
  divisibility := 0
  etching := Txid.allZeros
  terms := some ⟨some 1, some (u128Bound - 1),
    (some (subsidyHalvingInterval * 4), some (subsidyHalvingInterval * 5)), (none, none)⟩
  mints := 0
  number := 0
  premine := 0
  spacedRune := ⟨uncommonGoods, 128⟩
  symbol := some '\u29C9'
  timestamp := 0
  turbo := true

/-- `init_mainnet` -/
def initMainnet (s : Store) : Store :=
  (((s.memInsertRuneToRuneId uncommonGoods uncommonGoodsId).memInsertStatisticRunes 1
    1).memInsertRuneIdToRuneEntry uncommonGoodsId
      uncommonGoodsEntry).memInsertTransactionIdToRune Txid.allZeros uncommonGoods

end Store

/-! ### Entry points -/

/-- A timer that `update_index` set, with what its callback captured. -/
structure Timer where
  network : BitcoinNetwork
  subscribers : List Nat
  deriving DecidableEq

structure Canister where
  store : Store
  timers : List Timer

namespace Canister

def updateIndex (network : BitcoinNetwork) (subscribers : List Nat) (c : Canister) : Canister :=
  { c with timers := c.timers ++ [⟨network, subscribers⟩] }

def start (isController : Bool) (c : Canister) : Except String Unit × Canister :=
  if isController then
    let c := { c with store := c.store.cancelShutdown }
    let config := c.store.config
    -- a timer more, whether or not one is set
    (.ok (), c.updateIndex config.network config.subscribers)
  else
    (.error "Not authorized", c)

def stop (isController : Bool) (c : Canister) : Except String Unit × Canister :=
  if isController then
    (.ok (), { c with store := c.store.shutDown })
  else
    (.error "Not authorized", c)

def setBitcoinRpcUrl (isController : Bool) (url : String) (c : Canister) :
    Except String Unit × Canister :=
  if isController then
    let config := { c.store.config with bitcoinRpcUrl := url }
    (.ok (), { c with store := c.store.memSetConfig config })
  else
    (.error "Not authorized", c)

/-- `init`, on memories that were never written. -/
def init : RunesIndexerArgs → Except String Canister
  | .init config => .ok ⟨(Store.empty Config.default).memSetConfig config, []⟩
  | .upgrade _ => .error
      "Cannot initialize the canister with an Upgrade argument. Please provide an Init argument."

/-- What an upgrade keeps: the stable maps, but neither the flag nor the timers. -/
def reboot (c : Canister) : Canister := ⟨c.store.cancelShutdown, []⟩

/-- The configuration that the arguments of an upgrade change. -/
def upgradeConfig (config : Config) (args : UpgradeArgs) : Config :=
  let config := match args.bitcoinRpcUrl with
    | some bitcoinRpcUrl => { config with bitcoinRpcUrl := bitcoinRpcUrl }
    | none => config
  match args.subscribers with
  | some subscribers => { config with subscribers := subscribers }
  | none => config

/-- `post_upgrade`, on what the upgrade kept. -/
def postUpgrade (args : Option RunesIndexerArgs) (c : Canister) : Except String Canister :=
  -- no timer is set here: indexing waits for `start`
  let c := c.reboot
  match args with
  | some (.upgrade (some upgradeArgs)) =>
    .ok { c with store := c.store.memSetConfig (upgradeConfig c.store.config upgradeArgs) }
  | none => .ok c
  | some (.upgrade none) => .ok c
  | some (.init _) => .error
      "Cannot upgrade the canister with an Init argument. Please provide an Upgrade argument."

/-- A timer fired, and its callback ended with `flow` and left the maps `s`. -/
def finish (timer : Timer) (flow : Flow) (s : Store) (c : Canister) : Canister :=
  let c : Canister := ⟨s, c.timers.erase timer⟩
  if flow = .rearm then c.updateIndex timer.network timer.subscribers else c

end Canister

end RunesIndexer
