import RunesIndexer.Lib.Handler
import RunesIndexer.Model.Updater
import RunesIndexer.Model.Values

/-! # What leaves the canister (`bitcoin_api.rs`, `rpc.rs`, `notifier.rs`)

    The indexing loop makes five kinds of calls. Here each of them is carried out: as a
    request to the management canister for block headers, as the range requests of
    `make_rpc`, or as a message to a subscriber. `handler` puts them together, and
    `callback` is the callback of the timer with its calls carried out.

    The loop of `make_rpc` has no end of its own, so it is run with fuel; a handler that
    runs out of it gives no answer.
-/

namespace RunesIndexer

open Resumption Serial

/-! ### Calls to other canisters -/

/-- `Config::get_subnet_nodes` -/
def Config.getSubnetNodes (config : Config) : Nat :=
  match config.network with
  | .regtest => 13
  | .testnet => 13
  | .mainnet => 34

/-- `ic_cdk::api::call::RejectionCode` -/
inductive RejectionCode where
  | noError
  | sysFatal
  | sysTransient
  | destinationInvalid
  | canisterReject
  | canisterError
  | unknown
  deriving DecidableEq

structure GetBlockHeadersRequest where
  startHeight : Nat
  endHeight : Option Nat
  network : BitcoinNetwork
  deriving DecidableEq

structure GetBlockHeadersResponse where
  tipHeight : Nat
  blockHeaders : List (List UInt8)

structure NewBlockRequest where
  blockHeight : Nat
  blockHash : String
  blockTimestamp : Nat
  txIds : List String
  deriving DecidableEq

/-- The messages that the canister sends. -/
inductive Outcall where
  /-- `http_request` -/
  | httpRequest (call : Rpc.HttpCall)
  /-- "bitcoin_get_block_headers", with its cycles -/
  | bitcoinGetBlockHeaders (request : GetBlockHeadersRequest) (cycles : Nat)
  /-- "new_block_detected" -/
  | newBlockDetected (canisterId : Nat) (request : NewBlockRequest)

/-- Their replies, or a rejection. -/
def OutReply : Outcall → Type
  | .httpRequest call => Rpc.HttpReply call
  | .bitcoinGetBlockHeaders .. => Except (RejectionCode × String) GetBlockHeadersResponse
  | .newBlockDetected .. => Except (RejectionCode × String) Unit

/-- Code that sends messages; its errors are values. -/
abbrev GatewayM : Type → Type := Async Outcall OutReply Empty Panic Store

/-- Which replies may come. -/
abbrev Replies : Type := (q : Outcall) → OutReply q → Prop

namespace Gateway

/-- Await the reply to `q`. -/
def outcall (q : Outcall) : GatewayM (OutReply q) := Async.call q

/-! ### Requests to the RPC endpoint -/

/-- `serde_json::Value`, as far as parameters use it -/
inductive Json where
  | null
  | bool (b : Bool)
  | number (n : Nat)
  | string (s : String)
  deriving DecidableEq

/-- What is used of `serde_json`, `sha2`, `hex` and `bitcoin` to write requests and to read
    responses, for each kind of result. -/
structure Endpoint where
  toVec : String → List Json → List UInt8
  uniq : List UInt8 → Nat × Nat → String
  stringFromSlice : List UInt8 → Option (Option String × Option String)
  rawTransactionFromSlice : List UInt8 → Option (Option String × Option RawTransaction)
  /-- Of `GetBlockHeaderResult` only the height is read. -/
  blockHeaderFromSlice : List UInt8 → Option (Option String × Option Nat)
  blockHashFromSlice : List UInt8 → Option (Option String × Option BlockHash)
  /-- `encode::deserialize_hex` -/
  deserializeHex : String → Option Block

/-- `http_request` as a message. -/
def httpHandler : Handler Rpc.HttpCall Rpc.HttpReply Outcall OutReply Panic Store := fun call => do
  let reply : Rpc.HttpReply call ← outcall (.httpRequest call)
  return some reply

/-- What is known when code that makes HTTP requests has ended. -/
def settle {α : Type} :
    Option (Except Rpc.RpcError (Option α)) → Option (Except Rpc.RpcError α)
  | none => none
  | some (.error e) => some (.error e)
  | some (.ok none) => none
  | some (.ok (some a)) => some (.ok a)

/-- Await code that makes HTTP requests. -/
def awaitRpc {α : Type} (x : Rpc.RpcM (Option α)) : GatewayM (Option (Except Rpc.RpcError α)) :=
  ⟨fun s => ((x.run s).interpret httpHandler).bind fun r s' => .ok s' (settle r)⟩

section

variable (endpoint : Endpoint) (fuel : Nat)

/-- `make_rpc` at the endpoint that is configured when the call is made. -/
def request {R : Type} (fromSlice : List UInt8 → Option (Option String × Option R))
    (method : String) (params : List Json) (maxResponseBytes : Nat) :
    GatewayM (Option (Except Rpc.RpcError R)) := do
  let config ← (Sync.gets Store.config : Sync Empty Panic Store Config)
  awaitRpc (Rpc.makeRpc ⟨endpoint.toVec, endpoint.uniq, fromSlice⟩ fuel config.bitcoinRpcUrl
    method params maxResponseBytes config.getSubnetNodes)

/-- The error of a call as the indexing code sees it. -/
def orRpc {α : Type} : Except Rpc.RpcError α → Except Error α
  | .ok a => .ok a
  | .error _ => .error .rpc

/-- `inner_get_block` makes a block of the text. -/
def readBlock : Except Rpc.RpcError String → Except Error Block
  | .ok hex =>
    match endpoint.deserializeHex hex with
    | some block => .ok block
    | none => .error .rpc
  | .error _ => .error .rpc

def innerGetBlock (hash : BlockHash) : GatewayM (Option (Except Error Block)) := do
  let reply ← request endpoint fuel endpoint.stringFromSlice "getblock"
    [.string hash.toHex, .number 0] Rpc.maxResponseBytes
  return reply.map (readBlock endpoint)

/-- `get_raw_transaction_info`, which is never given a block hash -/
def getRawTransactionInfo (txid : Txid) : GatewayM (Option (Except Error RawTransaction)) := do
  let reply ← request endpoint fuel endpoint.rawTransactionFromSlice "getrawtransaction"
    [.string txid.toHex, .bool true, .null] 4096
  return reply.map orRpc

def getBlockHeaderInfo (hash : BlockHash) : GatewayM (Option (Except Error Nat)) := do
  let reply ← request endpoint fuel endpoint.blockHeaderFromSlice "getblockheader"
    [.string hash.toHex, .bool true] 1024
  return reply.map orRpc

/-- `rpc::get_block_hash` -/
def rpcGetBlockHash (height : Nat) : GatewayM (Option (Except Rpc.RpcError BlockHash)) :=
  request endpoint fuel endpoint.blockHashFromSlice "getblockhash" [.number height] 256

end

/-! ### Block hashes -/

/-- The cycles of `get_block_headers`. -/
def blockHeadersCycles : BitcoinNetwork → Nat
  | .mainnet => 10000000000
  | .testnet => 10000000000
  | .regtest => 0

def getBlockHeaders (network : BitcoinNetwork) (startHeight : Nat) (endHeight : Option Nat) :
    GatewayM (Except (RejectionCode × String) GetBlockHeadersResponse) :=
  outcall (.bitcoinGetBlockHeaders ⟨startHeight, endHeight, network⟩
    (blockHeadersCycles network))

/-- The text by which the management canister says that there is no such height. -/
def startHeightDoesNotExist : List Char := "StartHeightDoesNotExist".toList

/-- What `get_block_hash` makes of the reply about headers. -/
def readBlockHash (lib : Crates) :
    Except (RejectionCode × String) GetBlockHeadersResponse → Except Error (Option BlockHash)
  | .ok response =>
    match response.blockHeaders.head? with
    | none => .error .rpc
    | some headerBytes =>
      match Header.consensusDecode.run headerBytes with
      | some (header, _) => .ok (some (lib.blockHash header))
      | none => .error .rpc
  | .error (code, message) =>
    if code = .canisterReject ∧ startHeightDoesNotExist <:+: message.toList then .ok none
    else .error .rpc

/-- On regtest every error of the endpoint counts as a block that is not there yet. -/
def hashOrNone : Except Rpc.RpcError BlockHash → Except Error (Option BlockHash)
  | .ok hash => .ok (some hash)
  | .error _ => .ok none

/-- `bitcoin_api::get_block_hash` -/
def getBlockHash (lib : Crates) (endpoint : Endpoint) (fuel : Nat) (network : BitcoinNetwork)
    (height : Nat) : GatewayM (Option (Except Error (Option BlockHash))) :=
  -- only the regtest network is asked over HTTP
  if network = .regtest then do
    let reply ← rpcGetBlockHash endpoint fuel height
    return reply.map hashOrNone
  else do
    let reply ← getBlockHeaders network height (some height)
    return some (readBlockHash lib reply)

/-! ### Subscribers -/

/-- The message of `notify_new_block`. -/
def newBlockDetected (canisterId height : Nat) (hash : BlockHash) (time : Nat)
    (txids : List Txid) : GatewayM (Except Error Unit) := do
  let reply : Except (RejectionCode × String) Unit ← outcall (.newBlockDetected canisterId
    ⟨height, hash.toHex, time, txids.map BitVec.toHex⟩)
  return reply.mapError fun _ => .rpc

/-! ### The loop -/

/-- How each call of the loop is carried out. -/
def handler (lib : Crates) (endpoint : Endpoint) (fuel : Nat) :
    Handler Call Reply Outcall OutReply Panic Store
  | .getBlockHash network height => getBlockHash lib endpoint fuel network height
  | .innerGetBlock hash => innerGetBlock endpoint fuel hash
  | .getRawTransactionInfo txid => getRawTransactionInfo endpoint fuel txid
  | .getBlockHeaderInfo hash => getBlockHeaderInfo endpoint fuel hash
  | .newBlockDetected subscriber height hash time txids => do
    let reply ← newBlockDetected subscriber height hash time txids
    return some reply

/-- The callback of the timer, down to the messages that it sends. -/
def callback (lib : Crates) (endpoint : Endpoint) (fuel : Nat) (ord : HashOrder)
    (network : BitcoinNetwork) (subscribers : List Nat) :
    GatewayM (Option (Except Error Flow)) :=
  ⟨fun s => ((updateIndexIteration lib ord network subscribers).run s).interpret
    (handler lib endpoint fuel)⟩

end Gateway

end RunesIndexer
