import RunesIndexer.Model.Gateway
import RunesIndexer.Spec.Headers
import RunesIndexer.Spec.Iteration
import RunesIndexer.Spec.Requests

/-! # Over the wire

    The loop with its calls carried out. On mainnet and testnet the hash of a block comes
    from the management canister and everything else from the RPC endpoint, which is not
    trusted: it can delay the index, but the headers in it are those that the management
    canister has reported.
-/

namespace RunesIndexer

open Resumption

namespace Gateway

/-! ### Nothing is written -/

theorem retryRequest_readOnly (args : Rpc.HttpRequest) (left cycles : Nat) :
    (Rpc.retryRequest args left cycles).ReadOnly := by
  induction left generalizing cycles with
  | zero =>
    rw [Rpc.retryRequest]
    refine .bind (.call _) fun response => ?_
    cases response with
    | ok response => exact .pure response
    | error e => exact .fail _
  | succ left ih =>
    rw [Rpc.retryRequest]
    refine .bind (.call _) fun response => ?_
    cases response with
    | ok response => exact .pure response
    | error e => exact ih _

theorem ofExcept_readOnly {Q : Type} {A : Q → Type} {ε α : Type} (x : Except Panic α) :
    (liftM x : Async Q A ε Panic Store α).ReadOnly := by
  cases x with
  | ok a => exact .pure a
  | error p => exact ⟨fun _ _ _ h => by rw [Proc.runs_trap.mp h]; trivial, fun _ _ _ h => nomatch h⟩

section

variable {J R : Type} (codec : Rpc.Codec J R) (url : String) (subnetNodes fuel : Nat)

theorem makeRpcLoop_readOnly (payload : List UInt8) (range : Nat × Nat) (buf : List UInt8)
    (capacity : Nat) :
    (Rpc.makeRpcLoop codec url payload subnetNodes fuel range buf capacity).ReadOnly := by
  induction fuel generalizing range buf capacity with
  | zero => exact .pure none
  | succ fuel ih =>
    refine .bind (retryRequest_readOnly _ _ _) fun response =>
      .bind (ofExcept_readOnly _) fun ⟨progress, capacity'⟩ => ?_
    cases progress with
    | done buf => exact .pure _
    | again range buf => exact ih range buf capacity'

theorem parseReply_keeps (method : String) (buf : List UInt8) (s : Store) :
    ((Rpc.parseReply codec method buf).run s).Keeps s := by
  unfold Rpc.parseReply
  split <;> rfl

theorem makeRpc_readOnly (method : String) (params : J) (maxResponseBytes : Nat) :
    (Rpc.makeRpc codec fuel url method params maxResponseBytes subnetNodes).ReadOnly := by
  refine .bind (.bind (ofExcept_readOnly _) fun capacity =>
    makeRpcLoop_readOnly codec url subnetNodes fuel _ _ _ capacity) fun buf => ?_
  cases buf with
  | none => exact .pure none
  | some buf => exact .bind (.lift (parseReply_keeps codec method buf)) fun _ => .pure _

end

theorem httpHandler_readOnly : httpHandler.ReadOnly := fun _ => .bind (.call _) fun _ => .pure _

theorem awaitRpc_readOnly {α : Type} {x : Rpc.RpcM (Option α)} (h : x.ReadOnly) :
    (awaitRpc x).ReadOnly :=
  .bind (h.interpret httpHandler_readOnly) fun r => .pure (settle r)

section

variable (lib : Crates) (endpoint : Endpoint) (fuel : Nat)

theorem request_readOnly {R : Type}
    (fromSlice : List UInt8 → Option (Option String × Option R)) (method : String)
    (params : List Json) (maxResponseBytes : Nat) :
    (request endpoint fuel fromSlice method params maxResponseBytes).ReadOnly :=
  .bind (.gets _) fun _ => awaitRpc_readOnly (makeRpc_readOnly _ _ _ _ _ _ _)

theorem getBlockHash_readOnly (network : BitcoinNetwork) (height : Nat) :
    (getBlockHash lib endpoint fuel network height).ReadOnly := by
  unfold getBlockHash
  split
  · exact .bind (request_readOnly _ _ _ _ _ _) fun _ => .pure _
  · exact .bind (.call _) fun _ => .pure _

theorem handler_readOnly : (handler lib endpoint fuel).ReadOnly
  | .getBlockHash network height => getBlockHash_readOnly lib endpoint fuel network height
  | .innerGetBlock _ => .bind (request_readOnly _ _ _ _ _ _) fun _ => .pure _
  | .getRawTransactionInfo _ => .bind (request_readOnly _ _ _ _ _ _) fun _ => .pure _
  | .getBlockHeaderInfo _ => .bind (request_readOnly _ _ _ _ _ _) fun _ => .pure _
  | .newBlockDetected .. => .bind (.bind (.call _) fun _ => .pure _) fun _ => .pure _

/-! ### What is sent -/

theorem httpHandler_calls {P : Rpc.HttpCall → Prop} (call : Rpc.HttpCall) (h : P call) :
    (httpHandler call).CallsOnly fun q => ∃ call, q = .httpRequest call ∧ P call :=
  .bind (.call ⟨call, rfl, h⟩) fun _ => .pure _

theorem awaitRpc_calls {α : Type} {x : Rpc.RpcM (Option α)} {P : Rpc.HttpCall → Prop} {s : Store}
    (h : (x.run s).CallsOnly P) :
    ((awaitRpc x).run s).CallsOnly fun q => ∃ call, q = .httpRequest call ∧ P call :=
  (h.interpret fun call hcall s => httpHandler_calls call hcall s).bind fun _ _ => trivial

/-- Every request of a call goes to the URL that was configured when it began. -/
theorem request_attempts {R : Type}
    (fromSlice : List UInt8 → Option (Option String × Option R)) (method : String)
    (params : List Json) (maxResponseBytes : Nat) (s : Store) :
    ((request endpoint fuel fromSlice method params maxResponseBytes).run s).CallsOnly
      fun q => ∃ call, q = .httpRequest call ∧ Rpc.Attempt endpoint.uniq s.config.bitcoinRpcUrl
        (endpoint.toVec method params) s.config.getSubnetNodes call :=
  awaitRpc_calls (Rpc.makeRpc_attempts ⟨endpoint.toVec, endpoint.uniq, fromSlice⟩ _ _ _ _ _ _ s)

/-- The methods of the endpoint that are called, with their parameters. -/
inductive Asked (network : BitcoinNetwork) : String → List Json → Prop
  | block (hash : BlockHash) : Asked network "getblock" [.string hash.toHex, .number 0]
  | transaction (txid : Txid) :
      Asked network "getrawtransaction" [.string txid.toHex, .bool true, .null]
  | header (hash : BlockHash) : Asked network "getblockheader" [.string hash.toHex, .bool true]
  | blockHash (height : Nat) (regtest : network = .regtest) :
      Asked network "getblockhash" [.number height]

/-- The messages of a loop. -/
inductive Sends (endpoint : Endpoint) (network : BitcoinNetwork) (subscribers : List Nat) :
    Outcall → Prop
  | http {method : String} {params : List Json} {url : String} {subnetNodes : Nat}
      {call : Rpc.HttpCall} (asked : Asked network method params)
      (attempt : Rpc.Attempt endpoint.uniq url (endpoint.toVec method params) subnetNodes call) :
      Sends endpoint network subscribers (.httpRequest call)
  | headers (height : Nat) (notRegtest : network ≠ .regtest) :
      Sends endpoint network subscribers
        (.bitcoinGetBlockHeaders ⟨height, some height, network⟩ (blockHeadersCycles network))
  | notification {subscriber : Nat} (member : subscriber ∈ subscribers)
      (request : NewBlockRequest) :
      Sends endpoint network subscribers (.newBlockDetected subscriber request)

/-- The calls of a loop. -/
inductive CallOf (network : BitcoinNetwork) (subscribers : List Nat) : Call → Prop
  | hash (height : Nat) : CallOf network subscribers (.getBlockHash network height)
  | block (hash : BlockHash) : CallOf network subscribers (.innerGetBlock hash)
  | transaction (txid : Txid) : CallOf network subscribers (.getRawTransactionInfo txid)
  | header (hash : BlockHash) : CallOf network subscribers (.getBlockHeaderInfo hash)
  | notification {subscriber : Nat} (member : subscriber ∈ subscribers) (height : Nat)
      (hash : BlockHash) (time : Nat) (txids : List Txid) :
      CallOf network subscribers (.newBlockDetected subscriber height hash time txids)

theorem callOf_fetches (network : BitcoinNetwork) (subscribers : List Nat) :
    Fetches network (CallOf network subscribers) :=
  ⟨.hash, .block, .transaction, .header⟩

variable {network : BitcoinNetwork} {subscribers : List Nat}

theorem request_sends {R : Type} {fromSlice : List UInt8 → Option (Option String × Option R)}
    {method : String} {params : List Json} (hasked : Asked network method params)
    (maxResponseBytes : Nat) :
    (request endpoint fuel fromSlice method params maxResponseBytes).CallsOnly
      (Sends endpoint network subscribers) := by
  intro s
  refine (request_attempts endpoint fuel fromSlice method params maxResponseBytes s).mono
    fun q hq => ?_
  obtain ⟨call, rfl, hattempt⟩ := hq
  exact .http hasked hattempt

theorem handler_sends (q : Call) (h : CallOf network subscribers q) :
    (handler lib endpoint fuel q).CallsOnly (Sends endpoint network subscribers) := by
  cases h with
  | hash height =>
    show (getBlockHash lib endpoint fuel network height).CallsOnly _
    unfold getBlockHash
    split
    · next hregtest =>
      exact .bind (request_sends endpoint fuel (.blockHash height hregtest) 256) fun _ => .pure _
    · next hnot => exact .bind (.call (.headers height hnot)) fun _ => .pure _
  | block hash => exact .bind (request_sends endpoint fuel (.block hash) _) fun _ => .pure _
  | transaction txid => exact .bind (request_sends endpoint fuel (.transaction txid) _) fun _ => .pure _
  | header hash => exact .bind (request_sends endpoint fuel (.header hash) _) fun _ => .pure _
  | notification member height hash time txids =>
    exact .bind (.bind (.call (.notification member _)) fun _ => .pure _) fun _ => .pure _

/-- What the callback of the timer sends, whatever it is answered and whatever happens to
    the state in between. -/
theorem callback_sends (ord : HashOrder) :
    (callback lib endpoint fuel ord network subscribers).CallsOnly
      (Sends endpoint network subscribers) := by
  intro s
  have hcalls := (callOf_fetches network subscribers).updateIndexIteration lib ord
    (fun x hx _ _ _ _ => .notification hx _ _ _ _) s
  exact hcalls.interpret fun q hq s' => handler_sends lib endpoint fuel q hq s'

end

/-! ### In which order it is sent -/

namespace Sample

/-- Every block that is asked for is the first one of the sample node. -/
def endpoint : Endpoint where
  toVec _ _ := []
  uniq _ _ := ""
  stringFromSlice _ := some (none, some "")
  rawTransactionFromSlice _ := none
  blockHeaderFromSlice _ := none
  blockHashFromSlice _ := none
  deserializeHex _ := some (RunesIndexer.Sample.minedBlock 0)

end Sample

/-- An answer that the loop may get when the messages are replied to as `low` allows. -/
def Answered (lib : Crates) (endpoint : Endpoint) (low : Replies) : Answers := fun q a =>
  ∃ fuel s, Handler.Offers low (handler lib endpoint fuel) s q a

/-- Runs of a single loop as in `LoopRun`, down to the messages. -/
inductive WireRun (lib : Crates) (endpoint : Endpoint) (network : BitcoinNetwork) (low : Replies) :
    Option Nat → Store → Prop
  | init (config : Config) : WireRun lib endpoint network low none (Store.empty config)
  | control {top : Option Nat} {s : Store} (config : Config) (flag : Bool)
      (run : WireRun lib endpoint network low top s) :
      WireRun lib endpoint network low top { s with config := config, shuttingDown := flag }
  | iteration {top : Option Nat} {s s' : Store} {ord : HashOrder} {subscribers : List Nat}
      {fuel : Nat} {flow : Flow} (run : WireRun lib endpoint network low top s)
      (step : Proc.Runs low ((callback lib endpoint fuel ord network subscribers).run s)
        (.ok s' (some (.ok flow))))
      (indexed : flow ≠ .indexFailed) :
      WireRun lib endpoint network low (top.merge max s'.memLatestBlockHeight) s'

section

variable {lib : Crates} {endpoint : Endpoint} {network : BitcoinNetwork} {low : Replies}
  {top : Option Nat} {s s' : Store}

/-- A callback that returns is an iteration under the answers that its handler offers. -/
theorem callback_runs {fuel : Nat} {ord : HashOrder} {subscribers : List Nat} {flow : Flow}
    (h : Proc.Runs low ((callback lib endpoint fuel ord network subscribers).run s)
      (.ok s' (some (.ok flow)))) :
    Proc.Runs (Answered lib endpoint low)
      ((updateIndexIteration lib ord network subscribers).run s) (.ok s' flow) :=
  ((Proc.runs_interpret_ok (handler_readOnly lib endpoint fuel)).mp h).runs
    fun s _ _ hoffers => ⟨fuel, s, hoffers⟩

/-- A run over the wire is a run of the loop. -/
theorem WireRun.loopRun (h : WireRun lib endpoint network low top s) :
    LoopRun lib network top s := by
  induction h with
  | init config => exact .init config
  | control config flag _ ih => exact .control config flag ih
  | iteration _ step indexed ih =>
    exact .iteration ih ((callback_runs step).mono fun _ _ _ => trivial) indexed

/-- The held blocks have the hashes that the loop was given for their heights. -/
theorem WireRun.given (h : WireRun lib endpoint network low top s) :
    ∃ chain, LoopInvariant lib network top chain s ∧ ∀ i b, chain[i]? = some b →
      Answered lib endpoint low (.getBlockHash network (lib.firstRuneHeight network + i))
        (.ok (some (lib.blockHash b.header)) : Except Error (Option BlockHash)) := by
  induction h with
  | init config => exact ⟨[], .init lib network config, fun i b hb => by simp at hb⟩
  | control config flag _ ih =>
    obtain ⟨chain, hinv, hgiven⟩ := ih
    exact ⟨chain, hinv.control config flag, hgiven⟩
  | iteration _ step indexed ih =>
    obtain ⟨chain, hinv, hgiven⟩ := ih
    obtain ⟨l, hvia⟩ := (callback_runs step).via
    obtain ⟨chain', hinv', hmoved⟩ := hinv.moves (updateIndexIteration_step hvia) indexed
    refine ⟨chain', hinv', fun i b hb => ?_⟩
    -- only the block that was added is new
    generalize notifications l = sent at hmoved
    cases hmoved with
    | kept => exact hgiven i b hb
    | grown told _ =>
      rw [List.getElem?_append] at hb
      split at hb
      · exact hgiven i b hb
      · next hge =>
        obtain ⟨hi, rfl⟩ := List.getElem?_eq_some_iff.mp hb
        rw [List.length_singleton] at hi
        obtain rfl : i = chain.length := by omega
        simpa using told
    | shortened n =>
      rw [List.getElem?_take] at hb
      split at hb
      · exact hgiven i b hb
      · cases hb

theorem readBlockHash_eq_some {reply : Except (RejectionCode × String) GetBlockHeadersResponse}
    {hash : BlockHash} (h : readBlockHash lib reply = .ok (some hash)) :
    ∃ response bytes header rest, reply = .ok response ∧
      response.blockHeaders.head? = some bytes ∧
      Header.consensusDecode.run bytes = some (header, rest) ∧ lib.blockHash header = hash := by
  unfold readBlockHash at h
  split at h
  · next response =>
    split at h
    · cases h
    · next bytes hbytes =>
      split at h
      · next header rest hdecode =>
        exact ⟨response, bytes, header, rest, rfl, hbytes, hdecode,
          Option.some.inj (Except.ok.inj h)⟩
      · cases h
  · split at h
    · cases h
    · cases h

/-- On the public networks a hash is that of a header which the management canister sent. -/
theorem answered_blockHash (hnot : network ≠ .regtest) {height : Nat} {hash : BlockHash}
    (h : Answered lib endpoint low (.getBlockHash network height)
      (.ok (some hash) : Except Error (Option BlockHash))) :
    ∃ response bytes header rest, low (.bitcoinGetBlockHeaders ⟨height, some height, network⟩
        (blockHeadersCycles network))
        (.ok response : Except (RejectionCode × String) GetBlockHeadersResponse) ∧
      response.blockHeaders.head? = some bytes ∧
      Header.consensusDecode.run bytes = some (header, rest) ∧ lib.blockHash header = hash := by
  obtain ⟨fuel, s, hoffers⟩ := h
  have hrun : Proc.Runs low ((getBlockHash lib endpoint fuel network height).run s)
      (.ok s (some (.ok (some hash)))) := hoffers
  rw [getBlockHash, if_neg hnot] at hrun
  obtain ⟨reply, hreply, hread⟩ := Proc.runs_await.mp hrun
  have hvalue : some (readBlockHash lib reply) = some (.ok (some hash)) := by
    injection (Proc.runs_ok.mp hread) with _ hvalue
    exact hvalue.symm
  obtain ⟨response, bytes, header, rest, rfl, hbytes, hdecode, hhash⟩ :=
    readBlockHash_eq_some (Option.some.inj hvalue)
  exact ⟨response, bytes, header, rest, hreply, hbytes, hdecode, hhash⟩

/-- Whatever the RPC endpoint sends, on the public networks every stored header has the hash of
    one that the management canister reported for its height. -/
theorem WireRun.headers_reported (h : WireRun lib endpoint network low top s)
    (hnot : network ≠ .regtest) {height : Nat} {header : Header}
    (hstored : s.heightToBlockHeader.get? height = some header) :
    ∃ response bytes reported rest,
      low (.bitcoinGetBlockHeaders ⟨height, some height, network⟩ (blockHeadersCycles network))
        (.ok response : Except (RejectionCode × String) GetBlockHeadersResponse) ∧
      response.blockHeaders.head? = some bytes ∧
      Header.consensusDecode.run bytes = some (reported, rest) ∧
      lib.blockHash reported = lib.blockHash header := by
  obtain ⟨chain, hinv, hgiven⟩ := h.given
  have hfirst := hinv.window.first_le
  rw [hinv.window.headers] at hstored
  split at hstored
  · next hlo =>
    obtain ⟨b, hb, rfl⟩ := Option.map_eq_some_iff.mp hstored
    have hanswer := hgiven _ b hb
    rw [Nat.add_sub_cancel' (le_trans hfirst hlo)] at hanswer
    exact answered_blockHash hnot hanswer
  · cases hstored

end

/-! ### Messages of the sample loop -/

namespace Sample

/-- The management canister has the headers of the sample node, and `response` is the answer to
    HTTP requests. -/
def outReply (response : Rpc.HttpResponse) : (q : Outcall) → OutReply q
  | .httpRequest _ => (.ok response : Except String Rpc.HttpResponse)
  | .bitcoinGetBlockHeaders request _ =>
    (.ok ⟨request.startHeight,
      [(RunesIndexer.Sample.minedBlock request.startHeight).header.consensusEncode]⟩ :
      Except (RejectionCode × String) GetBlockHeadersResponse)
  | .newBlockDetected .. => (.ok () : Except (RejectionCode × String) Unit)

/-- The replies of the sample and no others. -/
def replies (response : Rpc.HttpResponse) : Replies := fun q a => a = outReply response q

/-- The first callback when the sample answers. -/
def firstCallback (response : Rpc.HttpResponse) :
    Result Empty Panic Store (Option (Except Error Flow)) :=
  Proc.resultWith (outReply response) ((callback RunesIndexer.Sample.crates endpoint 1
    RunesIndexer.Sample.order .testnet []).run (Store.empty RunesIndexer.Sample.config))

theorem firstCallback_runs (response : Rpc.HttpResponse) :
    Proc.Runs (replies response)
      ((callback RunesIndexer.Sample.crates endpoint 1 RunesIndexer.Sample.order .testnet []).run
        (Store.empty RunesIndexer.Sample.config)) (firstCallback response) := by
  have hreplies : ∀ q, replies response q (outReply response q) := fun _ => rfl
  exact Proc.runs_resultWith hreplies _

end Sample

theorem WireRun.headers_reported_sample :
    ∃ low s header, WireRun RunesIndexer.Sample.crates Sample.endpoint .testnet low (some 0) s ∧
      s.heightToBlockHeader.get? 0 = some header ∧
      ∃ response bytes reported rest,
        low (.bitcoinGetBlockHeaders ⟨0, some 0, .testnet⟩ 10000000000)
          (.ok response : Except (RejectionCode × String) GetBlockHeadersResponse) ∧
        response.blockHeaders.head? = some bytes ∧
        Header.consensusDecode.run bytes = some (reported, rest) ∧
        RunesIndexer.Sample.crates.blockHash reported =
          RunesIndexer.Sample.crates.blockHash header := by
  have hcallback := Sample.firstCallback_runs ⟨200, [], []⟩
  obtain ⟨s, r, hresult, hs⟩ := Result.returns_iff.mp (show Result.returns
    (fun s r => decide (r = some (.ok .rearm) ∧ s.memLatestBlockHeight = some 0 ∧
      s.heightToBlockHeader.get? 0 = some (RunesIndexer.Sample.minedBlock 0).header))
    (Sample.firstCallback ⟨200, [], []⟩) = true by decide +kernel)
  obtain ⟨rfl, htip, hstored⟩ := of_decide_eq_true hs
  rw [hresult] at hcallback
  have hrun := WireRun.iteration (.init RunesIndexer.Sample.config) hcallback (by decide)
  rw [htip] at hrun
  exact ⟨_, s, _, hrun, hstored, hrun.headers_reported (by decide) hstored⟩

/-! ### Traps -/

/-- Together with `received` bytes these responses are more than a gigabyte. -/
def Floods (ans : (q : Rpc.HttpCall) → Rpc.HttpReply q → Prop) (fuel received : Nat) : Prop :=
  ∃ responses : List Rpc.HttpResponse, responses.length ≤ fuel ∧
    (∀ response ∈ responses, ∃ call, ans call (.ok response)) ∧
    2 ^ 30 < received + (responses.map fun response => response.body.length).sum

/-- The bytes of one more response. -/
theorem Floods.cons {ans : (q : Rpc.HttpCall) → Rpc.HttpReply q → Prop} {fuel received : Nat}
    {call : Rpc.HttpCall} {response : Rpc.HttpResponse} (hans : ans call (.ok response))
    (h : Floods ans fuel (received + response.body.length)) : Floods ans (fuel + 1) received := by
  obtain ⟨responses, hlength, hall, hsum⟩ := h
  refine ⟨response :: responses, Nat.succ_le_succ hlength, ?_, ?_⟩
  · intro response' hmem
    rcases List.mem_cons.mp hmem with rfl | hmem
    · exact ⟨call, hans⟩
    · exact hall response' hmem
  · rw [List.map_cons, List.sum_cons]
    omega

section

variable {J R : Type} {codec : Rpc.Codec J R} {url : String} {subnetNodes fuel : Nat}
  {ans : (q : Rpc.HttpCall) → Rpc.HttpReply q → Prop} {s : Store} {t : Panic}

end

section

variable {lib : Crates} {endpoint : Endpoint} {fuel : Nat} {low : Replies} {s : Store} {t : Panic}

end

end Gateway

end RunesIndexer
