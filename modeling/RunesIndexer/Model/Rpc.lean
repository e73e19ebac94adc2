import RunesIndexer.Model.Store

/-! # Calls of the RPC endpoint (`rpc.rs`)

    `make_rpc` reads a response in ranges: it sends the request again with the next range
    until the end of the response, and hands what it collected to the JSON parser. What
    it awaits are the replies of `http_request`, which come through `rpc_transform`.
    Integers are `u64` and wrap, as they do in the release build; `usize` is `u32`. The
    buffer has the capacity of a `Vec`, which panics where that would pass `isize::MAX`;
    that the allocator may run out of memory below it is left out.
-/

namespace RunesIndexer

namespace Rpc

/-! ### `u64` -/

def u64Bound : Nat := 2 ^ 64

def u64Add (a b : Nat) : Nat := (a + b) % u64Bound

def u64Sub (a b : Nat) : Nat := (a + (u64Bound - b)) % u64Bound

/-- The digits of a number, which may have a sign. -/
def stripPlus : List Char → List Char
  | '+' :: rest => rest
  | s => s

/-- `str::parse::<u64>`, of which only success matters. -/
def parseU64 (s : List Char) : Option Nat :=
  let digits := stripPlus s
  -- a sign alone is no number
  if digits.isEmpty ∨ ¬ digits.all Char.isDigit then
    none
  else
    let n := Nat.ofDigitChars 10 digits 0
    if n < u64Bound then some n else none

/-! ### Buffers -/

/-- `isize::MAX`, the most bytes that a `Vec` allocates -/
def isizeMax : Nat := 2 ^ 31 - 1

/-- The capacity of a `Vec<u8>` after `reserve`: when the bytes do not fit, it is doubled at
    least. -/
def grown (capacity length : Nat) : Nat :=
  if length ≤ capacity then capacity else max 8 (max (2 * capacity) length)

/-- Ask for a capacity. -/
def allocate (capacity : Nat) : Except Panic Nat :=
  if capacity ≤ isizeMax then .ok capacity else .error .capacityOverflow

/-! ### HTTP -/

structure HttpHeader where
  name : String
  value : String
  deriving DecidableEq

structure HttpResponse where
  status : Nat
  headers : List HttpHeader
  body : List UInt8
  deriving DecidableEq

/-- `CanisterHttpRequestArgument`, without the method and the transform, which are always
    the same. -/
structure HttpRequest where
  url : String
  body : List UInt8
  maxResponseBytes : Nat
  headers : List HttpHeader
  deriving DecidableEq

/-- `to_ascii_lowercase` -/
def toAsciiLowercase (s : String) : List Char := s.toList.map Char.toLower

def shouldKeep (header : String) : Bool :=
  toAsciiLowercase header = "content-length".toList ∨
    toAsciiLowercase header = "content-range".toList

/-- `rpc_transform` (`main.rs`), which the response passes on its way to the canister. -/
def rpcTransform (response : HttpResponse) : HttpResponse :=
  { response with headers := response.headers.filter fun h => shouldKeep h.name }

/-! ### Ranges -/

/-- The range after the one that ended at `end`. -/
def split («end» total limit : Nat) : Nat × Nat :=
  let start := u64Add «end» 1
  -- each operation wraps, so does `total - 1`
  let «end» := if total ≤ u64Add start limit then u64Sub total 1
    else u64Sub (u64Add start limit) 1
  (start, «end»)

def maxResponseBytes : Nat := 1999000

/-- `trim_start_matches("bytes ")` -/
def trimStartBytes : List Char → List Char
  | 'b' :: 'y' :: 't' :: 'e' :: 's' :: ' ' :: rest => trimStartBytes rest
  | s => s

/-- The closure that reads a `Content-Range` header. -/
def nextRange (value : String) : Except Panic (Option (Nat × Nat)) := do
  let rangeAndTotal := (trimStartBytes value.toList).splitOn '/'
  -- `range_and_total[1].parse().ok()?`: a missing piece panics, one that is no number ends the loop
  match parseU64 (← indexAt rangeAndTotal 1) with
  | none => return none
  | some total =>
    let range := (← indexAt rangeAndTotal 0).splitOn '-'
    match parseU64 (← indexAt range 1) with
    | none => return none
    | some «end» => return some (split «end» total maxResponseBytes)

/-- `eq_ignore_ascii_case("Content-Range")` -/
def isContentRange (h : HttpHeader) : Bool :=
  toAsciiLowercase h.name = toAsciiLowercase "Content-Range"

/-! ### Requests -/

def estimateCycles (reqLen rspLen n : Nat) : Nat :=
  (3000000 + 60000 * n + 400 * reqLen + 800 * rspLen) * n

/-- The text of a `Range` header. -/
def rangeText (range : Nat × Nat) : String :=
  "bytes=" ++ toString range.1 ++ "-" ++ toString range.2

/-- The bytes that a response may have for a range. -/
def responseBytes (range : Nat × Nat) : Nat :=
  u64Add (u64Add (u64Sub range.2 range.1) 1) 999

/-- The request for a range of the response to `body`, and its cycles; `uniq` is the key
    made of the hash of both. -/
def partialRequest (uniq : List UInt8 → Nat × Nat → String) (url : String) (body : List UInt8)
    (range : Nat × Nat) (subnetNodes : Nat) : HttpRequest × Nat :=
  let key := uniq body range
  ({ url := url
     body := body
     maxResponseBytes := responseBytes range
     headers := [⟨"Content-Type", "application/json"⟩, ⟨"Idempotency-Key", key⟩,
       ⟨"X-Cloud-Trace-Context", key⟩, ⟨"Range", rangeText range⟩] },
    estimateCycles (body.length + 512) (responseBytes range) subnetNodes)

/-! ### Awaiting responses -/

/-- `http_request` -/
structure HttpCall where
  args : HttpRequest
  cycles : Nat

/-- A response, or the message of a rejection. -/
abbrev HttpReply : HttpCall → Type := fun _ => Except String HttpResponse

inductive RpcError where
  /-- "make_single_request: retry limit exceeded {}" -/
  | retryLimit (e : String)
  /-- An error of `serde_json::from_slice`. -/
  | json
  /-- "rpc error: {:?} => {}" -/
  | reply (endpoint message : String)
  deriving DecidableEq

abbrev RpcM : Type → Type := Resumption.Async HttpCall HttpReply RpcError Panic Store

/-- The loop of `make_single_request` with `left` retries left. -/
def retryRequest (args : HttpRequest) : Nat → Nat → RpcM HttpResponse
  | left, cycles => do
    let response : Except String HttpResponse ← Resumption.Async.call ⟨args, cycles⟩
    match response with
    | .ok response => return response
    | .error e =>
      match left with
      | 0 => (Resumption.Sync.fail (.retryLimit e) : Resumption.Sync RpcError Panic Store _)
      | left + 1 => retryRequest args left (cycles + cycles / 10)

def makeSingleRequest (args : HttpRequest) (estimateCycle : Nat) : RpcM HttpResponse :=
  retryRequest args 3 estimateCycle

/-- What the loop of `make_rpc` does after a response. -/
inductive Progress where
  | again (range : Nat × Nat) (buf : List UInt8)
  | done (buf : List UInt8)
  deriving DecidableEq

/-- The part of the loop body that looks at the response. -/
def receive (buf : List UInt8) (response : HttpResponse) : Except Panic Progress := do
  if response.status = 200 then
    return .done (buf ++ response.body)
  else
    match response.headers.find? isContentRange with
    -- some unexpected behaviour since we are not going to compatible with all servers
    | none => return .done (buf ++ response.body)
    | some h =>
      match ← nextRange h.value with
      | none => return .done (buf ++ response.body)
      | some range =>
        -- the body is kept either way; the range that comes next decides
        if range.2 ≤ range.1 then return .done (buf ++ response.body)
        else return .again range (buf ++ response.body)

def Progress.buf : Progress → List UInt8
  | .again _ buf => buf
  | .done buf => buf

/-- The loop body after the response, with the `extend_from_slice` of a buffer of this
    capacity, which is the last thing that can panic in each of its branches. -/
def collect (buf : List UInt8) (capacity : Nat) (response : HttpResponse) :
    Except Panic (Progress × Nat) := do
  let progress ← receive buf response
  let capacity ← allocate (grown capacity progress.buf.length)
  return (progress, capacity)

/-- What is used of `serde_json`, `sha2` and `hex`, for parameters `J` and replies `R`. -/
structure Codec (J R : Type) where
  /-- `serde_json::to_vec` of the payload of a method -/
  toVec : String → J → List UInt8
  /-- The first bytes of the hash of a payload and a range, in hex -/
  uniq : List UInt8 → Nat × Nat → String
  /-- `serde_json::from_slice`: the message of an error, and the result -/
  fromSlice : List UInt8 → Option (Option String × Option R)

variable {J R : Type}

/-- The loop of `make_rpc`, for at most `fuel` responses. -/
def makeRpcLoop (codec : Codec J R) (url : String) (body : List UInt8) (subnetNodes : Nat) :
    Nat → Nat × Nat → List UInt8 → Nat → RpcM (Option (List UInt8))
  -- the loop of the code has no such end
  | 0, _, _, _ => return none
  | fuel + 1, range, buf, capacity => do
    let (args, cycles) := partialRequest codec.uniq url body range subnetNodes
    let response ← makeSingleRequest args cycles
    let (progress, capacity) ← (collect buf capacity response : Except Panic (Progress × Nat))
    match progress with
    | .done buf => return some buf
    | .again range buf => makeRpcLoop codec url body subnetNodes fuel range buf capacity

/-- What the loop collects for a method. -/
def makeRpcBuffer (codec : Codec J R) (fuel : Nat) (url endpoint : String) (params : J)
    (maxResponseBytes subnetNodes : Nat) : RpcM (Option (List UInt8)) := do
  -- `Vec::with_capacity(max_response_bytes as usize)`
  let capacity ← (allocate (maxResponseBytes % usizeBound) : Except Panic Nat)
  makeRpcLoop codec url (codec.toVec endpoint params) subnetNodes fuel
    (0, u64Sub maxResponseBytes 1) [] capacity

/-- What `make_rpc` makes of the collected bytes. -/
def parseReply (codec : Codec J R) (endpoint : String) (buf : List UInt8) :
    Resumption.Sync RpcError Panic Store R :=
  match codec.fromSlice buf with
  | none => Resumption.Sync.fail .json
  | some (some message, _) => Resumption.Sync.fail (.reply endpoint message)
  | some (none, none) => Resumption.Sync.fail (.reply endpoint "No result")
  | some (none, some result) => pure result

def makeRpc (codec : Codec J R) (fuel : Nat) (url endpoint : String) (params : J)
    (maxResponseBytes subnetNodes : Nat) : RpcM (Option R) := do
  match ← makeRpcBuffer codec fuel url endpoint params maxResponseBytes subnetNodes with
  | none => return none
  | some buf => return some (← parseReply codec endpoint buf)

end Rpc

end RunesIndexer
