import RunesIndexer.Lib.Serial
import RunesIndexer.Model.Text

/-! # The bytes of a rune entry (`entry.rs`)

    `impl Storable for RuneEntry`: the map of rune entries holds what `bincode` makes of an
    entry, field by field. Numbers have a fixed width, a spaced rune is its text, and the
    map is declared with a bound on the number of bytes.
-/

namespace RunesIndexer

open Serial

/-! ### The integers of the source -/

/-- The numbers of the terms fit their types. -/
structure Terms.Fits (t : Terms) : Prop where
  amount : ∀ n, t.amount = some n → n < u128Bound
  cap : ∀ n, t.cap = some n → n < u128Bound
  height : (∀ n, t.height.1 = some n → n ≤ u64Max) ∧ ∀ n, t.height.2 = some n → n ≤ u64Max
  offset : (∀ n, t.offset.1 = some n → n ≤ u64Max) ∧ ∀ n, t.offset.2 = some n → n ≤ u64Max

/-- The numbers of the entry fit their types. -/
structure RuneEntry.Fits (e : RuneEntry) : Prop where
  block : e.block ≤ u64Max
  burned : e.burned < u128Bound
  divisibility : e.divisibility < 2 ^ 8
  mints : e.mints < u128Bound
  number : e.number ≤ u64Max
  premine : e.premine < u128Bound
  rune : e.spacedRune.rune.n < u128Bound
  spacers : e.spacedRune.spacers < 2 ^ 32
  terms : ∀ t, e.terms = some t → t.Fits
  timestamp : e.timestamp ≤ u64Max

/-! ### Writing -/

/-- `Serialize for Txid`: its bytes -/
def Txid.write (txid : Txid) : List UInt8 := bytes (uint 32 txid.toNat)

/-- `Serialize for SpacedRune`: its text -/
def SpacedRune.write (sr : SpacedRune) : List UInt8 := text sr.display

/-- A pair of optional heights or offsets. -/
def writeBounds (b : Option Nat × Option Nat) : List UInt8 :=
  option (uint 8) b.1 ++ option (uint 8) b.2

/-- `#[derive(Serialize)]` of `Terms` -/
def Terms.write (t : Terms) : List UInt8 :=
  option (uint 16) t.amount ++ (option (uint 16) t.cap ++
    (writeBounds t.height ++ writeBounds t.offset))

namespace RuneEntry

/-- `to_bytes` -/
def toBytes (e : RuneEntry) : List UInt8 :=
  uint 8 e.block ++ (uint 16 e.burned ++ (uint 1 e.divisibility ++ (e.etching.write ++
    (uint 16 e.mints ++ (uint 8 e.number ++ (uint 16 e.premine ++ (e.spacedRune.write ++
      (option char e.symbol ++ (option Terms.write e.terms ++ (uint 8 e.timestamp ++
        bool e.turbo))))))))))

/-- `BOUND.max_size` -/
def maxSize : Nat := 307

end RuneEntry

/-! ### Reading -/

/-- `Deserialize for Txid` -/
def Txid.reader : Reader Txid := do
  let l ← readByteString
  -- `from_slice` accepts no other length
  if l.length = 32 then
    let (n, _) ← liftM ((readUInt 32).run l)
    return BitVec.ofNat 256 n
  else failure

/-- `Deserialize for SpacedRune` -/
def SpacedRune.reader : Reader SpacedRune := do
  let s ← readText
  liftM (SpacedRune.fromStr s)

def boundsReader : Reader (Option Nat × Option Nat) := do
  let lower ← readOption (readUInt 8)
  let upper ← readOption (readUInt 8)
  return (lower, upper)

/-- `#[derive(Deserialize)]` of `Terms` -/
def Terms.reader : Reader Terms := do
  let amount ← readOption (readUInt 16)
  let cap ← readOption (readUInt 16)
  let height ← boundsReader
  let offset ← boundsReader
  return ⟨amount, cap, height, offset⟩

namespace RuneEntry

/-- `#[derive(Deserialize)]` of `RuneEntry` -/
def reader : Reader RuneEntry := do
  let block ← readUInt 8
  let burned ← readUInt 16
  let divisibility ← readUInt 1
  let etching ← Txid.reader
  let mints ← readUInt 16
  let number ← readUInt 8
  let premine ← readUInt 16
  let spacedRune ← SpacedRune.reader
  let symbol ← readOption readChar
  let terms ← readOption Terms.reader
  let timestamp ← readUInt 8
  let turbo ← readBool
  return {
    block := block
    burned := burned
    divisibility := divisibility
    etching := etching
    mints := mints
    number := number
    premine := premine
    spacedRune := spacedRune
    symbol := symbol
    terms := terms
    timestamp := timestamp
    turbo := turbo }

/-- `from_bytes`: bytes after the entry are ignored, anything else that does not decode
    panics. -/
def fromBytes (l : List UInt8) : Except Panic RuneEntry :=
  match reader.run l with
  | some (e, _) => .ok e
  | none => .error .unwrapFailed

end RuneEntry

/-- What an insertion into a map with a bounded value type checks. -/
def checkBound (maxSize : Nat) (l : List UInt8) : Except Panic Unit :=
  assertThat (l.length ≤ maxSize)

end RunesIndexer
