import RunesIndexer.Lib.Numeration
import RunesIndexer.Model.Entry
import RunesIndexer.Model.Rpc
import Mathlib.Data.Nat.Size

/-! # Text forms (`ordinals`)

    How the crate prints and parses runes, spaced runes and rune ids. A string is the list
    of its characters. The queries use these forms at their boundary, and a rune entry is
    stored with its spaced rune in this form.
-/

namespace RunesIndexer

/-! ### Runes -/

/-- `"ABCDEFGHIJKLMNOPQRSTUVWXYZ".chars().nth(d)` -/
def letter (d : Nat) : Char := Char.ofNat ('A'.toNat + d)

/-- `Display for Rune`: the digits come out the least significant one first and are
    printed in reverse. -/
def Rune.display (r : Rune) : List Char :=
  ((Numeration.digits 26 (r.n + 1)).map letter).reverse

/-- The checked operations of `u128`. -/
def checkedU128 (n : Nat) : Option Nat := if n < u128Bound then some n else none

/-- The loop body of `FromStr for Rune`, for the character at position `i`. -/
def Rune.readLetter (x : Nat) (e : Char × Nat) : Option Nat := do
  -- every letter but the first adds one before the shift
  let x ← if 0 < e.2 then checkedU128 (x + 1) else some x
  let x ← checkedU128 (x * 26)
  if 'A' ≤ e.1 ∧ e.1 ≤ 'Z' then checkedU128 (x + (e.1.toNat - 'A'.toNat)) else none

/-- `FromStr for Rune` -/
def Rune.fromStr (s : List Char) : Option Rune := do
  let x ← s.zipIdx.foldlM Rune.readLetter 0
  return ⟨x⟩

/-! ### Spaced runes -/

/-- `•`, which is three bytes long -/
def bullet : Char := '\u2022'

/-- `Display for SpacedRune`: bit `i` of the spacers stands for a spacer after letter `i`,
    but there is none after the last letter. -/
def SpacedRune.display (sr : SpacedRune) : List Char :=
  let name := sr.rune.display
  name.zipIdx.flatMap fun e =>
    if e.2 < name.length - 1 ∧ sr.spacers.testBit e.2 then [e.1, bullet] else [e.1]

/-- The loop of `FromStr for SpacedRune`, after the letters `name` and the spacers found
    so far. -/
def SpacedRune.readChars (name : List Char) (spacers : Nat) :
    List Char → Option (List Char × Nat)
  | [] => some (name, spacers)
  | c :: rest =>
    if 'A' ≤ c ∧ c ≤ 'Z' then
      readChars (name ++ [c]) spacers rest
    else if c = '.' ∨ c = bullet then
      -- a leading spacer
      if name.length = 0 then none
      -- a double spacer; the shift of a `u32` wraps
      else if spacers.testBit ((name.length - 1) % 32) then none
      else readChars name (spacers ||| 2 ^ ((name.length - 1) % 32)) rest
    else none

/-- `FromStr for SpacedRune` -/
def SpacedRune.fromStr (s : List Char) : Option SpacedRune := do
  let (name, spacers) ← readChars [] 0 s
  -- a trailing spacer: `32 - spacers.leading_zeros() >= rune.len()`
  if name.length ≤ spacers.size then
    none
  else
    let rune ← Rune.fromStr name
    return ⟨rune, spacers⟩

/-! ### Rune ids -/

/-- `Display for RuneId` -/
def RuneId.display (id : RuneId) : List Char :=
  Nat.toDigits 10 id.block ++ ':' :: Nat.toDigits 10 id.tx

/-- `str::split_once` -/
def splitOnce (c : Char) : List Char → Option (List Char × List Char)
  | [] => none
  | a :: rest =>
    if a = c then some ([], rest)
    else (splitOnce c rest).map fun e => (a :: e.1, e.2)

/-- `str::parse::<u32>` -/
def parseU32 (s : List Char) : Option Nat := (Rpc.parseU64 s).filter (· < 2 ^ 32)

/-- `FromStr for RuneId` -/
def RuneId.fromStr (s : List Char) : Option RuneId := do
  let (block, tx) ← splitOnce ':' s
  let block ← Rpc.parseU64 block
  let tx ← parseU32 tx
  return ⟨block, tx⟩

end RunesIndexer
