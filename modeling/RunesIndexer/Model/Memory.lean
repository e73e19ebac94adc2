import RunesIndexer.Model.Values

/-! # The bytes of balances and change records (`entry.rs`)

    `impl Storable for RuneBalances` and `impl Storable for ChangeRecord`: what `bincode`
    makes of the two values that have no bound. Runes and rune ids are written as texts, a
    `Vec` or a `HashMap` with the number of its elements in front, and a `HashMap` in the
    order in which it is iterated over.
-/

namespace RunesIndexer

open Serial

/-! ### The integers of the source -/

/-- The numbers of the id fit their types. -/
structure RuneId.Fits (id : RuneId) : Prop where
  block : id.block ≤ u64Max
  tx : id.tx < 2 ^ 32

/-- The number of the rune fits its type. -/
def Rune.Fits (r : Rune) : Prop := r.n < u128Bound

/-- The numbers of the balance fit their types. -/
structure RuneBalance.Fits (b : RuneBalance) : Prop where
  runeId : b.runeId.Fits
  balance : b.balance < u128Bound

/-- The balances fit, and there are not too many for a `Vec`. -/
structure RuneBalances.Fits (l : RuneBalances) : Prop where
  length : l.length < usizeBound
  balances : ∀ b ∈ l, b.Fits

/-- Keys and amounts of the map fit, and there are not too many for a `HashMap`. -/
structure LotMap.Fits (m : LotMap) : Prop where
  size : m.size < usizeBound
  amounts : ∀ id n, m.get? id = some n → id.Fits ∧ n < u128Bound

/-- What is recorded fits, and the lists are not too long for a `Vec`. -/
structure ChangeRecord.Fits (r : ChangeRecord) : Prop where
  removedLength : r.removedOutpoints.length < usizeBound
  removed : ∀ e ∈ r.removedOutpoints, e.1.Fits ∧ RuneBalances.Fits e.2.1 ∧ e.2.2 < 2 ^ 32
  addedLength : r.addedOutpoints.length < usizeBound
  added : ∀ o ∈ r.addedOutpoints, o.Fits
  burned : LotMap.Fits r.burned
  mints : LotMap.Fits r.mints
  runesLength : r.addedRunes.length < usizeBound
  runes : ∀ e ∈ r.addedRunes, e.1.Fits ∧ e.2.1.Fits

/-- The order in which a `HashMap` is written. -/
structure MapOrder where
  iter : LotMap → List (RuneId × Nat)
  iter_perm : ∀ m, (iter m : Multiset (RuneId × Nat)) = m.toMultiset

/-! ### Writing -/

/-- `Serialize for Rune`: its text -/
def Rune.write (r : Rune) : List UInt8 := text r.display

/-- `Serialize for RuneId`: its text -/
def RuneId.write (id : RuneId) : List UInt8 := text id.display

/-- `Serialize for OutPoint`, field by field -/
def OutPoint.write (o : OutPoint) : List UInt8 := o.txid.write ++ uint 4 o.vout

/-- `#[derive(Serialize)]` of `RuneBalance` -/
def RuneBalance.write (b : RuneBalance) : List UInt8 := b.runeId.write ++ uint 16 b.balance

/-- `to_bytes` -/
def RuneBalances.toBytes (l : RuneBalances) : List UInt8 := list RuneBalance.write l

/-- `Serialize for HashMap<RuneId, u128>` -/
def LotMap.write (order : MapOrder) (m : LotMap) : List UInt8 :=
  list (pair RuneId.write (uint 16)) (order.iter m)

/-- `to_bytes` -/
def ChangeRecord.toBytes (order : MapOrder) (r : ChangeRecord) : List UInt8 :=
  list (pair OutPoint.write (pair RuneBalances.toBytes (uint 4))) r.removedOutpoints ++
    (list OutPoint.write r.addedOutpoints ++ (LotMap.write order r.burned ++
      (LotMap.write order r.mints ++
        list (pair Rune.write (pair RuneId.write Txid.write)) r.addedRunes)))

/-! ### Reading -/

/-- `Deserialize for Rune` -/
def Rune.reader : Reader Rune := do
  let s ← readText
  liftM (Rune.fromStr s)

/-- `Deserialize for RuneId` -/
def RuneId.reader : Reader RuneId := do
  let s ← readText
  liftM (RuneId.fromStr s)

/-- `Deserialize for OutPoint` -/
def OutPoint.reader : Reader OutPoint := do
  let txid ← Txid.reader
  let vout ← readUInt 4
  return ⟨txid, vout⟩

/-- `#[derive(Deserialize)]` of `RuneBalance` -/
def RuneBalance.reader : Reader RuneBalance := do
  let runeId ← RuneId.reader
  let balance ← readUInt 16
  return ⟨runeId, balance⟩

/-- `Deserialize for Vec<T>`: the number of elements has to be a `usize`. -/
def readVec {α : Type} (r : Reader α) : Reader (List α) := readList usizeBound r

/-- `#[derive(Deserialize)]` of `RuneBalances` -/
def RuneBalances.reader : Reader RuneBalances := readVec RuneBalance.reader

/-- `Deserialize for HashMap<RuneId, u128>`: the entries are inserted one after the other. -/
def LotMap.reader : Reader LotMap := do
  let l ← readVec (readPair RuneId.reader (readUInt 16))
  return FinMap.ofList l

/-- `#[derive(Deserialize)]` of `ChangeRecord` -/
def ChangeRecord.reader : Reader ChangeRecord := do
  let removedOutpoints ← readVec (readPair OutPoint.reader (readPair RuneBalances.reader (readUInt 4)))
  let addedOutpoints ← readVec OutPoint.reader
  let burned ← LotMap.reader
  let mints ← LotMap.reader
  let addedRunes ← readVec (readPair Rune.reader (readPair RuneId.reader Txid.reader))
  return ⟨removedOutpoints, addedOutpoints, burned, mints, addedRunes⟩

/-- `from_bytes` -/
def RuneBalances.fromBytes (l : List UInt8) : Except Panic RuneBalances :=
  match RuneBalances.reader.run l with
  | some (balances, _) => .ok balances
  | none => .error .unwrapFailed

/-- `from_bytes` -/
def ChangeRecord.fromBytes (l : List UInt8) : Except Panic ChangeRecord :=
  match ChangeRecord.reader.run l with
  | some (r, _) => .ok r
  | none => .error .unwrapFailed

end RunesIndexer
