import RunesIndexer.Spec.Transaction

/-! # The ledger

    What the index is about, without the log that makes it undoable: the
    balances and heights of outpoints, the rune entries, the registry, and the
    two counters. The order of a balance list depends on hash maps and is
    forgotten. Each write of the store is described by what it does to the ledger.
-/

namespace RunesIndexer

/-- The content of the index; a balance list is a multiset. -/
@[ext] structure Ledger where
  balances : FinMap OutPoint (Multiset RuneBalance)
  heights : FinMap OutPoint Nat
  entries : FinMap RuneId RuneEntry
  names : FinMap Rune RuneId
  etchings : FinMap Txid Rune
  runes : Nat
  reservedRunes : Nat

/-- The ledger before the first block. -/
def Ledger.empty : Ledger := ⟨∅, ∅, ∅, ∅, ∅, 0, 0⟩

namespace Store

def ledger (s : Store) : Ledger where
  balances := s.outpointToRuneBalances.mapVal Multiset.ofList
  heights := s.outpointToHeight
  entries := s.runeIdToRuneEntry
  names := s.runeToRuneId
  etchings := s.transactionIdToRune
  runes := s.memStatisticRunes
  reservedRunes := s.memStatisticReservedRunes

@[simp] theorem ledger_empty (config : Config) : (Store.empty config).ledger = Ledger.empty := by
  ext : 1 <;> rfl

/-! ### Writes of outpoints -/

variable (s : Store)

@[simp] theorem ledger_memRemoveOutpointToRuneBalances (o : OutPoint) :
    (s.memRemoveOutpointToRuneBalances o).ledger =
      { s.ledger with balances := s.ledger.balances.erase o } := by
  simp [ledger, memRemoveOutpointToRuneBalances, memStatisticRunes, memStatisticReservedRunes]

@[simp] theorem ledger_memRemoveOutpointToHeight (o : OutPoint) :
    (s.memRemoveOutpointToHeight o).ledger =
      { s.ledger with heights := s.ledger.heights.erase o } := rfl

@[simp] theorem ledger_memInsertOutpointToRuneBalances (o : OutPoint) (l : RuneBalances) :
    (s.memInsertOutpointToRuneBalances o l).ledger =
      { s.ledger with balances := s.ledger.balances.insert o l } := by
  simp [ledger, memInsertOutpointToRuneBalances, memStatisticRunes, memStatisticReservedRunes]

@[simp] theorem ledger_memInsertOutpointToHeight (o : OutPoint) (height : Nat) :
    (s.memInsertOutpointToHeight o height).ledger =
      { s.ledger with heights := s.ledger.heights.insert o height } := rfl

theorem ledger_balances_get? (o : OutPoint) :
    s.ledger.balances.get? o =
      (s.outpointToRuneBalances.get? o).map Multiset.ofList :=
  FinMap.get?_mapVal _ _ _

theorem ledger_balances_eq_none {s : Store} {o : OutPoint} :
    s.ledger.balances.get? o = none ↔ s.outpointToRuneBalances.get? o = none := by
  rw [ledger_balances_get?, Option.map_eq_none_iff]

/-! ### Writes of the registry -/

@[simp] theorem ledger_memInsertRuneIdToRuneEntry (id : RuneId) (e : RuneEntry) :
    (s.memInsertRuneIdToRuneEntry id e).ledger =
      { s.ledger with entries := s.ledger.entries.insert id e.reload } := rfl

@[simp] theorem ledger_memRemoveRuneIdToRuneEntry (id : RuneId) :
    (s.memRemoveRuneIdToRuneEntry id).ledger =
      { s.ledger with entries := s.ledger.entries.erase id } := rfl

@[simp] theorem ledger_memInsertRuneToRuneId (rune : Rune) (id : RuneId) :
    (s.memInsertRuneToRuneId rune id).ledger =
      { s.ledger with names := s.ledger.names.insert rune id } := rfl

@[simp] theorem ledger_memRemoveRuneToRuneId (rune : Rune) :
    (s.memRemoveRuneToRuneId rune).ledger =
      { s.ledger with names := s.ledger.names.erase rune } := rfl

@[simp] theorem ledger_memInsertTransactionIdToRune (txid : Txid) (rune : Rune) :
    (s.memInsertTransactionIdToRune txid rune).ledger =
      { s.ledger with etchings := s.ledger.etchings.insert txid rune } := rfl

@[simp] theorem ledger_memRemoveTransactionIdToRune (txid : Txid) :
    (s.memRemoveTransactionIdToRune txid).ledger =
      { s.ledger with etchings := s.ledger.etchings.erase txid } := rfl

/-! ### Writes of headers and records -/

@[simp] theorem ledger_memInsertBlockHeader (height : Nat) (header : Header) :
    (s.memInsertBlockHeader height header).ledger = s.ledger := rfl

@[simp] theorem ledger_memRemoveBlockHeader (height : Nat) :
    (s.memRemoveBlockHeader height).ledger = s.ledger := rfl

@[simp] theorem ledger_memPruneBlockHeader (height : Nat) :
    (s.memPruneBlockHeader height).ledger = s.ledger := rfl

@[simp] theorem ledger_memInsertChangeRecord (height : Nat) (record : ChangeRecord) :
    (s.memInsertChangeRecord height record).ledger = s.ledger := rfl

@[simp] theorem ledger_memRemoveChangeRecord (height : Nat) :
    (s.memRemoveChangeRecord height).ledger = s.ledger := rfl

@[simp] theorem ledger_memPruneChangeRecord (height : Nat) :
    (s.memPruneChangeRecord height).ledger = s.ledger := rfl

/-! ### The statistics -/

/-- The statistic rows end at `height`, which has one of each kind. -/
structure RowsEndAt (height : Nat) (s : Store) : Prop where
  runes : ∀ k ∈ s.heightToStatisticRunes.keys, k ≤ height
  reserved : ∀ k ∈ s.heightToStatisticReservedRunes.keys, k ≤ height
  runesRow : height ∈ s.heightToStatisticRunes.keys
  reservedRow : height ∈ s.heightToStatisticReservedRunes.keys

/-- Every statistic row is below `height`. -/
structure RowsBelow (height : Nat) (s : Store) : Prop where
  runes : ∀ k ∈ s.heightToStatisticRunes.keys, k < height
  reserved : ∀ k ∈ s.heightToStatisticReservedRunes.keys, k < height

/-- No statistic row is above `height`. -/
structure RowsUpTo (height : Nat) (s : Store) : Prop where
  runes : ∀ k ∈ s.heightToStatisticRunes.keys, k ≤ height
  reserved : ∀ k ∈ s.heightToStatisticReservedRunes.keys, k ≤ height

theorem RowsBelow.upTo {height : Nat} {s : Store} (h : s.RowsBelow height) : s.RowsUpTo height :=
  ⟨fun k hk => (h.runes k hk).le, fun k hk => (h.reserved k hk).le⟩

theorem RowsEndAt.upTo {height : Nat} {s : Store} (h : s.RowsEndAt height) : s.RowsUpTo height :=
  ⟨h.runes, h.reserved⟩

theorem memStatisticRunes_of_last {s : Store} {height n : Nat}
    (hmax : ∀ k ∈ s.heightToStatisticRunes.keys, k ≤ height)
    (hrow : s.heightToStatisticRunes.get? height = some n) : s.memStatisticRunes = n := by
  have hlast := FinMap.last?_eq_some.mpr ⟨hrow, hmax⟩
  simp [memStatisticRunes, hlast]

theorem memStatisticReservedRunes_of_last {s : Store} {height n : Nat}
    (hmax : ∀ k ∈ s.heightToStatisticReservedRunes.keys, k ≤ height)
    (hrow : s.heightToStatisticReservedRunes.get? height = some n) :
    s.memStatisticReservedRunes = n := by
  have hlast := FinMap.last?_eq_some.mpr ⟨hrow, hmax⟩
  simp [memStatisticReservedRunes, hlast]

/-- The row at which the statistics end holds the counter. -/
theorem RowsEndAt.runesRow_eq {s : Store} {height : Nat} (h : RowsEndAt height s) :
    s.heightToStatisticRunes.get? height = some s.memStatisticRunes := by
  obtain ⟨n, hn⟩ := Option.isSome_iff_exists.mp (FinMap.mem_keys.mp h.runesRow)
  rw [memStatisticRunes_of_last h.runes hn, hn]

theorem RowsEndAt.reservedRow_eq {s : Store} {height : Nat} (h : RowsEndAt height s) :
    s.heightToStatisticReservedRunes.get? height = some s.memStatisticReservedRunes := by
  obtain ⟨n, hn⟩ := Option.isSome_iff_exists.mp (FinMap.mem_keys.mp h.reservedRow)
  rw [memStatisticReservedRunes_of_last h.reserved hn, hn]

theorem mem_keys_insert {m : FinMap Nat Nat} {k k' v : Nat} :
    k' ∈ (m.insert k v).keys ↔ k' = k ∨ k' ∈ m.keys := by
  rw [FinMap.mem_keys, FinMap.mem_keys, FinMap.get?_insert]
  by_cases h : k' = k <;> simp [h]

/-- Writing a counter into the last row changes the counter only. -/
theorem RowsEndAt.ledger_memInsertStatisticRunes {s : Store} {height : Nat}
    (h : RowsEndAt height s) (n : Nat) :
    (s.memInsertStatisticRunes height n).ledger = { s.ledger with runes := n } := by
  have hlast : (s.memInsertStatisticRunes height n).memStatisticRunes = n :=
    memStatisticRunes_of_last
      (fun k hk => (mem_keys_insert.mp hk).elim (fun h => h.le) (h.runes k))
      (FinMap.get?_insert_self _ _ _)
  ext : 1 <;> first | rfl | exact hlast

theorem RowsEndAt.ledger_memInsertStatisticReservedRunes {s : Store} {height : Nat}
    (h : RowsEndAt height s) (n : Nat) :
    (s.memInsertStatisticReservedRunes height n).ledger = { s.ledger with reservedRunes := n } := by
  have hlast : (s.memInsertStatisticReservedRunes height n).memStatisticReservedRunes = n :=
    memStatisticReservedRunes_of_last
      (fun k hk => (mem_keys_insert.mp hk).elim (fun h => h.le) (h.reserved k))
      (FinMap.get?_insert_self _ _ _)
  ext : 1 <;> first | rfl | exact hlast

theorem RowsEndAt.insertStatisticRunes {s : Store} {height : Nat} (h : RowsEndAt height s)
    (n : Nat) : RowsEndAt height (s.memInsertStatisticRunes height n) where
  runes k hk := (mem_keys_insert.mp hk).elim (fun h => h.le) (h.runes k)
  reserved := h.reserved
  runesRow := mem_keys_insert.mpr (.inl rfl)
  reservedRow := h.reservedRow

theorem RowsEndAt.insertStatisticReservedRunes {s : Store} {height : Nat}
    (h : RowsEndAt height s) (n : Nat) :
    RowsEndAt height (s.memInsertStatisticReservedRunes height n) where
  runes := h.runes
  reserved k hk := (mem_keys_insert.mp hk).elim (fun h => h.le) (h.reserved k)
  runesRow := h.runesRow
  reservedRow := mem_keys_insert.mpr (.inl rfl)

end Store

end RunesIndexer
