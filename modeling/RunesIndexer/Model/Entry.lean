import RunesIndexer.Model.Types

/-! # Amounts and stored records

    `lot.rs`: amounts with checked arithmetic. `entry.rs`: the rune entry and
    its mint window, the balances of an outpoint, and the change record that
    undoes a block. The hash maps of the code are finite maps here; the order in
    which the code walks through one is a parameter (`HashOrder`).
-/

namespace RunesIndexer

/-! ### Lots (`lot.rs`) -/

def u128Bound : Nat := 2 ^ 128

def u64Max : Nat := 2 ^ 64 - 1

/-- `Add for Lot`; a `Lot` is a natural below `u128Bound`. -/
def Lot.add (a b : Nat) : Except Panic Nat :=
  if a + b < u128Bound then .ok (a + b) else .error .lotOverflow

/-- `Sub for Lot` -/
def Lot.sub (a b : Nat) : Except Panic Nat :=
  if b ≤ a then .ok (a - b) else .error .lotUnderflow

theorem Lot.add_eq_ok {a b c : Nat} : Lot.add a b = .ok c ↔ a + b < u128Bound ∧ c = a + b := by
  unfold Lot.add
  split <;> simp_all [eq_comm]

theorem Lot.sub_eq_ok {a b c : Nat} : Lot.sub a b = .ok c ↔ b ≤ a ∧ c = a - b := by
  unfold Lot.sub
  split <;> simp_all [eq_comm]

/-- Amounts by rune (`HashMap<RuneId, Lot>`). -/
abbrev LotMap : Type := FinMap RuneId Nat

/-- `*map.entry(id).or_default() += amount` -/
def LotMap.addTo (m : LotMap) (id : RuneId) (amount : Nat) : Except Panic LotMap := do
  let sum ← Lot.add (m.amount id) amount
  return m.insert id sum

theorem LotMap.addTo_eq_ok {m m' : LotMap} {id : RuneId} {amount : Nat} :
    m.addTo id amount = .ok m' ↔
      m.amount id + amount < u128Bound ∧ m' = m.insert id (m.amount id + amount) := by
  unfold LotMap.addTo
  cases h : Lot.add (m.amount id) amount with
  | error p =>
    have hno : ¬ m.amount id + amount < u128Bound := fun hlt => by simp [Lot.add, hlt] at h
    simp [hno, bind, Except.bind]
  | ok sum =>
    obtain ⟨hlt, rfl⟩ := Lot.add_eq_ok.mp h
    simp [hlt, bind, Except.bind, pure, Except.pure, eq_comm]

/-! ### Iteration order -/

/-- The places where the code iterates over a hash map. -/
inductive IterSite where
  /-- `for (id, balance) in unallocated` of a transaction -/
  | unallocated (height txIndex : Nat)
  /-- the loop over the balances of one output -/
  | allocated (height txIndex vout : Nat)
  /-- `for (id, amount) in burned` of a transaction -/
  | txBurned (height txIndex : Nat)
  /-- `for (rune_id, burned) in self.burned` -/
  | blockBurned (height : Nat)
  /-- `change_record.burned.iter()` -/
  | recordBurned (height : Nat)
  /-- `change_record.mints.iter()` -/
  | recordMints (height : Nat)
  deriving DecidableEq

/-- A choice of iteration order for every hash map that is iterated over. -/
structure HashOrder where
  iter : IterSite → LotMap → List (RuneId × Nat)
  iter_perm : ∀ site m, (iter site m : Multiset (RuneId × Nat)) = m.toMultiset

/-! ### Rune entries (`entry.rs`) -/

inductive MintError where
  | cap (cap : Nat)
  | «end» (height : Nat)
  | start (height : Nat)
  | unmintable
  deriving DecidableEq

structure RuneEntry where
  block : Nat
  burned : Nat
  divisibility : Nat
  etching : Txid
  mints : Nat
  number : Nat
  premine : Nat
  spacedRune : SpacedRune
  symbol : Option Char
  terms : Option Terms
  timestamp : Nat
  turbo : Bool
  deriving DecidableEq

/-- `u64::saturating_add` -/
def saturatingAdd (a b : Nat) : Nat := min (a + b) u64Max

/-- `relative.zip(absolute).map(pick).or(relative).or(absolute)` -/
def combineBounds (pick : Nat → Nat → Nat) (relative absolute : Option Nat) : Option Nat :=
  match relative, absolute with
  | some r, some a => some (pick r a)
  | some r, none => some r
  | none, a => a

namespace RuneEntry

def start (e : RuneEntry) : Option Nat :=
  e.terms.bind fun terms =>
    combineBounds max (terms.offset.1.map fun offset => saturatingAdd e.block offset)
      terms.height.1

def «end» (e : RuneEntry) : Option Nat :=
  e.terms.bind fun terms =>
    combineBounds min (terms.offset.2.map fun offset => saturatingAdd e.block offset)
      terms.height.2

def mintable (e : RuneEntry) (height : Nat) : Except MintError Nat :=
  match e.terms with
  | none => .error .unmintable
  | some terms =>
    -- the first check that fails is the one reported
    if let some s := e.start then
      if height < s then .error (.start s) else afterStart terms
    else afterStart terms
where
  afterStart (terms : Terms) : Except MintError Nat :=
    if let some d := e.end then
      if height ≥ d then .error (.end d) else afterEnd terms
    else afterEnd terms
  afterEnd (terms : Terms) : Except MintError Nat :=
    let cap := terms.cap.getD 0
    if e.mints ≥ cap then .error (.cap cap) else .ok (terms.amount.getD 0)

/-- `terms.amount` or zero. -/
def mintAmount (e : RuneEntry) : Nat := (e.terms.bind (·.amount)).getD 0

/-- `terms.cap` or zero. -/
def mintCap (e : RuneEntry) : Nat := (e.terms.bind (·.cap)).getD 0

/-- `u128` arithmetic wraps in the release build. -/
def supply (e : RuneEntry) : Nat :=
  (e.premine + e.mints * e.mintAmount % u128Bound) % u128Bound

def maxSupply (e : RuneEntry) : Nat :=
  (e.premine + e.mintCap * e.mintAmount % u128Bound) % u128Bound

/-- What an entry is after a round trip through its stored bytes. -/
def reload (e : RuneEntry) : RuneEntry := { e with spacedRune := e.spacedRune.reload }

@[simp] theorem reload_reload (e : RuneEntry) : e.reload.reload = e.reload := by
  simp [reload]

end RuneEntry

/-! ### Balances and change records -/

structure RuneBalance where
  runeId : RuneId
  balance : Nat
  deriving DecidableEq

/-- `RuneBalances { balances: Vec<RuneBalance> }` -/
abbrev RuneBalances : Type := List RuneBalance

structure ChangeRecord where
  removedOutpoints : List (OutPoint × RuneBalances × Nat)
  addedOutpoints : List OutPoint
  burned : FinMap RuneId Nat
  mints : FinMap RuneId Nat
  addedRunes : List (Rune × RuneId × Txid)
  deriving DecidableEq

/-- `ChangeRecord::new` -/
def ChangeRecord.new : ChangeRecord := ⟨[], [], ∅, ∅, []⟩

end RunesIndexer
