import RunesIndexer.Model.Stored

/-! # The values of the stable maps (`entry.rs`)

    `trait Entry`: what a key or a value of a map is stored as, and how it is loaded again.
    Headers and outpoints have their consensus encoding, which for both has a fixed length.
    The version of a header is the number that its four bytes stand for.
-/

namespace RunesIndexer

open Serial

/-! ### Hashes -/

/-- The 32 bytes of a hash. -/
def hashBytes (h : BitVec 256) : List UInt8 := uint 32 h.toNat

def readHash : Reader (BitVec 256) := do
  let n ← readUInt 32
  return BitVec.ofNat 256 n

/-! ### Block headers -/

namespace Header

/-- `consensus_encode` -/
def consensusEncode (h : Header) : List UInt8 :=
  uint 4 h.version ++ (hashBytes h.prevBlockhash ++ (hashBytes h.merkleRoot ++
    (uint 4 h.time ++ (uint 4 h.bits ++ uint 4 h.nonce))))

/-- `consensus_decode` -/
def consensusDecode : Reader Header := do
  let version ← readUInt 4
  let prevBlockhash ← readHash
  let merkleRoot ← readHash
  let time ← readUInt 4
  let bits ← readUInt 4
  let nonce ← readUInt 4
  return ⟨version, prevBlockhash, merkleRoot, time, bits, nonce⟩

/-- The numbers of the header fit its fields. -/
structure Fits (h : Header) : Prop where
  version : h.version < 2 ^ 32
  time : h.time < 2 ^ 32
  bits : h.bits < 2 ^ 32
  nonce : h.nonce < 2 ^ 32

/-- `Entry::store` -/
def store (h : Header) : List UInt8 := h.consensusEncode

/-- `Entry::load`: `consensus::encode::deserialize` leaves no byte over. -/
def load (value : List UInt8) : Except Panic Header :=
  match consensusDecode.run value with
  | some (h, []) => .ok h
  | _ => .error .unwrapFailed

end Header

/-! ### Outpoints and sats -/

namespace OutPoint

/-- `consensus_encode` -/
def consensusEncode (o : OutPoint) : List UInt8 := hashBytes o.txid ++ uint 4 o.vout

/-- `consensus_decode` -/
def consensusDecode : Reader OutPoint := do
  let txid ← readHash
  let vout ← readUInt 4
  return ⟨txid, vout⟩

/-- The index fits its field. -/
def Fits (o : OutPoint) : Prop := o.vout < 2 ^ 32

/-- `Entry::store` -/
def store (o : OutPoint) : List UInt8 := o.consensusEncode

/-- `Entry::load` -/
def load (value : List UInt8) : Except Panic OutPoint :=
  match consensusDecode.run value with
  | some (o, _) => .ok o
  | none => .error .unwrapFailed

end OutPoint

/-- `SatPoint` (`ordinals`) -/
structure SatPoint where
  outpoint : OutPoint
  offset : Nat
  deriving DecidableEq

namespace SatPoint

/-- `consensus_encode` -/
def consensusEncode (p : SatPoint) : List UInt8 := p.outpoint.consensusEncode ++ uint 8 p.offset

/-- `consensus_decode` -/
def consensusDecode : Reader SatPoint := do
  let outpoint ← OutPoint.consensusDecode
  let offset ← readUInt 8
  return ⟨outpoint, offset⟩

/-- The numbers fit their fields. -/
structure Fits (p : SatPoint) : Prop where
  outpoint : p.outpoint.Fits
  offset : p.offset ≤ u64Max

/-- `Entry::store` -/
def store (p : SatPoint) : List UInt8 := p.consensusEncode

/-- `Entry::load` -/
def load (value : List UInt8) : Except Panic SatPoint :=
  match consensusDecode.run value with
  | some (p, _) => .ok p
  | none => .error .unwrapFailed

end SatPoint

/-! ### Ids -/

namespace Txid

/-- `Entry::store` -/
def store (txid : Txid) : List UInt8 := hashBytes txid

/-- `Entry::load`, for the 32 bytes of a value -/
def load (value : List UInt8) : Except Panic Txid :=
  match readHash.run value with
  | some (txid, _) => .ok txid
  | none => .error .unwrapFailed

end Txid

/-- `Entry::store` -/
def Rune.store (r : Rune) : Nat := r.n

/-- `Entry::load` -/
def Rune.load (value : Nat) : Rune := ⟨value⟩

/-- `Entry::store` -/
def RuneId.store (id : RuneId) : Nat × Nat := (id.block, id.tx)

/-- `Entry::load` -/
def RuneId.load (value : Nat × Nat) : RuneId := ⟨value.1, value.2⟩

/-! ### Rune entries -/

/-- `TermsEntryValue` -/
structure TermsEntryValue where
  cap : Option Nat
  height : Option Nat × Option Nat
  amount : Option Nat
  offset : Option Nat × Option Nat
  deriving DecidableEq

/-- `RuneEntryValue` -/
structure RuneEntryValue where
  block : Nat
  burned : Nat
  divisibility : Nat
  /-- The halves of the txid, as numbers -/
  etching : Nat × Nat
  mints : Nat
  number : Nat
  premine : Nat
  spacedRune : Nat × Nat
  symbol : Option Char
  terms : Option TermsEntryValue
  timestamp : Nat
  turbo : Bool
  deriving DecidableEq

/-- `Entry::store` -/
def RuneEntry.store (e : RuneEntry) : RuneEntryValue where
  block := e.block
  burned := e.burned
  divisibility := e.divisibility
  etching := (e.etching.toNat % u128Bound, e.etching.toNat / u128Bound)
  mints := e.mints
  number := e.number
  premine := e.premine
  spacedRune := (e.spacedRune.rune.store, e.spacedRune.spacers)
  symbol := e.symbol
  terms := e.terms.map fun t => ⟨t.cap, t.height, t.amount, t.offset⟩
  timestamp := e.timestamp
  turbo := e.turbo

/-- `Entry::load` -/
def RuneEntry.load (value : RuneEntryValue) : RuneEntry where
  block := value.block
  burned := value.burned
  divisibility := value.divisibility
  etching := BitVec.ofNat 256 (value.etching.1 + u128Bound * value.etching.2)
  mints := value.mints
  number := value.number
  premine := value.premine
  spacedRune := ⟨Rune.load value.spacedRune.1, value.spacedRune.2⟩
  symbol := value.symbol
  terms := value.terms.map fun t => ⟨t.amount, t.cap, t.height, t.offset⟩
  timestamp := value.timestamp
  turbo := value.turbo

/-! ### Reading back -/

theorem reads_hash (h : BitVec 256) : Reads readHash (hashBytes h) h := by
  have hlast := (reads_uint (w := 32) h.isLt).last (f := fun n => BitVec.ofNat 256 n)
  rwa [BitVec.ofNat_toNat, BitVec.setWidth_eq] at hlast

@[simp] theorem length_hashBytes (h : BitVec 256) : (hashBytes h).length = 32 := length_uint 32 _

theorem Header.reads {h : Header} (hfits : h.Fits) :
    Reads Header.consensusDecode h.consensusEncode h := by
  unfold consensusDecode consensusEncode
  apply (reads_uint hfits.version).bind
  apply (reads_hash h.prevBlockhash).bind
  apply (reads_hash h.merkleRoot).bind
  apply (reads_uint hfits.time).bind
  apply (reads_uint hfits.bits).bind
  exact (reads_uint hfits.nonce).last

@[simp] theorem Header.length_store (h : Header) : h.store.length = 80 := by
  simp [store, consensusEncode]

theorem Header.load_store {h : Header} (hfits : h.Fits) : load h.store = .ok h := by
  unfold load store
  rw [(Header.reads hfits).run]

theorem OutPoint.reads {o : OutPoint} (hfits : o.Fits) :
    Reads OutPoint.consensusDecode o.consensusEncode o := by
  unfold consensusDecode consensusEncode
  exact (reads_hash o.txid).bind (reads_uint hfits).last

@[simp] theorem OutPoint.length_store (o : OutPoint) : o.store.length = 36 := by
  simp [store, consensusEncode]

theorem OutPoint.load_store {o : OutPoint} (hfits : o.Fits) : load o.store = .ok o := by
  unfold load store
  rw [(OutPoint.reads hfits).run]

theorem SatPoint.reads {p : SatPoint} (hfits : p.Fits) :
    Reads SatPoint.consensusDecode p.consensusEncode p := by
  have hmax : u64Max < 256 ^ 8 := by decide
  exact (OutPoint.reads hfits.outpoint).bind
    (reads_uint (lt_of_le_of_lt hfits.offset hmax)).last

@[simp] theorem SatPoint.length_store (p : SatPoint) : p.store.length = 44 := by
  simp [store, consensusEncode, OutPoint.consensusEncode]

theorem SatPoint.load_store {p : SatPoint} (hfits : p.Fits) : load p.store = .ok p := by
  unfold load store
  rw [(SatPoint.reads hfits).run]

@[simp] theorem Txid.length_store (txid : Txid) : txid.store.length = 32 := length_hashBytes txid

theorem Txid.load_store (txid : Txid) : Txid.load txid.store = .ok txid := by
  unfold Txid.load Txid.store
  rw [(reads_hash txid).run]

@[simp] theorem Rune.load_store (r : Rune) : Rune.load r.store = r := rfl

@[simp] theorem RuneId.load_store (id : RuneId) : RuneId.load id.store = id := rfl

/-- The tuple of an entry loses nothing, unlike its bytes. -/
theorem RuneEntry.load_store (e : RuneEntry) : RuneEntry.load e.store = e := by
  obtain ⟨block, burned, divisibility, etching, mints, number, premine, spacedRune, symbol, terms,
    timestamp, turbo⟩ := e
  have hetching : BitVec.ofNat 256 (etching.toNat % u128Bound +
      u128Bound * (etching.toNat / u128Bound)) = etching := by
    rw [Nat.mod_add_div, BitVec.ofNat_toNat, BitVec.setWidth_eq]
  cases terms <;> simp only [load, store, Rune.load, Rune.store, hetching] <;> rfl

end RunesIndexer
