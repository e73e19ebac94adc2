import RunesIndexer.Spec.Bounds
import RunesIndexer.Spec.Memory

/-! # Everything stored fits its type and is read back

    The integers of the source have a width and the values of the stable maps are bytes.
    Along every run each value fits the type it is declared with, so what the maps hold is
    read back as it was written. Amounts fit by conservation, counters by the number of
    etchings, and the rest by what the crates return.
-/

namespace RunesIndexer

open Resumption MonadicFold RuneUpdater Journal

/-! ### What comes from outside -/

/-- Does the transaction ask for a rune to be etched? -/
def Crates.etches (lib : Crates) (tx : Transaction) : Bool :=
  ((lib.decipher tx).bind etchingOf).isSome

/-- The transactions that do. -/
def Crates.etchings (lib : Crates) (done : List Located) : Nat :=
  done.countP fun d => lib.etches d.tx

/-- What the crates return has the types of the source. -/
structure Crates.Typed (lib : Crates) : Prop where
  etching : ∀ tx r etching, lib.decipher tx = some (.runestone r) → r.etching = some etching →
    RuneEntry.EtchingFits etching
  name : ∀ tx artifact rune, lib.decipher tx = some artifact →
    etchingOf artifact = some (some rune) → rune.Fits
  reserved : ∀ height i, height < 2 ^ 32 → i < usizeBound → (lib.reserved height i).Fits

/-- The number of inputs. -/
def inputCount (l : List (Transaction × Txid)) : Nat := (l.map fun e => e.1.input.length).sum

/-- The number of outputs. -/
def outputCount (l : List (Transaction × Txid)) : Nat := (l.map fun e => e.1.output.length).sum

/-- The numbers of the header fit, and the block is one that fits into the memory. -/
structure BlockData.Fits (b : BlockData) : Prop where
  header : b.header.Fits
  inputs : inputCount b.txdata < usizeBound
  outputs : outputCount b.txdata < usizeBound

/-- A chain whose blocks fit, whose heights are those of a `u32`, and that does not have
    too many etchings. -/
structure ChainFits (lib : Crates) (network : BitcoinNetwork) (chain : List BlockData) :
    Prop where
  distinct : DistinctTxids chain
  blocks : ∀ b ∈ chain, b.Fits
  heights : lib.firstRuneHeight network + chain.length ≤ 2 ^ 32
  etchings : lib.etchings (located (lib.firstRuneHeight network) chain) < usizeBound

theorem etchings_append (lib : Crates) (done : List Located) (d : Located) :
    lib.etchings (done ++ [d]) = lib.etchings done + if lib.etches d.tx then 1 else 0 := by
  unfold Crates.etchings
  rw [List.countP_append, List.countP_singleton]

/-- The etchings up to a transaction are among those of the chain. -/
theorem etchings_doneAt_le (lib : Crates) (first : Nat) (chain : List BlockData) (b : BlockData)
    {i : Nat} (hi : i ≤ b.txdata.length) :
    lib.etchings (doneAt first chain b i) ≤ lib.etchings (located first (chain ++ [b])) := by
  have hsub : (doneAt first chain b i).Sublist (doneAt first chain b b.txdata.length) :=
    List.Sublist.append_left (List.take_sublist_take_left hi) _
  rw [doneAt_length] at hsub
  exact hsub.countP_le

/-! ### The ledger -/

namespace RuneEntry.Fits

variable {e : RuneEntry}

theorem reload (h : e.Fits) : e.reload.Fits where
  block := h.block
  burned := h.burned
  divisibility := h.divisibility
  mints := h.mints
  number := h.number
  premine := h.premine
  rune := h.rune
  spacers := Nat.lt_of_le_of_lt (Nat.mod_le _ _) h.spacers
  terms := h.terms
  timestamp := h.timestamp

theorem mintCap_lt (h : e.Fits) : e.mintCap < u128Bound := by
  unfold RuneEntry.mintCap
  cases hterms : e.terms with
  | none => simp [u128Bound]
  | some t =>
    cases hcap : t.cap with
    | none => simp [hcap, u128Bound]
    | some n => simpa [hcap] using (h.terms t hterms).cap n hcap

/-- The cap bounds the count after an accepted mint. -/
theorem mint (h : e.Fits) {height n : Nat} (hm : e.mintable height = .ok n) :
    ({ e with mints := e.mints + 1 } : RuneEntry).Fits := by
  have hlt := (RuneEntry.mintable_eq_ok.mp hm).2.2.1
  exact { h with mints := Nat.lt_of_le_of_lt hlt h.mintCap_lt }

theorem burn (h : e.Fits) {n : Nat} (hn : n < u128Bound) :
    ({ e with burned := n } : RuneEntry).Fits :=
  { h with burned := hn }

end RuneEntry.Fits

/-- The values of a ledger fit, and it has at most `n` runes. Balances are left to
    conservation. -/
structure Ledger.Fits (n : Nat) (L : Ledger) : Prop where
  entries : L.entries.All fun id e => id.Fits ∧ e.Fits
  names : L.names.All fun rune id => rune.Fits ∧ id.Fits
  etchings : L.etchings.All fun _ rune => rune.Fits
  heights : L.heights.All fun o height => o.Fits ∧ height < 2 ^ 32
  outpoints : L.balances.All fun o B => o.Fits ∧ (B.map (·.runeId)).Nodup
  size : L.entries.size ≤ L.runes
  reservedRunes : L.reservedRunes ≤ L.runes
  runes : L.runes ≤ n

/-- Every stored balance list fits. -/
def Ledger.ListsFit (L : Ledger) : Prop :=
  ∀ o (l : RuneBalances), L.balances.get? o = some (Multiset.ofList l) → l.Fits

namespace Ledger.Fits

variable {lib : Crates} {n : Nat} {L L' : Ledger} {t t' : LotMap} {u u' : RuneUpdater}
  {tx : Transaction} {txid : Txid}

theorem empty : Ledger.empty.Fits 0 where
  entries := .empty
  names := .empty
  etchings := .empty
  heights := .empty
  outpoints := .empty
  size := Nat.le_refl 0
  reservedRunes := Nat.le_refl 0
  runes := Nat.le_refl 0

theorem mono (h : L.Fits n) {n' : Nat} (hn : n ≤ n') : L.Fits n' :=
  { h with runes := h.runes.trans hn }

theorem spend (h : L.Fits n) {o : OutPoint} (hstep : Spend o (L, t, u) (L', t', u')) :
    L'.Fits n := by
  cases hstep with
  | absent _ => exact h
  | removed _ _ _ => exact { h with heights := h.heights.erase o, outpoints := h.outpoints.erase o }

/-- An entry that is written back with another count. -/
theorem update (h : L.Fits n) {id : RuneId} {e e' : RuneEntry}
    (he : L.entries.get? id = some e) (hfits : e'.Fits) :
    ({ L with entries := L.entries.insert id e'.reload } : Ledger).Fits n :=
  { h with
    entries := h.entries.insert ⟨(h.entries id e he).1, hfits.reload⟩
    size := (FinMap.size_insert_of_get? he _).trans h.size }

theorem mint (h : L.Fits n) (hstep : Mint lib tx (L, t, u) (L', t', u')) : L'.Fits n := by
  cases hstep with
  | absent _ => exact h
  | refused _ _ _ => exact h
  | minted _ _ he hm _ => exact h.update he ((h.entries _ _ he).2.mint hm)

/-- The name of an etched rune. -/
theorem named (htyped : lib.Typed) {txIndex : Nat} {artifact : Artifact} {rune : Rune}
    {reservedRunes : Nat} (hheight : u.height < 2 ^ 32) (hi : txIndex < usizeBound)
    (hdec : lib.decipher tx = some artifact)
    (hname : Named lib u txIndex artifact L rune reservedRunes) :
    rune.Fits ∧ reservedRunes ≤ L.reservedRunes + 1 ∧ lib.etches tx = true := by
  unfold Crates.etches
  rw [hdec, Option.bind_some]
  cases hname with
  | chosen hname _ _ _ =>
    rw [hname]
    exact ⟨htyped.name tx artifact _ hdec hname, Nat.le_succ _, rfl⟩
  | reserved hname =>
    rw [hname]
    exact ⟨htyped.reserved _ _ hheight hi, Nat.le_refl _, rfl⟩

theorem etch (h : L.Fits n) (htyped : lib.Typed) (hn : n < usizeBound) {txIndex : Nat}
    {a : List LotMap} (hheight : u.height < 2 ^ 32) (htime : u.blockTime < 2 ^ 32)
    (hruns : u.runes = L.runes) (hi : txIndex < usizeBound)
    (hstep : Etch lib txIndex tx txid (L, t, u) a (L', t', u')) :
    L'.Fits (n + if lib.etches tx then 1 else 0) := by
  cases hstep with
  | plain _ => exact h.mono (Nat.le_add_right _ _)
  | unetched _ _ => exact h.mono (Nat.le_add_right _ _)
  | @etched _ _ _ _ artifact rune reservedRunes entry _ hdec hname _ hentry =>
    obtain ⟨hrune, hreserved, hetches⟩ := named htyped hheight hi hdec hname
    have hmax : 2 ^ 32 ≤ u64Max := by decide
    have hid : RuneId.Fits ⟨u.height, txIndex⟩ := ⟨hheight.le.trans hmax, hi⟩
    -- the number of the rune is below the count of etchings
    have hcount : u.runes ≤ u64Max := by
      have := h.runes
      unfold usizeBound at hn
      omega
    have hfits : entry.Fits := by
      refine RuneEntry.newRuneEntry_fits hid.block hcount (htime.le.trans hmax) hrune ?_ hentry
      intro r etching hr hetching
      subst hr
      exact htyped.etching tx r etching hdec hetching
    have hsize := FinMap.size_insert_le L.entries ⟨u.height, txIndex⟩ entry.reload
    rw [hetches, if_pos rfl]
    exact {
      entries := h.entries.insert ⟨hid, hfits.reload⟩
      names := h.names.insert ⟨hrune, hid⟩
      etchings := h.etchings.insert hrune
      heights := h.heights
      outpoints := h.outpoints
      size := by
        have := h.size
        dsimp only
        omega
      reservedRunes := by
        have := h.reservedRunes
        dsimp only
        omega
      runes := by
        have := h.runes
        dsimp only
        omega }

theorem output (h : L.Fits n) (hheight : u.height < 2 ^ 32) {m : LotMap × Nat}
    (hstep : Output lib tx txid m (L, t, u) (L', t', u')) : L'.Fits n := by
  cases hstep with
  | nothing _ => exact h
  | burns _ _ _ => exact h
  | @created balances vout _ _ _ _ ord site _ hout _ =>
    have ho : OutPoint.Fits ⟨txid, vout⟩ :=
      (List.getElem?_eq_some_iff.mp hout).1.trans tx.outputFits
    have hnodup : ((Multiset.ofList ((ord.iter site balances).map fun e =>
        (⟨e.1, e.2⟩ : RuneBalance))).map (·.runeId)).Nodup := by
      rw [Multiset.map_coe, List.map_map, Multiset.coe_nodup]
      exact iter_nodup ord site balances
    exact { h with
      heights := h.heights.insert ⟨ho, hheight⟩
      outpoints := h.outpoints.insert ⟨ho, hnodup⟩ }

/-- A known rune has an id that fits. -/
theorem known (h : L.Fits n) {id : RuneId} (hid : L.Known id) : id.Fits := by
  obtain ⟨e, he⟩ := Option.isSome_iff_exists.mp hid
  exact (h.entries id e he).1

/-- A map over known runes is not larger than the ledger. -/
theorem size_le (h : L.Fits n) {m : LotMap} (hm : m.KeysIn L.Known) : m.size ≤ n :=
  (FinMap.size_le_size hm).trans (h.size.trans h.runes)

/-- With conservation the balance lists fit as well: a list has one balance for each rune,
    and all of it was issued. -/
theorem listsFit (h : L.Fits n) (hn : n < usizeBound) {x : RuneId → Nat}
    (hflow : InFlight L t x) (hbounded : L.Bounded) : L.ListsFit := by
  intro o l hl
  have hknown := hflow.balances o _ hl
  constructor
  · have hnodup := (h.outpoints o _ hl).2
    have hcard := FinMap.card_le_size hnodup fun id hid => by
      obtain ⟨b, hb, rfl⟩ := Multiset.mem_map.mp hid
      exact hknown b hb
    rw [Multiset.card_map, Multiset.coe_card] at hcard
    have := h.size
    have := h.runes
    omega
  · intro b hb
    refine ⟨h.known (hknown b hb), ?_⟩
    have hin : heldIn (Multiset.ofList l) b.runeId = b.balance := by
      rw [heldIn_ofList]
      refine sumAt_of_mem ?_ (List.mem_map.mpr ⟨b, hb, rfl⟩)
      rw [List.map_map]
      exact Multiset.coe_nodup.mp (h.outpoints o _ hl).2
    have hheld : heldIn (Multiset.ofList l) b.runeId ≤ L.held b.runeId :=
      FinMap.le_total (fun _ B => heldIn B b.runeId) hl
    have := hflow.conserved b.runeId
    have := hbounded.issued_lt b.runeId
    omega

end Ledger.Fits

/-! ### The change record -/

/-- What a record keeps fits. Its maps are over known runes, so that the ledger bounds them. -/
structure RecordFits (L : Ledger) (r : ChangeRecord) : Prop where
  removed : ∀ e ∈ r.removedOutpoints, e.1.Fits ∧ RuneBalances.Fits e.2.1 ∧ e.2.2 < 2 ^ 32
  added : ∀ o ∈ r.addedOutpoints, o.Fits
  burned : r.burned.All fun id n => L.Known id ∧ n < u128Bound
  mints : r.mints.All fun id n => L.Known id ∧ n < u128Bound
  runes : ∀ e ∈ r.addedRunes, e.1.Fits ∧ e.2.1.Fits
  runesLength : r.addedRunes.length ≤ L.runes

namespace RecordFits

variable {lib : Crates} {n : Nat} {L L' : Ledger} {t t' : LotMap} {u u' : RuneUpdater}
  {r : ChangeRecord} {tx : Transaction} {txid : Txid}

theorem new (L : Ledger) : RecordFits L ChangeRecord.new where
  removed := nofun
  added := nofun
  burned := .empty
  mints := .empty
  runes := nofun
  runesLength := Nat.zero_le _

/-- More known runes do not matter. -/
theorem mono (h : RecordFits L r) (hknown : ∀ id, L.Known id → L'.Known id)
    (hruns : L.runes ≤ L'.runes) : RecordFits L' r where
  removed := h.removed
  added := h.added
  burned := h.burned.imp fun id _ hid => ⟨hknown id hid.1, hid.2⟩
  mints := h.mints.imp fun id _ hid => ⟨hknown id hid.1, hid.2⟩
  runes := h.runes
  runesLength := h.runesLength.trans hruns

theorem spend (h : RecordFits L u.changeRecord) (hfits : L.Fits n) (hlists : L.ListsFit)
    {o : OutPoint} (hstep : Spend o (L, t, u) (L', t', u')) :
    RecordFits L' u'.changeRecord := by
  cases hstep with
  | absent _ => exact h
  | @removed _ _ _ _ l height hb hh _ =>
    have hnew : o.Fits ∧ RuneBalances.Fits l ∧ height < 2 ^ 32 :=
      ⟨(hfits.heights o height hh).1, hlists o l hb, (hfits.heights o height hh).2⟩
    refine { h with removed := fun e he => ?_ }
    rcases List.mem_append.mp he with he | he
    · exact h.removed e he
    · rw [List.mem_singleton.mp he]
      exact hnew

theorem mint (h : RecordFits L u.changeRecord) (hfits : L.Fits n)
    (hstep : Mint lib tx (L, t, u) (L', t', u')) : RecordFits L' u'.changeRecord := by
  have hknown := hstep.frame.2.2.2
  cases hstep with
  | absent _ => exact h
  | refused _ _ _ => exact h
  | minted _ _ he _ _ =>
    have hid : L.Known _ := Option.isSome_iff_exists.mpr ⟨_, he⟩
    have hnew : RecordFits L { u.changeRecord with
        mints := u.changeRecord.mints.insertNew _ _ } :=
      { h with mints := h.mints.insertNew ⟨hid, (hfits.entries _ _ he).2.mints⟩ }
    exact hnew.mono (fun id hid => (hknown id).mpr hid) (Nat.le_refl _)

theorem etch (h : RecordFits L u.changeRecord) (htyped : lib.Typed) {txIndex : Nat}
    {a : List LotMap} (hheight : u.height < 2 ^ 32) (hruns : u.runes = L.runes)
    (hi : txIndex < usizeBound) (hstep : Etch lib txIndex tx txid (L, t, u) a (L', t', u')) :
    RecordFits L' u'.changeRecord := by
  have hknown := hstep.frame.2.2.2.1
  cases hstep with
  | plain _ => exact h
  | unetched _ _ => exact h
  | @etched _ _ _ _ artifact rune _ entry _ hdec hname _ _ =>
    obtain ⟨hrune, -, -⟩ := Ledger.Fits.named htyped hheight hi hdec hname
    have hmax : 2 ^ 32 ≤ u64Max := by decide
    have hid : RuneId.Fits ⟨u.height, txIndex⟩ := ⟨hheight.le.trans hmax, hi⟩
    have hmono := h.mono hknown (by dsimp only; omega)
    refine { hmono with runes := fun e he => ?_, runesLength := ?_ }
    · rcases List.mem_append.mp he with he | he
      · exact h.runes e he
      · rw [List.mem_singleton.mp he]
        exact ⟨hrune, hid⟩
    · have hlength := h.runesLength
      show (u.changeRecord.addedRunes ++ [_]).length ≤ u.runes + 1
      rw [List.length_append, List.length_singleton]
      omega

theorem output (h : RecordFits L u.changeRecord) {m : LotMap × Nat}
    (hstep : Output lib tx txid m (L, t, u) (L', t', u')) : RecordFits L' u'.changeRecord := by
  cases hstep with
  | nothing _ => exact h
  | burns _ _ _ => exact h
  | @created _ vout _ _ _ _ _ _ _ hout _ =>
    have ho : OutPoint.Fits ⟨txid, vout⟩ :=
      (List.getElem?_eq_some_iff.mp hout).1.trans tx.outputFits
    refine { h with added := fun o ho' => ?_ }
    rcases List.mem_append.mp ho' with ho' | ho'
    · exact h.added o ho'
    · rw [List.mem_singleton.mp ho']
      exact ho

theorem burn (h : RecordFits L r) (hfits : L.Fits n) {id : RuneId} {e e' : RuneEntry}
    (he : L.entries.get? id = some e) :
    RecordFits { L with entries := L.entries.insert id e' }
      { r with burned := r.burned.insertNew id e.burned } := by
  have hid : L.Known id := Option.isSome_iff_exists.mpr ⟨e, he⟩
  have hnew : RecordFits L { r with burned := r.burned.insertNew id e.burned } :=
    { h with burned := h.burned.insertNew ⟨hid, (hfits.entries id e he).2.burned⟩ }
  exact hnew.mono (fun id hid => known_insert rfl hid) (Nat.le_refl _)

/-- A record of a block that fits into the memory. -/
theorem fits (h : RecordFits L r) (hfits : L.Fits n) (hn : n < usizeBound)
    (hremoved : r.removedOutpoints.length < usizeBound)
    (hadded : r.addedOutpoints.length < usizeBound) : r.Fits := by
  have hmap : ∀ {m : LotMap}, (m.All fun id n => L.Known id ∧ n < u128Bound) → LotMap.Fits m := by
    intro m hm
    have hkeys : m.KeysIn L.Known := by
      intro id hid
      obtain ⟨k, hk⟩ := Option.isSome_iff_exists.mp hid
      exact (hm id k hk).1
    exact ⟨Nat.lt_of_le_of_lt (hfits.size_le hkeys) hn,
      fun id k hk => ⟨hfits.known (hm id k hk).1, (hm id k hk).2⟩⟩
  have hruns := hfits.runes
  exact {
    removedLength := hremoved
    removed := h.removed
    addedLength := hadded
    added := h.added
    burned := hmap h.burned
    mints := hmap h.mints
    runesLength := Nat.lt_of_le_of_lt (h.runesLength.trans hruns) hn
    runes := h.runes }

end RecordFits

/-- A transaction removes one outpoint for each input at most and adds one for each
    output at most. -/
theorem TxPhases.lengths {lib : Crates} {txIndex : Nat} {tx : Transaction} {txid : Txid}
    {L L' : Ledger} {u u' : RuneUpdater} (h : TxPhases lib txIndex tx txid L u L' u') :
    u'.changeRecord.removedOutpoints.length ≤
        u.changeRecord.removedOutpoints.length + tx.input.length ∧
      u'.changeRecord.addedOutpoints.length ≤
        u.changeRecord.addedOutpoints.length + tx.output.length := by
  obtain ⟨⟨L₁, t₁, u₁⟩, ⟨L₂, t₂, u₂⟩, ⟨L₃, t₃, u₃⟩, a₁, a₂, burned, burned', u₄, ord, ord', site,
    site', allBurned, hspend, hmint, hetch, hassign, houtput, -, rfl⟩ := h.phases
  have hremoved := hspend.count (f := fun x => x.2.2.changeRecord.removedOutpoints.length)
    fun input x x' hstep => by cases hstep <;> simp
  have hkept := hspend.invariant
    (P := fun x => x.2.2.changeRecord.addedOutpoints = u.changeRecord.addedOutpoints)
    (fun input _ x x' hP hstep => by cases hstep <;> exact hP) rfl
  -- mint and etching write to other parts of the record
  have hmint' : u₂.changeRecord.removedOutpoints = u₁.changeRecord.removedOutpoints ∧
      u₂.changeRecord.addedOutpoints = u₁.changeRecord.addedOutpoints := by
    cases hmint <;> exact ⟨rfl, rfl⟩
  have hetch' : u₃.changeRecord.removedOutpoints = u₂.changeRecord.removedOutpoints ∧
      u₃.changeRecord.addedOutpoints = u₂.changeRecord.addedOutpoints ∧
      a₁.length = tx.output.length := by
    cases hetch with
    | plain _ => exact ⟨rfl, rfl, List.length_replicate⟩
    | unetched _ hstone => exact ⟨rfl, rfl, (indexRunestone_total hstone).2.1⟩
    | etched _ _ hstone _ => exact ⟨rfl, rfl, (indexRunestone_total hstone).2.1⟩
  have hlength : a₂.zipIdx.length = tx.output.length := by
    rw [List.length_zipIdx, (assignUnallocated_total hassign).2.1, hetch'.2.2]
  have hadded := houtput.count (f := fun x => x.2.2.changeRecord.addedOutpoints.length)
    fun output x x' hstep => by cases hstep <;> simp
  have hremoved' := houtput.invariant
    (P := fun x => x.2.2.changeRecord.removedOutpoints = u₃.changeRecord.removedOutpoints)
    (fun output _ x x' hP hstep => by cases hstep <;> exact hP) rfl
  dsimp only at hremoved hkept hadded hremoved'
  rw [hremoved', hetch'.1, hmint'.1]
  rw [hlength, hetch'.2.1, hmint'.2, hkept] at hadded
  exact ⟨hremoved, hadded⟩

/-! ### Inside a block -/

/-- Everything fits while the block with this height and time is indexed. -/
structure FitsWithin (n height time : Nat) (L : Ledger) (u : RuneUpdater) : Prop where
  atHeight : u.height = height
  blockTime : u.blockTime = time
  runes : u.runes = L.runes
  ledger : L.Fits n
  record : RecordFits L u.changeRecord

namespace FitsWithin

variable {lib : Crates} {n height time : Nat} {L L' : Ledger} {t t' : LotMap}
  {u u' : RuneUpdater} {tx : Transaction} {txid : Txid}

theorem spend (h : FitsWithin n height time L u) (hlists : L.ListsFit) {o : OutPoint}
    (hstep : Spend o (L, t, u) (L', t', u')) : FitsWithin n height time L' u' ∧ L'.ListsFit := by
  have hledger := h.ledger.spend hstep
  have hrecord := h.record.spend h.ledger hlists hstep
  cases hstep with
  | absent _ => exact ⟨h, hlists⟩
  | removed _ _ _ =>
    refine ⟨⟨h.atHeight, h.blockTime, h.runes, hledger, hrecord⟩, fun o' l hl => ?_⟩
    rw [FinMap.get?_erase] at hl
    split at hl
    · cases hl
    · exact hlists o' l hl

theorem mint (h : FitsWithin n height time L u) (hstep : Mint lib tx (L, t, u) (L', t', u')) :
    FitsWithin n height time L' u' := by
  have hledger := h.ledger.mint hstep
  have hrecord := h.record.mint h.ledger hstep
  cases hstep with
  | absent _ => exact h
  | refused _ _ _ => exact h
  | minted _ _ _ _ _ => exact ⟨h.atHeight, h.blockTime, h.runes, hledger, hrecord⟩

theorem etch (h : FitsWithin n height time L u) (htyped : lib.Typed) (hn : n < usizeBound)
    (hheight : height < 2 ^ 32) (htime : time < 2 ^ 32) {txIndex : Nat}
    (hi : txIndex < usizeBound) {a : List LotMap}
    (hstep : Etch lib txIndex tx txid (L, t, u) a (L', t', u')) :
    FitsWithin (n + if lib.etches tx then 1 else 0) height time L' u' := by
  rw [← h.atHeight] at hheight
  rw [← h.blockTime] at htime
  have hledger := h.ledger.etch htyped hn hheight htime h.runes hi hstep
  have hrecord := h.record.etch htyped hheight h.runes hi hstep
  cases hstep with
  | plain _ => exact ⟨h.atHeight, h.blockTime, h.runes, hledger, hrecord⟩
  | unetched _ _ => exact ⟨h.atHeight, h.blockTime, h.runes, hledger, hrecord⟩
  | etched _ _ _ _ => exact ⟨h.atHeight, h.blockTime, rfl, hledger, hrecord⟩

theorem output (h : FitsWithin n height time L u) (hheight : height < 2 ^ 32) {m : LotMap × Nat}
    (hstep : Output lib tx txid m (L, t, u) (L', t', u')) : FitsWithin n height time L' u' := by
  rw [← h.atHeight] at hheight
  have hledger := h.ledger.output hheight hstep
  have hrecord := h.record.output hstep
  cases hstep with
  | nothing _ => exact h
  | burns _ _ _ => exact h
  | created _ _ _ => exact ⟨h.atHeight, h.blockTime, h.runes, hledger, hrecord⟩

theorem indexRunes (h : FitsWithin n height time L u) (hlists : L.ListsFit) (htyped : lib.Typed)
    (hn : n < usizeBound) (hheight : height < 2 ^ 32) (htime : time < 2 ^ 32) {i : Nat}
    (hi : i < usizeBound) (hstep : TxPhases lib i tx txid L u L' u') :
    FitsWithin (n + if lib.etches tx then 1 else 0) height time L' u' := by
  refine hstep.invariant
    (P := fun L u => FitsWithin n height time L u ∧ L.ListsFit)
    (M := fun L u => FitsWithin n height time L u)
    (Q := fun L u => FitsWithin (n + if lib.etches tx then 1 else 0) height time L u)
    ?_ ?_ ?_ ?_ ?_ ⟨h, hlists⟩
  · intro input _ L t u L' t' u' hP hspend
    exact hP.1.spend hP.2 hspend
  · intro L t u L' t' u' hP hmint
    exact hP.1.mint hmint
  · intro L t u a L' t' u' hP hetch
    exact hP.etch htyped hn hheight htime hi hetch
  · intro output L b u L' b' u' hP houtput
    exact hP.output hheight houtput
  · intro L u b hP
    exact ⟨hP.atHeight, hP.blockTime, hP.runes, hP.ledger, hP.record⟩

end FitsWithin

theorem inputCount_take_succ {l : List (Transaction × Txid)} {i : Nat} {tx : Transaction}
    {txid : Txid} (h : l[i]? = some (tx, txid)) :
    inputCount (l.take (i + 1)) = inputCount (l.take i) + tx.input.length := by
  unfold inputCount
  rw [List.take_add_one, h]
  simp

theorem outputCount_take_succ {l : List (Transaction × Txid)} {i : Nat} {tx : Transaction}
    {txid : Txid} (h : l[i]? = some (tx, txid)) :
    outputCount (l.take (i + 1)) = outputCount (l.take i) + tx.output.length := by
  unfold outputCount
  rw [List.take_add_one, h]
  simp

/-- The state after `i` transactions of the block `b` on top of `chain`. -/
structure AccountedAt (lib : Crates) (first : Nat) (chain : List BlockData) (b : BlockData) (i : Nat)
    (L : Ledger) (u : RuneUpdater) : Prop where
  flow : InFlight L u.burned fun _ => 0
  placed : Placed (doneAt first chain b i) L
  bounded : L.Bounded
  fits : FitsWithin (lib.etchings (doneAt first chain b i)) (first + chain.length) b.header.time L u
  removed : u.changeRecord.removedOutpoints.length ≤ inputCount (b.txdata.take i)
  added : u.changeRecord.addedOutpoints.length ≤ outputCount (b.txdata.take i)

/-- The ledger between two blocks. -/
structure Accounted (lib : Crates) (done : List Located) (L : Ledger) : Prop where
  flow : InFlight L ∅ fun _ => 0
  placed : Placed done L
  bounded : L.Bounded
  fits : L.Fits (lib.etchings done)

theorem accounted_empty (lib : Crates) : Accounted lib [] Ledger.empty where
  flow := .empty
  placed := .empty
  bounded id e he := by simp [Ledger.empty] at he
  fits := .empty

section block

variable {lib : Crates} {network : BitcoinNetwork} {chain : List BlockData} {b : BlockData}

theorem AccountedAt.indexRunes (hlib : lib.Lawful) (htyped : lib.Typed)
    (hchain : ChainFits lib network (chain ++ [b])) {i : Nat} {tx : Transaction} {txid : Txid}
    (hget : b.txdata[i]? = some (tx, txid)) {L L' : Ledger} {u u' : RuneUpdater}
    (h : AccountedAt lib (lib.firstRuneHeight network) chain b i L u)
    (hstep : TxPhases lib i tx txid L u L' u') :
    AccountedAt lib (lib.firstRuneHeight network) chain b (i + 1) L' u' := by
  have hlt := (List.getElem?_eq_some_iff.mp hget).1
  have hi : i < usizeBound := hlt.trans b.txdataFits
  have hn : lib.etchings (doneAt (lib.firstRuneHeight network) chain b i) < usizeBound :=
    Nat.lt_of_le_of_lt (etchings_doneAt_le lib _ chain b hlt.le) hchain.etchings
  have hheight : lib.firstRuneHeight network + chain.length < 2 ^ 32 := by
    have := hchain.heights
    rw [List.length_append, List.length_singleton] at this
    omega
  have htime : b.header.time < 2 ^ 32 := (hchain.blocks b (by simp)).header.time
  have hfree : L.entries.get? ⟨u.height, i⟩ = none := by
    rw [h.fits.atHeight]
    exact h.placed.entry_free
  -- what is stored when the transaction begins is what it may move to the record
  have hlists := h.fits.ledger.listsFit hn h.flow h.bounded
  have hfits := h.fits.indexRunes hlists htyped hn hheight htime hi hstep
  obtain ⟨hremoved, hadded⟩ := hstep.lengths
  exact {
    flow := h.flow.indexRunes hfree (h.placed.outpoint_free hchain.distinct hget) hstep
    placed := h.placed.indexRunes hget h.fits.atHeight hstep
    bounded := h.bounded.indexRunes hlib hstep
    fits := by
      rw [doneAt_succ _ chain hget, etchings_append]
      exact hfits
    removed := by
      rw [inputCount_take_succ hget]
      exact hremoved.trans (Nat.add_le_add_right h.removed _)
    added := by
      rw [outputCount_take_succ hget]
      exact hadded.trans (Nat.add_le_add_right h.added _) }

/-- A block leaves a ledger and a record that fit. -/
theorem indexBlock_fits (hlib : lib.Lawful) (htyped : lib.Typed)
    (hchain : ChainFits lib network (chain ++ [b])) {ord : HashOrder} {ans : Answers}
    {s s' : Store} (hrows : s.RowsBelow (lib.firstRuneHeight network + chain.length))
    (h : Accounted lib (located (lib.firstRuneHeight network) chain) s.ledger)
    (hrun : Proc.Runs ans
      ((indexBlock lib ord network (lib.firstRuneHeight network + chain.length) b).run s)
      (.ok s' ())) :
    Accounted lib (located (lib.firstRuneHeight network) (chain ++ [b])) s'.ledger ∧
      ∃ r, s'.heightToChangeRecord.get? (lib.firstRuneHeight network + chain.length) = some r ∧
        r.Fits := by
  have hflow := indexBlock_conserved hchain.distinct hrows h.flow h.placed hrun
  have hplaced := h.placed.indexBlock hrows hrun
  obtain ⟨s₁, u₁, s₂, htxs, hupdate, rfl⟩ := indexBlock_runs hrun
  obtain ⟨s₃, record, hfold, rfl⟩ := update_eq_ok.mp hupdate
  have h₀ : AccountedAt lib (lib.firstRuneHeight network) chain b 0 s.ledger
      (RuneUpdater.new lib network (lib.firstRuneHeight network + chain.length) b.header.time
        s.ledger.runes) := by
    refine ⟨h.flow, ?_, h.bounded, ⟨rfl, rfl, rfl, ?_, .new _⟩, Nat.zero_le _, Nat.zero_le _⟩
    · rw [doneAt_zero]
      exact h.placed
    · rw [doneAt_zero]
      exact h.fits
  have h₁ := indexTransactions_ledger
    (P := AccountedAt lib (lib.firstRuneHeight network) chain b) hrows.upTo h₀
    (fun i tx txid hget L u L' u' _ hP hstep => hP.indexRunes hlib htyped hchain hget hstep) htxs
  have hn := hchain.etchings
  rw [← doneAt_length] at hn ⊢
  -- the flush changes burned counts and keeps the counts of before in the record
  have h₃ : s₃.ledger.Bounded ∧
      s₃.ledger.Fits (lib.etchings (doneAt (lib.firstRuneHeight network) chain b
        b.txdata.length)) ∧ RecordFits s₃.ledger record ∧
      record.removedOutpoints = u₁.changeRecord.removedOutpoints ∧
      record.addedOutpoints = u₁.changeRecord.addedOutpoints := by
    refine sync_foldlM_invariant
      (P := fun r s => s.ledger.Bounded ∧
        s.ledger.Fits (lib.etchings (doneAt (lib.firstRuneHeight network) chain b
          b.txdata.length)) ∧ RecordFits s.ledger r ∧
        r.removedOutpoints = u₁.changeRecord.removedOutpoints ∧
        r.addedOutpoints = u₁.changeRecord.addedOutpoints) ?_
      ⟨h₁.bounded, h₁.fits.ledger, h₁.fits.record, rfl, rfl⟩ hfold
    intro e _ r s r' s' hP hstep
    obtain ⟨hbounded, hfits, hrecord, hremoved, hadded⟩ := hP
    obtain ⟨entry, hentry, hlt, rfl, rfl⟩ := updateBurned_eq_ok.mp hstep
    rw [Store.ledger_memInsertRuneIdToRuneEntry]
    exact ⟨hbounded.burn hentry _, hfits.update hentry ((hfits.entries _ _ hentry).2.burn hlt),
      hrecord.burn hfits hentry, hremoved, hadded⟩
  obtain ⟨hbounded, hfits, hrecord, hremoved, hadded⟩ := h₃
  have hb := hchain.blocks b (by simp)
  refine ⟨⟨hflow, by rw [doneAt_length]; exact hplaced, hbounded, hfits⟩, record, ?_,
    hrecord.fits hfits hn ?_ ?_⟩
  · rw [← h₁.fits.atHeight]
    exact FinMap.get?_insert_self _ _ _
  · have hle := h₁.removed
    rw [List.take_length] at hle
    rw [hremoved]
    exact Nat.lt_of_le_of_lt hle hb.inputs
  · have hle := h₁.added
    rw [List.take_length] at hle
    rw [hadded]
    exact Nat.lt_of_le_of_lt hle hb.outputs

end block

/-! ### Runs -/

section runs

variable {lib : Crates} {network : BitcoinNetwork} {node : Node}

theorem ChainFits.sound (hres : ReservedNames lib) (chain : List BlockData)
    (h : ChainFits lib network chain) : Scope.all.Sound lib chain :=
  ⟨fun _ => h.distinct, fun _ => ⟨h.distinct, hres⟩⟩

/-- A held block left a record and counters that fit. -/
def FrameFits (f : LedgerFrame) : Prop :=
  f.record.Fits ∧ f.after.runes ≤ u64Max ∧ f.after.reservedRunes ≤ u64Max

/-- Along a replay every frame fits, and so does the ledger it ends in. -/
theorem Replays.fits (hlib : lib.Lawful) (htyped : lib.Typed) {fs : List LedgerFrame}
    (h : Replays lib network node (ChainFits lib network) .all fs) :
    Accounted lib (located (lib.firstRuneHeight network) (items fs)) (current Ledger.empty fs) ∧
      (current Ledger.empty fs).runes < usizeBound ∧ ∀ f ∈ fs, FrameFits f := by
  induction h with
  | nil => exact ⟨accounted_empty lib, by decide, nofun⟩
  | @cons f fs below top ih =>
    obtain ⟨haccounted, -, hframes⟩ := ih
    obtain ⟨ord, s, s', hrows, hL, hrun, hr, hL'⟩ := top.indexed
    rw [← hL.eq] at haccounted
    obtain ⟨haccounted', r, hr', hfits⟩ :=
      indexBlock_fits hlib htyped top.admitted hrows haccounted hrun
    obtain rfl : f.record = r := Option.some.inj (hr.symm.trans hr')
    rw [hL'.eq] at haccounted'
    have hruns := Nat.lt_of_le_of_lt haccounted'.fits.runes top.admitted.etchings
    have hreserved := haccounted'.fits.reservedRunes
    have hmax : usizeBound ≤ u64Max := by decide
    rw [items_cons, current_cons]
    refine ⟨haccounted', hruns, fun g hg => ?_⟩
    rcases List.mem_cons.mp hg with rfl | hg
    · exact ⟨hfits, by omega, by omega⟩
    · exact hframes g hg

/-- Every key and every value of the stable maps fits the type it is declared with and is
    read back from what it is stored as: headers, outpoints and txids from their fixed
    number of bytes, entries within their bound, balances and records from any number. -/
structure Store.Survives (s : Store) : Prop where
  headers : s.heightToBlockHeader.All fun height header =>
    height < 2 ^ 32 ∧ Header.load header.store = .ok header
  runes : s.heightToStatisticRunes.All fun height n => height < 2 ^ 32 ∧ n ≤ u64Max
  reservedRunes : s.heightToStatisticReservedRunes.All fun height n =>
    height < 2 ^ 32 ∧ n ≤ u64Max
  balances : s.outpointToRuneBalances.All fun o l =>
    OutPoint.load o.store = .ok o ∧ RuneBalances.fromBytes l.toBytes = .ok l
  entries : s.runeIdToRuneEntry.All fun id e =>
    id.Fits ∧ RuneEntry.fromBytes e.toBytes = .ok e ∧
      checkBound RuneEntry.maxSize e.toBytes = .ok ()
  names : s.runeToRuneId.All fun rune id => rune.Fits ∧ id.Fits
  etchings : s.transactionIdToRune.All fun txid rune =>
    Txid.load txid.store = .ok txid ∧ rune.Fits
  heights : s.outpointToHeight.All fun o height =>
    OutPoint.load o.store = .ok o ∧ height < 2 ^ 32
  records : s.heightToChangeRecord.All fun height r =>
    height < 2 ^ 32 ∧ ∀ order, ChangeRecord.fromBytes (r.toBytes order) = .ok r

/-- In every state that a run reaches. -/
theorem Run.survives (hlib : lib.Lawful) (htyped : lib.Typed) (hres : ReservedNames lib)
    {chain : List BlockData} {s : Store}
    (h : Run lib network node (ChainFits lib network) chain s) : s.Survives := by
  have hsound : ∀ chain, ChainFits lib network chain → Scope.all.Sound lib chain :=
    ChainFits.sound hres
  obtain ⟨lo, fs, rfl, hJ⟩ := h.journaled hsound
  obtain ⟨haccounted, hruns, hframes⟩ := Replays.fits hlib htyped hJ.replay
  have hbelow := hJ.replay.below hsound
  rw [← hJ.now.eq] at haccounted hruns hbelow
  have hfits : s.ledger.Fits s.ledger.runes := { haccounted.fits with runes := Nat.le_refl _ }
  have hlists := hfits.listsFit hruns haccounted.flow haccounted.bounded
  have hfirst := hJ.window.first_le
  -- a height with a header, a record or a row is that of a held block
  have hchain : ∀ k, lo ≤ k → k < lib.firstRuneHeight network + (items fs).length →
      ChainFits lib network (items fs) := by
    intro k hlo hk
    cases hJ.replay with
    | nil =>
      rw [items_nil, List.length_nil] at hk
      omega
    | cons _ top =>
      rw [items_cons]
      exact top.admitted
  have hheld : ∀ k, lo ≤ k → k < lib.firstRuneHeight network + (items fs).length →
      k < 2 ^ 32 ∧ ∃ f, FrameFits f ∧
        s.heightToChangeRecord.get? k = some f.record ∧
        s.heightToStatisticRunes.get? k = some f.after.runes ∧
        s.heightToStatisticReservedRunes.get? k = some f.after.reservedRunes := by
    intro k hlo hk
    have hheights := (hchain k hlo hk).heights
    obtain ⟨i, rfl⟩ : ∃ i, k = lib.firstRuneHeight network + i :=
      ⟨k - lib.firstRuneHeight network, by omega⟩
    have hi : i < fs.reverse.length := by
      rw [length_items] at hk
      rw [List.length_reverse]
      omega
    have hget := List.getElem?_eq_getElem hi
    exact ⟨by omega, _, hframes _ (List.mem_reverse.mp (List.getElem_mem hi)),
      hJ.log i _ hget hlo⟩
  constructor
  · intro k header hget
    obtain ⟨hlo, hk⟩ := (hJ.window.mem_headers k).mp (FinMap.mem_keys_of_get? hget)
    rw [hJ.window.headers, if_pos hlo] at hget
    obtain ⟨b, hb, rfl⟩ := Option.map_eq_some_iff.mp hget
    have hblock := (hchain k hlo hk).blocks b (List.mem_of_getElem? hb)
    exact ⟨(hheld k hlo hk).1, Header.load_store hblock.header⟩
  · intro k n hget
    obtain ⟨hlo, hk⟩ := (hJ.window.runeRows k).mp (FinMap.mem_keys_of_get? hget)
    obtain ⟨hlt, f, hf, -, hrow, -⟩ := hheld k hlo hk
    rw [hrow] at hget
    cases hget
    exact ⟨hlt, hf.2.1⟩
  · intro k n hget
    obtain ⟨hlo, hk⟩ := (hJ.window.reservedRows k).mp (FinMap.mem_keys_of_get? hget)
    obtain ⟨hlt, f, hf, -, -, hrow⟩ := hheld k hlo hk
    rw [hrow] at hget
    cases hget
    exact ⟨hlt, hf.2.2⟩
  · intro o l hget
    have hl : s.ledger.balances.get? o = some (Multiset.ofList l) := by
      rw [Store.ledger_balances_get?, hget]
      rfl
    exact ⟨OutPoint.load_store (hfits.outpoints o _ hl).1,
      RuneBalances.fromBytes_toBytes (hlists o l hl)⟩
  · intro id e hget
    obtain ⟨hid, he⟩ := hfits.entries id e hget
    have hread := RuneEntry.fromBytes_toBytes he
    rw [(hbelow.entries id e hget).2] at hread
    exact ⟨hid, hread, (RuneEntry.toBytes_bound.1 e he).2⟩
  · exact hfits.names
  · intro txid rune hget
    exact ⟨Txid.load_store txid, hfits.etchings txid rune hget⟩
  · intro o height hget
    obtain ⟨ho, hheight⟩ := hfits.heights o height hget
    exact ⟨OutPoint.load_store ho, hheight⟩
  · intro k r hget
    obtain ⟨hlo, hk⟩ := (hJ.window.records k).mp (FinMap.mem_keys_of_get? hget)
    obtain ⟨hlt, f, hf, hrecord, -⟩ := hheld k hlo hk
    rw [hrecord] at hget
    cases hget
    exact ⟨hlt, fun order => ChangeRecord.fromBytes_toBytes order hf.1⟩

end runs

/-! ### The sample chain -/

theorem etchingFits_terms {premine : Option Nat} {terms : Option Terms} {rune : Option Rune}
    (hpremine : ∀ n, premine = some n → n < u128Bound) (hterms : ∀ t, terms = some t → t.Fits) :
    RuneEntry.EtchingFits ⟨none, premine, rune, none, none, terms, false⟩ :=
  ⟨nofun, hpremine, nofun, hterms⟩

theorem artifactOf_typed {n : Nat} {bytes : List UInt8} {artifact : Artifact}
    (h : Sample.artifactOf n bytes = some artifact) :
    (∀ r etching, artifact = .runestone r → r.etching = some etching →
      RuneEntry.EtchingFits etching) ∧
    ∀ rune, etchingOf artifact = some (some rune) → rune.Fits := by
  have hterms : Sample.terms.Fits :=
    ⟨by simp [Sample.terms, u128Bound], by simp [Sample.terms, u128Bound],
      by simp [Sample.terms], by simp [Sample.terms]⟩
  unfold Sample.artifactOf at h
  constructor
  · intro r etching hr he
    subst hr
    split at h <;> cases h <;> cases he
    · refine etchingFits_terms (fun n hn => ?_) (fun t ht => ?_)
      · cases hn
        decide
      · cases ht
        exact hterms
    · refine etchingFits_terms (fun n hn => ?_) (fun t ht => ?_)
      · cases hn
      · cases ht
  · intro rune hname
    split at h <;> cases h <;> simp [etchingOf] at hname
    subst hname
    -- a byte above the first name of thirteen letters
    show Sample.steps 12 + UInt8.toNat _ < u128Bound
    have hbyte := UInt8.toNat_lt ‹UInt8›
    have hsteps : Sample.steps 12 + 2 ^ 8 < u128Bound := by decide
    omega

theorem typed_sample : Sample.crates.Typed := by
  have hartifact : ∀ tx artifact, Sample.crates.decipher tx = some artifact →
      ∃ n bytes, Sample.artifactOf n bytes = some artifact := by
    intro tx artifact h
    simp only [Sample.crates, Sample.decipher] at h
    split at h
    · exact ⟨_, _, h⟩
    · cases h
  constructor
  · intro tx r etching h he
    obtain ⟨n, bytes, hbytes⟩ := hartifact tx _ h
    exact (artifactOf_typed hbytes).1 r etching rfl he
  · intro tx artifact rune h hname
    obtain ⟨n, bytes, hbytes⟩ := hartifact tx _ h
    exact (artifactOf_typed hbytes).2 rune hname
  · intro height i hheight hi
    show Sample.reservedBase + height * 2 ^ 32 + i < 2 ^ 128
    unfold Sample.reservedBase
    unfold usizeBound at hi
    omega

theorem chainFits_sample : ∀ n, ChainFits Sample.crates .regtest (Sample.chain.take (n + 1)) := by
  have hblocks : ∀ b ∈ Sample.chain, b.Fits := by
    intro b hb
    simp only [Sample.chain, List.mem_cons, List.not_mem_nil, or_false] at hb
    rcases hb with rfl | rfl
    · exact ⟨⟨by decide, by decide, by decide, by decide⟩, by decide, by decide⟩
    · exact ⟨⟨by decide, by decide, by decide, by decide⟩, by decide, by decide⟩
  intro n
  refine ⟨distinctTxids_sample n, fun b hb => hblocks b (List.mem_of_mem_take hb), ?_, ?_⟩
  · cases n with
    | zero => decide
    | succ n =>
      rw [List.take_of_length_le (by simp [Sample.chain])]
      decide
  · cases n with
    | zero => decide
    | succ n =>
      rw [List.take_of_length_le (by simp [Sample.chain])]
      decide

theorem Run.survives_sample :
    ∃ s, Run Sample.crates .regtest (fun _ => Answers.any) (ChainFits Sample.crates .regtest)
        Sample.chain s ∧
      ∃ l, s.outpointToRuneBalances.get? ⟨2, 1⟩ = some l ∧
        RuneBalances.fromBytes l.toBytes = .ok l := by
  obtain ⟨s, hrun, hP⟩ := sample_exec (ChainFits Sample.crates .regtest) chainFits_sample
    (P := fun s => (s.outpointToRuneBalances.get? ⟨2, 1⟩).isSome) (by decide)
  obtain ⟨l, hl⟩ := Option.isSome_iff_exists.mp hP
  have hsurvives := Run.survives lawful_sample typed_sample reservedNames_sample hrun
  exact ⟨s, hrun, l, hl, (hsurvives.balances _ l hl).2⟩

end RunesIndexer
