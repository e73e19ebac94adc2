import RunesIndexer.Spec.Conservation

/-! # Bounds on supply

    What the crates promise about an artifact bounds the supply of the rune it
    etches, so everything issued of a rune fits into a `u128`, and a count of mints
    stays below the cap. With conservation this bounds every amount in play.
-/

namespace RunesIndexer

open Resumption MonadicFold RuneUpdater

/-! ### Lawful artifacts -/

/-- `terms.cap` or zero. -/
def Etching.mintCap (e : Etching) : Nat := (e.terms.bind (·.cap)).getD 0

/-- `terms.amount` or zero. -/
def Etching.mintAmount (e : Etching) : Nat := (e.terms.bind (·.amount)).getD 0

/-- What `Runestone::decipher` guarantees of a runestone: the cap is a `u128`, so is the
    whole supply, and edicts and pointer stay within the outputs. -/
structure Crates.Lawful (lib : Crates) : Prop where
  cap : ∀ tx r etching, lib.decipher tx = some (.runestone r) → r.etching = some etching →
    etching.mintCap < u128Bound
  supply : ∀ tx r etching, lib.decipher tx = some (.runestone r) → r.etching = some etching →
    etching.premine.getD 0 + etching.mintCap * etching.mintAmount < u128Bound
  edicts : ∀ tx r, lib.decipher tx = some (.runestone r) → ∀ edict ∈ r.edicts,
    edict.output ≤ tx.output.length
  pointer : ∀ tx r p, lib.decipher tx = some (.runestone r) → r.pointer = some p →
    p < tx.output.length

theorem artifactOf_lawful {n : Nat} {bytes : List UInt8} {r : Runestone}
    (h : Sample.artifactOf n bytes = some (.runestone r)) :
    (∀ etching, r.etching = some etching → etching.mintCap < u128Bound ∧
      etching.premine.getD 0 + etching.mintCap * etching.mintAmount < u128Bound) ∧
    (∀ edict ∈ r.edicts, edict.output ≤ n) ∧ ∀ p, r.pointer = some p → 0 < n → p < n := by
  unfold Sample.artifactOf at h
  split at h <;> cases h
  all_goals refine ⟨fun etching he => ?_, fun edict hedict => ?_, fun p hp hn => ?_⟩
  · cases he
    decide
  · cases hedict
  · cases hp
  · cases he
  · cases hedict
  · cases hp
  · cases he
    simp [Etching.mintCap, u128Bound]
  · cases hedict
  · cases hp
  · cases he
  · rw [List.mem_singleton.mp hedict]
  · cases hp
  · cases he
  · rw [List.mem_singleton.mp hedict]
    exact Nat.sub_le n 2
  · cases hp
    exact Nat.sub_lt hn Nat.one_pos

theorem lawful_sample : Sample.crates.Lawful := by
  have hstone : ∀ tx r, Sample.crates.decipher tx = some (.runestone r) →
      0 < tx.output.length ∧
        ∃ bytes, Sample.artifactOf tx.output.length bytes = some (.runestone r) := by
    intro tx r h
    simp only [Sample.crates, Sample.decipher] at h
    split at h
    · next houtput => exact ⟨houtput ▸ Nat.succ_pos _, _, h⟩
    · cases h
  refine ⟨fun tx r etching h he => ?_, fun tx r etching h he => ?_, fun tx r h => ?_,
    fun tx r p h hp => ?_⟩
  all_goals obtain ⟨hpos, bytes, hbytes⟩ := hstone tx r h
  · exact ((artifactOf_lawful hbytes).1 etching he).1
  · exact ((artifactOf_lawful hbytes).1 etching he).2
  · exact (artifactOf_lawful hbytes).2.1
  · exact (artifactOf_lawful hbytes).2.2 p hp hpos

/-! ### Bounded entries -/

/-- The mints are within the cap, and the whole supply fits into a `u128`. -/
structure RuneEntry.Bounded (e : RuneEntry) : Prop where
  mints : e.mints ≤ e.mintCap
  cap : e.mintCap < u128Bound
  supply : e.premine + e.mintCap * e.mintAmount < u128Bound

namespace RuneEntry.Bounded

variable {e : RuneEntry}

/-- What is issued is at most the whole supply. -/
theorem issued_le (h : e.Bounded) :
    e.premine + e.mints * e.mintAmount ≤ e.premine + e.mintCap * e.mintAmount :=
  Nat.add_le_add_left (Nat.mul_le_mul_right _ h.mints) _

theorem reload (h : e.Bounded) : e.reload.Bounded := ⟨h.mints, h.cap, h.supply⟩

theorem burn (h : e.Bounded) (n : Nat) : ({ e with burned := n } : RuneEntry).Bounded :=
  ⟨h.mints, h.cap, h.supply⟩

/-- An accepted mint stays within the cap. -/
theorem mint (h : e.Bounded) {height n : Nat} (hm : e.mintable height = .ok n) :
    ({ e with mints := e.mints + 1 } : RuneEntry).Bounded :=
  ⟨(RuneEntry.mintable_eq_ok.mp hm).2.2.1, h.cap, h.supply⟩

/-- The computed supplies do not wrap. -/
theorem supply_eq (h : e.Bounded) : e.supply = e.premine + e.mints * e.mintAmount := by
  have := h.issued_le
  have := h.supply
  unfold RuneEntry.supply
  rw [Nat.mod_eq_of_lt (by omega : e.mints * e.mintAmount < u128Bound),
    Nat.mod_eq_of_lt (by omega)]

theorem maxSupply_eq (h : e.Bounded) : e.maxSupply = e.premine + e.mintCap * e.mintAmount := by
  have := h.supply
  unfold RuneEntry.maxSupply
  rw [Nat.mod_eq_of_lt (by omega : e.mintCap * e.mintAmount < u128Bound), Nat.mod_eq_of_lt h.supply]

end RuneEntry.Bounded

/-- The entry of an accepted etching. -/
theorem newRuneEntry_bounded {lib : Crates} (hlib : lib.Lawful) {u : RuneUpdater}
    {tx : Transaction} {txid : Txid} {artifact : Artifact} {id : RuneId} {rune : Rune}
    {entry : RuneEntry} (hdec : lib.decipher tx = some artifact)
    (h : newRuneEntry u txid artifact id rune = .ok entry) : entry.Bounded := by
  unfold newRuneEntry at h
  cases artifact with
  | cenotaph c =>
    cases h
    exact ⟨le_refl 0, Nat.two_pow_pos 128, by simp [RuneEntry.mintCap, u128Bound]⟩
  | runestone r =>
    obtain ⟨etching, hetching, h⟩ := except_bind_eq_ok.mp h
    rw [unwrap_eq_ok] at hetching
    cases h
    exact ⟨Nat.zero_le _, hlib.cap tx r etching hdec hetching,
      hlib.supply tx r etching hdec hetching⟩

/-! ### Bounded ledgers -/

/-- Every entry is bounded. -/
def Ledger.Bounded (L : Ledger) : Prop := ∀ id e, L.entries.get? id = some e → e.Bounded

/-- An outpoint with balances has a height. -/
def Ledger.Paired (L : Ledger) : Prop :=
  ∀ o, (L.balances.get? o).isSome → (L.heights.get? o).isSome

namespace Ledger.Bounded

variable {lib : Crates} {L L' : Ledger} {t t' : LotMap} {u u' : RuneUpdater} {tx : Transaction}
  {txid : Txid}

theorem congr (h : L.Bounded) (hentries : L'.entries = L.entries) : L'.Bounded := by
  intro id e he
  rw [hentries] at he
  exact h id e he

theorem insert (h : L.Bounded) {id : RuneId} {e : RuneEntry} (he : e.Bounded)
    (hentries : L'.entries = L.entries.insert id e) : L'.Bounded := by
  intro id' e' he'
  rw [hentries, FinMap.get?_insert] at he'
  split at he'
  · cases he'
    exact he
  · exact h id' e' he'

/-- Everything issued of a rune fits into a `u128`. -/
theorem issued_lt (h : L.Bounded) (id : RuneId) : L.issued id < u128Bound := by
  cases he : L.entries.get? id with
  | none =>
    unfold Ledger.issued
    rw [he]
    exact Nat.two_pow_pos 128
  | some e =>
    rw [issued_of_get? he]
    exact (h id e he).issued_le.trans_lt (h id e he).supply

theorem spend {o : OutPoint} (h : L.Bounded) (hstep : Spend o (L, t, u) (L', t', u')) :
    L'.Bounded :=
  h.congr hstep.frame.1

theorem mint (h : L.Bounded) (hstep : Mint lib tx (L, t, u) (L', t', u')) : L'.Bounded := by
  cases hstep with
  | absent _ => exact h
  | refused _ _ _ => exact h
  | minted _ _ he hm _ => exact h.insert ((h _ _ he).mint hm).reload rfl

theorem etch (h : L.Bounded) (hlib : lib.Lawful) {txIndex : Nat} {a : List LotMap}
    (hstep : Etch lib txIndex tx txid (L, t, u) a (L', t', u')) : L'.Bounded := by
  cases hstep with
  | plain _ => exact h
  | unetched _ _ => exact h
  | etched hdec _ _ hentry => exact h.insert (newRuneEntry_bounded hlib hdec hentry).reload rfl

theorem output (h : L.Bounded) {m : LotMap × Nat}
    (hstep : Output lib tx txid m (L, t, u) (L', t', u')) : L'.Bounded :=
  h.congr hstep.frame.1

theorem burn (h : L.Bounded) {id : RuneId} {e : RuneEntry} (he : L.entries.get? id = some e)
    (n : Nat) :
    ({ L with entries := L.entries.insert id { e with burned := n }.reload } : Ledger).Bounded :=
  h.insert ((h id e he).burn n).reload rfl

theorem indexRunes (h : L.Bounded) (hlib : lib.Lawful) {i : Nat}
    (hstep : TxPhases lib i tx txid L u L' u') : L'.Bounded :=
  hstep.invariant (P := fun L _ => L.Bounded) (M := fun L _ => L.Bounded)
    (Q := fun L _ => L.Bounded)
    (fun _ _ _ _ _ _ _ _ h hstep => h.spend hstep) (fun _ _ _ _ _ _ h hstep => h.mint hstep)
    (fun _ _ _ _ _ _ _ h hstep => h.etch hlib hstep)
    (fun _ _ _ _ _ _ _ h hstep => h.output hstep) (fun _ _ _ h => h) h

end Ledger.Bounded

namespace Ledger.Paired

variable {lib : Crates} {L L' : Ledger} {t t' : LotMap} {u u' : RuneUpdater} {tx : Transaction}
  {txid : Txid}

theorem congr (h : L.Paired) (hbalances : L'.balances = L.balances)
    (hheights : L'.heights = L.heights) : L'.Paired := by
  intro o ho
  rw [hbalances] at ho
  rw [hheights]
  exact h o ho

theorem spend {o : OutPoint} (h : L.Paired) (hstep : Spend o (L, t, u) (L', t', u')) :
    L'.Paired := by
  cases hstep with
  | absent _ => exact h
  | removed _ _ _ =>
    intro o' ho'
    dsimp only at ho' ⊢
    rw [FinMap.get?_erase] at ho' ⊢
    split at ho'
    · cases ho'
    · next hne =>
      rw [if_neg hne]
      exact h o' ho'

theorem output (h : L.Paired) {m : LotMap × Nat}
    (hstep : Output lib tx txid m (L, t, u) (L', t', u')) : L'.Paired := by
  cases hstep with
  | nothing _ => exact h
  | burns _ _ _ => exact h
  | created _ _ _ =>
    intro o ho
    dsimp only at ho ⊢
    rw [FinMap.get?_insert] at ho ⊢
    split
    · rfl
    · next hne =>
      rw [if_neg hne] at ho
      exact h o ho

theorem indexRunes (h : L.Paired) {i : Nat} (hstep : TxPhases lib i tx txid L u L' u') :
    L'.Paired :=
  hstep.invariant (P := fun L _ => L.Paired) (M := fun L _ => L.Paired) (Q := fun L _ => L.Paired)
    (fun _ _ _ _ _ _ _ _ h hstep => h.spend hstep)
    (fun _ _ _ _ _ _ h hstep => h.congr hstep.frame.1.1 hstep.frame.1.2)
    (fun _ _ _ _ _ _ _ h hstep => h.congr hstep.frame.1.1 hstep.frame.1.2)
    (fun _ _ _ _ _ _ _ h hstep => h.output hstep) (fun _ _ _ h => h) h

end Ledger.Paired

/-! ### Runs -/

section runs

variable {lib : Crates} {network : BitcoinNetwork} {node : Node} {chain : List BlockData}
  {s : Store}

theorem Run.bounded {admits : List BlockData → Prop} (hlib : lib.Lawful)
    (h : Run lib network node admits chain s) : s.ledger.Bounded := by
  refine h.invariant (p := .entries) (P := fun _ L => L.Bounded) (fun _ _ => ⟨nofun, nofun⟩) ?_ ?_ ?_
  · exact fun _ L L' hagrees hP => hP.congr hagrees.entries.symm
  · intro id e he
    simp [Ledger.empty] at he
  · intro chain b ord s s' _ hrows hP hrun
    exact indexBlock_invariant (P := fun _ L _ => L.Bounded) hrows hP
      (fun _ _ _ _ _ _ _ _ _ hP hstep => hP.indexRunes hlib hstep) (fun _ _ hP => hP)
      (fun _ _ _ n hP he => hP.burn he n) hrun

theorem Run.paired (h : Run lib network node DistinctTxids chain s) : s.ledger.Paired := by
  refine h.invariant (p := .amounts) (P := fun _ L => L.Paired) (fun _ hd => ⟨fun _ => hd, nofun⟩)
    ?_ ?_ ?_
  · exact fun _ L L' hagrees hP =>
      hP.congr (hagrees.outpoints rfl).1.symm (hagrees.outpoints rfl).2.symm
  · intro o ho
    simp [Ledger.empty] at ho
  · intro chain b ord s s' _ hrows hP hrun
    exact indexBlock_invariant (P := fun _ L _ => L.Paired) hrows hP
      (fun _ _ _ _ _ _ _ _ _ hP hstep => hP.indexRunes hstep) (fun _ _ hP => hP)
      (fun _ _ _ _ hP _ => hP.congr rfl rfl) hrun

end runs

end RunesIndexer
