import RunesIndexer.Spec.Mints

/-! # Conservation of supply

    What was issued of a rune, its premine and its mints, is what was burned of it
    and what the outpoints hold. Inside a block the equation has two more places
    for units to be: the local maps of the transaction and the burned totals that
    are flushed at the end.
-/

namespace RunesIndexer

open Resumption MonadicFold RuneUpdater

/-! ### The sums -/

/-- What a balance list holds of a rune. -/
def heldIn (B : Multiset RuneBalance) (id : RuneId) : Nat :=
  (B.map fun b => if b.runeId = id then b.balance else 0).sum

namespace Ledger

/-- What all outpoints hold of a rune. -/
def held (L : Ledger) (id : RuneId) : Nat := L.balances.total fun _ B => heldIn B id

/-- Premine and mints of a rune. -/
def issued (L : Ledger) (id : RuneId) : Nat :=
  (L.entries.get? id).elim 0 fun e => e.premine + e.mints * e.mintAmount

/-- What the entry of a rune counts as burned. -/
def burned (L : Ledger) (id : RuneId) : Nat := (L.entries.get? id).elim 0 (·.burned)

/-- Does the rune have an entry? -/
def Known (L : Ledger) (id : RuneId) : Prop := (L.entries.get? id).isSome

/-- Every balance is of a rune with an entry. -/
def BalancesKnown (L : Ledger) : Prop :=
  ∀ o B, L.balances.get? o = some B → ∀ b ∈ B, L.Known b.runeId

end Ledger

theorem heldIn_ofList (l : RuneBalances) (id : RuneId) :
    heldIn (Multiset.ofList l) id = sumAt (l.map fun b => (b.runeId, b.balance)) id := by
  unfold heldIn sumAt
  rw [List.map_map]
  rfl

theorem heldIn_iter (ord : HashOrder) (site : IterSite) (m : LotMap) (id : RuneId) :
    heldIn (Multiset.ofList ((ord.iter site m).map fun e => ⟨e.1, e.2⟩)) id = m.amount id := by
  rw [heldIn_ofList, List.map_map, ← sumAt_iter ord site m id]
  exact congrArg (sumAt · id) (List.map_id _)

/-- Taking the balances of an outpoint adds each to the map. -/
theorem takeBalances_eq_addAll (l : RuneBalances) (t : LotMap) :
    l.foldlM (fun m b => LotMap.addTo m b.runeId b.balance) t =
      addAll t (l.map fun b => (b.runeId, b.balance)) := by
  unfold addAll
  rw [List.foldlM_map]

/-! ### Writes of entries -/

section entries

variable {L : Ledger} {id : RuneId} {e e' : RuneEntry}

theorem issued_insert (L : Ledger) (id : RuneId) (e : RuneEntry) (id' : RuneId) :
    ({ L with entries := L.entries.insert id e } : Ledger).issued id' =
      if id' = id then e.premine + e.mints * e.mintAmount else L.issued id' := by
  unfold Ledger.issued
  dsimp only
  rw [FinMap.get?_insert]
  split <;> rfl

theorem burned_insert (L : Ledger) (id : RuneId) (e : RuneEntry) (id' : RuneId) :
    ({ L with entries := L.entries.insert id e } : Ledger).burned id' =
      if id' = id then e.burned else L.burned id' := by
  unfold Ledger.burned
  dsimp only
  rw [FinMap.get?_insert]
  split <;> rfl

theorem issued_of_get? (h : L.entries.get? id = some e) :
    L.issued id = e.premine + e.mints * e.mintAmount := by
  unfold Ledger.issued
  rw [h]
  rfl

theorem burned_of_get? (h : L.entries.get? id = some e) : L.burned id = e.burned := by
  unfold Ledger.burned
  rw [h]
  rfl

theorem known_insert {L' : Ledger} (hL' : L'.entries = L.entries.insert id e) {id' : RuneId}
    (h : L.Known id') : L'.Known id' := by
  unfold Ledger.Known
  rw [hL', FinMap.get?_insert]
  split
  · rfl
  · exact h

/-- Writing an entry back makes no rune known or unknown. -/
theorem known_insert_iff (he : L.entries.get? id = some e) (id' : RuneId) :
    ({ L with entries := L.entries.insert id e' } : Ledger).Known id' ↔ L.Known id' := by
  refine ⟨fun hk => ?_, known_insert rfl⟩
  unfold Ledger.Known at hk ⊢
  dsimp only at hk
  rw [FinMap.get?_insert] at hk
  split at hk
  · next heq => rw [heq, he]; rfl
  · exact hk

end entries

/-! ### What the phases leave alone -/

section frame

variable {lib : Crates} {tx : Transaction} {txid : Txid} {L L' : Ledger} {t t' : LotMap}
  {u u' : RuneUpdater}

theorem Spend.frame {o : OutPoint} (h : Spend o (L, t, u) (L', t', u')) :
    L'.entries = L.entries ∧ u'.height = u.height ∧ u'.burned = u.burned ∧
      ∀ o', L.balances.get? o' = none → L'.balances.get? o' = none := by
  cases h with
  | absent _ => exact ⟨rfl, rfl, rfl, fun _ ho' => ho'⟩
  | removed _ _ _ =>
    refine ⟨rfl, rfl, rfl, fun o' ho' => ?_⟩
    dsimp only
    rw [FinMap.get?_erase]
    split
    · rfl
    · exact ho'

theorem Mint.frame (h : Mint lib tx (L, t, u) (L', t', u')) :
    (L'.balances = L.balances ∧ L'.heights = L.heights) ∧ u'.height = u.height ∧
      u'.burned = u.burned ∧ ∀ id, L'.Known id ↔ L.Known id := by
  cases h with
  | absent _ => exact ⟨⟨rfl, rfl⟩, rfl, rfl, fun _ => Iff.rfl⟩
  | refused _ _ _ => exact ⟨⟨rfl, rfl⟩, rfl, rfl, fun _ => Iff.rfl⟩
  | minted _ _ he _ _ => exact ⟨⟨rfl, rfl⟩, rfl, rfl, known_insert_iff he⟩

theorem Etch.frame {txIndex : Nat} {a : List LotMap}
    (h : Etch lib txIndex tx txid (L, t, u) a (L', t', u')) :
    (L'.balances = L.balances ∧ L'.heights = L.heights) ∧ u'.height = u.height ∧
      u'.burned = u.burned ∧ (∀ id, L.Known id → L'.Known id) ∧
      ∀ id, L'.Known id → L.Known id ∨ id = ⟨u.height, txIndex⟩ := by
  cases h with
  | plain _ => exact ⟨⟨rfl, rfl⟩, rfl, rfl, fun _ => id, fun _ => .inl⟩
  | unetched _ _ => exact ⟨⟨rfl, rfl⟩, rfl, rfl, fun _ => id, fun _ => .inl⟩
  | etched _ _ _ _ =>
    refine ⟨⟨rfl, rfl⟩, rfl, rfl, fun _ => known_insert rfl, fun id hid => ?_⟩
    unfold Ledger.Known at hid
    dsimp only at hid
    rw [FinMap.get?_insert] at hid
    split at hid
    · next heq => exact .inr heq
    · exact .inl hid

theorem Output.frame {m : LotMap} {vout : Nat}
    (h : Output lib tx txid (m, vout) (L, t, u) (L', t', u')) :
    L'.entries = L.entries ∧ u'.height = u.height ∧ u'.burned = u.burned ∧
      ∀ o, o ≠ ⟨txid, vout⟩ → L'.balances.get? o = L.balances.get? o := by
  cases h with
  | nothing _ => exact ⟨rfl, rfl, rfl, fun _ _ => rfl⟩
  | burns _ _ _ => exact ⟨rfl, rfl, rfl, fun _ _ => rfl⟩
  | created _ _ _ => exact ⟨rfl, rfl, rfl, fun o ho => FinMap.get?_insert_ne _ _ ho⟩

end frame

/-! ### One transaction -/

section transaction

variable {lib : Crates} {tx : Transaction} {txid : Txid} {L L' : Ledger} {t t' : LotMap}
  {u u' : RuneUpdater}

/-- The units of every rune are accounted for: those not in the ledger are in the map `t`
    or elsewhere, as `x` says. -/
structure InFlight (L : Ledger) (t : LotMap) (x : RuneId → Nat) : Prop where
  conserved : ∀ id, L.issued id = L.burned id + L.held id + (t.amount id + x id)
  balances : L.BalancesKnown
  keys : t.KeysIn L.Known

/-- While entries stay as they are, units only have to keep their number. -/
theorem InFlight.move {x x' : RuneId → Nat} (h : InFlight L t x) (hentries : L'.entries = L.entries)
    (hflow : ∀ id, L'.held id + (t'.amount id + x' id) = L.held id + (t.amount id + x id))
    (hbalances : ∀ o B, L'.balances.get? o = some B → ∀ b ∈ B, L.Known b.runeId)
    (hkeys : t'.KeysIn L.Known) : InFlight L' t' x' := by
  have hknown : L'.Known = L.Known := by
    unfold Ledger.Known
    rw [hentries]
  refine ⟨fun id => ?_, fun o B hB b hb => hknown ▸ hbalances o B hB b hb, hknown ▸ hkeys⟩
  have hissued : L'.issued id = L.issued id := by
    unfold Ledger.issued
    rw [hentries]
  have hburned : L'.burned id = L.burned id := by
    unfold Ledger.burned
    rw [hentries]
  have := h.conserved id
  have := hflow id
  omega

theorem InFlight.spend {x : RuneId → Nat} {o : OutPoint} (h : InFlight L t x)
    (hstep : Spend o (L, t, u) (L', t', u')) : InFlight L' t' x := by
  cases hstep with
  | absent _ => exact h
  | @removed _ _ _ _ l height hb hh ht =>
    rw [takeBalances_eq_addAll] at ht
    refine h.move rfl (fun id => ?_) (fun o' B hB => ?_) ?_
    · have hheld : (L.balances.erase o).total (fun _ B => heldIn B id) +
          heldIn (Multiset.ofList l) id = L.held id :=
        FinMap.total_erase (fun _ B => heldIn B id) hb
      rw [heldIn_ofList] at hheld
      have hadd := addAll_amount ht id
      show (L.balances.erase o).total _ + _ = _
      omega
    · dsimp only at hB
      rw [FinMap.get?_erase] at hB
      split at hB
      · cases hB
      · exact h.balances o' B hB
    · refine addAll_keysIn h.keys (fun e he => ?_) ht
      obtain ⟨b, hbl, rfl⟩ := List.mem_map.mp he
      exact h.balances o _ hb b (Multiset.mem_coe.mpr hbl)

theorem InFlight.mint {x : RuneId → Nat} (h : InFlight L t x)
    (hstep : Mint lib tx (L, t, u) (L', t', u')) : InFlight L' t' x := by
  have hknown := hstep.frame.2.2.2
  cases hstep with
  | absent _ => exact h
  | refused _ _ _ => exact h
  | @minted _ _ _ _ artifact id e amount hdec hmint he hm ht =>
    obtain ⟨-, -, -, hamount⟩ := RuneEntry.mintable_eq_ok.mp hm
    refine ⟨fun id' => ?_, fun o B hB b hbB => (hknown _).mpr (h.balances o B hB b hbB), ?_⟩
    · have hconserved := h.conserved id'
      have hadd := addTo_amount ht id'
      have hheld : ({ L with
          entries := L.entries.insert id { e with mints := e.mints + 1 }.reload } :
          Ledger).held id' = L.held id' := rfl
      -- one more mint is one more amount issued, the one that `t` takes in
      have hcount : ({ e with mints := e.mints + 1 }.reload : RuneEntry).premine +
          ({ e with mints := e.mints + 1 }.reload : RuneEntry).mints *
            ({ e with mints := e.mints + 1 }.reload : RuneEntry).mintAmount =
          e.premine + e.mints * e.mintAmount + e.mintAmount := by
        show e.premine + (e.mints + 1) * e.mintAmount = _
        rw [Nat.add_mul, Nat.one_mul, Nat.add_assoc]
      rw [issued_insert, burned_insert, hcount, hheld]
      by_cases hid : id' = id
      · subst hid
        rw [issued_of_get? he, burned_of_get? he] at hconserved
        simp only [if_true] at hadd ⊢
        show _ = e.burned + _ + _
        omega
      · rw [if_neg hid, if_neg hid]
        rw [if_neg (Ne.symm hid)] at hadd
        omega
    · have hkeys : LotMap.KeysIn L.Known t' :=
        h.keys.addTo (by unfold Ledger.Known; rw [he]; rfl) ht
      exact fun id' hid' => (hknown _).mpr (hkeys id' hid')

theorem InFlight.etch {x : RuneId → Nat} {txIndex : Nat} {a : List LotMap} (h : InFlight L t x)
    (hfree : L.entries.get? ⟨u.height, txIndex⟩ = none)
    (hstep : Etch lib txIndex tx txid (L, t, u) a (L', t', u')) :
    InFlight L' t' (fun id => allocatedTo a id + x id) ∧
      AllIn (fun id n => L'.Known id ∧ 0 < n) a := by
  have hmono := hstep.frame.2.2.2.1
  cases hstep with
  | plain _ =>
    refine ⟨⟨fun id => ?_, h.balances, h.keys⟩, allIn_replicate _ _⟩
    simpa using h.conserved id
  | unetched hdec hstone =>
    obtain ⟨htotal, -, hkeys⟩ := indexRunestone_total hstone
    obtain ⟨ht', ha⟩ := hkeys L.Known h.keys (by simp)
    refine ⟨⟨fun id => ?_, h.balances, ht'⟩, ha⟩
    have hconserved := h.conserved id
    have := htotal id
    simp only [Option.map_none, reduceCtorEq, if_false, Nat.add_zero] at this
    omega
  | @etched _ _ _ _ artifact rune reservedRunes entry _ hdec hname hstone hentry =>
    obtain ⟨htotal, -, hkeys⟩ := indexRunestone_total hstone
    have hnew := newRuneEntry_eq_ok hentry
    obtain ⟨ht', ha⟩ := hkeys _ (fun id hid => hmono id (h.keys id hid)) (by
      intro id hid
      simp only [Option.map_some, Option.mem_some_iff] at hid
      subst hid
      unfold Ledger.Known
      dsimp only
      rw [FinMap.get?_insert_self]
      rfl)
    refine ⟨⟨fun id => ?_, fun o B hB b hbB => hmono _ (h.balances o B hB b hbB), ht'⟩, ha⟩
    have hconserved := h.conserved id
    have ht := htotal id
    simp only [Option.map_some, Option.some.injEq] at ht
    have hissued := issued_insert L ⟨u.height, txIndex⟩ entry.reload id
    have hburned := burned_insert L ⟨u.height, txIndex⟩ entry.reload id
    -- the new rune starts with its premine, no mints and nothing burned
    have hpremine : entry.reload.premine + entry.reload.mints * entry.reload.mintAmount =
        premineOf artifact (some (⟨u.height, txIndex⟩, rune)) := by
      show entry.premine + entry.mints * entry.mintAmount = _
      rw [hnew.premine, hnew.mints, Nat.zero_mul, Nat.add_zero]
    have hzero : entry.reload.burned = 0 := hnew.burned
    rw [hpremine] at hissued
    rw [hzero] at hburned
    show ({ L with entries := L.entries.insert ⟨u.height, txIndex⟩ entry.reload } :
      Ledger).issued id = ({ L with
        entries := L.entries.insert ⟨u.height, txIndex⟩ entry.reload } : Ledger).burned id +
      L.held id + _
    rw [hissued, hburned]
    by_cases hid : id = ⟨u.height, txIndex⟩
    · subst hid
      simp only [if_true] at ht ⊢
      unfold Ledger.issued Ledger.burned at hconserved
      rw [hfree] at hconserved
      simp only [Option.elim_none] at hconserved
      omega
    · rw [if_neg (Ne.symm hid)] at ht
      rw [if_neg hid, if_neg hid]
      omega

/-- The default assignment moves units between the maps. -/
theorem InFlight.assign {x : RuneId → Nat} {artifact : Option Artifact} {a a' : List LotMap}
    {b : LotMap} {ord : HashOrder} {site : IterSite}
    (h : InFlight L t fun id => allocatedTo a id + x id)
    (ha : AllIn (fun id n => L.Known id ∧ 0 < n) a)
    (hassign : assignUnallocated lib tx artifact (ord.iter site t) a = .ok (a', b)) :
    InFlight L b (fun id => allocatedTo a' id + x id) ∧
      AllIn (fun id n => L.Known id ∧ 0 < n) a' := by
  obtain ⟨htotal, -, hkeys⟩ := assignUnallocated_total hassign
  obtain ⟨ha', hb⟩ := hkeys L.Known
    (fun e he => h.keys e.1 (by rw [mem_iter.mp he]; rfl)) ha
  refine ⟨h.move rfl (fun id => ?_) h.balances hb, ha'⟩
  have := htotal id
  rw [sumAt_iter] at this
  omega

theorem amount_of_size_eq_zero {m : LotMap} (h : m.size = 0) (id : RuneId) : m.amount id = 0 := by
  refine FinMap.amount_of_get?_eq_none ?_
  by_contra hne
  obtain ⟨n, hn⟩ := Option.ne_none_iff_exists'.mp hne
  have := FinMap.le_total (fun _ _ => 1) hn
  rw [← FinMap.size_eq_total] at this
  omega

/-- What one output got leaves the maps for the ledger or joins the burned units. -/
theorem InFlight.output {x : RuneId → Nat} {m : LotMap} {vout : Nat}
    (h : InFlight L t fun id => m.amount id + x id) (hm : m.KeysIn L.Known)
    (hfree : L.balances.get? ⟨txid, vout⟩ = none)
    (hstep : Output lib tx txid (m, vout) (L, t, u) (L', t', u')) :
    InFlight L' t' x := by
  cases hstep with
  | nothing hsize =>
    refine h.move rfl (fun id => ?_) h.balances h.keys
    rw [amount_of_size_eq_zero hsize id, Nat.zero_add]
  | burns hout hburns hadd =>
    refine h.move rfl (fun id => ?_) h.balances (addAll_keysIn h.keys (fun e he => ?_) hadd)
    · have := addAll_amount hadd id
      rw [sumAt_iter] at this
      omega
    · exact hm e.1 (by rw [mem_iter.mp he]; rfl)
  | @created _ _ _ _ _ txOut ord site hsize hout hburns =>
    refine h.move rfl (fun id => ?_) (fun o B hB b hbB => ?_) h.keys
    -- the outpoint is new, so what it holds comes on top of the rest
    · have hheld := FinMap.total_insert_of_get?_eq_none (fun _ B => heldIn B id)
        (v := Multiset.ofList ((ord.iter site m).map fun e => (⟨e.1, e.2⟩ : RuneBalance))) hfree
      rw [heldIn_iter] at hheld
      unfold Ledger.held
      dsimp only
      omega
    · dsimp only at hB
      rw [FinMap.get?_insert] at hB
      split at hB
      · cases hB
        obtain ⟨e, he, rfl⟩ := List.mem_map.mp (Multiset.mem_coe.mp hbB)
        exact hm e.1 (by rw [mem_iter.mp he]; rfl)
      · exact h.balances o B hB b hbB

/-- The loop over the outputs from number `n` on, none of which is in the ledger yet. -/
theorem InFlight.outputs {x : RuneId → Nat} {a : List LotMap} {n : Nat}
    (h : InFlight L t fun id => allocatedTo a id + x id)
    (ha : AllIn (fun id n => L.Known id ∧ 0 < n) a)
    (hfree : ∀ vout, n ≤ vout → L.balances.get? ⟨txid, vout⟩ = none)
    (hsteps : Steps (Output lib tx txid) (a.zipIdx n) (L, t, u) (L', t', u')) :
    InFlight L' t' x ∧ L'.entries = L.entries ∧ u'.burned = u.burned := by
  induction a generalizing n L t u with
  | nil =>
    cases hsteps
    exact ⟨h.move rfl (fun id => by simp [allocatedTo]) h.balances h.keys, rfl, rfl⟩
  | cons m a ih =>
    rw [List.zipIdx_cons] at hsteps
    cases hsteps with
    | @cons _ _ _ mid _ hstep hrest =>
      obtain ⟨L₁, t₁, u₁⟩ := mid
      have hm : m.KeysIn L.Known := by
        intro id hid
        obtain ⟨k, hk⟩ := Option.isSome_iff_exists.mp hid
        exact (ha m List.mem_cons_self id k hk).1
      -- the first output's lots apart from those of the outputs after it
      have hsplit : InFlight L t fun id => m.amount id + (allocatedTo a id + x id) := by
        refine h.move rfl (fun id => ?_) h.balances h.keys
        simp only [allocatedTo, List.map_cons, List.sum_cons]
        omega
      have h₁ := hsplit.output hm (hfree n (le_refl n)) hstep
      obtain ⟨hentries, -, hburned, hothers⟩ := hstep.frame
      obtain ⟨h', hentries', hburned'⟩ := ih h₁
        (fun m' hm' id k hk => by
          have := ha m' (List.mem_cons_of_mem _ hm') id k hk
          unfold Ledger.Known at this ⊢
          rwa [hentries])
        (fun vout hvout => by
          have hne : (⟨txid, vout⟩ : OutPoint) ≠ ⟨txid, n⟩ := by
            intro heq
            cases heq
            omega
          rw [hothers _ hne]
          exact hfree vout (by omega)) hrest
      exact ⟨h', hentries'.trans hentries, hburned'.trans hburned⟩

/-- A completed transaction up to its outputs: the maps they are written from hold
    positive amounts of known runes, and the units are accounted for. The burned units
    of the block wait meanwhile. -/
theorem TxPhases.allocated {txIndex : Nat} (h : InFlight L u.burned fun _ => 0)
    (hfree : L.entries.get? ⟨u.height, txIndex⟩ = none)
    (hnew : ∀ vout, L.balances.get? ⟨txid, vout⟩ = none)
    (hstep : TxPhases lib txIndex tx txid L u L' u') :
    ∃ spent minted etched a₁ a₂ burned burned' u₁ ord site allBurned,
      Steps (fun input : TxIn => Spend input.previousOutput) tx.input (L, ∅, u) spent ∧
      Mint lib tx spent minted ∧
      Etch lib txIndex tx txid minted a₁ etched ∧
      InFlight etched.1 burned (fun id => allocatedTo a₂ id + u.burned.amount id) ∧
      AllIn (fun id n => etched.1.Known id ∧ 0 < n) a₂ ∧
      (∀ id, L.Known id → etched.1.Known id) ∧ etched.2.2.burned = u.burned ∧
      etched.2.2.height = u.height ∧
      (∀ vout, etched.1.balances.get? ⟨txid, vout⟩ = none) ∧
      Steps (Output lib tx txid) a₂.zipIdx (etched.1, burned, etched.2.2) (L', burned', u₁) ∧
      addAll u₁.burned (HashOrder.iter ord site burned') = .ok allBurned ∧
      u' = { u₁ with burned := allBurned } := by
  obtain ⟨⟨L₁, t₁, u₁⟩, ⟨L₂, t₂, u₂⟩, ⟨L₃, t₃, u₃⟩, a₁, a₂, burned, burned', u₄, ord, ord', site,
    site', allBurned, hspend, hmint, hetch, hassign, houtput, hadd, rfl⟩ := hstep.phases
  -- what the block has burned so far waits beside the ledger until its end
  have h₀ : InFlight L ∅ u.burned.amount :=
    h.move rfl (fun id => by simp) h.balances (LotMap.keysIn_empty _)
  obtain ⟨h₁, hentries₁, hheight₁, hburned₁, hnew₁⟩ := hspend.invariant
    (P := fun x => InFlight x.1 x.2.1 u.burned.amount ∧ x.1.entries = L.entries ∧
      x.2.2.height = u.height ∧ x.2.2.burned = u.burned ∧
      ∀ vout, x.1.balances.get? ⟨txid, vout⟩ = none)
    (fun input _ x x' hP hstep => by
      obtain ⟨hflow, hentries, hheight, hburned, hnew⟩ := hP
      obtain ⟨hentries', hheight', hburned', hnone⟩ := hstep.frame
      exact ⟨hflow.spend hstep, hentries'.trans hentries, hheight'.trans hheight,
        hburned'.trans hburned, fun vout => hnone _ (hnew vout)⟩) ⟨h₀, rfl, rfl, rfl, hnew⟩
  dsimp only at h₁ hentries₁ hheight₁ hburned₁ hnew₁
  have hknown₁ : L₁.Known = L.Known := by
    unfold Ledger.Known
    rw [hentries₁]
  obtain ⟨⟨hbalances₂, -⟩, hheight₂, hburned₂, hknown₂⟩ := hmint.frame
  have h₂ := h₁.mint hmint
  have hfree₂ : L₂.entries.get? ⟨u₂.height, txIndex⟩ = none := by
    have hno : ¬ L₂.Known ⟨u₂.height, txIndex⟩ := by
      rw [hknown₂, hknown₁, hheight₂, hheight₁]
      simp [Ledger.Known, hfree]
    simpa [Ledger.Known] using hno
  obtain ⟨⟨hbalances₃, -⟩, hheight₃, hburned₃, hmono₃, -⟩ := hetch.frame
  obtain ⟨h₃, ha₃⟩ := h₂.etch hfree₂ hetch
  obtain ⟨h₄, ha₄⟩ := h₃.assign ha₃ hassign
  refine ⟨_, _, _, a₁, a₂, burned, burned', u₄, ord', site', allBurned, hspend, hmint, hetch, h₄,
    ha₄, fun id hid => hmono₃ id ((hknown₂ id).mpr (hknown₁ ▸ hid)), ?_, ?_, fun vout => ?_,
    houtput, hadd, rfl⟩
  · rw [hburned₃, hburned₂, hburned₁]
  · rw [hheight₃, hheight₂, hheight₁]
  · dsimp only
    rw [hbalances₃, hbalances₂, hnew₁]

/-- A completed transaction, whose outputs and whose rune are new to the ledger. -/
theorem InFlight.indexRunes {txIndex : Nat} (h : InFlight L u.burned fun _ => 0)
    (hfree : L.entries.get? ⟨u.height, txIndex⟩ = none)
    (hnew : ∀ vout, L.balances.get? ⟨txid, vout⟩ = none)
    (hstep : TxPhases lib txIndex tx txid L u L' u') : InFlight L' u'.burned fun _ => 0 := by
  obtain ⟨_, _, ⟨L₃, t₃, u₃⟩, a₁, a₂, burned, burned', u₄, ord, site, allBurned, -, -, -, hflow, ha,
    hmono, hburned₃, -, hnew₃, houtput, hadd, rfl⟩ := hstep.allocated h hfree hnew
  obtain ⟨h', hentries, hburned⟩ := hflow.outputs (n := 0) ha (fun vout _ => hnew₃ vout) houtput
  rw [hburned, hburned₃] at hadd
  refine h'.move rfl (fun id => ?_) h'.balances (addAll_keysIn (fun id hid => ?_) ?_ hadd)
  · have := addAll_amount hadd id
    rw [sumAt_iter] at this
    dsimp only
    omega
  · have hk := hmono id (h.keys id hid)
    unfold Ledger.Known at hk ⊢
    rwa [hentries]
  · exact fun e he => h'.keys e.1 (by rw [mem_iter.mp he]; rfl)

/-! ### The flush -/

theorem InFlight.burn {x : RuneId → Nat} {id : RuneId} {e : RuneEntry} {n : Nat}
    (h : InFlight L ∅ fun id' => (if id = id' then n else 0) + x id')
    (he : L.entries.get? id = some e) :
    InFlight { L with entries := L.entries.insert id { e with burned := e.burned + n }.reload }
      ∅ x := by
  refine ⟨fun id' => ?_, fun o B hB b hbB => (known_insert_iff he _).mpr (h.balances o B hB b hbB),
    LotMap.keysIn_empty _⟩
  have hconserved := h.conserved id'
  rw [issued_insert, burned_insert]
  by_cases hid : id' = id
  · subst hid
    rw [issued_of_get? he, burned_of_get? he] at hconserved
    simp only [if_true] at hconserved ⊢
    show e.premine + e.mints * e.mintAmount = e.burned + n + L.held id' + _
    omega
  · rw [if_neg (Ne.symm hid)] at hconserved
    rw [if_neg hid, if_neg hid]
    show _ = _ + L.held id' + _
    omega

theorem InFlight.flush {l : List (RuneId × Nat)} {s s' : Store} {record record' : ChangeRecord}
    (h : InFlight s.ledger ∅ (sumAt l))
    (hrun : (l.foldlM updateBurned record).run s = .ok s' record') :
    InFlight s'.ledger ∅ fun _ => 0 := by
  induction l generalizing s record with
  | nil =>
    obtain ⟨rfl, -⟩ := sync_foldlM_nil.mp hrun
    exact h
  | cons e l ih =>
    obtain ⟨s₁, record₁, hstep, hrest⟩ := sync_foldlM_cons.mp hrun
    obtain ⟨entry, hentry, -, rfl, -⟩ := updateBurned_eq_ok.mp hstep
    refine ih (InFlight.burn (L := s.ledger) (x := sumAt l) ?_ hentry) hrest
    exact h.move rfl (fun id => by rw [sumAt_cons]) h.balances h.keys

end transaction

/-! ### Where entries and outpoints come from -/

/-- Entries and outpoints belong to transactions in `done`. -/
structure Placed (done : List Located) (L : Ledger) : Prop where
  entries : ∀ id, L.Known id → ∃ d ∈ done, d.id = id
  outpoints : ∀ o, (L.balances.get? o).isSome → ∃ d ∈ done, d.txid = o.txid

namespace Placed

variable {first : Nat} {chain : List BlockData} {b : BlockData} {i : Nat} {tx : Transaction}
  {txid : Txid} {lib : Crates} {L L' : Ledger} {u u' : RuneUpdater}

theorem entry_free (h : Placed (doneAt first chain b i) L) :
    L.entries.get? ⟨first + chain.length, i⟩ = none := by
  by_contra hne
  obtain ⟨d, hd, hid⟩ := h.entries _ (Option.isSome_iff_ne_none.mpr hne)
  have := mem_doneAt_precedes hd
  rw [hid] at this
  unfold RuneId.Precedes at this
  omega

theorem outpoint_free (h : Placed (doneAt first chain b i) L)
    (hdistinct : DistinctTxids (chain ++ [b])) (hget : b.txdata[i]? = some (tx, txid))
    (vout : Nat) : L.balances.get? ⟨txid, vout⟩ = none := by
  by_contra hne
  obtain ⟨d, hd, htxid⟩ := h.outpoints _ (Option.isSome_iff_ne_none.mpr hne)
  exact hdistinct.fresh_doneAt hget hd htxid

theorem indexRunes (hget : b.txdata[i]? = some (tx, txid)) (hheight : u.height = first + chain.length)
    (h : Placed (doneAt first chain b i) L) (hstep : TxPhases lib i tx txid L u L' u') :
    Placed (doneAt first chain b (i + 1)) L' := by
  have hsucc := doneAt_succ first chain hget
  have hmono : ∀ {p : Located → Prop}, (∃ d ∈ doneAt first chain b i, p d) →
      ∃ d ∈ doneAt first chain b (i + 1), p d := by
    rintro p ⟨d, hd, hp⟩
    exact ⟨d, by rw [hsucc]; exact List.mem_append_left _ hd, hp⟩
  have hlast : (⟨⟨first + chain.length, i⟩, tx, txid⟩ : Located) ∈
      doneAt first chain b (i + 1) := by
    rw [hsucc]
    exact List.mem_append_right _ List.mem_cons_self
  -- only the etching and the outputs add a key, and both name this transaction
  refine (hstep.invariant
    (P := fun L u => u.height = first + chain.length ∧ Placed (doneAt first chain b (i + 1)) L)
    (M := fun L u => u.height = first + chain.length ∧ Placed (doneAt first chain b (i + 1)) L)
    (Q := fun L _ => True ∧ Placed (doneAt first chain b (i + 1)) L)
    ?_ ?_ ?_ ?_ (fun _ _ _ hQ => hQ)
    ⟨hheight, fun id hid => hmono (h.entries id hid), fun o ho => hmono (h.outpoints o ho)⟩).2
  · rintro input - L t u L' t' u' ⟨hu, hP⟩ hspend
    obtain ⟨hentries, hheight', -, hnone⟩ := hspend.frame
    refine ⟨hheight'.trans hu, fun id hid => hP.entries id ?_, fun o ho => hP.outpoints o ?_⟩
    · unfold Ledger.Known at hid ⊢
      rwa [← hentries]
    · rw [Option.isSome_iff_ne_none] at ho ⊢
      exact fun hno => ho (hnone o hno)
  · rintro L t u L' t' u' ⟨hu, hP⟩ hmint
    obtain ⟨⟨hbalances, -⟩, hheight', -, hknown⟩ := hmint.frame
    exact ⟨hheight'.trans hu, fun id hid => hP.entries id ((hknown id).mp hid),
      fun o ho => hP.outpoints o (hbalances ▸ ho)⟩
  · rintro L t u a L' t' u' ⟨hu, hP⟩ hetch
    obtain ⟨⟨hbalances, -⟩, -, -, -, hknown⟩ := hetch.frame
    refine ⟨trivial, fun id hid => ?_, fun o ho => hP.outpoints o (hbalances ▸ ho)⟩
    rcases hknown id hid with hid | rfl
    · exact hP.entries id hid
    · exact ⟨_, hlast, by rw [hu]⟩
  · rintro ⟨m, vout⟩ L b u L' b' u' ⟨-, hQ⟩ houtput
    obtain ⟨hentries, -, -, hothers⟩ := houtput.frame
    refine ⟨trivial, fun id hid => hQ.entries id ?_, fun o ho => ?_⟩
    · unfold Ledger.Known at hid ⊢
      rwa [← hentries]
    · by_cases heq : o = ⟨txid, vout⟩
      · exact ⟨_, hlast, by rw [heq]⟩
      · exact hQ.outpoints o (hothers o heq ▸ ho)

end Placed

/-! ### Blocks and runs -/

/-- A block that starts with everything accounted for ends so. -/
theorem indexBlock_conserved {lib : Crates} {network : BitcoinNetwork} {ord : HashOrder}
    {chain : List BlockData} {b : BlockData} {ans : Answers} {s s' : Store}
    (hdistinct : DistinctTxids (chain ++ [b]))
    (hrows : s.RowsBelow (lib.firstRuneHeight network + chain.length))
    (h : InFlight s.ledger ∅ fun _ => 0)
    (hplaced : Placed (located (lib.firstRuneHeight network) chain) s.ledger)
    (hrun : Proc.Runs ans
      ((indexBlock lib ord network (lib.firstRuneHeight network + chain.length) b).run s)
      (.ok s' ())) : InFlight s'.ledger ∅ fun _ => 0 := by
  obtain ⟨s₁, u₁, s₂, htxs, hupdate, rfl⟩ := indexBlock_runs hrun
  obtain ⟨s₃, record, hfold, rfl⟩ := update_eq_ok.mp hupdate
  obtain ⟨hflow, -⟩ := indexTransactions_ledger
    (P := fun i L u => InFlight L u.burned (fun _ => 0) ∧
      Placed (doneAt (lib.firstRuneHeight network) chain b i) L)
    hrows.upTo ⟨h, by rw [doneAt_zero]; exact hplaced⟩
    (fun i tx txid hget L u L' u' hheight hP hstep => by
      refine ⟨hP.1.indexRunes ?_ (hP.2.outpoint_free hdistinct hget) hstep,
        hP.2.indexRunes hget hheight hstep⟩
      rw [hheight]
      exact hP.2.entry_free) htxs
  rw [Store.ledger_memInsertBlockHeader, Store.ledger_memInsertChangeRecord]
  refine InFlight.flush ?_ hfold
  exact hflow.move rfl (fun id => by simp [sumAt_iter]) hflow.balances (LotMap.keysIn_empty _)

theorem Placed.indexBlock {lib : Crates} {network : BitcoinNetwork} {ord : HashOrder}
    {chain : List BlockData} {b : BlockData} {ans : Answers} {s s' : Store}
    (hrows : s.RowsBelow (lib.firstRuneHeight network + chain.length))
    (h : Placed (located (lib.firstRuneHeight network) chain) s.ledger)
    (hrun : Proc.Runs ans
      ((indexBlock lib ord network (lib.firstRuneHeight network + chain.length) b).run s)
      (.ok s' ())) :
    Placed (located (lib.firstRuneHeight network) (chain ++ [b])) s'.ledger := by
  rw [← doneAt_length]
  refine indexBlock_invariant
    (P := fun i L _ => Placed (doneAt (lib.firstRuneHeight network) chain b i) L)
    hrows (by rw [doneAt_zero]; exact h)
    (fun i tx txid hget L u L' u' hu hP hstep => hP.indexRunes hget hu hstep)
    (fun _ _ hP => hP) ?_ hrun
  exact fun L id e n hQ he => ⟨fun id' hid' => hQ.entries id' ((known_insert_iff he id').mp hid'),
    hQ.outpoints⟩

theorem InFlight.agrees {L L' : Ledger} (h : InFlight L ∅ fun _ => 0)
    (hagrees : Agrees .amounts L L') : InFlight L' ∅ fun _ => 0 := by
  have hbalances := (hagrees.outpoints rfl).1
  refine h.move hagrees.entries.symm (fun id => ?_) (hbalances ▸ h.balances)
    (LotMap.keysIn_empty _)
  unfold Ledger.held
  rw [hbalances]

theorem Placed.agrees {done : List Located} {L L' : Ledger} (h : Placed done L)
    (hagrees : Agrees .amounts L L') : Placed done L' := by
  refine ⟨fun id hid => h.entries id ?_, (hagrees.outpoints rfl).1 ▸ h.outpoints⟩
  unfold Ledger.Known at hid ⊢
  rwa [hagrees.entries]

theorem InFlight.empty : InFlight Ledger.empty ∅ fun _ => 0 where
  conserved _ := rfl
  balances o B hB := by simp [Ledger.empty] at hB
  keys := LotMap.keysIn_empty _

theorem Placed.empty : Placed [] Ledger.empty where
  entries id hid := by simp [Ledger.Known, Ledger.empty] at hid
  outpoints o ho := by simp [Ledger.empty] at ho

theorem Run.conserved {lib : Crates} {network : BitcoinNetwork} {node : Node}
    {chain : List BlockData} {s : Store} (h : Run lib network node DistinctTxids chain s) :
    InFlight s.ledger ∅ (fun _ => 0) ∧
      Placed (located (lib.firstRuneHeight network) chain) s.ledger := by
  refine h.invariant (p := .amounts)
    (P := fun chain L => InFlight L ∅ (fun _ => 0) ∧
      Placed (located (lib.firstRuneHeight network) chain) L)
    (fun _ hd => ⟨fun _ => hd, nofun⟩) ?_ ⟨.empty, .empty⟩ ?_
  · exact fun chain L L' hagrees hP => ⟨hP.1.agrees hagrees, hP.2.agrees hagrees⟩
  · rintro chain b ord s s' hdistinct hrows ⟨hflow, hplaced⟩ hrun
    exact ⟨indexBlock_conserved hdistinct hrows hflow hplaced hrun,
      hplaced.indexBlock hrows hrun⟩

/-- The balance of a rune over all stored outpoints. -/
def Store.held (s : Store) (id : RuneId) : Nat :=
  s.outpointToRuneBalances.total fun _ l =>
    (l.map fun b => if b.runeId = id then b.balance else 0).sum

theorem Store.held_eq (s : Store) (id : RuneId) : s.held id = s.ledger.held id := by
  refine Eq.symm ((FinMap.total_mapVal (fun _ B => heldIn B id) Multiset.ofList
    s.outpointToRuneBalances).trans ?_)
  unfold Store.held heldIn
  congr

/-- Along every run no unit of a rune is created, lost or counted twice: premine and mints
    are what is burned and what the outpoints hold, and nothing is held of a rune
    without an entry. -/
theorem Run.conservation {lib : Crates} {network : BitcoinNetwork} {node : Node}
    {chain : List BlockData} {s : Store} (h : Run lib network node DistinctTxids chain s) :
    (∀ id e, s.runeIdToRuneEntry.get? id = some e →
      e.premine + e.mints * e.mintAmount = e.burned + s.held id) ∧
    (∀ o l, s.outpointToRuneBalances.get? o = some l → ∀ b ∈ l,
      (s.runeIdToRuneEntry.get? b.runeId).isSome) ∧
    ∀ id, s.runeIdToRuneEntry.get? id = none → s.held id = 0 := by
  obtain ⟨hflow, -⟩ := h.conserved
  refine ⟨fun id e he => ?_, fun o l hl b hb => ?_, fun id hid => ?_⟩
  · have hconserved := hflow.conserved id
    rw [issued_of_get? he, burned_of_get? he] at hconserved
    rw [Store.held_eq]
    simpa using hconserved
  · refine hflow.balances o (Multiset.ofList l) ?_ b (Multiset.mem_coe.mpr hb)
    rw [Store.ledger_balances_get?, hl]
    rfl
  · have hconserved := hflow.conserved id
    have hnone : s.ledger.entries.get? id = none := hid
    unfold Ledger.issued Ledger.burned at hconserved
    rw [hnone] at hconserved
    rw [Store.held_eq]
    simpa using hconserved.symm

theorem Run.conservation_sample :
    ∃ s, Run Sample.crates .regtest (fun _ => Answers.any) DistinctTxids Sample.chain s ∧
      s.held Sample.runeId = 105 := by
  obtain ⟨s, e, hrun, he, hmints, hpremine, hburned, hamount, -⟩ :=
    sample_run DistinctTxids distinctTxids_sample
  have := hrun.conservation.1 Sample.runeId e he
  rw [hmints, hpremine, hburned, hamount] at this
  exact ⟨s, hrun, by omega⟩

end RunesIndexer
