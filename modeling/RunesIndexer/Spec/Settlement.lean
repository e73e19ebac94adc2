import RunesIndexer.Spec.Allocation
import RunesIndexer.Spec.Conservation

/-! # How a transaction settles a rune

    A completed call of `index_runes` takes the units of a rune from the inputs,
    the mint and the premine, runs the transfers on the rune's purse and gives what
    is left to the default output, or burns it. The outcome for one rune is a
    function of its own units and transfers, of which outputs are OP_RETURNs, and of
    the pointer; the outpoints that are written and removed are those of the change
    record.
-/

namespace RunesIndexer

open Resumption MonadicFold RuneUpdater

/-! ### Units of a rune -/

/-- What a balance list of the store holds of a rune at an outpoint. -/
def Store.heldAt (s : Store) (o : OutPoint) (id : RuneId) : Nat :=
  (s.outpointToRuneBalances.get? o).elim 0 fun l => heldIn (Multiset.ofList l) id

/-- The outpoints that the inputs name. -/
def Transaction.spends (tx : Transaction) : Finset OutPoint :=
  (tx.input.map (·.previousOutput)).toFinset

/-- The units of a rune in the inputs. -/
def inputTotal (s : Store) (tx : Transaction) (id : RuneId) : Nat :=
  ∑ o ∈ tx.spends, s.heldAt o id

/-- The units of a rune that a transaction mints at a height. -/
def mintedBy (lib : Crates) (height : Nat) (s : Store) (tx : Transaction) (id : RuneId) : Nat :=
  match lib.decipher tx with
  | none => 0
  | some artifact =>
    if artifact.mint = some id then
      (s.runeIdToRuneEntry.get? id).elim 0 fun e =>
        match e.mintable height with
        | .ok amount => amount
        | .error _ => 0
    else 0

/-- The premine of the rune that a transaction etches. -/
def premined (lib : Crates) (tx : Transaction) (etched : Option (RuneId × Rune)) (id : RuneId) :
    Nat :=
  match lib.decipher tx with
  | none => 0
  | some artifact => if etched.map Prod.fst = some id then premineOf artifact etched else 0

/-- The transfers of a rune that the edicts of a transaction ask for. -/
def transfersIn (lib : Crates) (tx : Transaction) (etched : Option (RuneId × Rune))
    (id : RuneId) : List Transfer :=
  match lib.decipher tx with
  | some (.runestone runestone) => transfersOf etched id runestone.edicts
  | _ => []

/-! ### Inputs -/

/-- What the inputs of a transaction took out of the store. -/
structure Removed (outpoints : List OutPoint) (s s' : Store)
    (removed : List (OutPoint × RuneBalances × Nat)) : Prop where
  nodup : (removed.map Prod.fst).Nodup
  mem : ∀ o balances height, (o, balances, height) ∈ removed ↔ o ∈ outpoints ∧
    s.outpointToRuneBalances.get? o = some balances ∧ s.outpointToHeight.get? o = some height
  /-- Every outpoint of the inputs that is stored was removed. -/
  all : ∀ o ∈ outpoints, (s.outpointToRuneBalances.get? o).isSome → o ∈ removed.map Prod.fst
  store : s' = { s with
    outpointToRuneBalances := (removed.map Prod.fst).foldl FinMap.erase s.outpointToRuneBalances
    outpointToHeight := (removed.map Prod.fst).foldl FinMap.erase s.outpointToHeight }

/-- Taking `o` away and counting the rest counts everything once. -/
theorem sum_insert_taken {f g : OutPoint → Nat} {o : OutPoint}
    (hg : ∀ x, g x = if x = o then 0 else f x) (S : Finset OutPoint) :
    ∑ x ∈ insert o S, f x = f o + ∑ x ∈ S, g x := by
  have hrest : ∑ x ∈ S, g x = ∑ x ∈ S.erase o, f x := by
    rw [← Finset.filter_ne', Finset.sum_filter]
    refine Finset.sum_congr rfl fun x _ => ?_
    rw [hg, ite_not]
  have herase : insert o S = insert o (S.erase o) := by
    ext x
    rw [Finset.mem_insert, Finset.mem_insert, Finset.mem_erase]
    tauto
  rw [hrest, herase, Finset.sum_insert (Finset.notMem_erase o S)]

theorem Store.heldAt_of_get? {s : Store} {o : OutPoint} {l : RuneBalances}
    (h : s.outpointToRuneBalances.get? o = some l) (id : RuneId) :
    s.heldAt o id = sumAt (l.map fun b => (b.runeId, b.balance)) id := by
  unfold Store.heldAt
  rw [h, ← heldIn_ofList]
  rfl

/-- The loop over the inputs: what it removes, records and adds up. -/
theorem unallocated_removed {l : List TxIn} {s s' : Store} {t t' : LotMap} {u u' : RuneUpdater}
    (h : (l.foldlM unallocatedInput (t, u)).run s = .ok s' (t', u')) :
    ∃ removed, Removed (l.map (·.previousOutput)) s s' removed ∧
      u' = { u with changeRecord := { u.changeRecord with
        removedOutpoints := u.changeRecord.removedOutpoints ++ removed } } ∧
      ∀ id, t'.amount id = t.amount id +
        ∑ o ∈ (l.map (·.previousOutput)).toFinset, s.heldAt o id := by
  induction l generalizing s t u with
  | nil =>
    obtain ⟨rfl, heq⟩ := sync_foldlM_nil.mp h
    cases heq
    exact ⟨[], ⟨List.nodup_nil, by simp, by simp, rfl⟩, by simp, fun id => by simp⟩
  | cons input l ih =>
    obtain ⟨s₁, ⟨t₁, u₁⟩, hstep, hrest⟩ := sync_foldlM_cons.mp h
    obtain ⟨removed, hremoved, hu, ht⟩ := ih hrest
    cases unallocatedInput_eq_ok hstep with
    | absent hnone =>
      have hzero : ∀ id, s.heldAt input.previousOutput id = 0 := fun id => by
        unfold Store.heldAt
        rw [hnone]
        rfl
      refine ⟨removed, ⟨hremoved.nodup, fun o balances height => ?_, fun o ho hsome => ?_,
        hremoved.store⟩, hu, fun id => ?_⟩
      · rw [hremoved.mem, List.map_cons, List.mem_cons]
        constructor
        · intro h
          exact ⟨.inr h.1, h.2⟩
        · rintro ⟨rfl | ho, hb, hh⟩
          · rw [hnone] at hb
            cases hb
          · exact ⟨ho, hb, hh⟩
      · rw [List.map_cons, List.mem_cons] at ho
        rcases ho with rfl | ho
        · rw [hnone] at hsome
          cases hsome
        · exact hremoved.all o ho hsome
      · rw [ht, List.map_cons, List.toFinset_cons,
          Finset.sum_insert_of_eq_zero_if_notMem (f := fun o => s.heldAt o id) fun _ => hzero id]
    | @removed runeBalances height _ hb hh hadd =>
      -- the outpoint is gone for the inputs that follow
      have hget : ∀ o, ((s.memRemoveOutpointToRuneBalances
          input.previousOutput).memRemoveOutpointToHeight
          input.previousOutput).outpointToRuneBalances.get? o =
          if o = input.previousOutput then none else s.outpointToRuneBalances.get? o :=
        FinMap.get?_erase _ _
      have hgeth : ∀ o, ((s.memRemoveOutpointToRuneBalances
          input.previousOutput).memRemoveOutpointToHeight
          input.previousOutput).outpointToHeight.get? o =
          if o = input.previousOutput then none else s.outpointToHeight.get? o :=
        FinMap.get?_erase _ _
      have hfresh : input.previousOutput ∉ removed.map Prod.fst := by
        intro hmem
        obtain ⟨⟨o, balances, height'⟩, he, ho⟩ := List.mem_map.mp hmem
        have hstored := ((hremoved.mem _ _ _).mp he).2.1
        dsimp only at ho
        rw [hget, if_pos ho] at hstored
        cases hstored
      refine ⟨(input.previousOutput, runeBalances, height) :: removed,
        ⟨List.nodup_cons.mpr ⟨hfresh, hremoved.nodup⟩, fun o balances height' => ?_,
        fun o ho hsome => ?_, hremoved.store⟩, ?_, fun id => ?_⟩
      · rw [List.mem_cons, hremoved.mem, List.map_cons, List.mem_cons, hget, hgeth]
        by_cases ho : o = input.previousOutput
        · rw [if_pos ho, if_pos ho, ho, hb, hh]
          constructor
          · rintro (heq | ⟨-, hno, -⟩)
            · cases heq
              exact ⟨.inl rfl, rfl, rfl⟩
            · cases hno
          · rintro ⟨-, hb', hh'⟩
            cases hb'
            cases hh'
            exact .inl rfl
        · simp [ho]
      · rw [List.map_cons, List.mem_cons] at ho ⊢
        by_cases heq : o = input.previousOutput
        · exact .inl heq
        · refine .inr (hremoved.all o (ho.resolve_left heq) ?_)
          rw [hget, if_neg heq]
          exact hsome
      · rw [hu]
        simp
      · rw [takeBalances_eq_addAll] at hadd
        have hheld : ∀ o, ((s.memRemoveOutpointToRuneBalances
            input.previousOutput).memRemoveOutpointToHeight input.previousOutput).heldAt o id =
            if o = input.previousOutput then 0 else s.heldAt o id := by
          intro o
          unfold Store.heldAt
          rw [hget]
          split <;> rfl
        rw [ht, addAll_amount hadd, List.map_cons, List.toFinset_cons, sum_insert_taken hheld,
          s.heldAt_of_get? hb]
        omega

/-! ### Mint and etching -/

/-- Neither the outpoints nor their part of the change record changed. -/
structure SameOutpoints (s s' : Store) (u u' : RuneUpdater) : Prop where
  balances : s'.outpointToRuneBalances = s.outpointToRuneBalances
  heights : s'.outpointToHeight = s.outpointToHeight
  height : u'.height = u.height
  burned : u'.burned = u.burned
  removed : u'.changeRecord.removedOutpoints = u.changeRecord.removedOutpoints
  added : u'.changeRecord.addedOutpoints = u.changeRecord.addedOutpoints

theorem SameOutpoints.refl (s : Store) (u : RuneUpdater) : SameOutpoints s s u u :=
  ⟨rfl, rfl, rfl, rfl, rfl, rfl⟩

theorem SameOutpoints.trans {s₁ s₂ s₃ : Store} {u₁ u₂ u₃ : RuneUpdater}
    (h : SameOutpoints s₁ s₂ u₁ u₂) (h' : SameOutpoints s₂ s₃ u₂ u₃) :
    SameOutpoints s₁ s₃ u₁ u₃ where
  balances := h'.balances.trans h.balances
  heights := h'.heights.trans h.heights
  height := h'.height.trans h.height
  burned := h'.burned.trans h.burned
  removed := h'.removed.trans h.removed
  added := h'.added.trans h.added

/-- The mint adds its units. -/
theorem MintPhase.settles {lib : Crates} {tx : Transaction} {s s' : Store} {t t' : LotMap}
    {u u' : RuneUpdater} (h : MintPhase lib tx s t u s' t' u') :
    SameOutpoints s s' u u' ∧ u'.changeRecord.addedRunes = u.changeRecord.addedRunes ∧
      ∀ id, t'.amount id = t.amount id + mintedBy lib u.height s tx id := by
  -- a refused mint brings in nothing of any rune
  have hnone : ∀ artifact id, lib.decipher tx = some artifact → artifact.mint = some id →
      (∀ e, s.runeIdToRuneEntry.get? id = some e → ∀ n, e.mintable u.height ≠ .ok n) →
      ∀ id', mintedBy lib u.height s tx id' = 0 := by
    intro artifact id hdec hmint hrefused id'
    unfold mintedBy
    rw [hdec]
    dsimp only
    split
    · next heq =>
      rw [hmint] at heq
      cases heq
      cases he : s.runeIdToRuneEntry.get? id with
      | none => rfl
      | some e =>
        cases hm : e.mintable u.height with
        | error err => simp [hm]
        | ok n => exact absurd hm (hrefused e he n)
    · rfl
  cases h with
  | absent habsent =>
    refine ⟨.refl s u, rfl, fun id => ?_⟩
    unfold mintedBy
    split
    · rfl
    · next artifact hdec =>
      have hno : ¬ (none : Option RuneId) = some id := fun h => by cases h
      rw [habsent artifact hdec, if_neg hno, Nat.add_zero]
  | refused hdec hmint hrefused =>
    exact ⟨.refl s u, rfl, fun id => by rw [hnone _ _ hdec hmint hrefused, Nat.add_zero]⟩
  | @minted artifact minted amount _ _ _ hdec hmint hminted hadd =>
    cases hminted with
    | @minted e _ he hm =>
      refine ⟨⟨rfl, rfl, rfl, rfl, rfl, rfl⟩, rfl, fun id => ?_⟩
      rw [addTo_amount hadd]
      unfold mintedBy
      rw [hdec]
      dsimp only
      rw [hmint]
      by_cases hid : minted = id
      · subst hid
        rw [if_pos rfl, if_pos rfl, he, Option.elim_some, hm]
      · rw [if_neg hid, if_neg fun heq => hid (Option.some.inj heq)]

/-- A completed loop over the edicts has checked every output. -/
theorem edicts_outputs {lib : Crates} {tx : Transaction} {etched : Option (RuneId × Rune)}
    {edicts : List Edict} {st st' : LotMap × List LotMap}
    (h : edicts.foldlM (indexEdict lib tx etched) st = .ok st') :
    ∀ e ∈ edicts, e.output ≤ tx.output.length := by
  induction edicts generalizing st with
  | nil => simp
  | cons e l ih =>
    obtain ⟨st₁, hstep, hrest⟩ := except_foldlM_cons.mp h
    unfold indexEdict at hstep
    obtain ⟨_, hassert, -⟩ := except_bind_eq_ok.mp hstep
    intro e' he'
    rcases List.mem_cons.mp he' with rfl | he'
    · exact assertThat_eq_ok.mp hassert
    · exact ih hrest e' he'

theorem mem_transfersOf {etched : Option (RuneId × Rune)} {id : RuneId} {edicts : List Edict}
    {e : Transfer} (h : e ∈ transfersOf etched id edicts) :
    ∃ edict ∈ edicts, edict.output = e.output := by
  obtain ⟨edict, hmem, he⟩ := List.mem_filterMap.mp h
  split at he
  · cases he
    exact ⟨edict, hmem, rfl⟩
  · cases he

/-- Premine and edicts, in the purse of each rune. -/
theorem indexRunestone_purse {lib : Crates} {tx : Transaction} {artifact : Artifact}
    {etched : Option (RuneId × Rune)} {t t' : LotMap} {a' : List LotMap}
    (hdec : lib.decipher tx = some artifact)
    (h : indexRunestone lib tx artifact etched t = .ok (t', a')) (id : RuneId) :
    purseOf (t', a') id = (transfersIn lib tx etched id).foldl
      (Purse.transfer (lib.opReturns tx)) (.full (t.amount id + premined lib tx etched id)) ∧
    ∀ e ∈ transfersIn lib tx etched id, e.output ≤ (lib.opReturns tx).length := by
  unfold indexRunestone at h
  unfold transfersIn premined
  rw [hdec]
  cases artifact with
  | cenotaph c =>
    cases except_pure_eq_ok.mp h
    refine ⟨?_, nofun⟩
    rw [purseOf_replicate]
    simp [premineOf]
  | runestone runestone =>
    obtain ⟨t₁, ht₁, h⟩ := except_bind_eq_ok.mp h
    -- the premine is in the purse before the first edict
    have hamount : t₁.amount id = t.amount id +
        if etched.map Prod.fst = some id then premineOf (.runestone runestone) etched else 0 := by
      cases etched with
      | none =>
        rw [except_pure_eq_ok.mp ht₁]
        simp
      | some pair =>
        obtain ⟨etching, hetching, hadd⟩ := except_bind_eq_ok.mp ht₁
        rw [unwrap_eq_ok] at hetching
        rw [addTo_amount hadd]
        simp [premineOf, hetching]
    refine ⟨?_, fun e he => ?_⟩
    · rw [edicts_purse h id, purseOf_replicate, hamount]
    · obtain ⟨edict, hmem, hout⟩ := mem_transfersOf he
      rw [← hout, length_opReturns]
      exact edicts_outputs h edict hmem

/-- The rune a call of `index_runes` etched, as its change record lists it. -/
def etchedRecord (txid : Txid) (etched : Option (RuneId × Rune)) : List (Rune × RuneId × Txid) :=
  (etched.map fun e => (e.2, e.1, txid)).toList

/-- Etching, premine and edicts: what was etched and the purse of each rune. -/
theorem EtchPhase.settles {lib : Crates} {txIndex : Nat} {tx : Transaction} {txid : Txid}
    {s s' : Store} {t t' : LotMap} {u u' : RuneUpdater} {a' : List LotMap}
    (h : EtchPhase lib txIndex tx txid s t u s' t' a' u') :
    ∃ etched, SameOutpoints s s' u u' ∧
      u'.changeRecord.addedRunes = u.changeRecord.addedRunes ++ etchedRecord txid etched ∧
      a'.length = tx.output.length ∧ AllIn (fun _ n => 0 < n) a' ∧
      ∀ id, purseOf (t', a') id = (transfersIn lib tx etched id).foldl
        (Purse.transfer (lib.opReturns tx)) (.full (t.amount id + premined lib tx etched id)) ∧
        ∀ e ∈ transfersIn lib tx etched id, e.output ≤ (lib.opReturns tx).length := by
  -- `allocate` skips amounts of zero
  have hpositive : ∀ {artifact : Artifact} {etched : Option (RuneId × Rune)},
      indexRunestone lib tx artifact etched t = .ok (t', a') → AllIn (fun _ n => 0 < n) a' := by
    intro artifact etched hstone m hm id n hget
    have hall := ((indexRunestone_total hstone).2.2 (fun _ => True) (fun _ _ => trivial)
      fun _ _ => trivial).2
    exact (hall m hm id n hget).2
  cases h with
  | plain hdec =>
    refine ⟨none, .refl s u, by simp [etchedRecord], by simp, allIn_replicate _ _, fun id => ?_⟩
    unfold transfersIn premined
    rw [hdec, purseOf_replicate]
    exact ⟨rfl, nofun⟩
  | @unetched artifact _ _ hdec hstone =>
    exact ⟨none, .refl s u, by simp [etchedRecord], (indexRunestone_total hstone).2.1,
      hpositive hstone, indexRunestone_purse hdec hstone⟩
  | @etched artifact id rune s₁ entry _ _ hdec hetched hstone hentry =>
    refine ⟨some (id, rune), ?_, rfl, (indexRunestone_total hstone).2.1, hpositive hstone,
      indexRunestone_purse hdec hstone⟩
    cases hetched <;> exact ⟨rfl, rfl, rfl, rfl, rfl, rfl⟩

/-! ### What is left -/

/-- Where what is left of a rune goes: to the output of the pointer, or else to the first
    output that is no OP_RETURN. -/
def defaultOf (flags : List Bool) (pointer : Option Nat) : Option Nat :=
  pointer.or (flags.findIdx? fun flag => !flag)

/-- The pointer of an artifact. -/
def pointerOf : Option Artifact → Option Nat
  | some (.runestone runestone) => runestone.pointer
  | _ => none

def isCenotaph : Option Artifact → Bool
  | some (.cenotaph _) => true
  | _ => false

theorem defaultOutput_eq_ok {lib : Crates} {tx : Transaction} {pointer out : Option Nat}
    (h : defaultOutput lib tx pointer = .ok out) : out = defaultOf (lib.opReturns tx) pointer := by
  unfold defaultOutput at h
  cases pointer with
  | some vout =>
    obtain ⟨_, -, h⟩ := except_bind_eq_ok.mp h
    exact except_pure_eq_ok.mp h
  | none =>
    rw [except_pure_eq_ok.mp h]
    unfold defaultOf Crates.opReturns
    rw [Option.none_or, List.findIdx?_map]
    rfl

/-- The loop that gives what is left to one output. -/
theorem assign_given {vout : Nat} {l : List (RuneId × Nat)} {a a' : List LotMap}
    (h : l.foldlM (fun allocated e => do
      let balances ← indexAt allocated vout
      return allocated.set vout (← LotMap.addTo balances e.1 e.2)) a = .ok a') (v : Nat)
    (id : RuneId) : givenTo a' v id = givenTo a v id + if v = vout then sumAt l id else 0 := by
  induction l generalizing a with
  | nil =>
    rw [except_foldlM_nil.mp h]
    simp
  | cons e l ih =>
    obtain ⟨a₁, hstep, hrest⟩ := except_foldlM_cons.mp h
    obtain ⟨m, hm, hstep⟩ := except_bind_eq_ok.mp hstep
    obtain ⟨m', hadd, hstep⟩ := except_bind_eq_ok.mp hstep
    rw [except_pure_eq_ok.mp hstep] at hrest
    rw [ih hrest, givenTo_set (indexAt_eq_ok.mp hm) hadd, sumAt_cons]
    by_cases hv : v = vout <;> by_cases hid : id = e.1
    · simp only [hv, hid, and_self, if_true]
      omega
    · simp [hv, hid, Ne.symm hid]
    · simp [hv]
    · simp [hv]

/-- The default assignment for a pointer, rune by rune. -/
theorem assignDefault_given {lib : Crates} {tx : Transaction} {pointer : Option Nat}
    {l : List (RuneId × Nat)} {a a' : List LotMap} {burned : LotMap}
    (h : (do
      match ← defaultOutput lib tx pointer with
      | some vout =>
        let allocated ← (positive l).foldlM (fun allocated e => do
          let balances ← indexAt allocated vout
          return allocated.set vout (← LotMap.addTo balances e.1 e.2)) a
        return (allocated, ∅)
      | none => return (a, ← addAll ∅ (positive l)) : Except Panic (List LotMap × LotMap)) =
        .ok (a', burned)) (id : RuneId) :
    (∀ v, givenTo a' v id = givenTo a v id +
      if defaultOf (lib.opReturns tx) pointer = some v then sumAt l id else 0) ∧
    burned.amount id =
      if defaultOf (lib.opReturns tx) pointer = none then sumAt l id else 0 := by
  obtain ⟨out, hout, h⟩ := except_bind_eq_ok.mp h
  -- one receiver for all the rest, or none and it burns
  rw [← defaultOutput_eq_ok hout]
  cases out with
  | none =>
    obtain ⟨m, hadd, h⟩ := except_bind_eq_ok.mp h
    cases except_pure_eq_ok.mp h
    refine ⟨fun v => by simp, ?_⟩
    rw [addAll_amount hadd, FinMap.amount_empty, Nat.zero_add, sumAt_positive, if_pos rfl]
  | some vout =>
    obtain ⟨a₁, hloop, h⟩ := except_bind_eq_ok.mp h
    cases except_pure_eq_ok.mp h
    refine ⟨fun v => ?_, by simp⟩
    rw [assign_given hloop, sumAt_positive]
    by_cases hv : v = vout
    · rw [if_pos hv, if_pos (congrArg some hv.symm)]
    · rw [if_neg hv, if_neg fun heq => hv (Option.some.inj heq).symm]

/-- What becomes of the unallocated runes, rune by rune. -/
theorem assignUnallocated_given {lib : Crates} {tx : Transaction} {artifact : Option Artifact}
    {l : List (RuneId × Nat)} {a a' : List LotMap} {burned : LotMap}
    (h : assignUnallocated lib tx artifact l a = .ok (a', burned)) (id : RuneId) :
    if isCenotaph artifact then a' = a ∧ burned.amount id = sumAt l id
    else
      (∀ v, givenTo a' v id = givenTo a v id +
        if defaultOf (lib.opReturns tx) (pointerOf artifact) = some v then sumAt l id else 0) ∧
      burned.amount id =
        if defaultOf (lib.opReturns tx) (pointerOf artifact) = none then sumAt l id else 0 := by
  cases artifact with
  | none => exact assignDefault_given h id
  | some artifact =>
    cases artifact with
    | runestone runestone => exact assignDefault_given h id
    | cenotaph c =>
      obtain ⟨m, hadd, h⟩ := except_bind_eq_ok.mp h
      cases except_pure_eq_ok.mp h
      exact ⟨rfl, by rw [addAll_amount hadd, FinMap.amount_empty, Nat.zero_add]⟩

/-! ### Outputs -/

/-- A stored list of balances that lists exactly the positive amounts of `f`, each once. -/
structure Lists (l : RuneBalances) (f : RuneId → Nat) : Prop where
  nodup : (l.map (·.runeId)).Nodup
  mem : ∀ id n, ⟨id, n⟩ ∈ l ↔ 0 < n ∧ n = f id

theorem lists_iter {ord : HashOrder} {site : IterSite} {m : LotMap}
    (hm : ∀ id n, m.get? id = some n → 0 < n) :
    Lists ((ord.iter site m).map fun e => ⟨e.1, e.2⟩) m.amount where
  nodup := by
    rw [List.map_map]
    exact iter_nodup ord site m
  mem id n := by
    have hmem : (⟨id, n⟩ : RuneBalance) ∈ (ord.iter site m).map (fun e => ⟨e.1, e.2⟩) ↔
        m.get? id = some n := by
      rw [List.mem_map]
      constructor
      · intro ⟨e, he, heq⟩
        cases heq
        exact mem_iter.mp he
      · intro hget
        exact ⟨(id, n), mem_iter.mpr hget, rfl⟩
    rw [hmem]
    constructor
    · exact fun hget => ⟨hm id n hget, (FinMap.amount_of_get? hget).symm⟩
    · rintro ⟨hpos, rfl⟩
      cases hget : m.get? id with
      | none =>
        rw [FinMap.amount_of_get?_eq_none hget] at hpos
        exact absurd hpos (lt_irrefl 0)
      | some n => rw [FinMap.amount_of_get? hget]

/-- A map of positive amounts that is not empty holds something. -/
theorem size_ne_zero_iff {m : LotMap} (hm : ∀ id n, m.get? id = some n → 0 < n) :
    m.size ≠ 0 ↔ ∃ id, 0 < m.amount id := by
  constructor
  · intro hsize
    by_contra hno
    push Not at hno
    rw [FinMap.size_eq_total] at hsize
    refine hsize (FinMap.total_eq_zero _ fun id n hget => ?_)
    have hpos := hm id n hget
    have hle := hno id
    rw [FinMap.amount_of_get? hget] at hle
    omega
  · rintro ⟨id, hpos⟩ hsize
    rw [amount_of_size_eq_zero hsize] at hpos
    exact absurd hpos (lt_irrefl 0)

/-- What the loop over the outputs wrote, from output number `k` on. -/
structure Written (flags : List Bool) (txid : Txid) (height k : Nat) (a : List LotMap)
    (s s' : Store) (added : List OutPoint) : Prop where
  nodup : added.Nodup
  mem : ∀ o, o ∈ added ↔ ∃ i m, a[i]? = some m ∧ m.size ≠ 0 ∧ flags[k + i]? = some false ∧
    o = ⟨txid, k + i⟩
  lists : ∀ i m, a[i]? = some m → ⟨txid, k + i⟩ ∈ added →
    ∃ l, s'.outpointToRuneBalances.get? ⟨txid, k + i⟩ = some l ∧ Lists l m.amount ∧
      s'.outpointToHeight.get? ⟨txid, k + i⟩ = some height
  others : ∀ o, o ∉ added → s'.outpointToRuneBalances.get? o = s.outpointToRuneBalances.get? o ∧
    s'.outpointToHeight.get? o = s.outpointToHeight.get? o

/-- The outputs from `k` on are the first one and those behind it. -/
theorem writtenFrom_cons {flags : List Bool} {txid : Txid} {k : Nat} {m : LotMap} {a : List LotMap}
    {o : OutPoint} :
    (∃ i m', (m :: a)[i]? = some m' ∧ m'.size ≠ 0 ∧ flags[k + i]? = some false ∧
      o = ⟨txid, k + i⟩) ↔
    (m.size ≠ 0 ∧ flags[k]? = some false ∧ o = ⟨txid, k⟩) ∨
      ∃ i m', a[i]? = some m' ∧ m'.size ≠ 0 ∧ flags[k + 1 + i]? = some false ∧
        o = ⟨txid, k + 1 + i⟩ := by
  constructor
  · rintro ⟨i, m', hi, hsize, hflag, ho⟩
    cases i with
    | zero =>
      cases hi
      exact .inl ⟨hsize, hflag, ho⟩
    | succ i =>
      rw [show k + (i + 1) = k + 1 + i by omega] at hflag ho
      exact .inr ⟨i, m', hi, hsize, hflag, ho⟩
  · rintro (⟨hsize, hflag, ho⟩ | ⟨i, m', hi, hsize, hflag, ho⟩)
    · exact ⟨0, m, rfl, hsize, hflag, ho⟩
    · rw [show k + 1 + i = k + (i + 1) by omega] at hflag ho
      exact ⟨i + 1, m', hi, hsize, hflag, ho⟩

/-- What is written from `k + 1` on has a later index than `k`. -/
theorem Written.notMem {flags : List Bool} {txid : Txid} {height k : Nat} {a : List LotMap}
    {s s' : Store} {added : List OutPoint} (h : Written flags txid height (k + 1) a s s' added) :
    (⟨txid, k⟩ : OutPoint) ∉ added := by
  intro hmem
  obtain ⟨i, m', -, -, -, heq⟩ := (h.mem _).mp hmem
  have hvout := congrArg OutPoint.vout heq
  dsimp only at hvout
  omega

/-- An output that is not written, before the others. -/
theorem Written.skip {flags : List Bool} {txid : Txid} {height k : Nat} {a : List LotMap}
    {s s' : Store} {added : List OutPoint} (h : Written flags txid height (k + 1) a s s' added)
    {m : LotMap} (hm : m.size = 0 ∨ flags[k]? ≠ some false) :
    Written flags txid height k (m :: a) s s' added := by
  refine ⟨h.nodup, fun o => ?_, fun i m' hi hmem => ?_, h.others⟩
  · rw [h.mem, writtenFrom_cons]
    constructor
    · exact .inr
    · rintro (⟨hsize, hflag, -⟩ | hrest)
      · exact (hm.elim hsize fun hno => hno hflag).elim
      · exact hrest
  · cases i with
    | zero => exact absurd hmem h.notMem
    | succ i =>
      rw [show k + (i + 1) = k + 1 + i by omega] at hmem ⊢
      exact h.lists i m' hi hmem

/-- An output that is written, before the others. -/
theorem Written.create {flags : List Bool} {txid : Txid} {height k : Nat} {a : List LotMap}
    {s s₁ s' : Store} {added : List OutPoint} {m : LotMap} {l : RuneBalances}
    (h : Written flags txid height (k + 1) a s₁ s' added)
    (hs₁ : s₁ = (s.memInsertOutpointToRuneBalances ⟨txid, k⟩ l).memInsertOutpointToHeight
      ⟨txid, k⟩ height)
    (hsize : m.size ≠ 0) (hflag : flags[k]? = some false) (hl : Lists l m.amount) :
    Written flags txid height k (m :: a) s s' (⟨txid, k⟩ :: added) := by
  have hbalances : ∀ o, s₁.outpointToRuneBalances.get? o =
      if o = ⟨txid, k⟩ then some l else s.outpointToRuneBalances.get? o := by
    rw [hs₁]
    exact FinMap.get?_insert _ _ _
  have hheights : ∀ o, s₁.outpointToHeight.get? o =
      if o = ⟨txid, k⟩ then some height else s.outpointToHeight.get? o := by
    rw [hs₁]
    exact FinMap.get?_insert _ _ _
  refine ⟨List.nodup_cons.mpr ⟨h.notMem, h.nodup⟩, fun o => ?_, fun i m' hi hmem => ?_,
    fun o ho => ?_⟩
  · rw [List.mem_cons, h.mem, writtenFrom_cons]
    constructor
    · rintro (ho | hrest)
      · exact .inl ⟨hsize, hflag, ho⟩
      · exact .inr hrest
    · rintro (⟨-, -, ho⟩ | hrest)
      · exact .inl ho
      · exact .inr hrest
  · cases i with
    | zero =>
      -- the outputs that follow do not touch this one
      cases hi
      obtain ⟨hb, hh⟩ := h.others _ h.notMem
      refine ⟨l, ?_, hl, ?_⟩
      · rw [Nat.add_zero, hb, hbalances, if_pos rfl]
      · rw [Nat.add_zero, hh, hheights, if_pos rfl]
    | succ i =>
      rw [show k + (i + 1) = k + 1 + i by omega] at hmem ⊢
      have hne : (⟨txid, k + 1 + i⟩ : OutPoint) ≠ ⟨txid, k⟩ := by
        intro heq
        have hvout := congrArg OutPoint.vout heq
        dsimp only at hvout
        omega
      exact h.lists i m' hi ((List.mem_cons.mp hmem).resolve_left hne)
  · rw [List.mem_cons, not_or] at ho
    obtain ⟨hb, hh⟩ := h.others o ho.2
    rw [hb, hh, hbalances, hheights, if_neg ho.1, if_neg ho.1]
    exact ⟨rfl, rfl⟩

/-- The loop over the outputs, from output number `k` on: what it writes and burns. -/
theorem outputs_written {lib : Crates} {ord : HashOrder} {txIndex : Nat} {tx : Transaction}
    {txid : Txid} {a : List LotMap} {k : Nat} {s s' : Store} {burned burned' : LotMap}
    {u u' : RuneUpdater} (ha : AllIn (fun _ n => 0 < n) a)
    (h : ((a.zipIdx k).foldlM (updateOutpoint lib ord txIndex tx txid) (burned, u)).run s =
      .ok s' (burned', u')) :
    ∃ added, Written (lib.opReturns tx) txid u.height k a s s' added ∧
      u' = { u with changeRecord := { u.changeRecord with
        addedOutpoints := u.changeRecord.addedOutpoints ++ added } } ∧
      ∀ id, burned'.amount id = burned.amount id + ∑ i ∈ Finset.range a.length,
        if (lib.opReturns tx)[k + i]? = some true then givenTo a i id else 0 := by
  induction a generalizing k s burned u with
  | nil =>
    obtain ⟨rfl, heq⟩ := sync_foldlM_nil.mp h
    cases heq
    exact ⟨[], ⟨List.nodup_nil, by simp, by simp, fun _ _ => ⟨rfl, rfl⟩⟩, by simp,
      fun id => by simp⟩
  | cons m a ih =>
    rw [List.zipIdx_cons] at h
    obtain ⟨s₁, ⟨burned₁, u₁⟩, hstep, hrest⟩ := sync_foldlM_cons.mp h
    obtain ⟨added, hwritten, hu, hburned⟩ := ih
      (fun m' hm' => ha m' (List.mem_cons_of_mem _ hm')) hrest
    have hm : ∀ id n, m.get? id = some n → 0 < n := ha m List.mem_cons_self
    -- the sum over all outputs starts with this one
    have hsum : ∀ id, ∑ i ∈ Finset.range (m :: a).length,
        (if (lib.opReturns tx)[k + i]? = some true then givenTo (m :: a) i id else 0) =
        (∑ i ∈ Finset.range a.length,
          if (lib.opReturns tx)[k + 1 + i]? = some true then givenTo a i id else 0) +
        if (lib.opReturns tx)[k]? = some true then m.amount id else 0 := by
      intro id
      rw [List.length_cons, Finset.sum_range_succ']
      refine congrArg₂ (· + ·) (Finset.sum_congr rfl fun i _ => ?_) rfl
      rw [show k + (i + 1) = k + 1 + i by omega]
      rfl
    cases updateOutpoint_eq_ok hstep with
    | nothing hsize =>
      refine ⟨added, hwritten.skip (.inl hsize), hu, fun id => ?_⟩
      rw [hburned, hsum, amount_of_size_eq_zero hsize, ite_self]
      omega
    | burns hout hburns hadd =>
      have hflag : (lib.opReturns tx)[k]? = some true := opReturns_getElem?.mpr ⟨_, hout, hburns⟩
      refine ⟨added, hwritten.skip (.inr (by rw [hflag]; simp)), hu, fun id => ?_⟩
      rw [hburned, hsum, if_pos hflag, addAll_amount hadd, sumAt_iter]
      omega
    | created hsize hout hburns =>
      have hflag : (lib.opReturns tx)[k]? = some false := opReturns_getElem?.mpr ⟨_, hout, hburns⟩
      refine ⟨⟨txid, k⟩ :: added, hwritten.create rfl hsize hflag (lists_iter hm), ?_, fun id => ?_⟩
      · rw [hu]
        simp
      · rw [hburned, hsum, if_neg (by rw [hflag]; simp)]
        omega

end RunesIndexer
