import RunesIndexer.Spec.Amounts

/-! # The checked arithmetic of a transaction does not fail

    Every addition, subtraction, index, assertion and conversion between the
    inputs and the outputs of a transaction succeeds as long as the units of each
    rune that are in play fit into a `u128`, edicts and pointer stay within the
    outputs, and an accepted etching is one that the runestone has.
-/

namespace RunesIndexer

open MonadicFold RuneUpdater

/-! ### Additions -/

theorem addTo_returns (m : LotMap) (id : RuneId) (n : Nat) (h : m.amount id + n < u128Bound) :
    ∃ m', m.addTo id n = .ok m' :=
  ⟨_, LotMap.addTo_eq_ok.mpr ⟨h, rfl⟩⟩

/-- Adding along an iteration returns when the sums fit. -/
theorem addAll_returns {m : LotMap} {l : List (RuneId × Nat)}
    (h : ∀ id, m.amount id + sumAt l id < u128Bound) : ∃ m', addAll m l = .ok m' := by
  unfold addAll
  induction l generalizing m with
  | nil => exact ⟨m, except_foldlM_nil.mpr rfl⟩
  | cons e l ih =>
    have he := h e.1
    rw [sumAt_cons, if_pos rfl] at he
    obtain ⟨m₁, hadd⟩ := addTo_returns m e.1 e.2 (by omega)
    obtain ⟨m', hrest⟩ := ih (m := m₁) fun id => by
      have hid := h id
      rw [sumAt_cons] at hid
      rw [addTo_amount hadd]
      omega
    exact ⟨m', except_foldlM_cons.mpr ⟨m₁, hadd, hrest⟩⟩

theorem amount_le_allocatedTo {a : List LotMap} {output : Nat} {m : LotMap}
    (h : a[output]? = some m) (id : RuneId) : m.amount id ≤ allocatedTo a id := by
  have hset := sum_map_set (fun m => m.amount id) a h ∅
  rw [FinMap.amount_empty] at hset
  unfold allocatedTo
  omega

/-! ### Allocation -/

/-- Moving at most the balance to an existing output. -/
theorem allocate_returns {id : RuneId} {st : Nat × List LotMap} {amount output : Nat}
    (hle : amount ≤ st.1) (hout : output < st.2.length)
    (hfit : st.1 + allocatedTo st.2 id < u128Bound) :
    ∃ a', allocate id st amount output = .ok (st.1 - amount, a') := by
  unfold allocate
  split
  · have hget : st.2[output]? = some st.2[output] := List.getElem?_eq_getElem hout
    have hroom := amount_le_allocatedTo hget id
    obtain ⟨m', hadd⟩ := addTo_returns st.2[output] id amount (by omega)
    refine ⟨st.2.set output m', ?_⟩
    rw [except_bind_eq_ok]
    refine ⟨st.1 - amount, Lot.sub_eq_ok.mpr ⟨hle, rfl⟩, ?_⟩
    rw [except_bind_eq_ok]
    refine ⟨_, indexAt_eq_ok.mpr hget, ?_⟩
    rw [except_bind_eq_ok]
    exact ⟨m', hadd, rfl⟩
  · next h =>
    obtain rfl : amount = 0 := by omega
    exact ⟨st.2, rfl⟩

/-- The shares from destination number `k` on add up to at most the balance. -/
theorem splitEvenly_loop {id : RuneId} {amount remainder : Nat} {l : List Nat} {k : Nat}
    {st : Nat × List LotMap} (hout : ∀ d ∈ l, d < st.2.length)
    (hfit : st.1 + allocatedTo st.2 id < u128Bound)
    (hbal : l.length * amount + (remainder - k) ≤ st.1) :
    ∃ st', (l.zipIdx k).foldlM (fun st e => do
      allocate id st (← evenShare amount remainder e.2) e.1) st = .ok st' := by
  induction l generalizing k st with
  | nil => exact ⟨st, except_foldlM_nil.mpr rfl⟩
  | cons d l ih =>
    rw [List.length_cons, Nat.succ_mul] at hbal
    -- the share of this destination: one more while the remainder lasts
    obtain ⟨share, hshare, hle, hrest⟩ : ∃ share, evenShare amount remainder k = .ok share ∧
        share ≤ st.1 ∧ l.length * amount + (remainder - (k + 1)) ≤ st.1 - share := by
      unfold evenShare Lot.add
      by_cases hk : k < remainder
      · rw [if_pos hk, if_pos (by omega)]
        exact ⟨amount + 1, rfl, by omega, by omega⟩
      · rw [if_neg hk]
        exact ⟨amount, rfl, by omega, by omega⟩
    obtain ⟨a', halloc⟩ := allocate_returns hle (hout d List.mem_cons_self) hfit
    have hmoved := allocate_allocates halloc
    obtain ⟨st', hloop⟩ := @ih (k + 1) (st.1 - share, a')
      (fun d' hd' => hmoved.length ▸ hout d' (List.mem_cons_of_mem _ hd'))
      (hmoved.total ▸ hfit) hrest
    rw [List.zipIdx_cons]
    exact ⟨st', except_foldlM_cons.mpr
      ⟨_, except_bind_eq_ok.mpr ⟨share, hshare, halloc⟩, hloop⟩⟩

theorem splitEvenly_returns {id : RuneId} {l : List Nat} {st : Nat × List LotMap} (hne : l ≠ [])
    (hlen : l.length ≤ usizeBound) (hout : ∀ d ∈ l, d < st.2.length)
    (hfit : st.1 + allocatedTo st.2 id < u128Bound) :
    ∃ st', splitEvenly id l st = .ok st' := by
  have hpos := List.length_pos_iff.mpr hne
  have hremainder : st.1 % l.length < usizeBound :=
    Nat.lt_of_lt_of_le (Nat.mod_lt _ hpos) hlen
  have hbal : l.length * (st.1 / l.length) + (st.1 % l.length - 0) ≤ st.1 := by
    rw [Nat.sub_zero, Nat.div_add_mod]
  obtain ⟨st', hloop⟩ := splitEvenly_loop hout hfit hbal
  refine ⟨st', ?_⟩
  exact except_bind_eq_ok.mpr ⟨_, unwrap_eq_ok.mpr (if_pos hremainder), hloop⟩

theorem distribute_returns {id : RuneId} {amount : Nat} {l : List Nat} {st : Nat × List LotMap}
    (hout : ∀ d ∈ l, d < st.2.length) (hfit : st.1 + allocatedTo st.2 id < u128Bound) :
    ∃ st', distribute id amount l st = .ok st' := by
  obtain ⟨st', hloop, -⟩ := except_foldlM_total (P := Allocates id st)
    (f := fun st output => allocate id st (min amount st.1) output) (l := l)
    (fun d hd st₁ hst => by
      obtain ⟨a', halloc⟩ := allocate_returns (Nat.min_le_right amount st₁.1)
        (hst.length ▸ hout d hd) (hst.total ▸ hfit)
      exact ⟨_, halloc, hst.trans (allocate_allocates halloc)⟩) (.refl id st)
  exact ⟨st', hloop⟩

/-! ### Edicts -/

theorem mem_destinations {lib : Crates} {tx : Transaction} {d : Nat}
    (h : d ∈ destinations lib tx) : d < tx.output.length := by
  obtain ⟨⟨txOut, i⟩, hmem, hd⟩ := List.mem_filterMap.mp h
  have hi := List.snd_lt_of_mem_zipIdx hmem
  split at hd
  · cases hd
  · cases hd
    simpa using hi

theorem length_destinations (lib : Crates) (tx : Transaction) :
    (destinations lib tx).length ≤ usizeBound := by
  have hle : (destinations lib tx).length ≤ tx.output.length := by
    unfold destinations
    exact (List.length_filterMap_le _ _).trans (by simp)
  exact hle.trans tx.outputFits.le

theorem applyEdict_returns {lib : Crates} {tx : Transaction} {id : RuneId} {edict : Edict}
    {st : Nat × List LotMap} (hedict : edict.output ≤ tx.output.length)
    (hlen : st.2.length = tx.output.length) (hfit : st.1 + allocatedTo st.2 id < u128Bound) :
    ∃ st', applyEdict lib tx id edict st = .ok st' := by
  have hout : ∀ d ∈ destinations lib tx, d < st.2.length :=
    fun d hd => hlen ▸ mem_destinations hd
  unfold applyEdict
  split
  · split
    · exact ⟨st, rfl⟩
    · next hempty =>
      have hne : destinations lib tx ≠ [] := by simpa using hempty
      split
      · exact splitEvenly_returns hne (length_destinations lib tx) hout hfit
      · exact distribute_returns hout hfit
  · next hne =>
    have hle : (if edict.amount = 0 then st.1 else min edict.amount st.1) ≤ st.1 := by
      split <;> omega
    have hout : edict.output < st.2.length := by omega
    obtain ⟨a', halloc⟩ := allocate_returns hle hout hfit
    exact ⟨_, halloc⟩

theorem indexEdict_returns {lib : Crates} {tx : Transaction} {etched : Option (RuneId × Rune)}
    {st : LotMap × List LotMap} {edict : Edict} (hedict : edict.output ≤ tx.output.length)
    (hlen : st.2.length = tx.output.length)
    (hfit : ∀ id, st.1.amount id + allocatedTo st.2 id < u128Bound) :
    ∃ st', indexEdict lib tx etched st edict = .ok st' := by
  unfold indexEdict
  simp only [except_bind_eq_ok, assertThat_eq_ok]
  split
  · exact ⟨st, (), hedict, rfl⟩
  · next id _ =>
    split
    · exact ⟨st, (), hedict, rfl⟩
    · next balance hbal =>
      have hfit' := hfit id
      rw [FinMap.amount_of_get? hbal] at hfit'
      obtain ⟨st', happly⟩ : ∃ st', applyEdict lib tx id edict (balance, st.2) = .ok st' :=
        applyEdict_returns hedict hlen hfit'
      exact ⟨_, (), hedict, except_bind_eq_ok.mpr ⟨st', happly, rfl⟩⟩

/-- Premine and edicts. -/
theorem indexRunestone_returns {lib : Crates} {tx : Transaction} {artifact : Artifact}
    {etched : Option (RuneId × Rune)} {t : LotMap}
    (hedicts : ∀ r, artifact = .runestone r → ∀ edict ∈ r.edicts,
      edict.output ≤ tx.output.length)
    (hetching : ∀ r, artifact = .runestone r → etched.isSome → r.etching.isSome)
    (hfit : ∀ id, t.amount id +
      (if etched.map Prod.fst = some id then premineOf artifact etched else 0) < u128Bound) :
    ∃ t' a', indexRunestone lib tx artifact etched t = .ok (t', a') := by
  unfold indexRunestone
  cases artifact with
  | cenotaph c => exact ⟨t, _, rfl⟩
  | runestone r =>
    obtain ⟨t₁, hpremine, hamount⟩ : ∃ t₁, addPremine r t etched = .ok t₁ ∧
        ∀ id, t₁.amount id < u128Bound := by
      cases etched with
      | none => exact ⟨t, rfl, fun id => by simpa using hfit id⟩
      | some pair =>
        obtain ⟨etching, he⟩ := Option.isSome_iff_exists.mp (hetching r rfl rfl)
        have hvalue : premineOf (.runestone r) (some pair) = etching.premine.getD 0 := by
          simp [premineOf, he]
        have hpair := hfit pair.1
        rw [hvalue, Option.map_some, if_pos rfl] at hpair
        obtain ⟨t₁, hadd⟩ := addTo_returns _ _ _ hpair
        refine ⟨t₁, except_bind_eq_ok.mpr ⟨etching, unwrap_eq_ok.mpr he, hadd⟩, fun id => ?_⟩
        have hid := hfit id
        rw [hvalue, Option.map_some] at hid
        rw [addTo_amount hadd]
        simpa using hid
    -- edicts only move what is there, so the sum fits throughout
    obtain ⟨⟨t', a'⟩, hloop, -⟩ := except_foldlM_total
      (P := Moves (t₁, List.replicate tx.output.length ∅)) (f := indexEdict lib tx etched)
      (l := r.edicts)
      (fun edict he st hst => by
        obtain ⟨st', hstep⟩ : ∃ st', indexEdict lib tx etched st edict = .ok st' := by
          refine indexEdict_returns (hedicts r rfl edict he) (by simpa using hst.length) ?_
          intro id
          rw [hst.total id, allocatedTo_replicate, Nat.add_zero]
          exact hamount id
        exact ⟨st', hstep, hst.trans (indexEdict_moves hstep)⟩) (.refl _)
    exact ⟨t', a', except_bind_eq_ok.mpr ⟨t₁, hpremine, hloop⟩⟩

/-! ### The default assignment -/

theorem assign_returns {vout : Nat} {l : List (RuneId × Nat)} {a : List LotMap}
    (hvout : vout < a.length) (hfit : ∀ id, allocatedTo a id + sumAt l id < u128Bound) :
    ∃ a', l.foldlM (fun allocated e => do
      let balances ← indexAt allocated vout
      return allocated.set vout (← LotMap.addTo balances e.1 e.2)) a = .ok a' := by
  induction l generalizing a with
  | nil => exact ⟨a, except_foldlM_nil.mpr rfl⟩
  | cons e l ih =>
    have hget : a[vout]? = some a[vout] := List.getElem?_eq_getElem hvout
    have hroom := amount_le_allocatedTo hget e.1
    have he := hfit e.1
    rw [sumAt_cons, if_pos rfl] at he
    obtain ⟨m', hadd⟩ := addTo_returns a[vout] e.1 e.2 (by omega)
    obtain ⟨a', hrest⟩ := ih (a := a.set vout m') (by simpa using hvout) fun id => by
      have hid := hfit id
      rw [sumAt_cons] at hid
      rw [(addTo_set hget hadd).1 id]
      omega
    refine ⟨a', except_foldlM_cons.mpr ⟨_, ?_, hrest⟩⟩
    exact except_bind_eq_ok.mpr ⟨_, indexAt_eq_ok.mpr hget,
      except_bind_eq_ok.mpr ⟨m', hadd, rfl⟩⟩

theorem defaultOutput_returns (lib : Crates) {tx : Transaction} {pointer : Option Nat}
    (h : ∀ p, pointer = some p → p < tx.output.length) :
    ∃ out, defaultOutput lib tx pointer = .ok out ∧ ∀ vout, out = some vout →
      vout < tx.output.length := by
  unfold defaultOutput
  cases pointer with
  | some p =>
    refine ⟨some p, except_bind_eq_ok.mpr ⟨(), assertThat_eq_ok.mpr (h p rfl), rfl⟩, ?_⟩
    intro vout hvout
    cases hvout
    exact h p rfl
  | none =>
    refine ⟨_, rfl, fun vout hvout => ?_⟩
    obtain ⟨hlt, -⟩ := List.findIdx?_eq_some_iff_getElem.mp hvout
    exact hlt

theorem assignUnallocated_returns {lib : Crates} {tx : Transaction} {artifact : Option Artifact}
    {l : List (RuneId × Nat)} {a : List LotMap}
    (hpointer : ∀ r p, artifact = some (.runestone r) → r.pointer = some p →
      p < tx.output.length)
    (hlen : a.length = tx.output.length)
    (hfit : ∀ id, allocatedTo a id + sumAt l id < u128Bound) :
    ∃ a' burned, assignUnallocated lib tx artifact l a = .ok (a', burned) := by
  have hburn : ∀ l' : List (RuneId × Nat), (∀ id, sumAt l' id = sumAt l id) →
      ∃ m, addAll ∅ l' = .ok m := by
    intro l' hsum
    refine addAll_returns fun id => ?_
    have := hfit id
    rw [hsum, FinMap.amount_empty]
    omega
  unfold assignUnallocated
  split
  · obtain ⟨m, hm⟩ := hburn l fun _ => rfl
    exact ⟨a, m, except_bind_eq_ok.mpr ⟨m, hm, rfl⟩⟩
  -- without a cenotaph there is a default output, or what is left is burned
  · lift_lets
    intro pointer
    have hp : ∀ p, pointer = some p → p < tx.output.length := by
      intro p hp
      simp only [pointer] at hp
      split at hp
      · exact hpointer _ p rfl hp
      · cases hp
    obtain ⟨out, hout, hlt⟩ := defaultOutput_returns lib hp
    cases out with
    | some vout =>
      obtain ⟨a', hloop⟩ := assign_returns (l := positive l) (hlen.symm ▸ hlt vout rfl) fun id => by
        rw [sumAt_positive]
        exact hfit id
      exact ⟨a', ∅, except_bind_eq_ok.mpr ⟨_, hout, except_bind_eq_ok.mpr ⟨a', hloop, rfl⟩⟩⟩
    | none =>
      obtain ⟨m, hm⟩ := hburn (positive l) (sumAt_positive l)
      exact ⟨a, m, except_bind_eq_ok.mpr ⟨_, hout, except_bind_eq_ok.mpr ⟨m, hm, rfl⟩⟩⟩

end RunesIndexer
