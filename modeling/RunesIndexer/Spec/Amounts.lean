import RunesIndexer.Spec.Transaction

/-! # Amounts inside a transaction

    What the local maps of `index_runes` hold, rune by rune: every step moves
    amounts between `unallocated`, `allocated` and `burned` and neither makes nor
    drops a unit. The statements are about completed steps; that the checked
    arithmetic does not fail is a separate matter.
-/

namespace RunesIndexer

open MonadicFold

/-! ### Sums by rune -/

/-- The amount of a rune along an iteration. -/
def sumAt (l : List (RuneId × Nat)) (id : RuneId) : Nat :=
  (l.map fun e => if e.1 = id then e.2 else 0).sum

@[simp] theorem sumAt_nil (id : RuneId) : sumAt [] id = 0 := rfl

@[simp] theorem sumAt_cons (e : RuneId × Nat) (l : List (RuneId × Nat)) (id : RuneId) :
    sumAt (e :: l) id = (if e.1 = id then e.2 else 0) + sumAt l id := by
  simp [sumAt]

/-- The amount of a rune over all outputs. -/
def allocatedTo (a : List LotMap) (id : RuneId) : Nat := (a.map fun m => m.amount id).sum

@[simp] theorem allocatedTo_replicate (n : Nat) (id : RuneId) :
    allocatedTo (List.replicate n ∅) id = 0 := by
  simp [allocatedTo]

/-- Every amount in every map satisfies `P`. -/
def AllIn (P : RuneId → Nat → Prop) (a : List LotMap) : Prop :=
  ∀ m ∈ a, ∀ id n, m.get? id = some n → P id n

theorem allIn_replicate (P : RuneId → Nat → Prop) (n : Nat) :
    AllIn P (List.replicate n ∅) := by
  intro m hm id k hk
  rw [List.eq_of_mem_replicate hm, FinMap.get?_empty] at hk
  cases hk

/-- The keys of a map satisfy `P`. -/
def LotMap.KeysIn (P : RuneId → Prop) (m : LotMap) : Prop :=
  ∀ id, (m.get? id).isSome → P id

theorem LotMap.keysIn_empty (P : RuneId → Prop) : LotMap.KeysIn P ∅ := by
  intro id h
  simp at h

/-! ### Adding to a map -/

theorem addTo_amount {m m' : LotMap} {id : RuneId} {n : Nat} (h : m.addTo id n = .ok m')
    (id' : RuneId) : m'.amount id' = m.amount id' + if id = id' then n else 0 := by
  obtain ⟨-, rfl⟩ := LotMap.addTo_eq_ok.mp h
  rw [FinMap.amount_insert]
  by_cases hid : id' = id
  · subst hid; simp
  · simp [hid, Ne.symm hid]

theorem addTo_isSome {m m' : LotMap} {id : RuneId} {n : Nat} (h : m.addTo id n = .ok m')
    (id' : RuneId) : (m'.get? id').isSome ↔ id' = id ∨ (m.get? id').isSome := by
  obtain ⟨-, rfl⟩ := LotMap.addTo_eq_ok.mp h
  rw [FinMap.get?_insert]
  by_cases hid : id' = id <;> simp [hid]

theorem LotMap.KeysIn.addTo {P : RuneId → Prop} {m m' : LotMap} {id : RuneId} {n : Nat}
    (hm : m.KeysIn P) (hid : P id) (h : m.addTo id n = .ok m') : m'.KeysIn P := by
  intro id' h'
  rcases (addTo_isSome h id').mp h' with rfl | h'
  · exact hid
  · exact hm id' h'

/-- A whole iteration is added, each rune by its own sum. -/
theorem addAll_amount {m m' : LotMap} {l : List (RuneId × Nat)}
    (h : RuneUpdater.addAll m l = .ok m') (id : RuneId) :
    m'.amount id = m.amount id + sumAt l id := by
  unfold RuneUpdater.addAll at h
  induction l generalizing m with
  | nil => rw [except_foldlM_nil.mp h]; simp
  | cons e l ih =>
    obtain ⟨m₁, h₁, h₂⟩ := except_foldlM_cons.mp h
    rw [ih h₂, addTo_amount h₁, sumAt_cons]
    omega

theorem addAll_keysIn {P : RuneId → Prop} {m m' : LotMap} {l : List (RuneId × Nat)}
    (hm : m.KeysIn P) (hl : ∀ e ∈ l, P e.1) (h : RuneUpdater.addAll m l = .ok m') :
    m'.KeysIn P :=
  except_foldlM_invariant (fun e he _ _ hb hstep => hb.addTo (hl e he) hstep) hm h

/-! ### Iterations -/

theorem mem_iter {ord : HashOrder} {site : IterSite} {m : LotMap} {e : RuneId × Nat} :
    e ∈ ord.iter site m ↔ m.get? e.1 = some e.2 := by
  rw [FinMap.get?_eq_some, ← ord.iter_perm site m, Multiset.mem_coe]

theorem iter_perm_iter (ord ord' : HashOrder) (site site' : IterSite) (m : LotMap) :
    (ord.iter site m).Perm (ord'.iter site' m) :=
  Multiset.coe_eq_coe.mp ((ord.iter_perm site m).trans (ord'.iter_perm site' m).symm)

/-- An iteration meets each key once. -/
theorem iter_nodup (ord : HashOrder) (site : IterSite) (m : LotMap) :
    ((ord.iter site m).map Prod.fst).Nodup := by
  rw [← Multiset.coe_nodup, ← Multiset.map_coe, ord.iter_perm site m]
  unfold FinMap.toMultiset
  rw [Multiset.map_map]
  exact Multiset.nodup_keys.mpr m.nodupKeys

theorem sumAt_of_notMem {l : List (RuneId × Nat)} {id : RuneId} (h : id ∉ l.map Prod.fst) :
    sumAt l id = 0 := by
  induction l with
  | nil => rfl
  | cons e l ih =>
    simp only [List.map_cons, List.mem_cons, not_or] at h
    simp [ih h.2, Ne.symm h.1]

/-- A list with one amount for each rune. -/
theorem sumAt_of_mem {l : List (RuneId × Nat)} {id : RuneId} {n : Nat}
    (hnodup : (l.map Prod.fst).Nodup) (h : (id, n) ∈ l) : sumAt l id = n := by
  obtain ⟨l₁, l₂, rfl⟩ := List.append_of_mem h
  simp only [List.map_append, List.map_cons, List.nodup_append, List.nodup_cons] at hnodup
  have h₁ : sumAt l₁ id = 0 :=
    sumAt_of_notMem fun h => hnodup.2.2 id h id List.mem_cons_self rfl
  have h₂ : sumAt l₂ id = 0 := sumAt_of_notMem hnodup.2.1.1
  have happ : sumAt (l₁ ++ (id, n) :: l₂) id = sumAt l₁ id + sumAt ((id, n) :: l₂) id := by
    simp [sumAt]
  rw [happ, sumAt_cons, h₁, h₂]
  simp

/-- An iteration meets the amount of each rune once. -/
theorem sumAt_iter (ord : HashOrder) (site : IterSite) (m : LotMap) (id : RuneId) :
    sumAt (ord.iter site m) id = m.amount id := by
  cases hget : m.get? id with
  | none =>
    rw [FinMap.amount_of_get?_eq_none hget]
    refine sumAt_of_notMem fun hmem => ?_
    obtain ⟨e, he, rfl⟩ := List.mem_map.mp hmem
    rw [mem_iter.mp he] at hget
    cases hget
  | some n =>
    rw [FinMap.amount_of_get? hget]
    exact sumAt_of_mem (iter_nodup ord site m) (mem_iter.mpr hget)

theorem sumAt_positive (l : List (RuneId × Nat)) (id : RuneId) :
    sumAt (RuneUpdater.positive l) id = sumAt l id := by
  unfold RuneUpdater.positive
  induction l with
  | nil => rfl
  | cons e l ih =>
    rw [List.filter_cons]
    split
    · rw [sumAt_cons, sumAt_cons, ih]
    · next h =>
      have h0 : e.2 = 0 := by simpa using h
      rw [sumAt_cons, ih, h0]
      simp

/-! ### Allocation -/

/-- Between `st` and `st'` an amount of `id` moved from the balance to the outputs. -/
structure Allocates (id : RuneId) (st st' : Nat × List LotMap) : Prop where
  total : st'.1 + allocatedTo st'.2 id = st.1 + allocatedTo st.2 id
  others : ∀ id', id' ≠ id → allocatedTo st'.2 id' = allocatedTo st.2 id'
  length : st'.2.length = st.2.length
  positive : ∀ P : RuneId → Prop, P id → AllIn (fun id' n => P id' ∧ 0 < n) st.2 →
    AllIn (fun id' n => P id' ∧ 0 < n) st'.2

theorem Allocates.refl (id : RuneId) (st : Nat × List LotMap) : Allocates id st st :=
  ⟨rfl, fun _ _ => rfl, rfl, fun _ _ h => h⟩

theorem Allocates.trans {id : RuneId} {st₁ st₂ st₃ : Nat × List LotMap}
    (h : Allocates id st₁ st₂) (h' : Allocates id st₂ st₃) : Allocates id st₁ st₃ where
  total := h'.total.trans h.total
  others id' hid := (h'.others id' hid).trans (h.others id' hid)
  length := h'.length.trans h.length
  positive P hP ha := h'.positive P hP (h.positive P hP ha)

/-- Replacing one element changes a sum by the difference of the two readings. -/
theorem sum_map_set {α : Type} (f : α → Nat) (l : List α) {i : Nat} {a : α} (h : l[i]? = some a) (b : α) :
    ((l.set i b).map f).sum + f a = (l.map f).sum + f b := by
  induction l generalizing i with
  | nil => simp at h
  | cons c l ih =>
    cases i with
    | zero =>
      simp only [List.getElem?_cons_zero, Option.some.injEq] at h
      subst h
      simp only [List.set_cons_zero, List.map_cons, List.sum_cons]
      omega
    | succ i =>
      have := ih (i := i) (by simpa using h)
      simp only [List.set_cons_succ, List.map_cons, List.sum_cons]
      omega

/-- Adding to the map of one output. -/
theorem addTo_set {a : List LotMap} {output : Nat} {m m' : LotMap} {id : RuneId} {n : Nat}
    (hm : a[output]? = some m) (h : m.addTo id n = .ok m') :
    (∀ id', allocatedTo (a.set output m') id' =
      allocatedTo a id' + if id = id' then n else 0) ∧
    ∀ P : RuneId → Nat → Prop, P id (m.amount id + n) → AllIn P a →
      AllIn P (a.set output m') := by
  constructor
  · intro id'
    have hset := sum_map_set (fun m => m.amount id') a hm m'
    have hadd := addTo_amount h id'
    unfold allocatedTo
    omega
  · intro P hP ha m₁ hm₁ id' k hk
    rcases List.mem_or_eq_of_mem_set hm₁ with hmem | rfl
    · exact ha m₁ hmem id' k hk
    · obtain ⟨-, rfl⟩ := LotMap.addTo_eq_ok.mp h
      rw [FinMap.get?_insert] at hk
      split at hk
      · next hid =>
        cases hk
        rw [hid]
        exact hP
      · exact ha m (List.mem_of_getElem? hm) id' k hk

theorem allocate_allocates {id : RuneId} {st st' : Nat × List LotMap} {amount output : Nat}
    (h : RuneUpdater.allocate id st amount output = .ok st') : Allocates id st st' := by
  unfold RuneUpdater.allocate at h
  split at h
  · next hpos =>
    obtain ⟨balance, hsub, h⟩ := except_bind_eq_ok.mp h
    obtain ⟨m, hm, h⟩ := except_bind_eq_ok.mp h
    obtain ⟨m', hadd, h⟩ := except_bind_eq_ok.mp h
    rw [except_pure_eq_ok.mp h]
    obtain ⟨hle, rfl⟩ := Lot.sub_eq_ok.mp hsub
    obtain ⟨htotal, hall⟩ := addTo_set (indexAt_eq_ok.mp hm) hadd
    refine ⟨?_, ?_, by simp, ?_⟩
    · have := htotal id
      simp only [if_true] at this
      dsimp only
      omega
    · intro id' hid
      simpa [Ne.symm hid] using htotal id'
    · intro P hP ha
      exact hall _ ⟨hP, by omega⟩ ha
  · rw [except_pure_eq_ok.mp h]
    exact .refl id st

theorem splitEvenly_allocates {id : RuneId} {destinations : List Nat} {st st' : Nat × List LotMap}
    (h : RuneUpdater.splitEvenly id destinations st = .ok st') : Allocates id st st' := by
  unfold RuneUpdater.splitEvenly at h
  obtain ⟨remainder, -, h⟩ := except_bind_eq_ok.mp h
  refine except_foldlM_invariant (P := Allocates id st) ?_ (.refl id st) h
  intro e _ st₁ st₂ hst hstep
  obtain ⟨amount, -, hstep⟩ := except_bind_eq_ok.mp hstep
  exact hst.trans (allocate_allocates hstep)

theorem distribute_allocates {id : RuneId} {amount : Nat} {destinations : List Nat}
    {st st' : Nat × List LotMap}
    (h : RuneUpdater.distribute id amount destinations st = .ok st') : Allocates id st st' :=
  except_foldlM_invariant (P := Allocates id st)
    (fun _ _ _ _ hst hstep => hst.trans (allocate_allocates hstep)) (.refl id st) h

theorem applyEdict_allocates {lib : Crates} {tx : Transaction} {id : RuneId} {edict : Edict}
    {st st' : Nat × List LotMap}
    (h : RuneUpdater.applyEdict lib tx id edict st = .ok st') : Allocates id st st' := by
  unfold RuneUpdater.applyEdict at h
  split at h
  · split at h
    · rw [except_pure_eq_ok.mp h]
      exact .refl id st
    · split at h
      · exact splitEvenly_allocates h
      · exact distribute_allocates h
  · exact allocate_allocates h

/-! ### Edicts -/

/-- Between `st` and `st'` amounts moved from `unallocated` to the outputs. -/
structure Moves (st st' : LotMap × List LotMap) : Prop where
  total : ∀ id, st'.1.amount id + allocatedTo st'.2 id = st.1.amount id + allocatedTo st.2 id
  length : st'.2.length = st.2.length
  keys : ∀ id, (st'.1.get? id).isSome ↔ (st.1.get? id).isSome
  positive : ∀ P : RuneId → Prop, st.1.KeysIn P → AllIn (fun id n => P id ∧ 0 < n) st.2 →
    AllIn (fun id n => P id ∧ 0 < n) st'.2

theorem Moves.refl (st : LotMap × List LotMap) : Moves st st :=
  ⟨fun _ => rfl, rfl, fun _ => Iff.rfl, fun _ _ h => h⟩

theorem Moves.keysIn {st st' : LotMap × List LotMap} (h : Moves st st') {P : RuneId → Prop}
    (hP : st.1.KeysIn P) : st'.1.KeysIn P :=
  fun id hid => hP id ((h.keys id).mp hid)

theorem Moves.trans {st₁ st₂ st₃ : LotMap × List LotMap} (h : Moves st₁ st₂)
    (h' : Moves st₂ st₃) : Moves st₁ st₃ where
  total id := (h'.total id).trans (h.total id)
  length := h'.length.trans h.length
  keys id := (h'.keys id).trans (h.keys id)
  positive P hP ha := h'.positive P (h.keysIn hP) (h.positive P hP ha)

theorem indexEdict_moves {lib : Crates} {tx : Transaction} {etched : Option (RuneId × Rune)}
    {st st' : LotMap × List LotMap} {edict : Edict}
    (h : RuneUpdater.indexEdict lib tx etched st edict = .ok st') : Moves st st' := by
  unfold RuneUpdater.indexEdict at h
  obtain ⟨_, -, h⟩ := except_bind_eq_ok.mp h
  split at h
  · rw [except_pure_eq_ok.mp h]
    exact .refl st
  · next id _ =>
    split at h
    · rw [except_pure_eq_ok.mp h]
      exact .refl st
    · next balance hbal =>
      obtain ⟨⟨balance', a'⟩, hedict, h⟩ := except_bind_eq_ok.mp h
      rw [except_pure_eq_ok.mp h]
      -- only the balance of the edict's rune changes
      have halloc := applyEdict_allocates hedict
      refine ⟨fun id' => ?_, halloc.length, fun id' => ?_, fun P hP ha => ?_⟩
      · by_cases hid : id' = id
        · subst hid
          have := halloc.total
          rw [FinMap.amount_insert, if_pos rfl, FinMap.amount_of_get? hbal]
          exact this
        · rw [FinMap.amount_insert, if_neg hid]
          exact congrArg _ (halloc.others id' hid)
      · rw [FinMap.get?_insert]
        by_cases hid : id' = id
        · subst hid; simp [hbal]
        · simp [hid]
      · exact halloc.positive P (hP id (by simp [hbal])) ha

/-- The premine a transaction puts into its unallocated runes. -/
def premineOf (artifact : Artifact) (etched : Option (RuneId × Rune)) : Nat :=
  match artifact, etched with
  | .runestone runestone, some _ => (runestone.etching.bind (·.premine)).getD 0
  | _, _ => 0

/-- Premine and edicts together. -/
theorem indexRunestone_total {lib : Crates} {tx : Transaction} {artifact : Artifact}
    {etched : Option (RuneId × Rune)} {t t' : LotMap} {a' : List LotMap}
    (h : RuneUpdater.indexRunestone lib tx artifact etched t = .ok (t', a')) :
    (∀ id, t'.amount id + allocatedTo a' id = t.amount id +
      if etched.map Prod.fst = some id then premineOf artifact etched else 0) ∧
    a'.length = tx.output.length ∧
    ∀ P : RuneId → Prop, t.KeysIn P → (∀ id ∈ etched.map Prod.fst, P id) →
      t'.KeysIn P ∧ AllIn (fun id n => P id ∧ 0 < n) a' := by
  unfold RuneUpdater.indexRunestone at h
  cases artifact with
  | cenotaph c =>
    cases except_pure_eq_ok.mp h
    exact ⟨fun id => by simp [premineOf], by simp, fun P hP _ => ⟨hP, allIn_replicate _ _⟩⟩
  | runestone runestone =>
    obtain ⟨t₁, ht₁, h⟩ := except_bind_eq_ok.mp h
    have hmoves : Moves (t₁, List.replicate tx.output.length ∅) (t', a') :=
      except_foldlM_invariant (P := Moves (t₁, List.replicate tx.output.length ∅))
        (fun _ _ _ _ hst hstep => hst.trans (indexEdict_moves hstep)) (.refl _) h
    -- the premine is added before any edict moves a unit
    have hpremine : (∀ id, t₁.amount id = t.amount id +
        if etched.map Prod.fst = some id then premineOf (.runestone runestone) etched else 0) ∧
        ∀ P : RuneId → Prop, t.KeysIn P → (∀ id ∈ etched.map Prod.fst, P id) → t₁.KeysIn P := by
      cases etched with
      | none =>
        cases except_pure_eq_ok.mp ht₁
        exact ⟨fun id => by simp, fun P hP _ => hP⟩
      | some pair =>
        obtain ⟨etching, hetching, hadd⟩ := except_bind_eq_ok.mp ht₁
        rw [unwrap_eq_ok] at hetching
        refine ⟨fun id => ?_, fun P hP hid => hP.addTo (hid _ (by simp)) hadd⟩
        rw [addTo_amount hadd]
        simp [premineOf, hetching]
    refine ⟨fun id => ?_, by simpa using hmoves.length, fun P hP hid => ?_⟩
    · have := hmoves.total id
      have := hpremine.1 id
      simp only [allocatedTo_replicate] at *
      omega
    · have hP₁ := hpremine.2 P hP hid
      exact ⟨hmoves.keysIn hP₁, hmoves.positive P hP₁ (allIn_replicate _ _)⟩

/-! ### The default assignment -/

theorem assign_total {vout : Nat} {l : List (RuneId × Nat)} {a a' : List LotMap}
    (h : l.foldlM (fun allocated e => do
      let balances ← indexAt allocated vout
      return allocated.set vout (← LotMap.addTo balances e.1 e.2)) a = .ok a') :
    (∀ id, allocatedTo a' id = allocatedTo a id + sumAt l id) ∧ a'.length = a.length ∧
    ∀ P : RuneId → Prop, (∀ e ∈ l, P e.1 ∧ 0 < e.2) → AllIn (fun id n => P id ∧ 0 < n) a →
      AllIn (fun id n => P id ∧ 0 < n) a' := by
  induction l generalizing a with
  | nil =>
    rw [except_foldlM_nil.mp h]
    exact ⟨fun _ => by simp, rfl, fun _ _ ha => ha⟩
  | cons e l ih =>
    obtain ⟨a₁, h₁, h₂⟩ := except_foldlM_cons.mp h
    obtain ⟨m, hm, h₁⟩ := except_bind_eq_ok.mp h₁
    obtain ⟨m', hadd, h₁⟩ := except_bind_eq_ok.mp h₁
    rw [except_pure_eq_ok.mp h₁] at h₂
    obtain ⟨htotal, hlength, hpos⟩ := ih h₂
    obtain ⟨hset, hall⟩ := addTo_set (indexAt_eq_ok.mp hm) hadd
    refine ⟨fun id => ?_, by simpa using hlength, fun P hP ha => ?_⟩
    · rw [htotal, hset, sumAt_cons]
      omega
    · refine hpos P (fun e' he' => hP e' (List.mem_cons_of_mem _ he')) ?_
      exact hall _ ⟨(hP e List.mem_cons_self).1, by have := (hP e List.mem_cons_self).2; omega⟩ ha

theorem mem_positive {l : List (RuneId × Nat)} {e : RuneId × Nat} :
    e ∈ RuneUpdater.positive l ↔ e ∈ l ∧ 0 < e.2 := by
  simp [RuneUpdater.positive]

/-- Every unallocated rune ends in an output or is burned. -/
theorem assignUnallocated_total {lib : Crates} {tx : Transaction} {artifact : Option Artifact}
    {l : List (RuneId × Nat)} {a a' : List LotMap} {burned : LotMap}
    (h : RuneUpdater.assignUnallocated lib tx artifact l a = .ok (a', burned)) :
    (∀ id, allocatedTo a' id + burned.amount id = allocatedTo a id + sumAt l id) ∧
    a'.length = a.length ∧
    ∀ P : RuneId → Prop, (∀ e ∈ l, P e.1) → AllIn (fun id n => P id ∧ 0 < n) a →
      AllIn (fun id n => P id ∧ 0 < n) a' ∧ burned.KeysIn P := by
  -- both ways to burn: entries of zero do not change the sum
  have hburn : ∀ {l' : List (RuneId × Nat)} {m' : LotMap}, (∀ e ∈ l', e ∈ l) →
      (∀ id, sumAt l' id = sumAt l id) → RuneUpdater.addAll ∅ l' = .ok m' →
      (∀ id, allocatedTo a id + m'.amount id = allocatedTo a id + sumAt l id) ∧
      a.length = a.length ∧
      ∀ P : RuneId → Prop, (∀ e ∈ l, P e.1) → AllIn (fun id n => P id ∧ 0 < n) a →
        AllIn (fun id n => P id ∧ 0 < n) a ∧ m'.KeysIn P := by
    intro l' m' hsub hsum hadd
    refine ⟨fun id => ?_, rfl, fun P hP ha => ⟨ha, ?_⟩⟩
    · rw [addAll_amount hadd, hsum]
      simp
    · exact addAll_keysIn (LotMap.keysIn_empty P) (fun e he => hP e (hsub e he)) hadd
  unfold RuneUpdater.assignUnallocated at h
  split at h
  · obtain ⟨m', hadd, h⟩ := except_bind_eq_ok.mp h
    cases except_pure_eq_ok.mp h
    exact hburn (fun e he => he) (fun _ => rfl) hadd
  · obtain ⟨vout, -, h⟩ := except_bind_eq_ok.mp h
    cases vout with
    | none =>
      obtain ⟨m', hadd, h⟩ := except_bind_eq_ok.mp h
      cases except_pure_eq_ok.mp h
      exact hburn (fun e he => (mem_positive.mp he).1) (sumAt_positive l) hadd
    | some vout =>
      obtain ⟨a₁, hassign, h⟩ := except_bind_eq_ok.mp h
      cases except_pure_eq_ok.mp h
      obtain ⟨htotal, hlength, hpos⟩ := assign_total hassign
      refine ⟨fun id => ?_, hlength, fun P hP ha => ⟨?_, LotMap.keysIn_empty P⟩⟩
      · rw [htotal, sumAt_positive]
        simp
      · refine hpos P (fun e he => ?_) ha
        exact ⟨hP e (mem_positive.mp he).1, (mem_positive.mp he).2⟩

end RunesIndexer
