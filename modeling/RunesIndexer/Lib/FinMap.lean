import Mathlib.Data.Finmap
import Mathlib.Data.Finset.Max
import Mathlib.Algebra.BigOperators.Group.Multiset.Basic

/-! # Finite maps

    Mathlib's `Finmap` at a constant family, under the vocabulary of a key-value
    store: lookup, insertion, removal, pruning by key, the greatest key, and
    the sum of a numeric reading over all entries. Every operation has one lemma
    saying what a lookup in its result is, in `if` form, so that goals about maps
    reduce to goals about lookups (`FinMap.ext`).

    Nothing here mentions a particular store.
-/

/-- Finite maps from `K` to `V`, equal when their lookups are (`FinMap.ext`). -/
abbrev FinMap (K V : Type) : Type := Finmap fun _ : K => V

namespace FinMap

variable {K V : Type}

/-! ### Operations -/

/-- The key-value pairs of a map, in no order. -/
def toMultiset (m : FinMap K V) : Multiset (K × V) :=
  (Finmap.entries m).map fun e => (e.1, e.2)

/-- The keys of a map. -/
def keys (m : FinMap K V) : Finset K := Finmap.keys m

/-- The number of entries. -/
def size (m : FinMap K V) : Nat := m.toMultiset.card

/-- The sum of `f` over all entries. -/
def total (f : K → V → Nat) (m : FinMap K V) : Nat :=
  (m.toMultiset.map fun e => f e.1 e.2).sum

section ops
variable [DecidableEq K]

/-- The value stored at a key. -/
def get? (m : FinMap K V) (k : K) : Option V := Finmap.lookup k m

/-- Store a value, replacing what the key held. -/
def insert (m : FinMap K V) (k : K) (v : V) : FinMap K V := Finmap.insert k v m

/-- Remove a key. -/
def erase (m : FinMap K V) (k : K) : FinMap K V := Finmap.erase k m

/-- Store a value unless the key already holds one. -/
def insertNew (m : FinMap K V) (k : K) (v : V) : FinMap K V :=
  if (m.get? k).isSome then m else m.insert k v

/-- Keep the entries whose key satisfies `p`. -/
def filterKeys (p : K → Bool) (m : FinMap K V) : FinMap K V where
  entries := (Finmap.entries m).filter fun e => p e.1
  nodupKeys := Multiset.nodup_keys.mp <|
    Multiset.nodup_of_le (Multiset.map_le_map (Multiset.filter_le _ _))
      (Multiset.nodup_keys.mpr m.nodupKeys)

end ops

/-! ### Lookups -/

section lookups
variable [DecidableEq K]

theorem get?_eq_some {m : FinMap K V} {k : K} {v : V} :
    m.get? k = some v ↔ (k, v) ∈ m.toMultiset := by
  unfold get? toMultiset
  rw [Finmap.lookup_eq_some_iff, Multiset.mem_map]
  constructor
  · exact fun h => ⟨⟨k, v⟩, h, rfl⟩
  · rintro ⟨⟨k', v'⟩, hmem, heq⟩
    cases heq
    exact hmem

/-- Maps with the same lookups are equal. -/
theorem ext {m m' : FinMap K V} (h : ∀ k, m.get? k = m'.get? k) : m = m' :=
  Finmap.ext_lookup h

theorem ext_except {m m' : FinMap K V} (k : K) (hk : m.get? k = m'.get? k)
    (h : ∀ k', k' ≠ k → m.get? k' = m'.get? k') : m = m' := by
  refine ext fun k' => ?_
  by_cases heq : k' = k
  · rw [heq, hk]
  · exact h k' heq

@[simp] theorem get?_empty (k : K) : (∅ : FinMap K V).get? k = none :=
  Finmap.lookup_empty k

theorem get?_insert (m : FinMap K V) (k : K) (v : V) (k' : K) :
    (m.insert k v).get? k' = if k' = k then some v else m.get? k' := by
  split
  · next h => subst h; exact Finmap.lookup_insert m
  · next h => exact Finmap.lookup_insert_of_ne m h

@[simp] theorem get?_insert_self (m : FinMap K V) (k : K) (v : V) :
    (m.insert k v).get? k = some v := by
  simp [get?_insert]

theorem get?_insert_ne (m : FinMap K V) {k k' : K} (v : V) (h : k' ≠ k) :
    (m.insert k v).get? k' = m.get? k' := by
  simp [get?_insert, h]

theorem get?_erase (m : FinMap K V) (k k' : K) :
    (m.erase k).get? k' = if k' = k then none else m.get? k' := by
  split
  · next h => subst h; exact Finmap.lookup_erase k' m
  · next h => exact Finmap.lookup_erase_ne h

@[simp] theorem get?_erase_self (m : FinMap K V) (k : K) : (m.erase k).get? k = none := by
  simp [get?_erase]

theorem get?_filterKeys (p : K → Bool) (m : FinMap K V) (k : K) :
    (m.filterKeys p).get? k = if p k then m.get? k else none := by
  apply Option.ext
  intro v
  have hmem : ∀ m' : FinMap K V, m'.get? k = some v ↔ ⟨k, v⟩ ∈ Finmap.entries m' :=
    fun m' => Finmap.lookup_eq_some_iff
  rw [hmem]
  unfold filterKeys
  rw [Multiset.mem_filter]
  by_cases hp : p k <;> simp [hp, hmem]

theorem get?_insertNew (m : FinMap K V) (k : K) (v : V) (k' : K) :
    (m.insertNew k v).get? k' = if k' = k then some ((m.get? k).getD v) else m.get? k' := by
  unfold insertNew
  cases h : m.get? k with
  | none => simp [get?_insert]
  | some w =>
    simp only [Option.isSome_some, if_true, Option.getD_some]
    split
    · next hk => rw [hk, h]
    · rfl

/-- Inserting what is already there does nothing. -/
theorem insert_of_get?_eq_some {m : FinMap K V} {k : K} {v : V} (h : m.get? k = some v) :
    m.insert k v = m := by
  apply ext
  intro k'
  rw [get?_insert]
  split
  · next hk => rw [hk, h]
  · rfl

@[simp] theorem insert_insert (m : FinMap K V) (k : K) (v v' : V) :
    (m.insert k v).insert k v' = m.insert k v' := by
  apply ext
  intro k'
  simp only [get?_insert]
  split <;> rfl

theorem insert_comm (m : FinMap K V) {k k' : K} (v v' : V) (h : k ≠ k') :
    (m.insert k v).insert k' v' = (m.insert k' v').insert k v := by
  apply ext
  intro x
  simp only [get?_insert]
  by_cases hx : x = k'
  · subst hx; simp [Ne.symm h]
  · simp [hx]

/-- Storing again where something is stored changes nothing. -/
theorem insertNew_insertNew (m : FinMap K V) (k : K) (v v' : V) :
    (m.insertNew k v).insertNew k v' = m.insertNew k v := by
  apply ext
  intro k'
  simp only [get?_insertNew]
  split
  · cases m.get? k <;> simp
  · rfl

theorem insertNew_comm (m : FinMap K V) {k k' : K} (v v' : V) (h : k ≠ k') :
    (m.insertNew k v).insertNew k' v' = (m.insertNew k' v').insertNew k v := by
  apply ext
  intro j
  simp only [get?_insertNew]
  by_cases hj : j = k
  · subst hj
    simp [h]
  · simp [hj, Ne.symm h]

theorem mem_keys {m : FinMap K V} {k : K} : k ∈ m.keys ↔ (m.get? k).isSome :=
  Finmap.mem_keys.trans Finmap.lookup_isSome.symm

theorem mem_keys_of_get? {m : FinMap K V} {k : K} {v : V} (h : m.get? k = some v) :
    k ∈ m.keys := by
  simp [mem_keys, h]

theorem keys_ext {V' : Type} {m : FinMap K V} {m' : FinMap K V'} :
    m.keys = m'.keys ↔ ∀ k, ((m.get? k).isSome ↔ (m'.get? k).isSome) := by
  rw [Finset.ext_iff]
  exact forall_congr' fun k => by rw [mem_keys, mem_keys]

/-! ### Series of writes -/

section series
variable {α : Type}

theorem get?_foldl_erase (key : α → K) (l : List α) (m : FinMap K V) (k : K) :
    (l.foldl (fun m a => m.erase (key a)) m).get? k =
      if k ∈ l.map key then none else m.get? k := by
  induction l generalizing m with
  | nil => simp
  | cons a l ih =>
    rw [List.foldl_cons, ih, get?_erase, List.map_cons]
    by_cases hl : k ∈ l.map key
    · simp [hl]
    · by_cases ha : k = key a <;> simp [hl, ha]

/-- A key that no write mentions keeps its value. -/
theorem get?_foldl_insert_of_notMem (key : α → K) (val : α → V) {l : List α} {k : K}
    (h : k ∉ l.map key) (m : FinMap K V) :
    (l.foldl (fun m a => m.insert (key a) (val a)) m).get? k = m.get? k := by
  induction l generalizing m with
  | nil => rfl
  | cons a l ih =>
    rw [List.map_cons, List.mem_cons, not_or] at h
    rw [List.foldl_cons, ih h.2, get?_insert_ne _ _ h.1]

/-- A key to which all writes give the same value gets it. -/
theorem get?_foldl_insert_of_mem (key : α → K) (val : α → V) {l : List α} {k : K} {v : V}
    (hmem : k ∈ l.map key) (hval : ∀ a ∈ l, key a = k → val a = v) (m : FinMap K V) :
    (l.foldl (fun m a => m.insert (key a) (val a)) m).get? k = some v := by
  induction l generalizing m with
  | nil => cases hmem
  | cons a l ih =>
    rw [List.foldl_cons]
    by_cases hl : k ∈ l.map key
    · exact ih hl (fun b hb => hval b (List.mem_cons_of_mem _ hb)) _
    · rw [get?_foldl_insert_of_notMem key val hl]
      rw [List.map_cons, List.mem_cons] at hmem
      have hk : k = key a := hmem.resolve_right hl
      rw [hk, get?_insert_self, hval a List.mem_cons_self hk.symm]

/-- The map of the entries in a list, of which a later one replaces an earlier one. -/
def ofList (l : List (K × V)) : FinMap K V := l.foldl (fun m e => m.insert e.1 e.2) ∅

/-- A map is that of its entries in any order. -/
theorem ofList_eq {m : FinMap K V} {l : List (K × V)}
    (h : (l : Multiset (K × V)) = m.toMultiset) : ofList l = m := by
  have hmem : ∀ e, e ∈ l ↔ m.get? e.1 = some e.2 := by
    intro e
    rw [get?_eq_some, ← h, Multiset.mem_coe]
  apply ext
  intro k
  unfold ofList
  by_cases hk : k ∈ l.map Prod.fst
  · obtain ⟨e, he, rfl⟩ := List.mem_map.mp hk
    have hval : ∀ e' ∈ l, e'.1 = e.1 → e'.2 = e.2 := by
      intro e' he' heq
      have hget := (hmem e').mp he'
      rw [heq, (hmem e).mp he] at hget
      exact (Option.some.inj hget).symm
    rw [get?_foldl_insert_of_mem Prod.fst Prod.snd hk hval, (hmem e).mp he]
  · rw [get?_foldl_insert_of_notMem Prod.fst Prod.snd hk, get?_empty]
    by_contra hne
    obtain ⟨v, hv⟩ := Option.ne_none_iff_exists'.mp (Ne.symm hne)
    exact hk (List.mem_map_of_mem ((hmem (k, v)).mpr hv))

/-- Writing back what was removed and erasing what was added gives the map of before. -/
theorem foldl_erase_foldl_insert {start cur : FinMap K V} {added : List K} {removed : List α}
    (key : α → K) (val : α → V) (hfresh : ∀ k ∈ added, start.get? k = none)
    (hremoved : ∀ a ∈ removed, key a ∉ added → start.get? (key a) = some (val a))
    (hsame : ∀ k ∉ added, k ∉ removed.map key → cur.get? k = start.get? k) :
    added.foldl (fun m k => m.erase k)
      (removed.foldl (fun m a => m.insert (key a) (val a)) cur) = start := by
  apply ext
  intro k
  rw [get?_foldl_erase (fun k => k), List.map_id']
  by_cases hadd : k ∈ added
  · rw [if_pos hadd, hfresh k hadd]
  · rw [if_neg hadd]
    by_cases hmem : k ∈ removed.map key
    · obtain ⟨a, ha, rfl⟩ := List.mem_map.mp hmem
      rw [hremoved a ha hadd]
      refine get?_foldl_insert_of_mem key val hmem (fun b hb heq => ?_) cur
      have := (hremoved b hb (heq ▸ hadd)).symm.trans (heq ▸ hremoved a ha hadd)
      exact Option.some.inj this
    · rw [get?_foldl_insert_of_notMem key val hmem, hsame k hadd hmem]

/-- Erasing the keys of `added` takes `cur` back to `start`. -/
structure AddedTo (start : FinMap K V) (key : α → K) (added : List α) (cur : FinMap K V) :
    Prop where
  fresh : ∀ a ∈ added, start.get? (key a) = none
  same : ∀ k ∉ added.map key, cur.get? k = start.get? k

variable {start cur : FinMap K V} {key : α → K} {added : List α}

theorem AddedTo.nil (m : FinMap K V) (key : α → K) : AddedTo m key [] m :=
  ⟨nofun, fun _ _ => rfl⟩

theorem AddedTo.insert (h : AddedTo start key added cur) {a : α} (v : V)
    (hfree : start.get? (key a) = none) :
    AddedTo start key (added ++ [a]) (cur.insert (key a) v) where
  fresh b hb := by
    rcases List.mem_append.mp hb with hb | hb
    · exact h.fresh b hb
    · rw [List.mem_singleton.mp hb]
      exact hfree
  same k hk := by
    rw [List.map_append, List.mem_append, not_or] at hk
    have hne : k ≠ key a := fun heq => hk.2 (by simp [heq])
    rw [get?_insert_ne _ _ hne]
    exact h.same k hk.1

/-- A key that is free now was free at the start. -/
theorem AddedTo.free (h : AddedTo start key added cur) {k : K} (hfree : cur.get? k = none) :
    start.get? k = none := by
  by_cases hmem : k ∈ added.map key
  · obtain ⟨a, ha, rfl⟩ := List.mem_map.mp hmem
    exact h.fresh a ha
  · rw [← h.same k hmem, hfree]

theorem AddedTo.foldl_erase (h : AddedTo start key added cur) :
    added.foldl (fun m a => m.erase (key a)) cur = start := by
  apply ext
  intro k
  rw [get?_foldl_erase]
  by_cases hmem : k ∈ added.map key
  · obtain ⟨a, ha, rfl⟩ := List.mem_map.mp hmem
    rw [if_pos hmem, h.fresh a ha]
  · rw [if_neg hmem, h.same k hmem]

end series

end lookups

/-! ### The greatest key -/

section order
variable [LinearOrder K]

/-- The greatest key. -/
def maxKey? (m : FinMap K V) : Option K :=
  if h : m.keys.Nonempty then some (m.keys.max' h) else none

/-- The entry of the greatest key: what a reverse iteration of an ordered map starts with. -/
def last? (m : FinMap K V) : Option (K × V) :=
  m.maxKey?.bind fun k => (m.get? k).map fun v => (k, v)

theorem maxKey?_eq_some {m : FinMap K V} {k : K} :
    m.maxKey? = some k ↔ k ∈ m.keys ∧ ∀ k' ∈ m.keys, k' ≤ k := by
  unfold maxKey?
  split
  · next h =>
    rw [Option.some.injEq]
    constructor
    · rintro rfl
      exact ⟨Finset.max'_mem _ h, fun k' hk' => Finset.le_max' _ k' hk'⟩
    · rintro ⟨hk, hmax⟩
      exact le_antisymm (hmax _ (Finset.max'_mem _ h)) (Finset.le_max' _ k hk)
  · next h =>
    simp only [reduceCtorEq, false_iff, not_and]
    intro hk
    exact absurd ⟨k, hk⟩ h

theorem maxKey?_eq_none {m : FinMap K V} : m.maxKey? = none ↔ ∀ k, m.get? k = none := by
  unfold maxKey?
  split
  · next h =>
    obtain ⟨k, hk⟩ := h
    simp only [reduceCtorEq, false_iff, not_forall]
    rw [mem_keys] at hk
    exact ⟨k, fun h0 => by simp [h0] at hk⟩
  · next h =>
    simp only [true_iff]
    intro k
    rw [← Option.not_isSome_iff_eq_none]
    exact fun hk => h ⟨k, mem_keys.mpr hk⟩

theorem last?_eq_some {m : FinMap K V} {k : K} {v : V} :
    m.last? = some (k, v) ↔ m.get? k = some v ∧ ∀ k' ∈ m.keys, k' ≤ k := by
  unfold last?
  constructor
  · intro h
    obtain ⟨k0, hk0, h⟩ := Option.bind_eq_some_iff.mp h
    obtain ⟨v0, hv0, heq⟩ := Option.map_eq_some_iff.mp h
    cases heq
    exact ⟨hv0, (maxKey?_eq_some.mp hk0).2⟩
  · rintro ⟨hv, hmax⟩
    have hk : m.maxKey? = some k := maxKey?_eq_some.mpr ⟨mem_keys_of_get? hv, hmax⟩
    simp [hk, hv]

theorem last?_eq_none {m : FinMap K V} : m.last? = none ↔ ∀ k, m.get? k = none := by
  constructor
  · intro h
    apply maxKey?_eq_none.mp
    by_contra hne
    obtain ⟨k, hk⟩ := Option.ne_none_iff_exists'.mp hne
    obtain ⟨v, hv⟩ := Option.isSome_iff_exists.mp (mem_keys.mp (maxKey?_eq_some.mp hk).1)
    have := last?_eq_some.mpr ⟨hv, (maxKey?_eq_some.mp hk).2⟩
    rw [h] at this
    cases this
  · intro h
    simp [last?, maxKey?_eq_none.mpr h]

end order

/-! ### Sums over entries -/

section sums

@[simp] theorem total_empty (f : K → V → Nat) : (∅ : FinMap K V).total f = 0 := rfl

variable [DecidableEq K]

theorem toMultiset_insert_of_get?_eq_none {m : FinMap K V} {k : K} {v : V}
    (h : m.get? k = none) : (m.insert k v).toMultiset = (k, v) ::ₘ m.toMultiset := by
  unfold toMultiset insert
  rw [Finmap.entries_insert_of_notMem (Finmap.lookup_eq_none.mp h), Multiset.map_cons]

/-- Inserting at a fresh key adds the new entry's reading. -/
theorem total_insert_of_get?_eq_none (f : K → V → Nat) {m : FinMap K V} {k : K} {v : V}
    (h : m.get? k = none) : (m.insert k v).total f = f k v + m.total f := by
  simp [total, toMultiset_insert_of_get?_eq_none h]

/-- Erasing a key takes its reading away. -/
theorem total_erase (f : K → V → Nat) {m : FinMap K V} {k : K} {v : V}
    (h : m.get? k = some v) : (m.erase k).total f + f k v = m.total f := by
  have hins : (m.erase k).insert k v = m := by
    apply ext
    intro k'
    rw [get?_insert, get?_erase]
    split
    · next hk => rw [hk, h]
    · rfl
  have := total_insert_of_get?_eq_none f (v := v) (get?_erase_self m k)
  rw [hins] at this
  omega

/-- One entry's reading is at most the total. -/
theorem le_total (f : K → V → Nat) {m : FinMap K V} {k : K} {v : V}
    (h : m.get? k = some v) : f k v ≤ m.total f := by
  have := total_erase f h
  omega

theorem total_eq_zero (f : K → V → Nat) {m : FinMap K V}
    (h : ∀ k v, m.get? k = some v → f k v = 0) : m.total f = 0 := by
  unfold total
  apply Multiset.sum_eq_zero
  intro n hn
  obtain ⟨⟨k, v⟩, hmem, rfl⟩ := Multiset.mem_map.mp hn
  exact h k v (get?_eq_some.mpr hmem)

end sums

/-! ### Counting entries -/

/-- The number of entries that satisfy `p`. -/
def count (p : K → V → Bool) (m : FinMap K V) : Nat := m.toMultiset.countP fun e => p e.1 e.2

theorem count_eq_total (p : K → V → Bool) (m : FinMap K V) :
    m.count p = m.total fun k v => if p k v then 1 else 0 := by
  unfold count total
  induction m.toMultiset using Multiset.induction with
  | empty => rfl
  | cons e s ih =>
    rw [Multiset.countP_cons, Multiset.map_cons, Multiset.sum_cons, ih, Nat.add_comm]

theorem size_eq_total (m : FinMap K V) : m.size = m.total fun _ _ => 1 := by
  simp [size, total]

theorem size_eq_card_keys (m : FinMap K V) : m.size = m.keys.card := by
  simp [size, toMultiset, keys, Finmap.keys, Multiset.keys]

section sizes

variable [DecidableEq K]

/-- Different keys of a map are no more than its entries. -/
theorem card_le_size {m : FinMap K V} {B : Multiset K} (hnodup : B.Nodup)
    (h : ∀ k ∈ B, (m.get? k).isSome) : B.card ≤ m.size := by
  have hsub : (⟨B, hnodup⟩ : Finset K) ⊆ m.keys := fun k hk => mem_keys.mpr (h k hk)
  rw [size_eq_card_keys]
  exact Finset.card_le_card hsub

/-- A map with fewer keys has fewer entries. -/
theorem size_le_size {V' : Type} {m : FinMap K V} {m' : FinMap K V'}
    (h : ∀ k, (m.get? k).isSome → (m'.get? k).isSome) : m.size ≤ m'.size := by
  rw [size_eq_card_keys m]
  exact card_le_size m.keys.nodup fun k hk => h k (mem_keys.mp hk)

theorem size_insert_le (m : FinMap K V) (k : K) (v : V) : (m.insert k v).size ≤ m.size + 1 := by
  have hsub : (m.insert k v).keys ⊆ Insert.insert k m.keys := by
    intro k' hk'
    rw [mem_keys, get?_insert] at hk'
    split at hk'
    · next heq => exact Finset.mem_insert.mpr (.inl heq)
    · exact Finset.mem_insert.mpr (.inr (mem_keys.mpr hk'))
  rw [size_eq_card_keys, size_eq_card_keys]
  exact (Finset.card_le_card hsub).trans (Finset.card_insert_le k m.keys)

theorem size_insert_of_get? {m : FinMap K V} {k : K} {v : V} (h : m.get? k = some v) (w : V) :
    (m.insert k w).size ≤ m.size := by
  refine size_le_size fun k' hk' => ?_
  rw [get?_insert] at hk'
  split at hk'
  · next heq => rw [heq, h]; rfl
  · exact hk'

end sizes

/-! ### Indexes -/

section indexes

variable {J W : Type} [DecidableEq K] [DecidableEq J]

/-- `ix` is an index of `m`: it takes the key of each entry to its value. -/
def Indexes (key : K → V → J) (val : K → V → W) (m : FinMap K V) (ix : FinMap J W) : Prop :=
  ∀ j w, ix.get? j = some w ↔ ∃ k v, m.get? k = some v ∧ key k v = j ∧ val k v = w

variable {key : K → V → J} {val : K → V → W} {m : FinMap K V} {ix : FinMap J W}

/-- Entries with one key have one value. -/
theorem Indexes.unique (h : Indexes key val m ix) {k k' : K} {v v' : V} (hk : m.get? k = some v)
    (hk' : m.get? k' = some v') (heq : key k v = key k' v') : val k v = val k' v' := by
  have h₁ := (h (key k v) (val k v)).mpr ⟨k, v, hk, rfl, rfl⟩
  have h₂ := (h (key k v) (val k' v')).mpr ⟨k', v', hk', heq.symm, rfl⟩
  rw [h₁] at h₂
  exact Option.some.inj h₂

theorem Indexes.empty (key : K → V → J) (val : K → V → W) : Indexes key val ∅ ∅ := by
  intro j w
  simp

/-- A new entry whose key is not in the index yet. -/
theorem Indexes.insert (h : Indexes key val m ix) {k : K} {v : V} (hk : m.get? k = none)
    (hj : ix.get? (key k v) = none) :
    Indexes key val (m.insert k v) (ix.insert (key k v) (val k v)) := by
  intro j w
  constructor
  · intro hget
    rw [get?_insert] at hget
    split at hget
    · next heq =>
      cases hget
      exact ⟨k, v, get?_insert_self m k v, heq.symm, rfl⟩
    · obtain ⟨k', v', hk', hkey, hval⟩ := (h j w).mp hget
      -- the entry that is listed at `j` is an older one
      have hne : k' ≠ k := by
        rintro rfl
        rw [hk] at hk'
        cases hk'
      exact ⟨k', v', by rw [get?_insert_ne m v hne, hk'], hkey, hval⟩
  · rintro ⟨k', v', hk', rfl, rfl⟩
    rw [get?_insert] at hk' ⊢
    split at hk'
    · next heq =>
      cases hk'
      subst heq
      rw [if_pos rfl]
    · have hget := (h (key k' v') (val k' v')).mpr ⟨k', v', hk', rfl, rfl⟩
      split
      · next heq =>
        rw [heq, hj] at hget
        cases hget
      · exact hget

end indexes

/-! ### Properties of all entries -/

section all

variable [DecidableEq K] {P : K → V → Prop} {m : FinMap K V}

/-- Every entry has `P`. -/
def All (P : K → V → Prop) (m : FinMap K V) : Prop := ∀ k v, m.get? k = some v → P k v

theorem All.empty : All P (∅ : FinMap K V) := by
  intro k v h
  rw [get?_empty] at h
  cases h

theorem All.insert (h : All P m) {k : K} {v : V} (hv : P k v) : All P (m.insert k v) := by
  intro k' v' hget
  rw [get?_insert] at hget
  split at hget
  · next heq =>
    cases hget
    exact heq ▸ hv
  · exact h k' v' hget

theorem All.insertNew (h : All P m) {k : K} {v : V} (hv : P k v) : All P (m.insertNew k v) := by
  unfold FinMap.insertNew
  split
  · exact h
  · exact h.insert hv

theorem All.imp {Q : K → V → Prop} (h : All P m) (hPQ : ∀ k v, P k v → Q k v) : All Q m :=
  fun k v hget => hPQ k v (h k v hget)

theorem All.erase (h : All P m) (k : K) : All P (m.erase k) := by
  intro k' v' hget
  rw [get?_erase] at hget
  split at hget
  · cases hget
  · exact h k' v' hget

theorem All.filterKeys (h : All P m) (p : K → Bool) : All P (m.filterKeys p) := by
  intro k v hget
  rw [get?_filterKeys] at hget
  split at hget
  · exact h k v hget
  · cases hget

end all

/-! ### Mapped values -/

section mapped
variable {W : Type}

/-- Apply `g` to every value. -/
def mapVal (g : V → W) (m : FinMap K V) : FinMap K W where
  entries := (Finmap.entries m).map fun e => ⟨e.1, g e.2⟩
  nodupKeys := by
    have h := Multiset.nodup_keys.mpr m.nodupKeys
    rw [← Multiset.nodup_keys]
    unfold Multiset.keys at h ⊢
    rw [Multiset.map_map]
    exact h

theorem toMultiset_mapVal (g : V → W) (m : FinMap K V) :
    (m.mapVal g).toMultiset = m.toMultiset.map fun e => (e.1, g e.2) := by
  simp [toMultiset, mapVal, Multiset.map_map]

/-- A sum over the images is a sum over the values. -/
theorem total_mapVal (f : K → W → Nat) (g : V → W) (m : FinMap K V) :
    (m.mapVal g).total f = m.total fun k v => f k (g v) := by
  simp [total, toMultiset_mapVal, Multiset.map_map]

variable [DecidableEq K]

@[simp] theorem get?_mapVal (g : V → W) (m : FinMap K V) (k : K) :
    (m.mapVal g).get? k = (m.get? k).map g := by
  apply Option.ext
  intro w
  rw [get?_eq_some, toMultiset_mapVal, Multiset.mem_map, Option.map_eq_some_iff]
  constructor
  · rintro ⟨⟨k', v⟩, hmem, heq⟩
    cases heq
    exact ⟨v, get?_eq_some.mpr hmem, rfl⟩
  · rintro ⟨v, hv, rfl⟩
    exact ⟨(k, v), get?_eq_some.mp hv, rfl⟩

@[simp] theorem mapVal_empty (g : V → W) : (∅ : FinMap K V).mapVal g = ∅ :=
  ext fun k => by simp

@[simp] theorem mapVal_insert (g : V → W) (m : FinMap K V) (k : K) (v : V) :
    (m.insert k v).mapVal g = (m.mapVal g).insert k (g v) := by
  apply ext
  intro k'
  simp only [get?_mapVal, get?_insert]
  split <;> rfl

@[simp] theorem mapVal_erase (g : V → W) (m : FinMap K V) (k : K) :
    (m.erase k).mapVal g = (m.mapVal g).erase k := by
  apply ext
  intro k'
  simp only [get?_mapVal, get?_erase]
  split <;> rfl

end mapped

/-! ### Maps of amounts -/

section amounts
variable [DecidableEq K]

/-- The amount a map of numbers holds at a key, zero where it holds none. -/
def amount (m : FinMap K Nat) (k : K) : Nat := (m.get? k).getD 0

@[simp] theorem amount_empty (k : K) : (∅ : FinMap K Nat).amount k = 0 := rfl

theorem amount_insert (m : FinMap K Nat) (k : K) (n : Nat) (k' : K) :
    (m.insert k n).amount k' = if k' = k then n else m.amount k' := by
  unfold amount
  rw [get?_insert]
  split <;> rfl

theorem amount_of_get? {m : FinMap K Nat} {k : K} {n : Nat} (h : m.get? k = some n) :
    m.amount k = n := by
  simp [amount, h]

theorem amount_of_get?_eq_none {m : FinMap K Nat} {k : K} (h : m.get? k = none) :
    m.amount k = 0 := by
  simp [amount, h]

end amounts

end FinMap
