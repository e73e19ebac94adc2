import Mathlib.Algebra.BigOperators.Ring.Finset
import Mathlib.Data.List.Nodup

/-! # Dividing an amount

    An amount is divided between numbered receivers in one of two ways: evenly, the
    remainder going to the first ones, or by giving each the same amount while it
    lasts. The receivers are the positions of a list of flags that are not set, in
    order; `rank` is the number of a receiver.
-/

namespace Shares

open Finset

/-! ### The two divisions -/

/-- What receiver number `i` of `n` gets when `b` is divided evenly. -/
def even (b n i : Nat) : Nat := b / n + if i < b % n then 1 else 0

/-- What is left of `b` after `i` receivers took `a` each while it lasted. -/
def rest (b a i : Nat) : Nat := b - min b (i * a)

/-- What receiver number `i` gets when each takes `a` while it lasts. -/
def capped (b a i : Nat) : Nat := min a (rest b a i)

theorem rest_zero (b a : Nat) : rest b a 0 = b := by simp [rest]

theorem rest_succ (b a i : Nat) : rest b a (i + 1) = rest b a i - capped b a i := by
  unfold capped rest
  rw [Nat.succ_mul]
  omega

theorem capped_le (b a i : Nat) : capped b a i ≤ rest b a i := min_le_right _ _

/-- The even shares add up to the amount. -/
theorem sum_even {n : Nat} (b : Nat) (hn : 0 < n) : ∑ i ∈ range n, even b n i = b := by
  have hlt : b % n < n := Nat.mod_lt b hn
  -- the receivers below the remainder get one more
  have hextra : ∑ i ∈ range n, (if i < b % n then 1 else 0) = b % n := by
    rw [← sum_filter, sum_const, Nat.nsmul_eq_mul, Nat.mul_one]
    have hfilter : (range n).filter (fun i => i < b % n) = range (b % n) := by
      ext i
      simp only [mem_filter, mem_range]
      omega
    rw [hfilter, card_range]
  calc ∑ i ∈ range n, even b n i
      = ∑ i ∈ range n, b / n + ∑ i ∈ range n, (if i < b % n then 1 else 0) := sum_add_distrib
    _ = n * (b / n) + b % n := by rw [hextra, sum_const, card_range, Nat.nsmul_eq_mul]
    _ = b := Nat.div_add_mod b n

/-- The capped shares add up to what is no longer left. -/
theorem sum_capped (b a n : Nat) : ∑ i ∈ range n, capped b a i = b - rest b a n := by
  induction n with
  | zero => simp [rest]
  | succ n ih =>
    have hle := capped_le b a n
    have hrest : rest b a n ≤ b := Nat.sub_le _ _
    rw [sum_range_succ, ih, rest_succ]
    omega

/-! ### Receivers -/

/-- The positions whose flag is not set. -/
def clear (flags : List Bool) : List Nat :=
  flags.zipIdx.filterMap fun e => if e.1 then none else some e.2

/-- How many positions before `v` have no flag. -/
def rank (flags : List Bool) (v : Nat) : Nat := (flags.take v).count false

theorem clear_append (flags : List Bool) (b : Bool) :
    clear (flags ++ [b]) = clear flags ++ if b then [] else [flags.length] := by
  unfold clear
  rw [List.zipIdx_append, List.filterMap_append]
  cases b <;> simp

theorem rank_append {flags : List Bool} {v : Nat} (b : Bool) (h : v ≤ flags.length) :
    rank (flags ++ [b]) v = rank flags v := by
  unfold rank
  rw [List.take_append_of_le_length h]

theorem rank_length (flags : List Bool) : rank flags flags.length = flags.count false := by
  unfold rank
  rw [List.take_length]

theorem length_clear (flags : List Bool) : (clear flags).length = flags.count false := by
  induction flags using List.reverseRecOn with
  | nil => rfl
  | append_singleton flags b ih =>
    rw [clear_append, List.length_append, ih, List.count_append]
    cases b <;> rfl

theorem mem_clear {flags : List Bool} {v : Nat} : v ∈ clear flags ↔ flags[v]? = some false := by
  unfold clear
  rw [List.mem_filterMap]
  constructor
  · rintro ⟨⟨b, i⟩, hmem, hv⟩
    cases b with
    | true => cases hv
    | false =>
      cases hv
      exact List.mem_zipIdx_iff_getElem?.mp hmem
  · intro h
    exact ⟨(false, v), List.mem_zipIdx_iff_getElem?.mpr h, rfl⟩

theorem clear_nodup (flags : List Bool) : (clear flags).Nodup := by
  induction flags using List.reverseRecOn with
  | nil => exact List.nodup_nil
  | append_singleton flags b ih =>
    rw [clear_append]
    cases b with
    | true => simpa using ih
    | false =>
      refine ih.append (List.nodup_singleton _) ?_
      intro v hv hv'
      obtain ⟨hlt, -⟩ := List.getElem?_eq_some_iff.mp (mem_clear.mp hv)
      rw [List.mem_singleton.mp hv'] at hlt
      exact absurd hlt (lt_irrefl _)

/-- The receivers are numbered by their rank. -/
theorem clear_rank {flags : List Bool} {v : Nat} (h : flags[v]? = some false) :
    (clear flags)[rank flags v]? = some v := by
  induction flags using List.reverseRecOn with
  | nil => cases h
  | append_singleton flags b ih =>
    by_cases hv : v < flags.length
    · rw [List.getElem?_append_left hv] at h
      have hget := ih h
      rw [clear_append, rank_append b hv.le]
      exact List.getElem?_append_left (List.getElem?_eq_some_iff.mp hget).1 ▸ hget
    · -- the last position: all receivers so far come before it
      obtain ⟨hlt, -⟩ := List.getElem?_eq_some_iff.mp h
      rw [List.length_append, List.length_singleton] at hlt
      obtain rfl : v = flags.length := by omega
      rw [List.getElem?_concat_length, Option.some.injEq] at h
      subst h
      rw [clear_append, rank_append _ le_rfl, rank_length, ← length_clear]
      exact List.getElem?_concat_length

/-- A sum over the receivers, by position and by number. -/
theorem sum_clear (flags : List Bool) (f : Nat → Nat) :
    ∑ v ∈ range flags.length, (if flags[v]? = some false then f (rank flags v) else 0) =
      ∑ i ∈ range (flags.count false), f i := by
  induction flags using List.reverseRecOn with
  | nil => rfl
  | append_singleton flags b ih =>
    have hold : ∀ v ∈ range flags.length,
        (if (flags ++ [b])[v]? = some false then f (rank (flags ++ [b]) v) else 0) =
          if flags[v]? = some false then f (rank flags v) else 0 := by
      intro v hv
      have hv := mem_range.mp hv
      rw [List.getElem?_append_left hv, rank_append b hv.le]
    rw [List.length_append, List.length_singleton, sum_range_succ, sum_congr rfl hold, ih,
      List.getElem?_concat_length, rank_append b le_rfl, rank_length, List.count_append]
    cases b with
    | true => simp
    | false => simp [sum_range_succ]

/-! ### Receiving along a list -/

/-- What position `v` gets when the positions of `l` get `f k`, `f (k + 1)` and so on. -/
def received (f : Nat → Nat) : Nat → List Nat → Nat → Nat
  | _, [], _ => 0
  | k, d :: l, v => (if v = d then f k else 0) + received f (k + 1) l v

theorem received_of_notMem (f : Nat → Nat) {l : List Nat} {v : Nat} (h : v ∉ l) (k : Nat) :
    received f k l v = 0 := by
  induction l generalizing k with
  | nil => rfl
  | cons d l ih =>
    rw [List.mem_cons, not_or] at h
    rw [received, if_neg h.1, ih h.2]

theorem received_getElem? (f : Nat → Nat) {l : List Nat} (hl : l.Nodup) {i v : Nat}
    (h : l[i]? = some v) (k : Nat) : received f k l v = f (k + i) := by
  induction l generalizing k i with
  | nil => cases h
  | cons d l ih =>
    obtain ⟨hd, hl⟩ := List.nodup_cons.mp hl
    cases i with
    | zero =>
      cases h
      rw [received, if_pos rfl, received_of_notMem f hd]
      rfl
    | succ i =>
      rw [List.getElem?_cons_succ] at h
      have hne : v ≠ d := fun hv => hd (hv ▸ List.mem_of_getElem? h)
      rw [received, if_neg hne, Nat.zero_add, ih hl h, Nat.add_right_comm k 1 i, Nat.add_assoc]

/-- The receivers get what their rank says and no other position gets anything. -/
theorem received_clear (f : Nat → Nat) (flags : List Bool) (v : Nat) :
    received f 0 (clear flags) v = if flags[v]? = some false then f (rank flags v) else 0 := by
  split
  · next h =>
    rw [received_getElem? f (clear_nodup flags) (clear_rank h), Nat.zero_add]
  · next h => exact received_of_notMem f (fun hv => h (mem_clear.mp hv)) 0

end Shares
