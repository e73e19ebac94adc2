import Mathlib.Data.List.Basic
import Mathlib.Tactic.Ring

/-! # Bijective numeration

    The digits of a number in base `b` when they stand for `1` to `b` and there is no
    zero. Every number has exactly one such representation, so the number of digits says
    between which powers it lies: `capacity b k` is the greatest number with `k` digits.

    Digits are counted from `0`, the least significant one first.
-/

namespace Numeration

/-- The digits of `n`, at most `fuel` of them. -/
def digitsAux (b : Nat) : Nat → Nat → List Nat
  | 0, _ => []
  | fuel + 1, n => if n = 0 then [] else (n - 1) % b :: digitsAux b fuel ((n - 1) / b)

/-- The digits of `n`; there are no more than `n`. -/
def digits (b n : Nat) : List Nat := digitsAux b n n

/-- The number with these digits. -/
def value (b : Nat) : List Nat → Nat
  | [] => 0
  | d :: ds => d + 1 + b * value b ds

/-- The greatest number with `k` digits. -/
def capacity (b : Nat) : Nat → Nat
  | 0 => 0
  | k + 1 => b * (capacity b k + 1)

/-- Fuel that suffices does not matter. -/
theorem digitsAux_eq_digits {b fuel n : Nat} (h : n ≤ fuel) : digitsAux b fuel n = digits b n := by
  have haux : ∀ f g m : Nat, m ≤ f → m ≤ g → digitsAux b f m = digitsAux b g m := by
    intro f
    induction f with
    | zero =>
      intro g m hf _
      obtain rfl : m = 0 := by omega
      cases g <;> rfl
    | succ f ih =>
      intro g m hf hg
      cases g with
      | zero =>
        obtain rfl : m = 0 := by omega
        rfl
      | succ g =>
        by_cases hm : m = 0
        · simp [digitsAux, hm]
        · -- dividing does not lead back up
          have hle : (m - 1) / b ≤ m - 1 := Nat.div_le_self _ _
          simp only [digitsAux, if_neg hm]
          rw [ih g _ (by omega) (by omega)]
  exact haux fuel n n h (Nat.le_refl n)

@[simp] theorem digits_zero (b : Nat) : digits b 0 = [] := rfl

theorem digits_of_pos {b n : Nat} (h : 0 < n) :
    digits b n = (n - 1) % b :: digits b ((n - 1) / b) := by
  obtain ⟨m, rfl⟩ : ∃ m, n = m + 1 := ⟨n - 1, by omega⟩
  have hle : (m + 1 - 1) / b ≤ m := Nat.div_le_self _ _
  show digitsAux b (m + 1) (m + 1) = _
  rw [digitsAux, if_neg (by omega), digitsAux_eq_digits hle]

/-- The digits give the number back. -/
theorem value_digits (b n : Nat) : value b (digits b n) = n := by
  induction n using Nat.strong_induction_on with
  | _ n ih =>
    by_cases hn : n = 0
    · simp [hn, value]
    · have hlt : (n - 1) / b < n := by
        have : (n - 1) / b ≤ n - 1 := Nat.div_le_self _ _
        omega
      rw [digits_of_pos (by omega), value, ih _ hlt]
      have := Nat.mod_add_div (n - 1) b
      omega

theorem digits_lt {b n d : Nat} (hb : 0 < b) (h : d ∈ digits b n) : d < b := by
  induction n using Nat.strong_induction_on with
  | _ n ih =>
    by_cases hn : n = 0
    · simp [hn] at h
    · rw [digits_of_pos (by omega)] at h
      rcases List.mem_cons.mp h with rfl | h
      · exact Nat.mod_lt _ hb
      · have hle : (n - 1) / b ≤ n - 1 := Nat.div_le_self _ _
        exact ih _ (by omega) h

theorem digits_ne_nil {b n : Nat} (h : 0 < n) : digits b n ≠ [] := by
  rw [digits_of_pos h]
  simp

/-! ### The number of digits -/

theorem length_digitsAux (b fuel n : Nat) :
    (digitsAux b fuel n).length = min fuel (digits b n).length := by
  induction fuel generalizing n with
  | zero => simp [digitsAux]
  | succ fuel ih =>
    by_cases hn : n = 0
    · simp [digitsAux, hn]
    · rw [digitsAux, if_neg hn, digits_of_pos (by omega), List.length_cons, List.length_cons, ih]
      omega

/-- A number up to the capacity of `k` digits has no more than `k`. -/
theorem length_digits_le {b k n : Nat} (h : n ≤ capacity b k) : (digits b n).length ≤ k := by
  induction k generalizing n with
  | zero =>
    obtain rfl : n = 0 := Nat.le_zero.mp h
    simp
  | succ k ih =>
    by_cases hn : n = 0
    · simp [hn]
    · have hlt : (n - 1) / b < capacity b k + 1 :=
        Nat.div_lt_of_lt_mul (by unfold capacity at h; omega)
      have hrest := ih (Nat.lt_succ_iff.mp hlt)
      rw [digits_of_pos (by omega), List.length_cons]
      omega

/-! ### Reading digits -/

/-- One more digit on the right of a number. -/
def push (b acc d : Nat) : Nat := acc * b + d + 1

/-- Reading the most significant digit first gives the number. -/
theorem foldl_push_reverse (b : Nat) (ds : List Nat) :
    ds.reverse.foldl (push b) 0 = value b ds := by
  induction ds with
  | nil => rfl
  | cons d ds ih =>
    rw [List.reverse_cons, List.foldl_append, ih]
    simp only [List.foldl_cons, List.foldl_nil, push, value]
    ring

/-- What has been read is never more than the number. -/
theorem le_foldl_push {b : Nat} (hb : 0 < b) (acc : Nat) (ds : List Nat) :
    acc ≤ ds.foldl (push b) acc := by
  induction ds generalizing acc with
  | nil => simp
  | cons d ds ih =>
    have hstep : acc ≤ push b acc d := by
      have := Nat.le_mul_of_pos_right acc hb
      unfold push
      omega
    exact le_trans hstep (ih _)

end Numeration
