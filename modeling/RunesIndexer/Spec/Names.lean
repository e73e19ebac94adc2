import RunesIndexer.Model.Stored

/-! # Names

    A rune's name is a number in bijective base 26, so it is read back and has at most 28
    letters. A spaced rune is read back without the spacers that its name has no place for,
    which is what `SpacedRune.reload` says.
-/

namespace RunesIndexer

open Numeration Serial

/-! ### Letters -/

/-- The digits below 26 are the letters. -/
theorem letter_spec : ∀ d < 26, 'A' ≤ letter d ∧ letter d ≤ 'Z' ∧
    (letter d).toNat - 65 = d ∧ (char (letter d)).length = 1 := by
  decide

/-- The letters of a name, the most significant one first. -/
theorem Rune.display_eq (r : Rune) :
    r.display = (digits 26 (r.n + 1)).reverse.map letter := by
  rw [Rune.display, List.map_reverse]

theorem Rune.mem_display {r : Rune} {c : Char} (h : c ∈ r.display) :
    'A' ≤ c ∧ c ≤ 'Z' ∧ (char c).length = 1 := by
  rw [r.display_eq] at h
  obtain ⟨d, hd, rfl⟩ := List.mem_map.mp h
  have hlt := digits_lt (by decide) (List.mem_reverse.mp hd)
  obtain ⟨h₁, h₂, -, h₃⟩ := letter_spec d hlt
  exact ⟨h₁, h₂, h₃⟩

theorem Rune.length_display (r : Rune) : r.display.length = (digits 26 (r.n + 1)).length := by
  simp [Rune.display]

theorem Rune.length_display_pos (r : Rune) : 0 < r.display.length := by
  rw [r.length_display]
  exact List.length_pos_iff.mpr (digits_ne_nil (Nat.succ_pos _))

/-- 28 letters are enough for a `u128`. -/
theorem Rune.length_display_le {r : Rune} (h : r.n < u128Bound) : r.display.length ≤ 28 := by
  have hcapacity : u128Bound ≤ capacity 26 28 := by decide
  rw [r.length_display]
  exact length_digits_le (by omega)

theorem nameLengthAux_eq (fuel n : Nat) : nameLengthAux fuel n = (digitsAux 26 fuel n).length := by
  induction fuel generalizing n with
  | zero => rfl
  | succ fuel ih =>
    by_cases hn : n = 0
    · simp [nameLengthAux, digitsAux, hn]
    · simp [nameLengthAux, digitsAux, hn, ih]

theorem Rune.nameLength_eq {r : Rune} (h : r.n < u128Bound) : r.nameLength = r.display.length := by
  have hle := Rune.length_display_le h
  rw [r.length_display] at hle ⊢
  rw [Rune.nameLength, nameLengthAux_eq, length_digitsAux]
  omega

/-! ### Reading a name -/

theorem checkedU128_of_lt {n : Nat} (h : n < u128Bound) : checkedU128 n = some n := if_pos h

/-- A letter after the first one is one more digit. -/
theorem Rune.readLetter_succ {x d i : Nat} (hd : d < 26) (hi : 0 < i)
    (h : push 26 (x + 1) d ≤ u128Bound) :
    Rune.readLetter x (letter d, i) = some (push 26 (x + 1) d - 1) := by
  obtain ⟨hA, hZ, hvalue, -⟩ := letter_spec d hd
  unfold push at h ⊢
  have hinc : checkedU128 (x + 1) = some (x + 1) := checkedU128_of_lt (by omega)
  have hmul : checkedU128 ((x + 1) * 26) = some ((x + 1) * 26) := checkedU128_of_lt (by omega)
  have hadd : checkedU128 ((x + 1) * 26 + d) = some ((x + 1) * 26 + d) :=
    checkedU128_of_lt (by omega)
  unfold Rune.readLetter
  simp [hi, hA, hZ, hvalue, hinc, hmul, hadd]

/-- The letters after the first one. -/
theorem Rune.readLetters {ds : List Nat} (hds : ∀ d ∈ ds, d < 26) {x i : Nat} (hi : 0 < i)
    (h : ds.foldl (push 26) (x + 1) ≤ u128Bound) :
    ((ds.map letter).zipIdx i).foldlM Rune.readLetter x =
      some (ds.foldl (push 26) (x + 1) - 1) := by
  induction ds generalizing x i with
  | nil => simp
  | cons d ds ih =>
    have hstep : push 26 (x + 1) d ≤ u128Bound := le_trans (le_foldl_push (by decide) _ ds) h
    have hpos : push 26 (x + 1) d - 1 + 1 = push 26 (x + 1) d := rfl
    rw [List.map_cons, List.zipIdx_cons, List.foldlM_cons,
      Rune.readLetter_succ (hds d List.mem_cons_self) hi hstep, Option.bind_eq_bind,
      Option.bind_some]
    rw [List.foldl_cons, ← hpos] at h ⊢
    exact ih (fun d hd => hds d (List.mem_cons_of_mem _ hd)) (Nat.succ_pos i) h

/-- A name is read back: no operation overflows on the way. -/
theorem Rune.fromStr_display {r : Rune} (h : r.n < u128Bound) :
    Rune.fromStr r.display = some r := by
  have hvalue : (digits 26 (r.n + 1)).reverse.foldl (push 26) 0 = r.n + 1 := by
    rw [foldl_push_reverse, value_digits]
  have hlt : ∀ d ∈ (digits 26 (r.n + 1)).reverse, d < 26 :=
    fun d hd => digits_lt (by decide) (List.mem_reverse.mp hd)
  have hne : (digits 26 (r.n + 1)).reverse ≠ [] := by
    simpa using digits_ne_nil (Nat.succ_pos r.n)
  rw [Rune.fromStr, r.display_eq]
  generalize (digits 26 (r.n + 1)).reverse = ds at hvalue hlt hne
  cases ds with
  | nil => exact absurd rfl hne
  | cons d ds =>
    obtain ⟨hA, hZ, hd, -⟩ := letter_spec d (hlt d List.mem_cons_self)
    -- the first letter is its own value
    have hfirst : Rune.readLetter 0 (letter d, 0) = some d := by
      have hd26 := hlt d List.mem_cons_self
      have hsmall : (26 : Nat) < u128Bound := by decide
      have hzero : checkedU128 0 = some 0 := checkedU128_of_lt (by decide)
      have hadd : checkedU128 d = some d := checkedU128_of_lt (by omega)
      unfold Rune.readLetter
      simp [hA, hZ, hd, hzero, hadd]
    have hpush : push 26 0 d = d + 1 := by simp [push]
    rw [List.foldl_cons, hpush] at hvalue
    have hrest := Rune.readLetters (fun d hd => hlt d (List.mem_cons_of_mem _ hd))
      (x := d) (Nat.succ_pos 0) (by omega)
    rw [hvalue, Nat.add_sub_cancel] at hrest
    simp [List.zipIdx_cons, hfirst, hrest]

/-! ### Reading a spaced name -/

/-- What is printed for the letter at a position of a name with `len` letters. -/
def spacedLetter (spacers len : Nat) (e : Char × Nat) : List Char :=
  if e.2 < len - 1 ∧ spacers.testBit e.2 then [e.1, bullet] else [e.1]

theorem SpacedRune.display_eq (sr : SpacedRune) :
    sr.display =
      sr.rune.display.zipIdx.flatMap (spacedLetter sr.spacers sr.rune.display.length) := rfl

/-- One more bit of the spacers. -/
theorem mod_two_pow_succ_of_testBit {n k : Nat} (h : n.testBit k = true) :
    n % 2 ^ k ||| 2 ^ k = n % 2 ^ (k + 1) := by
  refine Nat.eq_of_testBit_eq fun i => ?_
  rw [Nat.testBit_or, Nat.testBit_mod_two_pow, Nat.testBit_mod_two_pow, Nat.testBit_two_pow]
  by_cases hi : i = k
  · simp [hi, h]
  · have hiff : i < k + 1 ↔ i < k := by omega
    simp [hiff, Ne.symm hi]

theorem mod_two_pow_succ_of_not_testBit {n k : Nat} (h : n.testBit k = false) :
    n % 2 ^ k = n % 2 ^ (k + 1) := by
  refine Nat.eq_of_testBit_eq fun i => ?_
  rw [Nat.testBit_mod_two_pow, Nat.testBit_mod_two_pow]
  by_cases hi : i = k
  · simp [hi, h]
  · have hiff : i < k + 1 ↔ i < k := by omega
    simp [hiff]

/-- Reading on after the letters `done`, whose spacers have been found. -/
theorem SpacedRune.readChars_spacedLetters (spacers : Nat) {len : Nat} (hlen : len ≤ 32)
    (done : List Char) {todo : List Char} (htodo : ∀ c ∈ todo, 'A' ≤ c ∧ c ≤ 'Z')
    (h : done.length + todo.length = len) :
    SpacedRune.readChars done (spacers % 2 ^ min done.length (len - 1))
        ((todo.zipIdx done.length).flatMap (spacedLetter spacers len)) =
      some (done ++ todo, spacers % 2 ^ (len - 1)) := by
  induction todo generalizing done with
  | nil =>
    rw [List.length_nil, Nat.add_zero] at h
    rw [h, Nat.min_eq_right (Nat.sub_le _ _)]
    simp [SpacedRune.readChars]
  | cons c todo ih =>
    obtain ⟨hA, hZ⟩ := htodo c List.mem_cons_self
    have hlength : (done ++ [c]).length = done.length + 1 := by simp
    have hrest := ih (done ++ [c]) (fun c hc => htodo c (List.mem_cons_of_mem _ hc))
      (by rw [List.length_cons] at h; rw [hlength]; omega)
    rw [List.append_assoc, List.singleton_append, hlength] at hrest
    rw [List.zipIdx_cons, List.flatMap_cons]
    by_cases hlast : done.length < len - 1
    · -- not the last letter, so a spacer may follow
      have hmin : min done.length (len - 1) = done.length := by omega
      have hmin' : min (done.length + 1) (len - 1) = done.length + 1 := by omega
      rw [hmin'] at hrest
      rw [hmin]
      by_cases hbit : spacers.testBit done.length = true
      · have hindex : done.length % 32 = done.length := by omega
        have hbullet : ¬ (bullet ≤ 'Z') := by decide
        rw [← hrest, ← mod_two_pow_succ_of_testBit hbit]
        simp [spacedLetter, SpacedRune.readChars, hlast, hbit, hA, hZ, hbullet, hindex]
      · rw [Bool.not_eq_true] at hbit
        rw [← hrest, ← mod_two_pow_succ_of_not_testBit hbit]
        simp [spacedLetter, SpacedRune.readChars, hbit, hA, hZ]
    · have hmin : min done.length (len - 1) = len - 1 := by omega
      have hmin' : min (done.length + 1) (len - 1) = len - 1 := by omega
      rw [hmin'] at hrest
      rw [hmin, ← hrest]
      simp [spacedLetter, SpacedRune.readChars, hlast, hA, hZ]

/-- A spaced rune is read back without the spacers after its last letter. -/
theorem SpacedRune.fromStr_display {sr : SpacedRune} (h : sr.rune.n < u128Bound) :
    SpacedRune.fromStr sr.display = some sr.reload := by
  have hpos := sr.rune.length_display_pos
  have hle := Rune.length_display_le h
  have hletters : ∀ c ∈ sr.rune.display, 'A' ≤ c ∧ c ≤ 'Z' :=
    fun c hc => ⟨(Rune.mem_display hc).1, (Rune.mem_display hc).2.1⟩
  have hlength : ([] : List Char).length + sr.rune.display.length = sr.rune.display.length := by
    simp
  have hread := SpacedRune.readChars_spacedLetters sr.spacers (by omega) [] hletters hlength
  have hsize : (sr.spacers % 2 ^ (sr.rune.display.length - 1)).size < sr.rune.display.length := by
    have : (sr.spacers % 2 ^ (sr.rune.display.length - 1)).size ≤ sr.rune.display.length - 1 :=
      Nat.size_le.mpr (Nat.mod_lt _ (Nat.two_pow_pos _))
    omega
  simp only [List.length_nil, Nat.zero_min, Nat.pow_zero, Nat.mod_one, List.nil_append] at hread
  unfold SpacedRune.fromStr SpacedRune.reload
  rw [sr.display_eq, hread, Rune.nameLength_eq h]
  simp [Nat.not_le.mpr hsize, Rune.fromStr_display h]

/-! ### The length of a spaced name -/

/-- A letter is one byte long, with a spacer four. -/
theorem length_spacedLetter_le {spacers len : Nat} {e : Char × Nat}
    (h : (char e.1).length = 1) :
    (chars (spacedLetter spacers len e)).length ≤ if e.2 < len - 1 then 4 else 1 := by
  have hbullet : (char bullet).length = 3 := by decide
  unfold spacedLetter chars
  by_cases hlast : e.2 < len - 1
  · by_cases hbit : spacers.testBit e.2 = true
    · simp [hlast, hbit, h, hbullet]
    · simp [hlast, hbit, h]
  · simp [hlast, h]

theorem chars_append (s t : List Char) : chars (s ++ t) = chars s ++ chars t := by
  simp [chars]

/-- Of a name whose first letters are done. -/
theorem length_spacedLetters_le (spacers : Nat) {len done : Nat} {todo : List Char}
    (htodo : ∀ c ∈ todo, (char c).length = 1) (hne : todo ≠ []) (h : done + todo.length = len) :
    (chars ((todo.zipIdx done).flatMap (spacedLetter spacers len))).length ≤
      4 * todo.length - 3 := by
  induction todo generalizing done with
  | nil => exact absurd rfl hne
  | cons c todo ih =>
    have hc : (chars (spacedLetter spacers len (c, done))).length ≤
        if done < len - 1 then 4 else 1 :=
      length_spacedLetter_le (e := (c, done)) (htodo c List.mem_cons_self)
    rw [List.zipIdx_cons, List.flatMap_cons, chars_append, List.length_append]
    rw [List.length_cons] at h ⊢
    by_cases hnil : todo = []
    · -- the last letter
      subst hnil
      rw [List.length_nil] at h
      rw [if_neg (by omega)] at hc
      simpa [chars] using hc
    · have hpos : 0 < todo.length := List.length_pos_iff.mpr hnil
      rw [if_pos (by omega)] at hc
      have hrest := ih (fun c hc => htodo c (List.mem_cons_of_mem _ hc)) hnil
        (by omega : done + 1 + todo.length = len)
      omega

/-- 28 letters and 27 spacers are the most there can be. -/
theorem SpacedRune.length_display_le {sr : SpacedRune} (h : sr.rune.n < u128Bound) :
    (chars sr.display).length ≤ 109 := by
  have hle := Rune.length_display_le h
  have hne : sr.rune.display ≠ [] := List.length_pos_iff.mp sr.rune.length_display_pos
  have hall := length_spacedLetters_le sr.spacers
    (fun c hc => (Rune.mem_display hc).2.2) hne (Nat.zero_add sr.rune.display.length)
  rw [sr.display_eq]
  omega

end RunesIndexer
