import Mathlib.Order.Basic
import Mathlib.Data.Option.Basic

/-! # Hash-linked chains

    Headers by height, each naming the hash of the one below it. A `Segment` is any
    part of a chain without gaps; a `HashChain` starts at height 0.

    Where no two different headers have the same hash, two of them that hold the same
    header at one height hold the same headers at all lower heights (`agree_below`).
-/

variable {H D : Type} {hash prev : H → D}

/-- Each header names the hash of its predecessor, and between two heights that are held
    all heights are. -/
structure Segment (hash prev : H → D) (f : Nat → Option H) : Prop where
  linked : ∀ n a b, f n = some a → f (n + 1) = some b → prev b = hash a
  gapless : ∀ i j k, i ≤ j → j ≤ k → (f i).isSome → (f k).isSome → (f j).isSome

/-- A chain from height 0 on. -/
structure HashChain (hash prev : H → D) where
  headerAt : Nat → Option H
  linked : ∀ n a b, headerAt n = some a → headerAt (n + 1) = some b → prev b = hash a
  rooted : ∀ n, (headerAt (n + 1)).isSome → (headerAt n).isSome

/-- Headers held at the same height are equal if their hashes are. -/
def NoCollision (hash : H → D) (f g : Nat → Option H) : Prop :=
  ∀ n a b, f n = some a → g n = some b → hash a = hash b → a = b

namespace HashChain

/-- What a chain holds at a height it holds at all lower ones. -/
theorem below (c : HashChain hash prev) {m n : Nat} (hle : m ≤ n) (h : (c.headerAt n).isSome) :
    (c.headerAt m).isSome := by
  induction n with
  | zero =>
    rw [Nat.le_zero.mp hle]
    exact h
  | succ n ih =>
    rcases Nat.le_succ_iff.mp hle with hle | rfl
    · exact ih hle (c.rooted n h)
    · exact h

/-- Going down from a common header, one height at a time. -/
theorem agree_below (c : HashChain hash prev) {f : Nat → Option H} (hf : Segment hash prev f)
    (hcoll : NoCollision hash f c.headerAt) {n : Nat} {a : H} (hfn : f n = some a)
    (hcn : c.headerAt n = some a) {m : Nat} (hle : m ≤ n) {b : H} (hfm : f m = some b) :
    c.headerAt m = some b := by
  induction n generalizing a with
  | zero =>
    obtain rfl := Nat.le_zero.mp hle
    rw [hcn, ← hfn, hfm]
  | succ n ih =>
    rcases Nat.le_succ_iff.mp hle with hle | rfl
    · obtain ⟨x, hx⟩ : ∃ x, f n = some x := Option.isSome_iff_exists.mp
        (hf.gapless m n (n + 1) hle (Nat.le_succ n) (by rw [hfm]; rfl) (by rw [hfn]; rfl))
      obtain ⟨y, hy⟩ : ∃ y, c.headerAt n = some y := Option.isSome_iff_exists.mp
        (c.rooted n (by rw [hcn]; rfl))
      -- both are the predecessor that the common header names
      have hhash : hash x = hash y := (hf.linked n x a hx hfn).symm.trans (c.linked n y a hy hcn)
      obtain rfl : x = y := hcoll n x y hx hy hhash
      exact ih hx hy hle
    · rw [hcn, ← hfn, hfm]

end HashChain
