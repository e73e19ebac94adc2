import Mathlib.Data.List.Nodup
import Mathlib.Data.Nat.Log
import Mathlib.Data.Set.Function

/-! # Merkle trees that repeat the last node of an odd level

    A level is paired up to the next one until a single node is left. Where the hash of a
    pair has no collision among the pairs that are hashed, equal roots mean equal leaves
    for lists of the same length. For lists of different lengths they do when no leaf
    occurs twice and no leaf is itself the hash of a pair.
-/

namespace Merkle

variable {α : Type}

/-- The pairs that are hashed for the next level. -/
def pairs : List α → List (α × α)
  | [] => []
  | [a] => [(a, a)]
  | a :: b :: rest => (a, b) :: pairs rest

theorem length_pairs (l : List α) : (pairs l).length = (l.length + 1) / 2 := by
  induction l using pairs.induct with
  | case1 => simp [pairs]
  | case2 a => simp [pairs]
  | case3 a b rest ih =>
    simp only [pairs, List.length_cons, ih]
    omega

/-- The left components are leaves, each at most as often as in the list. -/
theorem map_fst_pairs_sublist (l : List α) : ((pairs l).map Prod.fst).Sublist l := by
  induction l using pairs.induct with
  | case1 => exact List.Sublist.refl _
  | case2 a => exact List.Sublist.refl _
  | case3 a b rest ih => exact (ih.cons b).cons_cons a

theorem nodup_pairs {l : List α} (h : l.Nodup) : (pairs l).Nodup :=
  .of_map Prod.fst (h.sublist (map_fst_pairs_sublist l))

/-- The pairs of two lists tell them apart, unless one of them ends with a repetition. -/
theorem eq_of_pairs_eq {l₁ l₂ : List α} (h : pairs l₁ = pairs l₂)
    (hlike : l₁.length = l₂.length ∨ l₁.Nodup ∧ l₂.Nodup) : l₁ = l₂ := by
  induction l₁ using pairs.induct generalizing l₂ with
  | case1 =>
    rcases l₂ with _ | ⟨c, _ | ⟨d, rest'⟩⟩
    · rfl
    · cases h
    · cases h
  | case2 a =>
    rcases l₂ with _ | ⟨c, _ | ⟨d, rest'⟩⟩
    · cases h
    · rw [(Prod.mk.inj (List.cons.inj h).1).1]
    · obtain ⟨hac, had⟩ := Prod.mk.inj (List.cons.inj h).1
      -- `[a]` pairs like `[a, a]`, which neither has its length nor is without repetition
      rcases hlike with hlength | ⟨-, hnodup⟩
      · cases hlength
      · exact absurd (hac.symm.trans had ▸ List.mem_cons_self) (List.nodup_cons.mp hnodup).1
  | case3 a b rest ih =>
    rcases l₂ with _ | ⟨c, _ | ⟨d, rest'⟩⟩
    · cases h
    · obtain ⟨hac, hbc⟩ := Prod.mk.inj (List.cons.inj h).1
      rcases hlike with hlength | ⟨hnodup, -⟩
      · cases hlength
      · exact absurd (hac.trans hbc.symm ▸ List.mem_cons_self) (List.nodup_cons.mp hnodup).1
    · obtain ⟨hhead, htail⟩ := List.cons.inj h
      obtain ⟨rfl, rfl⟩ := Prod.mk.inj hhead
      rw [ih htail ?_]
      rcases hlike with hlength | ⟨h₁, h₂⟩
      · left
        simpa using hlength
      · exact .inr ⟨(List.nodup_cons.mp (List.nodup_cons.mp h₁).2).2,
          (List.nodup_cons.mp (List.nodup_cons.mp h₂).2).2⟩

/-- Repeating the last leaf of an odd number of them changes no pair. -/
theorem pairs_repeat_last {l : List α} {a : α} (hodd : (l ++ [a]).length % 2 = 1) :
    pairs (l ++ [a] ++ [a]) = pairs (l ++ [a]) := by
  induction l using pairs.induct with
  | case1 => rfl
  | case2 b => simp at hodd
  | case3 b c rest ih =>
    have hrest : (rest ++ [a]).length % 2 = 1 := by
      simp only [List.cons_append, List.length_cons] at hodd
      omega
    exact congrArg ((b, c) :: ·) (ih hrest)

/-- Lists whose images agree agree where the function has no collision. -/
theorem eq_of_map_eq_of_injOn {β : Type} {f : α → β} {S : Set α} (hf : S.InjOn f)
    {l₁ l₂ : List α} (h₁ : ∀ a ∈ l₁, a ∈ S) (h₂ : ∀ a ∈ l₂, a ∈ S)
    (h : l₁.map f = l₂.map f) : l₁ = l₂ := by
  induction l₁ generalizing l₂ with
  | nil => exact (List.map_eq_nil_iff.mp h.symm).symm
  | cons a l₁ ih =>
    obtain ⟨b, l₂, rfl, hab, hrest⟩ := List.map_eq_cons_iff.mp h.symm
    rw [hf (h₁ a List.mem_cons_self) (h₂ b List.mem_cons_self) hab.symm,
      ih (fun x hx => h₁ x (List.mem_cons_of_mem _ hx))
        (fun x hx => h₂ x (List.mem_cons_of_mem _ hx)) hrest.symm]

variable (node : α × α → α)

/-- The next level. -/
def levelUp (l : List α) : List α := (pairs l).map node

theorem length_levelUp (l : List α) : (levelUp node l).length = (l.length + 1) / 2 := by
  rw [levelUp, List.length_map, length_pairs]

/-- The root, if there is a leaf. -/
def root : List α → Option α
  | [] => none
  | [a] => some a
  | a :: b :: rest => root (levelUp node (a :: b :: rest))
termination_by l => l.length
decreasing_by
  rw [length_levelUp]
  simp only [List.length_cons]
  omega

theorem root_two (a b : α) : root node [a, b] = some (node (a, b)) := by
  rw [root]
  exact root.eq_2 node _

/-- So a list and the list with its last leaf repeated can have the same root. -/
theorem root_repeat_last {b c a : α} {l : List α} (hodd : (b :: c :: l ++ [a]).length % 2 = 1) :
    root node (b :: c :: l ++ [a] ++ [a]) = root node (b :: c :: l ++ [a]) := by
  rw [List.cons_append, List.cons_append, List.cons_append, List.cons_append, root, root]
  unfold levelUp
  have hpairs := pairs_repeat_last hodd
  simp only [List.cons_append] at hpairs
  rw [hpairs]

/-- The pairs that are hashed on the way to the root. -/
inductive Hashed : List α → α × α → Prop
  | here {a b : α} {rest : List α} {p : α × α} :
    p ∈ pairs (a :: b :: rest) → Hashed (a :: b :: rest) p
  | above {a b : α} {rest : List α} {p : α × α} :
    Hashed (levelUp node (a :: b :: rest)) p → Hashed (a :: b :: rest) p

/-- Of two leaves only the pair is hashed. -/
theorem hashed_two {a b : α} {p : α × α} (h : Hashed node [a, b] p) : p = (a, b) := by
  cases h with
  | here hp => exact List.mem_singleton.mp hp
  | above hp => cases hp

/-- Without a collision a level without repetitions leads to one. -/
theorem nodup_levelUp {a b : α} {rest : List α} {S : Set (α × α)}
    (hS : ∀ p, Hashed node (a :: b :: rest) p → p ∈ S) (hinj : S.InjOn node)
    (h : (a :: b :: rest).Nodup) : (levelUp node (a :: b :: rest)).Nodup :=
  (nodup_pairs h).map_on fun p hp q hq heq => hinj (hS p (.here hp)) (hS q (.here hq)) heq

/-- The number of levels above the leaves. -/
def depth (l : List α) : Nat := Nat.clog 2 l.length

@[simp] theorem depth_nil : depth ([] : List α) = 0 := by simp [depth]

@[simp] theorem depth_singleton (a : α) : depth [a] = 0 := by simp [depth]

theorem depth_cons_cons (a b : α) (rest : List α) :
    depth (a :: b :: rest) = depth (levelUp node (a :: b :: rest)) + 1 := by
  unfold depth
  rw [Nat.clog_of_two_le (by decide) (by simp), length_levelUp]
  rfl

/-- Lists of which different ones have different roots: of the same length, or of the same
    depth and without repetitions. -/
def Comparable (l₁ l₂ : List α) : Prop :=
  depth l₁ = depth l₂ ∧ (l₁.length = l₂.length ∨ l₁.Nodup ∧ l₂.Nodup)

theorem Comparable.levelUp {a b c d : α} {rest₁ rest₂ : List α} {S : Set (α × α)}
    (h : Comparable (a :: b :: rest₁) (c :: d :: rest₂))
    (h₁ : ∀ p, Hashed node (a :: b :: rest₁) p → p ∈ S)
    (h₂ : ∀ p, Hashed node (c :: d :: rest₂) p → p ∈ S) (hinj : S.InjOn node) :
    Comparable (levelUp node (a :: b :: rest₁)) (levelUp node (c :: d :: rest₂)) := by
  constructor
  · have hdepth := h.1
    rw [depth_cons_cons node, depth_cons_cons node] at hdepth
    exact Nat.succ.inj hdepth
  · rcases h.2 with hlength | ⟨hn₁, hn₂⟩
    · left
      rw [length_levelUp, length_levelUp, hlength]
    · exact .inr ⟨nodup_levelUp node h₁ hinj hn₁, nodup_levelUp node h₂ hinj hn₂⟩

/-- The root of comparable lists determines them. -/
theorem Comparable.eq_of_root_eq {l₁ l₂ : List α} {S : Set (α × α)} (h : Comparable l₁ l₂)
    (h₁ : ∀ p, Hashed node l₁ p → p ∈ S) (h₂ : ∀ p, Hashed node l₂ p → p ∈ S)
    (hinj : S.InjOn node) (hroot : root node l₁ = root node l₂) : l₁ = l₂ := by
  induction l₁ using root.induct node generalizing l₂ with
  | case1 =>
    rcases l₂ with _ | ⟨c, _ | ⟨d, rest'⟩⟩
    · rfl
    · simp only [root] at hroot
      cases hroot
    · have hdepth := h.1
      rw [depth_nil, depth_cons_cons node] at hdepth
      cases hdepth
  | case2 a =>
    rcases l₂ with _ | ⟨c, _ | ⟨d, rest'⟩⟩
    · simp only [root] at hroot
      cases hroot
    · simp only [root] at hroot
      rw [Option.some.inj hroot]
    · have hdepth := h.1
      rw [depth_singleton, depth_cons_cons node] at hdepth
      cases hdepth
  | case3 a b rest ih =>
    have hdepth := h.1
    rw [depth_cons_cons node] at hdepth
    rcases l₂ with _ | ⟨c, _ | ⟨d, rest'⟩⟩
    · cases hdepth.trans depth_nil
    · cases hdepth.trans (depth_singleton c)
    · rw [root, root] at hroot
      -- one level up the lists agree, and hashing is injective on the pairs below
      have hup := ih (h.levelUp node h₁ h₂ hinj) (fun p hp => h₁ p (.above hp))
        (fun p hp => h₂ p (.above hp)) hroot
      have hpairs := eq_of_map_eq_of_injOn hinj (fun p hp => h₁ p (.here hp))
        (fun p hp => h₂ p (.here hp)) hup
      exact eq_of_pairs_eq hpairs h.2

/-- The leaves of the shallower of two trees with one root are nodes of the deeper one. -/
theorem exists_hashed_of_depth_lt {l₁ l₂ : List α} {S : Set (α × α)} (hne : l₁ ≠ [])
    (hn₁ : l₁.Nodup) (hn₂ : l₂.Nodup) (h₁ : ∀ p, Hashed node l₁ p → p ∈ S)
    (h₂ : ∀ p, Hashed node l₂ p → p ∈ S) (hinj : S.InjOn node)
    (hroot : root node l₁ = root node l₂) (hdepth : depth l₁ < depth l₂) :
    ∃ a ∈ l₁, ∃ p, Hashed node l₂ p ∧ a = node p := by
  induction l₂ using root.induct node with
  | case1 => exact absurd (depth_nil ▸ hdepth) (Nat.not_lt_zero _)
  | case2 c => exact absurd (depth_singleton c ▸ hdepth) (Nat.not_lt_zero _)
  | case3 c d rest ih =>
    rw [depth_cons_cons node] at hdepth
    rw [@root.eq_3 _ node] at hroot
    have hup := nodup_levelUp node h₂ hinj hn₂
    rcases Nat.lt_or_eq_of_le (Nat.le_of_lt_succ hdepth) with hlt | heq
    · obtain ⟨a, ha, p, hp, hap⟩ := ih hup (fun p hp => h₂ p (.above hp)) hroot hlt
      exact ⟨a, ha, p, .above hp, hap⟩
    · -- the level above the leaves is the other tree's first one
      have hlike : Comparable l₁ (levelUp node (c :: d :: rest)) := ⟨heq, .inr ⟨hn₁, hup⟩⟩
      obtain rfl := hlike.eq_of_root_eq node h₁ (fun p hp => h₂ p (.above hp)) hinj hroot
      obtain ⟨a, ha⟩ := List.exists_mem_of_ne_nil _ hne
      obtain ⟨p, hp, rfl⟩ := List.mem_map.mp ha
      exact ⟨node p, ha, p, .here hp, rfl⟩

/-- Without repetitions, and without a leaf that is a node of the other tree, the root
    determines the leaves. -/
theorem eq_of_root_eq {l₁ l₂ : List α} {S : Set (α × α)} (hne₁ : l₁ ≠ []) (hne₂ : l₂ ≠ [])
    (hn₁ : l₁.Nodup) (hn₂ : l₂.Nodup) (h₁ : ∀ p, Hashed node l₁ p → p ∈ S)
    (h₂ : ∀ p, Hashed node l₂ p → p ∈ S) (hinj : S.InjOn node)
    (hleaf₁ : ∀ a ∈ l₁, ∀ p, Hashed node l₂ p → a ≠ node p)
    (hleaf₂ : ∀ a ∈ l₂, ∀ p, Hashed node l₁ p → a ≠ node p)
    (hroot : root node l₁ = root node l₂) : l₁ = l₂ := by
  rcases Nat.lt_trichotomy (depth l₁) (depth l₂) with hlt | heq | hgt
  · obtain ⟨a, ha, p, hp, hap⟩ :=
      exists_hashed_of_depth_lt node hne₁ hn₁ hn₂ h₁ h₂ hinj hroot hlt
    exact absurd hap (hleaf₁ a ha p hp)
  · exact Comparable.eq_of_root_eq node ⟨heq, .inr ⟨hn₁, hn₂⟩⟩ h₁ h₂ hinj hroot
  · obtain ⟨a, ha, p, hp, hap⟩ :=
      exists_hashed_of_depth_lt node hne₂ hn₂ hn₁ h₂ h₁ hinj hroot.symm hgt
    exact absurd hap (hleaf₂ a ha p hp)

end Merkle
