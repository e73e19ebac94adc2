import Mathlib.Data.List.Basic

/-! # Copies kept by announcements

    A list grows and shrinks at its end. Each entry is announced with its position when it
    is added, and nothing is announced when entries are taken away. Who is told about an
    entry drops what he holds from its position on.

    `Follows first list log`: by what was announced, the copy agrees with `list`, whose
    positions start at `first`, and goes on beyond it at most up to the last announcement.
-/

namespace Mirror

variable {α : Type}

/-- What a copy holds at each position. -/
abbrev Copy (α : Type) : Type := Nat → Option α

/-- An entry is announced with its position. -/
def Copy.receive (v : Copy α) (e : Nat × α) : Copy α :=
  fun k => if k < e.1 then v k else if k = e.1 then some e.2 else none

/-- The copy that a log of announcements leaves. -/
def replay (log : List (Nat × α)) : Copy α := log.foldl Copy.receive fun _ => none

/-- The position after the last announcement. -/
def reach (first : Nat) (log : List (Nat × α)) : Nat := log.getLast?.elim first fun e => e.1 + 1

theorem replay_append (log more : List (Nat × α)) :
    replay (log ++ more) = more.foldl Copy.receive (replay log) := List.foldl_append

@[simp] theorem Copy.receive_below (v : Copy α) {e : Nat × α} {k : Nat} (h : k < e.1) :
    v.receive e k = v k := if_pos h

@[simp] theorem Copy.receive_at (v : Copy α) (e : Nat × α) : v.receive e e.1 = some e.2 := by
  simp [receive]

theorem Copy.receive_above (v : Copy α) {e : Nat × α} {k : Nat} (h : e.1 < k) :
    v.receive e k = none := by
  rw [receive, if_neg (by omega), if_neg (by omega)]

/-- It does not matter how often an entry is announced. -/
theorem Copy.receive_receive (v : Copy α) (e : Nat × α) :
    (v.receive e).receive e = v.receive e := by
  funext k
  rcases Nat.lt_trichotomy k e.1 with hlt | rfl | hgt
  · rw [receive_below _ hlt]
  · rw [receive_at, receive_at]
  · rw [receive_above _ hgt, receive_above _ hgt]

theorem foldl_receive_replicate (v : Copy α) (e : Nat × α) (n : Nat) :
    (List.replicate (n + 1) e).foldl Copy.receive v = v.receive e := by
  induction n generalizing v with
  | zero => rfl
  | succ n ih =>
    rw [List.replicate_succ, List.foldl_cons, ih, Copy.receive_receive]

/-- The copy of `log` agrees with `list`. -/
structure Follows (first : Nat) (list : List α) (log : List (Nat × α)) : Prop where
  held : ∀ i a, list[i]? = some a → replay log (first + i) = some a
  filled : ∀ k, (replay log k).isSome ↔ first ≤ k ∧ k < reach first log
  reached : first + list.length ≤ reach first log

namespace Follows

variable {first : Nat} {list : List α} {log : List (Nat × α)}

theorem nil (first : Nat) : Follows first ([] : List α) [] where
  held i a h := by simp at h
  filled k := by simp [replay, reach]
  reached := Nat.le_refl first

/-- A new entry is announced, at least once. -/
theorem announce (h : Follows first list log) (a : α) (n : Nat) :
    Follows first (list ++ [a])
      (log ++ List.replicate (n + 1) (first + list.length, a)) := by
  have hreplay : replay (log ++ List.replicate (n + 1) (first + list.length, a)) =
      (replay log).receive (first + list.length, a) := by
    rw [replay_append, foldl_receive_replicate]
  have hreach : reach first (log ++ List.replicate (n + 1) (first + list.length, a)) =
      first + list.length + 1 := by
    unfold reach
    rw [List.getLast?_append, List.getLast?_replicate, if_neg (Nat.succ_ne_zero n)]
    rfl
  have hreached := h.reached
  refine ⟨fun i b hb => ?_, fun k => ?_, ?_⟩
  · rw [hreplay]
    rcases Nat.lt_or_ge i list.length with hlt | hge
    · rw [List.getElem?_append_left hlt] at hb
      rw [Copy.receive_below _ (Nat.add_lt_add_left hlt first)]
      exact h.held i b hb
    · obtain ⟨hi, -⟩ := List.getElem?_eq_some_iff.mp hb
      rw [List.length_append, List.length_singleton] at hi
      obtain rfl : i = list.length := by omega
      rw [List.getElem?_concat_length] at hb
      cases hb
      exact Copy.receive_at _ (first + list.length, a)
  · rw [hreplay, hreach]
    rcases Nat.lt_trichotomy k (first + list.length) with hlt | rfl | hgt
    · -- the copy had an entry wherever the list had one
      rw [Copy.receive_below _ hlt, h.filled]
      omega
    · rw [show (first + list.length) = (first + list.length, a).1 from rfl, Copy.receive_at]
      simp
    · rw [Copy.receive_above _ hgt]
      simp
      omega
  · have hlength : (list ++ [a]).length = list.length + 1 := List.length_append
    omega

/-- Entries are taken away without a word. -/
theorem take (h : Follows first list log) (n : Nat) : Follows first (list.take n) log where
  held i a ha := by
    rw [List.getElem?_take] at ha
    split at ha
    · exact h.held i a ha
    · cases ha
  filled := h.filled
  reached := Nat.le_trans (Nat.add_le_add_left (List.length_take_le' n list) first) h.reached

end Follows

end Mirror
