import Mathlib.Tactic.Basic

/-! # Replays

    A value that is built by applying items one after the other, each
    application leaving a record from which it can be taken back. A stack of
    frames, newest first, says how the value came about; the items below a frame
    are what its step may depend on.

    * `Replay step v₀ fs`: the frames are successive steps from `v₀`.
    * `Replay.invariant`: what every step preserves holds of the current value.
    * `Replay.drop`: taking frames back leaves a replay of the items that stay.
-/

namespace Journal

variable {ι ρ V : Type}

/-- One application: the item, its record, and the value after it. -/
structure Frame (ι ρ V : Type) where
  item : ι
  record : ρ
  after : V

/-- The items applied, oldest first. -/
def items (fs : List (Frame ι ρ V)) : List ι := (fs.map Frame.item).reverse

/-- The value after all frames. -/
def current (v₀ : V) : List (Frame ι ρ V) → V
  | [] => v₀
  | f :: _ => f.after

@[simp] theorem items_nil : items ([] : List (Frame ι ρ V)) = [] := rfl

@[simp] theorem items_cons (f : Frame ι ρ V) (fs : List (Frame ι ρ V)) :
    items (f :: fs) = items fs ++ [f.item] := by
  simp [items]

@[simp] theorem length_items (fs : List (Frame ι ρ V)) : (items fs).length = fs.length := by
  simp [items]

/-- Dropping the newest frames keeps the oldest items. -/
theorem items_drop (fs : List (Frame ι ρ V)) (n : Nat) :
    items (fs.drop n) = (items fs).take (fs.length - n) := by
  unfold items
  rw [List.map_drop, List.reverse_drop, List.length_map]

@[simp] theorem current_nil (v₀ : V) : current v₀ ([] : List (Frame ι ρ V)) = v₀ := rfl

@[simp] theorem current_cons (v₀ : V) (f : Frame ι ρ V) (fs : List (Frame ι ρ V)) :
    current v₀ (f :: fs) = f.after := rfl

/-- Each frame is a step from the value below it. -/
inductive Replay (step : List ι → ι → ρ → V → V → Prop) (v₀ : V) :
    List (Frame ι ρ V) → Prop
  | nil : Replay step v₀ []
  | cons {f : Frame ι ρ V} {fs : List (Frame ι ρ V)} (below : Replay step v₀ fs)
      (top : step (items fs) f.item f.record (current v₀ fs) f.after) : Replay step v₀ (f :: fs)

namespace Replay

variable {step : List ι → ι → ρ → V → V → Prop} {v₀ : V}

/-- What holds at first and is preserved by every step holds of the current value. -/
theorem invariant {P : List ι → V → Prop} (h₀ : P [] v₀)
    (hstep : ∀ l i r v v', P l v → step l i r v v' → P (l ++ [i]) v')
    {fs : List (Frame ι ρ V)} (h : Replay step v₀ fs) : P (items fs) (current v₀ fs) := by
  induction h with
  | nil => exact h₀
  | cons _ top ih =>
    rw [items_cons]
    exact hstep _ _ _ _ _ ih top

end Replay

end Journal
