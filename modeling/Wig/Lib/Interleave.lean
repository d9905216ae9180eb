/-
Interleavings of two lists, and what a filter makes of one.
-/
import Mathlib.Data.List.Basic

namespace Wig.Lib

variable {α : Type} {xs ys zs : List α}

/-- `zs` has the elements of `xs` and of `ys`, each in its own order. -/
inductive Interleave : List α → List α → List α → Prop
  | nil : Interleave [] [] []
  | left {xs ys zs : List α} (x : α) (h : Interleave xs ys zs) : Interleave (x :: xs) ys (x :: zs)
  | right {xs ys zs : List α} (y : α) (h : Interleave xs ys zs) : Interleave xs (y :: ys) (y :: zs)

namespace Interleave

theorem symm (h : Interleave xs ys zs) : Interleave ys xs zs := by
  induction h with
  | nil => exact .nil
  | left x _ ih => exact .right x ih
  | right y _ ih => exact .left y ih

theorem onlyRight : ∀ ys : List α, Interleave [] ys ys
  | [] => .nil
  | y :: ys => .right y (onlyRight ys)

/-- One list after the other. -/
theorem append : ∀ xs ys : List α, Interleave xs ys (xs ++ ys)
  | [], ys => onlyRight ys
  | x :: xs, ys => .left x (append xs ys)

theorem filter (p : α → Bool) (h : Interleave xs ys zs) : Interleave (xs.filter p) (ys.filter p) (zs.filter p) := by
  induction h with
  | nil => exact .nil
  | left x _ ih =>
    cases hx : p x with
    | true => rw [List.filter_cons_of_pos hx, List.filter_cons_of_pos hx]; exact .left x ih
    | false => rw [List.filter_cons_of_neg (by simp [hx]), List.filter_cons_of_neg (by simp [hx])]; exact ih
  | right y _ ih =>
    cases hy : p y with
    | true => rw [List.filter_cons_of_pos hy, List.filter_cons_of_pos hy]; exact .right y ih
    | false => rw [List.filter_cons_of_neg (by simp [hy]), List.filter_cons_of_neg (by simp [hy])]; exact ih

theorem eq_of_left_nil (h : Interleave [] ys zs) : zs = ys := by
  generalize hxs : ([] : List α) = xs at h
  induction h with
  | nil => rfl
  | left x _ _ => cases hxs
  | right y _ ih => rw [ih hxs]

/-- A filter that keeps nothing of one list keeps what it keeps of the other. -/
theorem filter_eq_right {p : α → Bool} (h : Interleave xs ys zs) (hxs : xs.filter p = []) :
    zs.filter p = ys.filter p := by
  have hf := h.filter p
  rw [hxs] at hf
  exact hf.eq_of_left_nil

theorem filter_eq_left {p : α → Bool} (h : Interleave xs ys zs) (hys : ys.filter p = []) : zs.filter p = xs.filter p :=
  h.symm.filter_eq_right hys

end Interleave

end Wig.Lib
