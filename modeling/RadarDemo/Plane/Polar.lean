import Mathlib.Analysis.SpecialFunctions.Trigonometric.Basic

/-!
# Points from polar coordinates, and lists of them

A drawing that places objects by distance and bearing loses nothing as long as
the bearings stay within a half turn and different kinds of objects stay on
different sides of some line.  The three facts behind this are independent of
each other:

* `polar_injective` — within a half turn, a point determines its distance and, off
  the origin, its bearing;
* `append_inj_of_separated` — two lists that a predicate tells apart can be
  recovered from their concatenation;
* `forall₂_of_map_eq` — two lists with equal images correspond, element by
  element, in whatever equal images imply.
-/

namespace Plane

universe u v

open Real

/-- **Polar coordinates are injective on a half turn**, except for the bearing of
the origin. -/
theorem polar_injective {r r' θ θ' : ℝ} (nonneg : 0 ≤ r) (nonneg' : 0 ≤ r')
    (bearing : θ ∈ Set.Icc (-(π / 2)) (π / 2)) (bearing' : θ' ∈ Set.Icc (-(π / 2)) (π / 2))
    (across : r * sin θ = r' * sin θ') (ahead : r * cos θ = r' * cos θ') :
    r = r' ∧ (0 < r → θ = θ') := by
  have square : r ^ 2 = r' ^ 2 := by
    calc r ^ 2 = (r * sin θ) ^ 2 + (r * cos θ) ^ 2 := by
          rw [mul_pow, mul_pow, ← mul_add, sin_sq_add_cos_sq, mul_one]
      _ = (r' * sin θ') ^ 2 + (r' * cos θ') ^ 2 := by rw [across, ahead]
      _ = r' ^ 2 := by rw [mul_pow, mul_pow, ← mul_add, sin_sq_add_cos_sq, mul_one]
  have same : r = r' := (pow_left_inj₀ nonneg nonneg' two_ne_zero).mp square
  refine ⟨same, fun positive => ?_⟩
  rw [← same] at across
  exact injOn_sin bearing bearing' (mul_left_cancel₀ positive.ne' across)

/-- A predicate that holds of the first part and of nothing in the second splits
the concatenation. -/
theorem append_inj_of_separated {α : Type u} {P : α → Prop} {as as' bs bs' : List α}
    (first : ∀ a ∈ as, P a) (first' : ∀ a ∈ as', P a) (second : ∀ b ∈ bs, ¬ P b)
    (second' : ∀ b ∈ bs', ¬ P b) (same : as ++ bs = as' ++ bs') : as = as' ∧ bs = bs' := by
  classical
  have kept : ∀ {xs ys : List α}, (∀ x ∈ xs, P x) → (∀ y ∈ ys, ¬ P y) →
      (xs ++ ys).filter (fun x => P x) = xs := by
    intro xs ys holds fails
    have all : xs.filter (fun x => P x) = xs :=
      List.filter_eq_self.mpr fun x member => decide_eq_true (holds x member)
    have none : ys.filter (fun x => P x) = [] :=
      List.filter_eq_nil_iff.mpr fun y member => by
        rw [decide_eq_true_eq]
        exact fails y member
    rw [List.filter_append, all, none, List.append_nil]
  have front : as = as' := by
    rw [← kept first second, same, kept first' second']
  rw [front] at same
  exact ⟨front, List.append_cancel_left same⟩

/-- What equal images imply of two elements holds along two lists with equal
images. -/
theorem forall₂_of_map_eq {α : Type u} {β : Type v} {f : α → β} {P : α → Prop}
    {r : α → α → Prop} (related : ∀ {x y}, P x → P y → f x = f y → r x y) :
    ∀ {xs ys : List α}, (∀ x ∈ xs, P x) → (∀ y ∈ ys, P y) → xs.map f = ys.map f →
      List.Forall₂ r xs ys
  | [], [], _, _, _ => .nil
  | x :: xs, y :: ys, left, right, same => by
      rw [List.map_cons, List.map_cons, List.cons.injEq] at same
      rw [List.forall_mem_cons] at left right
      exact .cons (related left.1 right.1 same.1) (forall₂_of_map_eq related left.2 right.2 same.2)

end Plane
