import Mathlib.Data.Nat.Init
import RadarDemo.Concurrency.Transition

/-!
# Calls that wait for one another

A notification that is running calls the next one, and goes on when that one has
returned.  What is still to be done is then a stack of tasks, the *agenda*: a step
takes the first task off and puts in front what it calls.

Where each task calls tasks of a higher rank only, and the ranks are bounded, the
calls return.  `exists_drain` says so for the first part of an agenda, whatever is
below it, and it carries along what a call leaves alone: `Same b s s'` means that
`s'` is `s` up to the things of rank at least `b`.
-/

namespace Concurrency

namespace TransitionSystem

universe u v w

variable {σ : Type u} {α : Type v} {τ : Type w} (T : TransitionSystem σ α)

/-- What is known of the steps that work off the agenda. -/
structure Drains (run : α) (agenda : σ → List τ) (rank : τ → ℕ) (bound : ℕ) (I : σ → Prop)
    (Same : ℕ → σ → σ → Prop) : Prop where
  refl : ∀ b s, Same b s s
  trans : ∀ {b s t u}, Same b s t → Same b t u → Same b s u
  mono : ∀ {a b s t}, a ≤ b → Same b s t → Same a s t
  pop : ∀ {s task rest}, I s → agenda s = task :: rest → ∃ s' new, T.step s run = some s' ∧
    agenda s' = new ++ rest ∧ I s' ∧ Same (rank task) s s' ∧
      ∀ t ∈ new, rank task < rank t ∧ rank t < bound

variable {T} {run : α} {agenda : σ → List τ} {rank : τ → ℕ} {bound : ℕ} {I : σ → Prop}
  {Same : ℕ → σ → σ → Prop}

/-- One run after another. -/
theorem exec_replicate_add {s t u : σ} {m n : ℕ} (first : T.exec s (List.replicate m run) = some t)
    (second : T.exec t (List.replicate n run) = some u) :
    T.exec s (List.replicate (m + n) run) = some u := by
  rw [← List.replicate_append_replicate, exec_append T first, second]

/-- **The calls return.** -/
theorem Drains.exists_drain (drains : T.Drains run agenda rank bound I Same) {s : σ} (held : I s)
    {top rest : List τ} {b : ℕ} (is : agenda s = top ++ rest) (high : ∀ t ∈ top, b ≤ rank t) :
    ∃ k s', T.exec s (List.replicate k run) = some s' ∧ agenda s' = rest ∧ I s' ∧ Same b s s' := by
  induction left : bound - b using Nat.strong_induction_on generalizing s top rest b with
  | _ left below =>
      induction top generalizing s with
      | nil => exact ⟨0, s, rfl, is, held, drains.refl b s⟩
      | cons task top after =>
          obtain ⟨s₁, new, stepped, is₁, held₁, same₁, higher⟩ := drains.pop held is
          have atLeast := high task List.mem_cons_self
          -- What the task calls is of a higher rank, and returns by induction on what is left.
          have called : ∃ k s₂, T.exec s₁ (List.replicate k run) = some s₂ ∧
              agenda s₂ = top ++ rest ∧ I s₂ ∧ Same b s₁ s₂ := by
            cases new with
            | nil => exact ⟨0, s₁, rfl, is₁, held₁, drains.refl b s₁⟩
            | cons t new =>
                have less := higher t List.mem_cons_self
                obtain ⟨k, s₂, ran, is₂, held₂, same₂⟩ := below (bound - (rank task + 1)) (by omega)
                  held₁ is₁ (fun u member => (higher u member).1) rfl
                exact ⟨k, s₂, ran, is₂, held₂, drains.mono (by omega) same₂⟩
          obtain ⟨k, s₂, ran, is₂, held₂, same₂⟩ := called
          obtain ⟨k', s₃, ran', is₃, held₃, same₃⟩ :=
            after held₂ is₂ fun t member => high t (List.mem_cons_of_mem task member)
          refine ⟨1 + (k + k'), s₃, exec_replicate_add ?_ (exec_replicate_add ran ran'), is₃, held₃,
            drains.trans (drains.mono atLeast same₁) (drains.trans same₂ same₃)⟩
          rw [List.replicate_one, exec_cons_of_step T stepped, exec_nil]

end TransitionSystem

end Concurrency
