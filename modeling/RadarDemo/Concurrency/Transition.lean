import Mathlib.Logic.Relation
import Mathlib.Order.Basic

/-!
# Transition systems driven by a schedule

A concurrent program is modelled here as one deterministic step function: the
state, together with the action the scheduler picks next, determines the state
that follows, or refuses the action.  A *schedule* is then a plain list of
actions, `exec` runs it, and everything the program can do under any
interleaving is quantified over schedules.

Three kinds of statement are needed about such a system, and each has one rule.

* **Invariants.**  `ReachableUnder ok` collects the states that are reached by
  steps which all meet the condition `ok`; `Reachable` is the unconditional
  case.  `ReachableUnder.invariant` is the induction.
* **Properties of every step of a run.**  `Along Q s as` says that each step
  the schedule `as` takes from `s` satisfies `Q`.  `along_of_keeps` derives it
  from a condition met along the run; `along_iff_of_exact` adds the converse for
  a condition whose violation shows at once, and `along_of_breaks` for one whose
  violation may instead leave the run *doomed* to show it later.
* **What is left of a step.**  What holds at the end of a run began with one of its
  steps, and has been kept since (`Reachable.exists_since`).
* **Abstraction.**  `Reachable.simulates` carries reachability to an abstract
  relation along a simulation.
-/

namespace Concurrency

universe u v w

/-- A system whose next state is determined by its state and by the action that
is scheduled; `none` means that the action is not enabled. -/
structure TransitionSystem (σ : Type u) (α : Type v) where
  /-- The state before the first action. -/
  init : σ
  /-- The effect of one action. -/
  step : σ → α → Option σ

namespace TransitionSystem

variable {σ : Type u} {α : Type v} (T : TransitionSystem σ α)

/-- Run a schedule, one action after another. -/
def exec : σ → List α → Option σ
  | s, [] => some s
  | s, a :: as => (T.step s a).bind fun s' => exec s' as

@[simp] theorem exec_nil (s : σ) : T.exec s [] = some s := rfl

@[simp] theorem exec_cons (s : σ) (a : α) (as : List α) :
    T.exec s (a :: as) = (T.step s a).bind fun s' => T.exec s' as := rfl

theorem exec_cons_of_step {s s' : σ} {a : α} (moved : T.step s a = some s') (as : List α) :
    T.exec s (a :: as) = T.exec s' as := by
  rw [exec_cons, moved, Option.bind_some]

theorem exec_append {s s' : σ} {as : List α} (ran : T.exec s as = some s') (bs : List α) :
    T.exec s (as ++ bs) = T.exec s' bs := by
  induction as generalizing s with
  | nil =>
      rw [exec_nil, Option.some_inj] at ran
      rw [ran, List.nil_append]
  | cons a as ih =>
      rw [exec_cons, Option.bind_eq_some_iff] at ran
      obtain ⟨t, moved, ran⟩ := ran
      rw [List.cons_append, exec_cons_of_step T moved, ih ran]

/-- The states reached by steps that all meet the condition `ok`. -/
inductive ReachableUnder (ok : σ → α → Prop) : σ → Prop
  | init : ReachableUnder ok T.init
  | step {s s' : σ} {a : α} : ReachableUnder ok s → ok s a → T.step s a = some s' →
      ReachableUnder ok s'

/-- The states reached by any schedule. -/
def Reachable : σ → Prop := T.ReachableUnder fun _ _ => True

/-- Every step that the schedule takes from the given state satisfies `Q`, which
sees the state before the step, the action and the state after it. -/
def Along (Q : σ → α → σ → Prop) : σ → List α → Prop
  | _, [] => True
  | s, a :: as =>
      match T.step s a with
      | none => True
      | some s' => Q s a s' ∧ Along Q s' as

variable {T}

/-! ## Invariants -/

/-- **The invariant rule.**  A predicate that holds initially and is preserved by
every step meeting `ok` holds in every state such steps reach. -/
theorem ReachableUnder.invariant {ok : σ → α → Prop} {I : σ → Prop} {s : σ}
    (reached : T.ReachableUnder ok s) (atInit : I T.init)
    (preserved : ∀ {s a s'}, I s → ok s a → T.step s a = some s' → I s') : I s := by
  induction reached with
  | init => exact atInit
  | step _ meets moved ih => exact preserved ih meets moved

/-- The invariant rule for the unconditional case. -/
theorem Reachable.invariant {I : σ → Prop} {s : σ} (reached : T.Reachable s)
    (atInit : I T.init)
    (preserved : ∀ {s a s'}, I s → T.step s a = some s' → I s') : I s :=
  ReachableUnder.invariant reached atInit fun held _ moved => preserved held moved

/-! ## Properties of every step -/

theorem along_cons {Q : σ → α → σ → Prop} {s s' : σ} {a : α} {as : List α}
    (moved : T.step s a = some s') :
    T.Along Q s (a :: as) ↔ Q s a s' ∧ T.Along Q s' as := by
  simp only [Along, moved]

/-- What a run that meets the condition throughout reaches, is reached under it. -/
theorem ReachableUnder.exec {ok : σ → α → Prop} {s s' : σ} (reached : T.ReachableUnder ok s)
    {as : List α} (meets : T.Along (fun s a _ => ok s a) s as)
    (ran : T.exec s as = some s') : T.ReachableUnder ok s' := by
  induction as generalizing s with
  | nil =>
      rw [exec_nil, Option.some_inj] at ran
      exact ran ▸ reached
  | cons a as ih =>
      rw [exec_cons, Option.bind_eq_some_iff] at ran
      obtain ⟨t, moved, ran⟩ := ran
      rw [along_cons moved] at meets
      exact ih (reached.step meets.1 moved) meets.2 ran

theorem along_of_forall {Q : σ → α → σ → Prop} (always : ∀ s a s', Q s a s') (s : σ)
    (as : List α) : T.Along Q s as := by
  induction as generalizing s with
  | nil => trivial
  | cons a as ih =>
      cases moved : T.step s a with
      | none => simp only [Along, moved]
      | some s' =>
          rw [along_cons moved]
          exact ⟨always s a s', ih s'⟩

/-- Every executed schedule witnesses reachability. -/
theorem reachable_of_exec {s : σ} {as : List α} (ran : T.exec T.init as = some s) :
    T.Reachable s :=
  ReachableUnder.init.exec (along_of_forall (fun _ _ _ => trivial) T.init as) ran

instance decidableAlong {Q : σ → α → σ → Prop} [∀ s a s', Decidable (Q s a s')] :
    ∀ (s : σ) (as : List α), Decidable (T.Along Q s as)
  | _, [] => isTrue trivial
  | s, a :: as =>
      match moved : T.step s a with
      | none => isTrue (by simp only [Along, moved])
      | some s' =>
          have := decidableAlong (Q := Q) s' as
          decidable_of_iff (Q s a s' ∧ T.Along Q s' as) (along_cons moved).symm

/-- **A condition that suffices.**  If a step that meets `ok` keeps the invariant
and satisfies `Q`, then along a run whose steps all meet `ok` every step
satisfies `Q`. -/
theorem along_of_keeps {I : σ → Prop} {ok : σ → α → Prop} {Q : σ → α → σ → Prop}
    (keeps : ∀ {s a s'}, I s → T.step s a = some s' → ok s a → I s' ∧ Q s a s')
    {s : σ} (held : I s) (as : List α) (meets : T.Along (fun s a _ => ok s a) s as) :
    T.Along Q s as := by
  induction as generalizing s with
  | nil => trivial
  | cons a as ih =>
      cases moved : T.step s a with
      | none => simp only [Along, moved]
      | some s' =>
          rw [along_cons moved] at meets ⊢
          obtain ⟨held', now⟩ := keeps held moved meets.1
          exact ⟨now, ih held' meets.2⟩

/-- A stronger property of every step. -/
theorem Along.mono {Q R : σ → α → σ → Prop} (implies : ∀ {s a s'}, Q s a s' → R s a s') {s : σ}
    {as : List α} (holds : T.Along Q s as) : T.Along R s as := by
  induction as generalizing s with
  | nil => trivial
  | cons a as ih =>
      cases moved : T.step s a with
      | none => simp only [Along, moved]
      | some s' =>
          rw [along_cons moved] at holds ⊢
          exact ⟨implies holds.1, ih holds.2⟩

theorem Along.and {Q R : σ → α → σ → Prop} {s : σ} {as : List α} (left : T.Along Q s as)
    (right : T.Along R s as) : T.Along (fun s a s' => Q s a s' ∧ R s a s') s as := by
  induction as generalizing s with
  | nil => trivial
  | cons a as ih =>
      cases moved : T.step s a with
      | none => simp only [Along, moved]
      | some s' =>
          rw [along_cons moved] at left right ⊢
          exact ⟨⟨left.1, right.1⟩, ih left.2 right.2⟩

/-- What never decreases is nowhere on a run above its value at the end. -/
theorem along_le_of_mono {β : Type w} [Preorder β] {I : σ → Prop} {μ : σ → β}
    (grows : ∀ {s a s'}, I s → T.step s a = some s' → I s' ∧ μ s ≤ μ s') {s t : σ} (held : I s)
    (as : List α) (ran : T.exec s as = some t) :
    μ s ≤ μ t ∧ T.Along (fun _ _ s' => μ s' ≤ μ t) s as := by
  induction as generalizing s with
  | nil =>
      rw [exec_nil, Option.some_inj] at ran
      exact ⟨ran ▸ le_rfl, trivial⟩
  | cons a as ih =>
      rw [exec_cons, Option.bind_eq_some_iff] at ran
      obtain ⟨s', moved, ran⟩ := ran
      obtain ⟨held', le⟩ := grows held moved
      obtain ⟨rest, along⟩ := ih held' ran
      exact ⟨le.trans rest, (along_cons moved).mpr ⟨rest, along⟩⟩

/-- What holds of every reachable state, holds after every step of a run. -/
theorem along_of_reachable {P : σ → Prop} (holds : ∀ {s}, T.Reachable s → P s) (as : List α) :
    T.Along (fun _ _ s' => P s') T.init as :=
  along_of_keeps (I := T.Reachable)
    (fun reached moved _ => ⟨reached.step trivial moved, holds (reached.step trivial moved)⟩)
    .init as (along_of_forall (fun _ _ _ => trivial) T.init as)

/-- **What has begun and been kept.**  If `I` holds after a step only where the step
begins it, or finds it and keeps it, then at the end of a run it either has been kept
all along, or one of the steps began it and those since then have kept it. -/
theorem Reachable.exists_since {I : σ → Prop} {Begins Keeps : σ → α → σ → Prop}
    (traced : ∀ {s a s'}, T.Reachable s → T.step s a = some s' → I s' →
      Begins s a s' ∨ I s ∧ Keeps s a s')
    {s s' : σ} (reached : T.Reachable s) {as : List α} (ran : T.exec s as = some s') (now : I s') :
    (I s ∧ T.Along Keeps s as) ∨ ∃ bs a cs t t', as = bs ++ a :: cs ∧ T.exec s bs = some t ∧
      T.step t a = some t' ∧ Begins t a t' ∧ T.Along Keeps t' cs := by
  induction as generalizing s with
  | nil =>
      rw [exec_nil, Option.some_inj] at ran
      exact Or.inl ⟨ran ▸ now, trivial⟩
  | cons a as ih =>
      rw [exec_cons, Option.bind_eq_some_iff] at ran
      obtain ⟨t, moved, ran⟩ := ran
      rcases ih (reached.step trivial moved) ran with ⟨held, kept⟩ | began
      · rcases traced reached moved held with begins | ⟨before, keeps⟩
        · exact Or.inr ⟨[], a, as, s, t, rfl, rfl, moved, begins, kept⟩
        · exact Or.inl ⟨before, (along_cons moved).mpr ⟨keeps, kept⟩⟩
      · obtain ⟨bs, b, cs, u, u', rfl, ranTo, begun⟩ := began
        exact Or.inr ⟨a :: bs, b, cs, u, u', rfl, (exec_cons_of_step T moved bs).trans ranTo, begun⟩

/-- **A condition that is exact step by step.**  If moreover a step that violates
`ok` violates `Q`, then a run satisfies `Q` at every step exactly if it meets
`ok` at every step. -/
theorem along_iff_of_exact {I : σ → Prop} {ok : σ → α → Prop} {Q : σ → α → σ → Prop}
    (keeps : ∀ {s a s'}, I s → T.step s a = some s' → ok s a → I s' ∧ Q s a s')
    (breaks : ∀ {s a s'}, I s → T.step s a = some s' → Q s a s' → ok s a)
    {s : σ} (held : I s) (as : List α) :
    T.Along Q s as ↔ T.Along (fun s a _ => ok s a) s as := by
  constructor
  · intro satisfied
    induction as generalizing s with
    | nil => trivial
    | cons a as ih =>
        cases moved : T.step s a with
        | none => simp only [Along, moved]
        | some s' =>
            rw [along_cons moved] at satisfied ⊢
            have meets := breaks held moved satisfied.1
            exact ⟨meets, ih (keeps held moved meets).1 satisfied.2⟩
  · exact along_of_keeps keeps held as

/-- A doomed run shows the violation before it leaves the doomed states. -/
theorem not_along_of_doomed {D : σ → Prop} {Q : σ → α → σ → Prop}
    (dooms : ∀ {s a s'}, D s → T.step s a = some s' → Q s a s' → D s')
    {s t : σ} (doomed : D s) (as : List α) (ran : T.exec s as = some t) (ended : ¬ D t) :
    ¬ T.Along Q s as := by
  induction as generalizing s with
  | nil =>
      rw [exec_nil, Option.some_inj] at ran
      exact absurd (ran ▸ doomed) ended
  | cons a as ih =>
      rw [exec_cons, Option.bind_eq_some_iff] at ran
      obtain ⟨s', moved, ran⟩ := ran
      rw [along_cons moved]
      rintro ⟨now, later⟩
      exact ih (dooms doomed moved now) ran later

/-- **A condition that is necessary.**  Suppose that a step meeting `ok` keeps the
invariant, and that a step violating `ok` either violates `Q` itself or leads to
a state in `D`, which is left only by violating `Q`.  Then a run that ends
outside `D` and satisfies `Q` at every step has met `ok` at every step. -/
theorem along_of_breaks {I D : σ → Prop} {ok : σ → α → Prop} {Q : σ → α → σ → Prop}
    (keeps : ∀ {s a s'}, I s → T.step s a = some s' → ok s a → I s')
    (breaks : ∀ {s a s'}, I s → T.step s a = some s' → ¬ ok s a → Q s a s' → D s')
    (dooms : ∀ {s a s'}, D s → T.step s a = some s' → Q s a s' → D s')
    {s t : σ} (held : I s) (as : List α) (ran : T.exec s as = some t) (ended : ¬ D t)
    (satisfied : T.Along Q s as) : T.Along (fun s a _ => ok s a) s as := by
  induction as generalizing s with
  | nil => trivial
  | cons a as ih =>
      rw [exec_cons, Option.bind_eq_some_iff] at ran
      obtain ⟨s', moved, ran⟩ := ran
      rw [along_cons moved] at satisfied ⊢
      by_cases meets : ok s a
      · exact ⟨meets, ih (keeps held moved meets) ran satisfied.2⟩
      · exact absurd satisfied.2
          (not_along_of_doomed dooms (breaks held moved meets satisfied.1) as ran ended)

/-! ## Simulation -/

/-- **The simulation rule.**  If every step of the system is matched by finitely
many steps of the relation `r`, every reachable state is related to a state that
`r` reaches. -/
theorem Reachable.simulates {τ : Type w} {r : τ → τ → Prop} (sim : σ → τ → Prop)
    {t₀ : τ} (atInit : sim T.init t₀)
    (matched : ∀ {s a s' t}, sim s t → T.step s a = some s' →
      ∃ t', Relation.ReflTransGen r t t' ∧ sim s' t')
    {s : σ} (reached : T.Reachable s) :
    ∃ t, Relation.ReflTransGen r t₀ t ∧ sim s t := by
  refine Reachable.invariant (I := fun s => ∃ t, Relation.ReflTransGen r t₀ t ∧ sim s t)
    reached ⟨t₀, .refl, atInit⟩ ?_
  rintro s a s' ⟨t, path, related⟩ moved
  obtain ⟨t', more, related'⟩ := matched related moved
  exact ⟨t', path.trans more, related'⟩

end TransitionSystem

end Concurrency
