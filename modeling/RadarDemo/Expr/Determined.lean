import RadarDemo.Expr.InSync

/-!
# What is observed is determined

A value that is kept up to date is a function of the values that the program sets
itself: whatever has happened on the way, what is shown at the end follows from what
the expressions say and from what those values store (`sheet_determined`).  The order of
the sets, what has been destroyed since, and how the notifications were nested leave no
trace.
-/

namespace RadarDemo.Expr

open Concurrency TransitionSystem Sheet

variable {V : ℕ → Type} {υ : Type} {equal : ∀ x, V x → V x → Bool} {indeterminate : ∀ x, V x}
  [DecidableEq υ]

namespace Sheet

omit [DecidableEq υ]

/-- The expression under a name, as it is written. -/
def written (s : Sheet V υ) (x : ℕ) : Option (Formula V (V x)) :=
  (s.roots x).map fun root => root.node.shape

variable {s s' : Sheet V υ} {x m : ℕ} {root : Root V υ (V m)}

theorem written_setNode {node : Node V (V m)} (has : s.roots m = some root)
    (shape : node.shape = root.node.shape) : (s.setNode m root node).written x = s.written x := by
  change (Function.update s.roots m _ x).map _ = (s.roots x).map _
  by_cases same : x = m
  · subst same
    rw [Function.update_self, has, Option.map_some, Option.map_some, shape]
  · rw [Function.update_of_ne same]

theorem written_setImpl (newValue : V m) :
    (s.setImpl equal m newValue).written x = s.written x := by
  rw [written, setImpl_roots, written]

theorem written_eval {node : Node V (V m)} (has : s.roots m = some root)
    (shape : node.shape = root.node.shape) :
    (s.eval equal m { root with node := node }).written x = s.written x := by
  refine (written_setImpl _).trans ?_
  change (s.setNode m root (node.eval s.values)).written x = _
  exact written_setNode has ((node.shape_eval s.values).trans shape)

/-- A notification leaves what is written. -/
theorem written_run (ran : s.run equal = some s') : s'.written x = s.written x := by
  cases is : s.agenda with
  | nil => simp [run, is] at ran
  | cons task rest =>
      cases task with
      | notify m p =>
          simp only [run, is, Option.map_eq_some_iff] at ran
          obtain ⟨root, has, rfl⟩ := ran
          have shape := root.node.shape_markDirty p
          unfold Sheet.notify
          split
          · exact written_eval (s := { s with agenda := rest }) has shape
          · exact written_setNode (s := { s with agenda := rest }) has shape
      | returns y =>
          simp only [run, is, Option.some_inj] at ran
          rw [← ran]
          rfl
      | eval y =>
          simp only [run, is, Option.map_eq_some_iff] at ran
          obtain ⟨root, has, rfl⟩ := ran
          exact written_eval (s := { s with agenda := rest }) has rfl
      | unlock u =>
          simp only [run, is, Option.some_inj] at ran
          rw [← ran]
          rfl

end Sheet

/-- Nothing is made and nothing destroyed. -/
def Action.keeps : Action V υ → Bool
  | .set _ _ => true
  | .run => true
  | _ => false

theorem written_exec {as : List (Action V υ)} (keep : ∀ a ∈ as, a.keeps = true) {s s' : Sheet V υ}
    (ran : (sheet equal indeterminate).exec s as = some s') {x : ℕ} :
    s'.written x = s.written x := by
  induction as generalizing s with
  | nil =>
      cases ran
      rfl
  | cons a as ih =>
      rw [exec_cons, Option.bind_eq_some_iff] at ran
      obtain ⟨t, stepped, ran⟩ := ran
      refine (ih (fun b member => keep b (List.mem_cons_of_mem a member)) ran).trans ?_
      have keeps := keep a List.mem_cons_self
      cases a with
      | set y newValue =>
          change s.step equal (.set y newValue) = some t at stepped
          simp only [Sheet.step, Option.ite_none_right_eq_some] at stepped
          obtain ⟨-, stepped⟩ := stepped
          split at stepped <;> cases stepped
          · rfl
          · exact written_setImpl newValue
      | run => exact written_run stepped
      | value | constant | valueNode | naryNode => cases keeps
      | evalNode | dropNode | observe | destroy | update => cases keeps

/-- Two sheets hold the same expressions over the same values. -/
structure SameInputs (s t : Sheet V υ) : Prop where
  alive : ∀ x, s.alive x = true → t.alive x = true
  expressions : ∀ x, s.alive x = true → s.written x = t.written x
  values : ∀ x, s.alive x = true → s.roots x = none → s.values x = t.values x

/-- **What is observed depends on the program's own values alone.**  After any two
runs that have delivered their notifications and have left no expression out of date,
the same expressions over the same values show the same, if the comparators find only
what is equal to be equal. -/
theorem sheet_determined (lawful : ∀ x a b, equal x a b = true → a = b)
    (as bs : List (Action V υ)) {s t : Sheet V υ}
    (ran : (sheet equal indeterminate).exec (sheet equal indeterminate).init as = some s)
    (ran' : (sheet equal indeterminate).exec (sheet equal indeterminate).init bs = some t)
    (idle : s.agenda = []) (idle' : t.agenda = [])
    (settled : ∀ x, s.alive x = true → s.Settled x)
    (settled' : ∀ x, t.alive x = true → t.Settled x) (same : SameInputs s t) :
    ∀ x, s.alive x = true → s.values x = t.values x := by
  have sound := sound_of_reachable (reachable_of_exec ran)
  have sound' := sound_of_reachable (reachable_of_exec ran')
  have exact {x : ℕ} {a b : V x} (shows : Shows equal x a b) : a = b := shows.elim (lawful x a b) id
  intro x
  -- A value is determined by earlier ones.
  induction x using Nat.strong_induction_on with
  | _ x before =>
      intro isAlive
      have isAlive' := same.alive x isAlive
      cases has : s.roots x with
      | none => exact same.values x isAlive has
      | some root =>
          have equals := same.expressions x isAlive
          rw [written, has, Option.map_some] at equals
          obtain ⟨root', has', shape⟩ := Option.map_eq_some_iff.mp equals.symm
          have shows := exact (sound.inSync isAlive (settled x isAlive) (by simp [idle]) root has)
          have shows' :=
            exact (sound'.inSync isAlive' (settled' x isAlive') (by simp [idle']) root' has')
          rw [shows, shows', ← Tree.meaning_shape, ← Tree.meaning_shape t.values, shape]
          refine Tree.meaning_congr _ fun y p occurs => ?_
          rw [Tree.leaves_shape] at occurs
          obtain ⟨earlier, readable⟩ := sound.wired.earlier x root has (y, p) occurs
          exact before y earlier readable

/-- A program over truth values. -/
def truths : TransitionSystem (Sheet (fun _ => Bool) Unit) (Action (fun _ => Bool) Unit) :=
  sheet (fun _ a b => a == b) fun _ => false

/-- Two values and their conjunction, and then what the program does with them. -/
def conjunctionThen (actions : List (Action (fun _ => Bool) Unit)) :
    List (Action (fun _ => Bool) Unit) :=
  [.value 0 false, .value 1 false, .valueNode 2 0 id, .valueNode 3 1 id,
    .naryNode 4 [2, 3] fun ns => ns.1 && ns.2.1, .observe 5 .immediate 4 rfl] ++ actions

/-- The values are set in one order, and in the other. -/
def leftFirst : List (Action (fun _ => Bool) Unit) :=
  [.set 0 true, .run, .run, .set 1 true, .run, .run, .run]

def rightFirst : List (Action (fun _ => Bool) Unit) :=
  [.set 1 true, .run, .run, .set 0 true, .run, .run, .run]

theorem conjunction_runs : (truths.exec truths.init (conjunctionThen [])).isSome := by
  decide +kernel

theorem leftFirst_runs : (truths.exec truths.init (conjunctionThen leftFirst)).isSome := by
  decide +kernel

theorem rightFirst_runs : (truths.exec truths.init (conjunctionThen rightFirst)).isSome := by
  decide +kernel

/-- What is written at the end has been written before the values are set. -/
theorem written_conjunctionThen {actions : List (Action (fun _ => Bool) Unit)}
    (keep : ∀ a ∈ actions, a.keeps = true) {s : Sheet (fun _ => Bool) Unit}
    (ran : truths.exec truths.init (conjunctionThen actions) = some s) (x : ℕ) :
    s.written x = ((truths.exec truths.init (conjunctionThen [])).get conjunction_runs).written x :=
  written_exec keep
    ((exec_append truths (Option.some_get conjunction_runs).symm actions).symm.trans ran)

/-- Which of the six names are in use, and that no flag is left. -/
theorem settled_of_all {s : Sheet (fun _ => Bool) Unit} (next : s.next = 6)
    (sound : s.Sound fun _ a b => a == b)
    (clean : ∀ x < 6, (s.roots x).all (fun root => !root.node.dirty) = true) (x : ℕ)
    (isAlive : s.alive x = true) : x < 6 ∧ s.Settled x := by
  have within : x < 6 := next ▸ sound.wired.made x isAlive
  refine ⟨within, fun root has => ?_⟩
  simpa [has] using clean x within

/-- The order in which the operands are set leaves no trace. -/
theorem conjunction_determined :
    (truths.exec truths.init (conjunctionThen leftFirst)).map (fun s => s.values 5) =
      (truths.exec truths.init (conjunctionThen rightFirst)).map fun s => s.values 5 := by
  have ran := (Option.some_get leftFirst_runs).symm
  have ran' := (Option.some_get rightFirst_runs).symm
  have settled := settled_of_all (by decide +kernel) (sound_of_reachable (reachable_of_exec ran))
    (by decide +kernel)
  have settled' := settled_of_all (by decide +kernel) (sound_of_reachable (reachable_of_exec ran'))
    (by decide +kernel)
  have alive : ∀ x < 6, ((truths.exec truths.init (conjunctionThen rightFirst)).get
      rightFirst_runs).alive x = ((truths.exec truths.init (conjunctionThen leftFirst)).get
        leftFirst_runs).alive x := by decide +kernel
  have values : ∀ x < 6, (((truths.exec truths.init (conjunctionThen leftFirst)).get
      leftFirst_runs).roots x).isNone → ((truths.exec truths.init (conjunctionThen leftFirst)).get
        leftFirst_runs).values x = ((truths.exec truths.init (conjunctionThen rightFirst)).get
          rightFirst_runs).values x := by decide +kernel
  have determined := sheet_determined (fun _ a b => eq_of_beq) _ _ ran ran' (by decide +kernel)
    (by decide +kernel) (fun x isAlive => (settled x isAlive).2)
    (fun x isAlive => (settled' x isAlive).2) ⟨fun x isAlive => ?_, fun x _ => ?_,
      fun x isAlive plain => ?_⟩ 5 (by decide +kernel)
  · rw [ran, ran']
    exact congrArg some determined
  · exact (alive x (settled x isAlive).1).trans isAlive
  · exact (written_conjunctionThen (by decide) ran x).trans
      (written_conjunctionThen (by decide) ran' x).symm
  · exact values x (settled x isAlive).1 (Option.isNone_iff_eq_none.mpr plain)

end RadarDemo.Expr
