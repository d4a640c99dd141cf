import RadarDemo.Concurrency.Agenda
import RadarDemo.Expr.Tree

/-!
# Observed values

What a program makes of `value`, `expression_node`, `observe` and `updater` in one
thread: values of its own, expressions that it builds over them node by node, and
values that such an expression keeps up to date, either at every change
(`immediate_evaluator`) or when an updater is told to.

A change calls the observers of the value one after another.  An observer that is
a node of an immediate expression evaluates it, which may change the value that
is made of it, which calls that one's observers before the others go on.  What is
still to be done is the agenda, and the actions of the program may come in between
at any moment, from its own observers.

* Values and nodes are named by numbers that grow in the order in which they are made.
  A node that becomes an operand of another, or the root of an expression, is found
  from then on under the name of what has taken it over.
* `roots m` is the node `m` that the program holds, or the root of the expression
  that value `m` owns.
* `observers x` are the nodes subscribed to value `x`, the newest first, each as
  the root above it and its place there.
* An observer that has unsubscribed is not called any more, also when it is one of those
  that a notification under way had before it.
* Refused is what would destroy a value in the middle of its own `set_impl`, or wait for
  a lock that the thread holds itself.

Moves of values are in `Expr.Moved`.  Copies of nodes, which share their data, and
observers that the program subscribes to a node or to `destroyed` are left out, and so
are operations and comparators that throw.
-/

namespace RadarDemo.Expr

open Concurrency

/-- The evaluator of an expression. -/
inductive Mode (υ : Type)
  | immediate
  | manual (u : υ)
  deriving DecidableEq, Repr

/-- The root of an expression tree. It belongs to an `expression<ValueType,
EvaluatorType>`, or the program still holds it and it has no evaluator. -/
structure Root (V : ℕ → Type) (υ α : Type) where
  node : Node V α
  mode : Option (Mode υ)

/-- What is still to be done. -/
inductive Task (υ : Type)
  /-- the node at `p` below root `m` is notified -/
  | notify (m : ℕ) (p : Path)
  /-- the observers of value `x` have been called, and `set_impl` returns -/
  | returns (x : ℕ)
  /-- the turn of `eval_all`'s loop at the expression of value `x` -/
  | eval (x : ℕ)
  /-- `eval_all` gives its lock back -/
  | unlock (u : υ)
  deriving DecidableEq, Repr

/-- The values and nodes, with what is subscribed to them. -/
structure Sheet (V : ℕ → Type) (υ : Type) where
  next : ℕ
  alive : ℕ → Bool
  values : ∀ x, V x
  roots : ∀ m, Option (Root V υ (V m))
  observers : ℕ → List (ℕ × Path)
  funs : υ → List ℕ
  agenda : List (Task υ)

/-- What the program does. -/
inductive Action (V : ℕ → Type) (υ : Type)
  /-- `value { initial }` -/
  | value (x : ℕ) (initial : V x)
  /-- `expression_node(constant)` -/
  | constant (m : ℕ) (result : V m)
  /-- `expression_node(value &)` -/
  | valueNode (m x : ℕ) (convert : V x → V m)
  /-- `expression_node(op, nodes ...)` -/
  | naryNode (m : ℕ) (ms : List ℕ) (op : Args (ms.map V) → V m)
  /-- `node.eval()` -/
  | evalNode (m : ℕ)
  /-- `~expression_node()` -/
  | dropNode (m : ℕ)
  /-- `observe(root)`, or `observe(u, root)` -/
  | observe (x : ℕ) (mode : Mode υ) (m : ℕ) (same : V m = V x)
  /-- `set(newValue)` -/
  | set (x : ℕ) (newValue : V x)
  /-- `~value()` -/
  | destroy (x : ℕ)
  /-- `update_all()` -/
  | update (u : υ)
  /-- the first task of the agenda is done -/
  | run

variable {V : ℕ → Type} {υ : Type}

/-! ## Where a node is found -/

/-- What the first operand, and so on, is for the node that takes them over; the first
is number `i`. -/
def operand : (ms : List ℕ) → ℕ → ℕ → Option Path
  | [], _, _ => none
  | m :: ms, i, k => if k = m then some [i] else operand ms (i + 1) k

/-- The root of an expression is the node that the program has held. -/
def itself (m k : ℕ) : Option Path := if k = m then some [] else none

/-- Where a node is found when `m` has taken over roots, each at its `way`. -/
def place (m : ℕ) (way : ℕ → Option Path) (o : ℕ × Path) : ℕ × Path :=
  match way o.1 with
  | some q => (m, q ++ o.2)
  | none => o

/-- An observer is called. -/
def call (o : ℕ × Path) : Task υ := .notify o.1 o.2

/-- A call still reaches the node that it is for. -/
def Task.place (m : ℕ) (way : ℕ → Option Path) : Task υ → Task υ
  | .notify k p => call (Expr.place m way (k, p))
  | .returns x => .returns x
  | .eval x => .eval x
  | .unlock u => .unlock u

/-- The root that a task is about. -/
def Task.about : Task υ → Option ℕ
  | .notify m _ => some m
  | .returns _ => none
  | .eval x => some x
  | .unlock _ => none

namespace Sheet

/-! ## Nodes -/

/-- A node that the program holds. -/
def node (s : Sheet V υ) (m : ℕ) : Option (Node V (V m)) :=
  match s.roots m with
  | some ⟨node, none⟩ => some node
  | _ => none

/-- Several of them. -/
def nodes (s : Sheet V υ) : (ms : List ℕ) → Option (Nodes V (ms.map V))
  | [] => some .nil
  | m :: ms =>
      match s.node m, s.nodes ms with
      | some node, some nodes => some (.cons node nodes)
      | _, _ => none

/-- A new root takes over others, subscribes to values, and is known to its evaluator. -/
def newRoot [DecidableEq υ] (s : Sheet V υ) (m : ℕ) (root : Root V υ (V m))
    (way : ℕ → Option Path) (subs : List ℕ) : Sheet V υ :=
  { s with
    next := m + 1,
    alive := Function.update s.alive m root.mode.isSome,
    roots := Function.update (fun k => if (way k).isSome then none else s.roots k) m (some root),
    observers := fun x =>
      (if x ∈ subs then [(m, [])] else []) ++ (s.observers x).map (place m way),
    funs :=
      match root.mode with
      | some (.manual u) => Function.update s.funs u (s.funs u ++ [m])
      | _ => s.funs,
    agenda := s.agenda.map (Task.place m way) }

/-- A root is destroyed: the subscriptions of its nodes go, and with them the calls that
they are still waiting for. `~expression` removes it from its evaluator, whose loop is
not under way then. -/
def discard (s : Sheet V υ) (m : ℕ) : Sheet V υ :=
  { s with
    roots := Function.update s.roots m none,
    observers := fun x => (s.observers x).filter fun o => o.1 ≠ m,
    funs := fun u => (s.funs u).filter fun y => y ≠ m,
    agenda := s.agenda.filter fun task => task.about ≠ some m }

/-- Put another node at a root. -/
def setNode (s : Sheet V υ) (m : ℕ) (root : Root V υ (V m)) (node : Node V (V m)) : Sheet V υ :=
  { s with roots := Function.update s.roots m (some { root with node := node }) }

/-! ## Values -/

variable (equal : ∀ x, V x → V x → Bool)

/-- `set_impl` -/
def setImpl (s : Sheet V υ) (x : ℕ) (newValue : V x) : Sheet V υ :=
  if equal x (s.values x) newValue then s
  else { s with
    values := Function.update s.values x newValue,
    agenda := (s.observers x).map call ++ .returns x :: s.agenda }

/-- `expression::eval` -/
def eval (s : Sheet V υ) (x : ℕ) (root : Root V υ (V x)) : Sheet V υ :=
  (s.setNode x root (root.node.eval s.values)).setImpl equal x (root.node.eval s.values).result

/-- The node at `p` is notified; an immediate expression is evaluated when that has
reached its root. -/
def notify (s : Sheet V υ) (m : ℕ) (p : Path) (root : Root V υ (V m)) : Sheet V υ :=
  match root.mode with
  | some .immediate => s.eval equal m { root with node := root.node.markDirty p }
  | _ => s.setNode m root (root.node.markDirty p)

/-- The next task. A node that is gone would be a dangling one. -/
def run (s : Sheet V υ) : Option (Sheet V υ) :=
  match s.agenda with
  | [] => none
  | .notify m p :: rest =>
      (s.roots m).map fun root => notify equal { s with agenda := rest } m p root
  | .returns _ :: rest => some { s with agenda := rest }
  | .eval x :: rest => (s.roots x).map fun root => eval equal { s with agenda := rest } x root
  | .unlock _ :: rest => some { s with agenda := rest }

/-- The lock of an updater is free. -/
def Unlocked (s : Sheet V υ) (u : υ) : Prop := .unlock u ∉ s.agenda

/-- An evaluator lets expressions in and out. -/
def Accepts (s : Sheet V υ) : Option (Mode υ) → Prop
  | some (.manual u) => s.Unlocked u
  | _ => True

/-- The value that a new expression updates starts with the result of the root, which is
not evaluated for it. -/
def observe [DecidableEq υ] (s : Sheet V υ) (x : ℕ) (mode : Mode υ) (m : ℕ)
    (root : Node V (V x)) : Sheet V υ :=
  (s.newRoot x ⟨root, some mode⟩ (itself m) []).setImpl equal x root.result

/-- The nodes of a value are notified that it is about to be destroyed. -/
def notifyDestroyed (s : Sheet V υ) (x : ℕ) : Sheet V υ :=
  { s with
    roots := fun m => (s.roots m).map fun root => { root with node := root.node.destroyed x },
    observers := Function.update s.observers x [] }

/-- `~value()`: what the value owns goes after the notification. -/
def destroy (s : Sheet V υ) (x : ℕ) : Sheet V υ :=
  { (s.notifyDestroyed x).discard x with alive := Function.update s.alive x false }

variable [DecidableEq υ]

instance (s : Sheet V υ) (u : υ) : Decidable (s.Unlocked u) :=
  inferInstanceAs (Decidable (_ ∉ _))

instance (s : Sheet V υ) : ∀ mode, Decidable (s.Accepts mode)
  | some (.manual u) => inferInstanceAs (Decidable (s.Unlocked u))
  | some .immediate => isTrue trivial
  | none => isTrue trivial

/-- One action. -/
def step (s : Sheet V υ) : Action V υ → Option (Sheet V υ)
  | .value x initial =>
      if s.next ≤ x then
        some { s with
          next := x + 1,
          alive := Function.update s.alive x true,
          values := Function.update s.values x initial }
      else none
  | .constant m result =>
      if s.next ≤ m then some (s.newRoot m ⟨.constant result, none⟩ (fun _ => none) []) else none
  | .valueNode m x convert =>
      if s.next ≤ m ∧ s.alive x then
        some (s.newRoot m ⟨.ofValue s.values x convert, none⟩ (fun _ => none) [x])
      else none
  | .naryNode m ms op =>
      if s.next ≤ m ∧ ms.Nodup then
        (s.nodes ms).map fun nodes =>
          s.newRoot m ⟨.ofNodes s.values op nodes, none⟩ (operand ms 0) []
      else none
  | .evalNode m => (s.node m).map fun node => s.setNode m ⟨node, none⟩ (node.eval s.values)
  | .dropNode m => (s.node m).map fun _ => s.discard m
  | .observe x mode m same =>
      if s.next ≤ x ∧ s.Accepts (some mode) then
        (s.node m).map fun node => s.observe equal x mode m (same ▸ node)
      else none
  | .set x newValue =>
      if s.alive x then
        match s.roots x with
        | some _ => some s  -- `readonly_value` is thrown
        | none => some (s.setImpl equal x newValue)
      else none
  | .destroy x =>
      if s.alive x ∧ .returns x ∉ s.agenda ∧ s.Accepts ((s.roots x).bind Root.mode) then
        some (s.destroy x)
      else none
  | .update u =>
      if s.Unlocked u then
        some { s with agenda := (s.funs u).map Task.eval ++ .unlock u :: s.agenda }
      else none
  | .run => s.run equal

end Sheet

/-- The values and nodes of a program, none of them at first. What a value stores before
it is initialized is arbitrary. -/
def sheet [DecidableEq υ] (equal : ∀ x, V x → V x → Bool) (indeterminate : ∀ x, V x) :
    TransitionSystem (Sheet V υ) (Action V υ) where
  init :=
    { next := 0, alive := fun _ => false, values := indeterminate, roots := fun _ => none,
      observers := fun _ => [], funs := fun _ => [], agenda := [] }
  step := Sheet.step equal

end RadarDemo.Expr
