import Mathlib.Data.List.Basic
import Mathlib.Data.Prod.TProd
import Mathlib.Logic.Function.Basic

/-!
# Expression trees

`expression_node` of `include/third_party/observable/expressions/tree.hpp`.  A
node is a constant, an observable value, or an operation on other nodes; the last
two cache a result and carry a flag that says whether it may be out of date.  A
change of a value sets the flags from its node up to the root (`Tree.markDirty`), and
an evaluation of the root visits the nodes with the flag (`Tree.eval`).

Values are numbered, and `V x` is the type of value `x`.  `Tree V D` is an
expression that carries a `D` at every node but the constants: `Node` has the
caches of the source, `Formula` has nothing: it is what is written.

* `Tree.meaning` — what an expression stands for, given the values.
* `Coherent` — a node without the flag has operands without it, and its result is
  the operation's on theirs.
* `Fresh` — a value's node without the flag shows the value, unless a notification
  for it is still to come.
* `result_of_clean` — a coherent and fresh node without the flag has the result
  that it stands for: it is enough to look at the root.
-/

namespace RadarDemo.Expr

/-- The operands of an operation. -/
abbrev Args (αs : List Type) : Type := List.TProd (fun α => α) αs

mutual

/-- An expression over the values `V`, with data `D` at its nodes. -/
inductive Tree (V : ℕ → Type) (D : Type → Type) : Type → Type 1
  | constant {α : Type} (result : α) : Tree V D α
  | value {α : Type} (x : ℕ) (convert : V x → α) (data : D α) : Tree V D α
  | nary {α : Type} {αs : List Type} (op : Args αs → α) (nodes : Forest V D αs) (data : D α) :
      Tree V D α

/-- The operands of an n-ary node. -/
inductive Forest (V : ℕ → Type) (D : Type → Type) : List Type → Type 1
  | nil : Forest V D []
  | cons {α : Type} {αs : List Type} (node : Tree V D α) (nodes : Forest V D αs) :
      Forest V D (α :: αs)

end

/-- `expression_node::data`, without the subject and the subscriptions. -/
structure Data (α : Type) where
  result : α
  dirty : Bool
  deriving DecidableEq, Repr

/-- `expression_node`. -/
abbrev Node (V : ℕ → Type) := Tree V Data

/-- The tuple of nodes that an n-ary node owns. -/
abbrev Nodes (V : ℕ → Type) := Forest V Data

/-- An expression as it is written. -/
abbrev Formula (V : ℕ → Type) := Tree V fun _ => Unit

/-- The way from the root of a tree to one of its nodes. -/
abbrev Path := List ℕ

variable {V : ℕ → Type} {D : Type → Type}

/-! ## What an expression stands for -/

mutual

/-- The value of an expression, given those of the values. -/
def Tree.meaning (env : ∀ x, V x) : {α : Type} → Tree V D α → α
  | _, .constant result => result
  | _, .value x convert _ => convert (env x)
  | _, .nary op nodes _ => op (nodes.meanings env)

def Forest.meanings (env : ∀ x, V x) : {αs : List Type} → Forest V D αs → Args αs
  | _, .nil => ⟨⟩
  | _, .cons node nodes => (node.meaning env, nodes.meanings env)

end

mutual

/-- The nodes of the values, with the ways to them, from the left to the right. -/
def Tree.leaves : {α : Type} → Tree V D α → List (ℕ × Path)
  | _, .constant _ => []
  | _, .value x _ _ => [(x, [])]
  | _, .nary _ nodes _ => nodes.leaves 0

/-- The same for operands, the first of which is number `i`. -/
def Forest.leaves : {αs : List Type} → Forest V D αs → ℕ → List (ℕ × Path)
  | _, .nil, _ => []
  | _, .cons node nodes, i => node.leaves.map (fun l => (l.1, i :: l.2)) ++ nodes.leaves (i + 1)

end

mutual

/-- What is written, without what the nodes carry. -/
def Tree.shape : {α : Type} → Tree V D α → Formula V α
  | _, .constant result => .constant result
  | _, .value x convert _ => .value x convert ()
  | _, .nary op nodes _ => .nary op nodes.shape ()

def Forest.shape : {αs : List Type} → Forest V D αs → Forest V (fun _ => Unit) αs
  | _, .nil => .nil
  | _, .cons node nodes => .cons node.shape nodes.shape

end

mutual

@[simp] theorem Tree.meaning_shape (env : ∀ x, V x) :
    ∀ {α : Type} (n : Tree V D α), n.shape.meaning env = n.meaning env
  | _, .constant _ => rfl
  | _, .value _ _ _ => rfl
  | _, .nary op nodes _ => congrArg op (nodes.meanings_shape env)

theorem Forest.meanings_shape (env : ∀ x, V x) :
    ∀ {αs : List Type} (ns : Forest V D αs), ns.shape.meanings env = ns.meanings env
  | _, .nil => rfl
  | _, .cons node nodes => congrArg₂ Prod.mk (node.meaning_shape env) (nodes.meanings_shape env)

end

mutual

@[simp] theorem Tree.leaves_shape : ∀ {α : Type} (n : Tree V D α), n.shape.leaves = n.leaves
  | _, .constant _ => rfl
  | _, .value _ _ _ => rfl
  | _, .nary _ nodes _ => nodes.leaves_shape 0

theorem Forest.leaves_shape : ∀ {αs : List Type} (ns : Forest V D αs) (i : ℕ),
    ns.shape.leaves i = ns.leaves i
  | _, .nil, _ => rfl
  | _, .cons node nodes, i =>
      congrArg₂ (fun ls ms => ls.map (fun l => (l.1, i :: l.2)) ++ ms) node.leaves_shape
        (nodes.leaves_shape (i + 1))

end

mutual

/-- The meaning depends on the values that occur. -/
theorem Tree.meaning_congr {env env' : ∀ x, V x} : ∀ {α : Type} (n : Tree V D α),
    (∀ x p, (x, p) ∈ n.leaves → env x = env' x) → n.meaning env = n.meaning env'
  | _, .constant _, _ => rfl
  | _, .value x convert _, same => congrArg convert (same x [] (List.mem_singleton_self _))
  | _, .nary op nodes _, same => congrArg op (nodes.meanings_congr 0 same)

theorem Forest.meanings_congr {env env' : ∀ x, V x} : ∀ {αs : List Type} (ns : Forest V D αs)
    (i : ℕ), (∀ x p, (x, p) ∈ ns.leaves i → env x = env' x) → ns.meanings env = ns.meanings env'
  | _, .nil, _, _ => rfl
  | _, .cons node nodes, i, same => by
      refine congrArg₂ Prod.mk (node.meaning_congr fun x p occurs => same x (i :: p) ?_)
        (nodes.meanings_congr (i + 1) fun x p occurs => same x p ?_)
      · exact List.mem_append_left _ (List.mem_map_of_mem (f := fun l => (l.1, i :: l.2)) occurs)
      · exact List.mem_append_right _ occurs

end

/-! ## Nodes -/

/-- `get()`: the result, which may be stale. -/
def Tree.result : {α : Type} → Node V α → α
  | _, .constant result => result
  | _, .value _ _ data => data.result
  | _, .nary _ _ data => data.result

/-- The flag; a constant has none to set. -/
def Tree.dirty : {α : Type} → Node V α → Bool
  | _, .constant _ => false
  | _, .value _ _ data => data.dirty
  | _, .nary _ _ data => data.dirty

/-- The results of the operands. -/
def Forest.results : {αs : List Type} → Nodes V αs → Args αs
  | _, .nil => ⟨⟩
  | _, .cons node nodes => (node.result, nodes.results)

/-- One of the operands has the flag. -/
def Forest.dirty : {αs : List Type} → Nodes V αs → Bool
  | _, .nil => false
  | _, .cons node nodes => node.dirty || nodes.dirty

mutual

/-- `eval()`. -/
def Tree.eval (env : ∀ x, V x) : {α : Type} → Node V α → Node V α
  | _, .constant result => .constant result
  | _, .value x convert data =>
      if data.dirty then .value x convert ⟨convert (env x), false⟩ else .value x convert data
  | _, .nary op nodes data =>
      if data.dirty then .nary op (nodes.eval env) ⟨op (nodes.eval env).results, false⟩
      else .nary op nodes data

/-- `eval_tuple` -/
def Forest.eval (env : ∀ x, V x) : {αs : List Type} → Nodes V αs → Nodes V αs
  | _, .nil => .nil
  | _, .cons node nodes => .cons (node.eval env) (nodes.eval env)

end

mutual

/-- The node at the end of a path is notified of a change of its value: it sets its
flag and notifies the node above it, up to the root. -/
def Tree.markDirty : {α : Type} → Node V α → Path → Node V α
  | _, .constant result, _ => .constant result
  | _, .value x convert data, [] => .value x convert { data with dirty := true }
  | _, .value x convert data, _ :: _ => .value x convert data
  | _, .nary op nodes data, [] => .nary op nodes data
  | _, .nary op nodes data, i :: p => .nary op (nodes.markDirty i p) { data with dirty := true }

def Forest.markDirty : {αs : List Type} → Nodes V αs → ℕ → Path → Nodes V αs
  | _, .nil, _, _ => .nil
  | _, .cons node nodes, 0, p => .cons (node.markDirty p) nodes
  | _, .cons node nodes, i + 1, p => .cons node (nodes.markDirty i p)

end

mutual

/-- The observers of `destroyed` are notified: the nodes of the value evaluate to nothing
new and drop their subscriptions, which makes them constants. -/
def Tree.destroyed (x : ℕ) : {α : Type} → Node V α → Node V α
  | _, .constant result => .constant result
  | _, .value y convert data => if y = x then .constant data.result else .value y convert data
  | _, .nary op nodes data => .nary op (nodes.destroyed x) data

def Forest.destroyed (x : ℕ) : {αs : List Type} → Nodes V αs → Nodes V αs
  | _, .nil => .nil
  | _, .cons node nodes => .cons (node.destroyed x) (nodes.destroyed x)

end

/-- `expression_node(value &)`, which starts with the flag and evaluates, so that the
result is cached. -/
def Tree.ofValue (env : ∀ x, V x) {α : Type} (x : ℕ) (convert : V x → α) : Node V α :=
  .value x convert ⟨convert (env x), false⟩

/-- `expression_node(op, nodes ...)`, which evaluates the nodes that it takes over, and
then itself. -/
def Tree.ofNodes (env : ∀ x, V x) {α : Type} {αs : List Type} (op : Args αs → α)
    (nodes : Nodes V αs) : Node V α :=
  .nary op (nodes.eval env) ⟨op (nodes.eval env).results, false⟩

mutual

/-- Where the flag is not set, it is not set below, and the result is right given
those of the operands. -/
def Tree.Coherent : {α : Type} → Node V α → Prop
  | _, .constant _ => True
  | _, .value _ _ _ => True
  | _, .nary op nodes data =>
      nodes.Coherent ∧ (data.dirty = false → nodes.dirty = false ∧ data.result = op nodes.results)

def Forest.Coherent : {αs : List Type} → Nodes V αs → Prop
  | _, .nil => True
  | _, .cons node nodes => node.Coherent ∧ nodes.Coherent

end

mutual

/-- A node of a value without the flag shows the value, unless it is one of those
that are still to be notified. -/
def Tree.Fresh (env : ∀ x, V x) : {α : Type} → Node V α → (Path → Prop) → Prop
  | _, .constant _, _ => True
  | _, .value x convert data, pending =>
      data.dirty = false → pending [] ∨ data.result = convert (env x)
  | _, .nary _ nodes _, pending => nodes.Fresh env 0 pending

def Forest.Fresh (env : ∀ x, V x) : {αs : List Type} → Nodes V αs → ℕ → (Path → Prop) → Prop
  | _, .nil, _, _ => True
  | _, .cons node nodes, i, pending =>
      (node.Fresh env fun p => pending (i :: p)) ∧ nodes.Fresh env (i + 1) pending

end

/-! ## What is written does not change -/

section Shape

variable (env : ∀ x, V x)

mutual

@[simp] theorem Tree.shape_eval : ∀ {α : Type} (n : Node V α), (n.eval env).shape = n.shape
  | _, .constant _ => rfl
  | _, .value _ _ _ => by
      unfold Tree.eval
      split <;> rfl
  | _, .nary op nodes _ => by
      unfold Tree.eval
      split
      · exact congrArg (fun ns => Tree.nary op ns ()) nodes.shape_eval
      · rfl

theorem Forest.shape_eval : ∀ {αs : List Type} (ns : Nodes V αs), (ns.eval env).shape = ns.shape
  | _, .nil => rfl
  | _, .cons node nodes => congrArg₂ Forest.cons node.shape_eval nodes.shape_eval

end

mutual

@[simp] theorem Tree.shape_markDirty : ∀ {α : Type} (n : Node V α) (p : Path),
    (n.markDirty p).shape = n.shape
  | _, .constant _, _ => rfl
  | _, .value _ _ _, [] => rfl
  | _, .value _ _ _, _ :: _ => rfl
  | _, .nary _ _ _, [] => rfl
  | _, .nary op nodes _, i :: p =>
      congrArg (fun ns => (Tree.nary op ns () : Formula V _)) (nodes.shape_markDirty i p)

theorem Forest.shape_markDirty : ∀ {αs : List Type} (ns : Nodes V αs) (i : ℕ) (p : Path),
    (ns.markDirty i p).shape = ns.shape
  | _, .nil, _, _ => rfl
  | _, .cons node nodes, 0, p => congrArg (Forest.cons · nodes.shape) (node.shape_markDirty p)
  | _, .cons node nodes, i + 1, p => congrArg (Forest.cons node.shape) (nodes.shape_markDirty i p)

end

theorem Forest.leaves_eval {αs : List Type} (ns : Nodes V αs) (i : ℕ) :
    (ns.eval env).leaves i = ns.leaves i := by
  rw [← ns.leaves_shape, ← ns.shape_eval env, Forest.leaves_shape]

mutual

/-- A value that is destroyed does not occur any more. -/
theorem Tree.leaves_destroyed (x : ℕ) : ∀ {α : Type} (n : Node V α),
    (n.destroyed x).leaves = n.leaves.filter fun l => l.1 ≠ x
  | _, .constant _ => rfl
  | _, .value y _ _ => by
      by_cases same : y = x <;> simp [Tree.destroyed, Tree.leaves, same]
  | _, .nary _ nodes _ => nodes.leaves_destroyed x 0

theorem Forest.leaves_destroyed (x : ℕ) : ∀ {αs : List Type} (ns : Nodes V αs) (i : ℕ),
    (ns.destroyed x).leaves i = (ns.leaves i).filter fun l => l.1 ≠ x
  | _, .nil, _ => rfl
  | _, .cons node nodes, i => by
      rw [Forest.destroyed, Forest.leaves, Forest.leaves, node.leaves_destroyed x,
        nodes.leaves_destroyed x (i + 1), List.filter_append, List.filter_map]
      rfl

end

end Shape

/-! ## Flags and results -/

section Coherent

variable {env : ∀ x, V x}

/-- An evaluation takes the flag away. -/
@[simp] theorem Tree.dirty_eval {α : Type} (n : Node V α) : (n.eval env).dirty = false := by
  cases n with
  | constant result => rfl
  | value x convert data =>
      cases dirty : data.dirty <;> simp [Tree.eval, Tree.dirty, dirty]
  | nary op nodes data =>
      cases dirty : data.dirty <;> simp [Tree.eval, Tree.dirty, dirty]

theorem Forest.dirty_eval : ∀ {αs : List Type} (ns : Nodes V αs), (ns.eval env).dirty = false
  | _, .nil => rfl
  | _, .cons node nodes => by
      rw [Forest.eval, Forest.dirty, node.dirty_eval, nodes.dirty_eval, Bool.or_false]

mutual

theorem Tree.Coherent.eval : ∀ {α : Type} {n : Node V α}, n.Coherent → (n.eval env).Coherent
  | _, .constant _, _ => trivial
  | _, .value _ _ _, _ => by
      unfold Tree.eval
      split <;> trivial
  | _, .nary _ nodes _, coherent => by
      unfold Tree.eval
      split
      · exact ⟨Forest.Coherent.eval coherent.1, fun _ => ⟨nodes.dirty_eval, rfl⟩⟩
      · exact coherent

theorem Forest.Coherent.eval : ∀ {αs : List Type} {ns : Nodes V αs}, ns.Coherent →
    (ns.eval env).Coherent
  | _, .nil, _ => trivial
  | _, .cons _ _, coherent => ⟨coherent.1.eval, Forest.Coherent.eval coherent.2⟩

end

mutual

/-- A notification sets the flag of every node above the one that it starts from. -/
theorem Tree.Coherent.markDirty : ∀ {α : Type} {n : Node V α} {p : Path}, n.Coherent →
    (n.markDirty p).Coherent
  | _, .constant _, _, _ => trivial
  | _, .value _ _ _, [], _ => trivial
  | _, .value _ _ _, _ :: _, _ => trivial
  | _, .nary _ _ _, [], coherent => coherent
  | _, .nary _ _ _, _ :: _, coherent => ⟨Forest.Coherent.markDirty coherent.1, Bool.noConfusion⟩

theorem Forest.Coherent.markDirty : ∀ {αs : List Type} {ns : Nodes V αs} {i : ℕ} {p : Path},
    ns.Coherent → (ns.markDirty i p).Coherent
  | _, .nil, _, _, _ => trivial
  | _, .cons _ _, 0, _, coherent => ⟨coherent.1.markDirty, coherent.2⟩
  | _, .cons _ _, _ + 1, _, coherent => ⟨coherent.1, Forest.Coherent.markDirty coherent.2⟩

end

/-- A notification leaves the results. -/
theorem Tree.result_markDirty {α : Type} (n : Node V α) (p : Path) :
    (n.markDirty p).result = n.result := by
  match n, p with
  | .constant _, _ => rfl
  | .value _ _ _, [] => rfl
  | .value _ _ _, _ :: _ => rfl
  | .nary _ _ _, [] => rfl
  | .nary _ _ _, _ :: _ => rfl

/-- A value that is destroyed leaves its last result. -/
@[simp] theorem Tree.result_destroyed (x : ℕ) {α : Type} (n : Node V α) :
    (n.destroyed x).result = n.result := by
  cases n with
  | constant result => rfl
  | value y convert data =>
      unfold Tree.destroyed
      split <;> rfl
  | nary op nodes data => rfl

theorem Forest.results_destroyed (x : ℕ) : ∀ {αs : List Type} (ns : Nodes V αs),
    (ns.destroyed x).results = ns.results
  | _, .nil => rfl
  | _, .cons node nodes => congrArg₂ Prod.mk (node.result_destroyed x) (nodes.results_destroyed x)

theorem Tree.dirty_destroyed {x : ℕ} {α : Type} {n : Node V α} (clean : n.dirty = false) :
    (n.destroyed x).dirty = false := by
  cases n with
  | constant result => rfl
  | value y convert data =>
      unfold Tree.destroyed
      split
      · rfl
      · exact clean
  | nary op nodes data => exact clean

theorem Forest.dirty_destroyed {x : ℕ} : ∀ {αs : List Type} {ns : Nodes V αs}, ns.dirty = false →
    (ns.destroyed x).dirty = false
  | _, .nil, _ => rfl
  | _, .cons node nodes, clean => by
      obtain ⟨first, others⟩ := Bool.or_eq_false_iff.mp clean
      rw [Forest.destroyed, Forest.dirty, Tree.dirty_destroyed first, Forest.dirty_destroyed others,
        Bool.or_false]

mutual

theorem Tree.Coherent.destroyed {x : ℕ} : ∀ {α : Type} {n : Node V α}, n.Coherent →
    (n.destroyed x).Coherent
  | _, .constant _, _ => trivial
  | _, .value _ _ _, _ => by
      unfold Tree.destroyed
      split <;> trivial
  | _, .nary _ nodes _, coherent => by
      refine ⟨Forest.Coherent.destroyed coherent.1, fun clean => ?_⟩
      obtain ⟨cleanBelow, result⟩ := coherent.2 clean
      exact ⟨Forest.dirty_destroyed cleanBelow, by rw [nodes.results_destroyed, result]⟩

theorem Forest.Coherent.destroyed {x : ℕ} : ∀ {αs : List Type} {ns : Nodes V αs}, ns.Coherent →
    (ns.destroyed x).Coherent
  | _, .nil, _ => trivial
  | _, .cons _ _, coherent => ⟨coherent.1.destroyed, Forest.Coherent.destroyed coherent.2⟩

end

theorem Tree.coherent_ofNodes {α : Type} {αs : List Type} {nodes : Nodes V αs} (op : Args αs → α)
    (coherent : nodes.Coherent) : (Tree.ofNodes env op nodes).Coherent :=
  ⟨Forest.Coherent.eval coherent, fun _ => ⟨nodes.dirty_eval, rfl⟩⟩

end Coherent

/-! ## What the nodes of the values show -/

section Fresh

variable {env env' : ∀ x, V x}

mutual

theorem Tree.Fresh.mono : ∀ {α : Type} {n : Node V α} {P Q : Path → Prop}, n.Fresh env P →
    (∀ p, P p → Q p) → n.Fresh env Q
  | _, .constant _, _, _, _, _ => trivial
  | _, .value _ _ _, _, _, fresh, part => fun clean => (fresh clean).imp_left (part [])
  | _, .nary _ _ _, _, _, fresh, part => Forest.Fresh.mono fresh fun i p _ => part (i :: p)

theorem Forest.Fresh.mono : ∀ {αs : List Type} {ns : Nodes V αs} {i : ℕ} {P Q : Path → Prop},
    ns.Fresh env i P → (∀ j p, i ≤ j → P (j :: p) → Q (j :: p)) → ns.Fresh env i Q
  | _, .nil, _, _, _, _, _ => trivial
  | _, .cons _ _, i, _, _, fresh, part =>
      ⟨fresh.1.mono fun p => part i p le_rfl,
        Forest.Fresh.mono fresh.2 fun j p later => part j p ((Nat.le_succ i).trans later)⟩

end

mutual

theorem Tree.Fresh.eval : ∀ {α : Type} {n : Node V α} {P : Path → Prop}, n.Fresh env P →
    (n.eval env).Fresh env P
  | _, .constant _, _, _ => trivial
  | _, .value _ _ _, _, fresh => by
      unfold Tree.eval
      split
      · exact fun _ => Or.inr rfl
      · exact fresh
  | _, .nary _ _ _, _, fresh => by
      unfold Tree.eval
      split
      · exact Forest.Fresh.eval fresh
      · exact fresh

theorem Forest.Fresh.eval : ∀ {αs : List Type} {ns : Nodes V αs} {i : ℕ} {P : Path → Prop},
    ns.Fresh env i P → (ns.eval env).Fresh env i P
  | _, .nil, _, _, _ => trivial
  | _, .cons _ _, _, _, fresh => ⟨fresh.1.eval, Forest.Fresh.eval fresh.2⟩

end

mutual

/-- **A node that has been notified is not pending any more.** -/
theorem Tree.Fresh.markDirty : ∀ {α : Type} {n : Node V α} {P : Path → Prop} {p : Path},
    n.Fresh env P → (n.markDirty p).Fresh env fun q => P q ∧ q ≠ p
  | _, .constant _, _, _, _ => trivial
  | _, .value _ _ _, _, [], _ => Bool.noConfusion
  | _, .value _ _ _, _, _ :: _, fresh =>
      fun clean => (fresh clean).imp_left fun pending => ⟨pending, (List.cons_ne_nil _ _).symm⟩
  | _, .nary _ _ _, _, [], fresh =>
      Forest.Fresh.mono fresh fun _ _ _ pending => ⟨pending, List.cons_ne_nil _ _⟩
  | _, .nary _ _ _, _, i :: p, fresh =>
      Forest.Fresh.mono (Forest.Fresh.markDirty fresh) fun j q _ ⟨pending, differs⟩ =>
        ⟨pending, by rwa [Nat.zero_add] at differs⟩

theorem Forest.Fresh.markDirty : ∀ {αs : List Type} {ns : Nodes V αs} {k i : ℕ} {P : Path → Prop}
    {p : Path}, ns.Fresh env k P → (ns.markDirty i p).Fresh env k fun q => P q ∧ q ≠ (k + i) :: p
  | _, .nil, _, _, _, _, _ => trivial
  | _, .cons _ _, k, 0, _, _, fresh => by
      refine ⟨fresh.1.markDirty.mono fun q ⟨pending, differs⟩ => ⟨pending, fun is => ?_⟩,
        Forest.Fresh.mono fresh.2 fun j q later pending => ⟨pending, fun is => ?_⟩⟩
      · exact differs (List.cons_eq_cons.mp is).2
      · have same := (List.cons_eq_cons.mp is).1
        omega
  | _, .cons _ _, k, i + 1, _, _, fresh => by
      refine ⟨fresh.1.mono fun q pending => ⟨pending, fun is => ?_⟩,
        Forest.Fresh.mono (Forest.Fresh.markDirty fresh.2) fun j q _ ⟨pending, differs⟩ =>
          ⟨pending, fun is => differs ?_⟩⟩
      · have same := (List.cons_eq_cons.mp is).1
        omega
      · rw [is, Nat.add_assoc, Nat.add_comm 1 i]

end

mutual

/-- **When a value changes, its nodes are the ones to notify.** -/
theorem Tree.Fresh.change {x : ℕ} (others : ∀ y, y ≠ x → env' y = env y) :
    ∀ {α : Type} {n : Node V α} {P : Path → Prop}, n.Fresh env P →
      n.Fresh env' fun p => P p ∨ (x, p) ∈ n.leaves
  | _, .constant _, _, _ => trivial
  | _, .value y convert _, _, fresh => by
      by_cases same : y = x
      · exact fun _ => Or.inl (Or.inr (List.mem_singleton.mpr (by rw [same])))
      · refine fun clean => (fresh clean).imp Or.inl fun shows => ?_
        rw [others y same, shows]
  | _, .nary _ _ _, _, fresh => Forest.Fresh.change others fresh

theorem Forest.Fresh.change {x : ℕ} (others : ∀ y, y ≠ x → env' y = env y) :
    ∀ {αs : List Type} {ns : Nodes V αs} {i : ℕ} {P : Path → Prop}, ns.Fresh env i P →
      ns.Fresh env' i fun p => P p ∨ (x, p) ∈ ns.leaves i
  | _, .nil, _, _, _ => trivial
  | _, .cons _ _, i, _, fresh => by
      refine ⟨(fresh.1.change others).mono fun p => Or.imp_right fun member => ?_,
        Forest.Fresh.mono (Forest.Fresh.change others fresh.2) fun j p _ =>
          Or.imp_right fun member => ?_⟩
      · exact List.mem_append_left _ (List.mem_map_of_mem (f := fun l => (l.1, i :: l.2)) member)
      · exact List.mem_append_right _ member

end

mutual

theorem Tree.Fresh.destroyed {x : ℕ} : ∀ {α : Type} {n : Node V α} {P : Path → Prop},
    n.Fresh env P → (n.destroyed x).Fresh env P
  | _, .constant _, _, _ => trivial
  | _, .value _ _ _, _, fresh => by
      unfold Tree.destroyed
      split
      · trivial
      · exact fresh
  | _, .nary _ _ _, _, fresh => Forest.Fresh.destroyed fresh

theorem Forest.Fresh.destroyed {x : ℕ} : ∀ {αs : List Type} {ns : Nodes V αs} {i : ℕ}
    {P : Path → Prop}, ns.Fresh env i P → (ns.destroyed x).Fresh env i P
  | _, .nil, _, _, _ => trivial
  | _, .cons _ _, _, _, fresh => ⟨fresh.1.destroyed, Forest.Fresh.destroyed fresh.2⟩

end

mutual

/-- **The root is enough to look at.** -/
theorem Tree.result_of_clean : ∀ {α : Type} {n : Node V α}, n.Coherent →
    n.Fresh env (fun _ => False) → n.dirty = false → n.result = n.meaning env
  | _, .constant _, _, _, _ => rfl
  | _, .value _ _ _, _, fresh, clean => (fresh clean).resolve_left id
  | _, .nary op nodes _, coherent, fresh, clean => by
      obtain ⟨cleanBelow, result⟩ := coherent.2 clean
      exact result.trans (congrArg op (Forest.results_of_clean coherent.1 fresh cleanBelow))

theorem Forest.results_of_clean : ∀ {αs : List Type} {ns : Nodes V αs} {i : ℕ}, ns.Coherent →
    ns.Fresh env i (fun _ => False) → ns.dirty = false → ns.results = ns.meanings env
  | _, .nil, _, _, _, _ => rfl
  | _, .cons _ _, _, coherent, fresh, clean => by
      obtain ⟨first, others⟩ := Bool.or_eq_false_iff.mp clean
      exact congrArg₂ Prod.mk (Tree.result_of_clean coherent.1 fresh.1 first)
        (Forest.results_of_clean coherent.2 fresh.2 others)

end

end Fresh

end RadarDemo.Expr
