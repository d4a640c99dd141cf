import Mathlib.Data.List.Perm.Subperm
import RadarDemo.Expr.Tree

/-!
# Only what has changed is evaluated

The documentation of `expression_node` promises that an evaluation of the root
evaluates the nodes that have been changed and no others.  `Tree.traced` is the
evaluation together with the operations that it calls, in the order in which it calls
them, and `Life.calls_changed` says which ones these are: the operations above the nodes
that have been notified since the root was last evaluated, each once, and operands first.
It holds of every node that the constructors make, whatever has happened to it and to its
operands before (`Life`).
-/

namespace RadarDemo.Expr

variable {V : ℕ → Type} {D : Type → Type}

mutual

/-- The n-ary nodes of an expression. -/
def Tree.operations : {α : Type} → Tree V D α → List Path
  | _, .constant _ => []
  | _, .value _ _ _ => []
  | _, .nary _ nodes _ => nodes.operations 0 ++ [[]]

def Forest.operations : {αs : List Type} → Forest V D αs → ℕ → List Path
  | _, .nil, _ => []
  | _, .cons node nodes, i => node.operations.map (i :: ·) ++ nodes.operations (i + 1)

end

/-- An operation is called, which goes on record. -/
def callOperation {α : Type} {αs : List Type} (op : Args αs → α) (operands : Args αs) :
    α × List Path := (op operands, [[]])

mutual

/-- `eval()`, with the n-ary nodes whose operations it calls. -/
def Tree.traced (env : ∀ x, V x) : {α : Type} → Node V α → Node V α × List Path
  | _, .constant result => (.constant result, [])
  | _, .value x convert data =>
      (if data.dirty then .value x convert ⟨convert (env x), false⟩ else .value x convert data, [])
  | _, .nary op nodes data =>
      if data.dirty then
        let operands := nodes.traced env 0
        let called := callOperation op operands.1.results
        (.nary op operands.1 ⟨called.1, false⟩, operands.2 ++ called.2)
      else (.nary op nodes data, [])

/-- `eval_tuple`, for operands the first of which is number `i`. -/
def Forest.traced (env : ∀ x, V x) : {αs : List Type} → Nodes V αs → ℕ → Nodes V αs × List Path
  | _, .nil, _ => (.nil, [])
  | _, .cons node nodes, i =>
      let first := node.traced env
      let others := nodes.traced env (i + 1)
      (.cons first.1 others.1, first.2.map (i :: ·) ++ others.2)

end

mutual

/-- The n-ary nodes that an evaluation comes to. -/
def Tree.runs : {α : Type} → Node V α → List Path
  | _, .constant _ => []
  | _, .value _ _ _ => []
  | _, .nary _ nodes data => if data.dirty then nodes.runs 0 ++ [[]] else []

def Forest.runs : {αs : List Type} → Nodes V αs → ℕ → List Path
  | _, .nil, _ => []
  | _, .cons node nodes, i => node.runs.map (i :: ·) ++ nodes.runs (i + 1)

end

mutual

/-- **The record is one of the evaluation**, and says what the flags do. -/
theorem Tree.traced_eq (env : ∀ x, V x) : ∀ {α : Type} (n : Node V α),
    n.traced env = (n.eval env, n.runs)
  | _, .constant _ => rfl
  | _, .value _ _ _ => rfl
  | _, .nary op nodes data => by
      unfold Tree.traced Tree.eval Tree.runs
      rw [nodes.traced_eq env 0]
      split <;> rfl

theorem Forest.traced_eq (env : ∀ x, V x) : ∀ {αs : List Type} (ns : Nodes V αs) (i : ℕ),
    ns.traced env i = (ns.eval env, ns.runs i)
  | _, .nil, _ => rfl
  | _, .cons node nodes, i => by
      rw [Forest.traced, node.traced_eq env, nodes.traced_eq env (i + 1), Forest.eval, Forest.runs]

end

mutual

/-- Operands come first, and no operation is called twice. -/
theorem Tree.runs_sublist : ∀ {α : Type} (n : Node V α), n.runs.Sublist n.operations
  | _, .constant _ => List.Sublist.refl []
  | _, .value _ _ _ => List.Sublist.refl []
  | _, .nary _ nodes _ => by
      unfold Tree.runs Tree.operations
      split
      · exact (nodes.runs_sublist 0).append_right [[]]
      · exact List.nil_sublist _

theorem Forest.runs_sublist : ∀ {αs : List Type} (ns : Nodes V αs) (i : ℕ),
    (ns.runs i).Sublist (ns.operations i)
  | _, .nil, _ => List.Sublist.refl []
  | _, .cons node nodes, i =>
      (node.runs_sublist.map (i :: ·)).append (nodes.runs_sublist (i + 1))

end

/-! ## Without the flag nothing is called -/

theorem Tree.runs_of_clean {α : Type} {n : Node V α} (clean : n.dirty = false) : n.runs = [] := by
  cases n with
  | constant result => rfl
  | value x convert data => rfl
  | nary op nodes data => exact if_neg (Bool.not_eq_true _ ▸ clean)

theorem Forest.runs_of_clean {αs : List Type} {ns : Nodes V αs} (i : ℕ) (clean : ns.dirty = false) :
    ns.runs i = [] := by
  induction αs generalizing i with
  | nil =>
      cases ns
      rfl
  | cons α αs ih =>
      obtain _ | ⟨node, nodes⟩ := ns
      obtain ⟨first, others⟩ := Bool.or_eq_false_iff.mp clean
      rw [Forest.runs, Tree.runs_of_clean first, ih (i + 1) others, List.map_nil, List.append_nil]

/-! ## The operations stay -/

mutual

theorem Tree.operations_shape : ∀ {α : Type} (n : Tree V D α), n.shape.operations = n.operations
  | _, .constant _ => rfl
  | _, .value _ _ _ => rfl
  | _, .nary _ nodes _ => congrArg (· ++ [[]]) (nodes.operations_shape 0)

theorem Forest.operations_shape : ∀ {αs : List Type} (ns : Forest V D αs) (i : ℕ),
    ns.shape.operations i = ns.operations i
  | _, .nil, _ => rfl
  | _, .cons node nodes, i =>
      congrArg₂ (fun ps qs => ps.map (i :: ·) ++ qs) node.operations_shape
        (nodes.operations_shape (i + 1))

end

mutual

theorem Tree.operations_destroyed (x : ℕ) : ∀ {α : Type} (n : Node V α),
    (n.destroyed x).operations = n.operations
  | _, .constant _ => rfl
  | _, .value _ _ _ => by
      unfold Tree.destroyed
      split <;> rfl
  | _, .nary _ nodes _ => congrArg (· ++ [[]]) (nodes.operations_destroyed x 0)

theorem Forest.operations_destroyed (x : ℕ) : ∀ {αs : List Type} (ns : Nodes V αs) (i : ℕ),
    (ns.destroyed x).operations i = ns.operations i
  | _, .nil, _ => rfl
  | _, .cons node nodes, i =>
      congrArg₂ (fun ps qs => ps.map (i :: ·) ++ qs) (node.operations_destroyed x)
        (nodes.operations_destroyed x (i + 1))

end

mutual

theorem Tree.runs_destroyed (x : ℕ) : ∀ {α : Type} (n : Node V α), (n.destroyed x).runs = n.runs
  | _, .constant _ => rfl
  | _, .value _ _ _ => by
      unfold Tree.destroyed
      split <;> rfl
  | _, .nary _ nodes data => by
      rw [Tree.destroyed, Tree.runs, Tree.runs, nodes.runs_destroyed x 0]

theorem Forest.runs_destroyed (x : ℕ) : ∀ {αs : List Type} (ns : Nodes V αs) (i : ℕ),
    (ns.destroyed x).runs i = ns.runs i
  | _, .nil, _ => rfl
  | _, .cons node nodes, i =>
      congrArg₂ (fun ps qs => ps.map (i :: ·) ++ qs) (node.runs_destroyed x)
        (nodes.runs_destroyed x (i + 1))

end

/-! ## A notification adds the operations above it -/

/-- The node at `q` is above the one at `p`. -/
def Above (q p : Path) : Prop := q <+: p ∧ q ≠ p

instance (q p : Path) : Decidable (Above q p) := inferInstanceAs (Decidable (_ ∧ _))

theorem above_nil_cons (i : ℕ) (p : Path) : Above [] (i :: p) :=
  ⟨List.nil_prefix, (List.cons_ne_nil i p).symm⟩

theorem above_cons_iff {i j : ℕ} {q p : Path} : Above (j :: q) (i :: p) ↔ j = i ∧ Above q p := by
  unfold Above
  rw [List.cons_prefix_cons, Ne, List.cons_eq_cons, not_and]
  tauto

/-- The ways to the operations of operands start with their numbers. -/
theorem Forest.exists_of_mem_operations {αs : List Type} {ns : Forest V D αs} {i : ℕ} {q : Path}
    (member : q ∈ ns.operations i) : ∃ j q', q = j :: q' ∧ i ≤ j := by
  induction αs generalizing i with
  | nil =>
      cases ns
      exact absurd member List.not_mem_nil
  | cons α αs ih =>
      obtain _ | ⟨node, nodes⟩ := ns
      rcases List.mem_append.mp member with first | others
      · obtain ⟨q', -, rfl⟩ := List.mem_map.mp first
        exact ⟨i, q', rfl, le_rfl⟩
      · obtain ⟨j, q', rfl, later⟩ := ih others
        exact ⟨j, q', rfl, (Nat.le_succ i).trans later⟩

/-- In an operand, what is above a node is above it there. -/
theorem mem_map_and_above {ps : List Path} {i j : ℕ} {p q : Path} :
    q ∈ ps.map (j :: ·) ∧ Above q (i :: p) ↔ j = i ∧ ∃ q', q = j :: q' ∧ q' ∈ ps ∧ Above q' p := by
  constructor
  · rintro ⟨member, above⟩
    obtain ⟨q', inside, rfl⟩ := List.mem_map.mp member
    obtain ⟨same, above⟩ := above_cons_iff.mp above
    exact ⟨same, q', rfl, inside, above⟩
  · rintro ⟨same, q', rfl, member, above⟩
    exact ⟨List.mem_map_of_mem member, above_cons_iff.mpr ⟨same, above⟩⟩

mutual

/-- **A notification makes the operations above it run.** -/
theorem Tree.mem_runs_markDirty : ∀ {α : Type} {n : Node V α} {p q : Path}, n.Coherent →
    (q ∈ (n.markDirty p).runs ↔ q ∈ n.runs ∨ q ∈ n.operations ∧ Above q p)
  | _, .constant _, _, _, _ => by simp [Tree.markDirty, Tree.runs, Tree.operations]
  | _, .value _ _ _, [], _, _ => by simp [Tree.markDirty, Tree.runs, Tree.operations]
  | _, .value _ _ _, _ :: _, _, _ => by simp [Tree.markDirty, Tree.runs, Tree.operations]
  | _, .nary _ _ _, [], _, _ => by simp [Tree.markDirty, Above]
  | _, .nary op nodes data, i :: p, q, coherent => by
      have below := Forest.mem_runs_markDirty (k := 0) (i := i) (p := p) (q := q) coherent.1
      rw [Nat.zero_add] at below
      -- A node without the flag has none below it either, so that nothing is missed.
      have before : q ∈ (Tree.nary op nodes data : Node V _).runs ↔
          q ∈ nodes.runs 0 ∨ data.dirty = true ∧ q = [] := by
        unfold Tree.runs
        cases dirty : data.dirty with
        | true => simp
        | false => simp [Forest.runs_of_clean 0 (coherent.2 dirty).1]
      have after : q ∈ ((Tree.nary op nodes data : Node V _).markDirty (i :: p)).runs ↔
          q ∈ (nodes.markDirty i p).runs 0 ∨ q = [] := by
        simp [Tree.markDirty, Tree.runs]
      have root : q = [] → Above q (i :: p) := fun is => is ▸ above_nil_cons i p
      rw [after, below, before, Tree.operations, List.mem_append, List.mem_singleton]
      grind

theorem Forest.mem_runs_markDirty : ∀ {αs : List Type} {ns : Nodes V αs} {k i : ℕ} {p q : Path},
    ns.Coherent → (q ∈ (ns.markDirty i p).runs k ↔
      q ∈ ns.runs k ∨ q ∈ ns.operations k ∧ Above q ((k + i) :: p))
  | _, .nil, _, _, _, _, _ => by simp [Forest.markDirty, Forest.runs, Forest.operations]
  | _, .cons node nodes, k, 0, p, q, coherent => by
      have others : ¬ (q ∈ nodes.operations (k + 1) ∧ Above q (k :: p)) := by
        rintro ⟨member, above⟩
        obtain ⟨j, q', rfl, later⟩ := Forest.exists_of_mem_operations member
        have same := (above_cons_iff.mp above).1
        omega
      have first : q ∈ (node.markDirty p).runs.map (k :: ·) ↔ q ∈ node.runs.map (k :: ·) ∨
          q ∈ node.operations.map (k :: ·) ∧ Above q (k :: p) := by
        rw [mem_map_and_above, List.mem_map, List.mem_map]
        simp only [Tree.mem_runs_markDirty coherent.1, true_and]
        grind
      rw [Forest.markDirty, Forest.runs, Forest.runs, Forest.operations, Nat.add_zero,
        List.mem_append, List.mem_append, List.mem_append, first]
      grind
  | _, .cons node nodes, k, i + 1, p, q, coherent => by
      have first : ¬ (q ∈ node.operations.map (k :: ·) ∧ Above q ((k + (i + 1)) :: p)) := by
        rw [mem_map_and_above]
        omega
      have others := Forest.mem_runs_markDirty (k := k + 1) (i := i) (p := p) (q := q) coherent.2
      rw [Nat.add_right_comm, Nat.add_assoc] at others
      rw [Forest.markDirty, Forest.runs, Forest.runs, Forest.operations, List.mem_append,
        List.mem_append, List.mem_append, others]
      grind

end

/-! ## A whole run -/

/-- No operation has two places. -/
theorem Forest.nil_notMem_operations {αs : List Type} (ns : Forest V D αs) (i : ℕ) :
    [] ∉ ns.operations i := by
  intro member
  obtain ⟨j, q, is, -⟩ := Forest.exists_of_mem_operations member
  cases is

mutual

theorem Tree.operations_nodup : ∀ {α : Type} (n : Tree V D α), n.operations.Nodup
  | _, .constant _ => List.nodup_nil
  | _, .value _ _ _ => List.nodup_nil
  | _, .nary _ nodes _ => by
      refine (nodes.operations_nodup 0).append (List.nodup_singleton []) ?_
      rw [List.disjoint_singleton]
      exact nodes.nil_notMem_operations 0

theorem Forest.operations_nodup : ∀ {αs : List Type} (ns : Forest V D αs) (i : ℕ),
    (ns.operations i).Nodup
  | _, .nil, _ => List.nodup_nil
  | _, .cons node nodes, i => by
      refine (node.operations_nodup.map (List.cons_injective)).append
        (nodes.operations_nodup (i + 1)) fun q first others => ?_
      obtain ⟨p, -, rfl⟩ := List.mem_map.mp first
      obtain ⟨j, q, is, later⟩ := Forest.exists_of_mem_operations others
      have same := (List.cons_eq_cons.mp is).1
      omega

end

/-- What happens to the root of an expression. -/
inductive Event (V : ℕ → Type)
  /-- the node at `p` is notified -/
  | notify (p : Path)
  /-- the root is evaluated -/
  | eval (env : ∀ x, V x)
  /-- a value is destroyed -/
  | destroy (x : ℕ)

/-- A root, with the nodes that have been notified since it was last evaluated. -/
structure Watched (V : ℕ → Type) (α : Type) where
  root : Node V α
  notified : List Path

/-- The next event. -/
def Watched.next {α : Type} (w : Watched V α) : Event V → Watched V α
  | .notify p => ⟨w.root.markDirty p, p :: w.notified⟩
  | .eval env => ⟨w.root.eval env, []⟩
  | .destroy x => ⟨w.root.destroyed x, w.notified⟩

/-- What an evaluation would call now. -/
structure Watched.Exact {α : Type} (w : Watched V α) : Prop where
  coherent : w.root.Coherent
  runs : ∀ q, q ∈ w.root.runs ↔ q ∈ w.root.operations ∧ ∃ p ∈ w.notified, Above q p

/-- The operations stay, whatever happens. -/
theorem Watched.operations_next {α : Type} (w : Watched V α) (e : Event V) :
    (w.next e).root.operations = w.root.operations := by
  cases e with
  | notify p =>
      show (w.root.markDirty p).operations = _
      rw [← Tree.operations_shape, w.root.shape_markDirty, Tree.operations_shape]
  | eval env =>
      show (w.root.eval env).operations = _
      rw [← Tree.operations_shape, w.root.shape_eval, Tree.operations_shape]
  | destroy x => exact w.root.operations_destroyed x

theorem Watched.Exact.next {α : Type} {w : Watched V α} (exact : w.Exact) (e : Event V) :
    (w.next e).Exact := by
  have same := w.operations_next e
  cases e with
  | notify p =>
      refine ⟨exact.coherent.markDirty, fun q => ?_⟩
      rw [same]
      show q ∈ (w.root.markDirty p).runs ↔ q ∈ w.root.operations ∧ ∃ r ∈ p :: w.notified, Above q r
      rw [Tree.mem_runs_markDirty exact.coherent, exact.runs]
      simp only [List.mem_cons, exists_eq_or_imp]
      rw [← and_or_left, or_comm]
  | eval env =>
      refine ⟨exact.coherent.eval, fun q => ?_⟩
      simp [Watched.next, Tree.runs_of_clean w.root.dirty_eval]
  | destroy x =>
      refine ⟨exact.coherent.destroyed, fun q => ?_⟩
      rw [same]
      show q ∈ (w.root.destroyed x).runs ↔ _
      rw [w.root.runs_destroyed x]
      exact exact.runs q

mutual

/-- A node that the program can make, with what has been notified of it since it was last
evaluated. -/
inductive Life : {α : Type} → Watched V α → Prop
  | constant {α : Type} (result : α) : Life ⟨.constant result, []⟩
  | ofValue {α : Type} (env : ∀ x, V x) (x : ℕ) (convert : V x → α) :
      Life ⟨.ofValue env x convert, []⟩
  | ofNodes {α : Type} {αs : List Type} (env : ∀ x, V x) (op : Args αs → α) {nodes : Nodes V αs}
      (lives : Lives nodes) : Life ⟨.ofNodes env op nodes, []⟩
  | next {α : Type} {w : Watched V α} (life : Life w) (e : Event V) : Life (w.next e)

/-- Nodes that become operands, whatever has happened to them. -/
inductive Lives : {αs : List Type} → Nodes V αs → Prop
  | nil : Lives .nil
  | cons {α : Type} {αs : List Type} {node : Node V α} {notified : List Path} {nodes : Nodes V αs}
      (first : Life ⟨node, notified⟩) (others : Lives nodes) : Lives (.cons node nodes)

end

/-- What is made without a flag has nothing to call. -/
theorem Watched.exact_of_clean {α : Type} {n : Node V α} (coherent : n.Coherent)
    (clean : n.dirty = false) : (⟨n, []⟩ : Watched V α).Exact :=
  ⟨coherent, fun q => by simp [Tree.runs_of_clean clean]⟩

theorem Life.exact {α : Type} {w : Watched V α} (life : Life w) : w.Exact :=
  @Life.rec V (fun w _ => w.Exact) (fun ns _ => ns.Coherent)
    (fun _ => Watched.exact_of_clean trivial rfl)
    (fun _ _ _ => Watched.exact_of_clean trivial rfl)
    (fun _ op _ _ coherent => Watched.exact_of_clean (Tree.coherent_ofNodes op coherent) rfl)
    (fun _ e exact => exact.next e)
    trivial
    (fun _ _ exact coherent => ⟨exact.coherent, coherent⟩)
    α w life

/-- **An evaluation calls exactly the operations above what has been notified** since the
one before it, each once and operands first, whatever has happened to the node. -/
theorem Life.calls_changed {α : Type} {w : Watched V α} (life : Life w) (env : ∀ x, V x) :
    w.root.traced env =
      (w.root.eval env, w.root.operations.filter fun q => ∃ p ∈ w.notified, Above q p) := by
  have runs := life.exact.runs
  have part : w.root.runs.Sublist
      (w.root.operations.filter fun q => ∃ p ∈ w.notified, Above q p) := by
    have kept : w.root.runs.filter (fun q => ∃ p ∈ w.notified, Above q p) = w.root.runs :=
      List.filter_eq_self.mpr fun q member => decide_eq_true ((runs q).mp member).2
    exact kept ▸ w.root.runs_sublist.filter _
  have whole : w.root.operations.filter (fun q => ∃ p ∈ w.notified, Above q p) ⊆ w.root.runs := by
    intro q member
    rw [List.mem_filter, decide_eq_true_eq] at member
    exact (runs q).mpr member
  have nodup := w.root.operations_nodup.filter fun q => ∃ p ∈ w.notified, Above q p
  rw [w.root.traced_eq env, part.eq_of_length_le (nodup.subperm whole).length_le]

/-- `(x + 1) * y`, where `x` is value 0 and `y` is value 1, and both store 3. -/
def product : Node (fun _ => ℕ) ℕ :=
  .ofNodes (fun _ => 3) (fun operands : Args [ℕ, ℕ] => operands.1 * operands.2.1)
    (.cons (.ofNodes (fun _ => 3) (fun operands : Args [ℕ, ℕ] => operands.1 + operands.2.1)
      (.cons (.ofValue (fun _ => 3) 0 id) (.cons (.constant 1) .nil)))
    (.cons (.ofValue (fun _ => 3) 1 id) .nil))

theorem life_product : Life ⟨product, []⟩ :=
  .ofNodes _ _ (.cons (.ofNodes _ _ (.cons (.ofValue _ 0 id) (.cons (.constant 1) .nil)))
    (.cons (.ofValue _ 1 id) .nil))

/-- After a change of `y` the product is computed again, and the sum is not. -/
theorem calls_changed_product :
    ((product.markDirty [1]).traced fun _ => 5).2 = [[]] := by
  have traced := (life_product.next (.notify [1])).calls_changed fun _ => 5
  exact (congrArg Prod.snd traced).trans (by decide)

end RadarDemo.Expr
