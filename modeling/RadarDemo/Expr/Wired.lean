import RadarDemo.Expr.Sheet

/-!
# How the nodes are wired up

Every node of a value is subscribed to it for as long as the node and the value are
there, and is found under the name of the root above it.  `Sheet.Wired` says so,
together with what the nodes show: a node of a value shows the value, unless its flag
is set or a call to it is on the agenda.

The operations of a program keep this, each by a lemma of its own: a change of a value
(`Wired.setImpl`), another node at a root (`Wired.setNode`), a root that takes over others
(`Wired.newRoot`), and the three parts of a destruction (`Wired.notifyDestroyed`,
`Wired.discard`, `Wired.dead`).
-/

namespace RadarDemo.Expr

open Concurrency TransitionSystem

variable {V : ℕ → Type} {υ : Type}

namespace Sheet

/-- The subscriptions are what the expressions say, and a node shows its value
unless it is still to be notified. -/
structure Wired (s : Sheet V υ) : Prop where
  coherent : ∀ m root, s.roots m = some root → root.node.Coherent
  fresh : ∀ m root, s.roots m = some root →
    root.node.Fresh s.values fun p => .notify m p ∈ s.agenda
  subscribed : ∀ x m p, (m, p) ∈ s.observers x ↔
    ∃ root, s.roots m = some root ∧ (x, p) ∈ root.node.leaves
  earlier : ∀ m root, s.roots m = some root → ∀ l ∈ root.node.leaves,
    l.1 < m ∧ s.alive l.1 = true
  owned : ∀ m root, s.roots m = some root → s.alive m = root.mode.isSome
  made : ∀ x, s.alive x = true → x < s.next
  built : ∀ m root, s.roots m = some root → m < s.next
  called : ∀ task ∈ s.agenda, ∀ m, task.about = some m → ∃ root, s.roots m = some root
  turns : ∀ x, .eval x ∈ s.agenda → s.alive x = true
  manual : ∀ u x, x ∈ s.funs u ↔ ∃ root, s.roots x = some root ∧ root.mode = some (.manual u)
  sorted : ∀ u, (s.funs u).Pairwise (· < ·)

variable {equal : ∀ x, V x → V x → Bool} {s : Sheet V υ} {x m k : ℕ} {p q : Path}
  {root : Root V υ (V m)} {way : ℕ → Option Path} {subs : List ℕ}

/-- Another agenda with the same calls. -/
theorem Wired.of_agenda (wired : s.Wired) {agenda : List (Task υ)}
    (kept : ∀ m p, .notify m p ∈ s.agenda → .notify m p ∈ agenda)
    (called : ∀ task ∈ agenda, ∀ m, task.about = some m → ∃ root, s.roots m = some root)
    (turns : ∀ x, .eval x ∈ agenda → s.alive x = true) :
    Wired { s with agenda := agenda } where
  coherent := wired.coherent
  fresh := fun m root has => (wired.fresh m root has).mono fun p => kept m p
  subscribed := wired.subscribed
  earlier := wired.earlier
  owned := wired.owned
  made := wired.made
  built := wired.built
  called := called
  turns := turns
  manual := wired.manual
  sorted := wired.sorted

/-- Where a name is not in use, there is no root. -/
theorem Wired.roots_of_le (wired : s.Wired) (later : s.next ≤ m) : s.roots m = none := by
  cases has : s.roots m with
  | none => rfl
  | some root => exact absurd (wired.built m root has) (not_lt.mpr later)

/-- What has an evaluator is a living value. -/
theorem Wired.isAlive (wired : s.Wired) (has : s.roots m = some root) {mode : Mode υ}
    (is : root.mode = some mode) : s.alive m = true := by
  rw [wired.owned m root has, is]
  rfl

/-- A leaf is an earlier value. -/
theorem Wired.leaf_ne (wired : s.Wired) (later : s.next ≤ x) {root : Root V υ (V m)}
    (has : s.roots m = some root) {l : ℕ × Path} (occurs : l ∈ root.node.leaves) : l.1 ≠ x :=
  ((wired.made l.1 (wired.earlier m root has l occurs).2).trans_le later).ne

/-! ## A change of a value -/

/-- The observers of the value are notified. -/
theorem Wired.setImpl (wired : s.Wired) (newValue : V x) : (s.setImpl equal x newValue).Wired := by
  unfold Sheet.setImpl
  split
  · exact wired
  · exact {
      wired with
      fresh := fun m root has => by
        have changed := (wired.fresh m root has).change (x := x) fun y differs =>
          Function.update_of_ne differs newValue s.values
        refine changed.mono fun p => ?_
        rintro (pending | occurs)
        · exact List.mem_append_right _ (List.mem_cons_of_mem _ pending)
        · exact List.mem_append_left _
            (List.mem_map_of_mem ((wired.subscribed x m p).mpr ⟨root, has, occurs⟩))
      called := fun task member m about => by
        rcases List.mem_append.mp member with new | old
        · obtain ⟨o, subscribed, rfl⟩ := List.mem_map.mp new
          obtain ⟨root, has, -⟩ := (wired.subscribed x o.1 o.2).mp subscribed
          cases about
          exact ⟨root, has⟩
        · rcases List.mem_cons.mp old with rfl | old
          · cases about
          · exact wired.called task old m about
      turns := fun y turn => by
        rcases List.mem_append.mp turn with new | old
        · obtain ⟨o, -, is⟩ := List.mem_map.mp new
          cases is
        · exact wired.turns y ((List.mem_cons.mp old).resolve_left nofun) }

/-- A new value, which nothing observes yet. -/
theorem Wired.value (wired : s.Wired) (later : s.next ≤ x) (initial : V x) :
    Wired { s with
      next := x + 1,
      alive := Function.update s.alive x true,
      values := Function.update s.values x initial } := by
  have old : ∀ {y : ℕ}, y < s.next → y < x + 1 :=
    fun before => before.trans_le (later.trans (Nat.le_succ x))
  have kept : ∀ {y : ℕ}, y < s.next → Function.update s.alive x true y = s.alive y :=
    fun before => Function.update_of_ne (before.trans_le later).ne ..
  exact {
    wired with
    fresh := fun m root has => by
      have changed := (wired.fresh m root has).change (x := x) fun y differs =>
        Function.update_of_ne differs initial s.values
      refine changed.mono fun p => ?_
      rintro (pending | occurs)
      · exact pending
      · exact absurd rfl (wired.leaf_ne later has occurs)
    earlier := fun m root has l occurs => by
      obtain ⟨before, isAlive⟩ := wired.earlier m root has l occurs
      exact ⟨before, (kept (wired.made l.1 isAlive)).trans isAlive⟩
    owned := fun m root has => (kept (wired.built m root has)).trans (wired.owned m root has)
    made := fun y isAlive => by
      by_cases same : y = x
      · exact same ▸ Nat.lt_succ_self x
      · exact old (wired.made y ((Function.update_of_ne same true s.alive).symm.trans isAlive))
    built := fun m root has => old (wired.built m root has)
    turns := fun y turn => by
      have isAlive := wired.turns y turn
      exact (kept (wired.made y isAlive)).trans isAlive }

/-! ## Another node at a root -/

/-- What holds of all roots, after one of them has got another node. -/
theorem forall_setNode {P : ∀ k, Root V υ (V k) → Prop} {node : Node V (V m)}
    (here : P m { root with node := node })
    (others : ∀ k root', k ≠ m → s.roots k = some root' → P k root') :
    ∀ k root', (s.setNode m root node).roots k = some root' → P k root' := by
  intro k root' has
  change Function.update s.roots m _ k = some root' at has
  by_cases same : k = m
  · subst same
    rw [Function.update_self, Option.some_inj] at has
    exact has ▸ here
  · rw [Function.update_of_ne same] at has
    exact others k root' same has

/-- What some root has, whatever its node. -/
theorem exists_setNode_iff (P : ∀ k, Root V υ (V k) → Prop) (node : Node V (V m))
    (has : s.roots m = some root) (same : P m { root with node := node } ↔ P m root) :
    (∃ root', (s.setNode m root node).roots k = some root' ∧ P k root') ↔
      ∃ root', s.roots k = some root' ∧ P k root' := by
  change (∃ root', Function.update s.roots m _ k = some root' ∧ P k root') ↔ _
  by_cases is : k = m
  · subst is
    simp only [Function.update_self, has, Option.some_inj, exists_eq_left']
    exact same
  · rw [Function.update_of_ne is]

/-- A node that has been notified or evaluated, with the calls to it that are left. -/
theorem Wired.setNode (wired : s.Wired) {rest : List (Task υ)} {node : Node V (V m)}
    (has : s.roots m = some root) (shape : node.shape = root.node.shape)
    (coherent : node.Coherent) (fresh : node.Fresh s.values fun p => .notify m p ∈ rest)
    (others : ∀ k p, k ≠ m → .notify k p ∈ s.agenda → .notify k p ∈ rest)
    (part : rest ⊆ s.agenda) : ({ s with agenda := rest }.setNode m root node).Wired := by
  have leaves : node.leaves = root.node.leaves := by
    rw [← node.leaves_shape, shape, root.node.leaves_shape]
  exact {
    coherent := forall_setNode coherent fun k root' _ => wired.coherent k root'
    fresh := forall_setNode fresh fun k root' differs has' =>
      (wired.fresh k root' has').mono fun p pending => others k p differs pending
    subscribed := fun x k p => (wired.subscribed x k p).trans
      (exists_setNode_iff (s := { s with agenda := rest })
        (fun _ root' => (x, p) ∈ root'.node.leaves) node has (by rw [leaves])).symm
    earlier := forall_setNode (by rw [leaves]; exact wired.earlier m root has)
      fun k root' _ => wired.earlier k root'
    owned := forall_setNode (wired.owned m root has) fun k root' _ => wired.owned k root'
    made := wired.made
    built := forall_setNode (wired.built m root has) fun k root' _ => wired.built k root'
    called := fun task member k about => by
      obtain ⟨root', has'⟩ := wired.called task (part member) k about
      obtain ⟨root'', has'', -⟩ := (exists_setNode_iff (s := { s with agenda := rest })
        (fun _ _ => True) node has Iff.rfl).mpr ⟨root', has', trivial⟩
      exact ⟨root'', has''⟩
    turns := fun x turn => wired.turns x (part turn)
    manual := fun u k => (wired.manual u k).trans (exists_setNode_iff
      (s := { s with agenda := rest }) (fun _ root' => root'.mode = some (.manual u)) node has
      Iff.rfl).symm
    sorted := wired.sorted }

/-! ## A root that takes over others -/

theorem place_of_some {w : Path} (found : way k = some w) : place m way (k, p) = (m, w ++ p) := by
  simp only [place, found]

theorem place_of_none (absent : way k = none) : place m way (k, p) = (k, p) := by
  simp only [place, absent]

/-- The observers that are found at `(k, q)` afterwards. -/
theorem mem_map_place {os : List (ℕ × Path)} : (k, q) ∈ os.map (place m way) ↔
    (k = m ∧ ∃ j w p, way j = some w ∧ q = w ++ p ∧ (j, p) ∈ os) ∨
      (way k = none ∧ (k, q) ∈ os) := by
  rw [List.mem_map]
  constructor
  · rintro ⟨⟨j, p⟩, member, is⟩
    cases found : way j with
    | none =>
        rw [place_of_none found, Prod.mk.injEq] at is
        obtain ⟨rfl, rfl⟩ := is
        exact Or.inr ⟨found, member⟩
    | some w =>
        rw [place_of_some found, Prod.mk.injEq] at is
        exact Or.inl ⟨is.1.symm, j, w, p, found, is.2.symm, member⟩
  · rintro (⟨rfl, j, w, p, found, rfl, member⟩ | ⟨absent, member⟩)
    · exact ⟨(j, p), member, place_of_some found⟩
    · exact ⟨(k, q), member, place_of_none absent⟩

/-- A call to a node that has been taken over. -/
theorem mem_agenda_of_some {agenda : List (Task υ)} {w : Path} (found : way k = some w)
    (member : .notify k p ∈ agenda) : .notify m (w ++ p) ∈ agenda.map (Task.place m way) := by
  refine List.mem_map.mpr ⟨.notify k p, member, ?_⟩
  rw [Task.place, place_of_some found]
  rfl

theorem mem_agenda_of_none {agenda : List (Task υ)} (absent : way k = none)
    (member : .notify k p ∈ agenda) : .notify k p ∈ agenda.map (Task.place m way) := by
  refine List.mem_map.mpr ⟨.notify k p, member, ?_⟩
  rw [Task.place, place_of_none absent]
  rfl

/-- What a constructor makes of the roots that it takes over and of the values that it
subscribes to. -/
structure Fits (s : Sheet V υ) (m : ℕ) (node : Node V (V m)) (way : ℕ → Option Path)
    (subs : List ℕ) : Prop where
  later : s.next ≤ m
  coherent : node.Coherent
  fresh : node.Fresh s.values fun q =>
    ∃ k w p, way k = some w ∧ q = w ++ p ∧ .notify k p ∈ s.agenda
  leaves : ∀ x q, (x, q) ∈ node.leaves ↔ (x ∈ subs ∧ q = []) ∨
    ∃ k w p root, way k = some w ∧ q = w ++ p ∧ s.roots k = some root ∧ (x, p) ∈ root.node.leaves
  alive : ∀ x ∈ subs, s.alive x = true
  held : ∀ k w, way k = some w → ∃ node, s.roots k = some ⟨node, none⟩

/-- What an evaluator knows is not taken over: the program does not hold it. -/
theorem Fits.way_of_known {node : Node V (V m)} (fits : s.Fits m node way subs)
    {root : Root V υ (V k)} (has : s.roots k = some root)
    (known : root.mode ≠ none) : way k = none := by
  cases found : way k with
  | none => rfl
  | some w =>
      obtain ⟨node', has'⟩ := fits.held k w found
      rw [has, Option.some_inj] at has'
      exact absurd (has' ▸ rfl) known

variable [DecidableEq υ]

theorem newRoot_roots : (s.newRoot m root way subs).roots =
    Function.update (fun k => if (way k).isSome then none else s.roots k) m (some root) := rfl

/-- What holds of all roots, after a new one has taken over some. -/
theorem forall_newRoot {P : ∀ k, Root V υ (V k) → Prop} (here : P m root)
    (others : ∀ k root', k ≠ m → way k = none → s.roots k = some root' → P k root') :
    ∀ k root', (s.newRoot m root way subs).roots k = some root' → P k root' := by
  intro k root' has
  rw [newRoot_roots] at has
  by_cases same : k = m
  · subst same
    rw [Function.update_self, Option.some_inj] at has
    exact has ▸ here
  · rw [Function.update_of_ne same] at has
    cases found : way k with
    | some w => simp [found] at has
    | none => exact others k root' same found (by simpa [found] using has)

/-- What some root has, after a new one has taken over some. -/
theorem exists_newRoot_iff (P : ∀ k, Root V υ (V k) → Prop) (absent : s.roots m = none) :
    (∃ root', (s.newRoot m root way subs).roots k = some root' ∧ P k root') ↔
      (k = m ∧ P m root) ∨ way k = none ∧ ∃ root', s.roots k = some root' ∧ P k root' := by
  rw [newRoot_roots]
  by_cases same : k = m
  · subst same
    simp [absent]
  · rw [Function.update_of_ne same]
    cases found : way k with
    | some w => simp [same]
    | none => simp [same]

theorem newRoot_alive_of_ne (differs : k ≠ m) :
    (s.newRoot m root way subs).alive k = s.alive k := Function.update_of_ne differs ..

section NewRoot

variable {node : Node V (V m)} {mode : Option (Mode υ)} (wired : s.Wired)
  (fits : s.Fits m node way subs)

include wired fits

/-- A node subscribes, or has been found under another name. -/
theorem Wired.subscribed_newRoot (x k : ℕ) (q : Path) :
    (k, q) ∈ (s.newRoot m ⟨node, mode⟩ way subs).observers x ↔
      ∃ root, (s.newRoot m ⟨node, mode⟩ way subs).roots k = some root ∧
        (x, q) ∈ root.node.leaves := by
  rw [exists_newRoot_iff (fun _ root => (x, q) ∈ root.node.leaves) (wired.roots_of_le fits.later),
    fits.leaves, ← wired.subscribed x k q]
  change (k, q) ∈ (if x ∈ subs then [(m, [])] else []) ++ (s.observers x).map (place m way) ↔ _
  rw [List.mem_append, mem_map_place]
  have new : (k, q) ∈ (if x ∈ subs then [(m, ([] : Path))] else []) ↔
      k = m ∧ x ∈ subs ∧ q = [] := by
    by_cases member : x ∈ subs <;> simp [member]
  have taken : (∃ j w p, way j = some w ∧ q = w ++ p ∧ (j, p) ∈ s.observers x) ↔
      ∃ j w p root, way j = some w ∧ q = w ++ p ∧ s.roots j = some root ∧
        (x, p) ∈ root.node.leaves := by
    simp only [wired.subscribed, exists_and_left]
  rw [new, taken, and_or_left, or_assoc]

/-- What a node reads is an earlier value, also where it has been taken over. -/
theorem Wired.earlier_newRoot {l : ℕ × Path} (occurs : l ∈ node.leaves) :
    l.1 < m ∧ (s.newRoot m ⟨node, mode⟩ way subs).alive l.1 = true := by
  have before : l.1 < s.next ∧ s.alive l.1 = true := by
    rcases (fits.leaves l.1 l.2).mp occurs with ⟨member, -⟩ | taken
    · exact ⟨wired.made l.1 (fits.alive l.1 member), fits.alive l.1 member⟩
    · obtain ⟨k, w, p, root, -, -, has, occurs⟩ := taken
      obtain ⟨before, isAlive⟩ := wired.earlier k root has _ occurs
      exact ⟨before.trans (wired.built k root has), isAlive⟩
  have earlier := before.1.trans_le fits.later
  exact ⟨earlier, (newRoot_alive_of_ne earlier.ne).trans before.2⟩

/-- No call is lost. -/
theorem Wired.called_newRoot {task : Task υ}
    (member : task ∈ (s.newRoot m ⟨node, mode⟩ way subs).agenda) (about : task.about = some k) :
    ∃ root, (s.newRoot m ⟨node, mode⟩ way subs).roots k = some root := by
  obtain ⟨before, was, rfl⟩ := List.mem_map.mp member
  have found : k = m ∨ way k = none ∧ ∃ root, s.roots k = some root := by
    cases before with
    | notify j p =>
        cases taken : way j with
        | some w =>
            rw [Task.place, place_of_some taken] at about
            exact Or.inl (Option.some.inj about).symm
        | none =>
            rw [Task.place, place_of_none taken] at about
            cases about
            exact Or.inr ⟨taken, wired.called _ was j rfl⟩
    | eval y =>
        cases about
        obtain ⟨root, has⟩ := wired.called _ was k rfl
        refine Or.inr ⟨fits.way_of_known has fun unknown => ?_, root, has⟩
        have owned := wired.owned k root has
        rw [wired.turns k was, unknown] at owned
        cases owned
    | returns y => cases about
    | unlock u => cases about
  obtain ⟨root, has, -⟩ :=
    (exists_newRoot_iff (fun _ _ => True) (wired.roots_of_le fits.later)).mpr
      (found.imp (fun is => ⟨is, trivial⟩) fun ⟨untouched, root, has⟩ =>
        ⟨untouched, root, has, trivial⟩)
  exact ⟨root, has⟩

theorem Wired.turns_newRoot
    (turn : .eval x ∈ (s.newRoot m ⟨node, mode⟩ way subs).agenda) :
    (s.newRoot m ⟨node, mode⟩ way subs).alive x = true := by
  obtain ⟨before, was, is⟩ := List.mem_map.mp turn
  cases before with
  | eval y =>
      cases is
      have isAlive := wired.turns x was
      exact (newRoot_alive_of_ne ((wired.made x isAlive).trans_le fits.later).ne).trans isAlive
  | notify j p => cases is
  | returns y => cases is
  | unlock u => cases is

/-- The evaluator knows the new root, if it has one. -/
theorem Wired.manual_newRoot (u : υ) (k : ℕ) :
    k ∈ (s.newRoot m ⟨node, mode⟩ way subs).funs u ↔
      ∃ root, (s.newRoot m ⟨node, mode⟩ way subs).roots k = some root ∧
        root.mode = some (.manual u) := by
  have known : (way k = none ∧ ∃ root, s.roots k = some root ∧ root.mode = some (.manual u)) ↔
      k ∈ s.funs u := by
    rw [wired.manual u k]
    refine ⟨And.right, fun ⟨root, has, is⟩ => ⟨fits.way_of_known has ?_, root, has, is⟩⟩
    rw [is]
    nofun
  rw [exists_newRoot_iff (fun _ root => root.mode = some (.manual u))
    (wired.roots_of_le fits.later), known]
  match mode with
  | none => simp [Sheet.newRoot]
  | some .immediate => simp [Sheet.newRoot]
  | some (.manual w) =>
      by_cases same : u = w
      · subst same
        simp [Sheet.newRoot, or_comm]
      · have differs : w ≠ u := fun is => same is.symm
        simp [Sheet.newRoot, same, differs]

theorem Wired.sorted_newRoot (u : υ) :
    ((s.newRoot m ⟨node, mode⟩ way subs).funs u).Pairwise (· < ·) := by
  match mode with
  | none => exact wired.sorted u
  | some .immediate => exact wired.sorted u
  | some (.manual w) =>
      change (Function.update s.funs w (s.funs w ++ [m]) u).Pairwise (· < ·)
      by_cases same : u = w
      · subst same
        rw [Function.update_self, List.pairwise_append]
        refine ⟨wired.sorted u, List.pairwise_singleton .., fun y member z last => ?_⟩
        obtain ⟨root, has, -⟩ := (wired.manual u y).mp member
        rw [List.mem_singleton.mp last]
        exact (wired.built y root has).trans_le fits.later
      · rw [Function.update_of_ne same]
        exact wired.sorted u

/-- **A new root is wired up**, and so is what it has left alone. -/
theorem Wired.newRoot : (s.newRoot m ⟨node, mode⟩ way subs).Wired where
  coherent := forall_newRoot fits.coherent fun k root _ _ => wired.coherent k root
  fresh := by
    refine forall_newRoot (fits.fresh.mono ?_) fun k root _ untouched has =>
      (wired.fresh k root has).mono fun p => mem_agenda_of_none untouched
    rintro q ⟨k, w, p, found, rfl, pending⟩
    exact mem_agenda_of_some found pending
  subscribed := wired.subscribed_newRoot fits
  earlier := by
    refine forall_newRoot (fun l => wired.earlier_newRoot fits) fun k root _ _ has l occurs => ?_
    obtain ⟨before, isAlive⟩ := wired.earlier k root has l occurs
    exact ⟨before, (newRoot_alive_of_ne (wired.leaf_ne fits.later has occurs)).trans isAlive⟩
  owned := forall_newRoot (Function.update_self ..) fun k root differs _ has =>
    (newRoot_alive_of_ne differs).trans (wired.owned k root has)
  made := fun x isAlive => by
    by_cases same : x = m
    · exact same ▸ Nat.lt_succ_self m
    · rw [newRoot_alive_of_ne same] at isAlive
      exact (wired.made x isAlive).trans_le (fits.later.trans (Nat.le_succ m))
  built := forall_newRoot (Nat.lt_succ_self m) fun k root _ _ has =>
    (wired.built k root has).trans_le (fits.later.trans (Nat.le_succ m))
  called := fun task member k => wired.called_newRoot fits member
  turns := fun x => wired.turns_newRoot fits
  manual := wired.manual_newRoot fits
  sorted := wired.sorted_newRoot fits

end NewRoot

/-! ## What the constructors make -/

omit [DecidableEq υ]

theorem node_eq_some_iff {node : Node V (V m)} :
    s.node m = some node ↔ s.roots m = some ⟨node, none⟩ := by
  unfold Sheet.node
  split
  · rename_i has
    simp [has]
  · rename_i differs
    refine ⟨nofun, fun has => absurd has (differs node)⟩

theorem nodes_cons_iff {ms : List ℕ} {nodes : Nodes V ((m :: ms).map V)} :
    s.nodes (m :: ms) = some nodes ↔ ∃ first others, s.roots m = some ⟨first, none⟩ ∧
      s.nodes ms = some others ∧ nodes = .cons first others := by
  simp only [← node_eq_some_iff]
  cases held : s.node m <;> cases others : s.nodes ms <;> simp [Sheet.nodes, held, others, eq_comm]

theorem mem_of_operand {ms : List ℕ} {i : ℕ} {w : Path} (found : operand ms i k = some w) :
    k ∈ ms := by
  induction ms generalizing i with
  | nil => cases found
  | cons m ms ih =>
      by_cases same : k = m
      · exact same ▸ List.mem_cons_self
      · exact List.mem_cons_of_mem m (ih ((if_neg same).symm.trans found))

/-- The operands are the roots that the program holds. -/
theorem roots_of_operand {ms : List ℕ} {i : ℕ} {w : Path} {nodes : Nodes V (ms.map V)}
    (held : s.nodes ms = some nodes) (found : operand ms i k = some w) :
    ∃ node, s.roots k = some ⟨node, none⟩ := by
  induction ms generalizing i with
  | nil => cases found
  | cons m ms ih =>
      obtain ⟨first, others, has, held, -⟩ := nodes_cons_iff.mp held
      by_cases same : k = m
      · exact ⟨same ▸ first, by subst same; exact has⟩
      · exact ih held ((if_neg same).symm.trans found)

theorem Wired.coherent_nodes (wired : s.Wired) {ms : List ℕ} {nodes : Nodes V (ms.map V)}
    (held : s.nodes ms = some nodes) : nodes.Coherent := by
  induction ms with
  | nil =>
      cases held
      trivial
  | cons m ms ih =>
      obtain ⟨first, others, has, rest, rfl⟩ := nodes_cons_iff.mp held
      exact ⟨wired.coherent m _ has, ih rest⟩

/-- The calls that an operand waits for reach it where it is now. -/
theorem Wired.fresh_nodes (wired : s.Wired) {ms : List ℕ} (distinct : ms.Nodup) {i : ℕ}
    {nodes : Nodes V (ms.map V)} (held : s.nodes ms = some nodes) :
    nodes.Fresh s.values i fun q =>
      ∃ k w p, operand ms i k = some w ∧ q = w ++ p ∧ .notify k p ∈ s.agenda := by
  induction ms generalizing i with
  | nil =>
      cases held
      trivial
  | cons m ms ih =>
      obtain ⟨notMem, distinct⟩ := List.nodup_cons.mp distinct
      obtain ⟨first, others, has, rest, rfl⟩ := nodes_cons_iff.mp held
      refine ⟨(wired.fresh m _ has).mono fun p pending => ?_,
        Forest.Fresh.mono (ih distinct rest) fun j q _ => ?_⟩
      · exact ⟨m, [i], p, if_pos rfl, rfl, pending⟩
      · rintro ⟨k, w, p, found, is, pending⟩
        have differs : k ≠ m := fun same => notMem (same ▸ mem_of_operand found)
        exact ⟨k, w, p, (if_neg differs).trans found, is, pending⟩

/-- The leaves of the operands. -/
theorem mem_leaves_nodes_iff {ms : List ℕ} (distinct : ms.Nodup) {i : ℕ}
    {nodes : Nodes V (ms.map V)} (held : s.nodes ms = some nodes) :
    (x, q) ∈ nodes.leaves i ↔ ∃ k w p root, operand ms i k = some w ∧ q = w ++ p ∧
      s.roots k = some root ∧ (x, p) ∈ root.node.leaves := by
  induction ms generalizing i with
  | nil =>
      cases held
      simp [Forest.leaves, operand]
  | cons m ms ih =>
      obtain ⟨notMem, distinct⟩ := List.nodup_cons.mp distinct
      obtain ⟨first, others, has, rest, rfl⟩ := nodes_cons_iff.mp held
      rw [Forest.leaves, List.mem_append, ih distinct rest, List.mem_map]
      constructor
      · rintro (⟨⟨y, p⟩, occurs, is⟩ | ⟨k, w, p, root, found, is, has', occurs⟩)
        · cases is
          exact ⟨m, [i], p, _, if_pos rfl, rfl, has, occurs⟩
        · have differs : k ≠ m := fun same => notMem (same ▸ mem_of_operand found)
          exact ⟨k, w, p, root, (if_neg differs).trans found, is, has', occurs⟩
      · rintro ⟨k, w, p, root, found, rfl, has', occurs⟩
        by_cases same : k = m
        · subst same
          rw [has, Option.some_inj] at has'
          rw [operand, if_pos rfl, Option.some_inj] at found
          subst has' found
          exact Or.inl ⟨(x, p), occurs, rfl⟩
        · exact Or.inr ⟨k, w, p, root, (if_neg same).symm.trans found, rfl, has', occurs⟩

theorem fits_constant (later : s.next ≤ m) (result : V m) :
    s.Fits m (.constant result) (fun _ => none) [] where
  later := later
  coherent := trivial
  fresh := trivial
  leaves := by simp [Tree.leaves]
  alive := nofun
  held := nofun

theorem fits_ofValue (later : s.next ≤ m) (alive : s.alive x = true) (convert : V x → V m) :
    s.Fits m (.ofValue s.values x convert) (fun _ => none) [x] where
  later := later
  coherent := trivial
  fresh := fun _ => Or.inr rfl
  leaves := by simp [Tree.ofValue, Tree.leaves]
  alive := by simpa using alive
  held := nofun

theorem Wired.fits_ofNodes (wired : s.Wired) (later : s.next ≤ m) {ms : List ℕ}
    (distinct : ms.Nodup) {nodes : Nodes V (ms.map V)} (held : s.nodes ms = some nodes)
    (op : Args (ms.map V) → V m) : s.Fits m (.ofNodes s.values op nodes) (operand ms 0) [] where
  later := later
  coherent := Tree.coherent_ofNodes op (wired.coherent_nodes held)
  fresh := Forest.Fresh.eval (wired.fresh_nodes distinct held)
  leaves := fun x q => by
    change (x, q) ∈ (nodes.eval s.values).leaves 0 ↔ _
    rw [nodes.leaves_eval s.values, mem_leaves_nodes_iff distinct held]
    simp
  alive := nofun
  held := fun k w => roots_of_operand held

/-- A node is the same under an equal type. -/
theorem cast_node_iff (P : ∀ {α : Type}, Node V α → Prop) {α β : Type} (same : α = β)
    (node : Node V α) : P (same ▸ node : Node V β) ↔ P node := by
  subst same
  rfl

theorem Wired.fits_itself (wired : s.Wired) (later : s.next ≤ x) (same : V m = V x)
    {node : Node V (V m)} (has : s.roots m = some ⟨node, none⟩) :
    s.Fits x (same ▸ node) (itself m) [] where
  later := later
  coherent := (cast_node_iff Tree.Coherent same node).mpr (wired.coherent m _ has)
  fresh := by
    rw [cast_node_iff (fun n => n.Fresh s.values _) same node]
    exact (wired.fresh m _ has).mono fun p pending => ⟨m, [], p, if_pos rfl, rfl, pending⟩
  leaves := fun y q => by
    rw [cast_node_iff (fun n => (y, q) ∈ n.leaves) same node]
    constructor
    · intro occurs
      exact Or.inr ⟨m, [], q, _, if_pos rfl, rfl, has, occurs⟩
    · rintro (⟨member, -⟩ | ⟨k, w, p, root, found, rfl, has', occurs⟩)
      · exact absurd member List.not_mem_nil
      · by_cases is : k = m
        · subst is
          rw [has, Option.some_inj] at has'
          rw [itself, if_pos rfl, Option.some_inj] at found
          subst has' found
          exact occurs
        · rw [itself, if_neg is] at found
          cases found
  alive := nofun
  held := fun k w found => by
    by_cases is : k = m
    · subst is
      exact ⟨node, has⟩
    · rw [itself, if_neg is] at found
      cases found

/-! ## The parts of a destruction -/

theorem notifyDestroyed_roots_iff {root' : Root V υ (V m)} :
    (s.notifyDestroyed x).roots m = some root' ↔
      ∃ root, s.roots m = some root ∧ { root with node := root.node.destroyed x } = root' :=
  Option.map_eq_some_iff

/-- No node reads the value any more. -/
theorem Wired.notifyDestroyed (wired : s.Wired) (x : ℕ) : (s.notifyDestroyed x).Wired where
  coherent := fun m root' has' => by
    obtain ⟨root, has, rfl⟩ := notifyDestroyed_roots_iff.mp has'
    exact (wired.coherent m root has).destroyed
  fresh := fun m root' has' => by
    obtain ⟨root, has, rfl⟩ := notifyDestroyed_roots_iff.mp has'
    exact (wired.fresh m root has).destroyed
  subscribed := fun y m p => by
    change (m, p) ∈ Function.update s.observers x [] y ↔ _
    constructor
    · intro member
      by_cases same : y = x
      · subst same
        rw [Function.update_self] at member
        exact absurd member List.not_mem_nil
      · rw [Function.update_of_ne same] at member
        obtain ⟨root, has, occurs⟩ := (wired.subscribed y m p).mp member
        refine ⟨_, notifyDestroyed_roots_iff.mpr ⟨root, has, rfl⟩, ?_⟩
        rw [root.node.leaves_destroyed x, List.mem_filter]
        exact ⟨occurs, decide_eq_true same⟩
    · rintro ⟨root', has', occurs⟩
      obtain ⟨root, has, rfl⟩ := notifyDestroyed_roots_iff.mp has'
      rw [root.node.leaves_destroyed x, List.mem_filter, decide_eq_true_eq] at occurs
      rw [Function.update_of_ne occurs.2]
      exact (wired.subscribed y m p).mpr ⟨root, has, occurs.1⟩
  earlier := fun m root' has' l occurs => by
    obtain ⟨root, has, rfl⟩ := notifyDestroyed_roots_iff.mp has'
    rw [root.node.leaves_destroyed x] at occurs
    exact wired.earlier m root has l (List.mem_filter.mp occurs).1
  owned := fun m root' has' => by
    obtain ⟨root, has, rfl⟩ := notifyDestroyed_roots_iff.mp has'
    exact wired.owned m root has
  made := wired.made
  built := fun m root' has' => by
    obtain ⟨root, has, -⟩ := notifyDestroyed_roots_iff.mp has'
    exact wired.built m root has
  called := fun task member m about => by
    obtain ⟨root, has⟩ := wired.called task member m about
    exact ⟨_, notifyDestroyed_roots_iff.mpr ⟨root, has, rfl⟩⟩
  turns := wired.turns
  manual := fun u m => by
    refine (wired.manual u m).trans ⟨?_, ?_⟩
    · rintro ⟨root, has, mode⟩
      exact ⟨_, notifyDestroyed_roots_iff.mpr ⟨root, has, rfl⟩, mode⟩
    · rintro ⟨root', has', mode⟩
      obtain ⟨root, has, rfl⟩ := notifyDestroyed_roots_iff.mp has'
      exact ⟨root, has, mode⟩
  sorted := wired.sorted

theorem discard_roots_iff {root : Root V υ (V k)} :
    (s.discard m).roots k = some root ↔ k ≠ m ∧ s.roots k = some root := by
  change Function.update s.roots m none k = some root ↔ _
  by_cases same : k = m
  · subst same
    simp
  · rw [Function.update_of_ne same]
    simp [same]

/-- Nothing is called that has gone. -/
theorem Wired.discard (wired : s.Wired) (m : ℕ) : (s.discard m).Wired where
  coherent := fun k root has => wired.coherent k root (discard_roots_iff.mp has).2
  fresh := fun k root has => by
    obtain ⟨differs, has⟩ := discard_roots_iff.mp has
    refine (wired.fresh k root has).mono fun p pending => List.mem_filter.mpr ⟨pending, ?_⟩
    exact decide_eq_true fun same => differs (Option.some.inj same)
  subscribed := fun x k p => by
    change (k, p) ∈ (s.observers x).filter (fun o => o.1 ≠ m) ↔ _
    simp only [discard_roots_iff, List.mem_filter, decide_eq_true_eq, wired.subscribed x k p]
    constructor
    · rintro ⟨⟨root, has, occurs⟩, differs⟩
      exact ⟨root, ⟨differs, has⟩, occurs⟩
    · rintro ⟨root, ⟨differs, has⟩, occurs⟩
      exact ⟨⟨root, has, occurs⟩, differs⟩
  earlier := fun k root has => wired.earlier k root (discard_roots_iff.mp has).2
  owned := fun k root has => wired.owned k root (discard_roots_iff.mp has).2
  made := wired.made
  built := fun k root has => wired.built k root (discard_roots_iff.mp has).2
  called := fun task member k about => by
    obtain ⟨member, differs⟩ := List.mem_filter.mp member
    obtain ⟨root, has⟩ := wired.called task member k about
    refine ⟨root, discard_roots_iff.mpr ⟨fun same => ?_, has⟩⟩
    exact of_decide_eq_true differs (same ▸ about)
  turns := fun x turn => wired.turns x (List.mem_filter.mp turn).1
  manual := fun u k => by
    change k ∈ (s.funs u).filter (fun y => y ≠ m) ↔ _
    simp only [discard_roots_iff, List.mem_filter, decide_eq_true_eq, wired.manual u k]
    constructor
    · rintro ⟨⟨root, has, mode⟩, differs⟩
      exact ⟨root, ⟨differs, has⟩, mode⟩
    · rintro ⟨root, ⟨differs, has⟩, mode⟩
      exact ⟨⟨root, has, mode⟩, differs⟩
  sorted := fun u => (wired.sorted u).filter _

/-- A value that nothing reads and that owns nothing can go. -/
theorem Wired.dead (wired : s.Wired) (rootless : s.roots x = none)
    (unread : ∀ m root, s.roots m = some root → ∀ l ∈ root.node.leaves, l.1 ≠ x) :
    Wired { s with alive := Function.update s.alive x false } := by
  have rooted : ∀ {k : ℕ} {root : Root V υ (V k)}, s.roots k = some root → k ≠ x := by
    rintro k root has rfl
    rw [rootless] at has
    cases has
  exact {
    wired with
    earlier := fun k root has l occurs => by
      obtain ⟨before, isAlive⟩ := wired.earlier k root has l occurs
      exact ⟨before, (Function.update_of_ne (unread k root has l occurs) ..).trans isAlive⟩
    owned := fun k root has =>
      (Function.update_of_ne (rooted has) ..).trans (wired.owned k root has)
    made := fun y isAlive => by
      change Function.update s.alive x false y = true at isAlive
      by_cases same : y = x
      · subst same
        rw [Function.update_self] at isAlive
        cases isAlive
      · rw [Function.update_of_ne same] at isAlive
        exact wired.made y isAlive
    turns := fun y turn => by
      obtain ⟨root, has⟩ := wired.called _ turn y rfl
      exact (Function.update_of_ne (rooted has) ..).trans (wired.turns y turn) }

/-- **What a destroyed value leaves behind is wired up as before.** -/
theorem Wired.destroy (wired : s.Wired) (x : ℕ) : (s.destroy x).Wired := by
  refine Wired.dead ((wired.notifyDestroyed x).discard x) (Function.update_self ..) ?_
  intro m root' has' l occurs
  obtain ⟨root, has, rfl⟩ := notifyDestroyed_roots_iff.mp (discard_roots_iff.mp has').2
  rw [root.node.leaves_destroyed x, List.mem_filter, decide_eq_true_eq] at occurs
  exact occurs.2

end Sheet

end RadarDemo.Expr
