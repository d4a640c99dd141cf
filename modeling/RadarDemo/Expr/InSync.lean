import RadarDemo.Expr.Wired

/-!
# Observed values are in sync

A value that an immediate expression updates shows what the expression stands for,
as soon as all notifications for it have been delivered.  The program may set other
values from inside its observers, build and observe expressions there, and destroy
values that are not being set; in which order the observers are called does not matter.

There is one exception.  `observe` takes a node as it has been built, and asks it for
its result without an evaluation.  If a value has changed in between, the value that is
made of the node starts with the old result, and keeps it until one of its nodes is
notified.

* `Sheet.Sound` — the nodes are wired up, and a value shows the last result of its
  expression.
* `immediate_inSync` — in every reachable state an immediate value without pending
  notifications is in sync, unless it has been made of a node that was out of date and
  has not been notified since.
-/

namespace RadarDemo.Expr

open Concurrency TransitionSystem

variable {V : ℕ → Type} {υ : Type}

/-- The value that a task is about, where its observers come after it. -/
def Task.rank : Task υ → ℕ
  | .notify m _ => m
  | .returns x => x + 1
  | .eval x => x
  | .unlock _ => 0

namespace Sheet

/-- The same values are subscribed to each other, and those before `b` are as they
were. -/
structure Same (b : ℕ) (s s' : Sheet V υ) : Prop where
  next : s'.next = s.next
  alive : s'.alive = s.alive
  observers : s'.observers = s.observers
  funs : s'.funs = s.funs
  values : ∀ y < b, s'.values y = s.values y
  roots : ∀ y < b, s'.roots y = s.roots y

variable (equal : ∀ x, V x → V x → Bool)

/-- What a value stores passes for what it was set to. -/
def Shows (x : ℕ) (stored result : V x) : Prop := equal x stored result = true ∨ stored = result

/-- A value shows what its expression stands for. -/
def InSync (s : Sheet V υ) (x : ℕ) : Prop :=
  ∀ root, s.roots x = some root → Shows equal x (s.values x) (root.node.meaning s.values)

/-- The expression of a value, if it has one, has been evaluated since its last change. -/
def Settled (s : Sheet V υ) (x : ℕ) : Prop :=
  ∀ root, s.roots x = some root → root.node.dirty = false

/-- What holds in every reachable state. -/
structure Sound (s : Sheet V υ) : Prop where
  wired : s.Wired
  shows : ∀ x root, s.roots x = some root → root.mode ≠ none →
    Shows equal x (s.values x) root.node.result

/-- A task of rank `b` has been done, and what it calls is next. -/
structure Worked (b : ℕ) (s s' : Sheet V υ) (rest : List (Task υ)) : Prop where
  sound : s'.Sound equal
  same : Same b s s'
  calls : ∃ new, s'.agenda = new ++ rest ∧ ∀ t ∈ new, b < t.rank ∧ t.rank ≤ s.next

variable {equal} {s : Sheet V υ} {x y m : ℕ} {root : Root V υ (V m)}

/-- **A settled value without pending notifications is in sync.** -/
theorem Sound.inSync (sound : s.Sound equal) (isAlive : s.alive x = true)
    (settled : s.Settled x) (idle : ∀ p, .notify x p ∉ s.agenda) : s.InSync equal x := by
  intro root has
  have owned : root.mode ≠ none := by
    intro unknown
    have owned := sound.wired.owned x root has
    rw [isAlive, unknown] at owned
    cases owned
  have fresh : root.node.Fresh s.values fun _ => False :=
    (sound.wired.fresh x root has).mono fun p pending => idle p pending
  have shows := sound.shows x root has owned
  rwa [Tree.result_of_clean (sound.wired.coherent x root has) fresh (settled root has)] at shows

/-! ## A change of a value -/

/-- A value shows what it has been set to. -/
theorem shows_setImpl (newValue : V x) :
    Shows equal x ((s.setImpl equal x newValue).values x) newValue := by
  unfold Sheet.setImpl
  split
  · exact Or.inl ‹_›
  · exact Or.inr (Function.update_self ..)

@[simp] theorem setImpl_roots (newValue : V x) :
    (s.setImpl equal x newValue).roots = s.roots := by
  unfold Sheet.setImpl
  split <;> rfl

theorem setImpl_values_of_ne (differs : y ≠ x) (newValue : V x) :
    (s.setImpl equal x newValue).values y = s.values y := by
  unfold Sheet.setImpl
  split
  · rfl
  · exact Function.update_of_ne differs newValue s.values

/-- The expression of the value, if it has one, has the result that the value is set to. -/
theorem Wired.sound_setImpl (wired : s.Wired) {newValue : V x}
    (here : ∀ root, s.roots x = some root → root.node.result = newValue)
    (others : ∀ y root, y ≠ x → s.roots y = some root → root.mode ≠ none →
      Shows equal y (s.values y) root.node.result) : (s.setImpl equal x newValue).Sound equal where
  wired := wired.setImpl newValue
  shows := fun y root has owned => by
    rw [setImpl_roots] at has
    by_cases same : y = x
    · subst same
      rw [here root has]
      exact shows_setImpl newValue
    · rw [setImpl_values_of_ne same]
      exact others y root same has owned

/-! ## The next task -/

theorem Same.refl (b : ℕ) (s : Sheet V υ) : Same b s s :=
  ⟨rfl, rfl, rfl, rfl, fun _ _ => rfl, fun _ _ => rfl⟩

theorem Same.trans {b : ℕ} {s t u : Sheet V υ} (first : Same b s t) (second : Same b t u) :
    Same b s u where
  next := second.next.trans first.next
  alive := second.alive.trans first.alive
  observers := second.observers.trans first.observers
  funs := second.funs.trans first.funs
  values := fun y before => (second.values y before).trans (first.values y before)
  roots := fun y before => (second.roots y before).trans (first.roots y before)

theorem Same.mono {a b : ℕ} {s t : Sheet V υ} (le : a ≤ b) (same : Same b s t) : Same a s t where
  next := same.next
  alive := same.alive
  observers := same.observers
  funs := same.funs
  values := fun y before => same.values y (before.trans_le le)
  roots := fun y before => same.roots y (before.trans_le le)

/-- What is before the value stays. -/
theorem Settled.of_same {b : ℕ} {t : Sheet V υ} (settled : s.Settled y) (before : y < b)
    (same : Same b s t) : t.Settled y :=
  fun root has => settled root (same.roots y before ▸ has)

theorem same_agenda (b : ℕ) (s : Sheet V υ) (agenda : List (Task υ)) :
    Same b s { s with agenda := agenda } :=
  ⟨rfl, rfl, rfl, rfl, fun _ _ => rfl, fun _ _ => rfl⟩

theorem same_setNode (s : Sheet V υ) (root : Root V υ (V m)) (node : Node V (V m)) :
    Same m s (s.setNode m root node) :=
  ⟨rfl, rfl, rfl, rfl, fun _ _ => rfl, fun _ before => Function.update_of_ne before.ne ..⟩

theorem same_setImpl (newValue : V x) : Same x s (s.setImpl equal x newValue) := by
  unfold Sheet.setImpl
  split
  · exact Same.refl x s
  · exact ⟨rfl, rfl, rfl, rfl, fun _ before => Function.update_of_ne before.ne .., fun _ _ => rfl⟩

/-- A change calls observers of the value, which come later, and returns. -/
theorem Wired.exists_agenda_setImpl (wired : s.Wired) (equal : ∀ x, V x → V x → Bool)
    (made : x < s.next) (newValue : V x) :
    ∃ new, (s.setImpl equal x newValue).agenda = new ++ s.agenda ∧
      ∀ t ∈ new, x < t.rank ∧ t.rank ≤ s.next := by
  unfold Sheet.setImpl
  split
  · exact ⟨[], rfl, fun t member => absurd member List.not_mem_nil⟩
  · refine ⟨(s.observers x).map call ++ [.returns x], by simp, fun t member => ?_⟩
    rcases List.mem_append.mp member with observes | last
    · obtain ⟨o, subscribed, rfl⟩ := List.mem_map.mp observes
      obtain ⟨root, has, occurs⟩ := (wired.subscribed x o.1 o.2).mp subscribed
      exact ⟨(wired.earlier o.1 root has _ occurs).1, (wired.built o.1 root has).le⟩
    · rw [List.mem_singleton.mp last]
      exact ⟨Nat.lt_succ_self x, made⟩

section Task

variable {task : Task υ} {rest : List (Task υ)}

/-- The calls to other nodes are still to be made. -/
theorem notify_mem_rest {k : ℕ} {p : Path} (is : s.agenda = task :: rest)
    (about : task.about = some m) (differs : k ≠ m) (member : .notify k p ∈ s.agenda) :
    .notify k p ∈ rest := by
  rw [is] at member
  rcases List.mem_cons.mp member with rfl | later
  · exact absurd (Option.some.inj about) differs
  · exact later

/-- Other nodes keep their results. -/
theorem Sound.shows_setNode (sound : s.Sound equal) {node : Node V (V m)} (differs : y ≠ m)
    {root' : Root V υ (V y)} (has : (s.setNode m root node).roots y = some root')
    (owned : root'.mode ≠ none) : Shows equal y (s.values y) root'.node.result := by
  change Function.update s.roots m _ y = some root' at has
  rw [Function.update_of_ne differs] at has
  exact sound.shows y root' has owned

/-- **An expression is evaluated**, after some of its nodes have been notified. -/
theorem Sound.eval {root : Root V υ (V x)} {node : Node V (V x)} (sound : s.Sound equal)
    (is : s.agenda = task :: rest) (about : task.about = some x) (has : s.roots x = some root)
    (shape : node.shape = root.node.shape) (coherent : node.Coherent)
    (fresh : node.Fresh s.values fun p => .notify x p ∈ rest) :
    Worked equal x s
        (({ s with agenda := rest } : Sheet V υ).eval equal x { root with node := node }) rest ∧
      (({ s with agenda := rest } : Sheet V υ).eval equal x { root with node := node }).Settled
        x := by
  have wired := sound.wired.setNode has ((node.shape_eval s.values).trans shape) coherent.eval
    fresh.eval (fun k p => notify_mem_rest is about) (is ▸ List.subset_cons_self task rest)
  have here : ∀ root', ({ s with agenda := rest }.setNode x root (node.eval s.values)).roots x =
      some root' → root'.node = node.eval s.values := by
    intro root' has'
    change Function.update s.roots x _ x = some root' at has'
    rw [Function.update_self, Option.some_inj] at has'
    exact has' ▸ rfl
  refine ⟨⟨?_, ?_, ?_⟩, fun root' has' => ?_⟩
  · exact wired.sound_setImpl (fun root' has' => congrArg Tree.result (here root' has'))
      fun y root' differs has' owned => sound.shows_setNode differs has' owned
  · exact ((same_agenda x s rest).trans (same_setNode ..)).trans (same_setImpl _)
  · exact wired.exists_agenda_setImpl equal (sound.wired.built x root has) _
  · rw [Sheet.eval, setImpl_roots] at has'
    rw [here root' has']
    exact node.dirty_eval

/-- **A node is notified.** -/
theorem Sound.notify {p : Path} (sound : s.Sound equal) (is : s.agenda = .notify m p :: rest)
    (has : s.roots m = some root) :
    Worked equal m s (({ s with agenda := rest } : Sheet V υ).notify equal m p root) rest := by
  have shape := root.node.shape_markDirty p
  have coherent := (sound.wired.coherent m root has).markDirty (p := p)
  have fresh : (root.node.markDirty p).Fresh s.values fun q => .notify m q ∈ rest := by
    refine (sound.wired.fresh m root has).markDirty.mono fun q ⟨pending, differs⟩ => ?_
    rw [is] at pending
    refine (List.mem_cons.mp pending).resolve_left fun same => ?_
    cases same
    exact differs rfl
  -- Without an immediate evaluation the flags are all that changes.
  have marked : Worked equal m s ({ s with agenda := rest }.setNode m root (root.node.markDirty p))
      rest := by
    refine ⟨⟨?_, fun y root' has' owned => ?_⟩, (same_agenda m s rest).trans (same_setNode ..),
      [], rfl, fun t member => absurd member List.not_mem_nil⟩
    · exact sound.wired.setNode has shape coherent fresh (fun k q => notify_mem_rest is rfl)
        (is ▸ List.subset_cons_self _ rest)
    · by_cases same : y = m
      · subst same
        change Function.update s.roots y _ y = some root' at has'
        rw [Function.update_self, Option.some_inj] at has'
        subst has'
        have shows := sound.shows y root has owned
        rwa [← root.node.result_markDirty p] at shows
      · exact sound.shows_setNode same has' owned
  unfold Sheet.notify
  split
  · exact (sound.eval is rfl has shape coherent fresh).1
  · exact marked

/-- A task that leaves the nodes alone. -/
theorem Sound.skip (sound : s.Sound equal) (is : s.agenda = task :: rest)
    (about : task.about = none) : Worked equal task.rank s { s with agenda := rest } rest := by
  have part : rest ⊆ s.agenda := is ▸ List.subset_cons_self task rest
  refine ⟨⟨sound.wired.of_agenda (fun k p pending => ?_) (fun t member => ?_) fun x turn => ?_,
    sound.shows⟩, same_agenda _ s rest, [], rfl, fun t member => absurd member List.not_mem_nil⟩
  · rw [is] at pending
    refine (List.mem_cons.mp pending).resolve_left fun same => ?_
    rw [← same] at about
    cases about
  · exact sound.wired.called t (part member)
  · exact sound.wired.turns x (part turn)

/-- **The next task can be done**, and calls observers of its value at most. -/
theorem Sound.pop (sound : s.Sound equal) (is : s.agenda = task :: rest) :
    ∃ s', s.run equal = some s' ∧ Worked equal task.rank s s' rest ∧
      ∀ x, task = .eval x → s'.Settled x := by
  cases task with
  | notify m p =>
      obtain ⟨root, has⟩ := sound.wired.called (.notify m p) (is ▸ List.mem_cons_self) m rfl
      refine ⟨Sheet.notify equal { s with agenda := rest } m p root, ?_, sound.notify is has, nofun⟩
      simp only [run, is, has, Option.map_some]
  | returns x => exact ⟨_, by simp only [run, is], sound.skip is rfl, nofun⟩
  | eval x =>
      obtain ⟨root, has⟩ := sound.wired.called (.eval x) (is ▸ List.mem_cons_self) x rfl
      have fresh : root.node.Fresh s.values fun p => .notify x p ∈ rest := by
        refine (sound.wired.fresh x root has).mono fun p pending => ?_
        rw [is] at pending
        exact (List.mem_cons.mp pending).resolve_left nofun
      obtain ⟨worked, settled⟩ :=
        sound.eval is rfl has rfl (sound.wired.coherent x root has) fresh
      refine ⟨Sheet.eval equal { s with agenda := rest } x root, ?_, worked, fun y this => ?_⟩
      · simp only [run, is, has, Option.map_some]
      · cases this
        exact settled
  | unlock u => exact ⟨_, by simp only [run, is], sound.skip is rfl, nofun⟩

end Task

/-! ## The actions of the program -/

theorem Sound.value (sound : s.Sound equal) (later : s.next ≤ x) (initial : V x) :
    Sound equal { s with
      next := x + 1,
      alive := Function.update s.alive x true,
      values := Function.update s.values x initial } where
  wired := sound.wired.value later initial
  shows := fun y root has owned => by
    change Shows equal y (Function.update s.values x initial y) _
    rw [Function.update_of_ne ((sound.wired.built y root has).trans_le later).ne]
    exact sound.shows y root has owned

theorem Sound.set (sound : s.Sound equal) (plain : s.roots x = none) (newValue : V x) :
    (s.setImpl equal x newValue).Sound equal :=
  sound.wired.sound_setImpl (fun root has => absurd has (by simp [plain]))
    fun y root _ => sound.shows y root

/-- The program evaluates a node that it holds. -/
theorem Sound.evalNode {node : Node V (V m)} (sound : s.Sound equal)
    (has : s.roots m = some ⟨node, none⟩) :
    (s.setNode m ⟨node, none⟩ (node.eval s.values)).Sound equal where
  wired := sound.wired.setNode has (node.shape_eval s.values) (sound.wired.coherent m _ has).eval
    (sound.wired.fresh m _ has).eval (fun _ _ _ => id) (List.Subset.refl s.agenda)
  shows := fun y root' has' owned => by
    by_cases same : y = m
    · subst same
      change Function.update s.roots y _ y = some root' at has'
      rw [Function.update_self, Option.some_inj] at has'
      subst has'
      exact absurd rfl owned
    · exact sound.shows_setNode same has' owned

theorem Sound.discard (sound : s.Sound equal) (m : ℕ) : (s.discard m).Sound equal where
  wired := sound.wired.discard m
  shows := fun y root has => sound.shows y root (discard_roots_iff.mp has).2

theorem Sound.destroy (sound : s.Sound equal) (x : ℕ) : (s.destroy x).Sound equal where
  wired := sound.wired.destroy x
  shows := fun y root' has' owned => by
    obtain ⟨root, has, rfl⟩ := notifyDestroyed_roots_iff.mp (discard_roots_iff.mp has').2
    rw [root.node.result_destroyed x]
    exact sound.shows y root has owned

theorem Sound.update (sound : s.Sound equal) (u : υ) :
    Sound equal { s with agenda := (s.funs u).map Task.eval ++ .unlock u :: s.agenda } := by
  refine ⟨sound.wired.of_agenda (fun m p pending => ?_) (fun task member m about => ?_)
    fun x turn => ?_, sound.shows⟩
  · exact List.mem_append_right _ (List.mem_cons_of_mem _ pending)
  · rcases List.mem_append.mp member with new | old
    · obtain ⟨y, known, rfl⟩ := List.mem_map.mp new
      obtain ⟨root, has, -⟩ := (sound.wired.manual u y).mp known
      cases about
      exact ⟨root, has⟩
    · rcases List.mem_cons.mp old with rfl | old
      · cases about
      · exact sound.wired.called task old m about
  · rcases List.mem_append.mp turn with new | old
    · obtain ⟨y, known, is⟩ := List.mem_map.mp new
      cases is
      obtain ⟨root, has, mode⟩ := (sound.wired.manual u x).mp known
      exact sound.wired.isAlive has mode
    · exact sound.wired.turns x ((List.mem_cons.mp old).resolve_left nofun)

variable [DecidableEq υ] {way : ℕ → Option Path} {subs : List ℕ}

/-- What the other values show is left alone by a new root. -/
theorem Sound.shows_newRoot (sound : s.Sound equal) (differs : y ≠ m) {root' : Root V υ (V y)}
    (has : (s.newRoot m root way subs).roots y = some root') (owned : root'.mode ≠ none) :
    Shows equal y (s.values y) root'.node.result := by
  rw [newRoot_roots, Function.update_of_ne differs] at has
  cases found : way y with
  | some w => simp [found] at has
  | none => exact sound.shows y root' (by simpa [found] using has) owned

/-- A new node, which the program holds. -/
theorem Sound.newNode {node : Node V (V m)} (sound : s.Sound equal)
    (fits : s.Fits m node way subs) : (s.newRoot m ⟨node, none⟩ way subs).Sound equal where
  wired := sound.wired.newRoot fits
  shows := fun y root' has owned => by
    by_cases same : y = m
    · subst same
      rw [newRoot_roots, Function.update_self, Option.some_inj] at has
      subst has
      exact absurd rfl owned
    · exact sound.shows_newRoot same has owned

theorem Sound.observe {node : Node V (V x)} (sound : s.Sound equal) (mode : Mode υ)
    (fits : s.Fits x node (itself m) []) : (s.observe equal x mode m node).Sound equal := by
  refine (sound.wired.newRoot fits).sound_setImpl (fun root has => ?_)
    fun y root' differs has owned => sound.shows_newRoot differs has owned
  rw [newRoot_roots, Function.update_self, Option.some_inj] at has
  exact has ▸ rfl

/-- **Every action keeps the nodes wired up, and the values showing their results.** -/
theorem Sound.step (sound : s.Sound equal) {a : Action V υ} {s' : Sheet V υ}
    (stepped : s.step equal a = some s') : s'.Sound equal := by
  cases a with
  | value x initial =>
      simp only [Sheet.step, Option.ite_none_right_eq_some, Option.some_inj] at stepped
      obtain ⟨later, rfl⟩ := stepped
      exact sound.value later initial
  | constant m result =>
      simp only [Sheet.step, Option.ite_none_right_eq_some, Option.some_inj] at stepped
      obtain ⟨later, rfl⟩ := stepped
      exact sound.newNode (fits_constant later result)
  | valueNode m x convert =>
      simp only [Sheet.step, Option.ite_none_right_eq_some, Option.some_inj] at stepped
      obtain ⟨⟨later, isAlive⟩, rfl⟩ := stepped
      exact sound.newNode (fits_ofValue later isAlive convert)
  | naryNode m ms op =>
      simp only [Sheet.step, Option.ite_none_right_eq_some, Option.map_eq_some_iff] at stepped
      obtain ⟨⟨later, distinct⟩, nodes, held, rfl⟩ := stepped
      exact sound.newNode (sound.wired.fits_ofNodes later distinct held op)
  | evalNode m =>
      simp only [Sheet.step, Option.map_eq_some_iff, node_eq_some_iff] at stepped
      obtain ⟨node, has, rfl⟩ := stepped
      exact sound.evalNode has
  | dropNode m =>
      simp only [Sheet.step, Option.map_eq_some_iff] at stepped
      obtain ⟨-, -, rfl⟩ := stepped
      exact sound.discard m
  | observe x mode m same =>
      simp only [Sheet.step, Option.ite_none_right_eq_some, Option.map_eq_some_iff,
        node_eq_some_iff] at stepped
      obtain ⟨⟨later, -⟩, node, has, rfl⟩ := stepped
      exact sound.observe mode (sound.wired.fits_itself later same has)
  | set x newValue =>
      simp only [Sheet.step, Option.ite_none_right_eq_some] at stepped
      obtain ⟨-, stepped⟩ := stepped
      cases has : s.roots x with
      | some root =>
          simp only [has, Option.some_inj] at stepped
          exact stepped ▸ sound
      | none =>
          simp only [has, Option.some_inj] at stepped
          exact stepped ▸ sound.set has newValue
  | destroy x =>
      simp only [Sheet.step, Option.ite_none_right_eq_some, Option.some_inj] at stepped
      obtain ⟨-, rfl⟩ := stepped
      exact sound.destroy x
  | update u =>
      simp only [Sheet.step, Option.ite_none_right_eq_some, Option.some_inj] at stepped
      obtain ⟨-, rfl⟩ := stepped
      exact sound.update u
  | run =>
      change s.run equal = some s' at stepped
      cases is : s.agenda with
      | nil => simp only [run, is, reduceCtorEq] at stepped
      | cons task rest =>
          obtain ⟨t, ran, worked, -⟩ := sound.pop is
          rw [stepped, Option.some_inj] at ran
          exact ran ▸ worked.sound

end Sheet

open Sheet

variable (equal : ∀ x, V x → V x → Bool) (indeterminate : ∀ x, V x) [DecidableEq υ]

theorem sound_init :
    Sound equal (sheet equal indeterminate : TransitionSystem (Sheet V υ) (Action V υ)).init where
  wired :=
    { coherent := nofun
      fresh := nofun
      subscribed := fun x m p => by simp [sheet]
      earlier := nofun
      owned := nofun
      made := nofun
      built := nofun
      called := nofun
      turns := nofun
      manual := fun u x => by simp [sheet]
      sorted := fun u => List.Pairwise.nil }
  shows := nofun

variable {equal indeterminate}

theorem sound_of_reachable {s : Sheet V υ} (reached : (sheet equal indeterminate).Reachable s) :
    s.Sound equal :=
  reached.invariant (sound_init equal indeterminate) fun sound stepped => sound.step stepped

/-! ## Values made of nodes that were out of date -/

namespace Sheet

omit [DecidableEq υ]

/-- The step notifies a node below root `m`. -/
def Notifies (s : Sheet V υ) (a : Action V υ) (m : ℕ) : Prop :=
  ∃ p rest, a = .run ∧ s.agenda = .notify m p :: rest

/-- An immediate expression that has not been evaluated since its last change. -/
def Late (s : Sheet V υ) (x : ℕ) : Prop :=
  ∃ root, s.roots x = some root ∧ root.mode = some .immediate ∧ root.node.dirty = true

variable {s s' : Sheet V υ} {x m : ℕ} {root : Root V υ (V m)}

theorem Late.of_roots_eq (late : s'.Late x) (same : s'.roots x = s.roots x) : s.Late x := by
  obtain ⟨root, has, late⟩ := late
  exact ⟨root, same ▸ has, late⟩

theorem eval_roots_of_ne {y : ℕ} (differs : y ≠ m) :
    (s.eval equal m root).roots y = s.roots y := by
  rw [Sheet.eval, setImpl_roots]
  exact Function.update_of_ne differs ..

theorem notify_roots_of_ne {y : ℕ} {p : Path} (differs : y ≠ m) :
    (s.notify equal m p root).roots y = s.roots y := by
  unfold Sheet.notify
  split
  · exact eval_roots_of_ne differs
  · exact Function.update_of_ne differs ..

/-- An evaluation takes the flag away. -/
theorem not_late_eval : ¬ (s.eval equal m root).Late m := by
  rintro ⟨root', has, -, dirty⟩
  rw [Sheet.eval, setImpl_roots] at has
  change Function.update s.roots m _ m = some root' at has
  rw [Function.update_self, Option.some_inj] at has
  subst has
  rw [root.node.dirty_eval] at dirty
  cases dirty

theorem not_late_notify {p : Path} : ¬ (s.notify equal m p root).Late m := by
  unfold Sheet.notify
  split
  · exact not_late_eval
  · rename_i differs
    rintro ⟨root', has, immediate, -⟩
    change Function.update s.roots m _ m = some root' at has
    rw [Function.update_self, Option.some_inj] at has
    subst has
    exact differs immediate

/-- A task leaves an expression late that it does not notify. -/
theorem Late.of_run (late : s'.Late x) (ran : s.run equal = some s') :
    s.Late x ∧ ∀ p rest, s.agenda ≠ .notify x p :: rest := by
  cases is : s.agenda with
  | nil => simp [run, is] at ran
  | cons task rest =>
      cases task with
      | notify m p =>
          simp only [run, is, Option.map_eq_some_iff] at ran
          obtain ⟨root, -, rfl⟩ := ran
          have differs : x ≠ m := fun same => not_late_notify (same ▸ late)
          refine ⟨late.of_roots_eq (notify_roots_of_ne differs), fun q rest' this => ?_⟩
          cases this
          exact differs rfl
      | returns y =>
          simp only [run, is, Option.some_inj] at ran
          exact ⟨late.of_roots_eq (by rw [← ran]), nofun⟩
      | eval y =>
          simp only [run, is, Option.map_eq_some_iff] at ran
          obtain ⟨root, -, rfl⟩ := ran
          have differs : x ≠ y := fun same => not_late_eval (same ▸ late)
          exact ⟨late.of_roots_eq (eval_roots_of_ne differs), nofun⟩
      | unlock u =>
          simp only [run, is, Option.some_inj] at ran
          exact ⟨late.of_roots_eq (by rw [← ran]), nofun⟩

variable [DecidableEq υ]

theorem Late.of_newRoot {way : ℕ → Option Path} {subs : List ℕ} (differs : x ≠ m)
    (late : (s.newRoot m root way subs).Late x) : s.Late x := by
  obtain ⟨root', has, late⟩ := late
  rw [newRoot_roots, Function.update_of_ne differs] at has
  cases found : way x with
  | some w => simp [found] at has
  | none => exact ⟨root', by simpa [found] using has, late⟩

/-- A node that the program holds has no evaluator. -/
theorem Late.of_newNode {node : Node V (V m)} {way : ℕ → Option Path} {subs : List ℕ}
    (late : (s.newRoot m ⟨node, none⟩ way subs).Late x) : s.Late x := by
  refine late.of_newRoot ?_
  rintro rfl
  obtain ⟨root, has, immediate, -⟩ := late
  rw [newRoot_roots, Function.update_self, Option.some_inj] at has
  subst has
  cases immediate

/-- An expression is late because it has been made of a node with the flag, or it has been
late before and none of its nodes is notified. -/
theorem Late.traced {a : Action V υ} (late : s'.Late x) (stepped : s.step equal a = some s') :
    (∃ m same node, a = .observe x .immediate m same ∧ s.roots m = some ⟨node, none⟩ ∧
      node.dirty = true) ∨ s.Late x ∧ ¬ s.Notifies a x := by
  cases a with
  | value y initial =>
      simp only [Sheet.step, Option.ite_none_right_eq_some, Option.some_inj] at stepped
      obtain ⟨-, rfl⟩ := stepped
      exact Or.inr ⟨late, nofun⟩
  | constant m result =>
      simp only [Sheet.step, Option.ite_none_right_eq_some, Option.some_inj] at stepped
      obtain ⟨-, rfl⟩ := stepped
      exact Or.inr ⟨late.of_newNode, nofun⟩
  | valueNode m y convert =>
      simp only [Sheet.step, Option.ite_none_right_eq_some, Option.some_inj] at stepped
      obtain ⟨-, rfl⟩ := stepped
      exact Or.inr ⟨late.of_newNode, nofun⟩
  | naryNode m ms op =>
      simp only [Sheet.step, Option.ite_none_right_eq_some, Option.map_eq_some_iff] at stepped
      obtain ⟨-, nodes, -, rfl⟩ := stepped
      exact Or.inr ⟨late.of_newNode, nofun⟩
  | evalNode m =>
      simp only [Sheet.step, Option.map_eq_some_iff, node_eq_some_iff] at stepped
      obtain ⟨node, has, rfl⟩ := stepped
      have differs : x ≠ m := by
        rintro rfl
        obtain ⟨root, has', immediate, -⟩ := late
        change Function.update s.roots x _ x = some root at has'
        rw [Function.update_self, Option.some_inj] at has'
        subst has'
        cases immediate
      exact Or.inr ⟨late.of_roots_eq (Function.update_of_ne differs ..), nofun⟩
  | dropNode m =>
      simp only [Sheet.step, Option.map_eq_some_iff] at stepped
      obtain ⟨-, -, rfl⟩ := stepped
      obtain ⟨root, has, late⟩ := late
      exact Or.inr ⟨⟨root, (discard_roots_iff.mp has).2, late⟩, nofun⟩
  | observe y mode m same =>
      simp only [Sheet.step, Option.ite_none_right_eq_some, Option.map_eq_some_iff,
        node_eq_some_iff] at stepped
      obtain ⟨-, node, has, rfl⟩ := stepped
      have late' : (s.newRoot y ⟨same ▸ node, some mode⟩ (itself m) []).Late x :=
        late.of_roots_eq (congrFun (setImpl_roots _) x)
      by_cases is : x = y
      · subst is
        obtain ⟨root, has', immediate, dirty⟩ := late'
        rw [newRoot_roots, Function.update_self, Option.some_inj] at has'
        subst has'
        cases immediate
        exact Or.inl ⟨m, same, node, rfl, has,
          (cast_node_iff (fun n => n.dirty = true) same node).mp dirty⟩
      · exact Or.inr ⟨late'.of_newRoot is, nofun⟩
  | set y newValue =>
      simp only [Sheet.step, Option.ite_none_right_eq_some] at stepped
      obtain ⟨-, stepped⟩ := stepped
      split at stepped <;> cases stepped
      · exact Or.inr ⟨late, nofun⟩
      · exact Or.inr ⟨late.of_roots_eq (congrFun (setImpl_roots newValue) x), nofun⟩
  | destroy y =>
      simp only [Sheet.step, Option.ite_none_right_eq_some, Option.some_inj] at stepped
      obtain ⟨-, rfl⟩ := stepped
      obtain ⟨root', has', immediate, dirty⟩ := late
      obtain ⟨root, has, rfl⟩ := notifyDestroyed_roots_iff.mp (discard_roots_iff.mp has').2
      refine Or.inr ⟨⟨root, has, immediate, ?_⟩, nofun⟩
      exact (Bool.eq_false_or_eq_true _).resolve_right fun clean =>
        absurd dirty (by simp [Tree.dirty_destroyed clean])
  | update u =>
      simp only [Sheet.step, Option.ite_none_right_eq_some, Option.some_inj] at stepped
      obtain ⟨-, rfl⟩ := stepped
      exact Or.inr ⟨late, nofun⟩
  | run =>
      obtain ⟨before, other⟩ := late.of_run stepped
      exact Or.inr ⟨before, fun ⟨p, rest, _, is⟩ => other p rest is⟩

end Sheet

variable (equal indeterminate)

/-- In the run, value `x` has been made of a node that was out of date, and none of its
nodes has been notified since. -/
def MadeLate (as : List (Action V υ)) (x : ℕ) : Prop :=
  ∃ bs m same cs t t' node, as = bs ++ .observe x .immediate m same :: cs ∧
    (sheet equal indeterminate).exec (sheet equal indeterminate).init bs = some t ∧
    t.roots m = some ⟨node, none⟩ ∧ node.dirty = true ∧
    (sheet equal indeterminate).step t (.observe x .immediate m same) = some t' ∧
    (sheet equal indeterminate).Along (fun u a _ => ¬ u.Notifies a x) t' cs

variable {equal indeterminate}

/-- **An observed value is in sync** whenever no notification for it is pending, whatever
the program has done, unless it has been made of a node that was out of date. -/
theorem immediate_inSync {as : List (Action V υ)} {s : Sheet V υ}
    (ran : (sheet equal indeterminate).exec (sheet equal indeterminate).init as = some s)
    {x : ℕ} {root : Root V υ (V x)} (has : s.roots x = some root)
    (immediate : root.mode = some .immediate) (idle : ∀ p, .notify x p ∉ s.agenda) :
    s.InSync equal x ∨ MadeLate equal indeterminate as x := by
  have sound := sound_of_reachable (reachable_of_exec ran)
  by_cases late : s.Late x
  · right
    have traced := Reachable.exists_since (I := fun s => s.Late x)
      (fun _ stepped late => late.traced stepped) .init ran late
    rcases traced with ⟨⟨root', has', -⟩, -⟩ | traced
    · cases has'
    · obtain ⟨bs, a, cs, t, t', is, ranTo, stepped, begins, kept⟩ := traced
      obtain ⟨m, same, node, rfl, held, dirty⟩ := begins
      exact ⟨bs, m, same, cs, t, t', node, is, ranTo, held, dirty, stepped, kept⟩
  · left
    refine sound.inSync (sound.wired.isAlive has immediate) (fun root' has' => ?_) idle
    rw [has, Option.some_inj] at has'
    subst has'
    exact (Bool.eq_false_or_eq_true _).resolve_left fun dirty => late ⟨root, has, immediate, dirty⟩

/-- A program over numbers that compares them with `==`. -/
def numbers : TransitionSystem (Sheet (fun _ => ℕ) Unit) (Action (fun _ => ℕ) Unit) :=
  sheet (fun _ a b => a == b) fun _ => 0

/-- `y = observe(x + 1)` and `z = observe(y + x)`; then `x` is set to 5, and its
notification has reached `z` but not `y`. -/
def sums : List (Action (fun _ => ℕ) Unit) :=
  [.value 0 1, .valueNode 1 0 id, .constant 2 1, .naryNode 3 [1, 2] fun ns => ns.1 + ns.2.1,
    .observe 4 .immediate 3 rfl, .valueNode 5 4 id, .valueNode 6 0 id,
    .naryNode 7 [5, 6] fun ns => ns.1 + ns.2.1, .observe 8 .immediate 7 rfl, .run, .run,
    .set 0 5, .run, .run]

theorem sums_runs : (numbers.exec numbers.init sums).isSome := by decide +kernel

/-- What `z` shows is in sync with what `y` shows, which has not been notified yet. -/
theorem inSync_sums :
    (numbers.exec numbers.init sums).map (fun s => (s.values 4, s.values 8)) = some (2, 7) ∧
      (((numbers.exec numbers.init sums).get sums_runs).InSync (fun _ a b => a == b) 8 ∨
        MadeLate (fun _ a b => a == b) (fun _ => 0) sums 8) := by
  have mode : (((numbers.exec numbers.init sums).get sums_runs).roots 8).map Root.mode =
      some (some .immediate) := by decide +kernel
  have agenda : ((numbers.exec numbers.init sums).get sums_runs).agenda =
      [.notify 4 [0], .returns 0] := by decide +kernel
  obtain ⟨root, has, immediate⟩ := Option.map_eq_some_iff.mp mode
  exact ⟨by decide +kernel,
    immediate_inSync (Option.some_get sums_runs).symm has immediate (by simp [agenda])⟩

/-- `n = x + 1; x.set(5); y = observe(std::move(n))` shows 2, and no call is left. -/
example : (numbers.exec numbers.init [.value 0 1, .valueNode 1 0 id, .constant 2 1,
    .naryNode 3 [1, 2] fun ns => ns.1 + ns.2.1, .set 0 5, .run, .run,
    .observe 4 .immediate 3 rfl, .run]).map (fun s => (s.values 4, s.agenda)) = some (2, []) := by
  decide +kernel

end RadarDemo.Expr
