import RadarDemo.Lockfree.Step

/-!
# What the list stands for, and how an element is lost

To its users the collection is a list of elements under ids: an insertion puts
one in front when its `compare_exchange_weak` succeeds, a removal takes one out
when its `exchange` finds it unmarked, and nothing else changes it.  `Shared.live`
is that list.  In memory it is what the unmarked nodes store, `entries`.

The two agree as long as the collector looks at the list it works on.  It does
not always: `gc` copies `head_` after it has raised its flag, and a call that was
already inside its `gc_blocker` may insert behind the copy's back and leave
before the collector looks at the counter.  If the node the copy points to is
marked, the collector unlinks it *through the copy* and stores what follows into
`head_`; the nodes in front of it drop out of the list, alive, never to be
notified and never to be freed.

* `represents_iff` — along a run the list stands for the live elements exactly
  if no collector unlinks a first node that a live one stands in front of.
* `Lockfree.Quiet` has what prevents that, and that one thread cannot do it,
  however it nests its calls.
-/

namespace RadarDemo.Lockfree

open Concurrency Concurrency.Gate TransitionSystem

variable {ω : Type}

/-! ## The entries of a list of nodes -/

/-- What the unmarked nodes store. -/
def entries (s : Shared ω) (l : List ℕ) : List (ℕ × ω) :=
  l.filterMap fun a => (s.heap a).bind fun n => if n.deleted then none else some n.entry

section Entries

variable {s s' : Shared ω} {a : ℕ} {n : Node ω} {l pre post : List ℕ}

@[simp] theorem entries_nil : entries s [] = [] := rfl

@[simp] theorem entries_append : entries s (pre ++ post) = entries s pre ++ entries s post :=
  List.filterMap_append

theorem entries_cons_of_marked (here : s.heap a = some n) (marked : n.deleted = true) :
    entries s (a :: l) = entries s l := by
  simp [entries, here, marked]

theorem entries_cons_of_unmarked (here : s.heap a = some n) (unmarked : n.deleted = false) :
    entries s (a :: l) = n.entry :: entries s l := by
  simp [entries, here, unmarked]

/-- Entries and marks are all that matters. -/
theorem entries_congr (same : ∀ a ∈ l,
    (s'.heap a).map (fun n => (n.entry, n.deleted)) =
      (s.heap a).map fun n => (n.entry, n.deleted)) : entries s' l = entries s l := by
  refine List.filterMap_congr fun a member => ?_
  have equal := same a member
  cases here : s.heap a <;> cases here' : s'.heap a <;> simp_all

/-- A write elsewhere. -/
theorem entries_update (heap : s'.heap = Function.update s.heap a (some n)) (notMem : a ∉ l) :
    entries s' l = entries s l := by
  refine entries_congr fun b member => ?_
  have apart : b ≠ a := by rintro rfl; exact notMem member
  rw [heap, Function.update_of_ne apart]

/-- A node that is freed elsewhere. -/
theorem entries_free (notMem : a ∉ l) : entries (s.free a) l = entries s l := by
  refine entries_congr fun b member => ?_
  have apart : b ≠ a := by rintro rfl; exact notMem member
  rw [Shared.free_heap, Function.update_of_ne apart]

/-- A mark takes out the one entry under its id. -/
theorem entries_mark (here : s.heap a = some n)
    (heap : s'.heap = Function.update s.heap a (some { n with deleted := true }))
    (injective : ∀ b ∈ l, ∀ m, s.heap b = some m → m.nodeId = n.nodeId → b = a) :
    entries s' l = (entries s l).filter fun e => e.1 ≠ n.nodeId := by
  rw [entries, entries, List.filter_filterMap]
  refine List.filterMap_congr fun b member => ?_
  by_cases same : b = a
  · subst same
    rw [heap, Function.update_self, here]
    cases marked : n.deleted <;> simp [marked, Option.filter, Node.entry]
  · rw [heap, Function.update_of_ne same]
    cases there : s.heap b with
    | none => rfl
    | some m =>
        have differs : m.nodeId ≠ n.nodeId := fun equal => same (injective b member m there equal)
        cases marked : m.deleted <;> simp [marked, differs, Option.filter, Node.entry]

end Entries

variable {τ : Type}

/-! ## The list that the state stands for -/

/-- Where the list starts: at what a collector is about to store, if there is
one, and at the head otherwise. -/
def Front (s : State τ ω) (q : Option ℕ) : Prop :=
  (∃ t, ∃ f ∈ s.threads t, f.pc = .gcStore q) ∨ Settled s.threads ∧ s.shared.head = q

/-- **The list in memory stands for the live elements**: its unmarked nodes store
them, in order. -/
def Represents (s : State τ ω) : Prop :=
  ∃ l, Front s l.head? ∧ Linked Node.next s.shared.heap l ∧ entries s.shared l = s.shared.live

/-- The collector is about to unlink the first node of its own copy of the list,
and an unmarked node stands in front of it by now. -/
def Overtakes (s : Shared ω) : Pc ω → Prop
  | .gcNode (some d) none =>
      (∃ n, s.heap d = some n ∧ n.deleted = true) ∧
        ∃ pre post, Linked Node.next s.heap (pre ++ d :: post) ∧
          (pre ++ d :: post).head? = s.head ∧ entries s pre ≠ []
  | _ => False

/-- The action does not let a collector overtake a live node. -/
def Spares (s : State τ ω) (a : Action τ ω) : Prop :=
  ∀ f, (s.threads a.thread).head? = some f → ¬ Overtakes s.shared f.pc

/-- A step that is not at a node of a collector overtakes nothing. -/
theorem spares_of_notNode {s : State τ ω} {a : Action τ ω}
    (notNode : (s.threads a.thread).head?.all (fun f => !f.pc.isNode) = true) : Spares s a := by
  intro f first overtakes
  rw [first, Option.all_some, Bool.not_eq_true'] at notNode
  generalize f.pc = pc at notNode overtakes
  cases pc with
  | gcNode head p => cases notNode
  | _ => exact overtakes

variable [DecidableEq τ] [Fintype τ] {s s' : State τ ω} {a : Action τ ω} {l l' : List ℕ}

omit [DecidableEq τ] in
theorem Sound.front (sound : Sound s l) : Front s l.head? := by
  by_cases settled : Settled s.threads
  · exact Or.inr ⟨settled, sound.head settled⟩
  · simp only [Settled, not_forall, not_not] at settled
    obtain ⟨t, f, member, head, is⟩ := settled
    have stores := (sound.frames t f member).store head is
    exact Or.inl ⟨t, f, member, stores ▸ is⟩

omit [DecidableEq τ] in
theorem Sound.eq_of_front (sound : Sound s l) {q : Option ℕ} (front : Front s q) :
    q = l.head? := by
  rcases front with ⟨t, f, member, is⟩ | ⟨settled, is⟩
  · exact (sound.frames t f member).store q is
  · exact is.symm.trans (sound.head settled)

omit [DecidableEq τ] in
/-- In a sound state there is one list to look at. -/
theorem Sound.represents (sound : Sound s l) :
    Represents s ↔ entries s.shared l = s.shared.live := by
  constructor
  · rintro ⟨m, front, linked, equal⟩
    have same : m = l := linked.unique sound.linked (sound.eq_of_front front)
    rwa [same] at equal
  · exact fun equal => ⟨l, sound.front, sound.linked, equal⟩

/-! ## What changes the entries -/

section Live

variable {s : Shared ω} {l : List ℕ} {a : ℕ} {n : Node ω}

/-- A node that is published is live, in front of the others. -/
theorem live_publish (ids : Ids s l) (new : n.nodeId ∉ s.ids) (head : Option ℕ) :
    Shared.live { s with head := head, published := n.entry :: s.published } =
      n.entry :: s.live :=
  List.filter_cons_of_pos (decide_eq_true fun gone => new (ids.retired_subset gone))

/-- A node that is marked is no longer live. -/
theorem live_mark (ids : Ids s l) (member : a ∈ l) (here : s.heap a = some n) :
    Shared.live { s.write a { n with deleted := true } with
      retired := if n.deleted then s.retired else n.nodeId :: s.retired } =
      s.live.filter fun e => e.1 ≠ n.nodeId := by
  rw [Shared.live, Shared.live, List.filter_filter]
  refine List.filter_congr fun e _ => ?_
  have retires := ids.mem_retires member here (i := e.1)
  simp only [decide_not, retires]
  by_cases is : e.1 = n.nodeId <;> simp [is]

end Live

/-- A collector that is at a node has nothing to store, and neither has another. -/
theorem Sound.settled_of_node (sound : Sound s l) {t : τ} {f : Frame ω} {rest : List (Frame ω)}
    (running : s.threads t = f :: rest) {head p : Option ℕ} (here : f.pc = .gcNode head p) :
    Settled s.threads := by
  refine (Crew.forall_iff running).mpr
    ⟨Pc.ne_gcStore (by rw [here]; rfl), fun g other head is => ?_⟩
  exact (sound.apart running other (by rw [here]; rfl)).1 (by rw [is]; rfl)

/-- **Only a collector that overtakes a live node loses an element.** -/
theorem entries_of_outcome {t : τ} {f f' : Frame ω} {rest : List (Frame ω)} {shared : Shared ω}
    (sound : Sound s l) (running : s.threads t = f :: rest)
    (outcome : Outcome s.shared l f shared f' l') (spares : ¬ Overtakes s.shared f.pc)
    (held : entries s.shared l = s.shared.live) : entries shared l' = shared.live := by
  have member : f ∈ s.threads t := running ▸ List.mem_cons_self
  have ids := sound.ids
  have change := outcome.change
  generalize here : f.pc = pc at change spares
  cases change with
  | quiet _ n b => exact held
  | newNode free => exact (entries_update rfl (sound.fresh free).2).trans held
  | relink own there =>
      rw [← here] at own
      exact (entries_update rfl ((sound.frames t f member).own _ own).notMem).trans held
  | @publish b n there expected =>
      obtain ⟨⟨m, there', unmarked, new⟩, notMem⟩ :=
        (sound.frames t f member).own b (by rw [here]; rfl)
      rw [there, Option.some_inj] at there'
      subst there'
      rw [live_publish ids new, ← held]
      exact entries_cons_of_unmarked there unmarked
  | @mark b n listed there =>
      rw [live_mark ids listed there, ← held]
      exact entries_mark there rfl fun c _ m there' equal =>
        ids.injective c b m n there' there equal
  | @unlinkFirst d n pre post split there marked =>
      subst split
      have settled := sound.settled_of_node running here
      have noneBefore : entries s.shared pre = [] := by
        by_contra some
        exact spares ⟨⟨n, there, marked⟩, pre, l', sound.linked, (sound.head settled).symm, some⟩
      have notMem := (List.nodup_cons.mp sound.linked.append_right.nodup).1
      rw [entries_append, noneBefore, List.nil_append, entries_cons_of_marked there marked] at held
      exact (entries_free notMem).trans held
  | @unlinkNext head b d m n pre post split before there marked =>
      subst split
      have distinct := sound.linked.nodup
      have outside : d ∉ pre ++ b :: post := by
        rw [List.append_cons, List.nodup_middle] at distinct
        simpa using (List.nodup_cons.mp distinct).1
      have kept : entries (s.shared.write b { m with next := n.next }) (pre ++ b :: post) =
          entries s.shared (pre ++ b :: post) := by
        refine entries_congr fun c _ => ?_
        by_cases same : c = b
        · subst same
          rw [Shared.write_heap, Function.update_self, before]
          rfl
        · rw [Shared.write_heap, Function.update_of_ne same]
      have skips : entries s.shared (b :: d :: post) = entries s.shared (b :: post) := by
        rw [← List.singleton_append, entries_append, entries_cons_of_marked there marked,
          ← entries_append, List.singleton_append]
      rw [entries_free outside, kept, entries_append, ← skips, ← entries_append]
      exact held
  | store head => exact held

omit [DecidableEq τ] [Fintype τ] in
/-- Overtaking takes the copy's first node out, with everything in front of it. -/
theorem move_of_overtakes {s shared : Shared ω} {f f' : Frame ω} {d : ℕ} {n : Node ω}
    (here : f.pc = .gcNode (some d) none) (there : s.heap d = some n) (marked : n.deleted = true)
    (moved : move s f a = some (shared, f')) :
    shared = s.free d ∧ f' = f.goto (.gcStore n.next) := by
  cases a with
  | run t =>
      simp only [move, advance, here, gcNode, Shared.link, deref_of_some there, marked,
        Bool.true_eq_false, if_false, Option.some_inj, Prod.mk.injEq] at moved
      exact ⟨moved.1.symm, moved.2.symm⟩
  | _ => simp only [move, here, reduceCtorEq] at moved

/-- **Overtaking a live node loses it.** -/
theorem entries_of_overtakes {t : τ} {f f' : Frame ω} {rest : List (Frame ω)} {shared : Shared ω}
    (sound : Sound s l) (running : s.threads t = f :: rest)
    (moved : move s.shared f a = some (shared, f'))
    (outcome : Outcome s.shared l f shared f' l') (overtakes : Overtakes s.shared f.pc)
    (held : entries s.shared l = s.shared.live) : entries shared l' ≠ shared.live := by
  have member : f ∈ s.threads t := running ▸ List.mem_cons_self
  have linked' := sound.linked_of_change member outcome.change
  generalize here : f.pc = pc at overtakes
  match pc, overtakes with
  | .gcNode (some d) none, ⟨⟨n, there, marked⟩, pre, post, linked, head, alive⟩ =>
      obtain ⟨rfl, rfl⟩ := move_of_overtakes here there marked moved
      have settled := sound.settled_of_node running here
      obtain rfl := linked.unique sound.linked (head.trans (sound.head settled))
      have behind := (linked.after ⟨pre, rfl⟩ there).2
      have stores := outcome.ok.store n.next rfl
      obtain rfl := linked.append_right.unlink_first.unique linked' (behind.trans stores)
      have notMem := (List.nodup_cons.mp linked.append_right.nodup).1
      intro equal
      rw [entries_free notMem] at equal
      change _ = s.shared.live at equal
      rw [← held, entries_append, entries_cons_of_marked there marked] at equal
      exact alive (List.append_left_eq_self.mp equal.symm)

/-- **The list stands for the live elements exactly as long as no collector
overtakes one.**  Overtaking needs a call that enters its `gc_blocker` between
the collector's test of the counter and its flag, and that inserts and leaves
between the collector's copy of the head and its next test. -/
theorem represents_iff (as : List (Action τ ω)) :
    (collection τ ω).Along (fun _ _ s' => Represents s') (collection τ ω).init as ↔
      (collection τ ω).Along (fun s a _ => Spares s a) (collection τ ω).init as := by
  refine along_iff_of_exact (I := fun s => ∃ l, Sound s l ∧ entries s.shared l = s.shared.live)
    ?_ ?_ ⟨[], sound_init, rfl⟩ as
  · rintro s a s' ⟨l, sound, held⟩ stepped spares
    obtain ⟨l', turn⟩ := sound.turn stepped
    have sound' := turn.sound sound
    have held' : entries s'.shared l' = s'.shared.live := by
      cases turn with
      | call may => exact held
      | ret running here => exact held
      | move running moved outcome =>
          exact entries_of_outcome sound running outcome
            (spares _ (by rw [running, List.head?_cons])) held
    exact ⟨⟨l', sound', held'⟩, sound'.represents.mpr held'⟩
  · rintro s a s' ⟨l, sound, held⟩ stepped represents f first overtakes
    obtain ⟨l', turn⟩ := sound.turn stepped
    have held' := (turn.sound sound).represents.mp represents
    cases turn with
    | call may =>
        obtain ⟨n, calling⟩ := calling_of_mayCall may first
        rw [calling] at overtakes
        exact overtakes
    | ret running here =>
        rw [running, List.head?_cons, Option.some_inj] at first
        subst first
        rw [here] at overtakes
        exact overtakes
    | move running moved outcome =>
        rw [running, List.head?_cons, Option.some_inj] at first
        subst first
        exact entries_of_overtakes sound running moved outcome overtakes held held'

-- The second thread inserts between the first one's copy of the head and its next
-- look at the counter: in the end the list is empty, and its element is live.
example :
    let runs (t : Fin 2) (n : ℕ) : List (Action (Fin 2) Unit) := List.replicate n (.run t)
    ((collection (Fin 2) Unit).exec (collection (Fin 2) Unit).init
      ([.start 0 (.insert ()), .allocate 0 0] ++ runs 0 13 ++ [.start 0 (.remove 1)] ++ runs 0 7 ++
        [.start 1 (.insert ()), .allocate 1 1] ++ runs 1 3 ++ runs 0 2 ++ runs 1 2 ++ runs 0 6 ++
        runs 1 6)).map (fun s => (s.shared.head, s.shared.live)) = some (none, [(2, ())]) := by
  rfl

end RadarDemo.Lockfree
