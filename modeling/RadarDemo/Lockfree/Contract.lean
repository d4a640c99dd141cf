import RadarDemo.Lockfree.Flow
import RadarDemo.Lockfree.Loss

/-!
# What a call has done when it returns

`Frame.Contract` says what the answer of a call means, in terms of the history.

* `insert` returns an id under which its element has entered the list.
* `remove` returns true exactly if its element was live when the call read the
  head, and no other removal had marked it before the call did.
* `apply` hands on elements that were live when it read the head, newest first and
  each at most once; unless the functor throws, it leaves out none of those that
  are not retired when it returns.
* `empty` looks at one node.  It returns false exactly if there is one and it is
  not marked; then it stores the newest of the live elements.  It returns true if
  there is none, and then nothing was live, but also if the one it looks at is
  marked and live ones stand behind it, which its comment does not say.

That `remove` and `apply` miss nothing, and what `empty` says of the others, needs
the list to stand for the live elements when the head is read, and only a collector
that overtakes one can prevent that.  `kept` is the assumption that it does; the
other clauses hold in every run.

`Story` is the invariant: what a call knows at each program counter.  A walk
knows the nodes that it has yet to visit, and that nothing can happen to these
while it is inside its `gc_blocker` except that they are marked.
-/

namespace RadarDemo.Lockfree

open Concurrency Concurrency.Gate TransitionSystem

variable {ω : Type}

/-- What a call has done when it returns. -/
def Frame.Contract (kept : Prop) (s : Shared ω) (f : Frame ω) : Prop :=
  match f.op with
  | .insert element => ∃ i, f.result = .inserted i ∧ (i, element) ∈ s.published
  | .remove elementId => ∃ b, f.result = .removed b ∧ f.gone ⊆ s.retired ∧
      (b = true → elementId ∈ f.offered.map Prod.fst ∧ elementId ∉ f.gone ∧
        elementId ∈ s.retired) ∧
      (kept → elementId ∈ f.offered.map Prod.fst → elementId ∉ f.gone → b = true)
  | .apply => (f.offered.map Prod.fst).Nodup ∧ f.called.reverse.Sublist f.offered ∧
      (kept → f.result = .applied → ∀ e ∈ f.offered, e.1 ∈ s.retired ∨ e ∈ f.called)
  | .empty => ∃ b, f.result = .emptiness b ∧ f.gone ⊆ s.retired ∧
      match f.top with
      | none => b = true ∧ (kept → f.offered = [])
      | some i => (b = true ↔ i ∈ f.gone) ∧ (b = false → i ∈ f.offered.map Prod.fst) ∧
          (kept → b = false → (f.offered.map Prod.fst).head? = some i)

/-! ## What a call knows on the way -/

/-- One of the nodes stores the entry. -/
def Stored (s : Shared ω) (m : List ℕ) (e : ℕ × ω) : Prop :=
  ∃ a ∈ m, ∃ n, s.heap a = some n ∧ n.entry = e

/-- What the nodes store, marked or not. -/
def written (s : Shared ω) (m : List ℕ) : List (ℕ × ω) :=
  m.filterMap fun a => (s.heap a).map Node.entry

/-- A node that a call has before it was live when it read the head, or is marked. -/
def Seen (s : Shared ω) (offered : List (ℕ × ω)) (a : ℕ) : Prop :=
  ∀ n, s.heap a = some n → n.entry ∈ offered ∨ n.nodeId ∈ s.retired

/-- What an `apply` knows that has yet to visit the nodes `m`. -/
structure Walk (kept : Prop) (s : Shared ω) (offered called : List (ℕ × ω)) (m : List ℕ) :
    Prop where
  distinct : (offered.map Prod.fst).Nodup
  order : (called.reverse ++
    (written s m).filter fun e => e.1 ∈ offered.map Prod.fst).Sublist offered
  known : ∀ a ∈ m, Seen s offered a
  complete : kept → ∀ e ∈ offered, e.1 ∈ s.retired ∨ e ∈ called ∨ Stored s m e

/-- What a call knows before it reads the head. -/
def Before (s : Shared ω) (f : Frame ω) : Task → Prop
  | .insert a => ∃ i element, f.op = .insert element ∧ f.result = .inserted i ∧
      ∃ n, s.heap a = some n ∧ n.entry = (i, element)
  | .remove elementId => f.op = .remove elementId ∧ f.result = .removed false
  | .apply => f.op = .apply ∧ f.called = []
  | .empty => f.op = .empty ∧ f.gone = [] ∧ f.top = none

/-- What a call knows, by its program counter. -/
def Story (kept : Prop) (s : Shared ω) (l : List ℕ) (f : Frame ω) : Prop :=
  match f.pc with
  | .lastId element => f.op = .insert element
  | .blockGc task | .awaitGc task | .loadHead task => Before s f task
  | .exchangeHead a => Before s f (.insert a)
  | .seek elementId c => f.op = .remove elementId ∧ f.result = .removed false ∧
      ∃ m, m <:+ l ∧ m.head? = c ∧ (∀ a ∈ m, Seen s f.offered a) ∧
        (kept → ∀ e ∈ f.offered, e.1 = elementId → Stored s m e)
  | .markDeleted a => ∃ elementId, f.op = .remove elementId ∧ Seen s f.offered a ∧
      ∀ n, s.heap a = some n → n.nodeId = elementId
  | .visit c => f.op = .apply ∧ ∃ m, m <:+ l ∧ m.head? = c ∧ Walk kept s f.offered f.called m
  | .call a => f.op = .apply ∧ (∃ m, a :: m <:+ l ∧ Walk kept s f.offered f.called (a :: m)) ∧
      ∀ n, s.heap a = some n → n.entry ∈ f.offered
  | .calling a => f.op = .apply ∧ ∃ m, a :: m <:+ l ∧ Walk kept s f.offered f.called m
  | .loadDeleted a => f.op = .empty ∧ Seen s f.offered a ∧
      (kept → ∀ n, s.heap a = some n →
        (f.offered.map Prod.fst).head? = some n.nodeId ∨ n.nodeId ∈ s.retired)
  | _ => f.Contract kept s

variable {kept : Prop} {s s' : Shared ω} {l l' m : List ℕ} {f : Frame ω} {a : ℕ}
  {e : ℕ × ω} {offered called : List (ℕ × ω)}

/-! ## What stays -/

/-- What a step of another call does to a node: it keeps its entry, and at most
gets marked. -/
structure Persists (s s' : Shared ω) (a : ℕ) : Prop where
  entry : (s'.heap a).map Node.entry = (s.heap a).map Node.entry
  unmarked : ∀ n n', s.heap a = some n → s'.heap a = some n' → n'.deleted = false →
    n.deleted = false

theorem Persists.of_eq (same : s'.heap a = s.heap a) : Persists s s' a where
  entry := by rw [same]
  unmarked := fun n n' here here' unmarked => by
    rw [same, here, Option.some_inj] at here'
    rwa [here']

/-- A write that keeps the entry, and at most marks. -/
theorem Persists.of_write {b : ℕ} {n n' : Node ω} (here : s.heap b = some n)
    (heap : s'.heap = Function.update s.heap b (some n')) (same : n'.entry = n.entry)
    (marks : n'.deleted = false → n.deleted = false) : Persists s s' a := by
  by_cases is : a = b
  · subst is
    refine ⟨by rw [heap, Function.update_self, here]; exact congrArg some same, ?_⟩
    intro m m' there there' unmarked
    rw [here, Option.some_inj] at there
    rw [heap, Function.update_self, Option.some_inj] at there'
    subst there there'
    exact marks unmarked
  · exact .of_eq (by rw [heap, Function.update_of_ne is])

theorem Persists.here {n' : Node ω} (persists : Persists s s' a) (here' : s'.heap a = some n') :
    ∃ n, s.heap a = some n ∧ n.entry = n'.entry ∧ (n'.deleted = false → n.deleted = false) := by
  have same := persists.entry
  rw [here', Option.map_some, eq_comm, Option.map_eq_some_iff] at same
  obtain ⟨n, here, same⟩ := same
  exact ⟨n, here, same, persists.unmarked n n' here here'⟩

theorem Persists.there {n : Node ω} (persists : Persists s s' a) (here : s.heap a = some n) :
    ∃ n', s'.heap a = some n' ∧ n'.entry = n.entry := by
  have same := persists.entry
  rwa [here, Option.map_some, Option.map_eq_some_iff] at same

theorem Stored.mono (stored : Stored s m e) (persists : ∀ a ∈ m, Persists s s' a) :
    Stored s' m e := by
  obtain ⟨a, member, n, here, is⟩ := stored
  obtain ⟨n', here', same⟩ := (persists a member).there here
  exact ⟨a, member, n', here', same.trans is⟩

theorem Seen.mono (known : Seen s offered a) (persists : Persists s s' a)
    (retired : s.retired ⊆ s'.retired) : Seen s' offered a := by
  intro n' here'
  obtain ⟨n, here, same, -⟩ := persists.here here'
  rw [← same, ← show n.nodeId = n'.nodeId from congrArg Prod.fst same]
  exact (known n here).imp_right (@retired _)

theorem written_cons {n : Node ω} (here : s.heap a = some n) :
    written s (a :: m) = n.entry :: written s m := by
  simp [written, here]

theorem written_congr (same : ∀ a ∈ m, (s'.heap a).map Node.entry = (s.heap a).map Node.entry) :
    written s' m = written s m :=
  List.filterMap_congr same

theorem Walk.mono (walk : Walk kept s offered called m)
    (persists : ∀ a ∈ m, Persists s s' a) (retired : s.retired ⊆ s'.retired) :
    Walk kept s' offered called m where
  distinct := walk.distinct
  order := by
    rw [written_congr fun a member => (persists a member).entry]
    exact walk.order
  known := fun a member => (walk.known a member).mono (persists a member) retired
  complete := fun k e offered => by
    rcases walk.complete k e offered with gone | called | stored
    · exact Or.inl (retired gone)
    · exact Or.inr (Or.inl called)
    · exact Or.inr (Or.inr (stored.mono persists))

theorem Frame.Contract.mono (contract : f.Contract kept s) (published : s.published ⊆ s'.published)
    (retired : s.retired ⊆ s'.retired) : f.Contract kept s' := by
  unfold Frame.Contract at contract ⊢
  split at contract
  · obtain ⟨i, is, known⟩ := contract
    exact ⟨i, is, published known⟩
  · obtain ⟨b, is, gone, yes, no⟩ := contract
    exact ⟨b, is, fun i is => retired (gone is),
      fun done => (yes done).imp_right (And.imp_right (@retired _)), no⟩
  · obtain ⟨distinct, order, complete⟩ := contract
    exact ⟨distinct, order, fun k is i known => (complete k is i known).imp_left (@retired _)⟩
  · obtain ⟨b, is, gone, looked⟩ := contract
    exact ⟨b, is, fun i is => retired (gone is), looked⟩

/-- What a call knows stays true while its own node, and the listed ones if it is
inside, persist. -/
theorem Story.mono (story : Story kept s l f) (published : s.published ⊆ s'.published)
    (retired : s.retired ⊆ s'.retired) (own : ∀ a, f.pc.own = some a → Persists s s' a)
    (inside : f.pc.role = .inside → l <:+ l' ∧ ∀ a ∈ l, Persists s s' a)
    (cursor : ∀ a, f.pc.cursor = some a → a ∈ l) : Story kept s' l' f := by
  unfold Story at story ⊢
  have before : ∀ task, task.own = f.pc.own → Before s f task → Before s' f task := by
    intro task owns held
    cases task with
    | insert a =>
        obtain ⟨i, element, op, result, n, here, is⟩ := held
        obtain ⟨n', here', same⟩ := (own a owns.symm).there here
        exact ⟨i, element, op, result, n', here', same.trans is⟩
    | _ => exact held
  have suffix : ∀ {m}, f.pc.role = .inside → m <:+ l → m <:+ l' ∧ ∀ a ∈ m, Persists s s' a :=
    fun is part => ⟨part.trans (inside is).1, fun a member => (inside is).2 a (part.subset member)⟩
  generalize f.pc = pc at *
  cases pc with
  | lastId element => exact story
  | blockGc task => exact before task rfl story
  | awaitGc task => exact before task rfl story
  | loadHead task => exact before task rfl story
  | exchangeHead a => exact before (.insert a) rfl story
  | seek elementId c =>
      obtain ⟨op, result, m, part, points, known, found⟩ := story
      obtain ⟨part', persists⟩ := suffix rfl part
      exact ⟨op, result, m, part', points,
        fun a member => (known a member).mono (persists a member) retired,
        fun k e offered is => (found k e offered is).mono persists⟩
  | markDeleted a =>
      obtain ⟨elementId, op, known, carries⟩ := story
      have persists := (inside rfl).2 a (cursor a rfl)
      refine ⟨elementId, op, known.mono persists retired, fun n' here' => ?_⟩
      obtain ⟨n, here, same, -⟩ := persists.here here'
      exact (congrArg Prod.fst same).symm.trans (carries n here)
  | visit c =>
      obtain ⟨op, m, part, points, walk⟩ := story
      obtain ⟨part', persists⟩ := suffix rfl part
      exact ⟨op, m, part', points, walk.mono persists retired⟩
  | call a =>
      obtain ⟨op, ⟨m, part, walk⟩, tested⟩ := story
      obtain ⟨part', persists⟩ := suffix rfl part
      refine ⟨op, ⟨m, part', walk.mono persists retired⟩, fun n' here' => ?_⟩
      obtain ⟨n, here, same, -⟩ := (persists a List.mem_cons_self).here here'
      exact same ▸ tested n here
  | calling a =>
      obtain ⟨op, m, part, walk⟩ := story
      obtain ⟨part', persists⟩ := suffix rfl part
      exact ⟨op, m, part', walk.mono (fun b member => persists b (List.mem_cons_of_mem a member))
        retired⟩
  | loadDeleted a =>
      obtain ⟨op, known, newest⟩ := story
      have persists := (inside rfl).2 a (cursor a rfl)
      refine ⟨op, known.mono persists retired, fun k n' here' => ?_⟩
      obtain ⟨n, here, same, -⟩ := persists.here here'
      rw [← show n.nodeId = n'.nodeId from congrArg Prod.fst same]
      exact (newest k n here).imp_right (@retired _)
  | _ => exact Frame.Contract.mono story published retired

/-! ## The steps -/

/-- Ids are published and retired for good. -/
theorem Change.history (change : Change s l f.pc s' l') :
    s.published ⊆ s'.published ∧ s.retired ⊆ s'.retired := by
  generalize f.pc = pc at change
  cases change with
  | publish _ _ => exact ⟨List.subset_cons_self _ _, List.Subset.refl _⟩
  | mark _ _ =>
      refine ⟨List.Subset.refl _, fun i gone => ?_⟩
      show i ∈ if _ then _ else _
      split
      · exact gone
      · exact List.mem_cons_of_mem _ gone
  | _ => exact ⟨List.Subset.refl _, List.Subset.refl _⟩

/-- A node persists that the step neither makes nor frees. -/
theorem Change.persists (change : Change s l f.pc s' l') (allocated : ∃ n, s.heap a = some n)
    (notFreed : f.pc.role = .sole → a ∉ l) : Persists s s' a := by
  obtain ⟨n, here⟩ := allocated
  generalize at' : f.pc = pc at change notFreed
  cases change with
  | quiet _ _ _ => exact .of_eq rfl
  | @newNode element b free =>
      have apart : a ≠ b := by rintro rfl; rw [free] at here; cases here
      exact .of_eq (by rw [Shared.write_heap, Function.update_of_ne apart])
  | relink own there => exact .of_write there rfl rfl id
  | publish there expected => exact .of_eq rfl
  | mark listed there => exact .of_write there rfl rfl Bool.noConfusion
  | @unlinkFirst d m pre post split there marked =>
      have apart : a ≠ d := by rintro rfl; exact notFreed rfl (by simp [split])
      exact .of_eq (by rw [Shared.free_heap, Function.update_of_ne apart])
  | @unlinkNext head b d k m pre post split before there marked =>
      have notD : a ≠ d := by rintro rfl; exact notFreed rfl (by simp [split])
      have notB : a ≠ b := by rintro rfl; exact notFreed rfl (by simp [split])
      exact .of_eq (by rw [Shared.free_heap, Function.update_of_ne notD, Shared.write_heap,
        Function.update_of_ne notB])
  | store head => exact .of_eq rfl

/-- Only a publication and a collector change the list. -/
theorem Change.list_eq (change : Change s l f.pc s' l') (notNode : f.pc.isNode = false)
    (notExchange : f.pc.isExchange = false) : l' = l := by
  generalize f.pc = pc at change notNode notExchange
  cases change with
  | publish _ _ => cases notExchange
  | unlinkFirst _ _ _ => cases notNode
  | unlinkNext _ _ _ _ => cases notNode
  | _ => rfl

theorem entry_write {b : ℕ} {n n' : Node ω} (here : s.heap b = some n)
    (same : n'.entry = n.entry) :
    ((s.write b n').heap a).map Node.entry = (s.heap a).map Node.entry := by
  by_cases is : a = b
  · subst is
    rw [Shared.write_heap, Function.update_self, here]
    exact congrArg some same
  · rw [Shared.write_heap, Function.update_of_ne is]

theorem written_sublist (part : l'.Sublist l)
    (same : ∀ a ∈ l', (s'.heap a).map Node.entry = (s.heap a).map Node.entry) :
    (written s' l').Sublist (written s l) := by
  rw [written_congr same]
  exact part.filterMap _

/-- **The list stays in the order of the insertions.** -/
theorem Change.ordered (change : Change s l f.pc s' l') (linked : Linked Node.next s.heap l)
    (ordered : (written s l).Sublist s.published) : (written s' l').Sublist s'.published := by
  generalize f.pc = pc at change
  cases change with
  | quiet _ n b => exact ordered
  | @newNode element a free =>
      refine (written_sublist (List.Sublist.refl l) fun b listed => ?_).trans ordered
      obtain ⟨n, here⟩ := linked.allocated listed
      have apart : b ≠ a := by rintro rfl; rw [free] at here; cases here
      rw [Shared.write_heap, Function.update_of_ne apart]
  | relink own there =>
      refine (written_sublist (List.Sublist.refl l) fun b _ => ?_).trans ordered
      exact entry_write there rfl
  | publish there expected =>
      show (written s (_ :: l)).Sublist _
      rw [written_cons there]
      exact ordered.cons_cons _
  | @mark a n listed there =>
      refine (written_sublist (List.Sublist.refl l) fun b _ => ?_).trans ordered
      show ((s.write a { n with deleted := true }).heap b).map Node.entry = _
      exact entry_write there rfl
  | @unlinkFirst d n pre post split there marked =>
      subst split
      have apart := (List.nodup_cons.mp linked.append_right.nodup).1
      refine (written_sublist ?_ fun b listed => ?_).trans ordered
      · exact (List.sublist_cons_self d l').trans (List.sublist_append_right ..)
      · have notFreed : b ≠ d := by rintro rfl; exact apart listed
        rw [Shared.free_heap, Function.update_of_ne notFreed]
  | @unlinkNext head a d m n pre post split before there marked =>
      subst split
      refine (written_sublist ?_ fun b listed => ?_).trans ordered
      · exact ((List.sublist_cons_self d post).cons_cons a).append_left pre
      · have distinct := linked.nodup
        rw [← List.singleton_append, ← List.append_assoc, List.nodup_middle] at distinct
        have notFreed : b ≠ d := by
          rintro rfl
          exact (List.nodup_cons.mp distinct).1 (by simpa using listed)
        rw [Shared.free_heap, Function.update_of_ne notFreed]
        exact entry_write before rfl
  | store head => exact ordered

/-- Unless a collector that is alone works on it, the list grows in front. -/
theorem Change.suffix (change : Change s l f.pc s' l') (notSole : f.pc.role ≠ .sole) :
    l <:+ l' := by
  generalize f.pc = pc at change notSole
  cases change with
  | publish _ _ => exact List.suffix_cons _ _
  | unlinkFirst _ _ _ => exact absurd rfl notSole
  | unlinkNext _ _ _ _ => exact absurd rfl notSole
  | _ => exact List.suffix_refl _

variable {τ : Type} [DecidableEq τ] [Fintype τ] {σ : State τ ω} {t : τ} {g f' : Frame ω}
  {rest : List (Frame ω)}

omit [DecidableEq τ] in
/-- **What the other calls know stays true.** -/
theorem Sound.story_others (sound : Sound σ l) (running : σ.threads t = f :: rest)
    (change : Change σ.shared l f.pc s' l') (other : Crew.Other σ.threads t rest g)
    (story : Story kept σ.shared l g) : Story kept s' l' g := by
  obtain ⟨u, present⟩ := other.exists_mem running
  have member : f ∈ σ.threads t := running ▸ List.mem_cons_self
  have ok := sound.frames u g present
  obtain ⟨published, retired⟩ := change.history
  refine story.mono published retired (fun a own => ?_) (fun inside => ?_) ok.cursor
  · obtain ⟨⟨n, here, -⟩, notMem⟩ := ok.own a own
    exact change.persists ⟨n, here⟩ fun _ => notMem
  · have notSole : f.pc.role ≠ .sole := fun sole => sound.gate.not_inside member sole present inside
    exact ⟨change.suffix notSole, fun a listed =>
      change.persists (sound.linked.allocated listed) fun sole => absurd sole notSole⟩

/-- The call has left its `gc_blocker`, or is about to. -/
def Pc.after : Pc ω → Bool
  | .unblockGc _ | .gcBlocked | .gcActive | .gcHead | .gcFirst _ | .gcTest .. | .gcNode ..
  | .gcStore _ | .gcDone | .done => true
  | _ => false

omit [DecidableEq τ] [Fintype τ] in
/-- From there on a call knows that it has met its contract. -/
theorem story_iff_of_after (after : f.pc.after = true) :
    Story kept s l f ↔ f.Contract kept s := by
  unfold Story
  cases here : f.pc <;> simp_all [Pc.after]

omit [DecidableEq τ] [Fintype τ] in
theorem mem_entries : e ∈ entries s l ↔
    ∃ a ∈ l, ∃ n, s.heap a = some n ∧ n.deleted = false ∧ n.entry = e := by
  simp only [entries, List.mem_filterMap, Option.bind_eq_some_iff]
  refine exists_congr fun a => and_congr_right fun _ => exists_congr fun n =>
    and_congr_right fun _ => ?_
  cases n.deleted <;> simp

omit [DecidableEq τ] [Fintype τ] in
theorem mem_live : e ∈ s.live ↔ e ∈ s.published ∧ e.1 ∉ s.retired := by
  simp [Shared.live]

section Mover

variable {n : Node ω}

omit [DecidableEq τ] [Fintype τ] in
/-- A listed node is live or retired. -/
theorem Ids.known (ids : Ids s l) (listed : a ∈ l) : Seen s s.live a := by
  intro n here
  by_cases gone : n.nodeId ∈ s.retired
  · exact Or.inr gone
  · exact Or.inl (mem_live.mpr ⟨(ids.listed a listed n here).1, gone⟩)

omit [DecidableEq τ] [Fintype τ] in
/-- A live entry is stored in the list, if that stands for the live ones. -/
theorem stored_of_mem_live (held : entries s l = s.live) (live : e ∈ s.live) : Stored s l e := by
  rw [← held, mem_entries] at live
  obtain ⟨a, listed, n, here, -, is⟩ := live
  exact ⟨a, listed, n, here, is⟩

omit [DecidableEq τ] [Fintype τ] in
/-- The published entries under the ids of the live ones are these. -/
theorem filter_published : (s.published.filter fun e => e.1 ∈ s.live.map Prod.fst) = s.live := by
  refine List.filter_congr fun e known => ?_
  rw [decide_eq_decide, List.mem_map]
  constructor
  · rintro ⟨e', live, same⟩
    exact same ▸ (mem_live.mp live).2
  · exact fun alive => ⟨e, mem_live.mpr ⟨known, alive⟩, rfl⟩

omit [DecidableEq τ] [Fintype τ] in
/-- What a walk knows when it starts. -/
theorem Walk.start (ids : Ids s l) (ordered : (written s l).Sublist s.published)
    (held : kept → entries s l = s.live) : Walk kept s s.live [] l where
  distinct := ids.ids_nodup.sublist (List.filter_sublist.map Prod.fst)
  order := by
    have part := ordered.filter fun e => decide (e.1 ∈ s.live.map Prod.fst)
    rwa [filter_published] at part
  known := fun a listed => ids.known listed
  complete := fun k e live => Or.inr (Or.inr (stored_of_mem_live (held k) live))

omit [DecidableEq τ] [Fintype τ] in
/-- A walk passes by a node that is marked. -/
theorem Walk.skip (walk : Walk kept s offered called (a :: m)) (ids : Ids s l) (listed : a ∈ l)
    (here : s.heap a = some n) (marked : n.deleted = true) : Walk kept s offered called m where
  distinct := walk.distinct
  order := by
    refine (List.Sublist.append_left (List.Sublist.filter _ ?_) _).trans walk.order
    rw [written_cons here]
    exact List.sublist_cons_self ..
  known := fun b member => walk.known b (List.mem_cons_of_mem a member)
  complete := fun k e known => by
    rcases walk.complete k e known with gone | called | ⟨b, member, n', there, is⟩
    · exact Or.inl gone
    · exact Or.inr (Or.inl called)
    · rcases List.mem_cons.mp member with rfl | member
      · rw [here, Option.some_inj] at there
        subst there is
        exact Or.inl ((ids.listed b listed n here).2.mp marked)
      · exact Or.inr (Or.inr ⟨b, member, n', there, is⟩)

omit [DecidableEq τ] [Fintype τ] in
/-- A walk hands a node that was live when it started to the functor. -/
theorem Walk.hand (walk : Walk kept s offered called (a :: m)) (here : s.heap a = some n)
    (tested : n.entry ∈ offered) : Walk kept s offered (n.entry :: called) m where
  distinct := walk.distinct
  order := by
    have live : n.entry.1 ∈ offered.map Prod.fst := List.mem_map_of_mem tested
    have order := walk.order
    simp only [written_cons here, List.filter_cons, live, decide_true, if_true] at order
    rwa [List.reverse_cons, List.append_assoc, List.singleton_append]
  known := fun b member => walk.known b (List.mem_cons_of_mem a member)
  complete := fun k e known => by
    rcases walk.complete k e known with gone | called | ⟨b, member, n', there, is⟩
    · exact Or.inl gone
    · exact Or.inr (Or.inl (List.mem_cons_of_mem _ called))
    · rcases List.mem_cons.mp member with rfl | member
      · rw [here, Option.some_inj] at there
        subst there is
        exact Or.inr (Or.inl List.mem_cons_self)
      · exact Or.inr (Or.inr ⟨b, member, n', there, is⟩)

end Mover

section Phases

variable {n : Node ω} {elementId : ℕ} {c : Option ℕ}

omit [DecidableEq τ] [Fintype τ] in
/-- What a call knows when it has read the head. -/
theorem story_loadHead {task : Task} (before : Before s f task) (ids : Ids s l)
    (ordered : (written s l).Sublist s.published) (first : s.head = l.head?)
    (held : kept → entries s l = s.live) (moved : loadHead s f task = (s', f'))
    (fault : s'.fault = false) : Story kept s' l f' := by
  cases task with
  | insert a =>
      obtain ⟨n, there, moved⟩ := exists_of_deref moved fault
      obtain ⟨i, element, op, result, m, there', is⟩ := before
      rw [there, Option.some_inj] at there'
      subst there'
      cases moved
      exact ⟨i, element, op, result, _, Function.update_self .., is⟩
  | remove elementId =>
      obtain ⟨op, result⟩ := before
      cases moved
      exact ⟨op, result, l, List.suffix_refl l, first.symm, fun a listed => ids.known listed,
        fun k e live _ => stored_of_mem_live (held k) live⟩
  | apply =>
      obtain ⟨op, called⟩ := before
      cases moved
      exact ⟨op, l, List.suffix_refl l, first.symm, called ▸ Walk.start ids ordered held⟩
  | empty =>
      obtain ⟨op, gone, top⟩ := before
      simp only [loadHead] at moved
      split at moved
      · rename_i load
        cases moved
        refine (story_iff_of_after rfl).mpr ?_
        simp only [Frame.Contract, op, top, gone]
        refine ⟨true, rfl, List.nil_subset _, rfl, fun k => ?_⟩
        rw [← held k, List.head?_eq_none_iff.mp (first.symm.trans load), entries_nil]
      · rename_i a load
        cases moved
        obtain ⟨m, rfl⟩ := List.head?_eq_some_iff.mp (first.symm.trans load)
        refine ⟨op, ids.known List.mem_cons_self, fun k n there => ?_⟩
        cases marked : n.deleted with
        | true => exact Or.inr ((ids.listed a List.mem_cons_self n there).2.mp marked)
        | false =>
            refine Or.inl ?_
            show (s.live.map Prod.fst).head? = _
            rw [← held k, entries_cons_of_unmarked there marked]
            rfl

omit [DecidableEq τ] [Fintype τ] in
/-- What an insertion knows when it has tried to exchange the head. -/
theorem story_exchangeHead {spurious : Bool} (here : f.pc = .exchangeHead a)
    (before : Before s f (.insert a)) (moved : exchangeHead s f a spurious = (s', f'))
    (fault : s'.fault = false) : Story kept s' l' f' := by
  obtain ⟨i, element, op, result, m, there', is⟩ := before
  obtain ⟨n, there, moved⟩ := exists_of_deref moved fault
  rw [there, Option.some_inj] at there'
  subst there'
  split at moved
  · cases moved
    refine (story_iff_of_after rfl).mpr ?_
    simp only [Frame.Contract, Frame.goto, op]
    exact ⟨i, result, is ▸ List.mem_cons_self⟩
  · cases moved
    unfold Story
    rw [here]
    exact ⟨i, element, op, result, _, Function.update_self .., is⟩

omit [DecidableEq τ] [Fintype τ] in
/-- What a removal knows after a turn of its loop. -/
theorem story_seek (here : f.pc = .seek elementId c) (linked : Linked Node.next s.heap l)
    (story : Story kept s l f) (moved : advance s f = some (s', f')) (fault : s'.fault = false) :
    Story kept s' l f' := by
  unfold Story at story
  simp only [here] at story
  obtain ⟨op, result, m, part, points, known, found⟩ := story
  cases c with
  | none =>
      simp only [advance, here] at moved
      cases moved
      rw [List.head?_eq_none_iff] at points
      subst points
      refine (story_iff_of_after rfl).mpr ?_
      simp only [Frame.Contract, op]
      refine ⟨false, result, List.Subset.refl _, Bool.noConfusion, fun k live _ => ?_⟩
      obtain ⟨e, offered, is⟩ := List.mem_map.mp live
      obtain ⟨a, member, -⟩ := found k e offered is
      exact absurd member List.not_mem_nil
  | some a =>
      simp only [advance, here, Option.some_inj] at moved
      obtain ⟨n, there, moved⟩ := exists_of_deref moved fault
      obtain ⟨m, rfl⟩ := List.head?_eq_some_iff.mp points
      cases moved
      by_cases differs : n.nodeId ≠ elementId
      · rw [if_pos differs]
        obtain ⟨part', points'⟩ := linked.after part there
        refine ⟨op, result, m, part', points',
          fun b member => known b (List.mem_cons_of_mem a member), fun k e offered same => ?_⟩
        obtain ⟨b, member, n', there', is⟩ := found k e offered same
        rcases List.mem_cons.mp member with rfl | member
        · rw [there, Option.some_inj] at there'
          subst there' is
          exact absurd same differs
        · exact ⟨b, member, n', there', is⟩
      · rw [if_neg differs]
        refine ⟨elementId, op, known a List.mem_cons_self, fun n' there' => ?_⟩
        rw [there, Option.some_inj] at there'
        exact there' ▸ not_not.mp differs

omit [DecidableEq τ] [Fintype τ] in
/-- What a removal knows when it has marked its node. -/
theorem story_markDeleted (here : f.pc = .markDeleted a) (ids : Ids s l) (listed : a ∈ l)
    (story : Story kept s l f) (moved : markDeleted s f a = (s', f')) (fault : s'.fault = false) :
    Story kept s' l f' := by
  unfold Story at story
  simp only [here] at story
  obtain ⟨elementId, op, known, carries⟩ := story
  obtain ⟨n, there, moved⟩ := exists_of_deref moved fault
  obtain rfl := carries n there
  have marked := (ids.listed a listed n there).2
  cases moved
  refine (story_iff_of_after rfl).mpr ?_
  simp only [Frame.Contract, op]
  refine ⟨!n.deleted, rfl, fun i gone => (ids.mem_retires listed there).mpr (Or.inr gone),
    fun done => ?_, fun _ _ alive => ?_⟩
  · have alive : n.nodeId ∉ s.retired := fun gone => by rw [marked.mpr gone] at done; cases done
    exact ⟨List.mem_map_of_mem ((known n there).resolve_right alive), alive,
      (ids.mem_retires listed there).mpr (Or.inl rfl)⟩
  · rw [Bool.not_eq_true']
    exact Bool.eq_false_iff.mpr fun is => alive (marked.mp is)

omit [DecidableEq τ] [Fintype τ] in
/-- What `empty` knows when it has looked at the first node. -/
theorem story_loadDeleted (ids : Ids s l) (listed : a ∈ l)
    (story : f.op = .empty ∧ Seen s f.offered a ∧ (kept → ∀ n, s.heap a = some n →
      (f.offered.map Prod.fst).head? = some n.nodeId ∨ n.nodeId ∈ s.retired))
    (moved : deref s f a (fun n => (s, { f with
      pc := .unblockGc false, result := .emptiness n.deleted, gone := s.retired,
      top := some n.nodeId })) = (s', f')) (fault : s'.fault = false) :
    Story kept s' l f' := by
  obtain ⟨op, seen, newest⟩ := story
  obtain ⟨n, there, moved⟩ := exists_of_deref moved fault
  have marked := (ids.listed a listed n there).2
  have alive : n.deleted = false → n.nodeId ∉ s.retired := fun unmarked gone => by
    rw [marked.mpr gone] at unmarked
    cases unmarked
  cases moved
  refine (story_iff_of_after rfl).mpr ?_
  simp only [Frame.Contract, op]
  exact ⟨n.deleted, rfl, List.Subset.refl _, marked,
    fun unmarked => List.mem_map_of_mem ((seen n there).resolve_right (alive unmarked)),
    fun k unmarked => (newest k n there).resolve_right (alive unmarked)⟩

omit [DecidableEq τ] [Fintype τ] in
/-- What a walk knows after a turn of its loop. -/
theorem story_visit (here : f.pc = .visit c) (ids : Ids s l) (linked : Linked Node.next s.heap l)
    (story : Story kept s l f) (moved : advance s f = some (s', f')) (fault : s'.fault = false) :
    Story kept s' l f' := by
  unfold Story at story
  simp only [here] at story
  obtain ⟨op, m, part, points, walk⟩ := story
  cases c with
  | none =>
      simp only [advance, here] at moved
      cases moved
      rw [List.head?_eq_none_iff] at points
      subst points
      refine (story_iff_of_after rfl).mpr ?_
      simp only [Frame.Contract, Frame.goto, op]
      refine ⟨walk.distinct, (List.sublist_append_left ..).trans walk.order, fun k _ i known => ?_⟩
      rcases walk.complete k i known with gone | called | ⟨a, member, -⟩
      · exact Or.inl gone
      · exact Or.inr called
      · exact absurd member List.not_mem_nil
  | some a =>
      simp only [advance, here, Option.some_inj] at moved
      obtain ⟨n, there, moved⟩ := exists_of_deref moved fault
      obtain ⟨m, rfl⟩ := List.head?_eq_some_iff.mp points
      have member := part.subset List.mem_cons_self
      cases moved
      cases marked : n.deleted with
      | true =>
          obtain ⟨part', points'⟩ := linked.after part there
          exact ⟨op, m, part', points', walk.skip ids member there marked⟩
      | false =>
          refine ⟨op, ⟨m, part, walk⟩, fun n' there' => ?_⟩
          rw [there, Option.some_inj] at there'
          subst there'
          rcases walk.known a List.mem_cons_self n there with offered | gone
          · exact offered
          · rw [(ids.listed a member n there).2.mpr gone] at marked
            cases marked

omit [DecidableEq τ] [Fintype τ] in
/-- Past the section a call changes nothing but its program counter. -/
theorem goto_of_after (after : f.pc.after = true) (moved : advance s f = some (s', f')) :
    f' = f.goto f'.pc := by
  have loads : ∀ a (k : Node ω → Shared ω × Frame ω), (∀ n, (k n).2 = f.goto (k n).2.pc) →
      (deref s f a k).2 = f.goto (deref s f a k).2.pc := by
    intro a k each
    unfold deref
    split
    · exact each _
    · rfl
  have test : ∀ head p, (gcTest s f head p).2 = f.goto (gcTest s f head p).2.pc := by
    intro head p
    unfold gcTest
    split <;> rfl
  have node : ∀ head p, (gcNode s f head p).2 = f.goto (gcNode s f head p).2.pc := by
    intro head p
    unfold gcNode
    split
    · refine loads _ _ fun n => ?_
      split
      · rfl
      · split
        · rfl
        · exact loads _ _ fun m => rfl
    · rfl
  unfold advance at moved
  cases here : f.pc with
  | gcFirst head =>
      simp only [here, Option.some_inj] at moved
      have same := test head none
      rwa [moved] at same
  | gcTest head p =>
      simp only [here, Option.some_inj] at moved
      have same := test head p
      rwa [moved] at same
  | gcNode head p =>
      simp only [here, Option.some_inj] at moved
      have same := node head p
      rwa [moved] at same
  | unblockGc collects => simp only [here] at moved; cases moved; rfl
  | gcBlocked => simp only [here] at moved; cases moved; rfl
  | gcActive => simp only [here] at moved; cases moved; rfl
  | gcHead => simp only [here] at moved; cases moved; rfl
  | gcStore head => simp only [here] at moved; cases moved; rfl
  | gcDone => simp only [here] at moved; cases moved; rfl
  | done => simp only [here, reduceCtorEq] at moved
  | _ => rw [here] at after; cases after

omit [DecidableEq τ] [Fintype τ] in
/-- Past the section a call stays past it. -/
theorem Flow.after {pc pc' : Pc ω} (flow : Flow s pc pc') (after : pc.after = true) :
    pc'.after = true := by
  cases flow <;> first | rfl | cases after

omit [DecidableEq τ] [Fintype τ] in
/-- What a call knows past the section: that it has met its contract. -/
theorem story_after (after : f.pc.after = true) (story : Story kept s l f)
    (change : Change s l f.pc s' l') (moved : advance s f = some (s', f'))
    (fault : s'.fault = false) : Story kept s' l' f' := by
  obtain ⟨published, retired⟩ := change.history
  have contract := ((story_iff_of_after after).mp story).mono published retired
  rw [story_iff_of_after ((flow_of_advance moved fault).after after), goto_of_after after moved]
  exact contract

end Phases

/-- **What the running call knows.** -/
theorem Sound.story_advance (sound : Sound σ l) (running : σ.threads t = f :: rest)
    (moved : advance σ.shared f = some (s', f')) (outcome : Outcome σ.shared l f s' f' l')
    (ordered : (written σ.shared l).Sublist σ.shared.published)
    (held : kept → entries σ.shared l = σ.shared.live) (story : Story kept σ.shared l f) :
    Story kept s' l' f' := by
  have member : f ∈ σ.threads t := running ▸ List.mem_cons_self
  have ids := sound.ids
  have linked := sound.linked
  have cursor := (sound.frames t f member).cursor
  have fault := outcome.fault
  have list := outcome.change.list_eq
  have first := sound.head_of_role running
  -- The phases of a call, in their order.
  cases here : f.pc with
  | lastId element => simp only [advance, here, reduceCtorEq] at moved
  | blockGc task =>
      unfold Story at story
      simp only [here] at story
      simp only [advance, here] at moved
      cases moved
      cases task <;> exact story
  | awaitGc task =>
      unfold Story at story
      simp only [here] at story
      simp only [advance, here] at moved
      cases moved
      cases active : σ.shared.gcActive with
      | true =>
          unfold Story
          rw [if_pos rfl, here]
          exact story
      | false => cases task <;> exact story
  | loadHead task =>
      obtain rfl := list (by rw [here]; rfl) (by rw [here]; rfl)
      unfold Story at story
      simp only [here] at story
      simp only [advance, here, Option.some_inj] at moved
      exact story_loadHead story ids ordered (first (Or.inl (by rw [here]; rfl))) held moved fault
  | exchangeHead a =>
      unfold Story at story
      simp only [here] at story
      simp only [advance, here, Option.some_inj] at moved
      exact story_exchangeHead here story moved fault
  | seek elementId c =>
      obtain rfl := list (by rw [here]; rfl) (by rw [here]; rfl)
      exact story_seek here linked story moved fault
  | markDeleted a =>
      obtain rfl := list (by rw [here]; rfl) (by rw [here]; rfl)
      simp only [advance, here, Option.some_inj] at moved
      exact story_markDeleted here ids (cursor a (by rw [here]; rfl)) story moved fault
  | visit c =>
      obtain rfl := list (by rw [here]; rfl) (by rw [here]; rfl)
      exact story_visit here ids linked story moved fault
  | call a =>
      obtain rfl := list (by rw [here]; rfl) (by rw [here]; rfl)
      unfold Story at story
      simp only [here] at story
      obtain ⟨op, ⟨m, part, walk⟩, tested⟩ := story
      simp only [advance, here, Option.some_inj] at moved
      obtain ⟨n, there, moved⟩ := exists_of_deref moved fault
      cases moved
      exact ⟨op, m, part, walk.hand there (tested n there)⟩
  | calling a =>
      obtain rfl := list (by rw [here]; rfl) (by rw [here]; rfl)
      unfold Story at story
      simp only [here] at story
      obtain ⟨op, m, part, walk⟩ := story
      simp only [advance, here, Option.some_inj] at moved
      obtain ⟨n, there, moved⟩ := exists_of_deref moved fault
      cases moved
      obtain ⟨part', points'⟩ := linked.after part there
      exact ⟨op, m, part', points', walk⟩
  | loadDeleted a =>
      unfold Story at story
      simp only [here] at story
      obtain rfl := list (by rw [here]; rfl) (by rw [here]; rfl)
      simp only [advance, here, Option.some_inj] at moved
      exact story_loadDeleted ids (cursor a (by rw [here]; rfl)) story moved fault
  | _ => exact story_after (by rw [here]; rfl) story outcome.change moved fault

/-- **What a call knows after any step of its own**: the allocator, a spurious
failure and a functor that throws included. -/
theorem Sound.story_move (sound : Sound σ l) (running : σ.threads t = f :: rest)
    {act : Action τ ω} (moved : move σ.shared f act = some (s', f'))
    (outcome : Outcome σ.shared l f s' f' l')
    (ordered : (written σ.shared l).Sublist σ.shared.published)
    (held : kept → entries σ.shared l = σ.shared.live) (story : Story kept σ.shared l f) :
    Story kept s' l' f' := by
  cases act with
  | start u op => cases moved
  | run u => exact sound.story_advance running moved outcome ordered held story
  | allocate u a =>
      cases here : f.pc with
      | lastId element =>
          simp only [move, here] at moved
          split at moved
          · cases moved
            unfold Story at story
            rw [here] at story
            exact ⟨_, element, story, rfl, _, Function.update_self .., rfl⟩
          · cases moved
      | _ => simp only [move, here, reduceCtorEq] at moved
  | spurious u =>
      cases here : f.pc with
      | exchangeHead a =>
          unfold Story at story
          simp only [here] at story
          simp only [move, here, Option.some_inj] at moved
          exact story_exchangeHead here story moved outcome.fault
      | _ => simp only [move, here, reduceCtorEq] at moved
  | raise u =>
      cases here : f.pc with
      | calling a =>
          unfold Story at story
          rw [here] at story
          simp only [move, here] at moved
          cases moved
          obtain ⟨op, m, -, walk⟩ := story
          refine (story_iff_of_after rfl).mpr ?_
          simp only [Frame.Contract, op]
          exact ⟨walk.distinct, (List.sublist_append_left ..).trans walk.order,
            fun _ is => by cases is⟩
      | _ => simp only [move, here, reduceCtorEq] at moved

omit [DecidableEq τ] [Fintype τ] in
/-- What a new call knows: its arguments. -/
theorem story_start (op : Op ω) : Story kept s l (Frame.start op) := by
  cases op with
  | insert element => exact rfl
  | remove elementId => exact ⟨rfl, rfl⟩
  | apply => exact ⟨rfl, rfl⟩
  | empty => exact ⟨rfl, rfl, rfl⟩

/-! ## Whole runs -/

/-- The nodes are in the order in which they entered the list, every call knows what
it should, and the list stands for the live elements if that is assumed. -/
structure Known (kept : Prop) (s : State τ ω) (l : List ℕ) : Prop where
  ordered : (written s.shared l).Sublist s.shared.published
  held : kept → entries s.shared l = s.shared.live
  stories : ∀ t, ∀ f ∈ s.threads t, Story kept s.shared l f

/-- **Every turn keeps what is known**, unless it overtakes a live element. -/
theorem Turn.known {σ' : State τ ω} {act : Action τ ω} (turn : Turn σ l act σ' l')
    (sound : Sound σ l) (spares : kept → Spares σ act) (known : Known kept σ l) :
    Known kept σ' l' := by
  obtain ⟨ordered, held, stories⟩ := known
  cases turn with
  | call may => exact ⟨ordered, held, Crew.forall_call_iff.mpr ⟨story_start _, stories⟩⟩
  | ret running here =>
      exact ⟨ordered, held,
        (Crew.forall_ret_iff running).mpr ((Crew.forall_iff running).mp stories).2⟩
  | move running moved outcome =>
      obtain ⟨story, others⟩ := (Crew.forall_iff running).mp stories
      refine ⟨outcome.change.ordered sound.linked ordered, fun k => ?_,
        Crew.forall_become_iff.mpr ⟨?_, fun g other => ?_⟩⟩
      · exact entries_of_outcome sound running outcome
          (spares k _ (by rw [running, List.head?_cons])) (held k)
      · exact sound.story_move running moved outcome ordered held story
      · exact sound.story_others running outcome.change other (others g other)

omit [Fintype τ] in
theorem known_init : Known kept (collection τ ω).init [] :=
  ⟨List.Sublist.refl _, fun _ => rfl, fun _ _ member => absurd member List.not_mem_nil⟩

/-- Every call that is about to return meets its contract. -/
def Returned (kept : Prop) (s : State τ ω) : Prop :=
  ∀ t, ∀ f ∈ s.threads t, f.pc = .done → f.Contract kept s.shared

omit [DecidableEq τ] [Fintype τ] in
theorem Known.returned (known : Known kept σ l) : Returned kept σ := by
  intro t f member done
  exact (story_iff_of_after (by rw [done]; rfl)).mp (known.stories t f member)

end RadarDemo.Lockfree
