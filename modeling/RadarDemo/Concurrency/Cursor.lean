import RadarDemo.Concurrency.Transition
import Mathlib.Data.List.Basic

/-!
# A cursor over a vector that may be assigned to

A loop walks a vector with an iterator and appends the image of every element to
its output.  The exit test is an inequality, as in

    for (itr = begin(); itr != end(); ++itr) out.push_back(f(*itr));

and the end is taken anew at every turn.  Between any two of the loop's steps
another list may be assigned to the vector.  An iterator is a place in a block of
memory: an assignment that fits into the block leaves it where it is, whatever is
there now, and one that does not fit moves the vector to another block, which
leaves the iterator dangling (`Vec.assign`).  A cursor that is past the end does
not exit: it goes on to read where there is no element.

* `Safe` — the iterator is in bounds where it is used, and a finished loop has
  mapped one of the lists that were stored.
* `Ahead` — a condition on assignments: they fit, and change only what the loop
  has yet to reach.
* `sound_of_ahead` — assignments ahead of the cursor keep a walk safe.
* `astray_of_not_ahead` — after the first one that is not, the walk, left alone,
  becomes unsafe or ends with something else than the list that it ended on.
* `walk_alone` — a walk that is left alone maps the rest of the list, and ends.
-/

namespace Concurrency.Cursor

universe u v

variable {α : Type u} {β : Type v}

/-! ## Vectors -/

/-- A vector: its elements, and the block of memory they are in, with room for
`capacity` of them. -/
structure Vec (α : Type u) where
  elements : List α
  capacity : ℕ
  block : ℕ
  fits : elements.length ≤ capacity

/-- How much room is allocated for a number of elements. -/
structure Growth where
  room : ℕ → ℕ
  enough : ∀ n, n ≤ room n

/-- As much as is needed. -/
def Growth.exact : Growth := ⟨id, fun _ => Nat.le_refl _⟩

/-- A vector for which nothing has been allocated. -/
def Vec.null : Vec α := ⟨[], 0, 0, Nat.le_refl _⟩

/-- Copy a list into the vector, into the `fresh` block if its own is too small. -/
def Vec.assign (v : Vec α) (growth : Growth) (fresh : ℕ) (items : List α) : Vec α :=
  if fits : items.length ≤ v.capacity then ⟨items, v.capacity, v.block, fits⟩
  else ⟨items, growth.room items.length, fresh, growth.enough _⟩

/-- An element of a block, or the end of a vector. -/
structure Iter where
  block : ℕ
  offset : ℕ
  deriving DecidableEq, Repr

def Vec.begin (v : Vec α) : Iter := ⟨v.block, 0⟩

@[simp] theorem Vec.assign_elements (v : Vec α) (growth : Growth) (fresh : ℕ) (items : List α) :
    (v.assign growth fresh items).elements = items := by
  unfold Vec.assign
  split <;> rfl

theorem Vec.assign_block_of_fits {v : Vec α} {items : List α} (fits : items.length ≤ v.capacity)
    (growth : Growth) (fresh : ℕ) : (v.assign growth fresh items).block = v.block := by
  rw [Vec.assign, dif_pos fits]

theorem Vec.assign_block_of_not_fits {v : Vec α} {items : List α}
    (large : ¬ items.length ≤ v.capacity) (growth : Growth) (fresh : ℕ) :
    (v.assign growth fresh items).block = fresh := by
  rw [Vec.assign, dif_neg large]

/-- The block of a vector after an assignment has been allocated by then. -/
theorem Vec.assign_block_lt {v : Vec α} {fresh : ℕ} (below : v.block < fresh) (growth : Growth)
    (items : List α) : (v.assign growth fresh items).block < fresh + 1 := by
  by_cases fits : items.length ≤ v.capacity
  · rw [Vec.assign_block_of_fits fits]
    exact Nat.lt_succ_of_lt below
  · rw [Vec.assign_block_of_not_fits fits]
    exact Nat.lt_succ_self fresh

/-! ## The loop -/

/-- What the loop does next.  `undefined` is behind a use of an iterator that
dangles, and behind a read where there is no element. -/
inductive Pos
  | test
  | read
  | increment
  | done
  | undefined
  deriving DecidableEq, Repr

structure State (α : Type u) (β : Type v) where
  vec : Vec α
  /-- The next block that will be allocated. -/
  fresh : ℕ
  itr : Iter
  out : List β
  pos : Pos
  /-- Every list that has been stored, the current one first. -/
  stored : List (List α)

/-- The loop is about to start on a vector. -/
def start (vec : Vec α) (fresh : ℕ) : State α β :=
  ⟨vec, fresh, vec.begin, [], .test, [vec.elements]⟩

inductive Action (α : Type u)
  | walk
  | assign (items : List α)

/-- One step of the loop. -/
def walk (f : α → β) (s : State α β) : Option (State α β) :=
  match s.pos with
  | .test =>
      if s.itr.block = s.vec.block then
        some { s with pos := if s.itr.offset = s.vec.elements.length then .done else .read }
      else some { s with pos := .undefined }
  | .read =>
      if s.itr.block = s.vec.block then
        match s.vec.elements[s.itr.offset]? with
        | some x => some { s with out := s.out ++ [f x], pos := .increment }
        | none => some { s with pos := .undefined }
      else some { s with pos := .undefined }
  | .increment => some { s with itr := { s.itr with offset := s.itr.offset + 1 }, pos := .test }
  | .done | .undefined => none

def step (growth : Growth) (f : α → β) (s : State α β) : Action α → Option (State α β)
  | .walk => walk f s
  | .assign items =>
      some { s with
        vec := s.vec.assign growth s.fresh items
        fresh := s.fresh + 1
        stored := items :: s.stored }

/-- The loop, and whoever assigns to its vector. -/
def system (growth : Growth) (f : α → β) (vec : Vec α) (fresh : ℕ) :
    TransitionSystem (State α β) (Action α) where
  init := start vec fresh
  step := step growth f

/-! ## Safety -/

/-- The output is the image of a list that was stored. -/
def MapsStored (f : α → β) (stored : List (List α)) (out : List β) : Prop :=
  ∃ l ∈ stored, out = l.map f

/-- The iterator points into the vector, or to its end, at a test, and to one of
its elements at a read; and a finished loop has mapped one of the stored lists. -/
structure Safe (f : α → β) (s : State α β) : Prop where
  test : s.pos = .test → s.itr.block = s.vec.block ∧ s.itr.offset ≤ s.vec.elements.length
  read : s.pos = .read → s.itr.block = s.vec.block ∧ s.itr.offset < s.vec.elements.length
  done : s.pos = .done → MapsStored f s.stored s.out

/-- The loop has exited. -/
def Pos.exited : Pos → Bool
  | .done | .undefined => true
  | _ => false

/-- The number of elements that the loop has behind it. -/
def Pos.behind (offset : ℕ) : Pos → ℕ
  | .increment => offset + 1
  | _ => offset

/-- The list reaches as far as a loop has come that has this many elements
behind it. -/
def Pos.Within (items : List α) (behind : ℕ) : Pos → Prop
  | .read => behind < items.length
  | _ => behind ≤ items.length

instance Pos.decidableWithin (items : List α) (behind : ℕ) :
    ∀ pos : Pos, Decidable (pos.Within items behind)
  | .read => inferInstanceAs (Decidable (_ < _))
  | .test | .increment | .done | .undefined => inferInstanceAs (Decidable (_ ≤ _))

/-- **The condition on assignments**, on the vector and the iterator before the
step: the list fits, reaches as far as the loop has come, and leaves what the loop
has behind it as it is drawn. -/
def Ahead (f : α → β) (s : State α β) : Action α → Prop
  | .walk => True
  | .assign items => s.pos.exited = false →
      items.length ≤ s.vec.capacity ∧ s.pos.Within items (s.pos.behind s.itr.offset) ∧
        (items.take (s.pos.behind s.itr.offset)).map f =
          (s.vec.elements.take (s.pos.behind s.itr.offset)).map f

/-! ## Assignments ahead of the cursor -/

/-- The iterator is good, the list reaches that far, and what the loop has behind
it is what it has mapped. -/
structure Ongoing (f : α → β) (s : State α β) : Prop where
  valid : s.itr.block = s.vec.block
  within : s.pos.Within s.vec.elements (s.pos.behind s.itr.offset)
  maps : s.out = (s.vec.elements.take (s.pos.behind s.itr.offset)).map f

/-- **The invariant** of a walk with assignments ahead of it. -/
structure Sound (f : α → β) (s : State α β) : Prop where
  below : s.vec.block < s.fresh
  current : s.vec.elements ∈ s.stored
  defined : s.pos ≠ .undefined
  ongoing : s.pos.exited = false → Ongoing f s
  done : s.pos = .done → MapsStored f s.stored s.out

variable {growth : Growth} {f : α → β} {s s' : State α β}

theorem sound_start {vec : Vec α} {fresh : ℕ} (below : vec.block < fresh) :
    Sound f (start vec fresh : State α β) where
  below := below
  current := List.mem_singleton.mpr rfl
  defined := nofun
  ongoing := fun _ => ⟨rfl, Nat.zero_le _, rfl⟩
  done := nofun

/-- A running loop is sound if what it carries is in order. -/
private theorem Ongoing.sound (held : Ongoing f s) (below : s.vec.block < s.fresh)
    (current : s.vec.elements ∈ s.stored) (running : s.pos.exited = false) : Sound f s := by
  refine ⟨below, current, fun pos => ?_, fun _ => held, fun pos => ?_⟩
  · rw [pos] at running
    cases running
  · rw [pos] at running
    cases running

theorem Sound.safe (held : Sound f s) : Safe f s := by
  refine ⟨fun pos => ?_, fun pos => ?_, held.done⟩
  · obtain ⟨valid, within, -⟩ := held.ongoing (by rw [pos]; rfl)
    rw [pos] at within
    exact ⟨valid, within⟩
  · obtain ⟨valid, within, -⟩ := held.ongoing (by rw [pos]; rfl)
    rw [pos] at within
    exact ⟨valid, within⟩

/-! ## One step of the loop -/

theorem walk_test (pos : s.pos = .test) (valid : s.itr.block = s.vec.block) :
    walk f s = some { s with
      pos := if s.itr.offset = s.vec.elements.length then .done else .read } := by
  simp only [walk, pos, if_pos valid]

theorem walk_read (pos : s.pos = .read) (valid : s.itr.block = s.vec.block)
    (inside : s.itr.offset < s.vec.elements.length) :
    walk f s = some { s with
      out := s.out ++ [f s.vec.elements[s.itr.offset]]
      pos := .increment } := by
  simp only [walk, pos, if_pos valid, List.getElem?_eq_getElem inside]

theorem walk_increment (pos : s.pos = .increment) :
    walk f s =
      some { s with itr := { s.itr with offset := s.itr.offset + 1 }, pos := .test } := by
  simp only [walk, pos]

/-- The test exits exactly when nothing is left. -/
private theorem Sound.walk_test (held : Sound f s) (pos : s.pos = .test) :
    Sound f { s with pos := if s.itr.offset = s.vec.elements.length then .done else .read } := by
  obtain ⟨valid, within, maps⟩ := held.ongoing (by rw [pos]; rfl)
  rw [pos] at within maps
  have within : s.itr.offset ≤ s.vec.elements.length := within
  have maps : s.out = (s.vec.elements.take s.itr.offset).map f := maps
  by_cases last : s.itr.offset = s.vec.elements.length
  · rw [last, List.take_length] at maps
    rw [if_pos last]
    exact ⟨held.below, held.current, nofun, nofun, fun _ => ⟨_, held.current, maps⟩⟩
  · rw [if_neg last]
    exact Ongoing.sound ⟨valid, Nat.lt_of_le_of_ne within last, maps⟩ held.below held.current rfl

/-- A read finds an element, and moves it behind the loop. -/
private theorem Sound.walk_read (held : Sound f s) (pos : s.pos = .read) :
    ∃ inside : s.itr.offset < s.vec.elements.length,
      Sound f { s with
        out := s.out ++ [f s.vec.elements[s.itr.offset]]
        pos := .increment } := by
  obtain ⟨valid, within, maps⟩ := held.ongoing (by rw [pos]; rfl)
  rw [pos] at within maps
  have within : s.itr.offset < s.vec.elements.length := within
  have maps : s.out = (s.vec.elements.take s.itr.offset).map f := maps
  refine ⟨within, Ongoing.sound ⟨valid, within, ?_⟩ held.below held.current rfl⟩
  show s.out ++ [_] = (s.vec.elements.take (s.itr.offset + 1)).map f
  rw [List.take_succ_eq_append_getElem within, List.map_append, ← maps]
  rfl

private theorem Sound.walk (held : Sound f s) (moved : walk f s = some s') : Sound f s' := by
  cases pos : s.pos with
  | test =>
      rw [Cursor.walk_test pos (held.ongoing (by rw [pos]; rfl)).valid] at moved
      cases moved
      exact held.walk_test pos
  | read =>
      obtain ⟨inside, held'⟩ := held.walk_read pos
      rw [Cursor.walk_read pos (held.ongoing (by rw [pos]; rfl)).valid inside] at moved
      cases moved
      exact held'
  | increment =>
      obtain ⟨valid, within, maps⟩ := held.ongoing (by rw [pos]; rfl)
      rw [pos] at within maps
      rw [walk_increment pos] at moved
      cases moved
      exact Ongoing.sound ⟨valid, within, maps⟩ held.below held.current rfl
  | done => simp only [Cursor.walk, pos, reduceCtorEq] at moved
  | undefined => exact absurd pos held.defined

private theorem MapsStored.cons {stored : List (List α)} {out : List β}
    (held : MapsStored f stored out) (items : List α) : MapsStored f (items :: stored) out := by
  obtain ⟨l, member, image⟩ := held
  exact ⟨l, List.mem_cons_of_mem items member, image⟩

theorem Sound.step (held : Sound f s) {a : Action α} (ahead : Ahead f s a)
    (moved : step growth f s a = some s') : Sound f s' := by
  cases a with
  | walk => exact held.walk moved
  | assign items =>
      cases moved
      refine ⟨Vec.assign_block_lt held.below growth items, ?_, held.defined, fun running => ?_,
        fun finished => (held.done finished).cons items⟩
      · rw [Vec.assign_elements]
        exact List.mem_cons_self
      · obtain ⟨fits, within, same⟩ := ahead running
        obtain ⟨valid, -, maps⟩ := held.ongoing running
        refine ⟨?_, ?_, ?_⟩
        · rw [Vec.assign_block_of_fits fits]
          exact valid
        · rw [Vec.assign_elements]
          exact within
        · rw [Vec.assign_elements]
          exact maps.trans same.symm

/-- **Assignments ahead of the cursor keep the walk safe.** -/
theorem sound_of_ahead {vec : Vec α} {fresh : ℕ} (below : vec.block < fresh)
    (reached : (system growth f vec fresh).ReachableUnder (Ahead f) s) : Sound f s :=
  reached.invariant (sound_start below) fun held ahead moved => held.step ahead moved

/-! ## The loop alone -/

/-- Without further assignments the loop gets from one state to the other. -/
def Alone (f : α → β) (s t : State α β) : Prop :=
  ∃ n, (system .exact f .null 0).exec s (List.replicate n .walk) = some t

theorem Alone.refl (s : State α β) : Alone f s s := ⟨0, rfl⟩

theorem Alone.head {t : State α β} (moved : Cursor.walk f s = some s') (rest : Alone f s' t) :
    Alone f s t := by
  obtain ⟨n, ran⟩ := rest
  refine ⟨n + 1, ?_⟩
  rw [List.replicate_succ, TransitionSystem.exec_cons,
    show (system .exact f .null 0).step s .walk = some s' from moved]
  exact ran

/-- A finished loop, with the rest of the list mapped. -/
def State.finished (f : α → β) (s : State α β) (behind : ℕ) : State α β :=
  { s with
    itr := { s.itr with offset := s.vec.elements.length }
    out := s.out ++ (s.vec.elements.drop behind).map f
    pos := .done }

/-- The rest of the loop from a test on, by induction on the number of elements
that are left. -/
private theorem alone_from_test (left : ℕ) (pos : s.pos = .test)
    (valid : s.itr.block = s.vec.block) (count : s.itr.offset + left = s.vec.elements.length) :
    Alone f s (s.finished f s.itr.offset) := by
  induction left generalizing s with
  | zero =>
      have last : s.itr.offset = s.vec.elements.length := count
      have nothing : s.vec.elements.drop s.itr.offset = [] := List.drop_eq_nil_of_le (by omega)
      refine Alone.head (walk_test pos valid) ?_
      rw [if_pos last, State.finished, nothing, List.map_nil, List.append_nil, ← last]
      exact Alone.refl _
  | succ left ih =>
      have inside : s.itr.offset < s.vec.elements.length := by omega
      refine Alone.head (walk_test pos valid) ?_
      rw [if_neg (Nat.ne_of_lt inside)]
      refine Alone.head (walk_read (s := { s with pos := .read }) rfl valid inside) ?_
      refine Alone.head (walk_increment rfl) ?_
      have rest := ih (s := { s with
        itr := { s.itr with offset := s.itr.offset + 1 }
        out := s.out ++ [f s.vec.elements[s.itr.offset]]
        pos := .test }) rfl valid (by show s.itr.offset + 1 + left = s.vec.elements.length; omega)
      simp only [State.finished, List.append_assoc, List.singleton_append] at rest
      rw [State.finished, List.drop_eq_getElem_cons inside, List.map_cons]
      exact rest

/-- **A loop that is left alone ends**, and has mapped what was left of the list. -/
theorem walk_alone (running : s.pos.exited = false) (valid : s.itr.block = s.vec.block)
    (within : s.pos.Within s.vec.elements (s.pos.behind s.itr.offset)) :
    Alone f s (s.finished f (s.pos.behind s.itr.offset)) := by
  cases pos : s.pos with
  | test =>
      rw [pos] at within
      have within : s.itr.offset ≤ s.vec.elements.length := within
      exact alone_from_test (s.vec.elements.length - s.itr.offset) pos valid (by omega)
  | read =>
      rw [pos] at within
      have inside : s.itr.offset < s.vec.elements.length := within
      refine Alone.head (walk_read pos valid inside) ?_
      refine Alone.head (walk_increment rfl) ?_
      have rest := alone_from_test (f := f) (s := { s with
        itr := { s.itr with offset := s.itr.offset + 1 }
        out := s.out ++ [f s.vec.elements[s.itr.offset]]
        pos := .test }) (s.vec.elements.length - (s.itr.offset + 1)) rfl valid
        (Nat.add_sub_cancel' inside)
      simp only [State.finished, List.append_assoc, List.singleton_append] at rest
      rw [State.finished, Pos.behind, List.drop_eq_getElem_cons inside, List.map_cons]
      · exact rest
      · exact nofun
  | increment =>
      rw [pos] at within
      have reached : s.itr.offset + 1 ≤ s.vec.elements.length := within
      refine Alone.head (walk_increment pos) ?_
      exact alone_from_test (s.vec.elements.length - (s.itr.offset + 1)) rfl valid
        (Nat.add_sub_cancel' reached)
  | done => rw [pos] at running; cases running
  | undefined => rw [pos] at running; cases running

/-! ## Assignments that are not ahead of the cursor -/

/-- The walk is unsafe, or it has ended with something else than its list. -/
def Astray (f : α → β) (s : State α β) : Prop :=
  ¬ Safe f s ∨ s.pos = .done ∧ s.out ≠ s.vec.elements.map f

/-- An iterator that dangles, or that the list does not reach, is used at once. -/
private theorem unsafe_of_misplaced (running : s.pos.exited = false)
    (misplaced : ¬ (s.itr.block = s.vec.block ∧
      s.pos.Within s.vec.elements (s.pos.behind s.itr.offset))) :
    ∃ t, Alone f s t ∧ ¬ Safe f t := by
  cases pos : s.pos with
  | test =>
      rw [pos] at misplaced
      exact ⟨s, Alone.refl s, fun safe => misplaced (safe.test pos)⟩
  | read =>
      rw [pos] at misplaced
      exact ⟨s, Alone.refl s, fun safe => misplaced (safe.read pos)⟩
  | increment =>
      rw [pos] at misplaced
      exact ⟨_, Alone.head (walk_increment pos) (Alone.refl _),
        fun safe => misplaced (safe.test rfl)⟩
  | done => rw [pos] at running; cases running
  | undefined => rw [pos] at running; cases running

/-- **After an assignment that is not ahead of it the walk goes astray**, if it is
left alone from then on. -/
theorem astray_of_not_ahead (held : Sound f s) {items : List α}
    (behind : ¬ Ahead f s (.assign items)) (moved : step growth f s (.assign items) = some s') :
    ∃ t, Alone f s' t ∧ Astray f t := by
  cases moved
  obtain ⟨running, wrong⟩ := Classical.not_imp.mp behind
  obtain ⟨valid, -, maps⟩ := held.ongoing running
  by_cases placed : items.length ≤ s.vec.capacity ∧
      s.pos.Within items (s.pos.behind s.itr.offset)
  · obtain ⟨fits, within⟩ := placed
    refine ⟨_, walk_alone running ?_ ?_, Or.inr ⟨rfl, fun same => wrong ⟨fits, within, ?_⟩⟩⟩
    · show s.itr.block = (s.vec.assign growth s.fresh items).block
      rw [Vec.assign_block_of_fits fits]
      exact valid
    · rw [Vec.assign_elements]
      exact within
    · -- the two lists agree on what follows, so they agree on what is behind
      simp only [State.finished, Vec.assign_elements] at same
      rw [maps, ← List.take_append_drop (s.pos.behind s.itr.offset) items, List.map_append] at same
      simp only [List.take_append_drop] at same
      exact (List.append_cancel_right same).symm
  · have misplaced : ¬ (s.itr.block = (s.vec.assign growth s.fresh items).block ∧
        s.pos.Within (s.vec.assign growth s.fresh items).elements
          (s.pos.behind s.itr.offset)) := by
      rw [Vec.assign_elements]
      rintro ⟨block, within⟩
      refine placed ⟨?_, within⟩
      by_contra large
      rw [Vec.assign_block_of_not_fits large, valid] at block
      exact absurd block (Nat.ne_of_lt held.below)
    obtain ⟨t, alone, bad⟩ := unsafe_of_misplaced (f := f) (s := { s with
      vec := s.vec.assign growth s.fresh items
      fresh := s.fresh + 1
      stored := items :: s.stored }) running misplaced
    exact ⟨t, alone, Or.inl bad⟩

end Concurrency.Cursor
