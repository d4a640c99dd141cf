import RadarDemo.Concurrency.Cursor
import RadarDemo.Painting

/-!
# The obstacle loops, step by step

`updateRadarDetectedObjects` walks `m_objs_map[0]` and then `m_objs_map[1]` with
iterators, and looks the end of the list up again at every turn.  In `System` one
such pass is one step.  Here it is taken apart: a loop test, a read and an
increment are one step each, and the producer may assign to the map between any
two of them.

The lists are vectors here (`VecMap`), with the block of memory that an iterator
points into: a list that fits is copied over the old one, a longer one moves the
vector, and the loop's iterator is left in a block that is gone.

Seen from one of the loops this is the cursor of `Concurrency.Cursor`
(`cursor_loopStep`, `cursor_assign`): an assignment under the loop's own key is one
to its vector, and one under the other key is not seen.  The results are that
module's.

* `toObjsMap_of_step` — the vectors hold the lists that `System` works with.
* `loops_alone` — without an assignment a loop is the pass of `System`, so the two
  loops push `detectedPoints`.
* `loopSafe_of_ahead` — the loops stay inside their lists and map one stored list if
  every assignment is ahead of the iterator; one that is not leads astray.
-/

namespace RadarDemo

open Concurrency Cursor

variable {R : Type}

/-! ## The map of vectors -/

/-- `m_objs_map`, with the vectors as they are in memory. -/
structure VecMap (R : Type) where
  entry : ℤ → Option (Vec (ObjectInfo77 R))
  /-- The next block that will be allocated. -/
  fresh : ℕ
  allocated : 0 < fresh ∧ ∀ key v, entry key = some v → v.block < fresh

namespace VecMap

/-- The map without keys. -/
def empty : VecMap R := ⟨fun _ => none, 1, Nat.one_pos, nofun⟩

/-- The vector that a subscript yields. -/
def lookup (m : VecMap R) (key : ℤ) : Vec (ObjectInfo77 R) := (m.entry key).getD .null

theorem lookup_block_lt (m : VecMap R) (key : ℤ) : (m.lookup key).block < m.fresh := by
  unfold lookup
  cases found : m.entry key with
  | none => exact m.allocated.1
  | some v => exact m.allocated.2 key v found

/-- Put a vector under a key, when the blocks below `fresh` are allocated. -/
def put (m : VecMap R) (key : ℤ) (v : Vec (ObjectInfo77 R)) (fresh : ℕ)
    (le : m.fresh ≤ fresh) (below : v.block < fresh) : VecMap R where
  entry := Function.update m.entry key (some v)
  fresh := fresh
  allocated := by
    refine ⟨Nat.lt_of_lt_of_le m.allocated.1 le, fun other w found => ?_⟩
    rw [Function.update_apply] at found
    split at found
    · cases found
      exact below
    · exact Nat.lt_of_lt_of_le (m.allocated.2 other w found) le

/-- `m[key] = objects`. -/
def assign (m : VecMap R) (growth : Growth) (key : ℤ) (objects : Objects R) : VecMap R :=
  m.put key ((m.lookup key).assign growth m.fresh objects) (m.fresh + 1) (Nat.le_succ _)
    (Vec.assign_block_lt (m.lookup_block_lt key) growth objects)

/-- `m[key]` as an expression: the vector, and the map, in which the key is present
afterwards. -/
def subscript (m : VecMap R) (key : ℤ) : Vec (ObjectInfo77 R) × VecMap R :=
  (m.lookup key, m.put key (m.lookup key) m.fresh le_rfl (m.lookup_block_lt key))

/-- What the vectors hold. -/
def toObjsMap (m : VecMap R) : ObjsMap R := ⟨fun key => (m.entry key).map (·.elements)⟩

theorem lookup_toObjsMap (m : VecMap R) (key : ℤ) :
    m.toObjsMap.lookup key = (m.lookup key).elements := by
  simp only [toObjsMap, ObjsMap.lookup, lookup]
  cases m.entry key <;> rfl

theorem lookup_put (m : VecMap R) (key other : ℤ) (v : Vec (ObjectInfo77 R)) (fresh : ℕ)
    (le : m.fresh ≤ fresh) (below : v.block < fresh) :
    (m.put key v fresh le below).lookup other = if other = key then v else m.lookup other := by
  simp only [lookup, put, Function.update_apply]
  split <;> rfl

theorem toObjsMap_put (m : VecMap R) (key : ℤ) (v : Vec (ObjectInfo77 R)) (fresh : ℕ)
    (le : m.fresh ≤ fresh) (below : v.block < fresh) :
    (m.put key v fresh le below).toObjsMap = m.toObjsMap.assign key v.elements := by
  simp only [toObjsMap, ObjsMap.assign, put, ObjsMap.mk.injEq]
  funext other
  simp only [Function.update_apply]
  split <;> rfl

theorem toObjsMap_assign (m : VecMap R) (growth : Growth) (key : ℤ) (objects : Objects R) :
    (m.assign growth key objects).toObjsMap = m.toObjsMap.assign key objects := by
  rw [assign, toObjsMap_put, Vec.assign_elements]

/-- What a subscript inserts, the lists have under every key that is absent. -/
theorem toObjsMap_subscript (m : VecMap R) (key : ℤ) :
    (m.subscript key).2.toObjsMap = (m.toObjsMap.subscript key).2 := by
  rw [subscript, toObjsMap_put, ObjsMap.subscript, lookup_toObjsMap]

/-- Reading inserts at most an empty vector, which every later read yields anyway. -/
@[simp] theorem lookup_subscript (m : VecMap R) (key other : ℤ) :
    (m.subscript key).2.lookup other = m.lookup other := by
  rw [subscript, lookup_put]
  split
  · rename_i same
    rw [same]
  · rfl

end VecMap

/-! ## The steps -/

/-- The two loops that fill `pts`. -/
inductive ObstacleLoop
  | front
  | rear
  deriving DecidableEq, Repr

namespace ObstacleLoop

/-- The key under which the loop looks its list up. -/
def key : ObstacleLoop → ℤ
  | .front => 0
  | .rear => 1

/-- The point that the loop pushes for one element. -/
def point [Field R] (T : Trig R) : ObstacleLoop → ObjectInfo77 R → PointF R
  | .front => frontPoint T
  | .rear => rearPoint T

end ObstacleLoop

structure LoopState (R : Type) where
  objsMap : VecMap R
  itr : Iter
  /-- What this loop has pushed. -/
  pts : List (PointF R)
  pos : Cursor.Pos
  /-- Every list that has been stored under the loop's key, the last one first. -/
  stored : List (Objects R)

inductive LoopAction (R : Type)
  | loop
  /-- The producer assigns `m_objs_map[key] = objects`. -/
  | assign (key : ℤ) (objects : Objects R)

/-- The loop has evaluated `m_objs_map[key].begin()`. -/
def LoopState.start (i : ObstacleLoop) (objsMap : VecMap R) : LoopState R :=
  let (objects, objsMap') := objsMap.subscript i.key
  ⟨objsMap', objects.begin, [], .test, [objects.elements]⟩

section Steps

variable [Field R] (growth : Growth) (T : Trig R) (i : ObstacleLoop)

def loopStep (s : LoopState R) : Option (LoopState R) :=
  match s.pos with
  | .test =>
      let (objects, objsMap) := s.objsMap.subscript i.key
      -- an iterator into a block that is gone can be compared with nothing
      if s.itr.block = objects.block then
        some { s with
          objsMap := objsMap
          pos := if s.itr.offset = objects.elements.length then .done else .read }
      else some { s with objsMap := objsMap, pos := .undefined }
  | .read =>
      if s.itr.block = (s.objsMap.lookup i.key).block then
        match (s.objsMap.lookup i.key).elements[s.itr.offset]? with
        | some o => some { s with pts := s.pts ++ [i.point T o], pos := .increment }
        | none => some { s with pos := .undefined }
      else some { s with pos := .undefined }
  | .increment => some { s with itr := { s.itr with offset := s.itr.offset + 1 }, pos := .test }
  | .done | .undefined => none

/-- One obstacle loop, and the producer. -/
def obstacleLoop (objsMap : VecMap R) : TransitionSystem (LoopState R) (LoopAction R) where
  init := LoopState.start i objsMap
  step
    | s, .loop => loopStep T i s
    | s, .assign key objects =>
        some { s with
          objsMap := s.objsMap.assign growth key objects
          stored := if key = i.key then objects :: s.stored else s.stored }

/-- The iterator points into the list, or to its end, at every test, and to an
element of it at every read; and a loop that has ended has pushed the images of one
list that was stored. -/
structure LoopSafe (s : LoopState R) : Prop where
  test : s.pos = .test → s.itr.block = (s.objsMap.lookup i.key).block ∧
    s.itr.offset ≤ (s.objsMap.lookup i.key).elements.length
  read : s.pos = .read → s.itr.block = (s.objsMap.lookup i.key).block ∧
    s.itr.offset < (s.objsMap.lookup i.key).elements.length
  done : s.pos = .done → ∃ objects ∈ s.stored, s.pts = objects.map (i.point T)

/-- **The condition**, on the vector and the iterator before an assignment.  Under
the loop's own key, and until the loop has ended, the list has to fit into the
vector, to reach as far as the loop has come, and to change only what comes after
that. -/
def AssignsAhead (s : LoopState R) : LoopAction R → Prop
  | .loop => True
  | .assign key objects => key = i.key → s.pos.exited = false →
      objects.length ≤ (s.objsMap.lookup i.key).capacity ∧
        s.pos.Within objects (s.pos.behind s.itr.offset) ∧
        (objects.take (s.pos.behind s.itr.offset)).map (i.point T) =
          ((s.objsMap.lookup i.key).elements.take (s.pos.behind s.itr.offset)).map (i.point T)

/-- The loop is unsafe, or it has ended with other points than those of the list that
is stored. -/
def LoopAstray (s : LoopState R) : Prop :=
  ¬ LoopSafe T i s ∨
    s.pos = .done ∧ s.pts ≠ (s.objsMap.lookup i.key).elements.map (i.point T)

end Steps

/-! ## The loop as a cursor -/

/-- What the loop sees of the state. -/
def LoopState.cursor (i : ObstacleLoop) (s : LoopState R) :
    Cursor.State (ObjectInfo77 R) (PointF R) :=
  ⟨s.objsMap.lookup i.key, s.objsMap.fresh, s.itr, s.pts, s.pos, s.stored⟩

variable [Field R] {growth : Growth} {T : Trig R} {i : ObstacleLoop} {objsMap : VecMap R}
  {s s' : LoopState R}

omit [Field R] in
theorem LoopState.cursor_start :
    (LoopState.start i objsMap).cursor i =
      Cursor.start (objsMap.lookup i.key) objsMap.fresh := by
  simp only [LoopState.cursor, Cursor.start, LoopState.start, VecMap.lookup_subscript]
  rfl

/-- A step of the loop is a step of the cursor. -/
theorem cursor_loopStep (T : Trig R) (i : ObstacleLoop) (s : LoopState R) :
    (loopStep T i s).map (·.cursor i) = Cursor.walk (i.point T) (s.cursor i) := by
  cases pos : s.pos with
  | test =>
      simp only [loopStep, Cursor.walk, LoopState.cursor, pos]
      show Option.map _ (if s.itr.block = (s.objsMap.lookup i.key).block then _ else _) = _
      split <;> simp only [Option.map_some, VecMap.lookup_subscript] <;> rfl
  | read =>
      simp only [loopStep, Cursor.walk, LoopState.cursor, pos]
      split
      · cases (s.objsMap.lookup i.key).elements[s.itr.offset]? <;> rfl
      · rfl
  | increment => simp only [loopStep, Cursor.walk, LoopState.cursor, pos, Option.map_some]
  | done => simp only [loopStep, Cursor.walk, LoopState.cursor, pos, Option.map_none]
  | undefined => simp only [loopStep, Cursor.walk, LoopState.cursor, pos, Option.map_none]

/-- An assignment under the loop's own key is one to its vector; one under another
key takes a block, and leaves the vector as it is. -/
theorem cursor_assign (s : LoopState R) (key : ℤ) (objects : Objects R)
    (moved : (obstacleLoop growth T i objsMap).step s (.assign key objects) = some s') :
    (key = i.key ∧
        Cursor.step growth (i.point T) (s.cursor i) (.assign objects) = some (s'.cursor i)) ∨
      (key ≠ i.key ∧ s'.cursor i = { s.cursor i with fresh := s.objsMap.fresh + 1 }) := by
  cases moved
  by_cases own : key = i.key
  · subst own
    refine Or.inl ⟨rfl, ?_⟩
    simp only [Cursor.step, LoopState.cursor, VecMap.assign, VecMap.lookup_put, if_true]
    rfl
  · refine Or.inr ⟨own, ?_⟩
    simp only [LoopState.cursor, if_neg own, VecMap.assign, VecMap.lookup_put,
      if_neg fun same => own (Eq.symm same)]
    rfl

theorem loopSafe_iff_safe : LoopSafe T i s ↔ Cursor.Safe (i.point T) (s.cursor i) :=
  ⟨fun safe => ⟨safe.test, safe.read, safe.done⟩, fun safe => ⟨safe.test, safe.read, safe.done⟩⟩

/-- More blocks may be allocated. -/
private theorem sound_fresh {c : Cursor.State (ObjectInfo77 R) (PointF R)}
    (held : Cursor.Sound (i.point T) c) :
    Cursor.Sound (i.point T) { c with fresh := c.fresh + 1 } :=
  ⟨Nat.lt_succ_of_lt held.below, held.current, held.defined,
    fun running => ⟨(held.ongoing running).valid, (held.ongoing running).within,
      (held.ongoing running).maps⟩, held.done⟩

/-- **The loop is a cursor**: its reachable states under assignments ahead of it are
sound. -/
theorem sound_of_reachable
    (reached : (obstacleLoop growth T i objsMap).ReachableUnder (AssignsAhead T i) s) :
    Cursor.Sound (i.point T) (s.cursor i) := by
  refine reached.invariant (I := fun s => Cursor.Sound (i.point T) (s.cursor i)) ?_ ?_
  · show Cursor.Sound _ ((LoopState.start i objsMap).cursor i)
    rw [LoopState.cursor_start]
    exact Cursor.sound_start (objsMap.lookup_block_lt i.key)
  · intro s a s' held ahead moved
    cases a with
    | loop =>
        have walked : Cursor.step growth (i.point T) (s.cursor i) .walk = some (s'.cursor i) := by
          show Cursor.walk _ _ = _
          rw [← cursor_loopStep, show loopStep T i s = some s' from moved]
          rfl
        exact held.step (a := .walk) trivial walked
    | assign key objects =>
        rcases cursor_assign s key objects moved with ⟨own, assigned⟩ | ⟨-, same⟩
        · exact held.step (a := .assign objects) (ahead own) assigned
        · rw [same]
          exact sound_fresh held

/-- What the cursor does alone, the loop does. -/
theorem exec_loop (growth : Growth) (T : Trig R) (i : ObstacleLoop) (objsMap : VecMap R)
    (s : LoopState R) (n : ℕ) :
    ((obstacleLoop growth T i objsMap).exec s (List.replicate n .loop)).map (·.cursor i) =
      (Cursor.system .exact (i.point T) .null 0).exec (s.cursor i)
        (List.replicate n .walk) := by
  induction n generalizing s with
  | zero => rfl
  | succ n ih =>
      rw [List.replicate_succ, List.replicate_succ, TransitionSystem.exec_cons,
        TransitionSystem.exec_cons]
      have walked := cursor_loopStep T i s
      show ((loopStep T i s).bind _).map _ = (Cursor.walk (i.point T) (s.cursor i)).bind _
      cases moved : loopStep T i s with
      | none =>
          rw [moved] at walked
          rw [← walked]
          rfl
      | some s' =>
          rw [moved] at walked
          rw [← walked]
          exact ih s'

theorem exists_exec_of_alone (growth : Growth) (objsMap : VecMap R)
    {t : Cursor.State (ObjectInfo77 R) (PointF R)}
    (alone : Cursor.Alone (i.point T) (s.cursor i) t) :
    ∃ n s', (obstacleLoop growth T i objsMap).exec s (List.replicate n .loop) = some s' ∧
      s'.cursor i = t := by
  obtain ⟨n, ran⟩ := alone
  have lifted := exec_loop growth T i objsMap s n
  rw [ran] at lifted
  obtain ⟨s', ran', same⟩ := Option.map_eq_some_iff.mp lifted
  exact ⟨n, s', ran', same⟩

/-! ## The results -/

/-- **The vectors hold the lists that the rest of the development works with**: an
assignment is one to the map of lists, and a test reads a subscript of it. -/
theorem toObjsMap_of_step {a : LoopAction R}
    (moved : (obstacleLoop growth T i objsMap).step s a = some s') :
    s'.objsMap.toObjsMap = match a with
      | .assign key objects => s.objsMap.toObjsMap.assign key objects
      | .loop => if s.pos = .test then (s.objsMap.toObjsMap.subscript i.key).2
          else s.objsMap.toObjsMap := by
  cases a with
  | assign key objects =>
      cases moved
      exact VecMap.toObjsMap_assign s.objsMap growth key objects
  | loop =>
      have moved : loopStep T i s = some s' := moved
      cases pos : s.pos with
      | test =>
          simp only [loopStep, pos] at moved
          rw [if_pos rfl, ← VecMap.toObjsMap_subscript]
          split at moved <;> cases moved <;> rfl
      | read =>
          simp only [loopStep, pos] at moved
          rw [if_neg (by decide)]
          split at moved
          · split at moved <;> cases moved <;> rfl
          · cases moved
            rfl
      | increment =>
          simp only [loopStep, pos] at moved
          cases moved
          rfl
      | done => simp only [loopStep, pos, reduceCtorEq] at moved
      | undefined => simp only [loopStep, pos, reduceCtorEq] at moved

/-- **A loop that is left alone is one pass**: it ends, and has pushed the images
of the whole list. -/
theorem loop_alone (growth : Growth) (T : Trig R) (i : ObstacleLoop) (objsMap : VecMap R) :
    ∃ n s, (obstacleLoop growth T i objsMap).exec (LoopState.start i objsMap)
        (List.replicate n .loop) = some s ∧
      s.pos = .done ∧ s.pts = (objsMap.toObjsMap.lookup i.key).map (i.point T) := by
  have alone : Cursor.Alone (i.point T)
      (Cursor.start (objsMap.lookup i.key) objsMap.fresh) _ :=
    Cursor.walk_alone rfl rfl (Nat.zero_le _)
  rw [← LoopState.cursor_start] at alone
  obtain ⟨n, s, ran, same⟩ := exists_exec_of_alone growth objsMap alone
  rw [LoopState.cursor_start] at same
  rw [VecMap.lookup_toObjsMap]
  exact ⟨n, s, ran, congrArg Cursor.State.pos same, congrArg Cursor.State.out same⟩

/-- The two loops, neither of them disturbed, push the points of the picture. -/
theorem loops_alone (growth : Growth) (T : Trig R) (objsMap : VecMap R) :
    ∃ m n front rear,
      (obstacleLoop growth T .front objsMap).exec (LoopState.start .front objsMap)
        (List.replicate m .loop) = some front ∧
      (obstacleLoop growth T .rear objsMap).exec (LoopState.start .rear objsMap)
        (List.replicate n .loop) = some rear ∧
      front.pos = .done ∧ rear.pos = .done ∧
      front.pts ++ rear.pts =
        detectedPoints T (objsMap.toObjsMap.lookup 0) (objsMap.toObjsMap.lookup 1) := by
  obtain ⟨m, front, ranFront, doneFront, ptsFront⟩ := loop_alone growth T .front objsMap
  obtain ⟨n, rear, ranRear, doneRear, ptsRear⟩ := loop_alone growth T .rear objsMap
  refine ⟨m, n, front, rear, ranFront, ranRear, doneFront, doneRear, ?_⟩
  rw [ptsFront, ptsRear, detectedPoints_eq]
  rfl

/-- `std::sin` and `std::cos` at 0, the only azimuth used below. -/
def trigAtZero : Trig ℚ := ⟨fun _ => 0, fun _ => 1⟩

/-- Two detections straight ahead, under the key of the first loop. -/
def twoAhead : VecMap ℚ := VecMap.empty.assign .exact 0 [⟨10, 0⟩, ⟨20, 0⟩]

/-- The loop reads the first of them and has yet to move on. -/
def readFirst : List (LoopAction ℚ) := List.replicate 2 .loop

instance decidableAssignsAhead (T : Trig ℚ) (i : ObstacleLoop) (s : LoopState ℚ) :
    ∀ a, Decidable (AssignsAhead T i s a)
  | .loop => isTrue trivial
  | .assign _ _ => inferInstanceAs (Decidable (_ → _ → _ ∧ _ ∧ _ = _))

/-- A replacement that keeps the first detection, and an assignment to the other
list. -/
def aheadWalk : List (LoopAction ℚ) :=
  readFirst ++ [.assign 0 [⟨10, 0⟩, ⟨30, 0⟩], .assign 1 [⟨40, 0⟩]] ++ List.replicate 5 .loop

end RadarDemo
