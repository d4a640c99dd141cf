import Mathlib.Algebra.Order.Field.Basic
import Mathlib.Data.Int.Cast.Lemmas
import Mathlib.Logic.Function.Basic
import Mathlib.Tactic.NormNum
import Mathlib.Tactic.Positivity
import Mathlib.Tactic.Ring
import RadarDemo.Geometry
import RadarDemo.Observable

/-!
# The test model

`class TestModel` without its thread: the data that the producer stores and the
UI thread reads, each store as an operation on it, and the generator that
computes what one iteration of `gen_amp` stores.

* `ObjsMap` — `std::unordered_map<int, objects_t>`, whose subscript operator
  inserts an empty list under a key that is absent, also when it only reads.
* `TestModel` — the members.  `sonar` is the one member without an initial
  value, which `none` records.
* `genBatch` — one iteration of `gen_amp` up to its stores, from the results of
  `std::rand()` in the order in which the source asks for them.
-/

namespace RadarDemo

/-! ## The data -/

/-- `ObjectInfo_77`: one detection, its distance in cm and its bearing. -/
structure ObjectInfo77 (R : Type) where
  range : R
  azimuth : R
  deriving DecidableEq, Repr

/-- `SonarData`. -/
structure SonarData (R : Type) where
  left : R
  right : R
  deriving DecidableEq, Repr

/-- `objects_t`. -/
abbrev Objects (R : Type) := List (ObjectInfo77 R)

/-- What one iteration of the producer stores. -/
structure Batch (R : Type) where
  front : Objects R
  rear : Objects R
  sonar : SonarData R
  deriving DecidableEq, Repr

/-- `std::unordered_map<int, objects_t>`: the list under each key, if present. -/
structure ObjsMap (R : Type) where
  entry : ℤ → Option (Objects R)

namespace ObjsMap

variable {R : Type}

/-- The map without keys. -/
def empty : ObjsMap R := ⟨fun _ => none⟩

/-- The list that a subscript yields. -/
def lookup (m : ObjsMap R) (key : ℤ) : Objects R := (m.entry key).getD []

/-- `m[key] = objects`. -/
def assign (m : ObjsMap R) (key : ℤ) (objects : Objects R) : ObjsMap R :=
  ⟨Function.update m.entry key (some objects)⟩

/-- `m[key]` as an expression: the list, and the map, in which the key is present
afterwards. -/
def subscript (m : ObjsMap R) (key : ℤ) : Objects R × ObjsMap R :=
  (m.lookup key, m.assign key (m.lookup key))

@[simp] theorem lookup_assign_self (m : ObjsMap R) (key : ℤ) (objects : Objects R) :
    (m.assign key objects).lookup key = objects := by
  simp [lookup, assign]

@[simp] theorem lookup_assign_of_ne (m : ObjsMap R) {key other : ℤ} (different : other ≠ key)
    (objects : Objects R) : (m.assign key objects).lookup other = m.lookup other := by
  simp [lookup, assign, Function.update_of_ne different]

@[simp] theorem subscript_fst (m : ObjsMap R) (key : ℤ) :
    (m.subscript key).1 = m.lookup key := rfl

/-- Reading inserts at most an empty list, which every later read yields anyway. -/
@[simp] theorem lookup_subscript (m : ObjsMap R) (key other : ℤ) :
    (m.subscript key).2.lookup other = m.lookup other := by
  by_cases same : other = key
  · subst same
    exact lookup_assign_self m other _
  · exact lookup_assign_of_ne m same _

end ObjsMap

/-! ## The members and their stores -/

/-- The observers of `dataHB`; `main` subscribes one lambda. -/
inductive Observer
  /-- Lay the content view out again and schedule its painting. -/
  | relayoutAndPaint
  deriving DecidableEq, Repr

/-- The data members of `TestModel`. -/
structure TestModel (R : Type) where
  dataHB : Observable.Value Bool Observer
  sonar : Option (SonarData R)
  objsMap : ObjsMap R
  toggle : Bool

namespace TestModel

variable {R : Type}

/-- The members as the constructor leaves them to the new thread. -/
def construct : TestModel R where
  dataHB := Observable.Value.ofInitial false
  sonar := none
  objsMap := ObjsMap.empty
  toggle := false

/-- `m_objs_map[0] = front`. -/
def storeFront (m : TestModel R) (batch : Batch R) : TestModel R :=
  { m with objsMap := m.objsMap.assign 0 batch.front }

/-- `m_objs_map[1] = rear`. -/
def storeRear (m : TestModel R) (batch : Batch R) : TestModel R :=
  { m with objsMap := m.objsMap.assign 1 batch.rear }

/-- `m_sonar = { … }`. -/
def storeSonar (m : TestModel R) (batch : Batch R) : TestModel R :=
  { m with sonar := some batch.sonar }

/-- `_toggle = !_toggle`. -/
def flipToggle (m : TestModel R) : TestModel R :=
  { m with toggle := !m.toggle }

/-- `dataHB = _toggle`, with the observers it has to call. -/
def assignHB (m : TestModel R) : Except Observable.SetError (TestModel R × List Observer) :=
  (m.dataHB.set m.toggle).map fun (hb, notified) => ({ m with dataHB := hb }, notified)

/-- Subscribe to the heartbeat and discard the subscription. -/
def subscribeHB (m : TestModel R) (observer : Observer) : TestModel R :=
  let (hb, sub) := m.dataHB.subscribe observer
  { m with dataHB := hb.discard sub }

/-- Read `m_objs_map[key]`. -/
def readObjs (m : TestModel R) (key : ℤ) : Objects R × TestModel R :=
  ((m.objsMap.subscript key).1, { m with objsMap := (m.objsMap.subscript key).2 })

/-- An assignment that does not throw is `set_impl`'s. -/
theorem of_assignHB_eq_ok {m m' : TestModel R} {notified : List Observer}
    (assigned : m.assignHB = .ok (m', notified)) :
    m' = { m with dataHB := (m.dataHB.setImpl m.toggle).1 } ∧
      notified = (m.dataHB.setImpl m.toggle).2 := by
  unfold assignHB Observable.Value.set at assigned
  split at assigned
  · cases assigned
  · cases assigned
    exact ⟨rfl, rfl⟩

/-- An assignment throws only if an updater drives the heartbeat. -/
theorem exists_assignHB_eq_ok {m : TestModel R} (settable : m.dataHB.hasUpdater = false) :
    ∃ m' notified, m.assignHB = .ok (m', notified) := by
  refine ⟨{ m with dataHB := (m.dataHB.setImpl m.toggle).1 }, (m.dataHB.setImpl m.toggle).2, ?_⟩
  unfold assignHB Observable.Value.set
  rw [settable]
  rfl

@[simp] theorem readObjs_fst (m : TestModel R) (key : ℤ) :
    (m.readObjs key).1 = m.objsMap.lookup key := rfl

@[simp] theorem lookup_readObjs (m : TestModel R) (key other : ℤ) :
    (m.readObjs key).2.objsMap.lookup other = m.objsMap.lookup other :=
  m.objsMap.lookup_subscript key other

end TestModel

/-! ## The generator -/

section Generator

variable {R : Type} [Field R]

/-- `0.1f * (std::rand() % 2000)`, in cm. -/
def genRange (result : ℕ) : R := 1 / 10 * ((result % 2000 : ℕ) : R)

/-- `((std::rand() % 180) - 90) * pi / 180`. -/
def genAzimuth (result : ℕ) : R := ((((result % 180 : ℕ) : ℤ) - 90 : ℤ) : R) * pi R / 180

/-- The body of the loops of `gen_amp`, run `cnt` times from the `pos`-th result
of `std::rand()` on; the position after it is returned. -/
def genObjects (rand : ℕ → ℕ) : ℕ → ℕ → Objects R × ℕ
  | 0, pos => ([], pos)
  | cnt + 1, pos =>
      let object := ⟨genRange (rand pos), genAzimuth (rand (pos + 1))⟩
      let (objects, pos') := genObjects rand cnt (pos + 2)
      (object :: objects, pos')

/-- What one iteration of `gen_amp` generates from the `pos`-th result of
`std::rand()` on. -/
def genBatch (rand : ℕ → ℕ) (pos : ℕ) : Batch R × ℕ :=
  let (front, pos₁) := genObjects rand (rand pos % 10) (pos + 1)
  let (rear, pos₂) := genObjects rand (rand pos₁ % 10) (pos₁ + 1)
  (⟨front, rear, ⟨genRange (rand pos₂), genRange (rand (pos₂ + 1))⟩⟩, pos₂ + 2)

/-- The number of results that the first `k` iterations consume. -/
def genPos (R : Type) [Field R] (rand : ℕ → ℕ) : ℕ → ℕ
  | 0 => 0
  | k + 1 => (genBatch (R := R) rand (genPos R rand k)).2

/-- What `gen_amp` stores in its `k`-th iteration, counted from 1. -/
def genAmp (rand : ℕ → ℕ) (k : ℕ) : Batch R := (genBatch rand (genPos R rand (k - 1))).1

/-- The bounds of a detection: a distance, and a bearing within a quarter turn of
straight ahead. -/
def ObjectInfo77.InBounds [LE R] (o : ObjectInfo77 R) : Prop :=
  0 ≤ o.range ∧ -(pi R / 2) ≤ o.azimuth ∧ o.azimuth ≤ pi R / 2

end Generator

section Bounds

variable {R : Type} [Field R] [LinearOrder R] [IsStrictOrderedRing R]

theorem pi_pos : (0 : R) < pi R := by
  unfold pi
  positivity

theorem genRange_nonneg (result : ℕ) : (0 : R) ≤ genRange result := by
  unfold genRange
  positivity

/-- A generated bearing lies between `-90` and `89` degrees, in the source's
radians. -/
theorem genAzimuth_bounds (result : ℕ) :
    -(pi R / 2) ≤ genAzimuth result ∧ (genAzimuth result : R) ≤ pi R / 2 := by
  have small : result % 180 < 180 := Nat.mod_lt _ (by omega)
  have lower : (-90 : R) ≤ ((((result % 180 : ℕ) : ℤ) - 90 : ℤ) : R) := by
    exact_mod_cast (by omega : (-90 : ℤ) ≤ ((result % 180 : ℕ) : ℤ) - 90)
  have upper : ((((result % 180 : ℕ) : ℤ) - 90 : ℤ) : R) ≤ 90 := by
    exact_mod_cast (by omega : ((result % 180 : ℕ) : ℤ) - 90 ≤ (90 : ℤ))
  have scale : (0 : R) ≤ pi R / 180 := by
    have := pi_pos (R := R)
    positivity
  unfold genAzimuth
  rw [mul_div_assoc]
  constructor
  · calc -(pi R / 2) = -90 * (pi R / 180) := by ring
      _ ≤ _ := mul_le_mul_of_nonneg_right lower scale
  · calc _ ≤ 90 * (pi R / 180) := mul_le_mul_of_nonneg_right upper scale
      _ = pi R / 2 := by ring

/-- **Every generated detection is in bounds**, whatever `std::rand()` returns. -/
theorem inBounds_of_mem_genObjects (rand : ℕ → ℕ) :
    ∀ (cnt pos : ℕ), ∀ o ∈ (genObjects (R := R) rand cnt pos).1, o.InBounds
  | 0, _, _, member => absurd member List.not_mem_nil
  | cnt + 1, pos, o, member => by
      rcases List.mem_cons.mp member with rfl | member
      · exact ⟨genRange_nonneg _, genAzimuth_bounds _⟩
      · exact inBounds_of_mem_genObjects rand cnt (pos + 2) o member

theorem genAmp_front_inBounds (rand : ℕ → ℕ) (k : ℕ) :
    ∀ o ∈ (genAmp (R := R) rand k).front, o.InBounds :=
  inBounds_of_mem_genObjects rand _ _

theorem genAmp_rear_inBounds (rand : ℕ → ℕ) (k : ℕ) :
    ∀ o ∈ (genAmp (R := R) rand k).rear, o.InBounds :=
  inBounds_of_mem_genObjects rand _ _

end Bounds

end RadarDemo
