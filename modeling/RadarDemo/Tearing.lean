import Mathlib.Tactic.IntervalCases
import RadarDemo.Coherence

/-!
# When a frame shows one batch

A batch is published by three stores and painted from four reads, and nothing
orders the two.  A frame is *torn* if no single iteration accounts for all four
readings; the sonar has no initial value, so a frame painted before its first
store shows readings of no iteration at all.

`Clear` is the condition on a schedule under which this does not happen.  It
constrains three kinds of step, by the position of the other thread:

* the handler starts reading only after the first store to `m_sonar`, and while
  the producer is not between its store of the front list and its store of the
  sonar readings;
* the producer stores no front list between the handler's first reading and its
  pass over the front list;
* the producer stores no rear list between the handler's first reading and its
  pass over the rear list.

`frames_untorn_iff` shows that the condition is exact: it makes every frame a
snapshot, and a run whose own iterations are told apart by their contents and whose
frames are all snapshots has met it at every step.
-/

namespace RadarDemo

open Concurrency

variable {R : Type}

/-! ## Snapshots -/

/-- The frame shows one of the first `n` iterations. -/
def IsSnapshot (batch : ℕ → Batch R) (n : ℕ) (frame : Frame R) : Prop :=
  ∃ k, 1 ≤ k ∧ k ≤ n ∧ frame = Frame.ofBatch (batch k)

/-- Every frame painted so far shows one iteration. -/
def Untorn (batch : ℕ → Batch R) (s : State R) : Prop :=
  ∀ frame ∈ s.frames, IsSnapshot batch s.iter frame

theorem IsSnapshot.mono {batch : ℕ → Batch R} {m n : ℕ} {frame : Frame R}
    (held : IsSnapshot batch m frame) (le : m ≤ n) : IsSnapshot batch n frame := by
  obtain ⟨k, positive, bounded, eq⟩ := held
  exact ⟨k, positive, bounded.trans le, eq⟩

/-! ## The condition -/

namespace MainPc

/-- The handler is about to read `m_sonar.left`. -/
def atFirstRead : MainPc R → Bool
  | .run .readLeft => true
  | _ => false

/-- The handler has begun to read and has yet to pass over the front list. -/
def frontPending : MainPc R → Bool
  | .run (.readRight _) | .run (.passFront _ _) => true
  | _ => false

/-- The handler has begun to read and has yet to pass over the rear list. -/
def rearPending : MainPc R → Bool
  | .run (.readRight _) | .run (.passFront _ _) | .run (.passRear _ _ _) => true
  | _ => false

/-- The `on_draw` handler is running. -/
def inPaint : MainPc R → Bool
  | .run .idle => false
  | .run _ => true
  | _ => false

end MainPc

/-- The producer has stored the front list of an iteration and not its sonar
readings. -/
def ProducerPc.publishing : ProducerPc → Bool
  | .storeRear | .storeSonar => true
  | _ => false

/-- **The condition**, on the state before a step and the thread that takes it. -/
def Clear (s : State R) : Action → Prop
  | .main => s.main.atFirstRead = true →
      s.model.sonar.isSome = true ∧ s.producer.publishing = false
  | .producer => (s.producer = .storeFront → s.main.frontPending = false) ∧
      (s.producer = .storeRear → s.main.rearPending = false)
  | _ => True

/-! ## The condition suffices -/

/-- Every member holds the `k`-th iteration. -/
def Holds (producer : ProducerPc) (iter k : ℕ) : Prop :=
  producer.frontVersion iter = k ∧ producer.rearVersion iter = k ∧
    producer.sonarVersion iter = k

/-- What the handler has read, and what it has yet to read, are of one iteration. -/
def OneIteration (batch : ℕ → Batch R) (producer : ProducerPc) (iter : ℕ) : MainPc R → Prop
  | .run (.readRight left) =>
      ∃ k, 1 ≤ k ∧ left = some (batch k).sonar.left ∧ Holds producer iter k
  | .run (.passFront left right) =>
      ∃ k, 1 ≤ k ∧ left = some (batch k).sonar.left ∧ right = some (batch k).sonar.right ∧
        Holds producer iter k
  | .run (.passRear left right front) =>
      ∃ k, 1 ≤ k ∧ left = some (batch k).sonar.left ∧ right = some (batch k).sonar.right ∧
        front = (batch k).front ∧ producer.rearVersion iter = k
  | .run (.paintEnd frame) => IsSnapshot batch iter frame
  | _ => True

variable {tk : Toolkit} {batch : ℕ → Batch R} {s s' : State R}

theorem ProducerPc.frontVersion_le (iter : ℕ) (pc : ProducerPc) :
    pc.frontVersion iter ≤ iter := by
  cases pc <;> simp [ProducerPc.frontVersion]

theorem ProducerPc.rearVersion_le (iter : ℕ) (pc : ProducerPc) : pc.rearVersion iter ≤ iter := by
  cases pc <;> simp [ProducerPc.rearVersion]

/-- The reading of a sonar that has been stored. -/
theorem sonar_of_holds {k : ℕ} (stored : Stored batch s) (positive : 1 ≤ k)
    (version : s.producer.sonarVersion s.iter = k) : s.model.sonar = some (batch k).sonar := by
  rw [stored.sonar, version, published_of_pos positive]
  rfl

theorem front_of_version {k : ℕ} (stored : Stored batch s) (positive : 1 ≤ k)
    (version : s.producer.frontVersion s.iter = k) :
    s.model.objsMap.lookup 0 = (batch k).front := by
  rw [stored.front, version, published_of_pos positive]
  rfl

theorem rear_of_version {k : ℕ} (stored : Stored batch s) (positive : 1 ≤ k)
    (version : s.producer.rearVersion s.iter = k) :
    s.model.objsMap.lookup 1 = (batch k).rear := by
  rw [stored.rear, version, published_of_pos positive]
  rfl

/-- Outside a publication every member holds the same iteration. -/
theorem holds_of_not_publishing (pc : ProducerPc) (iter : ℕ) (clear : pc.publishing = false) :
    Holds pc iter (pc.sonarVersion iter) := by
  cases pc with
  | storeRear | storeSonar => cases clear
  | _ => exact ⟨rfl, rfl, rfl⟩

/-- While every member holds the `k`-th iteration, only a store of the front list
changes that. -/
private theorem Holds.producerMove {k : ℕ} (held : Holds s.producer s.iter k)
    (stored : Stored batch s) (moved : ProducerMove tk batch s s')
    (notFront : s.producer ≠ .storeFront) : Holds s'.producer s'.iter k := by
  obtain ⟨front, rear, sonar⟩ := held
  have positive := stored.started moved.started.1
  have notRear : s.producer ≠ .storeRear := by
    intro pc
    simp only [pc, ProducerPc.frontVersion, ProducerPc.rearVersion] at front rear
    omega
  have notSonar : s.producer ≠ .storeSonar := by
    intro pc
    simp only [pc, ProducerPc.frontVersion, ProducerPc.sonarVersion] at front sonar
    omega
  exact ⟨(moved.frontVersion_eq notFront).trans front, (moved.rearVersion_eq notRear).trans rear,
    (moved.sonarVersion_eq notSonar).trans sonar⟩

private theorem OneIteration.producerMove (held : OneIteration batch s.producer s.iter s.main)
    (stored : Stored batch s) (moved : ProducerMove tk batch s s')
    (clear : Clear s .producer) : OneIteration batch s'.producer s'.iter s.main := by
  obtain ⟨frontClear, rearClear⟩ := clear
  cases pc : s.main with
  | run pos =>
      rw [pc] at held frontClear rearClear
      cases pos with
      | readRight left =>
          obtain ⟨k, positive, left, holds⟩ := held
          exact ⟨k, positive, left,
            holds.producerMove stored moved fun at_ => nomatch frontClear at_⟩
      | passFront left right =>
          obtain ⟨k, positive, left, right, holds⟩ := held
          exact ⟨k, positive, left, right,
            holds.producerMove stored moved fun at_ => nomatch frontClear at_⟩
      | passRear left right front =>
          obtain ⟨k, positive, left, right, front, version⟩ := held
          exact ⟨k, positive, left, right, front,
            (moved.rearVersion_eq fun at_ => nomatch rearClear at_).trans version⟩
      | paintEnd frame => exact IsSnapshot.mono held moved.iter_le
      | _ => trivial
  | _ => trivial

private theorem OneIteration.mainMove (held : OneIteration batch s.producer s.iter s.main)
    (stored : Stored batch s) (moved : MainMove tk s s') (clear : Clear s .main) :
    OneIteration batch s'.producer s'.iter s'.main := by
  cases moved with
  | readLeft pc =>
      obtain ⟨present, outside⟩ := clear (by rw [pc]; rfl)
      have version : 1 ≤ s.producer.sonarVersion s.iter := by
        by_contra none
        rw [stored.sonar, show s.producer.sonarVersion s.iter = 0 by omega] at present
        cases present
      refine ⟨_, version, ?_, holds_of_not_publishing _ _ outside⟩
      rw [sonar_of_holds stored version rfl]
      rfl
  | readRight left pc =>
      rw [pc] at held
      obtain ⟨k, positive, left, holds⟩ := held
      refine ⟨k, positive, left, ?_, holds⟩
      rw [sonar_of_holds stored positive holds.2.2]
      rfl
  | passFront left right pc =>
      rw [pc] at held
      obtain ⟨k, positive, left, right, holds⟩ := held
      exact ⟨k, positive, left, right, front_of_version stored positive holds.1, holds.2.1⟩
  | passRear left right front pc =>
      rw [pc] at held
      obtain ⟨k, positive, rfl, rfl, rfl, version⟩ := held
      refine ⟨k, positive, version ▸ ProducerPc.rearVersion_le _ _, ?_⟩
      rw [TestModel.readObjs_fst, rear_of_version stored positive version]
      rfl
  | exec stmt inside pc => cases stmt <;> trivial
  | take pc =>
      show OneIteration _ _ _ (MainPc.run (if _ then _ else _))
      split <;> trivial
  | destroy l pc => cases l <;> trivial
  | _ => trivial

/-- What a clear run keeps. -/
private structure ClearInv (batch : ℕ → Batch R) (s : State R) : Prop where
  wired : Wired s
  stored : Stored batch s
  reading : OneIteration batch s.producer s.iter s.main
  painted : Untorn batch s

private theorem clearInv_initial : ClearInv batch (State.initial : State R) :=
  ⟨wired_initial, stored_initial, trivial, nofun⟩

/-- `main` starts the producer once. -/
private theorem MainMove.iter_le (moved : MainMove tk s s') (stored : Stored batch s)
    (wired : Wired s) : s.iter ≤ s'.iter := by
  rcases moved.producer_eq with ⟨-, same⟩ | ⟨before, -⟩
  · exact same.ge
  · rw [stored.unstarted (wired.started.mpr before)]
    exact Nat.zero_le _

/-- A completed frame was one iteration when its last list was read. -/
private theorem ClearInv.mainMove (held : ClearInv batch s) (moved : MainMove tk s s') :
    Untorn batch s' := by
  have bounded := moved.iter_le held.stored held.wired
  have before : ∀ frame ∈ s.frames, IsSnapshot batch s'.iter frame :=
    fun frame member => (held.painted frame member).mono bounded
  cases moved with
  | paintEnd frame pc =>
      have reading := held.reading
      rw [pc] at reading
      intro painted member
      rcases List.mem_cons.mp member with rfl | member
      · exact reading
      · exact before painted member
  | exec stmt inside pc => cases stmt <;> exact before
  | _ => exact before

private theorem ClearInv.step (held : ClearInv batch s) {a : Action}
    (moved : (radarDemo tk batch).step s a = some s') (clear : Clear s a) :
    ClearInv batch s' := by
  have wired := held.wired.step moved
  have stored := held.stored.step moved
  cases move_of_step moved with
  | main moved =>
      exact ⟨wired, stored, held.reading.mainMove held.stored moved clear, held.mainMove moved⟩
  | producer _ moved =>
      obtain ⟨main, -, -, -, frames⟩ := moved.frame
      refine ⟨wired, stored, ?_, ?_⟩
      · rw [main]
        exact held.reading.producerMove held.stored moved clear
      · intro frame member
        rw [frames] at member
        exact (held.painted frame member).mono moved.iter_le
  | expose pos pc => exact ⟨wired, stored, held.reading, held.painted⟩
  | close pc => exact ⟨wired, stored, held.reading, held.painted⟩
  | leaveRun pc quit => exact ⟨wired, stored, trivial, held.painted⟩

/-! ## The condition is necessary -/

/-- The first `n` iterations are told apart by each of the things that a frame shows of
them. -/
structure DistinctUpTo (batch : ℕ → Batch R) (n : ℕ) : Prop where
  left : ∀ {j k}, j ∈ Set.Icc 1 n → k ∈ Set.Icc 1 n →
    (batch j).sonar.left = (batch k).sonar.left → j = k
  front : ∀ {j k}, j ∈ Set.Icc 1 n → k ∈ Set.Icc 1 n → (batch j).front = (batch k).front → j = k
  rear : ∀ {j k}, j ∈ Set.Icc 1 n → k ∈ Set.Icc 1 n → (batch j).rear = (batch k).rear → j = k

theorem DistinctUpTo.mono {batch : ℕ → Batch R} {m n : ℕ} (distinct : DistinctUpTo batch n)
    (le : m ≤ n) : DistinctUpTo batch m where
  left first second := distinct.left ⟨first.1, first.2.trans le⟩ ⟨second.1, second.2.trans le⟩
  front first second := distinct.front ⟨first.1, first.2.trans le⟩ ⟨second.1, second.2.trans le⟩
  rear first second := distinct.rear ⟨first.1, first.2.trans le⟩ ⟨second.1, second.2.trans le⟩

/-- The left reading is indeterminate, or of an iteration that is too old. -/
def Stale (batch : ℕ → Batch R) (left : Option R) (old : ℕ → Prop) : Prop :=
  left = none ∨ ∃ k, 1 ≤ k ∧ left = some (batch k).sonar.left ∧ old k

/-- A later one of the first `n` iterations has been read. -/
def Newer (n k : ℕ) (read : ℕ → Prop) : Prop := ∃ j, k < j ∧ j ≤ n ∧ read j

/-- What the handler has read, and has yet to read, are of several iterations or
of none. -/
def DoomedAt (batch : ℕ → Batch R) (producer : ProducerPc) (iter : ℕ) : MainPc R → Prop
  | .run (.readRight left) | .run (.passFront left _) =>
      Stale batch left fun k => k < producer.frontVersion iter
  | .run (.passRear left _ front) =>
      Stale batch left fun k =>
        Newer iter k (fun j => front = (batch j).front) ∨ k < producer.rearVersion iter
  | .run (.paintEnd frame) =>
      Stale batch frame.left fun k =>
        Newer iter k (fun j => frame.front = (batch j).front) ∨
          Newer iter k fun j => frame.rear = (batch j).rear
  | _ => False

def Doomed (batch : ℕ → Batch R) (s : State R) : Prop :=
  Stored batch s ∧ DoomedAt batch s.producer s.iter s.main

theorem Stale.mono {left : Option R} {old older : ℕ → Prop} (stale : Stale batch left old)
    (weaker : ∀ k, old k → older k) : Stale batch left older := by
  rcases stale with indeterminate | ⟨k, positive, reading, aged⟩
  · exact Or.inl indeterminate
  · exact Or.inr ⟨k, positive, reading, weaker k aged⟩

theorem Newer.mono {m n k : ℕ} {read : ℕ → Prop} (newer : Newer m k read) (le : m ≤ n) :
    Newer n k read := by
  obtain ⟨j, later, bounded, reads⟩ := newer
  exact ⟨j, later, bounded.trans le, reads⟩

private theorem ProducerMove.frontVersion_le (moved : ProducerMove tk batch s s') :
    s.producer.frontVersion s.iter ≤ s'.producer.frontVersion s'.iter := by
  by_cases pc : s.producer = .storeFront
  · obtain ⟨before, after⟩ := moved.frontVersion_storeFront pc
    omega
  · exact (moved.frontVersion_eq pc).ge

private theorem ProducerMove.rearVersion_le (moved : ProducerMove tk batch s s') :
    s.producer.rearVersion s.iter ≤ s'.producer.rearVersion s'.iter := by
  by_cases pc : s.producer = .storeRear
  · obtain ⟨before, after⟩ := moved.rearVersion_storeRear pc
    omega
  · exact (moved.rearVersion_eq pc).ge

/-- Versions only grow, so what is too old stays too old. -/
private theorem DoomedAt.producerMove (doomed : DoomedAt batch s.producer s.iter s.main)
    (moved : ProducerMove tk batch s s') : DoomedAt batch s'.producer s'.iter s.main := by
  cases pc : s.main with
  | run pos =>
      rw [pc] at doomed
      cases pos with
      | readRight left =>
          exact Stale.mono doomed fun k old => old.trans_le moved.frontVersion_le
      | passFront left right =>
          exact Stale.mono doomed fun k old => old.trans_le moved.frontVersion_le
      | passRear left right front =>
          exact Stale.mono doomed fun k old => old.imp (fun front => front.mono moved.iter_le)
            fun rear => rear.trans_le moved.rearVersion_le
      | paintEnd frame =>
          exact Stale.mono doomed fun k old => old.imp (fun front => front.mono moved.iter_le)
            fun rear => rear.mono moved.iter_le
      | _ => exact doomed.elim
  | _ => rw [pc] at doomed; exact doomed.elim

/-- A doomed frame is no snapshot. -/
private theorem not_isSnapshot_of_stale {n : ℕ} (distinct : DistinctUpTo batch n)
    {frame : Frame R} (stale : Stale batch frame.left fun k =>
      Newer n k (fun j => frame.front = (batch j).front) ∨
        Newer n k fun j => frame.rear = (batch j).rear) : ¬ IsSnapshot batch n frame := by
  rintro ⟨m, first, last, rfl⟩
  have shown : m ∈ Set.Icc 1 n := ⟨first, last⟩
  rcases stale with indeterminate | ⟨k, positive, reading, old⟩
  · cases indeterminate
  · rcases old with ⟨j, newer, bounded, front⟩ | ⟨j, newer, bounded, rear⟩
    · have same : m = k :=
        distinct.left shown ⟨positive, (newer.trans_le bounded).le⟩ (Option.some.inj reading)
      have := distinct.front shown ⟨positive.trans newer.le, bounded⟩ front
      omega
    · have same : m = k :=
        distinct.left shown ⟨positive, (newer.trans_le bounded).le⟩ (Option.some.inj reading)
      have := distinct.rear shown ⟨positive.trans newer.le, bounded⟩ rear
      omega

private theorem DoomedAt.mainMove (distinct : DistinctUpTo batch s'.iter)
    (stored : Stored batch s) (doomed : DoomedAt batch s.producer s.iter s.main)
    (moved : MainMove tk s s') (untorn : Untorn batch s') :
    DoomedAt batch s'.producer s'.iter s'.main := by
  cases moved with
  | readRight left pc => rw [pc] at doomed; exact doomed
  | passFront left right pc =>
      rw [pc] at doomed
      refine Stale.mono doomed fun k old =>
        Or.inl ⟨_, old, ProducerPc.frontVersion_le _ _, ?_⟩
      exact front_of_version stored (by omega) rfl
  | passRear left right front pc =>
      rw [pc] at doomed
      refine Stale.mono doomed fun k old => old.imp_right fun rear =>
        ⟨_, rear, ProducerPc.rearVersion_le _ _, ?_⟩
      exact rear_of_version stored (by omega) rfl
  | paintEnd frame pc =>
      rw [pc] at doomed
      exact (not_isSnapshot_of_stale distinct doomed (untorn frame List.mem_cons_self)).elim
  | enter stmt pc => rw [pc] at doomed; exact doomed.elim
  | exec stmt inside pc => rw [pc] at doomed; exact doomed.elim
  | take pc => rw [pc] at doomed; exact doomed.elim
  | drawCar pc => rw [pc] at doomed; exact doomed.elim
  | readLeft pc => rw [pc] at doomed; exact doomed.elim
  | destroy l pc => rw [pc] at doomed; exact doomed.elim
  | exit pc => rw [pc] at doomed; exact doomed.elim

private theorem Doomed.step (doomed : Doomed batch s) {a : Action}
    (moved : (radarDemo tk batch).step s a = some s') (untorn : Untorn batch s')
    (distinct : DistinctUpTo batch s'.iter) : Doomed batch s' := by
  obtain ⟨stored, doomedAt⟩ := doomed
  refine ⟨stored.step moved, ?_⟩
  cases move_of_step moved with
  | main moved => exact doomedAt.mainMove distinct stored moved untorn
  | producer _ moved =>
      rw [moved.frame.1]
      exact doomedAt.producerMove moved
  | expose pos pc => exact doomedAt
  | close pc => exact doomedAt
  | leaveRun pc quit => rw [pc] at doomedAt; exact doomedAt.elim

/-- Reading the sonar too early dooms the frame. -/
private theorem stale_of_early_read (stored : Stored batch s)
    (early : ¬ (s.model.sonar.isSome = true ∧ s.producer.publishing = false)) :
    Stale batch (s.model.sonar.map (·.left)) fun k => k < s.producer.frontVersion s.iter := by
  cases reading : s.model.sonar with
  | none => exact Or.inl rfl
  | some sonar =>
      have publishing : s.producer.publishing = true := by
        by_contra outside
        exact early ⟨by rw [reading]; rfl, Bool.eq_false_iff.mpr outside⟩
      have running : s.producer ≠ .notStarted := by
        intro pc
        rw [pc] at publishing
        cases publishing
      have positive := stored.started running
      -- between its stores the producer has the sonar one iteration behind
      have behind : s.producer.sonarVersion s.iter < s.producer.frontVersion s.iter := by
        cases pc : s.producer with
        | storeRear | storeSonar =>
            simp only [ProducerPc.sonarVersion, ProducerPc.frontVersion]
            omega
        | _ => rw [pc] at publishing; cases publishing
      have published : 1 ≤ s.producer.sonarVersion s.iter := by
        by_contra none
        rw [stored.sonar, show s.producer.sonarVersion s.iter = 0 by omega] at reading
        cases reading
      refine Or.inr ⟨_, published, ?_, behind⟩
      rw [← reading, sonar_of_holds stored published rfl]
      rfl

/-- Storing a list that the handler has yet to pass over dooms the frame. -/
private theorem doomedAt_of_early_store (held : ClearInv batch s)
    (moved : ProducerMove tk batch s s') (violated : ¬ Clear s .producer) :
    DoomedAt batch s'.producer s'.iter s.main := by
  have positive := held.stored.started moved.started.1
  have reading := held.reading
  have early : (s.producer = .storeFront ∧ s.main.frontPending = true) ∨
      (s.producer = .storeRear ∧ s.main.rearPending = true) := by
    by_contra clear
    push Not at clear
    exact violated ⟨fun pc => Bool.eq_false_iff.mpr (clear.1 pc),
      fun pc => Bool.eq_false_iff.mpr (clear.2 pc)⟩
  rcases early with ⟨pc, pending⟩ | ⟨pc, pending⟩
  · obtain ⟨before, after⟩ := moved.frontVersion_storeFront pc
    cases at_ : s.main with
    | run pos =>
        rw [at_] at reading pending
        cases pos with
        | readRight left =>
            obtain ⟨k, positive, reading, front, -⟩ := reading
            exact Or.inr ⟨k, positive, reading, by omega⟩
        | passFront left right =>
            obtain ⟨k, positive, reading, -, front, -⟩ := reading
            exact Or.inr ⟨k, positive, reading, by omega⟩
        | _ => cases pending
    | _ => rw [at_] at pending; cases pending
  · obtain ⟨before, after⟩ := moved.rearVersion_storeRear pc
    -- the front list of this iteration is stored, so the handler has passed over
    -- the one before
    have ahead : s.producer.frontVersion s.iter = s.iter := by rw [pc]; rfl
    cases at_ : s.main with
    | run pos =>
        rw [at_] at reading pending
        cases pos with
        | readRight left =>
            obtain ⟨k, -, -, front, rear, -⟩ := reading
            omega
        | passFront left right =>
            obtain ⟨k, -, -, -, front, rear, -⟩ := reading
            omega
        | passRear left right front =>
            obtain ⟨k, positive, reading, -, -, rear⟩ := reading
            exact Or.inr ⟨k, positive, reading, Or.inr (by omega)⟩
        | _ => cases pending
    | _ => rw [at_] at pending; cases pending

private theorem ClearInv.doomed (held : ClearInv batch s) {a : Action}
    (moved : (radarDemo tk batch).step s a = some s') (violated : ¬ Clear s a) :
    Doomed batch s' := by
  refine ⟨held.stored.step moved, ?_⟩
  cases move_of_step moved with
  | main moved =>
      by_cases reads : s.main.atFirstRead = true
      · have early : ¬ (s.model.sonar.isSome = true ∧ s.producer.publishing = false) :=
          fun clear => violated fun _ => clear
        cases moved with
        | readLeft pc => exact stale_of_early_read held.stored early
        | _ => simp only [*, MainPc.atFirstRead, Bool.false_eq_true] at reads
      · exact absurd (fun at_ => absurd at_ reads) violated
  | producer _ moved =>
      rw [moved.frame.1]
      exact doomedAt_of_early_store held moved violated
  | expose pos pc => exact absurd trivial violated
  | close pc => exact absurd trivial violated
  | leaveRun pc quit => exact absurd trivial violated

/-! ## The result -/

/-- Iterations are counted upwards. -/
private theorem iter_le_of_step (held : Wired s ∧ Stored batch s) {a : Action}
    (moved : (radarDemo tk batch).step s a = some s') : s.iter ≤ s'.iter := by
  cases move_of_step moved with
  | main moved => exact moved.iter_le held.2 held.1
  | producer _ moved => exact moved.iter_le
  | expose pos pc => exact le_rfl
  | close pc => exact le_rfl
  | leaveRun pc quit => exact le_rfl

/-- **Frames are untorn exactly on clear schedules.**  Every frame that a clear
run paints is a snapshot.  Conversely, if the iterations of the run are told apart by
what a frame shows of them, then a run that is not in the middle of a painting when
it ends, and whose frames are all snapshots, was clear. -/
theorem frames_untorn_iff (tk : Toolkit) (batch : ℕ → Batch R) (as : List Action) :
    ((radarDemo tk batch).Along (fun s a _ => Clear s a) State.initial as →
      (radarDemo tk batch).Along (fun _ _ s' => Untorn batch s') State.initial as) ∧
    (∀ s, (radarDemo tk batch).exec State.initial as = some s → s.main.inPaint = false →
      DistinctUpTo batch s.iter →
      (radarDemo tk batch).Along (fun _ _ s' => Untorn batch s') State.initial as →
      (radarDemo tk batch).Along (fun s a _ => Clear s a) State.initial as) := by
  constructor
  · refine TransitionSystem.along_of_keeps (I := ClearInv batch) ?_ clearInv_initial as
    intro s a s' held moved clear
    have held' := held.step moved clear
    exact ⟨held', held'.painted⟩
  · intro s ran ended distinct untorn
    have ended : ¬ Doomed batch s := by
      rintro ⟨-, doomed⟩
      cases pc : s.main with
      | run pos =>
          rw [pc] at ended doomed
          cases pos with
          | idle => exact doomed
          | _ => cases ended
      | _ => rw [pc] at doomed; exact doomed
    -- the iterations that were under way at a step are among those of the run
    have apart : (radarDemo tk batch).Along (fun _ _ s' => DistinctUpTo batch s'.iter)
        State.initial as :=
      (TransitionSystem.along_le_of_mono (I := fun s => Wired s ∧ Stored batch s)
        (fun held moved => ⟨⟨held.1.step moved, held.2.step moved⟩, iter_le_of_step held moved⟩)
        ⟨wired_initial, stored_initial⟩ as ran).2.mono fun le => distinct.mono le
    exact TransitionSystem.along_of_breaks (I := ClearInv batch) (D := Doomed batch)
      (fun held moved clear => held.step moved clear)
      (fun held moved violated _ => held.doomed moved violated)
      (fun doomed moved both => doomed.step moved both.1 both.2)
      clearInv_initial as ran ended (untorn.and apart)

/-! ## A torn frame -/

instance decidableClear : ∀ (s : State R) (a : Action), Decidable (Clear s a)
  | _, .main => inferInstanceAs (Decidable (_ → _ ∧ _))
  | _, .producer => inferInstanceAs (Decidable ((_ → _) ∧ (_ → _)))
  | _, .expose | _, .close | _, .leaveRun => isTrue trivial

/-- The first iteration is published before the setup and painted after it, the second
one is heard and painted. -/
def clearSchedule : List Action :=
  Action.construct ++ Action.publication ++ Action.setup ++ Action.painting ++
    List.replicate 15 .producer ++ Action.painting

/-- Iterations whose contents differ pairwise. -/
private theorem eq_of_two {α : Type} {f : ℕ → α} (apart : f 1 ≠ f 2) {j k : ℕ}
    (first : j ∈ Set.Icc 1 2) (second : k ∈ Set.Icc 1 2) (same : f j = f k) : j = k := by
  obtain ⟨low, high⟩ := first
  obtain ⟨low', high'⟩ := second
  interval_cases j <;> interval_cases k
  · rfl
  · exact absurd same apart
  · exact absurd same.symm apart
  · rfl

/-- What `gen_amp` generates first when `std::rand()` counts upwards. -/
theorem distinctUpTo_genAmp : DistinctUpTo (genAmp (R := ℚ) id) 2 where
  left := eq_of_two (f := fun k => (genAmp id k).sonar.left) (by decide +kernel)
  front := eq_of_two (f := fun k => (genAmp id k).front) (by decide +kernel)
  rear := eq_of_two (f := fun k => (genAmp id k).rear) (by decide +kernel)

theorem frames_untorn_clearSchedule :
    (radarDemo .paintsOnActivate (genAmp (R := ℚ) id)).Along
      (fun _ _ s' => Untorn (genAmp id) s') State.initial clearSchedule ∧
    (radarDemo .paintsOnActivate (genAmp (R := ℚ) id)).Along (fun s a _ => Clear s a)
      State.initial clearSchedule := by
  have exact_ := frames_untorn_iff (R := ℚ) .paintsOnActivate (genAmp id) clearSchedule
  have untorn := exact_.1 (by decide)
  exact ⟨untorn, exact_.2 _ rfl rfl distinctUpTo_genAmp untorn⟩

/-- What `gen_amp` generates when `std::rand()` returns 0, 10, 20 and so on: no
obstacles, and different readings in every iteration. -/
def tensBatch : ℕ → Batch ℚ := genAmp fun i => 10 * i

/-- Painted before the producer has moved, a frame shows what was never stored. -/
example :
    ((radarDemo .paintsOnActivate tensBatch).exec State.initial
      (Action.construct ++ Action.setup ++ Action.painting)).map (·.frames) =
        some [⟨none, none, [], []⟩] := rfl

/-- Between the handler's readings of `m_sonar.left` and `m_sonar.right` the
producer wakes up and stores its second iteration. -/
def tornSchedule : List Action :=
  Action.construct ++ Action.publication ++ Action.setup ++ List.replicate 3 .main ++
    List.replicate 4 .producer ++ List.replicate 4 .main

/-- **A frame that shows two iterations**, on batches that `gen_amp` generates. -/
theorem frame_torn_between_readings :
    ∃ s, (radarDemo .paintsOnActivate tensBatch).exec State.initial tornSchedule = some s ∧
      s.frames = [⟨some (tensBatch 1).sonar.left, some (tensBatch 2).sonar.right, [], []⟩] ∧
      ¬ Untorn tensBatch s := by
  refine ⟨_, rfl, rfl, ?_⟩
  intro untorn
  obtain ⟨k, positive, bounded, shows⟩ := untorn _ (List.mem_singleton.mpr rfl)
  have bounded : k ≤ 2 := bounded
  interval_cases k
  · exact absurd shows (by decide +kernel)
  · exact absurd shows (by decide +kernel)

end RadarDemo
