import RadarDemo.System

/-!
# What one step can do

The step function is analysed once, here: `Move` lists the steps that are
possible from a state, each with the position it is taken from and the state it
leads to, and `move_of_step` shows that there are no others.  Everything that is
later proved about a step is a case analysis on `Move`.
-/

namespace RadarDemo

variable {R : Type}

/-- The steps of the UI thread. -/
inductive MainMove (tk : Toolkit) (s : State R) : State R → Prop
  | enter (stmt : SetupStmt) (pc : s.main = .setup stmt false)
      (calls : stmt.uiCall.isSome = true) :
      MainMove tk s { s with main := .setup stmt true }
  | exec (stmt : SetupStmt) (inside : Bool) (pc : s.main = .setup stmt inside)
      (plain : inside = false → stmt.uiCall = none) :
      MainMove tk s { stmt.exec tk s with main := stmt.next }
  | take (pc : s.main = .run .idle) (pending : s.dirty s.content = true) :
      MainMove tk s { s with
        dirty := Function.update s.dirty s.content false
        main := .run (if s.content = .radar ∧ s.drawConnected then .drawCar else .idle) }
  | drawCar (pc : s.main = .run .drawCar) : MainMove tk s { s with main := .run .readLeft }
  | readLeft (pc : s.main = .run .readLeft) :
      MainMove tk s { s with main := .run (.readRight (s.model.sonar.map (·.left))) }
  | readRight (left : Option R) (pc : s.main = .run (.readRight left)) :
      MainMove tk s { s with main := .run (.passFront left (s.model.sonar.map (·.right))) }
  | passFront (left right : Option R) (pc : s.main = .run (.passFront left right)) :
      MainMove tk s { s with
        model := (s.model.readObjs 0).2
        main := .run (.passRear left right (s.model.readObjs 0).1) }
  | passRear (left right : Option R) (front : Objects R)
      (pc : s.main = .run (.passRear left right front)) :
      MainMove tk s { s with
        model := (s.model.readObjs 1).2
        main := .run (.paintEnd ⟨left, right, front, (s.model.readObjs 1).1⟩) }
  | paintEnd (frame : Frame R) (pc : s.main = .run (.paintEnd frame)) :
      MainMove tk s { s with frames := frame :: s.frames, main := .run .idle }
  | destroy (l : Local) (pc : s.main = .teardown l) :
      MainMove tk s { s.setAlive l false with main := l.next }
  | exit (pc : s.main = .returning) : MainMove tk s { s with main := .exited }

/-- The steps of the producer. -/
inductive ProducerMove (tk : Toolkit) (batch : ℕ → Batch R) (s : State R) : State R → Prop
  | storeFront (pc : s.producer = .storeFront) :
      ProducerMove tk batch s
        { s with model := s.model.storeFront (batch s.iter), producer := .storeRear }
  | storeRear (pc : s.producer = .storeRear) :
      ProducerMove tk batch s
        { s with model := s.model.storeRear (batch s.iter), producer := .storeSonar }
  | storeSonar (pc : s.producer = .storeSonar) :
      ProducerMove tk batch s
        { s with model := s.model.storeSonar (batch s.iter), producer := .flipToggle }
  | flipToggle (pc : s.producer = .flipToggle) :
      ProducerMove tk batch s { s with model := s.model.flipToggle, producer := .assignHB }
  | unheard (model : TestModel R) (pc : s.producer = .assignHB)
      (assigned : s.model.assignHB = .ok (model, [])) :
      ProducerMove tk batch s { s with model := model, producer := .sleeping }
  | heard (model : TestModel R) (o : Observer) (os : List Observer)
      (pc : s.producer = .assignHB) (assigned : s.model.assignHB = .ok (model, o :: os)) :
      ProducerMove tk batch s { s with model := model, producer := .callback .getFirst false }
  | enter (pos : CallbackPos) (pc : s.producer = .callback pos false) :
      ProducerMove tk batch s { s with producer := .callback pos true }
  | getFirst (pc : s.producer = .callback .getFirst true) :
      ProducerMove tk batch s { s with producer := .callback (.layout s.content) false }
  | layout (v : View) (pc : s.producer = .callback (.layout v) true) :
      ProducerMove tk batch s
        { s.mark (tk.requestsPaint .layout) v with producer := .callback (.getSecond v) false }
  | getSecond (v : View) (pc : s.producer = .callback (.getSecond v) true) :
      ProducerMove tk batch s
        { s with producer := .callback (.schedulePaint v s.content) false }
  | schedulePaint (v w : View) (pc : s.producer = .callback (.schedulePaint v w) true) :
      ProducerMove tk batch s { s.mark true w with producer := .leaveApply }
  | leaveApply (pc : s.producer = .leaveApply) :
      ProducerMove tk batch s { s with producer := .sleeping }
  | wake (pc : s.producer = .sleeping) :
      ProducerMove tk batch s { s with iter := s.iter + 1, producer := .storeFront }

/-- The steps of the program. -/
inductive Move (tk : Toolkit) (batch : ℕ → Batch R) (s : State R) : Action → State R → Prop
  | main {s' : State R} (moved : MainMove tk s s') : Move tk batch s .main s'
  | producer {s' : State R} (running : s.main ≠ .exited)
      (moved : ProducerMove tk batch s s') : Move tk batch s .producer s'
  | expose (pos : PaintPos R) (pc : s.main = .run pos) :
      Move tk batch s .expose (s.mark true s.content)
  | close (pc : s.main = .run .idle) :
      Move tk batch s .close { s with quit := s.quit || s.closeConnected }
  | leaveRun (pc : s.main = .run .idle) (quit : s.quit = true) :
      Move tk batch s .leaveRun { s with main := .teardown .radarView }

variable {tk : Toolkit} {batch : ℕ → Batch R} {s s' : State R}

private theorem mainMove_of_paintStep {pos : PaintPos R} (pc : s.main = .run pos)
    (moved : paintStep s pos = some s') : MainMove tk s s' := by
  cases pos with
  | idle =>
      simp only [paintStep] at moved
      split at moved
      case isTrue pending =>
        cases moved
        exact .take pc pending
      case isFalse => cases moved
  | drawCar => cases moved; exact .drawCar pc
  | readLeft => cases moved; exact .readLeft pc
  | readRight left => cases moved; exact .readRight left pc
  | passFront left right => cases moved; exact .passFront left right pc
  | passRear left right front => cases moved; exact .passRear left right front pc
  | paintEnd frame => cases moved; exact .paintEnd frame pc

theorem mainMove_of_mainStep (moved : mainStep tk s = some s') : MainMove tk s s' := by
  cases pc : s.main with
  | setup stmt inside =>
      cases inside with
      | false =>
          simp only [mainStep, pc] at moved
          split at moved
          case isTrue calls =>
            cases moved
            exact .enter stmt pc calls
          case isFalse plain =>
            cases moved
            exact .exec stmt false pc fun _ => Option.not_isSome_iff_eq_none.mp plain
      | true =>
          simp only [mainStep, pc] at moved
          cases moved
          exact .exec stmt true pc nofun
  | run pos =>
      simp only [mainStep, pc] at moved
      exact mainMove_of_paintStep pc moved
  | teardown l =>
      simp only [mainStep, pc] at moved
      cases moved
      exact .destroy l pc
  | returning =>
      simp only [mainStep, pc] at moved
      cases moved
      exact .exit pc
  | exited =>
      simp only [mainStep, pc] at moved
      cases moved

private theorem producerMove_of_callbackStep {pos : CallbackPos} {inside : Bool}
    (pc : s.producer = .callback pos inside) :
    ProducerMove tk batch s (callbackStep tk s pos inside) := by
  cases inside with
  | false =>
      cases pos <;> exact .enter _ pc
  | true =>
      cases pos with
      | getFirst => exact .getFirst pc
      | layout v => exact .layout v pc
      | getSecond v => exact .getSecond v pc
      | schedulePaint v w => exact .schedulePaint v w pc

theorem producerMove_of_producerStep (moved : producerStep tk batch s = some s') :
    ProducerMove tk batch s s' := by
  cases pc : s.producer with
  | notStarted => simp only [producerStep, pc] at moved; cases moved
  | storeFront => simp only [producerStep, pc] at moved; cases moved; exact .storeFront pc
  | storeRear => simp only [producerStep, pc] at moved; cases moved; exact .storeRear pc
  | storeSonar => simp only [producerStep, pc] at moved; cases moved; exact .storeSonar pc
  | flipToggle => simp only [producerStep, pc] at moved; cases moved; exact .flipToggle pc
  | assignHB =>
      simp only [producerStep, pc] at moved
      split at moved
      case h_1 => cases moved
      case h_2 model assigned => cases moved; exact .unheard model pc assigned
      case h_3 model o os assigned => cases moved; exact .heard model o os pc assigned
  | callback pos inside =>
      simp only [producerStep, pc] at moved
      cases moved
      exact producerMove_of_callbackStep pc
  | leaveApply => simp only [producerStep, pc] at moved; cases moved; exact .leaveApply pc
  | sleeping => simp only [producerStep, pc] at moved; cases moved; exact .wake pc

/-- **Every step is one of the moves.** -/
theorem move_of_step {a : Action} (moved : (radarDemo tk batch).step s a = some s') :
    Move tk batch s a s' := by
  cases a with
  | main => exact .main (mainMove_of_mainStep moved)
  | producer =>
      simp only [radarDemo, step] at moved
      split at moved
      case h_1 => cases moved
      case h_2 running => exact .producer running (producerMove_of_producerStep moved)
  | expose =>
      simp only [radarDemo, step] at moved
      split at moved
      case h_1 pos pc => cases moved; exact .expose pos pc
      case h_2 => cases moved
  | close =>
      simp only [radarDemo, step] at moved
      split at moved
      case h_1 pc => cases moved; exact .close pc
      case h_2 => cases moved
  | leaveRun =>
      simp only [radarDemo, step] at moved
      split at moved
      case h_1 pc =>
        split at moved
        case isTrue quit => cases moved; exact .leaveRun pc quit
        case isFalse => cases moved
      case h_2 => cases moved

/-! ## What the producer leaves alone -/

theorem ProducerMove.frame (moved : ProducerMove tk batch s s') :
    s'.main = s.main ∧ s'.content = s.content ∧ s'.drawConnected = s.drawConnected ∧
      s'.alive = s.alive ∧ s'.frames = s.frames := by
  cases moved <;> exact ⟨rfl, rfl, rfl, rfl, rfl⟩

/-- The producer has started before it moves, and it never returns to the start. -/
theorem ProducerMove.started (moved : ProducerMove tk batch s s') :
    s.producer ≠ .notStarted ∧ s'.producer ≠ .notStarted := by
  cases moved <;> exact ⟨by simp [*], nofun⟩

theorem ProducerMove.notify_eq (moved : ProducerMove tk batch s s') :
    s'.model.dataHB.notify = s.model.dataHB.notify := by
  cases moved with
  | unheard model pc assigned =>
      obtain ⟨rfl, -⟩ := TestModel.of_assignHB_eq_ok assigned
      exact Observable.Value.setImpl_notify _ _
  | heard model o os pc assigned =>
      obtain ⟨rfl, -⟩ := TestModel.of_assignHB_eq_ok assigned
      exact Observable.Value.setImpl_notify _ _
  | _ => rfl

theorem ProducerMove.hasUpdater_eq (moved : ProducerMove tk batch s s') :
    s'.model.dataHB.hasUpdater = s.model.dataHB.hasUpdater := by
  cases moved with
  | unheard model pc assigned =>
      obtain ⟨rfl, -⟩ := TestModel.of_assignHB_eq_ok assigned
      exact Observable.Value.setImpl_hasUpdater _ _
  | heard model o os pc assigned =>
      obtain ⟨rfl, -⟩ := TestModel.of_assignHB_eq_ok assigned
      exact Observable.Value.setImpl_hasUpdater _ _
  | _ => rfl

/-- The callback is entered only by an assignment that found an observer. -/
theorem ProducerMove.observed_of_callback (moved : ProducerMove tk batch s s')
    (inside : s'.producer.inCallback = true) :
    s.producer.inCallback = true ∨ s.model.dataHB.notify ≠ [] := by
  cases moved with
  | heard model o os pc assigned =>
      right
      intro silent
      obtain ⟨-, called⟩ := TestModel.of_assignHB_eq_ok assigned
      rw [Observable.Value.setImpl_notified, silent, ite_self] at called
      cases called
  | enter pos pc => exact Or.inl (by rw [pc]; rfl)
  | getFirst pc => exact Or.inl (by rw [pc]; rfl)
  | layout v pc => exact Or.inl (by rw [pc]; rfl)
  | getSecond v pc => exact Or.inl (by rw [pc]; rfl)
  | _ => cases inside

/-! ## What `main` leaves alone -/

/-- **`main` acts on what is wired only by executing a statement.**  Any other step
of it has the same statements behind it and leaves the producer, the views and
the heartbeat as they are. -/
theorem MainMove.exec_or_frame (moved : MainMove tk s s') :
    (∃ stmt inside, s.main = .setup stmt inside ∧ (inside = false → stmt.uiCall = none) ∧
      s' = { stmt.exec tk s with main := stmt.next }) ∨
    ((∀ stmt, s'.main.past stmt = s.main.past stmt) ∧ s'.producer = s.producer ∧
      s'.iter = s.iter ∧ s'.content = s.content ∧ s'.drawConnected = s.drawConnected ∧
      s'.model.dataHB = s.model.dataHB) := by
  cases moved with
  | exec stmt inside pc plain => exact Or.inl ⟨stmt, inside, pc, plain, rfl⟩
  | enter stmt pc => exact Or.inr ⟨fun _ => by rw [pc]; rfl, rfl, rfl, rfl, rfl, rfl⟩
  | take pc => exact Or.inr ⟨fun _ => by rw [pc]; rfl, rfl, rfl, rfl, rfl, rfl⟩
  | drawCar pc => exact Or.inr ⟨fun _ => by rw [pc]; rfl, rfl, rfl, rfl, rfl, rfl⟩
  | readLeft pc => exact Or.inr ⟨fun _ => by rw [pc]; rfl, rfl, rfl, rfl, rfl, rfl⟩
  | readRight left pc => exact Or.inr ⟨fun _ => by rw [pc]; rfl, rfl, rfl, rfl, rfl, rfl⟩
  | passFront left right pc =>
      exact Or.inr ⟨fun _ => by rw [pc]; rfl, rfl, rfl, rfl, rfl, rfl⟩
  | passRear left right front pc =>
      exact Or.inr ⟨fun _ => by rw [pc]; rfl, rfl, rfl, rfl, rfl, rfl⟩
  | paintEnd frame pc => exact Or.inr ⟨fun _ => by rw [pc]; rfl, rfl, rfl, rfl, rfl, rfl⟩
  | destroy l pc => exact Or.inr ⟨fun _ => by rw [pc]; cases l <;> rfl, rfl, rfl, rfl, rfl, rfl⟩
  | exit pc => exact Or.inr ⟨fun _ => by rw [pc]; rfl, rfl, rfl, rfl, rfl, rfl⟩

/-- `main` touches the producer only to start it, at its first iteration. -/
theorem MainMove.producer_eq (moved : MainMove tk s s') :
    (s'.producer = s.producer ∧ s'.iter = s.iter) ∨
      (s.main.past .constructModel = false ∧ s'.producer = .storeFront ∧ s'.iter = 1) := by
  rcases moved.exec_or_frame with ⟨stmt, inside, pc, -, rfl⟩ | ⟨-, producer, iter, -⟩
  · cases stmt with
    | constructModel => exact Or.inr ⟨by rw [pc]; rfl, rfl, rfl⟩
    | _ => exact Or.inl ⟨rfl, rfl⟩
  · exact Or.inl ⟨producer, iter⟩

/-- What is behind `main` stays behind. -/
theorem MainMove.past_mono (moved : MainMove tk s s') {stmt : SetupStmt}
    (behind : s.main.past stmt = true) : s'.main.past stmt = true := by
  rcases moved.exec_or_frame with ⟨current, inside, pc, -, rfl⟩ | ⟨same, -⟩
  · rw [pc] at behind
    show (current.next : MainPc R).past stmt = true
    rw [MainPc.past_next current stmt inside, behind]
    rfl
  · rw [same]
    exact behind

end RadarDemo
