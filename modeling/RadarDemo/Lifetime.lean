import RadarDemo.Coherence

/-!
# What the producer may outlive

The producer is detached and has no stop flag, so it runs on while `main` leaves
`Run` and destroys its locals.  Its stores go to members of `model`, and the
heartbeat callback uses `window` through a reference to the local variable.  The
subscription does not end with the subscription object (`Subject.subscribe_notify`),
so the callback stays registered until the model is gone.

`Orderly` is the condition under which nothing is used after its destruction, by
the position of `main` in its teardown:

* the window is destroyed while the producer is not inside the callback;
* from then on the producer does not assign the heartbeat;
* after the model is destroyed, and until the process has ended, the producer
  stores nothing, and does not return from the callback into its assignment.

`usesAlive_iff` shows that the condition is exact for every run.  That assigning
the heartbeat is already too much, although the callback comes only after it, is
the parity of `Stored`: once subscribed, no assignment is swallowed.
-/

namespace RadarDemo

open Concurrency

variable {R : Type}

/-! ## The locals that are alive -/

namespace Local

/-- The position of a local variable in the order of construction. -/
def index : Local → ℕ
  | .model => 0
  | .lifetime => 1
  | .state => 2
  | .window => 3
  | .radarView => 4

/-- The statement that constructs a local variable. -/
def construction : Local → SetupStmt
  | .model => .constructModel
  | .lifetime => .constructLifetime
  | .state => .constructState
  | .window => .constructWindow
  | .radarView => .constructRadarView

end Local

/-- The local is destroyed at this position of `main`. -/
def MainPc.destroyed : MainPc R → Local → Bool
  | .teardown current, l => current.index < l.index
  | .returning, _ | .exited, _ => true
  | _, _ => false

/-- A local is alive from its construction to its destruction. -/
def Lives (s : State R) : Prop :=
  ∀ l, s.alive l = (s.main.past l.construction && !s.main.destroyed l)

variable {tk : Toolkit} {batch : ℕ → Batch R} {s s' : State R}

theorem lives_initial : Lives (State.initial : State R) := by
  intro l
  cases l <;> rfl

/-- A statement makes its own local alive and leaves the others as they are. -/
private theorem SetupStmt.exec_alive (stmt : SetupStmt) (s : State R) (l : Local) :
    (stmt.exec tk s).alive l = (s.alive l || l.construction = stmt) := by
  cases stmt <;> cases l <;>
    simp [SetupStmt.exec, State.setAlive, State.mark, Local.construction]

private theorem Lives.mainMove (held : Lives s) (moved : MainMove tk s s') : Lives s' := by
  intro l
  have before := held l
  cases moved with
  | exec stmt inside pc =>
      rw [pc] at before
      show (stmt.exec tk s).alive l = _
      rw [SetupStmt.exec_alive, before, MainPc.past_next stmt _ inside]
      cases stmt <;> simp [MainPc.destroyed, SetupStmt.next]
  | take pc =>
      rw [pc] at before
      rw [show s.alive l = _ from before]
      cases l <;> rfl
  | destroy current pc =>
      rw [pc] at before
      show Function.update s.alive current false l = _
      by_cases same : l = current
      · subst same
        rw [Function.update_self]
        cases l <;> rfl
      · rw [Function.update_of_ne same, before]
        cases current <;> cases l <;> first | rfl | exact absurd rfl same
  | enter stmt pc => rw [pc] at before; exact before
  | drawCar pc => rw [pc] at before; exact before
  | readLeft pc => rw [pc] at before; exact before
  | readRight left pc => rw [pc] at before; exact before
  | passFront left right pc => rw [pc] at before; exact before
  | passRear left right front pc => rw [pc] at before; exact before
  | paintEnd frame pc => rw [pc] at before; exact before
  | exit pc => rw [pc] at before; exact before

private theorem Lives.step (held : Lives s) {a : Action}
    (moved : (radarDemo tk batch).step s a = some s') : Lives s' := by
  cases move_of_step moved with
  | main moved => exact held.mainMove moved
  | producer _ moved =>
      obtain ⟨main, -, -, alive, -⟩ := moved.frame
      intro l
      rw [alive, main]
      exact held l
  | expose pos pc => exact held
  | close pc => exact held
  | leaveRun pc quit =>
      intro l
      have before := held l
      rw [pc] at before
      rw [show s.alive l = _ from before]
      cases l <;> rfl

/-! ## The condition -/

/-- `main` is about to destroy the local. -/
def MainPc.destroys : MainPc R → Local → Bool
  | .teardown current, l => current = l
  | _, _ => false

/-- **The condition**, on the state before a step and the thread that takes it. -/
def Orderly (s : State R) : Action → Prop
  | .main => s.main.destroys .window = true → s.producer.inCallback = false
  | .producer => (s.producer = .assignHB → s.main.destroyed .window = false) ∧
      (s.producer.usesModel = true → s.main.destroyed .model = false)
  | _ => True

/-- A store of the step goes to a model that is alive, and so does what is left of
an assignment after the callback; and if the callback runs after the step, the window
is alive. -/
def UsesAlive (s : State R) (a : Action) (s' : State R) : Prop :=
  (a = .producer → s.producer.usesModel = true → s.alive .model = true) ∧
    (s'.producer.inCallback = true → s'.alive .window = true)

private theorem MainMove.destroyed_eq (moved : MainMove tk s s') (l : Local) :
    s'.main.destroyed l = (s.main.destroyed l || s.main.destroys l) := by
  cases moved with
  | exec stmt inside pc => rw [pc]; cases stmt <;> rfl
  | destroy current pc => rw [pc]; cases current <;> cases l <;> rfl
  | enter stmt pc => rw [pc]; rfl
  | take pc => rw [pc]; rfl
  | drawCar pc => rw [pc]; rfl
  | readLeft pc => rw [pc]; rfl
  | readRight left pc => rw [pc]; rfl
  | passFront left right pc => rw [pc]; rfl
  | passRear left right front pc => rw [pc]; rfl
  | paintEnd frame pc => rw [pc]; rfl
  | exit pc => rw [pc]; rfl

private theorem ProducerMove.of_inCallback (moved : ProducerMove tk batch s s')
    (inside : s'.producer.inCallback = true) :
    s.producer.inCallback = true ∨ s.producer = .assignHB := by
  cases moved with
  | heard model o os pc assigned => exact Or.inr pc
  | enter pos pc => exact Or.inl (by rw [pc]; rfl)
  | getFirst pc => exact Or.inl (by rw [pc]; rfl)
  | layout v pc => exact Or.inl (by rw [pc]; rfl)
  | getSecond v pc => exact Or.inl (by rw [pc]; rfl)
  | _ => cases inside

/-! ## The result -/

/-- What an orderly run keeps. -/
private structure LifeInv (batch : ℕ → Batch R) (s : State R) : Prop where
  wired : Wired s
  stored : Stored batch s
  lives : Lives s
  callback : s.producer.inCallback = true → s.main.destroyed .window = false

private theorem lifeInv_initial : LifeInv batch (State.initial : State R) :=
  ⟨wired_initial, stored_initial, lives_initial, nofun⟩

private theorem LifeInv.callback_step (held : LifeInv batch s) {a : Action}
    (moved : (radarDemo tk batch).step s a = some s') (orderly : Orderly s a)
    (inside : s'.producer.inCallback = true) : s'.main.destroyed .window = false := by
  cases move_of_step moved with
  | main moved =>
      have before : s.producer.inCallback = true := by
        rcases moved.producer_eq with ⟨same, -⟩ | ⟨-, started, -⟩
        · rw [← same]
          exact inside
        · rw [started] at inside
          cases inside
      have keeps : s.main.destroys .window = false := by
        by_contra destroys
        rw [orderly (Bool.not_eq_false _ ▸ destroys)] at before
        cases before
      rw [moved.destroyed_eq, held.callback before, keeps]
      rfl
  | producer _ moved =>
      rw [moved.frame.1]
      rcases moved.of_inCallback inside with before | pc
      · exact held.callback before
      · exact orderly.1 pc
  | expose pos pc => exact held.callback inside
  | close pc => exact held.callback inside
  | leaveRun pc quit => rfl

/-- The window is constructed before anybody subscribes. -/
private theorem past_constructWindow {main : MainPc R} (subscribed : main.past .subscribe = true) :
    main.past .constructWindow = true := by
  cases main with
  | setup stmt inside => cases stmt <;> first | rfl | cases subscribed
  | _ => rfl

private theorem LifeInv.usesAlive (held : LifeInv batch s) (held' : LifeInv batch s')
    {a : Action} (moved : (radarDemo tk batch).step s a = some s') (orderly : Orderly s a) :
    UsesAlive s a s' := by
  constructor
  · rintro rfl storing
    have started : s.producer ≠ .notStarted := by
      intro pc
      rw [pc] at storing
      cases storing
    have constructed : s.main.past .constructModel = true := by
      by_contra before
      exact started (held.wired.started.mpr (Bool.eq_false_iff.mpr before))
    rw [held.lives, orderly.2 storing]
    exact congrArg (· && !false) constructed
  · intro inside
    have constructed := past_constructWindow (held'.wired.callback inside)
    rw [held'.lives, held'.callback inside]
    exact congrArg (· && !false) constructed

private theorem LifeInv.step (held : LifeInv batch s) {a : Action}
    (moved : (radarDemo tk batch).step s a = some s') (orderly : Orderly s a) :
    LifeInv batch s' ∧ UsesAlive s a s' := by
  have held' : LifeInv batch s' :=
    ⟨held.wired.step moved, held.stored.step moved, held.lives.step moved,
      held.callback_step moved orderly⟩
  exact ⟨held', held.usesAlive held' moved orderly⟩

/-- What is alive has not been destroyed. -/
private theorem Lives.not_destroyed {l : Local} (held : Lives s) (alive : s.alive l = true) :
    s.main.destroyed l = false := by
  rw [held, Bool.and_eq_true, Bool.not_eq_true'] at alive
  exact alive.2

/-- A step that is not orderly uses something that is not alive. -/
private theorem LifeInv.orderly (held : LifeInv batch s) {a : Action}
    (moved : (radarDemo tk batch).step s a = some s') (uses : UsesAlive s a s') :
    Orderly s a := by
  have lives := held.lives.step moved
  obtain ⟨storesAlive, callsAlive⟩ := uses
  cases move_of_step moved with
  | main moved =>
      intro destroys
      by_contra inside
      rw [Bool.not_eq_false] at inside
      have same : s'.producer = s.producer := by
        refine moved.producer_eq_of_started held.wired fun pc => ?_
        rw [pc] at inside
        cases inside
      have alive := lives.not_destroyed (callsAlive (same ▸ inside))
      rw [moved.destroyed_eq, destroys, Bool.or_true] at alive
      cases alive
  | producer _ moved =>
      refine ⟨fun pc => ?_, fun storing => held.lives.not_destroyed (storesAlive rfl storing)⟩
      rw [← moved.frame.1]
      cases moved with
      | heard model o os _ assigned => exact lives.not_destroyed (callsAlive rfl)
      | unheard model _ assigned =>
          -- only before the subscription can an assignment go unheard
          cases at_ : s.main with
          | setup stmt inside => rfl
          | _ =>
              have subscribed : s.main.past .subscribe = true := by rw [at_]; rfl
              exact (heard_of_subscribed held.wired held.stored pc subscribed assigned).elim
      | _ => simp_all
  | expose pos pc => trivial
  | close pc => trivial
  | leaveRun pc quit => trivial

/-- **Nothing is used after its destruction exactly in the orderly runs**: every
store goes to a model that is alive and ends in one, and every run of the callback
uses a window that is alive, if and only if every step of the run is orderly. -/
theorem usesAlive_iff (tk : Toolkit) (batch : ℕ → Batch R) (as : List Action) :
    (radarDemo tk batch).Along UsesAlive State.initial as ↔
      (radarDemo tk batch).Along (fun s a _ => Orderly s a) State.initial as :=
  TransitionSystem.along_iff_of_exact (I := LifeInv batch)
    (fun held moved orderly => held.step moved orderly)
    (fun held moved uses => held.orderly moved uses) lifeInv_initial as

/-! ## A producer that outlives both -/

instance decidableOrderly : ∀ (s : State R) (a : Action), Decidable (Orderly s a)
  | _, .main => inferInstanceAs (Decidable (_ → _))
  | _, .producer => inferInstanceAs (Decidable ((_ → _) ∧ (_ → _)))
  | _, .expose | _, .close | _, .leaveRun => isTrue trivial

instance decidableUsesAlive (s : State R) (a : Action) (s' : State R) :
    Decidable (UsesAlive s a s') :=
  inferInstanceAs (Decidable ((_ → _ → _) ∧ (_ → _)))

/-- The user closes the window while the producer sleeps. -/
def closingSchedule : List Action :=
  Action.construct ++ Action.publication ++ Action.setup ++ Action.painting ++ [.close, .leaveRun]

theorem usesAlive_orderlySchedule :
    (radarDemo .paintsOnActivate (genAmp (R := ℚ) id)).Along UsesAlive State.initial
      (closingSchedule ++ List.replicate 6 .main) :=
  (usesAlive_iff .paintsOnActivate (genAmp id) _).mpr (by decide)

/-- The producer wakes up and assigns its heartbeat when the window is gone. -/
def lateCallbackSchedule : List Action :=
  closingSchedule ++ List.replicate 2 .main ++ List.replicate 6 .producer

/-- It is about to leave the assignment when the model is gone, and it wakes up to
store its next lists. -/
def lateReturnSchedule : List Action :=
  lateCallbackSchedule ++ List.replicate 8 .producer ++ List.replicate 3 .main

def lateStoreSchedule : List Action := lateReturnSchedule ++ List.replicate 2 .producer

/-- **The producer outlives the window and the model.**  The callback runs with
the window destroyed, it returns to the observers of a model that is destroyed, and
the next store is into that model. -/
theorem producer_outlives :
    ¬ (radarDemo .paintsOnActivate (genAmp (R := ℚ) id)).Along UsesAlive State.initial
        lateStoreSchedule ∧
    (∃ s, (radarDemo .paintsOnActivate (genAmp (R := ℚ) id)).exec State.initial
        lateCallbackSchedule = some s ∧
      s.producer.inCallback = true ∧ s.alive .window = false) ∧
    (∃ s s', (radarDemo .paintsOnActivate (genAmp (R := ℚ) id)).exec State.initial
        lateReturnSchedule = some s ∧
      s.producer = .leaveApply ∧ s.alive .model = false ∧
      (radarDemo .paintsOnActivate (genAmp id)).step s .producer = some s') ∧
    (∃ s s', (radarDemo .paintsOnActivate (genAmp (R := ℚ) id)).exec State.initial
        lateStoreSchedule = some s ∧
      s.producer = .storeFront ∧ s.alive .model = false ∧
      (radarDemo .paintsOnActivate (genAmp id)).step s .producer = some s') :=
  ⟨by decide, ⟨_, rfl, rfl, rfl⟩, ⟨_, _, rfl, rfl, rfl, rfl⟩, ⟨_, _, rfl, rfl, rfl, rfl⟩⟩

end RadarDemo
