import RadarDemo.Concurrency.Transition
import RadarDemo.Painting

/-!
# The running program

`main` and the thread that `TestModel`'s constructor starts and detaches, as one
transition system.  Everything that the two threads share is in the state, the
scheduler picks which of them moves, and each of the following is one step:

* of the producer, a store to `m_objs_map[0]`, `m_objs_map[1]` or `m_sonar`, the
  flip of `_toggle`, the assignment to `dataHB` up to the callback, what is left of
  that assignment when the callback has returned, and waking up from the sleep;
* of `main`, one statement before `Run`, one read of the `on_draw` handler, and
  one destruction after `Run`;
* of either, entering a `nativeui` call on the window or a view, and leaving it.
  A call takes effect as it is left.

The user may close the window whenever the message loop is idle, and the toolkit
may want to paint the content view at any time the loop is running.

The toolkit is a binary library.  What its headers say is built in: a view that
`SchedulePaint` marks is dirty until it is painted, and `Run` paints a dirty
content view by running the handler.  Which other calls mark the content view is
left open, as the parameter `Toolkit`.
-/

namespace RadarDemo

/-! ## The toolkit -/

/-- The two content views the window ever has: the empty one it is created with,
and `radar_view`. -/
inductive View
  | initial
  | radar
  deriving DecidableEq, Repr

/-- The calls that the program makes on the window or on a view. -/
inductive UiCall
  | getContentView
  | layout
  | schedulePaint
  | setStyle
  | setResizable
  | setContentView
  | setContentSize
  | center
  | activate
  deriving DecidableEq, Repr

/-- Whether a call other than `SchedulePaint` marks the view it is about, which
for a call on the window is the content view. -/
structure Toolkit where
  requestsPaint : UiCall → Bool

/-- Somewhere between installing and activating the content view, the toolkit
marks it to be painted. -/
def Toolkit.PaintsOnShow (tk : Toolkit) : Prop :=
  tk.requestsPaint .setContentView ∨ tk.requestsPaint .setContentSize ∨
    tk.requestsPaint .activate

/-! ## Positions -/

/-- The statements of `main` before `Run`, in order. -/
inductive SetupStmt
  | constructModel
  | constructLifetime
  | constructState
  | constructWindow
  | subscribe
  | constructRadarView
  | setStyle
  | connectOnDraw
  | setResizable
  | setContentView
  | setContentSize
  | center
  | activate
  | connectOnClose
  deriving DecidableEq, Repr

/-- The local variables of `main`. -/
inductive Local
  | model
  | lifetime
  | state
  | window
  | radarView
  deriving DecidableEq, Repr

/-- The message loop: waiting, or inside a paint of the content view, with what
the handler has read so far. -/
inductive PaintPos (R : Type)
  | idle
  | drawCar
  | readLeft
  | readRight (left : Option R)
  | passFront (left right : Option R)
  | passRear (left right : Option R) (front : Objects R)
  | paintEnd (frame : Frame R)

inductive MainPc (R : Type)
  /-- About to execute a statement, or `inside` the toolkit call that it makes. -/
  | setup (stmt : SetupStmt) (inside : Bool)
  | run (pos : PaintPos R)
  /-- About to destroy a local variable. -/
  | teardown (l : Local)
  /-- All locals are destroyed, the process has not ended. -/
  | returning
  | exited

/-- The four calls of the heartbeat callback, with the views that its two
`GetContentView` calls returned. -/
inductive CallbackPos
  | getFirst
  | layout (v : View)
  | getSecond (v : View)
  | schedulePaint (v w : View)
  deriving DecidableEq, Repr

inductive ProducerPc
  | notStarted
  | storeFront
  | storeRear
  | storeSonar
  | flipToggle
  | assignHB
  /-- About to make a call of the callback, or `inside` it. -/
  | callback (pos : CallbackPos) (inside : Bool)
  /-- The callback has returned to the `apply` of the observers of `dataHB`. -/
  | leaveApply
  | sleeping
  deriving DecidableEq, Repr

/-- The toolkit call that a statement makes, if it makes one. -/
def SetupStmt.uiCall : SetupStmt → Option UiCall
  | .setStyle => some .setStyle
  | .setResizable => some .setResizable
  | .setContentView => some .setContentView
  | .setContentSize => some .setContentSize
  | .center => some .center
  | .activate => some .activate
  | _ => none

def SetupStmt.next {R : Type} : SetupStmt → MainPc R
  | .constructModel => .setup .constructLifetime false
  | .constructLifetime => .setup .constructState false
  | .constructState => .setup .constructWindow false
  | .constructWindow => .setup .subscribe false
  | .subscribe => .setup .constructRadarView false
  | .constructRadarView => .setup .setStyle false
  | .setStyle => .setup .connectOnDraw false
  | .connectOnDraw => .setup .setResizable false
  | .setResizable => .setup .setContentView false
  | .setContentView => .setup .setContentSize false
  | .setContentSize => .setup .center false
  | .center => .setup .activate false
  | .activate => .setup .connectOnClose false
  | .connectOnClose => .run .idle

/-- Locals are destroyed in the reverse order of their construction. -/
def Local.next {R : Type} : Local → MainPc R
  | .radarView => .teardown .window
  | .window => .teardown .state
  | .state => .teardown .lifetime
  | .lifetime => .teardown .model
  | .model => .returning

/-! ## The state -/

structure State (R : Type) where
  main : MainPc R
  producer : ProducerPc
  /-- The producer's current iteration, counted from 1; 0 before it starts. -/
  iter : ℕ
  model : TestModel R
  content : View
  dirty : View → Bool
  drawConnected : Bool
  closeConnected : Bool
  quit : Bool
  alive : Local → Bool
  /-- The frames painted so far, the last one first. -/
  frames : List (Frame R)

namespace State

variable {R : Type}

/-- `main` is about to construct the model. -/
def initial : State R where
  main := .setup .constructModel false
  producer := .notStarted
  iter := 0
  model := TestModel.construct
  content := .initial
  dirty := fun _ => false
  drawConnected := false
  closeConnected := false
  quit := false
  alive := fun _ => false
  frames := []

/-- Mark a view if the toolkit does so here. -/
def mark (s : State R) (requested : Bool) (v : View) : State R :=
  { s with dirty := if requested then Function.update s.dirty v true else s.dirty }

def setAlive (s : State R) (l : Local) (b : Bool) : State R :=
  { s with alive := Function.update s.alive l b }

end State

/-! ## The steps -/

section Steps

variable {R : Type}

/-- The effect of a statement of `main`. -/
def SetupStmt.exec (tk : Toolkit) : SetupStmt → State R → State R
  | .constructModel, s =>
      { s.setAlive .model true with
        model := TestModel.construct, producer := .storeFront, iter := 1 }
  | .constructLifetime, s => s.setAlive .lifetime true
  | .constructState, s => s.setAlive .state true
  | .constructWindow, s => { s.setAlive .window true with content := .initial }
  | .subscribe, s => { s with model := s.model.subscribeHB .relayoutAndPaint }
  | .constructRadarView, s => s.setAlive .radarView true
  | .setStyle, s => s.mark (tk.requestsPaint .setStyle) .radar
  | .connectOnDraw, s => { s with drawConnected := true }
  | .setResizable, s => s.mark (tk.requestsPaint .setResizable) s.content
  | .setContentView, s =>
      { s with content := .radar }.mark (tk.requestsPaint .setContentView) .radar
  | .setContentSize, s => s.mark (tk.requestsPaint .setContentSize) s.content
  | .center, s => s.mark (tk.requestsPaint .center) s.content
  | .activate, s => s.mark (tk.requestsPaint .activate) s.content
  | .connectOnClose, s => { s with closeConnected := true }

/-- One step of the `on_draw` handler, or of the loop that runs it. -/
def paintStep (s : State R) : PaintPos R → Option (State R)
  | .idle =>
      -- the dirty flag is taken before the handler runs, so that a request made
      -- while it runs leads to another paint
      if s.dirty s.content then
        some { s with
          dirty := Function.update s.dirty s.content false
          main := .run (if s.content = .radar ∧ s.drawConnected then .drawCar else .idle) }
      else none
  | .drawCar => some { s with main := .run .readLeft }
  | .readLeft => some { s with main := .run (.readRight (s.model.sonar.map (·.left))) }
  | .readRight left =>
      some { s with main := .run (.passFront left (s.model.sonar.map (·.right))) }
  | .passFront left right =>
      let (front, model) := s.model.readObjs 0
      some { s with model := model, main := .run (.passRear left right front) }
  | .passRear left right front =>
      let (rear, model) := s.model.readObjs 1
      some { s with model := model, main := .run (.paintEnd ⟨left, right, front, rear⟩) }
  | .paintEnd frame => some { s with frames := frame :: s.frames, main := .run .idle }

def mainStep (tk : Toolkit) (s : State R) : Option (State R) :=
  match s.main with
  | .setup stmt false =>
      if stmt.uiCall.isSome then some { s with main := .setup stmt true }
      else some { stmt.exec tk s with main := stmt.next }
  | .setup stmt true => some { stmt.exec tk s with main := stmt.next }
  | .run pos => paintStep s pos
  | .teardown l => some { s.setAlive l false with main := l.next }
  | .returning => some { s with main := .exited }
  | .exited => none

/-- One step inside the heartbeat callback. -/
def callbackStep (tk : Toolkit) (s : State R) : CallbackPos → Bool → State R
  | pos, false => { s with producer := .callback pos true }
  | .getFirst, true => { s with producer := .callback (.layout s.content) false }
  | .layout v, true =>
      { s.mark (tk.requestsPaint .layout) v with producer := .callback (.getSecond v) false }
  | .getSecond v, true => { s with producer := .callback (.schedulePaint v s.content) false }
  | .schedulePaint _ w, true => { s.mark true w with producer := .leaveApply }

/-- One step of `gen_amp`; `batch k` is what its `k`-th iteration generates. -/
def producerStep (tk : Toolkit) (batch : ℕ → Batch R) (s : State R) : Option (State R) :=
  match s.producer with
  | .notStarted => none
  | .storeFront =>
      some { s with model := s.model.storeFront (batch s.iter), producer := .storeRear }
  | .storeRear =>
      some { s with model := s.model.storeRear (batch s.iter), producer := .storeSonar }
  | .storeSonar =>
      some { s with model := s.model.storeSonar (batch s.iter), producer := .flipToggle }
  | .flipToggle => some { s with model := s.model.flipToggle, producer := .assignHB }
  | .assignHB =>
      match s.model.assignHB with
      | .error _ => none
      | .ok (model, []) => some { s with model := model, producer := .sleeping }
      | .ok (model, _ :: _) =>
          some { s with model := model, producer := .callback .getFirst false }
  | .callback pos inside => some (callbackStep tk s pos inside)
  | .leaveApply => some { s with producer := .sleeping }
  | .sleeping => some { s with iter := s.iter + 1, producer := .storeFront }

/-- What the scheduler picks. -/
inductive Action
  | main
  | producer
  /-- The toolkit wants to paint the content view. -/
  | expose
  /-- The user closes the window. -/
  | close
  /-- `Run` returns. -/
  | leaveRun
  deriving DecidableEq, Repr

/-- One step of the program.  The end of the process ends both threads. -/
def step (tk : Toolkit) (batch : ℕ → Batch R) (s : State R) : Action → Option (State R)
  | .main => mainStep tk s
  | .producer =>
      match s.main with
      | .exited => none
      | _ => producerStep tk batch s
  | .expose =>
      match s.main with
      | .run _ => some (s.mark true s.content)
      | _ => none
  | .close =>
      match s.main with
      | .run .idle => some { s with quit := s.quit || s.closeConnected }
      | _ => none
  | .leaveRun =>
      match s.main with
      | .run .idle => if s.quit then some { s with main := .teardown .radarView } else none
      | _ => none

/-- The program, from the start of `main`. -/
def radarDemo (tk : Toolkit) (batch : ℕ → Batch R) :
    Concurrency.TransitionSystem (State R) Action where
  init := State.initial
  step := step tk batch

end Steps

/-! ## Reading positions off a state -/

namespace SetupStmt

/-- The position of a statement in `main`. -/
def index : SetupStmt → ℕ
  | .constructModel => 0
  | .constructLifetime => 1
  | .constructState => 2
  | .constructWindow => 3
  | .subscribe => 4
  | .constructRadarView => 5
  | .setStyle => 6
  | .connectOnDraw => 7
  | .setResizable => 8
  | .setContentView => 9
  | .setContentSize => 10
  | .center => 11
  | .activate => 12
  | .connectOnClose => 13

end SetupStmt

namespace MainPc

variable {R : Type}

/-- `main` has executed the statement. -/
def past (stmt : SetupStmt) : MainPc R → Bool
  | .setup current _ => stmt.index < current.index
  | _ => true

/-- Executing a statement puts that statement behind, and no other. -/
theorem past_next (stmt other : SetupStmt) (inside : Bool) :
    (stmt.next : MainPc R).past other =
      ((MainPc.setup stmt inside : MainPc R).past other || other = stmt) := by
  cases stmt <;> cases other <;> rfl

/-- `main` is inside a toolkit call, a paint included. -/
def inCall : MainPc R → Bool
  | .setup _ inside => inside
  | .run .idle => false
  | .run _ => true
  | _ => false

end MainPc

namespace ProducerPc

/-- The producer is inside a toolkit call. -/
def inCall : ProducerPc → Bool
  | .callback _ inside => inside
  | _ => false

/-- The producer is inside the heartbeat callback. -/
def inCallback : ProducerPc → Bool
  | .callback _ _ => true
  | _ => false

/-- The next step of the producer is a store to a member of the model, or the end
of one: the observers that `apply` returns to are members of `dataHB`. -/
def usesModel : ProducerPc → Bool
  | .storeFront | .storeRear | .storeSonar | .flipToggle | .assignHB | .leaveApply => true
  | _ => false

end ProducerPc

/-- The producer is through with the callback of its `k`-th iteration, and has
stored nothing of the next. -/
def State.Finished {R : Type} (s : State R) (k : ℕ) : Prop :=
  ((s.producer = .leaveApply ∨ s.producer = .sleeping) ∧ s.iter = k) ∨
    (s.producer = .storeFront ∧ s.iter = k + 1)

/-! ## Some schedules -/

/-- A toolkit that paints a window when it is activated. -/
def Toolkit.paintsOnActivate : Toolkit := ⟨fun call => call = .activate⟩

namespace Action

/-- The construction of the model, and all of the setup behind it. -/
def construct : List Action := [.main]

def setup : List Action := List.replicate 19 .main

/-- One painting: taking the flag, `drawCar`, four readings and the end. -/
def painting : List Action := List.replicate 7 .main

/-- The stores of one iteration, up to the assignment of the heartbeat. -/
def publication : List Action := List.replicate 5 .producer

end Action

end RadarDemo
