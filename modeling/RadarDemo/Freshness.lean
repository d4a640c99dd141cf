import RadarDemo.Coherence
import RadarDemo.Concurrency.Redraw

/-!
# No batch is lost on screen

The demo redraws on a dirty flag: the producer stores, then its heartbeat
schedules a painting; the message loop takes the flag of the content view, then
runs the handler, which reads the members one after another.  That is the
protocol of `Concurrency.Redraw` with four cells, and `matched_step` is the
simulation.

Three things have to be seen for it to hold.

* Every heartbeat that is assigned while the loop runs is heard, by the parity
  in `Stored`, and reaches `radar_view`, by `Wired`; so a store made while the
  loop runs is followed by a request (`WillPaint`).
* A heartbeat before that may reach the view that `main` is about to replace, or
  nobody.  The toolkit paints the window once it is shown (`Shown`), and this
  painting reads everything that was stored by then: in the protocol, the whole
  of `main`'s setup is one pending request.
* The flag is taken before the first read, so a store that the running handler
  misses is painted by the next one.
-/

namespace RadarDemo

open Concurrency Observable

variable {R : Type}

/-! ## The four cells -/

/-- What the handler reads in one step. -/
inductive Cell
  | left
  | right
  | front
  | rear
  deriving DecidableEq

@[reducible] def CellType (R : Type) : Cell → Type
  | .left | .right => Option R
  | .front | .rear => Objects R

/-- The members as the handler would read them now. -/
def TestModel.cells (m : TestModel R) : (c : Cell) → CellType R c
  | .left => m.sonar.map (·.left)
  | .right => m.sonar.map (·.right)
  | .front => m.objsMap.lookup 0
  | .rear => m.objsMap.lookup 1

def Frame.cells (frame : Frame R) : (c : Cell) → CellType R c
  | .left => frame.left
  | .right => frame.right
  | .front => frame.front
  | .rear => frame.rear

def Frame.ofCells (picture : (c : Cell) → CellType R c) : Frame R :=
  ⟨picture .left, picture .right, picture .front, picture .rear⟩

/-- What the handler has read at a position. -/
def PaintPos.copied : PaintPos R → (c : Cell) → Option (CellType R c)
  | .readRight left, .left => some left
  | .passFront left _, .left => some left
  | .passFront _ right, .right => some right
  | .passRear left _ _, .left => some left
  | .passRear _ right _, .right => some right
  | .passRear _ _ front, .front => some front
  | .paintEnd frame, c => some (frame.cells c)
  | _, _ => none

def MainPc.reader : MainPc R → Redraw.Reader (CellType R)
  | .run .idle => .idle
  | .run pos => .copying pos.copied
  | _ => .idle

@[simp] theorem TestModel.cells_readObjs (m : TestModel R) (key : ℤ) :
    (m.readObjs key).2.cells = m.cells := by
  funext c
  cases c with
  | front => exact m.lookup_readObjs key 0
  | rear => exact m.lookup_readObjs key 1
  | _ => rfl

/-! ## The first painting -/

def MainPc.inSetup : MainPc R → Bool
  | .setup _ _ => true
  | _ => false

def MainPc.inRun : MainPc R → Bool
  | .run _ => true
  | _ => false

theorem MainPc.not_inRun_of_inSetup {pc : MainPc R} (inSetup : pc.inSetup = true) :
    ¬ pc.inRun = true := by
  cases pc with
  | setup stmt inside => exact nofun
  | _ => cases inSetup

/-- A call that installs or shows the content view. -/
def SetupStmt.shows (stmt : SetupStmt) : Option UiCall :=
  if SetupStmt.setContentView.index ≤ stmt.index then stmt.uiCall else none

/-- During setup, a request that a showing call made is still pending. -/
def Shown (tk : Toolkit) (s : State R) : Prop :=
  s.main.inSetup = true → ∀ stmt call, SetupStmt.shows stmt = some call →
    tk.requestsPaint call = true → s.main.past stmt = true → s.dirty .radar = true

variable {tk : Toolkit} {batch : ℕ → Batch R} {s s' : State R}

/-- Marking a view leaves the marks there are. -/
theorem State.mark_of_dirty (s : State R) (requested : Bool) (v : View) {w : View}
    (marked : s.dirty w = true) : (s.mark requested v).dirty w = true := by
  cases requested with
  | false => exact marked
  | true =>
      by_cases same : w = v
      · subst same
        exact Function.update_self _ _ _
      · exact (Function.update_of_ne same _ _).trans marked

theorem State.mark_self (s : State R) (v : View) : (s.mark true v).dirty v = true :=
  Function.update_self _ _ _

/-- No statement of the setup takes a mark away. -/
private theorem SetupStmt.exec_of_dirty (stmt : SetupStmt) (s : State R) {w : View}
    (marked : s.dirty w = true) : (stmt.exec tk s).dirty w = true := by
  cases stmt with
  | setStyle | setResizable | setContentView | setContentSize | center | activate =>
      exact State.mark_of_dirty _ _ _ marked
  | _ => exact marked

/-- A showing call that requests a painting marks `radar_view`. -/
private theorem dirty_of_shows {stmt : SetupStmt} {call : UiCall} {inside : Bool}
    (wired : Wired s) (pc : s.main = .setup stmt inside)
    (shows_ : SetupStmt.shows stmt = some call) (requested : tk.requestsPaint call = true) :
    (stmt.exec tk s).dirty .radar = true := by
  have content := wired.content
  rw [pc] at content
  cases stmt with
  | setContentView =>
      cases shows_
      simp only [SetupStmt.exec, requested]
      exact State.mark_self _ _
  | setContentSize | center | activate =>
      cases shows_
      simp only [SetupStmt.exec, requested, content]
      exact State.mark_self _ _
  | _ => simp [SetupStmt.shows, SetupStmt.index, SetupStmt.uiCall] at shows_

/-- The producer marks views, and unmarks none. -/
theorem ProducerMove.of_dirty (moved : ProducerMove tk batch s s') {w : View}
    (marked : s.dirty w = true) : s'.dirty w = true := by
  cases moved with
  | layout v pc => exact State.mark_of_dirty _ _ _ marked
  | schedulePaint v v' pc => exact State.mark_of_dirty s true v' marked
  | _ => exact marked

private theorem shown_initial : Shown tk (State.initial : State R) := by
  intro _ stmt _ _ _ behind
  cases stmt <;> cases behind

private theorem Shown.step (wired : Wired s) (held : Shown tk s) {a : Action}
    (moved : (radarDemo tk batch).step s a = some s') : Shown tk s' := by
  intro inSetup stmt call shows_ requested behind
  cases move_of_step moved with
  | main moved =>
      cases moved with
      | enter stmt' pc =>
          exact held (by rw [pc]; rfl) stmt call shows_ requested (by rw [pc]; exact behind)
      | exec stmt' inside pc =>
          have behind : (stmt'.next : MainPc R).past stmt = true := behind
          rw [MainPc.past_next stmt' stmt inside, Bool.or_eq_true, decide_eq_true_eq] at behind
          rcases behind with before | rfl
          · exact SetupStmt.exec_of_dirty stmt' s
              (held (by rw [pc]; rfl) stmt call shows_ requested (by rw [pc]; exact before))
          · exact dirty_of_shows wired pc shows_ requested
      | destroy l pc => cases l <;> cases inSetup
      | take pc => cases inSetup
      | drawCar pc => cases inSetup
      | readLeft pc => cases inSetup
      | readRight left pc => cases inSetup
      | passFront left right pc => cases inSetup
      | passRear left right front pc => cases inSetup
      | paintEnd frame pc => cases inSetup
      | exit pc => cases inSetup
  | producer _ moved =>
      obtain ⟨main, -⟩ := moved.frame
      rw [main] at inSetup behind
      exact moved.of_dirty (held inSetup stmt call shows_ requested behind)
  | expose pos pc =>
      rw [show (s.mark true s.content).main = s.main from rfl, pc] at inSetup
      cases inSetup
  | close pc => exact held inSetup stmt call shows_ requested behind
  | leaveRun pc quit => cases inSetup

/-- `main` enters `Run` with a painting of `radar_view` pending. -/
private theorem dirty_of_connectOnClose {inside : Bool} (held : Shown tk s)
    (show_ : tk.PaintsOnShow) (pc : s.main = .setup .connectOnClose inside) :
    s.dirty .radar = true := by
  have inSetup : s.main.inSetup = true := by rw [pc]; rfl
  rcases show_ with requested | requested | requested
  · exact held inSetup .setContentView _ rfl requested (by rw [pc]; rfl)
  · exact held inSetup .setContentSize _ rfl requested (by rw [pc]; rfl)
  · exact held inSetup .activate _ rfl requested (by rw [pc]; rfl)

/-! ## The simulation -/

/-- The producer has stored something and will still schedule a painting of
`radar_view`, if it finds the observer subscribed and the view installed. -/
def ProducerPc.WillPaint : ProducerPc → Prop
  | .storeRear | .storeSonar | .flipToggle | .assignHB => True
  | .callback (.schedulePaint _ w) _ => w = .radar
  | .callback _ _ => True
  | _ => False

/-- A state of the demo and a state of the protocol that it realises. -/
structure Realises (s : State R) (t : Redraw.State (CellType R)) : Prop where
  cells : t.cells = s.model.cells
  reader : t.reader = s.main.reader
  shown : t.shown.map Frame.ofCells = s.frames.head?
  setup : s.main.inSetup = true → t.dirty = true ∧ t.owed = false
  run : s.main.inRun = true →
    t.dirty = s.dirty .radar ∧ (t.owed = true → s.producer.WillPaint)

/-- The protocol can catch up with the demo. -/
def Matched (t : Redraw.State (CellType R)) (s' : State R) : Prop :=
  ∃ t', Relation.ReflTransGen Redraw.Step t t' ∧ Realises s' t'

private theorem Matched.stay {t : Redraw.State (CellType R)} (realised : Realises s' t) :
    Matched t s' :=
  ⟨t, .refl, realised⟩

private theorem Matched.single {t t' : Redraw.State (CellType R)} (moved : Redraw.Step t t')
    (realised : Realises s' t') : Matched t s' :=
  ⟨t', .single moved, realised⟩

/-- The protocol state after a store that is followed at once by a request. -/
private def refreshed (t : Redraw.State (CellType R)) (cells : (c : Cell) → CellType R c) :
    Redraw.State (CellType R) :=
  { t with cells := cells, dirty := true, owed := false }

private theorem run_refreshed (t : Redraw.State (CellType R))
    (cells : (c : Cell) → CellType R c) :
    Relation.ReflTransGen Redraw.Step t (refreshed t cells) :=
  .tail (.single (.write t cells)) (.request _)

variable {t : Redraw.State (CellType R)}

/-- A store is matched by a write; during setup a request follows at once. -/
private theorem matched_store (held : Realises s t) (main : s'.main = s.main)
    (frames : s'.frames = s.frames) (dirty : s'.dirty = s.dirty)
    (owes : s'.producer.WillPaint) : Matched t s' := by
  by_cases inSetup : s.main.inSetup = true
  · refine ⟨refreshed t s'.model.cells, run_refreshed t _, rfl, ?_, ?_, fun _ => ⟨rfl, rfl⟩, ?_⟩
    · rw [main]
      exact held.reader
    · rw [frames]
      exact held.shown
    · intro inRun
      rw [main] at inRun
      exact absurd inRun (MainPc.not_inRun_of_inSetup inSetup)
  · refine Matched.single (.write t s'.model.cells) ⟨rfl, ?_, ?_, ?_, ?_⟩
    · rw [main]
      exact held.reader
    · rw [frames]
      exact held.shown
    · intro inSetup'
      rw [main] at inSetup'
      exact absurd inSetup' inSetup
    · intro inRun
      rw [main] at inRun
      rw [dirty]
      exact ⟨(held.run inRun).1, fun _ => owes⟩

/-- A step that stores nothing is matched by a request, if it marks `radar_view`,
or else by nothing, as long as it lets no owed request drop. -/
private theorem matched_quiet (held : Realises s t) (main : s'.main = s.main)
    (frames : s'.frames = s.frames) (cells : s'.model.cells = s.model.cells)
    (keeps : s.main.inRun = true → s'.dirty .radar = true ∨
      (s'.dirty .radar = s.dirty .radar ∧ (s.producer.WillPaint → s'.producer.WillPaint))) :
    Matched t s' := by
  by_cases marks : s.main.inRun = true ∧ s'.dirty .radar = true
  · obtain ⟨inRun, marked⟩ := marks
    refine Matched.single (.request t) ⟨?_, ?_, ?_, ?_, ?_⟩
    · rw [cells]
      exact held.cells
    · rw [main]
      exact held.reader
    · rw [frames]
      exact held.shown
    · exact fun _ => ⟨rfl, rfl⟩
    · exact fun _ => ⟨marked.symm, nofun⟩
  · refine Matched.stay ⟨?_, ?_, ?_, ?_, ?_⟩
    · rw [cells]
      exact held.cells
    · rw [main]
      exact held.reader
    · rw [frames]
      exact held.shown
    · rw [main]
      exact held.setup
    · intro inRun
      rw [main] at inRun
      rcases keeps inRun with marked | ⟨same, keeps⟩
      · exact absurd ⟨inRun, marked⟩ marks
      · exact ⟨(held.run inRun).1.trans same.symm, fun owed => keeps ((held.run inRun).2 owed)⟩

/-- `main`'s setup is matched by a store and a request, whatever it does: the
request that is pending then lasts until the loop runs. -/
private theorem matched_exec {stmt : SetupStmt} {inside : Bool} (held : Realises s t)
    (shown : Shown tk s) (show_ : tk.PaintsOnShow) (pc : s.main = .setup stmt inside) :
    Matched t { stmt.exec tk s with main := stmt.next } := by
  have reader : t.reader = .idle := by
    rw [held.reader, pc]
    rfl
  refine ⟨refreshed t (stmt.exec tk s).model.cells, run_refreshed t _, rfl, ?_, ?_,
    fun _ => ⟨rfl, rfl⟩, ?_⟩
  · show t.reader = _
    rw [reader]
    cases stmt <;> rfl
  · show t.shown.map Frame.ofCells = _
    rw [held.shown]
    cases stmt <;> rfl
  · intro inRun
    cases stmt with
    | connectOnClose =>
        exact ⟨(dirty_of_connectOnClose shown show_ pc).symm, nofun⟩
    | _ => cases inRun

/-- The handler reads one cell more. -/
private theorem matched_copy (pos : PaintPos R) {pos' : PaintPos R} {m : TestModel R} (c : Cell)
    (held : Realises s t) (main : s.main.reader = .copying pos.copied)
    (inRun : s.main.inRun = true) (next : pos' ≠ .idle)
    (cells : m.cells = s.model.cells)
    (reads : pos'.copied = Function.update pos.copied c (some (s.model.cells c))) :
    Matched t { s with model := m, main := .run pos' } := by
  have reader : t.reader = .copying pos.copied := held.reader.trans main
  refine Matched.single (.copy t c reader) ⟨held.cells.trans cells.symm, ?_, held.shown,
    nofun, fun _ => held.run inRun⟩
  have after : (MainPc.run pos' : MainPc R).reader = .copying pos'.copied := by
    cases pos' with
    | idle => exact absurd rfl next
    | _ => rfl
  show _ = (MainPc.run pos' : MainPc R).reader
  rw [after, reads, held.cells]

private theorem matched_mainMove (held : Realises s t) (wired : Wired s) (shown : Shown tk s)
    (show_ : tk.PaintsOnShow) (moved : MainMove tk s s') : Matched t s' := by
  cases moved with
  | enter stmt pc =>
      have inSetup : s.main.inSetup = true := by rw [pc]; rfl
      refine Matched.stay ⟨held.cells, ?_, held.shown, fun _ => held.setup inSetup, nofun⟩
      rw [held.reader, pc]
      rfl
  | exec stmt inside pc => exact matched_exec held shown show_ pc
  | take pc pending =>
      have content : s.content = .radar := by rw [wired.content, pc]; rfl
      have connected : s.drawConnected = true := by rw [wired.drawConnected, pc]; rfl
      have inRun : s.main.inRun = true := by rw [pc]; rfl
      have idle : t.reader = .idle := by rw [held.reader, pc]; rfl
      have dirty : t.dirty = true := by rw [(held.run inRun).1, ← content, pending]
      rw [if_pos ⟨content, connected⟩, content]
      refine Matched.single (.take t idle dirty) ⟨held.cells, rfl, held.shown, nofun, ?_⟩
      exact fun _ => ⟨(Function.update_self View.radar false s.dirty).symm, (held.run inRun).2⟩
  | drawCar pc =>
      refine Matched.stay ⟨held.cells, ?_, held.shown, nofun, fun _ => held.run (by rw [pc]; rfl)⟩
      rw [held.reader, pc]
      rfl
  | readLeft pc =>
      refine matched_copy .readLeft .left held (by rw [pc]; rfl) (by rw [pc]; rfl)
        nofun rfl ?_
      funext c
      cases c <;> rfl
  | readRight left pc =>
      refine matched_copy (.readRight left) .right held (by rw [pc]; rfl)
        (by rw [pc]; rfl) nofun rfl ?_
      funext c
      cases c <;> rfl
  | passFront left right pc =>
      refine matched_copy (.passFront left right) .front held (by rw [pc]; rfl)
        (by rw [pc]; rfl) nofun (TestModel.cells_readObjs _ _) ?_
      funext c
      cases c <;> rfl
  | passRear left right front pc =>
      refine matched_copy (.passRear left right front) .rear held (by rw [pc]; rfl)
        (by rw [pc]; rfl) nofun (TestModel.cells_readObjs _ _) ?_
      funext c
      cases c <;> rfl
  | paintEnd frame pc =>
      have reader : t.reader = .copying (PaintPos.paintEnd frame).copied := by
        rw [held.reader, pc]
        rfl
      exact Matched.single (.finish t frame.cells reader fun _ => rfl)
        ⟨held.cells, rfl, rfl, nofun, fun _ => held.run (by rw [pc]; rfl)⟩
  | destroy l pc =>
      refine Matched.stay ⟨held.cells, ?_, held.shown, ?_, ?_⟩
      · rw [held.reader, pc]
        cases l <;> rfl
      · cases l <;> exact nofun
      · cases l <;> exact nofun
  | exit pc =>
      refine Matched.stay ⟨held.cells, ?_, held.shown, nofun, nofun⟩
      rw [held.reader, pc]
      rfl

private theorem matched_producerMove (held : Realises s t) (wired : Wired s)
    (stored : Stored batch s) (moved : ProducerMove tk batch s s') : Matched t s' := by
  cases moved with
  | storeFront pc => exact matched_store held rfl rfl rfl trivial
  | storeRear pc => exact matched_store held rfl rfl rfl trivial
  | storeSonar pc => exact matched_store held rfl rfl rfl trivial
  | flipToggle pc =>
      exact matched_quiet held rfl rfl rfl fun _ => Or.inr ⟨rfl, fun _ => trivial⟩
  | unheard model pc assigned =>
      have quiet := TestModel.of_assignHB_eq_ok assigned
      refine matched_quiet held rfl rfl ?_ fun inRun => ?_
      · rw [quiet.1]
        funext c
        cases c <;> rfl
      · have subscribed : s.main.past .subscribe = true := by
          cases at_ : s.main with
          | run pos => rfl
          | _ => rw [at_] at inRun; cases inRun
        exact (heard_of_subscribed wired stored pc subscribed assigned).elim
  | heard model o os pc assigned =>
      have quiet := TestModel.of_assignHB_eq_ok assigned
      refine matched_quiet held rfl rfl ?_ fun _ => Or.inr ⟨rfl, fun _ => trivial⟩
      rw [quiet.1]
      funext c
      cases c <;> rfl
  | enter pos pc =>
      refine matched_quiet held rfl rfl rfl fun _ => Or.inr ⟨rfl, fun owes => ?_⟩
      rw [pc] at owes
      cases pos <;> exact owes
  | getFirst pc =>
      exact matched_quiet held rfl rfl rfl fun _ => Or.inr ⟨rfl, fun _ => trivial⟩
  | layout v pc =>
      refine matched_quiet held rfl rfl rfl fun _ => ?_
      by_cases marked : (s.mark (tk.requestsPaint .layout) v).dirty .radar = true
      · exact Or.inl marked
      · have before : ¬ s.dirty .radar = true := fun before =>
          marked (State.mark_of_dirty s _ v before)
        rw [Bool.not_eq_true] at marked before
        exact Or.inr ⟨marked.trans before.symm, fun _ => trivial⟩
  | getSecond v pc =>
      refine matched_quiet held rfl rfl rfl fun inRun => Or.inr ⟨rfl, fun _ => ?_⟩
      show s.content = .radar
      rw [wired.content]
      cases at_ : s.main with
      | run pos => rfl
      | _ => rw [at_] at inRun; cases inRun
  | schedulePaint v w pc =>
      refine matched_quiet held rfl rfl rfl fun _ => ?_
      cases w with
      | radar => exact Or.inl (State.mark_self s .radar)
      | initial =>
          have other : View.radar ≠ View.initial := by decide
          refine Or.inr ⟨Function.update_of_ne other true s.dirty, fun owes => ?_⟩
          rw [pc] at owes
          cases owes
  | leaveApply pc =>
      refine matched_quiet held rfl rfl rfl fun _ => Or.inr ⟨rfl, fun owes => ?_⟩
      rw [pc] at owes
      cases owes
  | wake pc =>
      refine matched_quiet held rfl rfl rfl fun _ => Or.inr ⟨rfl, fun owes => ?_⟩
      rw [pc] at owes
      cases owes

/-- **The demo realises the redraw protocol.** -/
private theorem matched_step (show_ : tk.PaintsOnShow) (wired : Wired s)
    (stored : Stored batch s) (shown : Shown tk s) (held : Realises s t) {a : Action}
    (moved : (radarDemo tk batch).step s a = some s') : Matched t s' := by
  cases move_of_step moved with
  | main moved => exact matched_mainMove held wired shown show_ moved
  | producer _ moved => exact matched_producerMove held wired stored moved
  | expose pos pc =>
      have content : s.content = .radar := by rw [wired.content, pc]; rfl
      refine matched_quiet held rfl rfl rfl fun _ => Or.inl ?_
      rw [content]
      exact State.mark_self s .radar
  | close pc => exact matched_quiet held rfl rfl rfl fun _ => Or.inr ⟨rfl, id⟩
  | leaveRun pc quit =>
      refine Matched.stay ⟨held.cells, ?_, held.shown, nofun, nofun⟩
      rw [held.reader, pc]
      rfl

private theorem realises_initial :
    Realises (State.initial : State R) (Redraw.start TestModel.construct.cells) where
  cells := rfl
  reader := rfl
  shown := rfl
  setup := fun _ => ⟨rfl, rfl⟩
  run := nofun

/-- Every state that the demo reaches realises one that the protocol reaches. -/
theorem realises_of_reachable (show_ : tk.PaintsOnShow)
    (reached : (radarDemo tk batch).Reachable s) :
    ∃ t, Relation.ReflTransGen Redraw.Step (Redraw.start TestModel.construct.cells) t ∧
      Realises s t := by
  obtain ⟨t, run, -, -, -, realised⟩ := reached.simulates
    (fun s t => Wired s ∧ Stored batch s ∧ Shown tk s ∧ Realises s t)
    ⟨wired_initial, stored_initial, shown_initial, realises_initial⟩
    fun ⟨wired, stored, shown, held⟩ moved =>
      have ⟨t', run, realised⟩ := matched_step show_ wired stored shown held moved
      ⟨t', run, wired.step moved, stored.step moved, shown.step wired moved, realised⟩
  exact ⟨t, run, realised⟩

/-! ## The result -/

/-- Between two iterations the members hold the last one. -/
theorem cells_of_finished {k : ℕ} (stored : Stored batch s) (finished : s.Finished k)
    (positive : 1 ≤ k) : s.model.cells = (Frame.ofBatch (batch k)).cells := by
  have versions : s.producer.frontVersion s.iter = k ∧ s.producer.rearVersion s.iter = k ∧
      s.producer.sonarVersion s.iter = k := by
    rcases finished with ⟨pc | pc, iter⟩ | ⟨pc, iter⟩ <;> rw [pc, iter] <;> exact ⟨rfl, rfl, rfl⟩
  obtain ⟨front, rear, sonar⟩ := versions
  have hfront := stored.front
  have hrear := stored.rear
  have hsonar := stored.sonar
  rw [front, published_of_pos positive] at hfront
  rw [rear, published_of_pos positive] at hrear
  rw [sonar, published_of_pos positive] at hsonar
  funext c
  cases c with
  | left => simp only [TestModel.cells, hsonar]; rfl
  | right => simp only [TestModel.cells, hsonar]; rfl
  | front => exact hfront
  | rear => exact hrear

/-- **The last frame shows the members as they are** whenever the message loop
waits with nothing to paint and the producer is not about to ask for a painting. -/
theorem lastFrame_eq_cells (show_ : tk.PaintsOnShow)
    (reached : (radarDemo tk batch).Reachable s) (idle : s.main = .run .idle)
    (clean : s.dirty s.content = false) (quiet : ¬ s.producer.WillPaint) :
    s.frames.head? = some (Frame.ofCells s.model.cells) := by
  obtain ⟨t, run, realised⟩ := realises_of_reachable show_ reached
  have inRun : s.main.inRun = true := by rw [idle]; rfl
  have content : s.content = .radar := by rw [(wired_of_reachable reached).content, idle]; rfl
  have reader : t.reader = .idle := by rw [realised.reader, idle]; rfl
  have tclean : t.dirty = false := by rw [(realised.run inRun).1, ← content, clean]
  have settled : t.owed = false := by
    by_contra owed
    exact quiet ((realised.run inRun).2 (Bool.not_eq_false _ ▸ owed))
  have shown := Redraw.shown_eq_cells run reader tclean settled
  rw [← realised.shown, shown, realised.cells]
  rfl

/-- **No generated batch is lost on screen.**  Whenever the message loop waits
with nothing to paint and the producer is between two iterations, the last frame
painted was drawn from exactly the lists and readings of the last iteration:
for every content of the batches and every interleaving, including iterations
that complete before or during the setup.  Of the toolkit it is assumed that
installing, sizing or activating the content view schedules its painting. -/
theorem lastFrame_eq_of_idle (show_ : tk.PaintsOnShow)
    (reached : (radarDemo tk batch).Reachable s) (idle : s.main = .run .idle)
    (clean : s.dirty s.content = false) {k : ℕ} (positive : 1 ≤ k)
    (finished : s.Finished k) : s.frames.head? = some (Frame.ofBatch (batch k)) := by
  have quiet : ¬ s.producer.WillPaint := by
    rcases finished with ⟨pc | pc, -⟩ | ⟨pc, -⟩ <;> rw [pc] <;> exact id
  rw [lastFrame_eq_cells show_ reached idle clean quiet,
    cells_of_finished (stored_of_reachable reached) finished positive]
  rfl

/-- The first iteration is over before anybody observes the heartbeat.  The second one
is heard while the first painting is under way: its stores fall between the handler's
readings, its request into the rest of the painting, and another painting follows. -/
def heardSchedule : List Action :=
  Action.construct ++ Action.publication ++ Action.setup ++ List.replicate 3 .main ++
    List.replicate 15 .producer ++ List.replicate 4 .main ++ Action.painting

theorem lastFrame_eq_of_heard_iteration :
    ∃ s, (radarDemo .paintsOnActivate (genAmp (R := ℚ) id)).exec State.initial
        heardSchedule = some s ∧
      s.frames.length = 2 ∧ s.frames.head? = some (Frame.ofBatch (genAmp id 2)) := by
  have ran : ∃ s, (radarDemo .paintsOnActivate (genAmp (R := ℚ) id)).exec State.initial
      heardSchedule = some s ∧ s.frames.length = 2 ∧ s.main = .run .idle ∧
        s.dirty s.content = false ∧ s.Finished 2 :=
    ⟨_, rfl, rfl, rfl, rfl, Or.inl ⟨Or.inr rfl, rfl⟩⟩
  obtain ⟨s, ran, twice, idle, clean, finished⟩ := ran
  have reached := TransitionSystem.reachable_of_exec ran
  exact ⟨s, ran, twice,
    lastFrame_eq_of_idle (Or.inr (Or.inr rfl)) reached idle clean (by decide) finished⟩

end RadarDemo
