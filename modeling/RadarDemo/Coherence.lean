import RadarDemo.Moves

/-!
# What the positions say about the state

Invariants of every reachable state that both the safety and the freshness
results start from.

* `Wired` — how far `main` has come determines the content view, whether the
  `on_draw` handler is connected, and who observes the heartbeat; the producer
  does not touch any of it.
* `Stored` — how far the producer has come determines what each member of the
  model holds, as a number of an iteration; `main` only reads it.  Here too is
  the parity that makes the heartbeat heard: the stored value differs from
  `_toggle` exactly when the producer is about to assign it.
-/

namespace RadarDemo

open Concurrency Observable

variable {R : Type}

/-! ## The wiring -/

/-- The wiring, from the components of the state it is about. -/
structure WiredAt (main : MainPc R) (producer : ProducerPc) (content : View)
    (drawConnected : Bool) (hb : Value Bool Observer) : Prop where
  content : content = if main.past .setContentView then .radar else .initial
  drawConnected : drawConnected = main.past .connectOnDraw
  observers : hb.notify = if main.past .subscribe then [.relayoutAndPaint] else []
  settable : hb.hasUpdater = false
  started : producer = .notStarted ↔ main.past .constructModel = false
  callback : producer.inCallback = true → main.past .subscribe = true

def Wired (s : State R) : Prop :=
  WiredAt s.main s.producer s.content s.drawConnected s.model.dataHB

theorem wired_initial : Wired (State.initial : State R) where
  content := rfl
  drawConnected := rfl
  observers := rfl
  settable := rfl
  started := ⟨fun _ => rfl, fun _ => rfl⟩
  callback := nofun

/-- Positions that have the same statements behind them are wired alike. -/
private theorem WiredAt.of_past {main main' : MainPc R} {producer : ProducerPc}
    {content : View} {drawConnected : Bool} {hb : Value Bool Observer}
    (held : WiredAt main producer content drawConnected hb)
    (same : ∀ stmt, main'.past stmt = main.past stmt) :
    WiredAt main' producer content drawConnected hb where
  content := by rw [same]; exact held.content
  drawConnected := by rw [same]; exact held.drawConnected
  observers := by rw [same]; exact held.observers
  settable := held.settable
  started := by rw [same]; exact held.started
  callback := by rw [same]; exact held.callback

variable {tk : Toolkit} {batch : ℕ → Batch R} {s s' : State R}

/-- A statement executed from its own position wires what the next one expects. -/
private theorem Wired.exec {stmt : SetupStmt} {inside : Bool} (held : Wired s)
    (pc : s.main = .setup stmt inside) :
    Wired { stmt.exec tk s with main := stmt.next } := by
  obtain ⟨content, drawConnected, observers, settable, started, callback⟩ := held
  rw [pc] at content drawConnected observers started callback
  cases stmt with
  | constructModel =>
      exact ⟨content, drawConnected, rfl, rfl, ⟨nofun, nofun⟩, nofun⟩
  | subscribe =>
      refine ⟨content, drawConnected, ?_, settable, started, fun _ => rfl⟩
      exact Value.notify_subscribe _ _ observers
  | constructWindow => exact ⟨rfl, drawConnected, observers, settable, started, callback⟩
  | connectOnDraw => exact ⟨content, rfl, observers, settable, started, callback⟩
  | setContentView => exact ⟨rfl, drawConnected, observers, settable, started, callback⟩
  | _ => exact ⟨content, drawConnected, observers, settable, started, callback⟩

private theorem Wired.mainMove (held : Wired s) (moved : MainMove tk s s') : Wired s' := by
  rcases moved.exec_or_frame with ⟨stmt, inside, pc, -, rfl⟩ | frame
  · exact held.exec pc
  · obtain ⟨past, producer, -, content, drawConnected, dataHB⟩ := frame
    unfold Wired
    rw [producer, content, drawConnected, dataHB]
    exact WiredAt.of_past held past

/-- The producer keeps the wiring, and is called back only over it. -/
private theorem Wired.producerMove (held : Wired s) (moved : ProducerMove tk batch s s') :
    Wired s' := by
  obtain ⟨main, content, drawConnected, -, -⟩ := moved.frame
  unfold Wired
  rw [main, content, drawConnected]
  refine ⟨held.content, held.drawConnected, ?_, ?_, ?_, ?_⟩
  · rw [moved.notify_eq]
    exact held.observers
  · rw [moved.hasUpdater_eq]
    exact held.settable
  · constructor
    · intro stopped
      exact absurd stopped moved.started.2
    · intro before
      exact absurd (held.started.mpr before) moved.started.1
  · intro inside
    rcases moved.observed_of_callback inside with before | observed
    · exact held.callback before
    · by_contra unsubscribed
      rw [held.observers, if_neg unsubscribed] at observed
      exact observed rfl

theorem Wired.step (held : Wired s) {a : Action}
    (moved : (radarDemo tk batch).step s a = some s') : Wired s' := by
  cases move_of_step moved with
  | main moved => exact held.mainMove moved
  | producer _ moved => exact held.producerMove moved
  | expose pos pc => exact held
  | close pc => exact held
  | leaveRun pc quit => exact WiredAt.of_past held fun _ => by rw [pc]; rfl

theorem wired_of_reachable (reached : (radarDemo tk batch).Reachable s) : Wired s :=
  reached.invariant wired_initial fun held moved => held.step moved

/-- **The producer is never blocked**: once started it can move in every reachable
state until the process ends, whatever `main` does; in particular its assignment
never throws. -/
theorem producer_moves (reached : (radarDemo tk batch).Reachable s)
    (started : s.producer ≠ .notStarted) (running : s.main ≠ .exited) :
    ∃ s', (radarDemo tk batch).step s .producer = some s' := by
  obtain ⟨m, notified, assigned⟩ :=
    TestModel.exists_assignHB_eq_ok (wired_of_reachable reached).settable
  have moves : ∃ s', producerStep tk batch s = some s' := by
    cases pc : s.producer with
    | notStarted => exact absurd pc started
    | assignHB => cases notified <;> simp [producerStep, pc, assigned]
    | _ => simp [producerStep, pc]
  obtain ⟨s', moved⟩ := moves
  refine ⟨s', ?_⟩
  simp only [radarDemo, step]
  exact moved

/-- Once the producer runs, `main` leaves it alone. -/
theorem MainMove.producer_eq_of_started (moved : MainMove tk s s') (wired : Wired s)
    (started : s.producer ≠ .notStarted) : s'.producer = s.producer := by
  rcases moved.producer_eq with ⟨same, -⟩ | ⟨before, -⟩
  · exact same
  · exact absurd (wired.started.mpr before) started

/-! ## The stored iterations -/

namespace ProducerPc

/-- The iteration whose front list is stored, while the producer works on the
`iter`-th; 0 means none. -/
def frontVersion (iter : ℕ) : ProducerPc → ℕ
  | .notStarted | .storeFront => iter - 1
  | _ => iter

def rearVersion (iter : ℕ) : ProducerPc → ℕ
  | .notStarted | .storeFront | .storeRear => iter - 1
  | _ => iter

def sonarVersion (iter : ℕ) : ProducerPc → ℕ
  | .notStarted | .storeFront | .storeRear | .storeSonar => iter - 1
  | _ => iter

end ProducerPc

/-- Only its own store changes the version of a member. -/
theorem ProducerMove.frontVersion_eq (moved : ProducerMove tk batch s s')
    (other : s.producer ≠ .storeFront) :
    s'.producer.frontVersion s'.iter = s.producer.frontVersion s.iter := by
  cases moved <;> simp_all [ProducerPc.frontVersion, State.mark]

theorem ProducerMove.rearVersion_eq (moved : ProducerMove tk batch s s')
    (other : s.producer ≠ .storeRear) :
    s'.producer.rearVersion s'.iter = s.producer.rearVersion s.iter := by
  cases moved <;> simp_all [ProducerPc.rearVersion, State.mark]

theorem ProducerMove.sonarVersion_eq (moved : ProducerMove tk batch s s')
    (other : s.producer ≠ .storeSonar) :
    s'.producer.sonarVersion s'.iter = s.producer.sonarVersion s.iter := by
  cases moved <;> simp_all [ProducerPc.sonarVersion, State.mark]

theorem ProducerMove.frontVersion_storeFront (moved : ProducerMove tk batch s s')
    (pc : s.producer = .storeFront) :
    s.producer.frontVersion s.iter = s.iter - 1 ∧ s'.producer.frontVersion s'.iter = s.iter := by
  cases moved <;> simp_all [ProducerPc.frontVersion]

theorem ProducerMove.rearVersion_storeRear (moved : ProducerMove tk batch s s')
    (pc : s.producer = .storeRear) :
    s.producer.rearVersion s.iter = s.iter - 1 ∧ s'.producer.rearVersion s'.iter = s.iter := by
  cases moved <;> simp_all [ProducerPc.rearVersion]

theorem ProducerMove.iter_le (moved : ProducerMove tk batch s s') : s.iter ≤ s'.iter := by
  cases moved with
  | wake pc => exact Nat.le_succ _
  | _ => exact le_rfl

/-- What an iteration leaves behind; nothing before the first. -/
def published (batch : ℕ → Batch R) : ℕ → Option (Batch R)
  | 0 => none
  | k + 1 => some (batch (k + 1))

/-- The members of the model, from the position of the producer. -/
structure StoredAt (batch : ℕ → Batch R) (producer : ProducerPc) (iter : ℕ)
    (m : TestModel R) : Prop where
  unstarted : producer = .notStarted → iter = 0
  started : producer ≠ .notStarted → 1 ≤ iter
  front : m.objsMap.lookup 0 =
    ((published batch (producer.frontVersion iter)).map (·.front)).getD []
  rear : m.objsMap.lookup 1 =
    ((published batch (producer.rearVersion iter)).map (·.rear)).getD []
  sonar : m.sonar = (published batch (producer.sonarVersion iter)).map (·.sonar)
  parity : m.dataHB.value ≠ m.toggle ↔ producer = .assignHB

def Stored (batch : ℕ → Batch R) (s : State R) : Prop :=
  StoredAt batch s.producer s.iter s.model

theorem stored_initial : Stored batch (State.initial : State R) where
  unstarted := fun _ => rfl
  started := fun running => absurd rfl running
  front := rfl
  rear := rfl
  sonar := rfl
  parity := ⟨fun different => absurd rfl different, nofun⟩

theorem published_of_pos {k : ℕ} (positive : 1 ≤ k) : published batch k = some (batch k) := by
  cases k with
  | zero => exact absurd positive (by omega)
  | succ k => rfl

/-- `main` reads the members; only the constructor writes them. -/
private theorem Stored.mainMove (held : Stored batch s) (moved : MainMove tk s s') :
    Stored batch s' := by
  cases moved with
  | exec stmt inside pc =>
      cases stmt with
      | constructModel =>
          exact ⟨nofun, fun _ => le_rfl, rfl, rfl, rfl,
            fun different => absurd rfl different, nofun⟩
      | subscribe =>
          exact ⟨held.unstarted, held.started, held.front, held.rear, held.sonar, held.parity⟩
      | _ => exact held
  | passFront left right pc =>
      refine ⟨held.unstarted, held.started, ?_, ?_, held.sonar, held.parity⟩
      · exact (s.model.lookup_readObjs 0 0).trans held.front
      · exact (s.model.lookup_readObjs 0 1).trans held.rear
  | passRear left right front pc =>
      refine ⟨held.unstarted, held.started, ?_, ?_, held.sonar, held.parity⟩
      · exact (s.model.lookup_readObjs 1 0).trans held.front
      · exact (s.model.lookup_readObjs 1 1).trans held.rear
  | _ => exact held

/-- The positions behind all stores of an iteration. -/
private def Settled : ProducerPc → Prop
  | .callback _ _ | .leaveApply | .sleeping => True
  | _ => False

/-- Behind the stores every member holds the current iteration, wherever the
producer stands. -/
private theorem StoredAt.of_settled {producer producer' : ProducerPc} {iter : ℕ}
    {m : TestModel R} (held : StoredAt batch producer iter m) (before : Settled producer)
    (after : Settled producer') : StoredAt batch producer' iter m := by
  obtain ⟨-, started, front, rear, sonar, parity⟩ := held
  cases producer with
  | callback | leaveApply | sleeping =>
      cases producer' with
      | callback | leaveApply | sleeping =>
          exact ⟨nofun, fun _ => started nofun, front, rear, sonar, parity.trans ⟨nofun, nofun⟩⟩
      | _ => exact after.elim
  | _ => exact before.elim

/-- The assignment makes the stored value equal to `_toggle` and changes nothing
else. -/
private theorem StoredAt.assign {producer' : ProducerPc} {iter : ℕ} {m m' : TestModel R}
    {notified : List Observer} (held : StoredAt batch .assignHB iter m)
    (assigned : m.assignHB = .ok (m', notified)) (after : Settled producer') :
    StoredAt batch producer' iter m' := by
  obtain ⟨rfl, -⟩ := TestModel.of_assignHB_eq_ok assigned
  obtain ⟨-, started, front, rear, sonar, -⟩ := held
  have equal := m.dataHB.setImpl_value m.toggle
  cases producer' with
  | callback | leaveApply | sleeping =>
      exact ⟨nofun, fun _ => started nofun, front, rear, sonar,
        fun different => absurd equal different, nofun⟩
  | _ => exact after.elim

private theorem Stored.producerMove (held : Stored batch s) (moved : ProducerMove tk batch s s') :
    Stored batch s' := by
  unfold Stored at held
  cases moved with
  | storeFront pc =>
      rw [pc] at held
      obtain ⟨-, started, front, rear, sonar, parity⟩ := held
      have positive := started nofun
      refine ⟨nofun, fun _ => positive, ?_, ?_, sonar, parity.trans ⟨nofun, nofun⟩⟩
      · show (ObjsMap.assign _ 0 _).lookup 0 = ((published batch s.iter).map _).getD []
        rw [ObjsMap.lookup_assign_self, published_of_pos positive]
        rfl
      · exact (ObjsMap.lookup_assign_of_ne _ (by decide) _).trans rear
  | storeRear pc =>
      rw [pc] at held
      obtain ⟨-, started, front, rear, sonar, parity⟩ := held
      have positive := started nofun
      refine ⟨nofun, fun _ => positive, ?_, ?_, sonar, parity.trans ⟨nofun, nofun⟩⟩
      · exact (ObjsMap.lookup_assign_of_ne _ (by decide) _).trans front
      · show (ObjsMap.assign _ 1 _).lookup 1 = ((published batch s.iter).map _).getD []
        rw [ObjsMap.lookup_assign_self, published_of_pos positive]
        rfl
  | storeSonar pc =>
      rw [pc] at held
      obtain ⟨-, started, front, rear, sonar, parity⟩ := held
      have positive := started nofun
      refine ⟨nofun, fun _ => positive, front, rear, ?_, parity.trans ⟨nofun, nofun⟩⟩
      show some _ = (published batch s.iter).map _
      rw [published_of_pos positive]
      rfl
  | flipToggle pc =>
      rw [pc] at held
      obtain ⟨-, started, front, rear, sonar, parity⟩ := held
      refine ⟨nofun, fun _ => started nofun, front, rear, sonar, fun _ => rfl, fun _ => ?_⟩
      have equal : s.model.dataHB.value = s.model.toggle := by
        by_contra different
        cases parity.mp different
      show s.model.dataHB.value ≠ !s.model.toggle
      rw [equal]
      cases s.model.toggle <;> decide
  | unheard model pc assigned =>
      rw [pc] at held
      exact held.assign assigned trivial
  | heard model o os pc assigned =>
      rw [pc] at held
      exact held.assign assigned trivial
  | enter pos pc => rw [pc] at held; exact held.of_settled trivial trivial
  | getFirst pc => rw [pc] at held; exact held.of_settled trivial trivial
  | layout v pc => rw [pc] at held; exact held.of_settled trivial trivial
  | getSecond v pc => rw [pc] at held; exact held.of_settled trivial trivial
  | schedulePaint v w pc => rw [pc] at held; exact held.of_settled trivial trivial
  | leaveApply pc => rw [pc] at held; exact held.of_settled trivial trivial
  | wake pc =>
      rw [pc] at held
      obtain ⟨-, started, front, rear, sonar, parity⟩ := held
      exact ⟨nofun, fun _ => Nat.le_add_left 1 s.iter, front, rear, sonar,
        parity.trans ⟨nofun, nofun⟩⟩

theorem Stored.step (held : Stored batch s) {a : Action}
    (moved : (radarDemo tk batch).step s a = some s') : Stored batch s' := by
  cases move_of_step moved with
  | main moved => exact held.mainMove moved
  | producer _ moved => exact held.producerMove moved
  | expose pos pc => exact held
  | close pc => exact held
  | leaveRun pc quit => exact held

theorem stored_of_reachable (reached : (radarDemo tk batch).Reachable s) : Stored batch s :=
  reached.invariant stored_initial fun held moved => held.step moved

/-- **Once subscribed, every heartbeat is heard**: by the parity, no assignment
finds its value stored already. -/
theorem heard_of_subscribed {m : TestModel R} (wired : Wired s) (stored : Stored batch s)
    (pc : s.producer = .assignHB) (subscribed : s.main.past .subscribe = true)
    (assigned : s.model.assignHB = .ok (m, [])) : False := by
  obtain ⟨-, called⟩ := TestModel.of_assignHB_eq_ok assigned
  rw [Value.setImpl_notified, if_neg (stored.parity.mpr pc), wired.observers,
    if_pos subscribed] at called
  cases called

end RadarDemo
