import RadarDemo.Coherence

/-!
# One thread at a time in the toolkit

Of the toolkit only the methods of `MessageLoop` may be called from any thread.
The heartbeat callback runs on the thread that assigns the heartbeat, the
producer's, and makes four calls on the window and its content view; `main` makes
its own during setup, and the message loop paints.  Nothing keeps them apart, and
nothing keeps the content view from being replaced between the callback's two
`GetContentView` calls.

`Exclusive` is the condition under which neither goes wrong:

* a thread enters a call only while the other is not inside one;
* `SetContentView` takes effect only while the callback is not between its two
  `GetContentView` calls.

`oneAtATime_iff` shows that the condition is exact.  The first half of it is
violated by the very step that breaks it; the second is not, since the callback
has yet to fetch the new view (`Straddling`), so the converse is about runs that
end outside the callback.
-/

namespace RadarDemo

open Concurrency

variable {R : Type}

/-! ## The condition -/

namespace MainPc

/-- The next step of `main` enters a toolkit call or a painting. -/
def entersCall : MainPc R → Bool
  | .setup stmt false => stmt.uiCall.isSome
  | .run .idle => true
  | _ => false

/-- The next step of `main` replaces the content view. -/
def replacesView : MainPc R → Bool
  | .setup .setContentView true => true
  | _ => false

end MainPc

namespace ProducerPc

/-- The next step of the producer enters a toolkit call. -/
def entersCall : ProducerPc → Bool
  | .callback _ inside => !inside
  | _ => false

/-- The view that the first `GetContentView` of the callback returned, until the
second one returns. -/
def heldView : ProducerPc → Option View
  | .callback (.layout v) _ | .callback (.getSecond v) _ => some v
  | _ => none

end ProducerPc

/-- **The condition**, on the state before a step and the thread that takes it. -/
def Exclusive (s : State R) : Action → Prop
  | .main => (s.main.entersCall = true → s.producer.inCall = false) ∧
      (s.main.replacesView = true → s.producer.heldView = none)
  | .producer => s.producer.entersCall = true → s.main.inCall = false
  | _ => True

/-- The views that one run of the callback lays out and schedules are the same. -/
def SameView : ProducerPc → Prop
  | .callback (.schedulePaint v w) _ => v = w
  | _ => True

/-- After the step at most one thread is inside a call, and the callback, if it
has fetched both views, has fetched one. -/
def OneAtATime (s : State R) : Prop :=
  ¬ (s.main.inCall = true ∧ s.producer.inCall = true) ∧ SameView s.producer

/-! ## The condition suffices -/

/-- What an exclusive run keeps. -/
private structure ExclInv (s : State R) : Prop where
  wired : Wired s
  one : OneAtATime s
  held : ∀ v, s.producer.heldView = some v → v = s.content

private theorem exclInv_initial : ExclInv (State.initial : State R) :=
  ⟨wired_initial, ⟨fun both => absurd both.1 nofun, trivial⟩, nofun⟩

variable {tk : Toolkit} {batch : ℕ → Batch R} {s s' : State R}

theorem MainPc.inCall_next (stmt : SetupStmt) : (stmt.next : MainPc R).inCall = false := by
  cases stmt <;> rfl

/-- Whoever is inside a call after a step of `main` was inside it before, or has
entered it by this step. -/
private theorem MainMove.inCall_of (moved : MainMove tk s s')
    (inside : s'.main.inCall = true) :
    s.main.inCall = true ∨ s.main.entersCall = true := by
  cases moved with
  | enter stmt pc calls => exact Or.inr (by rw [pc]; exact calls)
  | exec stmt _ pc => rw [show _ = false from MainPc.inCall_next stmt] at inside; cases inside
  | take pc => exact Or.inr (by rw [pc]; rfl)
  | destroy l pc => cases l <;> cases inside
  | drawCar pc => exact Or.inl (by rw [pc]; rfl)
  | readLeft pc => exact Or.inl (by rw [pc]; rfl)
  | readRight left pc => exact Or.inl (by rw [pc]; rfl)
  | passFront left right pc => exact Or.inl (by rw [pc]; rfl)
  | passRear left right front pc => exact Or.inl (by rw [pc]; rfl)
  | paintEnd frame pc => cases inside
  | exit pc => cases inside

private theorem ProducerMove.inCall_of (moved : ProducerMove tk batch s s')
    (inside : s'.producer.inCall = true) : s.producer.entersCall = true := by
  cases moved with
  | enter pos pc => rw [pc]; rfl
  | _ => cases inside

/-- Only `SetContentView` changes the content view while the callback runs. -/
private theorem MainMove.content_eq (moved : MainMove tk s s') (wired : Wired s)
    (inside : s.producer.inCallback = true) (keeps : s.main.replacesView = false) :
    s'.content = s.content := by
  have subscribed := wired.callback inside
  rcases moved.exec_or_frame with ⟨stmt, entered, pc, plain, rfl⟩ | ⟨-, -, -, content, -⟩
  · rw [pc] at subscribed keeps
    cases stmt with
    | constructWindow => cases subscribed
    | setContentView =>
        cases entered with
        | true => cases keeps
        | false => cases plain rfl
    | _ => rfl
  · exact content

theorem ProducerPc.inCallback_of_heldView {pc : ProducerPc} {v : View}
    (holds : pc.heldView = some v) : pc.inCallback = true := by
  cases pc with
  | callback pos inside => rfl
  | _ => cases holds

private theorem ExclInv.mainMove (inv : ExclInv s) (moved : MainMove tk s s')
    (exclusive : Exclusive s .main) (wired' : Wired s') : ExclInv s' := by
  obtain ⟨entering, replacing⟩ := exclusive
  obtain ⟨apart, same⟩ := inv.one
  rcases moved.producer_eq with ⟨producer, -⟩ | ⟨-, producer, -⟩
  · refine ⟨wired', ⟨?_, by rw [producer]; exact same⟩, ?_⟩
    · rintro ⟨inside, other⟩
      rw [producer] at other
      rcases moved.inCall_of inside with before | enters
      · exact apart ⟨before, other⟩
      · rw [entering enters] at other
        cases other
    · intro v holds
      rw [producer] at holds
      have keeps : s.main.replacesView = false := by
        by_contra replaces
        rw [replacing (Bool.not_eq_false _ ▸ replaces)] at holds
        cases holds
      rw [moved.content_eq inv.wired (ProducerPc.inCallback_of_heldView holds) keeps]
      exact inv.held v holds
  · refine ⟨wired', ⟨?_, ?_⟩, ?_⟩
    · rw [producer]
      exact fun both => absurd both.2 nofun
    · rw [producer]
      trivial
    · rw [producer]
      exact nofun

private theorem ExclInv.producerMove (inv : ExclInv s) (moved : ProducerMove tk batch s s')
    (exclusive : Exclusive s .producer) (wired' : Wired s') : ExclInv s' := by
  obtain ⟨main, content, -⟩ := moved.frame
  refine ⟨wired', ⟨?_, ?_⟩, ?_⟩
  · rintro ⟨inside, entered⟩
    rw [main, exclusive (moved.inCall_of entered)] at inside
    cases inside
  · obtain ⟨-, same⟩ := inv.one
    have held := inv.held
    cases moved with
    | enter pos pc =>
        rw [pc] at same
        cases pos <;> exact same
    | getSecond v pc =>
        rw [pc] at held
        exact held v rfl
    | _ => trivial
  · rw [content]
    have held := inv.held
    cases moved with
    | enter pos pc =>
        rw [pc] at held
        cases pos <;> exact held
    | getFirst pc =>
        intro v holds
        exact (Option.some.inj holds).symm
    | layout v pc =>
        rw [pc] at held
        exact held
    | _ => exact nofun

private theorem ExclInv.step (inv : ExclInv s) {a : Action}
    (moved : (radarDemo tk batch).step s a = some s') (exclusive : Exclusive s a) :
    ExclInv s' := by
  have wired' := inv.wired.step moved
  cases move_of_step moved with
  | main moved => exact inv.mainMove moved exclusive wired'
  | producer _ moved => exact inv.producerMove moved exclusive wired'
  | expose pos pc => exact ⟨wired', inv.one, inv.held⟩
  | close pc => exact ⟨wired', inv.one, inv.held⟩
  | leaveRun pc quit => exact ⟨wired', ⟨fun both => absurd both.1 nofun, inv.one.2⟩, inv.held⟩

/-! ## The condition is necessary -/

/-- The callback holds the view that the window was created with, and the window
has another one by now. -/
def Straddling (s : State R) : Prop :=
  Wired s ∧ s.main.past .setContentView = true ∧ s.producer.heldView = some .initial

private theorem Straddling.step (straddling : Straddling s) {a : Action}
    (moved : (radarDemo tk batch).step s a = some s') (one : OneAtATime s') :
    Straddling s' := by
  obtain ⟨wired, replaced, holds⟩ := straddling
  have wired' := wired.step moved
  have started : s.producer ≠ .notStarted := by
    intro pc
    rw [pc] at holds
    cases holds
  cases move_of_step moved with
  | main moved =>
      refine ⟨wired', moved.past_mono replaced, ?_⟩
      rw [moved.producer_eq_of_started wired started]
      exact holds
  | producer _ moved =>
      refine ⟨wired', by rw [moved.frame.1]; exact replaced, ?_⟩
      cases moved with
      | enter pos pc =>
          rw [pc] at holds
          cases pos <;> exact holds
      | layout v pc =>
          rw [pc] at holds
          exact holds
      | getSecond v pc =>
          -- the second view is the new one, and differs from the first
          rw [pc] at holds
          have same : v = s.content := one.2
          rw [wired.content, replaced] at same
          subst same
          cases holds
      | _ => simp only [*, ProducerPc.heldView, reduceCtorEq] at holds
  | expose pos pc => exact ⟨wired', replaced, holds⟩
  | close pc => exact ⟨wired', replaced, holds⟩
  | leaveRun pc quit => exact ⟨wired', rfl, holds⟩

/-- The message loop paints only `radar_view`, whose handler is connected. -/
private theorem MainMove.inCall_of_entersCall (moved : MainMove tk s s') (wired : Wired s)
    (enters : s.main.entersCall = true) : s'.main.inCall = true := by
  cases moved with
  | enter stmt pc => rfl
  | exec stmt inside pc plain =>
      rw [pc] at enters
      cases inside with
      | true => cases enters
      | false =>
          rw [show MainPc.entersCall _ = stmt.uiCall.isSome from rfl, plain rfl] at enters
          cases enters
  | take pc pending =>
      have content : s.content = .radar := by rw [wired.content, pc]; rfl
      have connected : s.drawConnected = true := by rw [wired.drawConnected, pc]; rfl
      rw [if_pos ⟨content, connected⟩]
      rfl
  | _ => simp only [*, MainPc.entersCall, Bool.false_eq_true] at enters

private theorem ProducerMove.inCall_of_entersCall (moved : ProducerMove tk batch s s')
    (enters : s.producer.entersCall = true) : s'.producer.inCall = true := by
  cases moved with
  | enter pos pc => rfl
  | _ => simp [*, ProducerPc.entersCall] at enters

/-- Replacing the view under a callback that holds the old one straddles. -/
private theorem ExclInv.straddling_of_replaces (inv : ExclInv s) (moved : MainMove tk s s')
    (wired' : Wired s') (replaces : s.main.replacesView = true)
    (holds : s.producer.heldView ≠ none) : Straddling s' := by
  obtain ⟨v, holds⟩ := Option.ne_none_iff_exists'.mp holds
  have started : s.producer ≠ .notStarted := by
    intro pc
    rw [pc] at holds
    cases holds
  have initial : v = .initial := by
    rw [inv.held v holds, inv.wired.content]
    cases pc : s.main with
    | setup stmt inside =>
        rw [pc] at replaces
        cases stmt with
        | setContentView => rfl
        | _ => cases replaces
    | _ => rw [pc] at replaces; cases replaces
  refine ⟨wired', ?_, ?_⟩
  · cases moved with
    | exec stmt inside pc =>
        rw [pc] at replaces
        cases stmt with
        | setContentView => rfl
        | _ => cases replaces
    | _ => simp_all [MainPc.replacesView]
  · rw [moved.producer_eq_of_started inv.wired started, holds, initial]

/-- A step that is not exclusive has both threads in a call, or straddles. -/
private theorem ExclInv.straddling (inv : ExclInv s) {a : Action}
    (moved : (radarDemo tk batch).step s a = some s') (violated : ¬ Exclusive s a)
    (one : OneAtATime s') : Straddling s' := by
  have wired' := inv.wired.step moved
  cases move_of_step moved with
  | main moved =>
      by_cases entering : s.main.entersCall = true → s.producer.inCall = false
      · have replacing : ¬ (s.main.replacesView = true → s.producer.heldView = none) :=
          fun replacing => violated ⟨entering, replacing⟩
        rw [Classical.not_imp] at replacing
        exact inv.straddling_of_replaces moved wired' replacing.1 replacing.2
      · rw [Classical.not_imp, Bool.not_eq_false] at entering
        obtain ⟨enters, other⟩ := entering
        have started : s.producer ≠ .notStarted := by
          intro pc
          rw [pc] at other
          cases other
        rw [← moved.producer_eq_of_started inv.wired started] at other
        exact absurd ⟨moved.inCall_of_entersCall inv.wired enters, other⟩ one.1
  | producer _ moved =>
      have entering := Classical.not_imp.mp violated
      have other : s'.main.inCall = true := by
        rw [moved.frame.1, ← Bool.not_eq_false]
        exact entering.2
      exact absurd ⟨other, moved.inCall_of_entersCall entering.1⟩ one.1
  | expose pos pc => exact absurd trivial violated
  | close pc => exact absurd trivial violated
  | leaveRun pc quit => exact absurd trivial violated

/-! ## The result -/

/-- **The toolkit is used by one thread at a time exactly in the exclusive runs.**
In an exclusive run no two threads are inside a call, and every callback lays out
the view it schedules.  Conversely, a run that satisfies both and ends outside
the callback was exclusive. -/
theorem oneAtATime_iff (tk : Toolkit) (batch : ℕ → Batch R) (as : List Action) :
    ((radarDemo tk batch).Along (fun s a _ => Exclusive s a) State.initial as →
      (radarDemo tk batch).Along (fun _ _ s' => OneAtATime s') State.initial as) ∧
    (∀ s, (radarDemo tk batch).exec State.initial as = some s →
      s.producer.inCallback = false →
      (radarDemo tk batch).Along (fun _ _ s' => OneAtATime s') State.initial as →
      (radarDemo tk batch).Along (fun s a _ => Exclusive s a) State.initial as) := by
  constructor
  · refine TransitionSystem.along_of_keeps (I := ExclInv) ?_ exclInv_initial as
    intro s a s' inv moved exclusive
    have inv' := inv.step moved exclusive
    exact ⟨inv', inv'.one⟩
  · intro s ran outside one
    have ended : ¬ Straddling s := by
      rintro ⟨-, -, holds⟩
      rw [ProducerPc.inCallback_of_heldView holds] at outside
      cases outside
    exact TransitionSystem.along_of_breaks (I := ExclInv) (D := Straddling)
      (fun inv moved exclusive => inv.step moved exclusive)
      (fun inv moved violated one => inv.straddling moved violated one)
      (fun straddling moved one => straddling.step moved one)
      exclInv_initial as ran ended one

/-! ## Two threads in the toolkit -/

instance decidableExclusive : ∀ (s : State R) (a : Action), Decidable (Exclusive s a)
  | _, .main => inferInstanceAs (Decidable ((_ → _) ∧ (_ → _)))
  | _, .producer => inferInstanceAs (Decidable (_ → _))
  | _, .expose | _, .close | _, .leaveRun => isTrue trivial

/-- The producer sleeps until the first painting is over, then runs a whole
iteration. -/
def exclusiveSchedule : List Action :=
  Action.construct ++ Action.publication ++ Action.setup ++ Action.painting ++
    List.replicate 15 .producer

theorem oneAtATime_exclusiveSchedule :
    (radarDemo .paintsOnActivate (genAmp (R := ℚ) id)).Along (fun _ _ s' => OneAtATime s')
      State.initial exclusiveSchedule ∧
    (radarDemo .paintsOnActivate (genAmp (R := ℚ) id)).Along (fun s a _ => Exclusive s a)
      State.initial exclusiveSchedule := by
  have exact_ := oneAtATime_iff (R := ℚ) .paintsOnActivate (genAmp id) exclusiveSchedule
  have one := exact_.1 (by decide)
  exact ⟨one, exact_.2 _ rfl rfl one⟩

/-- `main` has just constructed `radar_view`; the producer publishes, is heard and
enters its first `GetContentView`. -/
def calledSchedule : List Action :=
  List.replicate 6 .main ++ Action.publication ++ [.producer]

/-- The call returns, and `main` goes on to replace the content view before the
second one. -/
def replacedSchedule : List Action :=
  calledSchedule ++ [.producer] ++ List.replicate 7 .main ++ List.replicate 4 .producer

/-- **Both threads are inside a call**, `main` in `SetStyle` and the producer in
`GetContentView`; and in another run one callback lays out the old content view
and schedules the new one. -/
theorem two_threads_in_toolkit :
    (∃ s, (radarDemo .paintsOnActivate (genAmp (R := ℚ) id)).exec State.initial
        (calledSchedule ++ [.main]) = some s ∧
      s.main.inCall = true ∧ s.producer.inCall = true) ∧
    (∃ s, (radarDemo .paintsOnActivate (genAmp (R := ℚ) id)).exec State.initial
        replacedSchedule = some s ∧
      s.producer = .callback (.schedulePaint .initial .radar) false ∧ ¬ SameView s.producer) :=
  ⟨⟨_, rfl, rfl, rfl⟩, ⟨_, rfl, rfl, nofun⟩⟩

end RadarDemo
