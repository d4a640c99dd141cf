import RadarDemo.Lockfree.Quiet

/-!
# What is handed on after its removal

The documentation of `apply` and `remove` says that an `apply` which has not called
its functor with an element yet does not do so once the element is removed.  It
tests the mark and then calls the functor, and a removal by another thread fits in
between.

* `handsLive_iff` — a run hands on no removed element exactly if none of its
  removals marks a node that another call has tested and is about to hand on.
* `handsLive_of_single_thread` — one thread does not: a removal from inside the
  functor finds the call that it interrupts past the test and the call.
-/

namespace RadarDemo.Lockfree

open Concurrency Concurrency.Gate TransitionSystem

variable {ω : Type}

/-- The node whose element a call is about to hand on. -/
def Pc.handing : Pc ω → Option ℕ
  | .call a => some a
  | _ => none

/-- The element that a call is about to hand on has been removed. -/
def Late (s : Shared ω) : Pc ω → Prop
  | .call a => ∃ n, s.heap a = some n ∧ n.deleted = true
  | _ => False

variable {τ : Type}

/-- No call is about to hand on a removed element. -/
def Timely (s : State τ ω) : Prop := ∀ t, ∀ f ∈ s.threads t, ¬ Late s.shared f.pc

/-- The action does not hand on a removed element. -/
def HandsLive (s : State τ ω) (a : Action τ ω) : Prop :=
  ∀ f, (s.threads a.thread).head? = some f → ¬ Late s.shared f.pc

/-- The action does not remove an element that a call is about to hand on. -/
def MarksEarly (s : State τ ω) (a : Action τ ω) : Prop :=
  ∀ f b, (s.threads a.thread).head? = some f → f.pc = .markDeleted b →
    ∀ t, ∀ g ∈ s.threads t, g.pc ≠ .call b

section Marks

variable {s s' : Shared ω} {f f' : Frame ω} {pc : Pc ω} {b : ℕ}

/-- A node that persists stays marked. -/
theorem Late.mono (late : Late s pc) (persists : ∀ a, pc.cursor = some a → Persists s s' a) :
    Late s' pc := by
  cases pc with
  | call a =>
      obtain ⟨n, here, marked⟩ := late
      obtain ⟨n', here', -⟩ := (persists a rfl).there here
      refine ⟨n', here', ?_⟩
      by_contra unmarked
      rw [Bool.not_eq_true] at unmarked
      rw [(persists a rfl).unmarked n n' here here' unmarked] at marked
      cases marked
  | _ => exact late

/-- A removal marks its node. -/
theorem marked_of_move {τ : Type} {a : Action τ ω} (here : f.pc = .markDeleted b)
    (moved : move s f a = some (s', f')) (fault : s'.fault = false) : Late s' (.call b : Pc ω) := by
  cases a with
  | run u =>
      simp only [move, advance, here, Option.some_inj] at moved
      obtain ⟨n, -, moved⟩ := exists_of_deref moved fault
      cases moved
      exact ⟨_, Function.update_self .., rfl⟩
  | _ => simp only [move, here, reduceCtorEq] at moved

/-- A mark is one that was there, or one that a removal sets. -/
theorem Change.late_of {l l' : List ℕ} (change : Change s l pc s' l')
    (late : Late s' (.call b : Pc ω)) : Late s (.call b : Pc ω) ∨ pc = .markDeleted b := by
  obtain ⟨n', there, marked⟩ := late
  cases change with
  | quiet _ n c => exact Or.inl ⟨n', there, marked⟩
  | @newNode element a free =>
      change Function.update s.heap a _ b = some n' at there
      by_cases same : b = a
      · subst same
        rw [Function.update_self, Option.some_inj] at there
        rw [← there] at marked
        cases marked
      · rw [Function.update_of_ne same] at there
        exact Or.inl ⟨n', there, marked⟩
  | @relink _ a n own here =>
      change Function.update s.heap a _ b = some n' at there
      by_cases same : b = a
      · subst same
        rw [Function.update_self, Option.some_inj] at there
        exact Or.inl ⟨n, here, by rwa [← there] at marked⟩
      · rw [Function.update_of_ne same] at there
        exact Or.inl ⟨n', there, marked⟩
  | publish here expected => exact Or.inl ⟨n', there, marked⟩
  | @mark a n member here =>
      by_cases same : b = a
      · exact Or.inr (congrArg _ same.symm)
      · change Function.update s.heap a _ b = some n' at there
        rw [Function.update_of_ne same] at there
        exact Or.inl ⟨n', there, marked⟩
  | @unlinkFirst d n pre post split here =>
      change Function.update s.heap d none b = some n' at there
      have apart : b ≠ d := by rintro rfl; rw [Function.update_self] at there; cases there
      rw [Function.update_of_ne apart] at there
      exact Or.inl ⟨n', there, marked⟩
  | @unlinkNext head a d m n pre post split before here =>
      change Function.update (Function.update s.heap a _) d none b = some n' at there
      have apart : b ≠ d := by rintro rfl; rw [Function.update_self] at there; cases there
      rw [Function.update_of_ne apart] at there
      by_cases same : b = a
      · subst same
        rw [Function.update_self, Option.some_inj] at there
        exact Or.inl ⟨m, before, by rwa [← there] at marked⟩
      · rw [Function.update_of_ne same] at there
        exact Or.inl ⟨n', there, marked⟩
  | store head => exact Or.inl ⟨n', there, marked⟩

/-- Only a call that is about to hand on is late. -/
theorem exists_of_late (late : Late s pc) : ∃ b, pc = .call b := by
  cases pc with
  | call b => exact ⟨b, rfl⟩
  | _ => exact late.elim

/-- A call that has just tested the mark is not late. -/
theorem Flow.not_late {pc' : Pc ω} (flow : Flow s pc pc') {l l' : List ℕ}
    (change : Change s l pc s' l') : ¬ Late s' pc' := by
  intro late
  obtain ⟨b, rfl⟩ := exists_of_late late
  cases flow with
  | test here unmarked =>
      rcases change.late_of late with ⟨n, there, marked⟩ | is
      · rw [here, Option.some_inj] at there
        subst there
        rw [unmarked] at marked
        cases marked
      · cases is

end Marks

variable [DecidableEq τ] [Fintype τ] {s s' : State τ ω} {l l' : List ℕ} {a : Action τ ω}

omit [Fintype τ] in
/-- A step that removes nothing that is about to be handed on keeps the calls timely. -/
theorem Turn.timely (turn : Turn s l a s' l') (early : MarksEarly s a) (timely : Timely s) :
    Timely s' := by
  cases turn with
  | @call t op may =>
      refine Crew.forall_call_iff.mpr ⟨fun late => ?_, timely⟩
      obtain ⟨b, is⟩ := exists_of_late late
      cases op <;> cases is
  | ret running here =>
      exact (Crew.forall_ret_iff running).mpr ((Crew.forall_iff running).mp timely).2
  | @move _ f f' rest shared _ running moved outcome =>
      refine Crew.forall_become_iff.mpr
        ⟨(flow_of_move moved outcome.fault).not_late outcome.change, fun g other late => ?_⟩
      obtain ⟨b, is⟩ := exists_of_late late
      obtain ⟨u, present⟩ := other.exists_mem running
      rw [is] at late
      rcases outcome.change.late_of late with before | here
      · exact timely u g present (is ▸ before)
      · exact early f b (by rw [running, List.head?_cons]) here u g present is

/-- A call that is late stays so until it hands its element on. -/
theorem Turn.timely_back (turn : Turn s l a s' l') (sound : Sound s l) (hands : HandsLive s a)
    (timely : Timely s') : Timely s := by
  cases turn with
  | call may => exact (Crew.forall_call_iff.mp timely).2
  | ret running here =>
      refine (Crew.forall_iff running).mpr ⟨fun late => ?_, (Crew.forall_ret_iff running).mp timely⟩
      rw [here] at late
      exact late
  | @move _ f f' rest shared _ running moved outcome =>
      have member : f ∈ s.threads a.thread := running ▸ List.mem_cons_self
      obtain ⟨-, others⟩ := Crew.forall_become_iff.mp timely
      refine (Crew.forall_iff running).mpr
        ⟨hands f (by rw [running, List.head?_cons]), fun g other late => others g other ?_⟩
      obtain ⟨u, present⟩ := other.exists_mem running
      obtain ⟨b, is⟩ := exists_of_late late
      refine late.mono fun c points => ?_
      rw [is] at late points
      cases points
      obtain ⟨n, here, -⟩ := late
      refine outcome.change.persists ⟨n, here⟩ fun sole => ?_
      exact absurd (by rw [is]; rfl) (sound.gate.not_inside member sole present)

omit [Fintype τ] in
/-- A removal that comes too late shows in the next state. -/
theorem Turn.not_timely (turn : Turn s l a s' l') (late : ¬ MarksEarly s a) : ¬ Timely s' := by
  intro timely
  refine late fun f b first here t g present is => ?_
  cases turn with
  | call may =>
      obtain ⟨c, calling⟩ := calling_of_mayCall may first
      rw [calling] at here
      cases here
  | ret running done =>
      rw [running, List.head?_cons, Option.some_inj] at first
      rw [← first, done] at here
      cases here
  | @move _ f f' rest shared _ running moved outcome =>
      rw [running, List.head?_cons, Option.some_inj] at first
      subst first
      obtain ⟨-, others⟩ := Crew.forall_become_iff.mp timely
      have marked := marked_of_move here moved outcome.fault
      have noOther : ∀ u, ∀ k ∈ s.threads u, k.pc ≠ .call b :=
        (Crew.forall_iff running).mpr ⟨fun is => (by rw [here] at is; cases is),
          fun k other is => others k other (is ▸ marked)⟩
      exact noOther t g present is

omit [DecidableEq τ] [Fintype τ] in
theorem Timely.handsLive (timely : Timely s) : HandsLive s a := by
  intro f first
  obtain ⟨rest, running⟩ := List.head?_eq_some_iff.mp first
  exact timely _ f (running ▸ List.mem_cons_self)

/-- **A run that ends with no call about to hand on a removed element has handed on
none exactly if all its removals came before the tests.** -/
theorem handsLive_iff (as : List (Action τ ω)) {s : State τ ω}
    (ran : (collection τ ω).exec (collection τ ω).init as = some s) (ended : Timely s) :
    (collection τ ω).Along (fun s a _ => HandsLive s a) (collection τ ω).init as ↔
      (collection τ ω).Along (fun s a _ => MarksEarly s a) (collection τ ω).init as := by
  have atInit : ∃ l, Sound (collection τ ω).init l ∧ Timely (collection τ ω).init :=
    ⟨[], sound_init, fun _ _ member => absurd member List.not_mem_nil⟩
  constructor
  · refine along_of_breaks (I := fun s => ∃ l, Sound s l ∧ Timely s)
      (D := fun s => ∃ l, Sound s l ∧ ¬ Timely s) ?_ ?_ ?_ atInit as ran ?_
    · rintro s a s' ⟨l, sound, timely⟩ stepped early
      obtain ⟨l', turn⟩ := sound.turn stepped
      exact ⟨l', turn.sound sound, turn.timely early timely⟩
    · rintro s a s' ⟨l, sound, -⟩ stepped late -
      obtain ⟨l', turn⟩ := sound.turn stepped
      exact ⟨l', turn.sound sound, turn.not_timely late⟩
    · rintro s a s' ⟨l, sound, late⟩ stepped hands
      obtain ⟨l', turn⟩ := sound.turn stepped
      exact ⟨l', turn.sound sound, fun timely => late (turn.timely_back sound hands timely)⟩
    · rintro ⟨l, -, late⟩
      exact late ended
  · refine along_of_keeps (I := fun s => ∃ l, Sound s l ∧ Timely s) ?_ atInit as
    rintro s a s' ⟨l, sound, timely⟩ stepped early
    obtain ⟨l', turn⟩ := sound.turn stepped
    exact ⟨⟨l', turn.sound sound, turn.timely early timely⟩, timely.handsLive⟩

instance decidableMarksEarly {τ ω : Type} [Fintype τ] [DecidableEq ω] (s : State τ ω)
    (a : Action τ ω) : Decidable (MarksEarly s a) :=
  decidable_of_iff
    (∀ f ∈ (s.threads a.thread).head?, ∀ t, ∀ g ∈ s.threads t, ∀ b ∈ g.pc.handing,
      f.pc ≠ .markDeleted b) <| by
    constructor
    · exact fun early f b first here t g present is => early f first t g present b (is ▸ rfl) here
    · intro early f first t g present b hands here
      refine early f b first here t g present ?_
      cases is : g.pc with
      | call c =>
          rw [is] at hands
          exact congrArg _ (Option.some_inj.mp hands)
      | _ => rw [is] at hands; cases hands

/-- An apply that has tested its node when another thread removes it. -/
def lateSchedule : List (Action Bool Bool) :=
  [.start false (.insert true), .allocate false 7] ++ List.replicate 13 (.run false) ++
    [.start false .apply] ++ List.replicate 4 (.run false) ++
    [.start true (.remove 1)] ++ List.replicate 8 (.run true) ++ List.replicate 5 (.run false)

/-- The functor gets the element after its removal. -/
theorem not_handsLive_lateSchedule :
    ¬ (collection Bool Bool).Along (fun s a _ => HandsLive s a) (collection Bool Bool).init
      lateSchedule := by
  have some : ((collection Bool Bool).exec (collection Bool Bool).init lateSchedule).isSome := rfl
  have ran := (Option.some_get some).symm
  refine fun hands => absurd ((handsLive_iff lateSchedule ran fun t f member => ?_).mp hands)
    (by decide)
  cases t <;> exact absurd member List.not_mem_nil

/-- **One thread hands on no removed element.** -/
theorem handsLive_of_single_thread (as : List (Action Unit ω)) :
    (collection Unit ω).Along (fun s a _ => HandsLive s a) (collection Unit ω).init as := by
  refine along_of_keeps (I := fun s => ∃ l, Sound s l ∧ Stacked s.threads ∧ Timely s) ?_
    ⟨[], sound_init, stacked_init, fun _ _ member => absurd member List.not_mem_nil⟩ as
    (along_of_forall (fun _ _ _ => trivial) _ as)
  rintro s a s' ⟨l, sound, stacked, timely⟩ stepped -
  obtain ⟨l', turn⟩ := sound.turn stepped
  have early : MarksEarly s a := by
    intro f b first here t g present is
    obtain ⟨rest, running⟩ := List.head?_eq_some_iff.mp first
    rw [show s.threads t = f :: rest from running, List.mem_cons] at present
    rcases present with rfl | below
    · rw [here] at is
      cases is
    · obtain ⟨c, calling⟩ := (stacked _ f rest running).1 g below
      rw [calling] at is
      cases is
  exact ⟨⟨l', turn.sound sound, turn.stacked sound stacked, turn.timely early timely⟩,
    timely.handsLive⟩

end RadarDemo.Lockfree
