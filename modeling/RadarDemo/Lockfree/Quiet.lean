import RadarDemo.Lockfree.Answers

/-!
# When no collector overtakes

A collector that copies the head while nobody is inside a `gc_blocker` has a copy
that stays right: whoever comes later waits for its flag.

* `faithful_of_quietLoads` — along a run in which the head is copied only while
  the counter is zero, the list stands for the live elements and every call meets
  its contract.  This is what the source is short of: it tests the counter before
  it raises the flag, and again after it has copied the head, but not in between.
* `single_thread` — one thread passes the first test only when none of its calls
  is in a functor, so that nothing is lost and every call meets its contract
  however the calls are nested.
-/

namespace RadarDemo.Lockfree

open Concurrency Concurrency.Gate TransitionSystem

variable {ω : Type}

/-- The collector's copy of the head, while it is at the first node. -/
def Pc.copy : Pc ω → Option (Option ℕ)
  | .gcFirst h | .gcTest h none | .gcNode h none => some h
  | _ => none

theorem Pc.role_of_copy {pc : Pc ω} {h : Option ℕ} (copies : pc.copy = some h) :
    pc.role = .claimed ∨ pc.role = .sole := by
  cases pc <;> simp_all [Pc.copy]

variable {τ : Type}

/-- What a collector has copied is the head of the list, and nobody is inside. -/
def Current (s : State τ ω) (l : List ℕ) : Prop :=
  ∀ t, ∀ f ∈ s.threads t, ∀ h, f.pc.copy = some h →
    h = l.head? ∧ ∀ u, ∀ g ∈ s.threads u, g.pc.role ≠ .inside

/-- The action does not copy the head while the counter is raised. -/
def QuietLoad (s : State τ ω) (a : Action τ ω) : Prop :=
  ∀ f, (s.threads a.thread).head? = some f → f.pc = .gcHead → s.shared.blockGc = 0

/-- Where a copy comes from: the head, what the collector has stored, or the copy
that it was. -/
theorem Flow.copy_of {s : Shared ω} {pc pc' : Pc ω} {h : Option ℕ} (flow : Flow s pc pc')
    (copies : pc'.copy = some h) :
    pc = .gcHead ∧ h = s.head ∨ pc = .gcStore h ∨ pc.copy = some h ∧ pc.isNode = false := by
  cases flow with
  | copy => exact Or.inl ⟨rfl, (Option.some_inj.mp copies).symm⟩
  | store head => exact Or.inr (Or.inl (congrArg _ (Option.some_inj.mp copies)))
  | begin head => exact Or.inr (Or.inr ⟨copies, rfl⟩)
  | goOn head p => exact Or.inr (Or.inr ⟨by cases p <;> exact copies, rfl⟩)
  | _ => cases copies

variable [DecidableEq τ] [Fintype τ] {s s' : State τ ω} {l l' : List ℕ} {a : Action τ ω}

/-- **A quiet load keeps the copy right.** -/
theorem Turn.current (turn : Turn s l a s' l') (sound : Sound s l) (quiet : QuietLoad s a)
    (current : Current s l) : Current s' l' := by
  cases turn with
  | @call t op may =>
      obtain ⟨outside, -, -⟩ := Frame.start_pc op
      refine Crew.forall_call_iff.mpr ⟨fun h copies => ?_, fun u g present h copies => ?_⟩
      · have caretaker := Pc.role_of_copy copies
        simp only [outside, reduceCtorEq, or_self] at caretaker
      · obtain ⟨same, nobody⟩ := current u g present h copies
        exact ⟨same, Crew.forall_call_iff.mpr ⟨by rw [outside]; decide, nobody⟩⟩
  | ret running here =>
      refine (Crew.forall_ret_iff running).mpr fun g other h copies => ?_
      obtain ⟨same, nobody⟩ := ((Crew.forall_iff running).mp current).2 g other h copies
      exact ⟨same, (Crew.forall_ret_iff running).mpr ((Crew.forall_iff running).mp nobody).2⟩
  | @move _ f f' rest shared _ running moved outcome =>
      have member : f ∈ s.threads a.thread := running ▸ List.mem_cons_self
      have change := outcome.change
      obtain ⟨mine, others⟩ := (Crew.forall_iff running).mp current
      -- Somewhere else than at an insertion's exchange and in the loop's body the list stays.
      have list : f.pc.role ≠ .inside → f.pc.isNode = false → l' = l := by
        intro notInside notNode
        refine change.list_eq notNode ?_
        cases here : f.pc with
        | exchangeHead b => exact absurd (by rw [here]; rfl) notInside
        | _ => rfl
      refine Crew.forall_become_iff.mpr ⟨fun h copies => ?_, fun g other h copies => ?_⟩
      · have caretaker := Pc.role_of_copy copies
        have notInside' : f'.pc.role ≠ .inside := by
          rcases caretaker with is | is <;> rw [is] <;> decide
        rcases (flow_of_move moved outcome.fault).copy_of copies with
          ⟨here, is⟩ | here | ⟨same, notNode⟩
        · have zero := quiet f (by rw [running, List.head?_cons]) here
          have nobody : ∀ u, ∀ g ∈ s.threads u, g.pc.role ≠ .inside := fun u g =>
            (zero ▸ sound.gate).not_inside_of_zero
          obtain rfl := list (fun is => by rw [here] at is; cases is) (by rw [here]; rfl)
          refine ⟨is.trans (sound.head_of_role running (Or.inr (by rw [here]; rfl))), ?_⟩
          exact Crew.forall_become_iff.mpr ⟨notInside', ((Crew.forall_iff running).mp nobody).2⟩
        · have nobody : ∀ u, ∀ g ∈ s.threads u, g.pc.role ≠ .inside := fun u g =>
            sound.gate.not_inside member (by rw [here]; rfl)
          obtain rfl := list (fun is => by rw [here] at is; cases is) (by rw [here]; rfl)
          refine ⟨(sound.frames _ f member).store h here, ?_⟩
          exact Crew.forall_become_iff.mpr ⟨notInside', ((Crew.forall_iff running).mp nobody).2⟩
        · obtain ⟨first, nobody⟩ := mine h same
          obtain rfl := list (nobody _ f member) notNode
          exact ⟨first, Crew.forall_become_iff.mpr
            ⟨notInside', ((Crew.forall_iff running).mp nobody).2⟩⟩
      · obtain ⟨first, nobody⟩ := others g other h copies
        obtain ⟨u, present⟩ := other.exists_mem running
        have notInside := nobody _ f member
        have caretaker := Pc.role_of_copy copies
        have notNode : f.pc.isNode = false := by
          cases here : f.pc with
          | gcNode head p =>
              have alone := sound.gate.not_caretaker running (Or.inr (by rw [here]; rfl)) other
              exact absurd caretaker (not_or.mpr alone)
          | _ => rfl
        obtain rfl := list notInside notNode
        refine ⟨first, Crew.forall_become_iff.mpr ⟨fun enters => notInside ?_,
          ((Crew.forall_iff running).mp nobody).2⟩⟩
        have crossing := outcome.cross
        rw [enters] at crossing
        exact sound.gate.not_enter present caretaker crossing

/-- **A right copy overtakes nothing.** -/
theorem Sound.spares (sound : Sound s l) (current : Current s l) : Spares s a := by
  intro f first overtakes
  obtain ⟨rest, running⟩ := List.head?_eq_some_iff.mp first
  have member : f ∈ s.threads a.thread := running ▸ List.mem_cons_self
  generalize here : f.pc = pc at overtakes
  match pc, overtakes with
  | .gcNode (some d) none, ⟨_, pre, post, linked, head, alive⟩ =>
      have copied := (current _ f member (some d) (by rw [here]; rfl)).1
      have settled := sound.settled_of_node running here
      obtain rfl := linked.unique sound.linked (head.trans (sound.head settled))
      cases pre with
      | nil => exact alive rfl
      | cons b pre =>
          obtain rfl : d = b := Option.some_inj.mp copied
          exact (List.nodup_cons.mp linked.nodup).1 (by simp)

/-- Nothing is lost, and what returns has met its contract. -/
structure Faithful (s : State τ ω) : Prop where
  represents : Represents s
  answered : Answered True s

/-- What a quiet run keeps. -/
structure Quiet (s : State τ ω) (l : List ℕ) : Prop where
  sound : Sound s l
  current : Current s l
  known : Known True s l
  books : Books s

theorem Turn.quiet (turn : Turn s l a s' l') (quiet : Quiet s l) (load : QuietLoad s a) :
    Quiet s' l' where
  sound := turn.sound quiet.sound
  current := turn.current quiet.sound load quiet.current
  known := turn.known quiet.sound (fun _ => quiet.sound.spares quiet.current) quiet.known
  books := turn.books quiet.sound quiet.known quiet.books

omit [DecidableEq τ] in
theorem Quiet.faithful (quiet : Quiet s l) : Faithful s :=
  ⟨quiet.sound.represents.mpr (quiet.known.held trivial), quiet.known.answered quiet.books⟩

theorem quiet_init : Quiet (collection τ ω).init [] :=
  ⟨sound_init, fun _ _ member => absurd member List.not_mem_nil, known_init, books_init⟩

instance decidableQuietLoad {τ ω : Type} [DecidableEq ω] (s : State τ ω) (a : Action τ ω) :
    Decidable (QuietLoad s a) :=
  decidable_of_iff (∀ f ∈ (s.threads a.thread).head?, f.pc = .gcHead → s.shared.blockGc = 0) Iff.rfl

/-- An insertion, a removal that collects, and an insertion by another thread, which
waits for the collector. -/
def waitingSchedule : List (Action Bool Bool) :=
  [.start false (.insert true), .allocate false 7] ++ List.replicate 13 (.run false) ++
    [.start false (.remove 1)] ++ List.replicate 9 (.run false) ++
    [.start true (.insert false), .allocate true 8] ++ List.replicate 2 (.run true) ++
    List.replicate 3 (.run false) ++ List.replicate 12 (.run true)

/-- A collector starts when it has found the counter at zero. -/
theorem Flow.collects {s : Shared ω} {pc pc' : Pc ω} (flow : Flow s pc pc')
    (collects : pc' = .gcActive ∨ pc' = .gcHead) :
    pc = .gcBlocked ∧ s.blockGc = 0 ∨ pc = .gcActive := by
  cases flow with
  | unblocked zero => exact Or.inl ⟨rfl, zero⟩
  | claim => exact Or.inr rfl
  | _ => rcases collects with is | is <;> cases is

/-- Calls that are interrupted are in their functors, and none is below one that is
about to copy the head. -/
def Stacked (c : Crew τ (Frame ω)) : Prop :=
  ∀ t f rest, c t = f :: rest → (∀ g ∈ rest, ∃ a, g.pc = .calling a) ∧
    (f.pc = .gcActive ∨ f.pc = .gcHead → rest = [])

omit [Fintype τ] in
/-- The stacks of the other threads are as they were. -/
theorem Stacked.update {c : Crew τ (Frame ω)} {t : τ} {stack : List (Frame ω)} (stacked : Stacked c)
    (here : ∀ f rest, stack = f :: rest → (∀ g ∈ rest, ∃ a, g.pc = .calling a) ∧
      (f.pc = .gcActive ∨ f.pc = .gcHead → rest = [])) : Stacked (Function.update c t stack) := by
  intro u f rest running
  by_cases same : u = t
  · subst same
    rw [Function.update_self] at running
    exact here f rest running
  · rw [Function.update_of_ne same] at running
    exact stacked u f rest running

omit [Fintype τ] in
theorem Stacked.ret {c : Crew τ (Frame ω)} {t : τ} {f : Frame ω} {rest : List (Frame ω)}
    (stacked : Stacked c) (running : c t = f :: rest) : Stacked (Function.update c t rest) := by
  refine stacked.update fun g rest' is => ?_
  subst is
  have below := (stacked t f _ running).1
  obtain ⟨b, calling⟩ := below g List.mem_cons_self
  refine ⟨fun k member => below k (List.mem_cons_of_mem g member), fun collects => ?_⟩
  rw [calling] at collects
  rcases collects with is | is <;> cases is

/-- **A collector does not start from inside a functor.** -/
theorem Turn.stacked (turn : Turn s l a s' l') (sound : Sound s l) (stacked : Stacked s.threads) :
    Stacked s'.threads := by
  cases turn with
  | @call t op may =>
      refine stacked.update fun f rest is => ?_
      cases is
      refine ⟨fun g below => ?_, fun collects => ?_⟩
      · cases running : s.threads t with
        | nil => rw [running] at below; exact absurd below List.not_mem_nil
        | cons f rest =>
            rw [running] at below may
            rcases List.mem_cons.mp below with rfl | below
            · exact calling_of_mayCall may rfl
            · exact (stacked t f rest running).1 g below
      · cases op <;> rcases collects with is | is <;> cases is
  | ret running here => exact stacked.ret running
  | @move _ f f' rest shared _ running moved outcome =>
      refine stacked.update fun g rest' is => ?_
      cases is
      obtain ⟨below, alone⟩ := stacked _ f rest running
      refine ⟨below, fun collects => ?_⟩
      rcases (flow_of_move moved outcome.fault).collects collects with ⟨-, zero⟩ | here
      · cases rest with
        | nil => rfl
        | cons g rest =>
            obtain ⟨b, calling⟩ := below g List.mem_cons_self
            have present : g ∈ s.threads a.thread := running ▸ by simp
            exact absurd (by rw [calling]; rfl)
              ((zero ▸ sound.gate).not_inside_of_zero present)
      · exact alone (Or.inl here)

omit [Fintype τ] in
theorem stacked_init : Stacked (collection τ ω).init.threads :=
  fun _ _ _ running => by cases running

omit [DecidableEq τ] in
/-- A thread that is alone has found the counter at zero. -/
theorem Stacked.quietLoad [Subsingleton τ] (stacked : Stacked s.threads) (sound : Sound s l) :
    QuietLoad s a := by
  intro f first here
  obtain ⟨rest, running⟩ := List.head?_eq_some_iff.mp first
  obtain rfl := (stacked _ f rest running).2 (Or.inr here)
  have counted := sound.gate.counted
  have none : ∀ r, r ≠ f.pc.role → census (fun f => f.pc.role) s.threads r = 0 := by
    intro r differs
    refine Crew.tally_eq_zero _ fun u g present => if_neg fun is => differs ?_
    rw [Subsingleton.elim u a.thread, running, List.mem_singleton] at present
    rw [← is, present]
  have notAnnounced : Role.announced ≠ f.pc.role := fun is => by rw [here] at is; cases is
  have notInside : Role.inside ≠ f.pc.role := fun is => by rw [here] at is; cases is
  rw [counted, none _ notAnnounced, none _ notInside]

-- The functor removes the newer of two elements and asks whether there are any: it is
-- told that there are none, although the older one is live and is handed on next.
example :
    let runs (n : ℕ) : List (Action Unit ℕ) := List.replicate n (.run ())
    ((collection Unit ℕ).exec (collection Unit ℕ).init
      ([.start () (.insert 10), .allocate () 0] ++ runs 13 ++
        [.start () (.insert 20), .allocate () 1] ++ runs 15 ++ [.start () .apply] ++ runs 5 ++
        [.start () (.remove 2)] ++ runs 8 ++ [.start () .empty] ++ runs 6 ++ runs 7)).map
      (fun s => (s.returned.map Frame.result, s.shared.live)) =
        some ([.applied, .emptiness true, .removed true, .inserted 2, .inserted 1], [(1, 10)]) := by
  rfl

end RadarDemo.Lockfree
