import RadarDemo.Lockfree.Contract

/-!
# What the calls answer

Each call has met its contract when it returns (`Frame.Contract`).  What the
contracts do not say, because it is about several calls: no id is handed out twice,
and of all removals of an element one is told that it was the one.

The clauses that do not depend on what the collector overtakes hold in every run
(`returned_of_every_run`), and all of them in a run that spares the live elements
(`returned_of_spares`).
-/

namespace RadarDemo.Lockfree

open Concurrency TransitionSystem

variable {ω : Type}

/-- The id that an insertion has taken. -/
def Frame.taken (f : Frame ω) : Option ℕ :=
  match f.pc with
  | .lastId _ => none
  | _ => match f.result with
    | .inserted i => some i
    | _ => none

/-- The id of the element that a removal has removed. -/
def Frame.removed (f : Frame ω) : Option ℕ :=
  match f.op, f.result with
  | .remove elementId, .removed true => some elementId
  | _, _ => none

theorem Frame.taken_iff {f : Frame ω} {i : ℕ} :
    f.taken = some i ↔ (∀ element, f.pc ≠ .lastId element) ∧ f.result = .inserted i := by
  unfold Frame.taken
  split
  · simp_all
  · split <;> simp_all

theorem Frame.removed_iff {f : Frame ω} {i : ℕ} :
    f.removed = some i ↔ f.op = .remove i ∧ f.result = .removed true := by
  unfold Frame.removed
  split <;> simp_all

/-! ## Where a call gets its answer -/

section Result

variable {s s' : Shared ω} {f f' : Frame ω} {a : ℕ}

/-- The call may know that its functor has thrown, or whether the collection is empty,
but no more of an id or a removal. -/
def Frame.Keeps (f f' : Frame ω) : Prop :=
  f'.op = f.op ∧
    (f'.result = f.result ∨ f'.result = .thrown ∨ ∃ b, f'.result = .emptiness b)

theorem Frame.Keeps.of_eq (op : f'.op = f.op) (result : f'.result = f.result) : f.Keeps f' :=
  ⟨op, Or.inl result⟩

theorem Frame.Keeps.deref {k : Node ω → Shared ω × Frame ω} (each : ∀ n, f.Keeps (k n).2) :
    f.Keeps (deref s f a k).2 := by
  unfold Lockfree.deref
  split
  · exact each _
  · exact .of_eq rfl rfl

theorem keeps_exchangeHead (s : Shared ω) (f : Frame ω) (a : ℕ) (spurious : Bool) :
    f.Keeps (exchangeHead s f a spurious).2 := by
  refine .deref fun n => ?_
  split <;> exact .of_eq rfl rfl

theorem keeps_loadHead (s : Shared ω) (f : Frame ω) (task : Task) :
    f.Keeps (loadHead s f task).2 := by
  unfold loadHead
  split
  · exact .deref fun n => .of_eq rfl rfl
  · exact .of_eq rfl rfl
  · exact .of_eq rfl rfl
  · split
    · exact ⟨rfl, Or.inr (Or.inr ⟨_, rfl⟩)⟩
    · exact .of_eq rfl rfl

theorem keeps_gcNode (s : Shared ω) (f : Frame ω) (head p : Option ℕ) :
    f.Keeps (gcNode s f head p).2 := by
  unfold gcNode
  split
  · refine .deref fun n => ?_
    split
    · exact .of_eq rfl rfl
    · split
      · exact .of_eq rfl rfl
      · exact .deref fun m => .of_eq rfl rfl
  · exact .of_eq rfl rfl

theorem keeps_gcTest (s : Shared ω) (f : Frame ω) (head p : Option ℕ) :
    f.Keeps (gcTest s f head p).2 := by
  unfold gcTest
  split <;> exact .of_eq rfl rfl

/-- **Only a mark answers a removal**, and no step of its own answers an insertion. -/
theorem keeps_of_advance (notMark : ∀ a, f.pc ≠ .markDeleted a)
    (moved : advance s f = some (s', f')) : f.Keeps f' := by
  have of : ∀ {x : Shared ω × Frame ω}, f.Keeps x.2 → x = (s', f') → f.Keeps f' :=
    fun keeps is => by rwa [is] at keeps
  unfold advance at moved
  cases here : f.pc with
  | lastId element => simp only [here, reduceCtorEq] at moved
  | done => simp only [here, reduceCtorEq] at moved
  | markDeleted a => exact absurd here (notMark a)
  | awaitGc task =>
      simp only [here, Option.some_inj] at moved
      refine of ?_ moved
      simp only
      split <;> exact .of_eq rfl rfl
  | loadHead task =>
      simp only [here, Option.some_inj] at moved
      exact of (keeps_loadHead s f task) moved
  | exchangeHead a =>
      simp only [here, Option.some_inj] at moved
      exact of (keeps_exchangeHead s f a false) moved
  | gcFirst head =>
      simp only [here, Option.some_inj] at moved
      exact of (keeps_gcTest s f head none) moved
  | gcTest head p =>
      simp only [here, Option.some_inj] at moved
      exact of (keeps_gcTest s f head p) moved
  | gcNode head p =>
      simp only [here, Option.some_inj] at moved
      exact of (keeps_gcNode s f head p) moved
  | loadDeleted a =>
      simp only [here, Option.some_inj] at moved
      exact of (.deref fun n => ⟨rfl, Or.inr (Or.inr ⟨_, rfl⟩)⟩) moved
  | seek elementId c =>
      cases c <;> simp only [here, Option.some_inj] at moved
      · exact of (.of_eq rfl rfl) moved
      · exact of (.deref fun n => .of_eq rfl rfl) moved
  | visit c =>
      cases c <;> simp only [here, Option.some_inj] at moved
      · exact of (.of_eq rfl rfl) moved
      · exact of (.deref fun n => .of_eq rfl rfl) moved
  | call a =>
      simp only [here, Option.some_inj] at moved
      exact of (.deref fun n => .of_eq rfl rfl) moved
  | calling a =>
      simp only [here, Option.some_inj] at moved
      exact of (.deref fun n => .of_eq rfl rfl) moved
  | _ =>
      simp only [here, Option.some_inj] at moved
      exact of (.of_eq rfl rfl) moved

end Result

/-! ## Each answer is given once -/

variable {τ : Type} [DecidableEq τ] [Fintype τ]

/-- Of all calls only one gives an answer, and it has used up what it answers. -/
structure Accounted (κ : Frame ω → Option ℕ) (spent : Shared ω → ℕ → Prop) (s : State τ ω) :
    Prop where
  once : Crew.Once κ s.threads s.returned
  frames : ∀ t, ∀ f ∈ s.threads t, ∀ i, κ f = some i → spent s.shared i
  returned : ∀ f ∈ s.returned, ∀ i, κ f = some i → spent s.shared i

section Accounts

variable {s s' : State τ ω} {l l' : List ℕ} {a : Action τ ω} {κ : Frame ω → Option ℕ}
  {spent : Shared ω → ℕ → Prop}

omit [DecidableEq τ] in
/-- What is not spent nobody has answered. -/
theorem Accounted.answers_eq_zero (accounted : Accounted κ spent s) {i : ℕ}
    (new : ¬ spent s.shared i) : Crew.answers κ s.threads s.returned i = 0 :=
  Crew.answers_eq_zero (fun t f member is => new (accounted.frames t f member i is))
    fun f member is => new (accounted.returned f member i is)

/-- **A turn keeps the accounts**, if what it answers anew is spent by it. -/
theorem Turn.accounted (turn : Turn s l a s' l') (start : ∀ op, κ (Frame.start op) = none)
    (mono : ∀ i, spent s.shared i → spent s'.shared i)
    (new : ∀ f f' rest, s.threads a.thread = f :: rest →
      Lockfree.move s.shared f a = some (s'.shared, f') → ∀ i, κ f' = some i →
        κ f = some i ∨ ¬ spent s.shared i ∧ spent s'.shared i)
    (accounted : Accounted κ spent s) : Accounted κ spent s' := by
  obtain ⟨once, frames, returned⟩ := accounted
  cases turn with
  | @call t op may =>
      refine ⟨once.call (start op), Crew.forall_call_iff.mpr ⟨fun i is => ?_, frames⟩, returned⟩
      rw [start] at is
      cases is
  | ret running here =>
      obtain ⟨mine, others⟩ := (Crew.forall_iff running).mp frames
      exact ⟨once.ret running, (Crew.forall_ret_iff running).mpr others,
        List.forall_mem_cons.mpr ⟨mine, returned⟩⟩
  | @move _ f f' rest shared _ running moved outcome =>
      obtain ⟨mine, others⟩ := (Crew.forall_iff running).mp frames
      have anew := new f f' rest running moved
      refine ⟨once.become running fun i is => ?_, Crew.forall_become_iff.mpr
        ⟨fun i is => ?_, fun g other i is => mono i (others g other i is)⟩,
        fun g member i is => mono i (returned g member i is)⟩
      · exact (anew i is).imp_right fun fresh =>
          Accounted.answers_eq_zero ⟨once, frames, returned⟩ fresh.1
      · exact (anew i is).elim (fun old => mono i (mine i old)) And.right

end Accounts

section New

variable {s s' : Shared ω} {l l' : List ℕ} {f f' : Frame ω} {pc : Pc ω} {a : Action τ ω} {i : ℕ}

theorem Change.lastId_le (change : Change s l pc s' l') : s.lastId ≤ s'.lastId := by
  cases change with
  | newNode free => exact Nat.le_succ _
  | _ => exact Nat.le_refl _

omit [DecidableEq τ] [Fintype τ] in
theorem keeps_of_move (notNamed : ∀ element, f.pc ≠ .lastId element)
    (notMark : ∀ b, f.pc ≠ .markDeleted b) (moved : move s f a = some (s', f')) : f.Keeps f' := by
  cases a with
  | start u op => cases moved
  | run u => exact keeps_of_advance notMark moved
  | allocate u b =>
      cases here : f.pc with
      | lastId element => exact absurd here (notNamed element)
      | _ => simp only [move, here, reduceCtorEq] at moved
  | spurious u =>
      cases here : f.pc with
      | exchangeHead b =>
          simp only [move, here, Option.some_inj] at moved
          have keeps := keeps_exchangeHead s f b true
          rwa [moved] at keeps
      | _ => simp only [move, here, reduceCtorEq] at moved
  | raise u =>
      cases here : f.pc with
      | calling b =>
          simp only [move, here] at moved
          cases moved
          exact ⟨rfl, Or.inr (Or.inl rfl)⟩
      | _ => simp only [move, here, reduceCtorEq] at moved

omit [DecidableEq τ] [Fintype τ] in
/-- What a mark answers. -/
theorem result_of_mark {b : ℕ} (here : f.pc = .markDeleted b)
    (moved : move s f a = some (s', f')) (fault : s'.fault = false) :
    ∃ n, s.heap b = some n ∧ f'.op = f.op ∧ f'.result = .removed !n.deleted ∧
      s'.retired = if n.deleted then s.retired else n.nodeId :: s.retired := by
  cases a with
  | run u =>
      simp only [move, advance, here, Option.some_inj] at moved
      obtain ⟨n, there, moved⟩ := exists_of_deref moved fault
      cases moved
      exact ⟨n, there, rfl, rfl, rfl⟩
  | _ => simp only [move, here, reduceCtorEq] at moved

omit [DecidableEq τ] [Fintype τ] in
/-- **An id that a call takes is the next one.** -/
theorem taken_of_move (moved : move s f a = some (s', f')) (fault : s'.fault = false)
    (taken : f'.taken = some i) : f.taken = some i ∨ ¬ i ≤ s.lastId ∧ i ≤ s'.lastId := by
  obtain ⟨-, result⟩ := Frame.taken_iff.mp taken
  by_cases named : ∃ element, f.pc = .lastId element
  · obtain ⟨element, here⟩ := named
    cases a with
    | allocate u b =>
        simp only [move, here] at moved
        split at moved
        · cases moved
          cases result
          exact Or.inr ⟨Nat.not_succ_le_self _, Nat.le_refl _⟩
        · cases moved
    | _ => simp only [move, advance, here, reduceCtorEq] at moved
  by_cases marks : ∃ b, f.pc = .markDeleted b
  · obtain ⟨b, here⟩ := marks
    obtain ⟨n, -, -, is, -⟩ := result_of_mark here moved fault
    rw [is] at result
    cases result
  rcases (keeps_of_move (not_exists.mp named) (not_exists.mp marks) moved).2 with
    same | is | ⟨b, is⟩
  · exact Or.inl (Frame.taken_iff.mpr ⟨not_exists.mp named, same.symm.trans result⟩)
  · rw [is] at result
    cases result
  · rw [is] at result
    cases result

omit [DecidableEq τ] [Fintype τ] in
/-- **What a removal is told that it removed was not, and is now.** -/
theorem removed_of_move {kept : Prop} (story : Story kept s l f) (ids : Ids s l)
    (cursor : ∀ a, f.pc.cursor = some a → a ∈ l) (moved : move s f a = some (s', f'))
    (fault : s'.fault = false) (removed : f'.removed = some i) :
    f.removed = some i ∨ i ∉ s.retired ∧ i ∈ s'.retired := by
  obtain ⟨op, result⟩ := Frame.removed_iff.mp removed
  by_cases named : ∃ element, f.pc = .lastId element
  · obtain ⟨element, here⟩ := named
    cases a with
    | allocate u b =>
        simp only [move, here] at moved
        split at moved
        · cases moved
          cases result
        · cases moved
    | _ => simp only [move, advance, here, reduceCtorEq] at moved
  by_cases marks : ∃ b, f.pc = .markDeleted b
  · obtain ⟨b, here⟩ := marks
    obtain ⟨n, there, sameOp, is, retired⟩ := result_of_mark here moved fault
    unfold Story at story
    simp only [here] at story
    obtain ⟨elementId, isRemove, -, carries⟩ := story
    obtain rfl : elementId = i := by
      rw [sameOp, isRemove] at op
      exact (Op.remove.inj op)
    obtain rfl := carries n there
    have unmarked : n.deleted = false := by
      rw [is] at result
      simpa using result
    have marked := (ids.listed b (cursor b (by rw [here]; rfl)) n there).2
    rw [unmarked] at marked retired
    exact Or.inr ⟨fun gone => Bool.noConfusion (marked.mpr gone), retired ▸ List.mem_cons_self⟩
  obtain ⟨sameOp, same | is | ⟨b, is⟩⟩ :=
    keeps_of_move (not_exists.mp named) (not_exists.mp marks) moved
  · exact Or.inl (Frame.removed_iff.mpr ⟨sameOp.symm.trans op, same.symm.trans result⟩)
  · rw [is] at result
    cases result
  · rw [is] at result
    cases result

end New

/-! ## Whole runs -/

/-- The calls that are about to return meet their contracts, and those that have
returned have all taken different ids and removed different elements. -/
structure Answered (kept : Prop) (s : State τ ω) : Prop where
  contract : Returned kept s
  taken : (s.returned.filterMap Frame.taken).Nodup
  removed : (s.returned.filterMap Frame.removed).Nodup

/-- What the calls have answered is accounted for. -/
structure Books (s : State τ ω) : Prop where
  taken : Accounted Frame.taken (fun s i => i ≤ s.lastId) s
  removed : Accounted Frame.removed (fun s i => i ∈ s.retired) s

section Runs

variable {kept : Prop} {s s' : State τ ω} {l l' : List ℕ} {a : Action τ ω}

theorem books_init : Books (collection τ ω).init := by
  have none : ∀ κ : Frame ω → Option ℕ,
      Crew.Once κ (collection τ ω).init.threads (collection τ ω).init.returned := by
    intro κ i
    have nobody :
        Crew.answers κ (collection τ ω).init.threads (collection τ ω).init.returned i = 0 :=
      Crew.answers_eq_zero (fun _ _ member => absurd member List.not_mem_nil)
        fun _ member => absurd member List.not_mem_nil
    exact nobody.trans_le (Nat.zero_le 1)
  constructor <;> exact ⟨none _, fun _ _ member => absurd member List.not_mem_nil,
    fun _ member => absurd member List.not_mem_nil⟩

/-- **Every turn keeps the books.** -/
theorem Turn.books (turn : Turn s l a s' l') (sound : Sound s l) (known : Known kept s l)
    (books : Books s) : Books s' := by
  have fault := (turn.sound sound).fault
  have older : (∀ i, i ≤ s.shared.lastId → i ≤ s'.shared.lastId) ∧
      ∀ i, i ∈ s.shared.retired → i ∈ s'.shared.retired := by
    cases turn with
    | call may => exact ⟨fun i bound => bound, fun i gone => gone⟩
    | ret running here => exact ⟨fun i bound => bound, fun i gone => gone⟩
    | move running moved outcome =>
        exact ⟨fun i bound => bound.trans outcome.change.lastId_le, outcome.change.history.2⟩
  refine ⟨turn.accounted (fun op => ?_) older.1 (fun f f' rest running moved i taken => ?_)
    books.taken, turn.accounted (fun op => ?_) older.2 (fun f f' rest running moved i removed => ?_)
    books.removed⟩
  · cases op <;> rfl
  · exact taken_of_move moved fault taken
  · cases op <;> rfl
  · have member : f ∈ s.threads a.thread := running ▸ List.mem_cons_self
    exact removed_of_move (known.stories _ f member) sound.ids (sound.frames _ f member).cursor
      moved fault removed

omit [DecidableEq τ] in
theorem Known.answered (known : Known kept s l) (books : Books s) : Answered kept s :=
  ⟨known.returned, books.taken.once.nodup, books.removed.once.nodup⟩

end Runs

theorem answered_of_kept {kept : Prop} (as : List (Action τ ω))
    (spares : (collection τ ω).Along (fun s a _ => kept → Spares s a) (collection τ ω).init as) :
    (collection τ ω).Along (fun _ _ s' => Answered kept s') (collection τ ω).init as := by
  refine along_of_keeps (I := fun s => ∃ l, Sound s l ∧ Known kept s l ∧ Books s) ?_
    ⟨[], sound_init, known_init, books_init⟩ as spares
  rintro s a s' ⟨l, sound, known, books⟩ stepped spares
  obtain ⟨l', turn⟩ := sound.turn stepped
  have known' := turn.known sound spares known
  have books' := turn.books sound known books
  exact ⟨⟨l', turn.sound sound, known', books'⟩, known'.answered books'⟩

/-- **What the calls have done when they return**, whatever the collector
overtakes. -/
theorem returned_of_every_run (as : List (Action τ ω)) :
    (collection τ ω).Along (fun _ _ s' => Answered False s') (collection τ ω).init as :=
  answered_of_kept as (along_of_forall (fun _ _ _ => False.elim) _ as)

/-- One thread applies while the other inserts and removes; neither collects. -/
def crossingSchedule : List (Action Bool Bool) :=
  [.start true .apply] ++ List.replicate 3 (.run true) ++
    [.start false (.insert true), .allocate false 7] ++ List.replicate 7 (.run false) ++
    [.start false (.remove 1)] ++ List.replicate 8 (.run false) ++ List.replicate 3 (.run true)

-- Both calls of the second thread have returned, and so has the first thread's.
example : ((collection Bool Bool).exec (collection Bool Bool).init crossingSchedule).map
    (fun s => s.returned.map Frame.result) = some [.applied, .removed true, .inserted 1] := by
  rfl

end RadarDemo.Lockfree
