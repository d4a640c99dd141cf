import RadarDemo.Lockfree.Quiet
import Mathlib.Data.Set.Finite.Basic

/-!
# Every call can be completed

A call waits in one place: for the flag of a collector, before it enters its
`gc_blocker`.  The collector itself waits for nobody.  It gives up when it finds
the counter raised, and its loop goes on by a node or deletes one.

`work` bounds the steps that a call has left while the others stand still, and
`Sound.work_lt` says that each step of its own takes one off, unless the call waits.
A call beside no collector therefore runs to its end (`runs_out`); a collector is
never interrupted, so it runs to its end too; and the calls that are in
progress, whatever they are and however they are nested, can be completed one after
another (`completable`): no reachable state is a deadlock, or leaves a thread in a
loop that it cannot get out of.
-/

namespace RadarDemo.Lockfree

open Concurrency Concurrency.Gate Concurrency.Linked TransitionSystem

variable {ω : Type}

/-- The nodes that a collector has before it. -/
def left (l : List ℕ) (head : Option ℕ) : Option ℕ → ℕ
  | none => behind l head
  | some a => behind l (some a) - 1

/-- The steps that a call has left while the others stand still, but for those it
waits. -/
def work (s : Shared ω) (l : List ℕ) : Pc ω → ℕ
  | .lastId _ => 6 * l.length + 16
  | .blockGc _ => 6 * l.length + 15
  | .awaitGc _ => 6 * l.length + 14
  | .loadHead _ => 6 * l.length + 13
  | .exchangeHead a =>
      3 * l.length + 11 + if (s.heap a).map Node.next = some s.head then 0 else 1
  | .seek _ c => 3 * l.length + 9 + behind l c
  | .markDeleted _ => 3 * l.length + 8
  | .visit c => 3 * l.length + 9 + 3 * behind l c
  | .call a => 3 * l.length + 8 + 3 * behind l (some a)
  | .calling a => 3 * l.length + 7 + 3 * behind l (some a)
  | .loadDeleted _ => 3 * l.length + 8
  | .unblockGc _ => 3 * l.length + 7
  | .gcBlocked => 3 * l.length + 6
  | .gcActive => 3 * l.length + 5
  | .gcHead => 3 * l.length + 4
  | .gcFirst head => 3 * behind l head + 3
  | .gcTest head p => 3 * left l head p + 2
  | .gcNode head p => 3 * left l head p + 1
  | .gcStore head => 3 * behind l head + 3
  | .gcDone => 1
  | .done => 0

section Work

variable {s s' : Shared ω} {l l' : List ℕ} {f f' : Frame ω}

/-- The marked node behind a collector's link is freed. -/
theorem freed_of_gcNode {head p : Option ℕ} {d : ℕ} {n : Node ω}
    (moved : gcNode s f head p = (s', f')) (fault : s'.fault = false)
    (link : s.link head p = some (some d)) (here : s.heap d = some n)
    (marked : n.deleted = true) : s'.heap d = none := by
  unfold gcNode at moved
  simp only [link, deref_of_some here, marked, Bool.true_eq_false, if_false] at moved
  cases p with
  | none =>
      cases moved
      exact Function.update_self ..
  | some a =>
      obtain ⟨m, -, moved⟩ := exists_of_deref moved fault
      cases moved
      exact Function.update_self ..

/-- What a collector has before it starts at the node behind its link. -/
theorem left_of_link {head p : Option ℕ} {d : ℕ} (linked : Linked Node.next s.heap l)
    (cursor : ∀ a, p.or head = some a → a ∈ l) (link : s.link head p = some (some d)) :
    d ∈ l ∧ left l head p = behind l (some d) := by
  cases p with
  | none =>
      rw [Shared.link, Option.some_inj] at link
      subst link
      exact ⟨cursor d rfl, rfl⟩
  | some a =>
      rw [Shared.link, Option.map_eq_some_iff] at link
      obtain ⟨m, before, points⟩ := link
      have member := cursor a rfl
      have further := behind_next linked member before
      rw [points] at further
      refine ⟨linked.next_mem member before points, ?_⟩
      rw [left, ← further, Nat.add_sub_cancel]

/-- A collector's body takes a node off. -/
theorem work_gcNode {head p : Option ℕ} (linked : Linked Node.next s.heap l)
    (cursor : ∀ a, p.or head = some a → a ∈ l) (change : Change s l (.gcNode head p) s' l')
    (moved : gcNode s f head p = (s', f')) (fault : s'.fault = false) :
    work s' l' f'.pc < work s l (.gcNode head p) := by
  have flow := flow_of_gcNode moved fault
  generalize f'.pc = pc' at flow
  cases flow with
  | @next _ _ d n link here unmarked =>
      obtain ⟨member, counted⟩ := left_of_link linked cursor link
      have positive := behind_pos linked member
      have same : l' = l := by
        cases change with
        | quiet _ _ _ => rfl
        | relink own _ => cases own
        | @unlinkFirst e k pre post split there marked =>
            obtain rfl : e = d := Option.some_inj.mp (Option.some_inj.mp link)
            rw [here, Option.some_inj] at there
            rw [← there, unmarked] at marked
            cases marked
        | @unlinkNext _ b e m k pre post split before there marked =>
            have behind := (linked.after ⟨pre, split.symm⟩ before).2
            rw [Shared.link, before, Option.map_some, Option.some_inj] at link
            obtain rfl : e = d := Option.some_inj.mp (behind.trans link)
            rw [here, Option.some_inj] at there
            rw [← there, unmarked] at marked
            cases marked
      rw [same, work, work, counted, left]
      omega
  | @unlinkFirst d n here marked =>
      have freed := freed_of_gcNode moved fault rfl here marked
      cases change with
      | quiet _ _ _ => exact absurd (here.symm.trans freed) (Option.some_ne_none n)
      | relink own _ => cases own
      | @unlinkFirst _ k pre _ split there _ =>
          subst split
          have next := (linked.after ⟨pre, rfl⟩ here).2
          have rest := behind_of_suffix linked.append_right.unlink_first.nodup (List.suffix_refl l')
          have all := behind_of_suffix linked.nodup (List.suffix_append pre (d :: l'))
          rw [List.head?_cons, List.length_cons] at all
          rw [work, work, left, ← next, rest, all]
          omega
  | @unlinkNext _ a d n link here marked =>
      have freed := freed_of_gcNode moved fault link here marked
      cases change with
      | quiet _ _ _ => exact absurd (here.symm.trans freed) (Option.some_ne_none n)
      | relink own _ => cases own
      | @unlinkNext _ _ e m k pre post split before there _ =>
          subst split
          have distinct : (pre ++ a :: post).Nodup := by
            refine linked.nodup.sublist (List.Sublist.append_left ?_ pre)
            exact (List.sublist_cons_self e post).cons_cons a
          have rest := behind_of_suffix distinct (List.suffix_append pre (a :: post))
          have all := behind_of_suffix linked.nodup (List.suffix_append pre (a :: e :: post))
          rw [List.head?_cons, List.length_cons] at rest all
          rw [List.length_cons] at all
          rw [work, work, left, left, rest, all]
          omega

/-- A step adds at most one node to the list. -/
theorem Change.length_le {pc : Pc ω} (change : Change s l pc s' l') :
    l'.length ≤ l.length + 1 := by
  cases change with
  | unlinkFirst split _ _ =>
      subst split
      simp only [List.length_append, List.length_cons]
      omega
  | unlinkNext split _ _ _ =>
      subst split
      simp only [List.length_append, List.length_cons]
      omega
  | publish _ _ => exact le_rfl
  | _ => exact Nat.le_succ _

/-- And none unless it publishes an id. -/
theorem Change.list_eq_of_published {pc : Pc ω} (change : Change s l pc s' l')
    (notNode : pc.isNode = false) (same : s'.published = s.published) : l' = l := by
  cases change with
  | publish _ _ => exact absurd same (List.cons_ne_self _ _)
  | unlinkFirst _ _ _ => cases notNode
  | unlinkNext _ _ _ _ => cases notNode
  | _ => rfl

/-- An insertion that fails to exchange the head has it right the next time. -/
theorem work_exchangeHead {a : ℕ} (here : f.pc = .exchangeHead a)
    (change : Change s l (.exchangeHead a) s' l')
    (moved : exchangeHead s f a false = (s', f')) (fault : s'.fault = false) :
    work s' l' f'.pc < work s l (.exchangeHead a) := by
  have bound := change.length_le
  have list := change.list_eq_of_published rfl
  clear change
  obtain ⟨n, there, moved⟩ := exists_of_deref moved fault
  simp only [and_true] at moved
  by_cases expected : n.next = s.head
  · rw [if_pos expected] at moved
    cases moved
    rw [Frame.goto, work, work]
    omega
  · rw [if_neg expected] at moved
    cases moved
    rw [here, list rfl, work, work, there, Shared.write_heap, Function.update_self]
    simp [expected, Shared.write]

/-- The edges that leave the list as it is. -/
theorem Flow.work_lt {pc pc' : Pc ω} (flow : Flow s pc pc') (linked : Linked Node.next s.heap l)
    (cursor : ∀ a, pc.cursor = some a → a ∈ l) (notExchange : pc.isExchange = false)
    (notNode : pc.isNode = false) (free : ∀ task, pc = .awaitGc task → s.gcActive = false) :
    work s' l pc' < work s l pc := by
  cases flow with
  | await active =>
      rw [free _ rfl] at active
      cases active
  | relink a =>
      rw [work, work]
      split <;> omega
  | seek elementId =>
      have bound := behind_le l s.head
      rw [work, work]
      omega
  | visit =>
      have bound := behind_le l s.head
      rw [work, work]
      omega
  | seekNext here =>
      have further := behind_next linked (cursor _ rfl) here
      rw [work, work]
      omega
  | skip here =>
      have further := behind_next linked (cursor _ rfl) here
      rw [work, work]
      omega
  | back here =>
      have further := behind_next linked (cursor _ rfl) here
      rw [work, work]
      omega
  | raise a =>
      have positive := behind_pos linked (cursor a rfl)
      rw [work, work]
      omega
  | copy =>
      have bound := behind_le l s.head
      rw [work, work]
      omega
  | begin head =>
      rw [work, work, left]
      omega
  | store head =>
      rw [work, work, left]
      omega
  | retry a => cases notExchange
  | publish a => cases notExchange
  | next _ _ _ => cases notNode
  | unlinkFirst _ _ => cases notNode
  | unlinkNext _ _ _ => cases notNode
  | _ =>
      rw [work, work]
      omega

/-- **Each step of a call takes one off its work**, unless the call waits for a
collector. -/
theorem work_advance (linked : Linked Node.next s.heap l) (ok : PcOk s l f.pc)
    (moved : advance s f = some (s', f')) (change : Change s l f.pc s' l')
    (fault : s'.fault = false) (free : ∀ task, f.pc = .awaitGc task → s.gcActive = false) :
    work s' l' f'.pc < work s l f.pc := by
  have flow := flow_of_advance moved fault
  have list := change.list_eq
  have cursor := ok.cursor
  cases here : f.pc with
  | exchangeHead a =>
      rw [here] at change
      simp only [advance, here, Option.some_inj] at moved
      exact work_exchangeHead here change moved fault
  | gcNode head p =>
      rw [here] at change cursor
      simp only [advance, here, Option.some_inj] at moved
      exact work_gcNode linked cursor change moved fault
  | _ =>
      obtain rfl := list (by rw [here]; rfl) (by rw [here]; rfl)
      rw [here] at flow cursor
      exact flow.work_lt linked cursor rfl rfl fun task is => free task (here.trans is)

end Work

variable {τ : Type} [DecidableEq τ] [Fintype τ] {s s' : State τ ω} {l l' : List ℕ} {t : τ}
  {f f' : Frame ω} {rest : List (Frame ω)}

omit [DecidableEq τ] in
/-- There is always an address left to allocate. -/
theorem Sound.exists_free (sound : Sound s l) : ∃ a, s.shared.heap a = none := by
  have finite : {a | s.shared.heap a ≠ none}.Finite := by
    refine Set.Finite.of_injOn (f := fun a => ((s.shared.heap a).map Node.nodeId).getD 0)
      (t := {i | i ≤ s.shared.lastId}) (fun a here => ?_) (fun a here b there same => ?_)
      (Set.finite_le_nat _)
    · obtain ⟨n, here⟩ := Option.ne_none_iff_exists'.mp here
      simpa [here] using sound.ids.le_lastId a n here
    · obtain ⟨m, here⟩ := Option.ne_none_iff_exists'.mp here
      obtain ⟨n, there⟩ := Option.ne_none_iff_exists'.mp there
      simp only [here, there, Option.map_some, Option.getD_some] at same
      exact sound.ids.injective a b m n here there same
  obtain ⟨a, free⟩ := finite.exists_notMem
  exact ⟨a, not_not.mp free⟩

omit [DecidableEq τ] in
/-- The flag is down while there is no collector. -/
theorem Sound.gcActive_eq_false (sound : Sound s l)
    (none : ∀ u, ∀ g ∈ s.threads u, g.pc.role ≠ .claimed ∧ g.pc.role ≠ .sole) :
    s.shared.gcActive = false := by
  have claimed : census (fun f => f.pc.role) s.threads .claimed = 0 :=
    Crew.tally_eq_zero _ fun u g present => if_neg (none u g present).1
  have sole : census (fun f => f.pc.role) s.threads .sole = 0 :=
    Crew.tally_eq_zero _ fun u g present => if_neg (none u g present).2
  have flagged := sound.gate.flagged
  rw [claimed, sole] at flagged
  exact Bool.toNat_eq_zero.mp flagged.symm

/-- The action starts nothing and lets nothing fail. -/
def Action.completes : Action τ ω → Bool
  | .run _ | .allocate .. => true
  | _ => false

omit [Fintype τ] in
theorem step_of_return (running : s.threads t = f :: rest) (here : f.pc = .done) :
    step s (.run t) = some { s with
      threads := Function.update s.threads t rest, returned := f :: s.returned } := by
  have returns : f.returns = true := by rw [Frame.returns, here]
  simp only [step, Action.thread, running, returns, Action.isRun, if_true]

omit [Fintype τ] in
theorem step_of_move {a : Action τ ω} {shared : Shared ω} (running : s.threads a.thread = f :: rest)
    (goesOn : f.pc ≠ .done) (moved : move s.shared f a = some (shared, f')) :
    step s a = some { s with
      shared := shared, threads := Function.update s.threads a.thread (f' :: rest) } := by
  have returns : f.returns = false := by
    unfold Frame.returns
    split
    · exact absurd ‹_› goesOn
    · rfl
  cases a with
  | start u op => cases moved
  | _ => simp only [step, running, returns, moved, Bool.false_eq_true, if_false, Option.map_some]

omit [Fintype τ] in
theorem step_of_refused {a : Action τ ω} (running : s.threads a.thread = f :: rest)
    (goesOn : f.pc ≠ .done) (notStart : ∀ u op, a ≠ .start u op)
    (refused : move s.shared f a = none) : step s a = none := by
  have returns : f.returns = false := by
    unfold Frame.returns
    split
    · exact absurd ‹_› goesOn
    · rfl
  cases a with
  | start u op => exact absurd rfl (notStart u op)
  | _ => simp only [step, running, returns, refused, Bool.false_eq_true, if_false, Option.map_none]

omit [DecidableEq τ] [Fintype τ] in
theorem exists_advance {s : Shared ω} (goesOn : f.pc ≠ .done)
    (named : ∀ element, f.pc ≠ .lastId element) :
    ∃ s' f', advance s f = some (s', f') := by
  unfold advance
  split
  · exact absurd ‹_› (named _)
  all_goals first | exact absurd ‹_› goesOn | exact ⟨_, _, rfl⟩

/-- **A call beside no collector gets on.** -/
theorem Sound.gets_on (sound : Sound s l) (running : s.threads t = f :: rest)
    (alone : ∀ g, Crew.Other s.threads t rest g → g.pc.role ≠ .claimed ∧ g.pc.role ≠ .sole)
    (goesOn : f.pc ≠ .done) :
    ∃ a shared f' l', a.completes = true ∧ a.thread = t ∧ move s.shared f a = some (shared, f') ∧
      Outcome s.shared l f shared f' l' ∧ work shared l' f'.pc < work s.shared l f.pc := by
  have member : f ∈ s.threads t := running ▸ List.mem_cons_self
  by_cases named : ∃ element, f.pc = .lastId element
  · obtain ⟨element, here⟩ := named
    obtain ⟨a, free⟩ := sound.exists_free
    have moved : move s.shared f (.allocate t a) = some (newNode s.shared f element a) := by
      simp only [move, here, free, Option.isNone_none, if_true]
    obtain ⟨l', outcome⟩ := sound.outcome running moved
    obtain rfl := outcome.change.list_eq (by rw [here]; rfl) (by rw [here]; rfl)
    refine ⟨.allocate t a, _, _, l', rfl, rfl, moved, outcome, ?_⟩
    rw [here]
    exact Nat.lt_succ_self _
  · obtain ⟨shared, f', moved⟩ := exists_advance (s := s.shared) goesOn (not_exists.mp named)
    obtain ⟨l', outcome⟩ := sound.outcome (a := .run t) running moved
    refine ⟨.run t, shared, f', l', rfl, rfl, moved, outcome, ?_⟩
    refine work_advance sound.linked (sound.frames t f member) moved outcome.change outcome.fault
      fun task here => sound.gcActive_eq_false ?_
    refine (Crew.forall_iff running).mpr ⟨?_, alone⟩
    rw [here]
    exact ⟨Role.noConfusion, Role.noConfusion⟩

/-- **A call beside no collector runs to its end.** -/
theorem Sound.runs_out (sound : Sound s l) (running : s.threads t = f :: rest)
    (alone : ∀ g, Crew.Other s.threads t rest g → g.pc.role ≠ .claimed ∧ g.pc.role ≠ .sole) :
    ∃ as s' l', (∀ a ∈ as, a.completes = true) ∧ (collection τ ω).exec s as = some s' ∧
      Sound s' l' ∧ s'.threads = Function.update s.threads t rest := by
  -- The induction is on the work that is left.
  induction bound : work s.shared l f.pc using Nat.strong_induction_on generalizing s l f with
  | _ n ih =>
    subst bound
    by_cases done : f.pc = .done
    · have stepped := step_of_return running done
      refine ⟨[.run t], _, l, ?_, ?_, (Turn.ret (a := .run t) running done).sound sound, rfl⟩
      · intro a is
        rw [List.mem_singleton.mp is]
        rfl
      · exact exec_cons_of_step _ stepped []
    · obtain ⟨a, shared, f', l', completes, here, moved, outcome, less⟩ :=
        sound.gets_on running alone done
      subst here
      have stepped := step_of_move running done moved
      obtain ⟨as, s', l'', completing, ran, sound', threads⟩ := ih _ less
        (sound.become running outcome) (Function.update_self ..)
        (fun g other => alone g (Crew.other_update.mp other)) rfl
      refine ⟨a :: as, s', l'', List.forall_mem_cons.mpr ⟨completes, completing⟩, ?_, sound', ?_⟩
      · exact (exec_cons_of_step _ stepped as).trans ran
      · rw [threads, Function.update_idem]

/-- Every call that is in progress can be completed. -/
def Completable (s : State τ ω) : Prop :=
  ∃ as s', (∀ a ∈ as, a.completes = true) ∧ (collection τ ω).exec s as = some s' ∧
    ∀ t, s'.threads t = []

/-- Some call is beside no collector: the collector itself, if there is one. -/
theorem Sound.exists_alone (sound : Sound s l) (stacked : Stacked s.threads)
    (busy : ∃ t, s.threads t ≠ []) :
    ∃ t f rest, s.threads t = f :: rest ∧
      ∀ g, Crew.Other s.threads t rest g → g.pc.role ≠ .claimed ∧ g.pc.role ≠ .sole := by
  by_cases collector : ∃ u, ∃ g ∈ s.threads u, g.pc.role = .claimed ∨ g.pc.role = .sole
  · obtain ⟨u, g, present, caretaker⟩ := collector
    cases running : s.threads u with
    | nil => exact absurd (running ▸ present) List.not_mem_nil
    | cons f rest =>
        rw [running] at present
        rcases List.mem_cons.mp present with rfl | below
        · exact ⟨u, g, rest, running, fun k other =>
            sound.gate.not_caretaker running caretaker other⟩
        · -- A call that is interrupted is in its functor.
          obtain ⟨a, calling⟩ := (stacked u f rest running).1 g below
          rw [calling] at caretaker
          rcases caretaker with is | is <;> cases is
  · obtain ⟨t, busy⟩ := busy
    obtain ⟨f, rest, running⟩ := List.exists_cons_of_ne_nil busy
    refine ⟨t, f, rest, running, fun g other => ?_⟩
    obtain ⟨u, present⟩ := other.exists_mem running
    exact not_or.mp fun caretaker => collector ⟨u, g, present, caretaker⟩

theorem Sound.finishes (sound : Sound s l) (stacked : Stacked s.threads) : Completable s := by
  -- The induction is on the number of calls that are in progress.
  induction count : s.threads.tally (fun _ => 1) using Nat.strong_induction_on generalizing s l with
  | _ n ih =>
    subst count
    by_cases busy : ∃ t, s.threads t ≠ []
    · obtain ⟨t, f, rest, running, alone⟩ := sound.exists_alone stacked busy
      obtain ⟨as, s', l', completing, ran, sound', threads⟩ := sound.runs_out running alone
      have fewer := Crew.tally_ret (fun _ => 1) running
      obtain ⟨bs, s'', completing', ran', idle⟩ :=
        ih _ (by rw [threads]; omega) sound' (threads ▸ stacked.ret running) rfl
      refine ⟨as ++ bs, s'', fun a member => ?_, (exec_append _ ran bs).trans ran', idle⟩
      exact (List.mem_append.mp member).elim (completing a) (completing' a)
    · simp only [not_exists, not_not] at busy
      exact ⟨[], s, by simp, rfl, busy⟩

end RadarDemo.Lockfree
