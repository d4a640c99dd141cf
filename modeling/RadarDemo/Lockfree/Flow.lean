import RadarDemo.Lockfree.Step

/-!
# The control flow of a call

`Flow s pc pc'` lists the edges that a call can take in the state `s`, with the
conditions that the source puts on them.  `Change` is what a step makes of the
list, and `Flow` is where it leads; between them no later module has to go
through the program counters again to learn what a step can be.
-/

namespace RadarDemo.Lockfree

open Concurrency Concurrency.Gate

variable {ω : Type}

/-- Where a step of a call leads, unless it is a fault. -/
inductive Flow (s : Shared ω) : Pc ω → Pc ω → Prop
  | newNode (element : ω) (a : ℕ) : Flow s (.lastId element) (.blockGc (.insert a))
  | announce (task : Task) : Flow s (.blockGc task) (.awaitGc task)
  | await {task : Task} (active : s.gcActive = true) : Flow s (.awaitGc task) (.awaitGc task)
  | enter {task : Task} (free : s.gcActive = false) : Flow s (.awaitGc task) (.loadHead task)
  | relink (a : ℕ) : Flow s (.loadHead (.insert a)) (.exchangeHead a)
  | seek (elementId : ℕ) : Flow s (.loadHead (.remove elementId)) (.seek elementId s.head)
  | visit : Flow s (.loadHead .apply) (.visit s.head)
  | noHead : Flow s (.loadHead .empty) (.unblockGc false)
  | first (a : ℕ) : Flow s (.loadHead .empty) (.loadDeleted a)
  | retry (a : ℕ) : Flow s (.exchangeHead a) (.exchangeHead a)
  | publish (a : ℕ) : Flow s (.exchangeHead a) (.unblockGc true)
  | seekEnd (elementId : ℕ) : Flow s (.seek elementId none) (.unblockGc true)
  | seekNext {elementId a : ℕ} {n : Node ω} (here : s.heap a = some n) :
      Flow s (.seek elementId (some a)) (.seek elementId n.next)
  | found (elementId a : ℕ) : Flow s (.seek elementId (some a)) (.markDeleted a)
  | mark (a : ℕ) : Flow s (.markDeleted a) (.unblockGc true)
  | visitEnd : Flow s (.visit none) (.unblockGc false)
  | skip {a : ℕ} {n : Node ω} (here : s.heap a = some n) : Flow s (.visit (some a)) (.visit n.next)
  | test {a : ℕ} {n : Node ω} (here : s.heap a = some n) (unmarked : n.deleted = false) :
      Flow s (.visit (some a)) (.call a)
  | call (a : ℕ) : Flow s (.call a) (.calling a)
  | back {a : ℕ} {n : Node ω} (here : s.heap a = some n) : Flow s (.calling a) (.visit n.next)
  | raise (a : ℕ) : Flow s (.calling a) (.unblockGc false)
  | tell (a : ℕ) : Flow s (.loadDeleted a) (.unblockGc false)
  | leave : Flow s (.unblockGc false) .done
  | collect : Flow s (.unblockGc true) .gcBlocked
  | blocked : Flow s .gcBlocked .done
  | unblocked (zero : s.blockGc = 0) : Flow s .gcBlocked .gcActive
  | taken : Flow s .gcActive .done
  | claim : Flow s .gcActive .gcHead
  | copy : Flow s .gcHead (.gcFirst s.head)
  | begin (head : Option ℕ) : Flow s (.gcFirst head) (.gcNode head none)
  | nothing (head : Option ℕ) : Flow s (.gcFirst head) .gcDone
  | goOn (head p : Option ℕ) : Flow s (.gcTest head p) (.gcNode head p)
  | stop (head p : Option ℕ) : Flow s (.gcTest head p) .gcDone
  | next {head p : Option ℕ} {d : ℕ} {n : Node ω} (link : s.link head p = some (some d))
      (here : s.heap d = some n) (unmarked : n.deleted = false) :
      Flow s (.gcNode head p) (.gcTest head (some d))
  | unlinkFirst {d : ℕ} {n : Node ω} (here : s.heap d = some n) (marked : n.deleted = true) :
      Flow s (.gcNode (some d) none) (.gcStore n.next)
  | unlinkNext {head : Option ℕ} {a d : ℕ} {n : Node ω}
      (link : s.link head (some a) = some (some d)) (here : s.heap d = some n)
      (marked : n.deleted = true) : Flow s (.gcNode head (some a)) (.gcTest head (some a))
  | store (head : Option ℕ) : Flow s (.gcStore head) (.gcTest head none)
  | release : Flow s .gcDone .done

section Edges

variable {s s' : Shared ω} {f f' : Frame ω}

/-- A dereference without fault has found a node. -/
theorem exists_of_deref {a : ℕ} {k : Node ω → Shared ω × Frame ω}
    (moved : deref s f a k = (s', f')) (fault : s'.fault = false) :
    ∃ n, s.heap a = some n ∧ k n = (s', f') := by
  unfold deref at moved
  split at moved
  · exact ⟨_, ‹_›, moved⟩
  · cases moved
    cases fault

theorem flow_of_loadHead {task : Task} (moved : loadHead s f task = (s', f'))
    (fault : s'.fault = false) : Flow s (.loadHead task) f'.pc := by
  cases task with
  | insert a =>
      obtain ⟨n, -, moved⟩ := exists_of_deref moved fault
      cases moved
      exact .relink a
  | remove elementId =>
      cases moved
      exact .seek elementId
  | apply =>
      cases moved
      exact .visit
  | empty =>
      simp only [loadHead] at moved
      split at moved
      · cases moved
        exact .noHead
      · cases moved
        exact .first _

theorem flow_of_exchangeHead {a : ℕ} {spurious : Bool} (here : f.pc = .exchangeHead a)
    (moved : exchangeHead s f a spurious = (s', f')) (fault : s'.fault = false) :
    Flow s (.exchangeHead a) f'.pc := by
  obtain ⟨n, -, moved⟩ := exists_of_deref moved fault
  split at moved
  · cases moved
    exact .publish a
  · cases moved
    rw [here]
    exact .retry a

/-- The condition of the loop leads to its body, or out of it. -/
theorem pc_of_gcTest {head p : Option ℕ} (moved : gcTest s f head p = (s', f'))
    (fault : s'.fault = false) : f'.pc = .gcNode head p ∨ f'.pc = .gcDone := by
  unfold gcTest at moved
  split at moved
  · cases moved
    cases fault
  · cases moved
    simp only [Frame.goto]
    split
    · exact Or.inl rfl
    · exact Or.inr rfl

theorem flow_of_gcNode {head p : Option ℕ} (moved : gcNode s f head p = (s', f'))
    (fault : s'.fault = false) : Flow s (.gcNode head p) f'.pc := by
  unfold gcNode at moved
  split at moved
  · rename_i d link
    obtain ⟨n, here, moved⟩ := exists_of_deref moved fault
    split at moved
    · cases moved
      exact .next link here ‹_›
    · rename_i marked
      rw [Bool.not_eq_false] at marked
      cases p with
      | none =>
          cases moved
          cases link
          exact .unlinkFirst here marked
      | some a =>
          obtain ⟨m, -, moved⟩ := exists_of_deref moved fault
          cases moved
          exact .unlinkNext link here marked
  · cases moved
    cases fault

/-- **Every step of a call follows an edge.** -/
theorem flow_of_advance (moved : advance s f = some (s', f')) (fault : s'.fault = false) :
    Flow s f.pc f'.pc := by
  unfold advance at moved
  cases here : f.pc with
  | lastId element => simp only [here, reduceCtorEq] at moved
  | done => simp only [here, reduceCtorEq] at moved
  | blockGc task =>
      simp only [here] at moved
      cases moved
      exact .announce task
  | awaitGc task =>
      simp only [here] at moved
      cases active : s.gcActive with
      | true =>
          simp only [active, if_true] at moved
          cases moved
          exact here ▸ .await active
      | false =>
          simp only [active, Bool.false_eq_true, if_false] at moved
          cases moved
          exact .enter active
  | loadHead task =>
      simp only [here, Option.some_inj] at moved
      exact flow_of_loadHead moved fault
  | exchangeHead a =>
      simp only [here, Option.some_inj] at moved
      exact flow_of_exchangeHead here moved fault
  | seek elementId c =>
      cases c with
      | none =>
          simp only [here] at moved
          cases moved
          exact .seekEnd elementId
      | some a =>
          simp only [here, Option.some_inj] at moved
          obtain ⟨n, there, moved⟩ := exists_of_deref moved fault
          cases moved
          simp only [Frame.goto]
          split
          · exact .seekNext there
          · exact .found elementId a
  | markDeleted a =>
      simp only [here, Option.some_inj] at moved
      obtain ⟨n, -, moved⟩ := exists_of_deref moved fault
      cases moved
      exact .mark a
  | visit c =>
      cases c with
      | none =>
          simp only [here] at moved
          cases moved
          exact .visitEnd
      | some a =>
          simp only [here, Option.some_inj] at moved
          obtain ⟨n, there, moved⟩ := exists_of_deref moved fault
          cases moved
          simp only [Frame.goto]
          split
          · exact .skip there
          · exact .test there (Bool.not_eq_true _ ▸ ‹_›)
  | call a =>
      simp only [here, Option.some_inj] at moved
      obtain ⟨n, -, moved⟩ := exists_of_deref moved fault
      cases moved
      exact .call a
  | calling a =>
      simp only [here, Option.some_inj] at moved
      obtain ⟨n, there, moved⟩ := exists_of_deref moved fault
      cases moved
      exact .back there
  | loadDeleted a =>
      simp only [here, Option.some_inj] at moved
      obtain ⟨n, -, moved⟩ := exists_of_deref moved fault
      cases moved
      exact .tell a
  | unblockGc collects =>
      simp only [here] at moved
      cases moved
      cases collects with
      | true => exact .collect
      | false => exact .leave
  | gcBlocked =>
      simp only [here] at moved
      cases moved
      simp only [Frame.goto]
      split
      · exact .blocked
      · exact .unblocked (Nat.eq_zero_of_not_pos ‹_›)
  | gcActive =>
      simp only [here] at moved
      cases moved
      simp only [Frame.goto]
      split
      · exact .taken
      · exact .claim
  | gcHead =>
      simp only [here] at moved
      cases moved
      exact .copy
  | gcFirst head =>
      simp only [here, Option.some_inj] at moved
      rcases pc_of_gcTest moved fault with there | there
      · exact there ▸ .begin head
      · exact there ▸ .nothing head
  | gcTest head p =>
      simp only [here, Option.some_inj] at moved
      rcases pc_of_gcTest moved fault with there | there
      · exact there ▸ .goOn head p
      · exact there ▸ .stop head p
  | gcNode head p =>
      simp only [here, Option.some_inj] at moved
      exact flow_of_gcNode moved fault
  | gcStore head =>
      simp only [here] at moved
      cases moved
      exact .store head
  | gcDone =>
      simp only [here] at moved
      cases moved
      exact .release

/-- The same of the steps that the scheduler has a say in. -/
theorem flow_of_move {τ : Type} {a : Action τ ω} (moved : move s f a = some (s', f'))
    (fault : s'.fault = false) : Flow s f.pc f'.pc := by
  cases a with
  | start u op => cases moved
  | run u => exact flow_of_advance moved fault
  | allocate u a =>
      cases here : f.pc with
      | lastId element =>
          simp only [move, here] at moved
          split at moved
          · cases moved
            exact .newNode element a
          · cases moved
      | _ => simp only [move, here, reduceCtorEq] at moved
  | spurious u =>
      cases here : f.pc with
      | exchangeHead a =>
          simp only [move, here, Option.some_inj] at moved
          exact flow_of_exchangeHead here moved fault
      | _ => simp only [move, here, reduceCtorEq] at moved
  | raise u =>
      cases here : f.pc with
      | calling a =>
          simp only [move, here] at moved
          cases moved
          exact .raise a
      | _ => simp only [move, here, reduceCtorEq] at moved

end Edges

end RadarDemo.Lockfree
