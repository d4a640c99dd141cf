import RadarDemo.Lockfree.Step

/-!
# No node is used after it is freed, and no access races

The collection deletes nodes while other threads walk over them, and while a
functor that was given an element is still running.  Two theorems say that this
is safe, for any number of threads and any nesting of calls.

* `no_fault` — no step dereferences a node that has been deleted, or deletes one
  twice.
* `race_free` — the node that a call writes with a plain access, or deletes, in
  its next step is touched by no other call: by none that another thread is in,
  and by none that has been interrupted by a call from its functor.  A new node is
  made where no call touches anything.

`Pc.touches` and `Pc.writes` are footprints of the steps: a step neither depends on
a node that it does not touch nor changes it (`move_setNode`), and it leaves the
plain fields of those that it does not write (`plain_of_move`).

The second theorem is also what the model rests on.  That one step may run all plain
accesses up to the next atomic one is justified by no other thread being able to
see them.
-/

namespace RadarDemo.Lockfree

open Concurrency Concurrency.Gate TransitionSystem

variable {ω : Type}

/-- The nodes that the next step of a call accesses, but for one that it makes.  A
functor that is running holds on to its element. -/
def Pc.touches (s : Shared ω) : Pc ω → List ℕ
  | .loadHead (.insert a) | .exchangeHead a => [a]
  | .seek _ c | .visit c => c.toList
  | .markDeleted a | .call a | .calling a | .loadDeleted a => [a]
  | .gcFirst _ => []
  | .gcTest _ p => p.toList
  | .gcNode head p => p.toList ++ (s.link head p).join.toList
  | _ => []

/-- Those among them that it writes with a plain access, or deletes. -/
def Pc.writes (s : Shared ω) : Pc ω → List ℕ
  | .loadHead (.insert a) | .exchangeHead a => [a]
  | .gcNode head p =>
      match (s.link head p).join with
      | none => []
      | some d =>
          match s.heap d with
          | some n => if n.deleted then d :: p.toList else []
          | none => []
  | _ => []

variable {s : Shared ω} {l : List ℕ} {pc : Pc ω} {a : ℕ}

/-- What is touched is an own node, or a listed one that a cursor leads to. -/
theorem PcOk.touches (ok : PcOk s l pc) (linked : Linked Node.next s.heap l)
    (touched : a ∈ pc.touches s) :
    pc.own = some a ∨ a ∈ l ∧ ∃ b, pc.cursor = some b := by
  have listed : pc.cursor = some a → pc.own = some a ∨ a ∈ l ∧ ∃ b, pc.cursor = some b :=
    fun points => Or.inr ⟨ok.cursor a points, a, points⟩
  cases pc with
  | loadHead task =>
      cases task with
      | insert b => exact Or.inl (congrArg some (List.mem_singleton.mp touched).symm)
      | _ => exact absurd touched List.not_mem_nil
  | exchangeHead b => exact Or.inl (congrArg some (List.mem_singleton.mp touched).symm)
  | seek elementId c => exact listed (Option.mem_toList.mp touched)
  | visit c => exact listed (Option.mem_toList.mp touched)
  | markDeleted b => exact listed (congrArg some (List.mem_singleton.mp touched).symm)
  | call b => exact listed (congrArg some (List.mem_singleton.mp touched).symm)
  | calling b => exact listed (congrArg some (List.mem_singleton.mp touched).symm)
  | loadDeleted b => exact listed (congrArg some (List.mem_singleton.mp touched).symm)
  | gcTest head p =>
      obtain rfl := Option.mem_toList.mp touched
      exact listed rfl
  | gcNode head p =>
      rcases List.mem_append.mp touched with own | behind
      · obtain rfl := Option.mem_toList.mp own
        exact listed rfl
      · obtain ⟨d, link⟩ := ok.node head p rfl
        rw [link] at behind
        obtain rfl : a = d := by simpa using behind
        cases p with
        | none => exact listed (Option.some_inj.mp link)
        | some b =>
            rw [Shared.link, Option.map_eq_some_iff] at link
            obtain ⟨n, here, points⟩ := link
            exact Or.inr ⟨linked.next_mem (ok.cursor b rfl) here points, b, rfl⟩
  | _ => exact absurd touched List.not_mem_nil

/-- What is written is touched, and belongs to the call or to a collector that is
alone. -/
theorem Pc.writes_touched (written : a ∈ pc.writes s) :
    a ∈ pc.touches s ∧ (pc.own = some a ∨ pc.role = .sole) := by
  cases pc with
  | loadHead task =>
      cases task with
      | insert b => exact ⟨written, Or.inl (congrArg some (List.mem_singleton.mp written).symm)⟩
      | _ => exact absurd written List.not_mem_nil
  | exchangeHead b => exact ⟨written, Or.inl (congrArg some (List.mem_singleton.mp written).symm)⟩
  | gcNode head p =>
      refine ⟨?_, Or.inr rfl⟩
      simp only [Pc.writes] at written
      split at written
      · cases written
      · rename_i d link
        split at written
        · split at written
          · rw [Pc.touches, link, List.mem_append, Option.mem_toList]
            rcases List.mem_cons.mp written with rfl | member
            · exact Or.inr (by simp)
            · exact Or.inl (Option.mem_toList.mp member)
          · cases written
        · cases written
  | _ => exact absurd written List.not_mem_nil

/-! ## The footprint of a step -/

/-- Another node, or none, at an address. -/
def Shared.setNode (s : Shared ω) (b : ℕ) (o : Option (Node ω)) : Shared ω :=
  { s with heap := Function.update s.heap b o }

section Footprint

variable {f f' : Frame ω} {s' : Shared ω} {b : ℕ} {o : Option (Node ω)}

/-- What a step makes of the shared state, with another node at an address. -/
def onNode (b : ℕ) (o : Option (Node ω)) (x : Shared ω × Frame ω) : Shared ω × Frame ω :=
  (x.1.setNode b o, x.2)

theorem setNode_heap_of_ne (apart : a ≠ b) : (s.setNode b o).heap a = s.heap a :=
  Function.update_of_ne apart ..

theorem setNode_write (n : Node ω) (apart : a ≠ b) :
    (s.setNode b o).write a n = (s.write a n).setNode b o := by
  simp only [Shared.setNode, Shared.write, Function.update_comm apart]

theorem setNode_free (apart : a ≠ b) : (s.setNode b o).free a = (s.free a).setNode b o := by
  simp only [Shared.setNode, Shared.free, Function.update_comm apart]

theorem deref_setNode {k k' : Node ω → Shared ω × Frame ω} (apart : a ≠ b)
    (same : ∀ n, k' n = onNode b o (k n)) :
    deref (s.setNode b o) f a k' = onNode b o (deref s f a k) := by
  unfold deref
  rw [setNode_heap_of_ne apart]
  split
  · exact same _
  · rfl

theorem link_setNode {head p : Option ℕ} (apart : b ∉ p.toList) :
    (s.setNode b o).link head p = s.link head p := by
  cases p with
  | none => rfl
  | some a =>
      have differs : a ≠ b := by rintro rfl; exact apart (by simp)
      rw [Shared.link, Shared.link, setNode_heap_of_ne differs]

theorem loadHead_setNode {task : Task} (apart : b ∉ (Pc.loadHead task : Pc ω).touches s) :
    loadHead (s.setNode b o) f task = onNode b o (loadHead s f task) := by
  cases task with
  | insert a =>
      have differs : a ≠ b := by rintro rfl; exact apart (List.mem_singleton.mpr rfl)
      exact deref_setNode differs fun n => Prod.ext (setNode_write _ differs) rfl
  | remove elementId => rfl
  | apply => rfl
  | empty =>
      have same : (s.setNode b o).head = s.head := rfl
      simp only [loadHead, same]
      cases s.head <;> rfl

theorem exchangeHead_setNode (spurious : Bool) (apart : a ≠ b) :
    exchangeHead (s.setNode b o) f a spurious = onNode b o (exchangeHead s f a spurious) := by
  refine deref_setNode apart fun n => ?_
  show (if n.next = s.head ∧ spurious = false then _ else _) = _
  split
  · rfl
  · exact Prod.ext (setNode_write _ apart) rfl

theorem gcTest_setNode {head p : Option ℕ} (apart : b ∉ p.toList) :
    gcTest (s.setNode b o) f head p = onNode b o (gcTest s f head p) := by
  unfold gcTest
  rw [link_setNode apart]
  split <;> rfl

theorem gcNode_setNode {head p : Option ℕ} (apart : b ∉ (Pc.gcNode head p : Pc ω).touches s) :
    gcNode (s.setNode b o) f head p = onNode b o (gcNode s f head p) := by
  simp only [Pc.touches, List.mem_append, not_or] at apart
  obtain ⟨notBefore, notNode⟩ := apart
  unfold gcNode
  rw [link_setNode notBefore]
  split
  · rename_i d link
    have differs : d ≠ b := by rintro rfl; exact notNode (by simp [link])
    refine deref_setNode differs fun n => ?_
    split
    · rfl
    · cases p with
      | none => exact Prod.ext (setNode_free differs) rfl
      | some a =>
          have differs' : a ≠ b := by rintro rfl; exact notBefore (by simp)
          refine deref_setNode differs' fun m => Prod.ext ?_ rfl
          show ((s.setNode b o).write a _).free d = _
          rw [setNode_write _ differs', setNode_free differs]
          rfl
  · rfl

theorem markDeleted_setNode (apart : a ≠ b) :
    markDeleted (s.setNode b o) f a = onNode b o (markDeleted s f a) := by
  refine deref_setNode apart fun n => Prod.ext ?_ rfl
  show ({ (s.setNode b o).write a _ with retired := _ } : Shared ω) = _
  rw [setNode_write _ apart]
  rfl

/-- **A step of a call does not depend on a node that it does not touch**, and leaves
it as it is. -/
theorem advance_setNode (untouched : b ∉ f.pc.touches s) :
    advance (s.setNode b o) f = (advance s f).map (onNode b o) := by
  -- What a single node is touched by is another one.
  have apart : ∀ {a}, f.pc.touches s = [a] → a ≠ b := by
    rintro a touches rfl
    exact untouched (touches ▸ List.mem_singleton.mpr rfl)
  unfold advance
  cases here : f.pc with
  | loadHead task => exact congrArg some (loadHead_setNode (here ▸ untouched))
  | exchangeHead a => exact congrArg some (exchangeHead_setNode false (apart (by rw [here]; rfl)))
  | markDeleted a => exact congrArg some (markDeleted_setNode (apart (by rw [here]; rfl)))
  | gcFirst head => exact congrArg some (gcTest_setNode List.not_mem_nil)
  | gcTest head p => exact congrArg some (gcTest_setNode (by rwa [here] at untouched))
  | gcNode head p => exact congrArg some (gcNode_setNode (here ▸ untouched))
  | seek elementId c =>
      cases c with
      | none => rfl
      | some a => exact congrArg some (deref_setNode (apart (by rw [here]; rfl)) fun n => rfl)
  | visit c =>
      cases c with
      | none => rfl
      | some a => exact congrArg some (deref_setNode (apart (by rw [here]; rfl)) fun n => rfl)
  | call a => exact congrArg some (deref_setNode (apart (by rw [here]; rfl)) fun n => rfl)
  | calling a => exact congrArg some (deref_setNode (apart (by rw [here]; rfl)) fun n => rfl)
  | loadDeleted a => exact congrArg some (deref_setNode (apart (by rw [here]; rfl)) fun n => rfl)
  | _ => rfl

/-- The same of the steps that the scheduler has a say in. -/
theorem move_setNode {τ : Type} {act : Action τ ω} (untouched : b ∉ f.pc.touches s)
    (notNew : ∀ u, act ≠ .allocate u b) :
    move (s.setNode b o) f act = (move s f act).map (onNode b o) := by
  cases act with
  | start u op => rfl
  | run u => exact advance_setNode untouched
  | allocate u a =>
      have apart : a ≠ b := by rintro rfl; exact notNew u rfl
      simp only [move]
      cases f.pc with
      | lastId element =>
          simp only [setNode_heap_of_ne apart]
          split
          · refine congrArg some (Prod.ext ?_ rfl)
            exact setNode_write (s := { s with lastId := s.lastId + 1 }) _ apart
          · rfl
      | _ => rfl
  | spurious u =>
      simp only [move]
      cases here : f.pc with
      | exchangeHead a =>
          refine congrArg some (exchangeHead_setNode true ?_)
          rintro rfl
          exact untouched (by rw [here]; exact List.mem_singleton.mpr rfl)
      | _ => rfl
  | raise u =>
      simp only [move]
      cases f.pc <;> rfl

/-- What is not touched stays as it is. -/
theorem heap_of_move {τ : Type} {act : Action τ ω} (untouched : b ∉ f.pc.touches s)
    (notNew : ∀ u, act ≠ .allocate u b) (moved : move s f act = some (s', f')) :
    s'.heap b = s.heap b := by
  have same : s.setNode b (s.heap b) = s := by
    rw [Shared.setNode, Function.update_eq_self]
  have frame := move_setNode (o := s.heap b) untouched notNew
  rw [same, moved, Option.map_some, Option.some_inj] at frame
  rw [show s' = s'.setNode b (s.heap b) from congrArg Prod.fst frame]
  exact Function.update_self ..

/-- The fields of a node that are accessed without an atomic. -/
def Node.plain (n : Node ω) : Option ℕ × ω × ℕ := (n.next, n.element, n.nodeId)

theorem deref_heap {k : Node ω → Shared ω × Frame ω} (each : ∀ n, (k n).1.heap = s.heap) :
    (deref s f a k).1.heap = s.heap := by
  unfold deref
  split
  · exact each _
  · rfl

/-- A collector that writes nothing leaves the heap as it is. -/
theorem gcNode_heap {head p : Option ℕ} (touched : b ∈ (Pc.gcNode head p : Pc ω).touches s)
    (notWritten : b ∉ (Pc.gcNode head p : Pc ω).writes s) :
    (gcNode s f head p).1.heap = s.heap := by
  have unmarked : ∀ d n, s.link head p = some (some d) → s.heap d = some n →
      n.deleted = false := by
    intro d n link here
    by_contra marked
    rw [Bool.not_eq_false] at marked
    simp only [Pc.touches, Pc.writes, link, here, Option.join_some, marked, if_true,
      List.mem_append, List.mem_cons, Option.mem_toList, Option.some_inj, not_or]
      at touched notWritten
    exact touched.elim notWritten.2 fun is => notWritten.1 is.symm
  unfold gcNode
  split
  · rename_i d link
    cases here : s.heap d with
    | none => rw [deref, here]; rfl
    | some n => rw [deref_of_some here, if_pos (unmarked d n link here)]
  · rfl

/-- **A step leaves the plain fields of a node that it does not write.** -/
theorem plain_of_move {τ : Type} {act : Action τ ω} (notWritten : b ∉ f.pc.writes s)
    (notNew : ∀ u, act ≠ .allocate u b) (moved : move s f act = some (s', f')) :
    (s'.heap b).map Node.plain = (s.heap b).map Node.plain := by
  by_cases touched : b ∈ f.pc.touches s
  swap
  · rw [heap_of_move touched notNew moved]
  have of : ∀ {x : Shared ω × Frame ω}, x.1.heap = s.heap → x = (s', f') →
      (s'.heap b).map Node.plain = (s.heap b).map Node.plain := by
    intro x same is
    rw [is] at same
    rw [same]
  cases act with
  | start u op => cases moved
  | allocate u a =>
      cases here : f.pc with
      | lastId element => rw [here] at touched; exact absurd touched List.not_mem_nil
      | _ => simp only [move, here, reduceCtorEq] at moved
  | spurious u =>
      cases here : f.pc with
      | exchangeHead a => rw [here] at touched notWritten; exact absurd touched notWritten
      | _ => simp only [move, here, reduceCtorEq] at moved
  | raise u =>
      cases here : f.pc with
      | calling a =>
          simp only [move, here, Option.some_inj] at moved
          exact of rfl moved
      | _ => simp only [move, here, reduceCtorEq] at moved
  | run u =>
      simp only [move] at moved
      unfold advance at moved
      cases here : f.pc with
      | loadHead task =>
          rw [here] at touched notWritten
          cases task <;> exact absurd touched notWritten
      | exchangeHead a => rw [here] at touched notWritten; exact absurd touched notWritten
      | gcNode head p =>
          simp only [here, Option.some_inj] at moved
          exact of (gcNode_heap (here ▸ touched) (here ▸ notWritten)) moved
      | markDeleted a =>
          simp only [here, Option.some_inj] at moved
          rw [here] at touched
          obtain rfl := List.mem_singleton.mp touched
          cases there : s.heap b with
          | none =>
              rw [markDeleted, deref, there] at moved
              rw [← there]
              exact of rfl moved
          | some n =>
              rw [markDeleted, deref_of_some there] at moved
              cases moved
              show (Function.update s.heap b _ b).map Node.plain = _
              rw [Function.update_self]
              rfl
      | seek elementId c =>
          cases c <;> simp only [here, Option.some_inj] at moved
          · exact of rfl moved
          · exact of (deref_heap fun n => rfl) moved
      | visit c =>
          cases c <;> simp only [here, Option.some_inj] at moved
          · exact of rfl moved
          · exact of (deref_heap fun n => rfl) moved
      | call a =>
          simp only [here, Option.some_inj] at moved
          exact of (deref_heap fun n => rfl) moved
      | calling a =>
          simp only [here, Option.some_inj] at moved
          exact of (deref_heap fun n => rfl) moved
      | loadDeleted a =>
          simp only [here, Option.some_inj] at moved
          exact of (deref_heap fun n => rfl) moved
      | gcTest head p =>
          simp only [here, Option.some_inj] at moved
          exact of (by unfold gcTest; split <;> rfl) moved
      | _ => rw [here] at touched; exact absurd touched List.not_mem_nil

end Footprint

variable {τ : Type} [DecidableEq τ] [Fintype τ]

/-- **No step uses a node that has been freed.**  Nothing is dereferenced after
its `delete`, and nothing deleted twice, however the threads interleave. -/
theorem no_fault (as : List (Action τ ω)) :
    (collection τ ω).Along (fun _ _ s' => s'.shared.fault = false) (collection τ ω).init as := by
  refine along_of_reachable (fun reached => ?_) as
  obtain ⟨l, sound⟩ := sound_of_reachable reached
  exact sound.fault

/-- What a running call is about to write or to delete, no other call touches; and
where the allocator may make a new node, none does. -/
structure RaceFree (s : State τ ω) : Prop where
  apart : ∀ t f rest g, s.threads t = f :: rest → Crew.Other s.threads t rest g →
    ∀ a ∈ f.pc.writes s.shared, a ∉ g.pc.touches s.shared
  fresh : ∀ a, s.shared.heap a = none → ∀ t, ∀ f ∈ s.threads t, a ∉ f.pc.touches s.shared

theorem Sound.raceFree {s : State τ ω} {l : List ℕ} (sound : Sound s l) : RaceFree s := by
  refine ⟨fun t f rest g running other a written touched => ?_,
    fun a free t f member touched => ?_⟩
  swap
  · obtain ⟨unowned, notMem⟩ := sound.fresh free
    rcases (sound.frames t f member).touches sound.linked touched with own | ⟨listed, -⟩
    · exact unowned t f member own
    · exact notMem listed
  obtain ⟨u, present⟩ := other.exists_mem running
  have member : f ∈ s.threads t := running ▸ List.mem_cons_self
  obtain ⟨touched', owns⟩ := Pc.writes_touched written
  -- Both own the node, or both have it from the list, or it is owned and listed.
  rcases (sound.frames u g present).touches sound.linked touched with own | ⟨listed, b, points⟩
  · rcases (sound.frames t f member).touches sound.linked touched' with own' | ⟨listed, -⟩
    · exact sound.own_ne running other own' own
    · exact sound.own_ne_of_mem present listed own
  · rcases owns with own | alone
    · exact sound.own_ne_of_mem member listed own
    · rw [(sound.apart running other alone).2] at points
      cases points

/-- **Plain accesses do not race**, in any state that a schedule leads to. -/
theorem race_free (as : List (Action τ ω)) :
    (collection τ ω).Along (fun _ _ s' => RaceFree s') (collection τ ω).init as := by
  refine along_of_reachable (fun reached => ?_) as
  obtain ⟨l, sound⟩ := sound_of_reachable reached
  exact sound.raceFree

end RadarDemo.Lockfree
