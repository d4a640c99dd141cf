import Mathlib.Data.List.Basic

/-!
# The observable value

`include/third_party/observable`, as far as the demo runs it: a collection of
observers keyed by an id, the subject that owns one, the two subscription types
that differ only in what their destruction does, and `value<T>`, which notifies
its observers when an assignment changes what it stores.

Two of its properties carry the heartbeat.

* `Value.setImpl` swallows an assignment of the value already stored
  (`Value.setImpl_notified`), so a heartbeat is heard only because the producer
  toggles what it assigns.
* `subscribe` returns an `infinite_subscription`, whose destruction leaves the
  observer in place (`Subject.subscribe_notify`); had it returned a
  `unique_subscription`, discarding the result would have unsubscribed again
  (`Subject.unique_destroy_subscribe`).

The collection's nodes are reclaimed by its garbage collector; the model runs
`gc` where the source does, after `insert` and `remove`.
-/

namespace RadarDemo

namespace Observable

/-- A node of `detail::collection`: an element, its id and its tombstone. -/
structure Node (ω : Type) where
  nodeId : ℕ
  element : ω
  deleted : Bool
  deriving DecidableEq, Repr

/-- `detail::collection<ω>`: the id handed out last, and the list of nodes. -/
structure Collection (ω : Type) where
  lastId : ℕ
  nodes : List (Node ω)
  deriving DecidableEq, Repr

namespace Collection

variable {ω : Type}

/-- A collection without elements. -/
def empty : Collection ω := ⟨0, []⟩

/-- Delete the nodes that are marked. -/
def gc (c : Collection ω) : Collection ω :=
  { c with nodes := c.nodes.filter fun n => !n.deleted }

/-- Push a node with a new id at the head; the id is returned. -/
def insert (c : Collection ω) (element : ω) : Collection ω × ℕ :=
  let i := c.lastId + 1
  (gc { lastId := i, nodes := ⟨i, element, false⟩ :: c.nodes }, i)

/-- Mark the first node that carries the id, and report whether it was unmarked. -/
def markDeleted (elementId : ℕ) : List (Node ω) → List (Node ω) × Bool
  | [] => ([], false)
  | n :: ns =>
      if n.nodeId ≠ elementId then
        let (ns', deleted) := markDeleted elementId ns
        (n :: ns', deleted)
      else ({ n with deleted := true } :: ns, !n.deleted)

/-- Remove the element inserted under an id. -/
def remove (c : Collection ω) (elementId : ℕ) : Collection ω × Bool :=
  let (nodes, deleted) := markDeleted elementId c.nodes
  (gc { c with nodes := nodes }, deleted)

/-- The elements that `apply` hands to its functor, in order. -/
def apply (c : Collection ω) : List ω :=
  c.nodes.filterMap fun n => if n.deleted then none else some n.element

/-- Collecting the marked nodes does not change what is applied. -/
@[simp] theorem apply_gc (c : Collection ω) : c.gc.apply = c.apply := by
  unfold apply gc
  rw [List.filterMap_filter]
  refine List.filterMap_congr fun n _ => ?_
  cases n.deleted <;> rfl

@[simp] theorem apply_insert (c : Collection ω) (element : ω) :
    (c.insert element).1.apply = element :: c.apply := by
  show (gc _).apply = _
  rw [apply_gc]
  rfl

/-- The first node with the id is the one that gets marked. -/
theorem markDeleted_head (n : Node ω) (ns : List (Node ω)) :
    (markDeleted n.nodeId (n :: ns)).1 = { n with deleted := true } :: ns := by
  simp [markDeleted]

/-- Removing under the id that `insert` returned takes the insertion back. -/
theorem apply_remove_insert (c : Collection ω) (element : ω) :
    ((c.insert element).1.remove (c.insert element).2).1.apply = c.apply := by
  have marked := markDeleted_head ⟨c.lastId + 1, element, false⟩ c.gc.nodes
  show (gc ⟨c.lastId + 1, (markDeleted (c.lastId + 1)
    (⟨c.lastId + 1, element, false⟩ :: c.gc.nodes)).1⟩).apply = c.apply
  rw [marked, apply_gc, ← apply_gc c]
  rfl

end Collection

/-- `subject<void(Args ...)>`: the observers subscribed to one event. -/
structure Subject (ω : Type) where
  observers : Collection ω
  deriving DecidableEq, Repr

/-- `infinite_subscription`: the id its functor removes, unless it was released,
and the flag that makes `unsubscribe` act once. -/
structure InfiniteSubscription where
  elementId : Option ℕ
  called : Bool
  deriving DecidableEq, Repr

namespace Subject

variable {ω : Type}

/-- A subject without observers. -/
def empty : Subject ω := ⟨Collection.empty⟩

/-- Subscribe an observer; the subscription can be used to take it back. -/
def subscribe (s : Subject ω) (observer : ω) : Subject ω × InfiniteSubscription :=
  let (observers, i) := s.observers.insert observer
  (⟨observers⟩, ⟨some i, false⟩)

/-- The observers that one notification calls. -/
def notify (s : Subject ω) : List ω := s.observers.apply

/-- `infinite_subscription::unsubscribe`. -/
def unsubscribe (s : Subject ω) (sub : InfiniteSubscription) : Subject ω :=
  match sub.called, sub.elementId with
  | false, some i => ⟨(s.observers.remove i).1⟩
  | _, _ => s

/-- An `infinite_subscription` has no destructor of its own: the functor it
holds is dropped without being called. -/
def destroyInfinite (s : Subject ω) (_ : InfiniteSubscription) : Subject ω := s

/-- `~unique_subscription` unsubscribes. -/
def destroyUnique (s : Subject ω) (sub : InfiniteSubscription) : Subject ω :=
  s.unsubscribe sub

/-- **A discarded subscription stays subscribed.** -/
@[simp] theorem subscribe_notify (s : Subject ω) (observer : ω) :
    ((s.subscribe observer).1.destroyInfinite (s.subscribe observer).2).notify =
      observer :: s.notify :=
  Collection.apply_insert s.observers observer

/-- **It stays only because it is infinite.**  A unique subscription that is
discarded takes the observer with it. -/
theorem unique_destroy_subscribe (s : Subject ω) (observer : ω) :
    ((s.subscribe observer).1.destroyUnique (s.subscribe observer).2).notify = s.notify :=
  Collection.apply_remove_insert s.observers observer

end Subject

/-- `readonly_value`, thrown by `set` on a value that an updater drives. -/
inductive SetError
  | readonlyValue
  deriving DecidableEq, Repr

/-- `value<α>`: the stored value, its observers of either kind, and whether an
updater is associated with it. -/
structure Value (α ω : Type) where
  value : α
  voidObservers : Subject ω
  valueObservers : Subject ω
  hasUpdater : Bool
  deriving DecidableEq, Repr

namespace Value

variable {α ω : Type}

/-- An initialized observable value. -/
def ofInitial (initialValue : α) : Value α ω := ⟨initialValue, Subject.empty, Subject.empty, false⟩

/-- Subscribe an observer that takes the new value; the caller gets the
subscription. -/
def subscribe (v : Value α ω) (observer : ω) : Value α ω × InfiniteSubscription :=
  let (observers, sub) := v.valueObservers.subscribe observer
  ({ v with valueObservers := observers }, sub)

/-- `~infinite_subscription` on a subscription to this value. -/
def discard (v : Value α ω) (sub : InfiniteSubscription) : Value α ω :=
  { v with valueObservers := v.valueObservers.destroyInfinite sub }

/-- The observers called when the value changes, the void ones first. -/
def notify (v : Value α ω) : List ω := v.voidObservers.notify ++ v.valueObservers.notify

variable [DecidableEq α]

/-- `set_impl`: the value after the assignment, and the observers it calls. -/
def setImpl (v : Value α ω) (newValue : α) : Value α ω × List ω :=
  if v.value = newValue then (v, [])
  else
    let v' := { v with value := newValue }
    (v', v'.notify)

/-- `set`, which `operator=` calls. -/
def set (v : Value α ω) (newValue : α) : Except SetError (Value α ω × List ω) :=
  if v.hasUpdater then .error .readonlyValue else .ok (v.setImpl newValue)

/-- Whatever was stored, the new value is. -/
@[simp] theorem setImpl_value (v : Value α ω) (newValue : α) :
    (v.setImpl newValue).1.value = newValue := by
  unfold setImpl
  split
  · assumption
  · rfl

/-- An assignment neither adds nor removes observers. -/
@[simp] theorem setImpl_notify (v : Value α ω) (newValue : α) :
    (v.setImpl newValue).1.notify = v.notify := by
  unfold setImpl
  split <;> rfl

@[simp] theorem setImpl_hasUpdater (v : Value α ω) (newValue : α) :
    (v.setImpl newValue).1.hasUpdater = v.hasUpdater := by
  unfold setImpl
  split <;> rfl

/-- **An assignment is heard exactly if it changes the value.** -/
theorem setImpl_notified (v : Value α ω) (newValue : α) :
    (v.setImpl newValue).2 = if v.value = newValue then [] else v.notify := by
  unfold setImpl
  split <;> rfl

omit [DecidableEq α] in
/-- Subscribing and discarding the subscription adds the observer. -/
@[simp] theorem notify_subscribe (v : Value α ω) (observer : ω)
    (silent : v.notify = []) :
    ((v.subscribe observer).1.discard (v.subscribe observer).2).notify = [observer] := by
  obtain ⟨noVoid, noValue⟩ := List.append_eq_nil_iff.mp silent
  have added := Subject.subscribe_notify v.valueObservers observer
  rw [noValue] at added
  show v.voidObservers.notify ++ ((v.valueObservers.subscribe observer).1.destroyInfinite
    (v.valueObservers.subscribe observer).2).notify = [observer]
  rw [added, noVoid, List.nil_append]

end Value

end Observable

end RadarDemo
