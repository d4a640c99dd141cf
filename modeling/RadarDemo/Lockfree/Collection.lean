import RadarDemo.Concurrency.Transition
import RadarDemo.Concurrency.Gate
import RadarDemo.Concurrency.Linked

/-!
# The collection of observers, access by access

`include/third_party/observable/detail/collection.hpp` under any interleaving of
any number of threads, with `insert` and `remove` called from inside the functor
of `apply` as well.

A thread is a stack of calls.  A call is a `Frame`: a program counter with the
locals that are alive there.  One step runs the code from one access to a shared
atomic up to the next, with the plain accesses in between; what those touch is
private to the thread or protected by the gate, which
`Lockfree.Safety` has to show.  The atomics are all accessed with the default,
sequentially consistent order, so that an interleaving of their accesses is what
the program does.

* Nodes live in a heap.  An address may be handed out again once it is freed.
* A dereference of an address that is not allocated, a second `delete` included,
  sets `fault`.
* `compare_exchange_weak` may fail although it finds what it expects.
* The functor of `apply` may call any operation, return, or throw.

Some fields are history: no step depends on them.  `published` has the entries,
ids with elements, in the order in which they entered the list, and `retired` the
ids in the order in which their nodes were marked, both newest first.  Of a call,
`offered` are the entries that were live when it read the head, `called` those
whose elements it has handed to its functor, `gone` the ids that were retired when
it looked at the mark that its answer depends on, and `top` the id of the node at
which `empty` looked.  `returned` are the calls that have returned.

`~collection()` is left out: it may not run while another method does.
-/

namespace RadarDemo.Lockfree

open Concurrency

/-- `collection::node`. -/
structure Node (ω : Type) where
  next : Option ℕ
  element : ω
  deleted : Bool
  nodeId : ℕ
  deriving DecidableEq, Repr

/-- What a node stores for the users of the collection. -/
def Node.entry {ω : Type} (n : Node ω) : ℕ × ω := (n.nodeId, n.element)

@[simp] theorem Node.entry_fst {ω : Type} (n : Node ω) : n.entry.1 = n.nodeId := rfl

/-- What the threads share: the heap and the atomics of the collection.  The
source counts `block_gc_` and `last_id_` in `std::size_t`; here they do not wrap
around. -/
structure Shared (ω : Type) where
  heap : ℕ → Option (Node ω)
  head : Option ℕ
  blockGc : ℕ
  gcActive : Bool
  lastId : ℕ
  published : List (ℕ × ω)
  retired : List ℕ
  fault : Bool

/-- The methods of the collection. -/
inductive Op (ω : Type)
  | insert (element : ω)
  | remove (elementId : ℕ)
  | apply
  | empty
  deriving DecidableEq, Repr

/-- What a call does inside its `gc_blocker`. -/
inductive Task
  | insert (n : ℕ)
  | remove (elementId : ℕ)
  | apply
  | empty
  deriving DecidableEq, Repr

/-- The next access of a call, with the locals it will use. -/
inductive Pc (ω : Type)
  /-- `++last_id_`, and the new node -/
  | lastId (element : ω)
  /-- `++block_gc_` -/
  | blockGc (task : Task)
  /-- `while(gc_active_.load())` -/
  | awaitGc (task : Task)
  /-- `head_.load()` inside the `gc_blocker` -/
  | loadHead (task : Task)
  /-- `head_.compare_exchange_weak(n->next, n)` -/
  | exchangeHead (n : ℕ)
  /-- the turn of `remove`'s loop at `n` -/
  | seek (elementId : ℕ) (n : Option ℕ)
  /-- `n->deleted.exchange(true)` -/
  | markDeleted (n : ℕ)
  /-- the turn of `apply`'s loop at `n`, up to `n->deleted.load()` -/
  | visit (n : Option ℕ)
  /-- `fun(n->element)` is about to be called -/
  | call (n : ℕ)
  /-- `fun` is running -/
  | calling (n : ℕ)
  /-- `h->deleted`, in `empty` -/
  | loadDeleted (n : ℕ)
  /-- `--block_gc_`; `insert` and `remove` collect afterwards -/
  | unblockGc (collects : Bool)
  /-- `block_gc_.load() > 0` -/
  | gcBlocked
  /-- `gc_active_.exchange(true)` -/
  | gcActive
  /-- `head_.load()` in `gc` -/
  | gcHead
  /-- the loop's condition, for the first time -/
  | gcFirst (head : Option ℕ)
  /-- the loop's condition at the link `p`: the local `head`, or a node's `next` -/
  | gcTest (head p : Option ℕ)
  /-- the loop's body at the link `p` -/
  | gcNode (head p : Option ℕ)
  /-- `head_.store(*p)` -/
  | gcStore (head : Option ℕ)
  /-- `gc_active_.store(false)` -/
  | gcDone
  /-- the call is about to return -/
  | done
  deriving DecidableEq, Repr

/-- What a call returns. -/
inductive Result
  | inserted (i : ℕ)
  | removed (deleted : Bool)
  | applied
  | thrown
  | emptiness (isEmpty : Bool)
  deriving DecidableEq, Repr

/-- A call in progress: its arguments, where it is, and what it will return. -/
structure Frame (ω : Type) where
  op : Op ω
  pc : Pc ω
  result : Result
  offered : List (ℕ × ω)
  called : List (ℕ × ω)
  gone : List ℕ
  top : Option ℕ
  deriving DecidableEq, Repr

variable {ω : Type}

/-! ## Accesses to the shared state -/

namespace Shared

/-- Without elements: `collection() = default`. -/
def empty : Shared ω :=
  { heap := fun _ => none, head := none, blockGc := 0, gcActive := false, lastId := 0,
    published := [], retired := [], fault := false }

/-- The ids that have entered the list. -/
def ids (s : Shared ω) : List ℕ := s.published.map Prod.fst

theorem mem_ids {s : Shared ω} {e : ℕ × ω} (known : e ∈ s.published) : e.1 ∈ s.ids :=
  List.mem_map_of_mem known

/-- The entries that have entered the list and have not been removed. -/
def live (s : Shared ω) : List (ℕ × ω) := s.published.filter fun e => e.1 ∉ s.retired

/-- Undefined behaviour. -/
def fail (s : Shared ω) : Shared ω := { s with fault := true }

def write (s : Shared ω) (a : ℕ) (n : Node ω) : Shared ω :=
  { s with heap := Function.update s.heap a (some n) }

/-- `delete` -/
def free (s : Shared ω) (a : ℕ) : Shared ω :=
  { s with heap := Function.update s.heap a none }

@[simp] theorem write_heap (s : Shared ω) (a : ℕ) (n : Node ω) :
    (s.write a n).heap = Function.update s.heap a (some n) := rfl

@[simp] theorem free_heap (s : Shared ω) (a : ℕ) :
    (s.free a).heap = Function.update s.heap a none := rfl

/-- The value of `*p`, for `p` the address of the local `head` or of the `next`
of a node; there is none if that node has been freed. -/
def link (s : Shared ω) (head : Option ℕ) : Option ℕ → Option (Option ℕ)
  | none => some head
  | some a => (s.heap a).map Node.next

end Shared

namespace Frame

/-- The frame of a new call. -/
def start (op : Op ω) : Frame ω :=
  match op with
  | .insert element => ⟨op, .lastId element, .inserted 0, [], [], [], none⟩
  | .remove elementId => ⟨op, .blockGc (.remove elementId), .removed false, [], [], [], none⟩
  | .apply => ⟨op, .blockGc .apply, .applied, [], [], [], none⟩
  | .empty => ⟨op, .blockGc .empty, .emptiness true, [], [], [], none⟩

/-- Continue elsewhere. -/
def goto (f : Frame ω) (pc : Pc ω) : Frame ω := { f with pc := pc }

/-- The call is over. -/
def returns (f : Frame ω) : Bool :=
  match f.pc with
  | .done => true
  | _ => false

end Frame

/-- Go on with the node at an address, if there is one. -/
def deref (s : Shared ω) (f : Frame ω) (a : ℕ) (k : Node ω → Shared ω × Frame ω) :
    Shared ω × Frame ω :=
  match s.heap a with
  | some n => k n
  | none => (s.fail, f)

/-! ## The steps of a call -/

/-- `auto const i = ++last_id_;` and the node that is made for it, at an address
the allocator picks. -/
def newNode (s : Shared ω) (f : Frame ω) (element : ω) (a : ℕ) : Shared ω × Frame ω :=
  let i := s.lastId + 1
  (({ s with lastId := i } : Shared ω).write a ⟨none, element, false, i⟩,
    { f with pc := .blockGc (.insert a), result := .inserted i })

/-- `head_.load()`, the first access inside the `gc_blocker`. -/
def loadHead (s : Shared ω) (f : Frame ω) : Task → Shared ω × Frame ω
  | .insert a => deref s f a fun n =>
      (s.write a { n with next := s.head }, f.goto (.exchangeHead a))
  | .remove elementId => (s, { f with pc := .seek elementId s.head, offered := s.live })
  | .apply => (s, { f with pc := .visit s.head, offered := s.live })
  | .empty =>
      match s.head with
      | none => (s, { f with pc := .unblockGc false, result := .emptiness true, offered := s.live })
      | some h => (s, { f with pc := .loadDeleted h, offered := s.live })

/-- `head_.compare_exchange_weak(n->next, n)`; a spurious failure is possible
wherever a success is. -/
def exchangeHead (s : Shared ω) (f : Frame ω) (a : ℕ) (spurious : Bool) : Shared ω × Frame ω :=
  deref s f a fun n =>
    if n.next = s.head ∧ spurious = false then
      ({ s with head := some a, published := n.entry :: s.published }, f.goto (.unblockGc true))
    else (s.write a { n with next := s.head }, f)

/-- `deleted = !n->deleted.exchange(true)` -/
def markDeleted (s : Shared ω) (f : Frame ω) (a : ℕ) : Shared ω × Frame ω :=
  deref s f a fun n =>
    ({ s.write a { n with deleted := true } with
        retired := if n.deleted then s.retired else n.nodeId :: s.retired },
      { f with pc := .unblockGc true, result := .removed !n.deleted, gone := s.retired })

/-- The condition `*p && block_gc_ == 0` of the collector's loop. -/
def gcTest (s : Shared ω) (f : Frame ω) (head p : Option ℕ) : Shared ω × Frame ω :=
  match s.link head p with
  | none => (s.fail, f)
  | some q => (s, f.goto (if q.isSome ∧ s.blockGc = 0 then .gcNode head p else .gcDone))

/-- The body of the collector's loop. -/
def gcNode (s : Shared ω) (f : Frame ω) (head p : Option ℕ) : Shared ω × Frame ω :=
  match s.link head p with
  | some (some d) => deref s f d fun n =>
      if n.deleted = false then (s, f.goto (.gcTest head (some d)))
      else
        match p with
        | none => (s.free d, f.goto (.gcStore n.next))
        | some a => deref s f a fun m =>
            ((s.write a { m with next := n.next }).free d, f.goto (.gcTest head p))
  | _ => (s.fail, f)

/-- The next step of a call, up to its return. -/
def advance (s : Shared ω) (f : Frame ω) : Option (Shared ω × Frame ω) :=
  match f.pc with
  | .lastId _ => none
  | .blockGc task => some ({ s with blockGc := s.blockGc + 1 }, f.goto (.awaitGc task))
  | .awaitGc task => some (s, if s.gcActive then f else f.goto (.loadHead task))
  | .loadHead task => some (loadHead s f task)
  | .exchangeHead a => some (exchangeHead s f a false)
  | .seek _ none => some (s, { f with pc := .unblockGc true, gone := s.retired })
  | .seek elementId (some a) => some (deref s f a fun n =>
      (s, f.goto (if n.nodeId ≠ elementId then .seek elementId n.next else .markDeleted a)))
  | .markDeleted a => some (markDeleted s f a)
  | .visit none => some (s, f.goto (.unblockGc false))
  | .visit (some a) => some (deref s f a fun n =>
      (s, f.goto (if n.deleted then .visit n.next else .call a)))
  | .call a => some (deref s f a fun n =>
      (s, { f with pc := .calling a, called := n.entry :: f.called }))
  | .calling a => some (deref s f a fun n => (s, f.goto (.visit n.next)))
  | .loadDeleted a => some (deref s f a fun n =>
      (s, { f with
        pc := .unblockGc false, result := .emptiness n.deleted, gone := s.retired,
        top := some n.nodeId }))
  | .unblockGc collects =>
      some ({ s with blockGc := s.blockGc - 1 }, f.goto (if collects then .gcBlocked else .done))
  | .gcBlocked => some (s, f.goto (if 0 < s.blockGc then .done else .gcActive))
  | .gcActive =>
      some ({ s with gcActive := true }, f.goto (if s.gcActive then .done else .gcHead))
  | .gcHead => some (s, f.goto (.gcFirst s.head))
  | .gcFirst head => some (gcTest s f head none)
  | .gcTest head p => some (gcTest s f head p)
  | .gcNode head p => some (gcNode s f head p)
  | .gcStore head => some ({ s with head := head }, f.goto (.gcTest head none))
  | .gcDone => some ({ s with gcActive := false }, f.goto .done)
  | .done => none

/-! ## The threads -/

/-- The collection with the calls that are in progress on it, and those that have
returned. -/
structure State (τ ω : Type) where
  shared : Shared ω
  threads : Crew τ (Frame ω)
  returned : List (Frame ω)

/-- What the scheduler picks. -/
inductive Action (τ ω : Type)
  /-- a thread calls a method, at its top level or inside the functor -/
  | start (t : τ) (op : Op ω)
  /-- its running call goes on, or returns -/
  | run (t : τ)
  /-- its running call takes an id and a new node at this address -/
  | allocate (t : τ) (a : ℕ)
  /-- its `compare_exchange_weak` fails spuriously -/
  | spurious (t : τ)
  /-- its functor throws -/
  | raise (t : τ)
  deriving DecidableEq, Repr

/-- What the scheduled call does, if the action fits where it stands. -/
def move (s : Shared ω) (f : Frame ω) {τ : Type} : Action τ ω → Option (Shared ω × Frame ω)
  | .start .. => none
  | .run _ => advance s f
  | .allocate _ a =>
      match f.pc with
      | .lastId element => if (s.heap a).isNone then some (newNode s f element a) else none
      | _ => none
  | .spurious _ =>
      match f.pc with
      | .exchangeHead a => some (exchangeHead s f a true)
      | _ => none
  | .raise _ =>
      match f.pc with
      | .calling _ => some (s, { f with pc := .unblockGc false, result := .thrown })
      | _ => none

/-- The thread an action is about. -/
def Action.thread {τ : Type} : Action τ ω → τ
  | .start t _ | .run t | .allocate t _ | .spurious t | .raise t => t

/-- It lets the running call go on. -/
def Action.isRun {τ : Type} : Action τ ω → Bool
  | .run _ => true
  | _ => false

/-- A thread may call a method when it is idle and when it is in the functor. -/
def mayCall : List (Frame ω) → Bool
  | [] => true
  | f :: _ => match f.pc with
    | .calling _ => true
    | _ => false

/-- A call is interrupted by another one in its functor alone. -/
theorem calling_of_mayCall {stack : List (Frame ω)} {f : Frame ω} (may : mayCall stack)
    (first : stack.head? = some f) : ∃ a, f.pc = .calling a := by
  cases stack with
  | nil => cases first
  | cons g rest =>
      cases first
      simp only [mayCall] at may
      split at may
      · exact ⟨_, ‹_›⟩
      · cases may

variable {τ : Type} [DecidableEq τ]

/-- One step of the thread that an action is about. -/
def step (s : State τ ω) (a : Action τ ω) : Option (State τ ω) :=
  match a, s.threads a.thread with
  | .start t op, stack =>
      if mayCall stack then
        some { s with threads := Function.update s.threads t (Frame.start op :: stack) }
      else none
  | _, [] => none
  | a, f :: rest =>
      if f.returns then
        if a.isRun then
          some { s with
            threads := Function.update s.threads a.thread rest, returned := f :: s.returned }
        else none
      else
        (move s.shared f a).map fun (shared, f') =>
          { s with shared := shared, threads := Function.update s.threads a.thread (f' :: rest) }

/-- The collection under every interleaving. -/
def collection (τ ω : Type) [DecidableEq τ] : TransitionSystem (State τ ω) (Action τ ω) where
  init := ⟨Shared.empty, fun _ => [], []⟩
  step := step

end RadarDemo.Lockfree
