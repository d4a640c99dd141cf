import RadarDemo.Concurrency.Transition
import Mathlib.Data.List.Basic
import Mathlib.Logic.Function.Basic

/-!
# Nodes of values that move

A node of a value keeps a pointer to the `value` object.  Where the program moves no
values (`Expr.Sheet`), that is always the one it was made for; here the objects have
addresses, and a node has to follow its value through move constructions and move
assignments (`value.hpp`, and the constructor of `expression_node` that takes a value).

An object that has been moved from has no subjects, and can only be destroyed or
assigned to.  A move assignment drops the subjects that its target had, without
telling their observers; a node of that value keeps its pointer and its flag.  The
assignment of an object to itself is left out: `operator=` does not refuse it, and
what it leaves of the members is up to their own move assignments.

* `follows` — a node whose value has its subjects points to it, wherever it has been
  moved, and shows its content unless the node has the flag.
* `reads_iff` — at every point of a run an evaluation would read the value that the
  node was made for, exactly if no move assignment replaces a value of which a node
  has the flag.
-/

namespace RadarDemo.Expr.Moved

open Concurrency TransitionSystem

/-- A `value` object: what it stores, and the name of its subjects. -/
structure Object (α : Type) where
  content : α
  subjects : Option ℕ
  deriving DecidableEq, Repr

/-- The node of a value: the pointer `v` and the subjects it has subscribed to. -/
structure Leaf (A α : Type) where
  place : A
  subject : ℕ
  live : Bool
  dirty : Bool
  result : α
  deriving DecidableEq, Repr

/-- The objects by their addresses, and the nodes. -/
structure State (A ν α : Type) where
  next : ℕ
  objects : A → Option (Object α)
  leaves : ν → Option (Leaf A α)
  fault : Bool

/-- What happens to objects and nodes; `left` is what a move leaves behind. -/
inductive Action (A ν α : Type)
  /-- `value { initial }` at `a` -/
  | construct (a : A) (initial : α)
  /-- `expression_node { value }` for the object at `a` -/
  | subscribe (n : ν) (a : A)
  /-- `set(newValue)` -/
  | set (a : A) (newValue : α)
  /-- `eval()` -/
  | eval (n : ν)
  /-- `value { std::move(other) }` at `b`, for the object at `a` -/
  | moveConstruct (a b : A) (left : α)
  /-- `operator=(value &&)` at `b`, for the object at `a` -/
  | moveAssign (a b : A) (left : α)
  /-- `~value()` -/
  | destroy (a : A)

variable {A ν α : Type}

/-- The nodes that are subscribed to a subject are told something. -/
def State.tell (s : State A ν α) (i : ℕ) (f : Leaf A α → Leaf A α) : ν → Option (Leaf A α) :=
  fun n => (s.leaves n).map fun l => if l.live = true ∧ l.subject = i then f l else l

variable [DecidableEq A] [DecidableEq ν] (equal : α → α → Bool)

/-- The contents and the subjects of an object go to another address, and `moved` is
notified. -/
def State.move (s : State A ν α) (a b : A) (content : α) (i : ℕ) (left : α) : State A ν α :=
  { s with
    objects := Function.update (Function.update s.objects b (some ⟨content, some i⟩)) a
      (some ⟨left, none⟩),
    leaves := s.tell i fun l => { l with place := b } }

/-- One action. -/
def step (s : State A ν α) : Action A ν α → Option (State A ν α)
  | .construct a initial =>
      if (s.objects a).isNone then
        some { s with
          next := s.next + 1,
          objects := Function.update s.objects a (some ⟨initial, some s.next⟩) }
      else none
  | .subscribe n a =>
      match s.objects a with
      | some ⟨content, some i⟩ =>
          if (s.leaves n).isNone then
            some { s with leaves := Function.update s.leaves n (some ⟨a, i, true, false, content⟩) }
          else none
      | _ => none
  | .set a newValue =>
      match s.objects a with
      | some ⟨content, some i⟩ =>
          if equal content newValue then some s
          else some { s with
            objects := Function.update s.objects a (some ⟨newValue, some i⟩),
            leaves := s.tell i fun l => { l with dirty := true } }
      | _ => none
  | .eval n =>
      match s.leaves n with
      | some l =>
          if l.live = true ∧ l.dirty = true then
            match s.objects l.place with
            | some o => some { s with
                leaves := Function.update s.leaves n
                  (some { l with result := o.content, dirty := false }) }
            | none => some { s with fault := true }
          else some s
      | none => none
  | .moveConstruct a b left =>
      match s.objects a, s.objects b with
      | some ⟨content, some i⟩, none => some (s.move a b content i left)
      | _, _ => none
  | .moveAssign a b left =>
      match s.objects a, s.objects b with
      | some ⟨content, some i⟩, some _ => if a ≠ b then some (s.move a b content i left) else none
      | _, _ => none
  | .destroy a =>
      match s.objects a with
      | some o => some { s with
          objects := Function.update s.objects a none,
          leaves := match o.subjects with
            | some i => s.tell i fun l => { l with live := false }
            | none => s.leaves }
      | none => none

/-- Objects and nodes, none of them at first. -/
def values : TransitionSystem (State A ν α) (Action A ν α) where
  init := ⟨0, fun _ => none, fun _ => none, false⟩
  step := step equal

/-- The object at `a` has the subjects of a node. -/
def State.Holds (s : State A ν α) (a : A) (i : ℕ) (content : α) : Prop :=
  s.objects a = some ⟨content, some i⟩

section Steps

variable {equal} {s s' : State A ν α} {act : Action A ν α}

/-- What an action does. -/
inductive Change (s : State A ν α) : Action A ν α → State A ν α → Prop
  | construct {a : A} (initial : α) (free : s.objects a = none) :
      Change s (.construct a initial)
        { s with
          next := s.next + 1,
          objects := Function.update s.objects a (some ⟨initial, some s.next⟩) }
  | subscribe {n : ν} {a : A} {content : α} {i : ℕ} (holds : s.Holds a i content)
      (new : s.leaves n = none) :
      Change s (.subscribe n a)
        { s with leaves := Function.update s.leaves n (some ⟨a, i, true, false, content⟩) }
  | unchanged (a : A) (newValue : α) : Change s (.set a newValue) s
  | set {a : A} {content : α} {i : ℕ} (newValue : α) (holds : s.Holds a i content) :
      Change s (.set a newValue)
        { s with
          objects := Function.update s.objects a (some ⟨newValue, some i⟩),
          leaves := s.tell i fun l => { l with dirty := true } }
  | clean {n : ν} {l : Leaf A α} (here : s.leaves n = some l)
      (skip : ¬ (l.live = true ∧ l.dirty = true)) :
      Change s (.eval n) s
  | read {n : ν} {l : Leaf A α} {o : Object α} (here : s.leaves n = some l) (live : l.live = true)
      (dirty : l.dirty = true) (found : s.objects l.place = some o) :
      Change s (.eval n)
        { s with
          leaves := Function.update s.leaves n
            (some { l with result := o.content, dirty := false }) }
  | dangle {n : ν} {l : Leaf A α} (here : s.leaves n = some l) (live : l.live = true)
      (dirty : l.dirty = true) (gone : s.objects l.place = none) :
      Change s (.eval n) { s with fault := true }
  | moveConstruct {a b : A} {content : α} {i : ℕ} (left : α) (holds : s.Holds a i content)
      (free : s.objects b = none) : Change s (.moveConstruct a b left) (s.move a b content i left)
  | moveAssign {a b : A} {content : α} {i : ℕ} (left : α) (holds : s.Holds a i content)
      (apart : a ≠ b) : Change s (.moveAssign a b left) (s.move a b content i left)
  | destroy {a : A} {content : α} {i : ℕ} (holds : s.Holds a i content) :
      Change s (.destroy a)
        { s with
          objects := Function.update s.objects a none,
          leaves := s.tell i fun l => { l with live := false } }
  | discard {a : A} {content : α} (empty : s.objects a = some ⟨content, none⟩) :
      Change s (.destroy a) { s with objects := Function.update s.objects a none }

theorem change_of_step (stepped : step equal s act = some s') : Change s act s' := by
  cases act with
  | construct a initial =>
      simp only [step, Option.ite_none_right_eq_some, Option.isNone_iff_eq_none,
        Option.some_inj] at stepped
      obtain ⟨free, rfl⟩ := stepped
      exact .construct initial free
  | subscribe n a =>
      simp only [step] at stepped
      split at stepped
      · rename_i holds
        simp only [Option.ite_none_right_eq_some, Option.isNone_iff_eq_none,
          Option.some_inj] at stepped
        obtain ⟨new, rfl⟩ := stepped
        exact .subscribe holds new
      · cases stepped
  | set a newValue =>
      simp only [step] at stepped
      split at stepped
      · rename_i holds
        split at stepped
        · cases stepped
          exact .unchanged a newValue
        · cases stepped
          exact .set newValue holds
      · cases stepped
  | eval n =>
      simp only [step] at stepped
      split at stepped
      · rename_i l here
        split at stepped
        · rename_i reads
          split at stepped
          · cases stepped
            exact .read here reads.1 reads.2 ‹_›
          · cases stepped
            exact .dangle here reads.1 reads.2 ‹_›
        · cases stepped
          exact .clean here ‹_›
      · cases stepped
  | moveConstruct a b left =>
      simp only [step] at stepped
      split at stepped
      · cases stepped
        exact .moveConstruct left ‹_› ‹_›
      · cases stepped
  | moveAssign a b left =>
      simp only [step] at stepped
      split at stepped
      · rename_i holds target
        split at stepped
        · cases stepped
          exact .moveAssign left holds ‹_›
        · cases stepped
      · cases stepped
  | destroy a =>
      simp only [step] at stepped
      split at stepped
      · rename_i o here
        obtain ⟨content, subjects⟩ := o
        cases subjects with
        | none =>
            cases stepped
            exact .discard here
        | some i =>
            cases stepped
            exact .destroy here
      · cases stepped

end Steps

section Entries

variable {s : State A ν α} {a b x : A} {i j : ℕ} {content c left : α}

/-- What is found where something has been put. -/
theorem update_eq_some_iff {κ β : Type} [DecidableEq κ] {f : κ → Option β} {k x : κ}
    {o : Option β} {v : β} : Function.update f k o x = some v ↔
      x = k ∧ o = some v ∨ x ≠ k ∧ f x = some v := by
  rw [Function.update_apply]
  split <;> simp_all

omit [DecidableEq ν] in
/-- What holds subjects where they have been put. -/
theorem holds_put : Function.update s.objects a (some ⟨content, some i⟩) x = some ⟨c, some j⟩ ↔
    x = a ∧ i = j ∧ content = c ∨ x ≠ a ∧ s.Holds x j c := by
  rw [update_eq_some_iff]
  simp [State.Holds, and_comm]

omit [DecidableEq ν] in
/-- The subjects have gone along. -/
theorem holds_move : (s.move a b content i left).Holds x j c ↔
    x ≠ a ∧ (x = b ∧ i = j ∧ content = c ∨ x ≠ b ∧ s.Holds x j c) := by
  rw [← holds_put]
  refine Iff.trans update_eq_some_iff ?_
  simp

omit [DecidableEq A] [DecidableEq ν] in
/-- A node that may have been told. -/
theorem exists_of_tell {f : Leaf A α → Leaf A α} {n : ν} {l' : Leaf A α}
    (here : s.tell i f n = some l') :
    ∃ l, s.leaves n = some l ∧ ((l.live = true ∧ l.subject = i) ∧ f l = l' ∨
      ¬ (l.live = true ∧ l.subject = i) ∧ l = l') := by
  obtain ⟨l, there, is⟩ := Option.map_eq_some_iff.mp here
  refine ⟨l, there, ?_⟩
  split at is
  · exact Or.inl ⟨‹_›, is⟩
  · exact Or.inr ⟨‹_›, is⟩

end Entries

/-- What holds in every reachable state. -/
structure Sound (s : State A ν α) : Prop where
  unique : ∀ a b i c d, s.Holds a i c → s.Holds b i d → a = b
  issued : ∀ a i c, s.Holds a i c → i < s.next
  known : ∀ n l, s.leaves n = some l → l.subject < s.next
  follows : ∀ n l, s.leaves n = some l → l.live = true → ∀ a c, s.Holds a l.subject c →
    l.place = a ∧ (l.dirty = false → l.result = c)

section Sound

variable {s s' : State A ν α} {act : Action A ν α} {a b : A} {i : ℕ} {content left : α}

omit [DecidableEq ν] in
/-- **A move takes the nodes along.** -/
theorem Sound.move (sound : Sound s) (holds : s.Holds a i content) (apart : a ≠ b) :
    Sound (s.move a b content i left) := by
  have differs : ∀ x c, x ≠ a → ¬ s.Holds x i c := fun x c other there =>
    other (sound.unique x a i c content there holds)
  refine ⟨fun x y j c d => ?_, fun x j c => ?_, fun n l' here => ?_, fun n l' here live x c => ?_⟩
  · rw [holds_move, holds_move]
    rintro ⟨notX, ⟨rfl, rfl, rfl⟩ | ⟨-, first⟩⟩ ⟨notY, ⟨rfl, same, rfl⟩ | ⟨-, second⟩⟩
    · rfl
    · exact absurd second (differs y d notY)
    · exact absurd (same ▸ first) (differs x c notX)
    · exact sound.unique x y j c d first second
  · rw [holds_move]
    rintro ⟨-, ⟨rfl, rfl, rfl⟩ | ⟨-, there⟩⟩
    · exact sound.issued a i content holds
    · exact sound.issued x j c there
  · obtain ⟨l, there, ⟨-, rfl⟩ | ⟨-, rfl⟩⟩ := exists_of_tell here
    · exact sound.known n l there
    · exact sound.known n l there
  · rw [holds_move]
    obtain ⟨l, there, ⟨⟨isLive, is⟩, rfl⟩ | ⟨notTold, rfl⟩⟩ := exists_of_tell here
    · rintro ⟨notX, ⟨rfl, -, rfl⟩ | ⟨-, other⟩⟩
      · exact ⟨rfl, (sound.follows n l there isLive a content (is ▸ holds)).2⟩
      · exact absurd (is ▸ other) (differs x c notX)
    · rintro ⟨-, ⟨rfl, is, rfl⟩ | ⟨-, other⟩⟩
      · exact absurd ⟨live, is.symm⟩ notTold
      · exact sound.follows n l there live x c other

/-- **Every action leaves the nodes at their values.** -/
theorem Sound.change (sound : Sound s) (change : Change s act s') : Sound s' := by
  cases change with
  | @construct a initial free =>
      have fresh : ∀ x c, ¬ s.Holds x s.next c := fun x c there =>
        absurd (sound.issued x s.next c there) (Nat.lt_irrefl _)
      refine ⟨fun x y j c d first second => ?_, fun x j c there => ?_, fun n l here => ?_,
        fun n l here live x c there => ?_⟩
      · rcases holds_put.mp first with ⟨rfl, rfl, -⟩ | ⟨-, old⟩
        · rcases holds_put.mp second with ⟨rfl, -, -⟩ | ⟨-, old'⟩
          · rfl
          · exact absurd old' (fresh y d)
        · rcases holds_put.mp second with ⟨rfl, rfl, -⟩ | ⟨-, old'⟩
          · exact absurd old (fresh x c)
          · exact sound.unique x y j c d old old'
      · rcases holds_put.mp there with ⟨-, rfl, -⟩ | ⟨-, there⟩
        · exact Nat.lt_succ_self _
        · exact Nat.lt_succ_of_lt (sound.issued x j c there)
      · exact Nat.lt_succ_of_lt (sound.known n l here)
      · rcases holds_put.mp there with ⟨-, is, -⟩ | ⟨-, there⟩
        · exact absurd (sound.known n l here) (is ▸ Nat.lt_irrefl _)
        · exact sound.follows n l here live x c there
  | @subscribe n a content i holds new =>
      refine ⟨sound.unique, sound.issued, fun m l here => ?_, fun m l here live x c there => ?_⟩
      · rcases update_eq_some_iff.mp here with ⟨-, is⟩ | ⟨-, here⟩
        · cases is
          exact sound.issued a i content holds
        · exact sound.known m l here
      · rcases update_eq_some_iff.mp here with ⟨-, is⟩ | ⟨-, here⟩
        · cases is
          obtain rfl := sound.unique x a i c content there holds
          change s.objects x = _ at there
          rw [State.Holds, there] at holds
          cases holds
          exact ⟨rfl, fun _ => rfl⟩
        · exact sound.follows m l here live x c there
  | unchanged a newValue => exact sound
  | @set a content i newValue holds =>
      refine ⟨fun x y j c d first second => ?_, fun x j c there => ?_, fun n l' here => ?_,
        fun n l' here live x c there => ?_⟩
      · rcases holds_put.mp first with ⟨rfl, rfl, -⟩ | ⟨-, old⟩
        · rcases holds_put.mp second with ⟨rfl, -, -⟩ | ⟨-, old'⟩
          · rfl
          · exact sound.unique x y i content d holds old'
        · rcases holds_put.mp second with ⟨rfl, rfl, -⟩ | ⟨-, old'⟩
          · exact sound.unique x y i c content old holds
          · exact sound.unique x y j c d old old'
      · rcases holds_put.mp there with ⟨-, rfl, -⟩ | ⟨-, there⟩
        · exact sound.issued a i content holds
        · exact sound.issued x j c there
      · obtain ⟨l, there, ⟨-, rfl⟩ | ⟨-, rfl⟩⟩ := exists_of_tell here
        · exact sound.known n l there
        · exact sound.known n l there
      · obtain ⟨l, found, ⟨⟨isLive, is⟩, rfl⟩ | ⟨notTold, rfl⟩⟩ := exists_of_tell here
        · refine ⟨?_, Bool.noConfusion⟩
          rcases holds_put.mp there with ⟨rfl, -, -⟩ | ⟨-, there⟩
          · exact (sound.follows n l found isLive x content (is ▸ holds)).1
          · exact (sound.follows n l found isLive x c there).1
        · rcases holds_put.mp there with ⟨-, is, -⟩ | ⟨-, there⟩
          · exact absurd ⟨live, is.symm⟩ notTold
          · exact sound.follows n l found live x c there
  | clean here skip => exact sound
  | @read n l o here live dirty found =>
      refine ⟨sound.unique, sound.issued, fun m l' here' => ?_,
        fun m l' here' live' x c there => ?_⟩
      · rcases update_eq_some_iff.mp here' with ⟨-, is⟩ | ⟨-, here'⟩
        · cases is
          exact sound.known n l here
        · exact sound.known m l' here'
      · rcases update_eq_some_iff.mp here' with ⟨-, is⟩ | ⟨-, here'⟩
        · cases is
          have place := (sound.follows n l here live x c there).1
          refine ⟨place, fun _ => ?_⟩
          have is : some (⟨c, some l.subject⟩ : Object α) = some o :=
            there.symm.trans (place ▸ found)
          rw [Option.some_inj] at is
          exact congrArg Object.content is.symm
        · exact sound.follows m l' here' live' x c there
  | dangle here live dirty gone => exact ⟨sound.unique, sound.issued, sound.known, sound.follows⟩
  | @moveConstruct a b content i left holds free =>
      refine sound.move holds ?_
      rintro rfl
      rw [State.Holds, free] at holds
      cases holds
  | moveAssign left holds apart => exact sound.move holds apart
  | @destroy a content i holds =>
      have old : ∀ {x j c}, Function.update s.objects a none x = some ⟨c, some j⟩ →
          s.Holds x j c := fun there =>
        (update_eq_some_iff.mp there).elim (fun is => by cases is.2) And.right
      refine ⟨fun x y j c d first second => sound.unique x y j c d (old first) (old second),
        fun x j c there => sound.issued x j c (old there), fun n l' here => ?_,
        fun n l' here live x c there => ?_⟩
      · obtain ⟨l, found, ⟨-, rfl⟩ | ⟨-, rfl⟩⟩ := exists_of_tell here
        · exact sound.known n l found
        · exact sound.known n l found
      · obtain ⟨l, found, ⟨-, rfl⟩ | ⟨-, rfl⟩⟩ := exists_of_tell here
        · cases live
        · exact sound.follows n l found live x c (old there)
  | @discard a content empty =>
      have old : ∀ {x j c}, Function.update s.objects a none x = some ⟨c, some j⟩ →
          s.Holds x j c := fun there =>
        (update_eq_some_iff.mp there).elim (fun is => by cases is.2) And.right
      exact ⟨fun x y j c d first second => sound.unique x y j c d (old first) (old second),
        fun x j c there => sound.issued x j c (old there), sound.known,
        fun n l here live x c there => sound.follows n l here live x c (old there)⟩

theorem sound_init : Sound (values equal : TransitionSystem (State A ν α) (Action A ν α)).init := by
  constructor <;> simp [values, State.Holds]

theorem sound_of_reachable {s : State A ν α} (reached : (values equal).Reachable s) : Sound s :=
  reached.invariant (sound_init equal) fun sound stepped => sound.change (change_of_step stepped)

end Sound

/-- **Nodes follow their values.**  Along every run, wherever the subjects of a node
are, the node points there; and without the flag it shows what is stored there. -/
theorem follows (as : List (Action A ν α)) :
    (values equal).Along (fun _ _ s' => ∀ n l, s'.leaves n = some l → l.live = true →
      ∀ a c, s'.Holds a l.subject c → l.place = a ∧ (l.dirty = false → l.result = c))
      (values equal).init as :=
  along_of_reachable (fun reached => (sound_of_reachable equal reached).follows) as

/-! ## What a move assignment replaces -/

/-- An evaluation now, of whichever node, reads the value that the node was made for. -/
def State.Reads (s : State A ν α) : Prop :=
  ∀ n l, s.leaves n = some l → l.live = true → l.dirty = true →
    ∃ c, s.Holds l.place l.subject c

/-- No move assignment replaces a value of which a node has the flag. -/
def Spares (s : State A ν α) (act : Action A ν α) : Prop :=
  ∀ a b left, act = .moveAssign a b left → ∀ i c, s.Holds b i c →
    ∀ n l, s.leaves n = some l → l.live = true → l.dirty = true → l.subject ≠ i

section Replaced

variable {equal} {s s' : State A ν α} {act : Action A ν α} {a b : A} {i : ℕ} {content left : α}

omit [DecidableEq A] [DecidableEq ν] in
/-- It is enough that the subjects are somewhere. -/
theorem Sound.reads (sound : Sound s) (somewhere : ∀ n l, s.leaves n = some l → l.live = true →
    l.dirty = true → ∃ a c, s.Holds a l.subject c) : s.Reads := by
  intro n l here live dirty
  obtain ⟨a, c, holds⟩ := somewhere n l here live dirty
  obtain ⟨rfl, -⟩ := sound.follows n l here live a c holds
  exact ⟨c, holds⟩

omit [DecidableEq ν] in
/-- A move takes one value along and leaves the others where they are, except for the
one that it replaces. -/
theorem State.Reads.move (reads : s.Reads) (holds : s.Holds a i content) (apart : a ≠ b)
    (spares : ∀ j c, s.Holds b j c → ∀ n l, s.leaves n = some l → l.live = true →
      l.dirty = true → l.subject ≠ j) :
    ∀ n l, (s.move a b content i left).leaves n = some l → l.live = true → l.dirty = true →
      ∃ x c, (s.move a b content i left).Holds x l.subject c := by
  intro n l' here live dirty
  obtain ⟨l, there, ⟨⟨-, is⟩, rfl⟩ | ⟨notTold, rfl⟩⟩ := exists_of_tell here
  · exact ⟨b, content, holds_move.mpr ⟨apart.symm, Or.inl ⟨rfl, is.symm, rfl⟩⟩⟩
  · obtain ⟨c, own⟩ := reads n l there live dirty
    refine ⟨l.place, c, holds_move.mpr ⟨fun is => ?_, Or.inr ⟨fun is => ?_, own⟩⟩⟩
    · -- What moves has other subjects.
      rw [is, State.Holds, holds] at own
      simp only [Option.some_inj, Object.mk.injEq] at own
      exact notTold ⟨live, own.2.symm⟩
    · exact spares l.subject c (is ▸ own) n l there live dirty rfl

/-- **Sparing what is flagged, every action leaves the flagged nodes their values.** -/
theorem State.Reads.change (reads : s.Reads) (sound : Sound s) (change : Change s act s')
    (spares : Spares s act) (intact : s.fault = false) : s'.Reads ∧ s'.fault = false := by
  have after := sound.change change
  suffices somewhere : (∀ n l, s'.leaves n = some l → l.live = true → l.dirty = true →
      ∃ a c, s'.Holds a l.subject c) ∧ s'.fault = false from
    ⟨after.reads somewhere.1, somewhere.2⟩
  cases change with
  | @construct a initial free =>
      refine ⟨fun n l here live dirty => ?_, intact⟩
      obtain ⟨c, own⟩ := reads n l here live dirty
      refine ⟨l.place, c, holds_put.mpr (Or.inr ⟨fun is => ?_, own⟩)⟩
      rw [is, State.Holds, free] at own
      cases own
  | @subscribe n a content i holds new =>
      refine ⟨fun m l here live dirty => ?_, intact⟩
      rcases update_eq_some_iff.mp here with ⟨-, is⟩ | ⟨-, old⟩
      · cases is
        cases dirty
      · exact ⟨l.place, reads m l old live dirty⟩
  | unchanged a newValue =>
      exact ⟨fun n l here live dirty => ⟨l.place, reads n l here live dirty⟩, intact⟩
  | @set a content i newValue holds =>
      refine ⟨fun n l' here live dirty => ?_, intact⟩
      obtain ⟨l, there, ⟨⟨-, is⟩, rfl⟩ | ⟨notTold, rfl⟩⟩ := exists_of_tell here
      · exact ⟨a, newValue, holds_put.mpr (Or.inl ⟨rfl, is.symm, rfl⟩)⟩
      · obtain ⟨c, own⟩ := reads n l there live dirty
        refine ⟨l.place, c, holds_put.mpr (Or.inr ⟨fun is => ?_, own⟩)⟩
        rw [is, State.Holds, holds] at own
        simp only [Option.some_inj, Object.mk.injEq] at own
        exact notTold ⟨live, own.2.symm⟩
  | clean here skip =>
      exact ⟨fun n l here live dirty => ⟨l.place, reads n l here live dirty⟩, intact⟩
  | @read n l o here live dirty found =>
      refine ⟨fun m l' here' live' dirty' => ?_, intact⟩
      rcases update_eq_some_iff.mp here' with ⟨-, is⟩ | ⟨-, old⟩
      · cases is
        cases dirty'
      · exact ⟨l'.place, reads m l' old live' dirty'⟩
  | @dangle n l here live dirty gone =>
      obtain ⟨c, own⟩ := reads n l here live dirty
      rw [State.Holds, gone] at own
      cases own
  | @moveConstruct a b content i left holds free =>
      have empty : ∀ j c, ¬ s.Holds b j c := fun j c there => by
        rw [State.Holds, free] at there
        cases there
      refine ⟨reads.move holds (fun is => ?_) fun j c there => absurd there (empty j c), intact⟩
      exact empty i content (is ▸ holds)
  | @moveAssign a b content i left holds apart =>
      exact ⟨reads.move holds apart (spares a b left rfl), intact⟩
  | @destroy a content i holds =>
      refine ⟨fun n l' here live dirty => ?_, intact⟩
      obtain ⟨l, there, ⟨-, rfl⟩ | ⟨notTold, rfl⟩⟩ := exists_of_tell here
      · cases live
      · obtain ⟨c, own⟩ := reads n l there live dirty
        refine ⟨l.place, c, update_eq_some_iff.mpr (Or.inr ⟨fun is => ?_, own⟩)⟩
        rw [is, State.Holds, holds] at own
        simp only [Option.some_inj, Object.mk.injEq] at own
        exact notTold ⟨live, own.2.symm⟩
  | @discard a content empty =>
      refine ⟨fun n l here live dirty => ?_, intact⟩
      obtain ⟨c, own⟩ := reads n l here live dirty
      refine ⟨l.place, c, update_eq_some_iff.mpr (Or.inr ⟨fun is => ?_, own⟩)⟩
      rw [is, State.Holds, empty] at own
      cases own

/-- **What is replaced is lost.**  The subjects of a flagged node are gone, and nothing
tells the node, which reads something else. -/
theorem Sound.lost (sound : Sound s) (change : Change s act s') (reads : s'.Reads) :
    Spares s act := by
  rintro a b left rfl i c target n l here live dirty rfl
  cases change with
  | @moveAssign _ _ content i _ holds apart =>
      have other : i ≠ l.subject := by
        rintro rfl
        exact apart (sound.unique a b l.subject content c holds target)
      have same : (s.move a b content i left).leaves n = some l := by
        simp only [State.move, State.tell, here, Option.map_some, Option.some_inj,
          ite_eq_right_iff, and_imp]
        exact fun _ is => absurd is.symm other
      obtain ⟨d, own⟩ := reads n l same live dirty
      rcases holds_move.mp own with ⟨-, ⟨-, is, -⟩ | ⟨notB, old⟩⟩
      · exact other is
      · exact notB (sound.unique _ b l.subject d c old target)

end Replaced

/-- **When evaluations read what they are made for.**  At every point of a run an
evaluation of any node would read its own value and nothing that is gone, exactly if
no move assignment of the run replaces a value of which a node has the flag. -/
theorem reads_iff (as : List (Action A ν α)) :
    (values equal).Along (fun _ _ s' => s'.Reads ∧ s'.fault = false) (values equal).init as ↔
      (values equal).Along (fun s act _ => Spares s act) (values equal).init as := by
  refine along_iff_of_exact (I := fun s => Sound s ∧ s.Reads ∧ s.fault = false)
    (fun held stepped spares => ?_) (fun held stepped satisfied => ?_) ⟨sound_init equal, ?_⟩ as
  · obtain ⟨sound, reads, intact⟩ := held
    have change := change_of_step stepped
    have kept := reads.change sound change spares intact
    exact ⟨⟨sound.change change, kept⟩, kept⟩
  · exact held.1.lost (change_of_step stepped) satisfied.1
  · exact ⟨fun n l here => (Option.some_ne_none l here.symm).elim, rfl⟩

end RadarDemo.Expr.Moved
