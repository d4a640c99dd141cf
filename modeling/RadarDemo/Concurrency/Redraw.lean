import Mathlib.Logic.Function.Basic
import Mathlib.Logic.Relation

/-!
# Redrawing on a dirty flag

A writer changes the cells of a shared store and asks for a redraw once it is
done; a reader takes the pending request, copies the cells one at a time, in an
order of its own, and shows the copy.  Requests may come from anywhere at any
time, and the writer may be anywhere in its work while the reader copies.

The protocol is stated abstractly: the cells are a dependent family `V` over an
arbitrary index type, and one bit, `owed`, records that a cell was written since
the last request.  What makes it correct is the order of two pairs of actions:
the writer requests *after* it has written, and the reader takes the request
*before* it starts to copy.

* `Step` — the protocol, as a relation.
* `UpToDate` — whatever has been copied or shown agrees with the store, unless a
  request is pending or owed.
* `shown_eq_cells` — once nothing is pending, owed or in progress, the picture
  shows the store as it is.
-/

namespace Concurrency

namespace Redraw

universe u v

variable {ι : Type u} {V : ι → Type v}

/-- What the reader is doing. -/
inductive Reader (V : ι → Type v)
  /-- Waiting for a request. -/
  | idle
  /-- Copying; `copied` holds the cells copied so far. -/
  | copying (copied : (i : ι) → Option (V i))

/-- The store, the two flags, and the reader with the last picture it showed. -/
structure State (V : ι → Type v) where
  /-- The shared store. -/
  cells : (i : ι) → V i
  /-- A cell was written after the last request. -/
  owed : Bool
  /-- A request is waiting to be taken. -/
  dirty : Bool
  /-- The reader's position. -/
  reader : Reader V
  /-- The last picture shown. -/
  shown : Option ((i : ι) → V i)

/-- The first picture is requested before anything is written. -/
def start (cells : (i : ι) → V i) : State V where
  cells := cells
  owed := false
  dirty := true
  reader := .idle
  shown := none

/-- **The protocol.**  Every action is a separate constructor and any two of
them may follow each other, so a sequence of steps is an interleaving. -/
inductive Step [DecidableEq ι] : State V → State V → Prop
  /-- The writer changes the store, in one cell or in several. -/
  | write (s : State V) (cells : (i : ι) → V i) :
      Step s { s with cells := cells, owed := true }
  /-- Somebody asks for a redraw. -/
  | request (s : State V) : Step s { s with dirty := true, owed := false }
  /-- The reader takes the pending request. -/
  | take (s : State V) (idle : s.reader = .idle) (pending : s.dirty = true) :
      Step s { s with dirty := false, reader := .copying fun _ => none }
  /-- The reader copies one cell. -/
  | copy (s : State V) {copied : (i : ι) → Option (V i)} (i : ι)
      (copying : s.reader = .copying copied) :
      Step s { s with reader := .copying (Function.update copied i (some (s.cells i))) }
  /-- The reader shows a complete copy. -/
  | finish (s : State V) {copied : (i : ι) → Option (V i)} (picture : (i : ι) → V i)
      (copying : s.reader = .copying copied)
      (complete : ∀ i, copied i = some (picture i)) :
      Step s { s with reader := .idle, shown := some picture }

/-- What the reader holds agrees with the store: the last picture while it is
idle, the part copied so far while it copies. -/
def Matches (s : State V) : Prop :=
  match s.reader with
  | .idle => s.shown = some s.cells
  | .copying copied => ∀ i value, copied i = some value → value = s.cells i

/-- Anything that disagrees with the store is going to be drawn again. -/
def UpToDate (s : State V) : Prop :=
  s.dirty = true ∨ s.owed = true ∨ Matches s

theorem upToDate_start (cells : (i : ι) → V i) : UpToDate (start cells) :=
  Or.inl rfl

variable [DecidableEq ι]

/-- Copying one more cell keeps the agreement. -/
theorem matches_copy {s : State V} {copied : (i : ι) → Option (V i)} (i : ι)
    (agree : ∀ j value, copied j = some value → value = s.cells j) :
    ∀ j value, Function.update copied i (some (s.cells i)) j = some value →
      value = s.cells j := by
  intro j value present
  by_cases same : j = i
  · subst same
    rw [Function.update_self, Option.some_inj] at present
    exact present.symm
  · rw [Function.update_of_ne same] at present
    exact agree j value present

/-- **The step lemma.**  Writing owes a request, a request is pending until it is
taken, and a reader that has just taken one holds nothing that could disagree. -/
theorem UpToDate.step {s s' : State V} (held : UpToDate s) (moved : Step s s') :
    UpToDate s' := by
  cases moved with
  | write cells => exact Or.inr (Or.inl rfl)
  | request => exact Or.inl rfl
  | take idle pending =>
      refine Or.inr (Or.inr ?_)
      intro i value present
      cases present
  | copy i copying =>
      rcases held with pending | owed | agree
      · exact Or.inl pending
      · exact Or.inr (Or.inl owed)
      · refine Or.inr (Or.inr ?_)
        simp only [Matches, copying] at agree
        exact matches_copy i agree
  | finish picture copying complete =>
      rcases held with pending | owed | agree
      · exact Or.inl pending
      · exact Or.inr (Or.inl owed)
      · refine Or.inr (Or.inr ?_)
        simp only [Matches, copying] at agree
        exact congrArg some (funext fun i => agree i _ (complete i))

/-- The run lemma. -/
theorem upToDate_of_run {cells : (i : ι) → V i} {s : State V}
    (run : Relation.ReflTransGen Step (start cells) s) : UpToDate s := by
  induction run with
  | refl => exact upToDate_start cells
  | tail _ moved ih => exact ih.step moved

/-- **Nothing is lost.**  In every state that the protocol reaches with no request
pending or owed and the reader idle, the picture shows the store as it is. -/
theorem shown_eq_cells {cells : (i : ι) → V i} {s : State V}
    (run : Relation.ReflTransGen Step (start cells) s) (idle : s.reader = .idle)
    (clean : s.dirty = false) (settled : s.owed = false) : s.shown = some s.cells := by
  rcases upToDate_of_run run with pending | owed | agree
  · rw [clean] at pending
    cases pending
  · rw [settled] at owed
    cases owed
  · simpa only [Matches, idle] using agree

end Redraw

end Concurrency
