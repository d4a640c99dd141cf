import Mathlib.Data.List.Nodup
import Mathlib.Logic.Function.Basic

/-!
# A singly linked list in a heap

A heap maps addresses to nodes, and a node knows the address of the next one.
`Linked next heap l` says that the addresses `l` are the nodes of a list, in
order, with nothing behind the last.

A list is determined by where it starts (`Linked.unique`), hence visits no
address twice (`Linked.nodup`).  A cursor into it is the head of one of its
suffixes; `Linked.after` moves it on, and `Linked.behind` counts how far it has to
go.  The rest says what the updates of a list
make of it: writing elsewhere (`Linked.frame`), taking out its first node
(`Linked.unlink_first`) and taking out the node behind another
(`Linked.unlink_next`).
-/

namespace Concurrency

universe u v

variable {A : Type u} {N : Type v} (next : N → Option A)

/-- The addresses are allocated, and each node points to the one behind it. -/
def Linked (heap : A → Option N) : List A → Prop
  | [] => True
  | a :: l => (∃ n, heap a = some n ∧ next n = l.head?) ∧ Linked heap l

namespace Linked

variable {next} {heap heap' : A → Option N} {a d : A} {n : N} {l m pre post : List A}

@[simp] theorem nil : Linked next heap [] := trivial

@[simp] theorem cons_iff :
    Linked next heap (a :: l) ↔
      (∃ n, heap a = some n ∧ next n = l.head?) ∧ Linked next heap l := Iff.rfl

theorem append_right (linked : Linked next heap (pre ++ l)) : Linked next heap l := by
  induction pre with
  | nil => exact linked
  | cons b pre ih => exact ih linked.2

theorem suffix (linked : Linked next heap l) (part : m <:+ l) : Linked next heap m := by
  obtain ⟨pre, rfl⟩ := part
  exact linked.append_right

/-- Every address of a list is allocated. -/
theorem allocated (linked : Linked next heap l) (member : a ∈ l) : ∃ n, heap a = some n := by
  induction l with
  | nil => exact absurd member List.not_mem_nil
  | cons b l ih =>
      rcases List.mem_cons.mp member with rfl | later
      · obtain ⟨⟨n, here, -⟩, -⟩ := linked
        exact ⟨n, here⟩
      · exact ih linked.2 later

/-- **A list is determined by its first address.** -/
theorem unique (linked : Linked next heap l) (other : Linked next heap m)
    (same : l.head? = m.head?) : l = m := by
  induction l generalizing m with
  | nil =>
      rw [List.head?_nil, eq_comm, List.head?_eq_none_iff] at same
      exact same.symm
  | cons b l ih =>
      cases m with
      | nil => exact absurd same nofun
      | cons c m =>
          rw [List.head?_cons, List.head?_cons, Option.some_inj] at same
          subst same
          obtain ⟨⟨n, here, after⟩, linked⟩ := linked
          obtain ⟨⟨n', here', after'⟩, other⟩ := other
          rw [here, Option.some_inj] at here'
          subst here'
          rw [ih linked other (after.symm.trans after')]

/-- **A list visits no address twice.** -/
theorem nodup (linked : Linked next heap l) : l.Nodup := by
  induction l with
  | nil => exact List.nodup_nil
  | cons b l ih =>
      refine List.nodup_cons.mpr ⟨fun member => ?_, ih linked.2⟩
      obtain ⟨pre, post, rfl⟩ := List.append_of_mem member
      have again : Linked next heap (b :: post) := linked.2.append_right
      have equal := unique linked again rfl
      have length := congrArg List.length equal
      simp only [List.length_cons, List.length_append] at length
      omega

/-! ## Cursors -/

/-- What a cursor points at is a member. -/
theorem mem_of_cursor (part : m <:+ l) (points : m.head? = some a) : a ∈ l := by
  cases m with
  | nil => exact absurd points nofun
  | cons b m =>
      rw [List.head?_cons, Option.some_inj] at points
      subst points
      exact part.subset List.mem_cons_self

/-- Every member is pointed at by some cursor. -/
theorem cursor_of_mem (member : a ∈ l) : ∃ post, a :: post <:+ l := by
  obtain ⟨pre, post, rfl⟩ := List.append_of_mem member
  exact ⟨post, List.suffix_append pre (a :: post)⟩

/-- The next node of a cursor is the cursor behind it. -/
theorem after (linked : Linked next heap l) (part : a :: post <:+ l) (here : heap a = some n) :
    post <:+ l ∧ post.head? = next n := by
  obtain ⟨⟨n', here', after⟩, -⟩ := linked.suffix part
  rw [here, Option.some_inj] at here'
  subst here'
  exact ⟨(List.suffix_cons a post).trans part, after.symm⟩

/-- The next node of a member is a member, unless it was the last. -/
theorem next_mem (linked : Linked next heap l) (member : a ∈ l) (here : heap a = some n)
    (points : next n = some d) : d ∈ l := by
  obtain ⟨post, part⟩ := cursor_of_mem member
  obtain ⟨part', head⟩ := linked.after part here
  exact mem_of_cursor part' (head.trans points)

/-! ## How far it is to the end -/

section Behind

variable [DecidableEq A]

/-- The number of nodes from a cursor on. -/
def behind (l : List A) : Option A → ℕ
  | none => 0
  | some a => (l.dropWhile fun b => b ≠ a).length

theorem behind_le (l : List A) (c : Option A) : behind l c ≤ l.length := by
  cases c with
  | none => exact Nat.zero_le _
  | some a => exact (List.dropWhile_suffix _).length_le

/-- A cursor has its suffix before it. -/
theorem behind_of_suffix (distinct : l.Nodup) (part : m <:+ l) :
    behind l m.head? = m.length := by
  obtain ⟨pre, rfl⟩ := part
  cases m with
  | nil => rfl
  | cons a m =>
      have skipped : ∀ b ∈ pre, decide (b ≠ a) = true := by
        intro b before
        refine decide_eq_true fun same => ?_
        exact (List.nodup_append.mp distinct).2.2 b before a List.mem_cons_self same
      rw [List.head?_cons, behind, List.dropWhile_append_of_pos skipped,
        List.dropWhile_cons_of_neg (by simp)]

theorem behind_pos (linked : Linked next heap l) (member : a ∈ l) : 0 < behind l (some a) := by
  obtain ⟨post, part⟩ := cursor_of_mem member
  have counted := behind_of_suffix linked.nodup part
  rw [List.head?_cons, List.length_cons] at counted
  omega

/-- **Each link leads one node on.** -/
theorem behind_next (linked : Linked next heap l) (member : a ∈ l) (here : heap a = some n) :
    behind l (next n) + 1 = behind l (some a) := by
  obtain ⟨post, part⟩ := cursor_of_mem member
  obtain ⟨part', head⟩ := linked.after part here
  rw [← head, behind_of_suffix linked.nodup part']
  exact (behind_of_suffix linked.nodup part).symm

end Behind

/-! ## Updates -/

/-- A list stays one as long as its own nodes keep their links. -/
theorem frame (linked : Linked next heap l)
    (kept : ∀ b ∈ l, ∀ n, heap b = some n → ∃ n', heap' b = some n' ∧ next n' = next n) :
    Linked next heap' l := by
  induction l with
  | nil => trivial
  | cons b l ih =>
      obtain ⟨⟨n, here, after⟩, linked⟩ := linked
      obtain ⟨n', here', same⟩ := kept b List.mem_cons_self n here
      exact ⟨⟨n', here', same.trans after⟩,
        ih linked fun c member => kept c (List.mem_cons_of_mem b member)⟩

section Update

variable [DecidableEq A]

/-- Writing to an address that is not in the list. -/
theorem update (linked : Linked next heap l) (absent : a ∉ l) (value : Option N) :
    Linked next (Function.update heap a value) l := by
  refine linked.frame fun b member n here => ⟨n, ?_, rfl⟩
  have apart : b ≠ a := by rintro rfl; exact absent member
  rw [Function.update_of_ne apart, here]

/-- Rewriting a node without its link. -/
theorem rewrite (linked : Linked next heap l) {n' : N} (here : heap a = some n)
    (same : next n' = next n) : Linked next (Function.update heap a (some n')) l := by
  refine linked.frame fun b member n'' there => ?_
  by_cases equal : b = a
  · subst equal
    rw [here, Option.some_inj] at there
    subst there
    exact ⟨n', Function.update_self .., same⟩
  · exact ⟨n'', by rw [Function.update_of_ne equal]; exact there, rfl⟩

/-- Taking out the first node. -/
theorem unlink_first (linked : Linked next heap (d :: post)) :
    Linked next (Function.update heap d none) post :=
  linked.2.update (List.nodup_cons.mp linked.nodup).1 none

/-- **Taking out the node behind another**: that one is linked past it first. -/
theorem unlink_next {n' : N} (linked : Linked next heap (pre ++ a :: d :: post))
    (points : next n' = post.head?) :
    Linked next (Function.update (Function.update heap a (some n')) d none)
      (pre ++ a :: post) := by
  have distinct := linked.nodup
  induction pre with
  | nil =>
      obtain ⟨notA, distinct⟩ := List.nodup_cons.mp distinct
      obtain ⟨notD, -⟩ := List.nodup_cons.mp distinct
      have apart : a ≠ d := fun same => notA (same ▸ List.mem_cons_self)
      refine ⟨⟨n', ?_, points⟩, ?_⟩
      · rw [Function.update_of_ne apart, Function.update_self]
      · exact (linked.2.2.update (fun member => notA (List.mem_cons_of_mem d member)) _).update
          notD none
  | cons b pre ih =>
      obtain ⟨notB, distinct⟩ := List.nodup_cons.mp distinct
      obtain ⟨⟨n, here, after⟩, linked⟩ := linked
      have notA : b ≠ a := by rintro rfl; exact notB (by simp)
      have notD : b ≠ d := by rintro rfl; exact notB (by simp)
      refine ⟨⟨n, ?_, ?_⟩, ih linked distinct⟩
      · rw [Function.update_of_ne notD, Function.update_of_ne notA, here]
      · rw [after]
        cases pre <;> rfl

end Update

end Linked

end Concurrency
