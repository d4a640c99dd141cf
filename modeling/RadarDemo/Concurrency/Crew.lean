import Mathlib.Algebra.BigOperators.Group.Finset.Basic
import Mathlib.Algebra.Order.BigOperators.Group.Finset
import Mathlib.Algebra.Ring.Nat
import Mathlib.Data.Fintype.Basic

/-!
# Threads with call stacks

A finite number of threads, each with a stack of frames of which the first one
runs.  A step of a thread replaces its running frame, calls another one on top
of it, or returns from it; every other frame stays as it is.

What the frames have in common is counted: `tally w` adds up a weight over all
frames, so that a counter of the program can be compared with the number of
frames that have raised it, and a thing that only one frame may own is one whose
owners tally to at most one.

* `tally_become`, `tally_call`, `tally_ret` — a tally across each kind of step.
* `Other` — the frames that a step of one thread leaves alone;
  `forall_become_iff` reduces a property of all frames to them and to the new one.
* `add_le_tally` — two different frames are both counted.
* `Once` — no two frames, those included that have returned, give the same answer.
-/

namespace Concurrency

universe u v w

/-- The call stack of every thread, the running frame first. -/
abbrev Crew (τ : Type u) (φ : Type v) := τ → List φ

namespace Crew

variable {τ : Type u} {φ : Type v}

/-- Another frame than the one that runs in thread `t`, above `rest`. -/
def Other (c : Crew τ φ) (t : τ) (rest : List φ) (g : φ) : Prop :=
  g ∈ rest ∨ ∃ u, u ≠ t ∧ g ∈ c u

/-- Every other frame is a frame. -/
theorem Other.exists_mem {c : Crew τ φ} {t : τ} {f g : φ} {rest : List φ}
    (other : Other c t rest g) (running : c t = f :: rest) : ∃ u, g ∈ c u := by
  rcases other with below | ⟨u, -, member⟩
  · exact ⟨t, running ▸ List.mem_cons_of_mem f below⟩
  · exact ⟨u, member⟩

variable [DecidableEq τ]

/-! ## Properties of all frames -/

section Forall

variable {P : φ → Prop} {c : Crew τ φ} {t : τ} {f f' : φ} {rest : List φ}

/-- All frames are the one that runs in a thread, and the others. -/
theorem forall_iff (running : c t = f :: rest) :
    (∀ u, ∀ g ∈ c u, P g) ↔ P f ∧ ∀ g, Other c t rest g → P g := by
  constructor
  · intro all
    refine ⟨all t f (running ▸ List.mem_cons_self), fun g other => ?_⟩
    obtain ⟨u, member⟩ := other.exists_mem running
    exact all u g member
  · rintro ⟨here, others⟩ u g member
    by_cases same : u = t
    · subst same
      rw [running, List.mem_cons] at member
      rcases member with rfl | below
      · exact here
      · exact others g (Or.inl below)
    · exact others g (Or.inr ⟨u, same, member⟩)

/-- The other frames are what they were. -/
theorem other_update {stack : List φ} :
    Other (Function.update c t stack) t rest f ↔ Other c t rest f := by
  refine or_congr_right (exists_congr fun u => and_congr_right fun different => ?_)
  rw [Function.update_of_ne different]

/-- **A step leaves the other frames alone.** -/
theorem forall_become_iff :
    (∀ u, ∀ g ∈ Function.update c t (f' :: rest) u, P g) ↔
      P f' ∧ ∀ g, Other c t rest g → P g := by
  rw [forall_iff (t := t) (Function.update_self ..)]
  exact and_congr_right fun _ => forall_congr' fun g => imp_congr other_update Iff.rfl

theorem forall_call_iff :
    (∀ u, ∀ g ∈ Function.update c t (f :: c t) u, P g) ↔ P f ∧ ∀ u, ∀ g ∈ c u, P g := by
  rw [forall_become_iff]
  refine and_congr_right fun _ => ⟨fun others u g member => ?_, fun all g other => ?_⟩
  · by_cases same : u = t
    · exact others g (Or.inl (same ▸ member))
    · exact others g (Or.inr ⟨u, same, member⟩)
  · rcases other with below | ⟨u, -, member⟩
    · exact all t g below
    · exact all u g member

theorem forall_ret_iff (running : c t = f :: rest) :
    (∀ u, ∀ g ∈ Function.update c t rest u, P g) ↔ ∀ g, Other c t rest g → P g := by
  constructor
  · rintro all g (below | ⟨u, different, member⟩)
    · exact all t g (by rwa [Function.update_self])
    · exact all u g (by rwa [Function.update_of_ne different])
  · intro others u g member
    by_cases same : u = t
    · subst same
      rw [Function.update_self] at member
      exact others g (Or.inl member)
    · rw [Function.update_of_ne same] at member
      exact others g (Or.inr ⟨u, same, member⟩)

end Forall

/-! ## Counting -/

section Tally

variable [Fintype τ]

/-- The sum of a weight over all frames of all threads. -/
def tally (w : φ → ℕ) (c : Crew τ φ) : ℕ := ∑ t, ((c t).map w).sum

variable (w : φ → ℕ) {c : Crew τ φ} {t : τ} {f f' g : φ} {rest : List φ}

/-- Replacing a thread's stack exchanges its share of the sum. -/
theorem tally_update (c : Crew τ φ) (t : τ) (stack : List φ) :
    tally w (Function.update c t stack) + ((c t).map w).sum =
      tally w c + (stack.map w).sum := by
  unfold tally
  rw [← Finset.add_sum_erase Finset.univ _ (Finset.mem_univ t),
    ← Finset.add_sum_erase Finset.univ (fun t => ((c t).map w).sum) (Finset.mem_univ t),
    Function.update_self]
  have rest : ∑ u ∈ Finset.univ.erase t, ((Function.update c t stack u).map w).sum =
      ∑ u ∈ Finset.univ.erase t, ((c u).map w).sum := by
    refine Finset.sum_congr rfl fun u member => ?_
    rw [Function.update_of_ne (Finset.ne_of_mem_erase member)]
  rw [rest]
  omega

theorem tally_become (f' : φ) (running : c t = f :: rest) :
    tally w (Function.update c t (f' :: rest)) + w f = tally w c + w f' := by
  have exchanged := tally_update w c t (f' :: rest)
  rw [running] at exchanged
  simp only [List.map_cons, List.sum_cons] at exchanged
  omega

theorem tally_call (c : Crew τ φ) (t : τ) (f : φ) :
    tally w (Function.update c t (f :: c t)) = tally w c + w f := by
  have exchanged := tally_update w c t (f :: c t)
  simp only [List.map_cons, List.sum_cons] at exchanged
  omega

theorem tally_ret (running : c t = f :: rest) :
    tally w (Function.update c t rest) + w f = tally w c := by
  have exchanged := tally_update w c t rest
  rw [running] at exchanged
  simp only [List.map_cons, List.sum_cons] at exchanged
  omega

omit [DecidableEq τ] in
/-- The share of one thread is part of the sum. -/
theorem sum_le_tally (c : Crew τ φ) (t : τ) : ((c t).map w).sum ≤ tally w c :=
  Finset.single_le_sum (f := fun t => ((c t).map w).sum) (fun _ _ => Nat.zero_le _)
    (Finset.mem_univ t)

omit [DecidableEq τ] in
/-- Every frame is counted. -/
theorem le_tally (member : f ∈ c t) : w f ≤ tally w c :=
  (List.le_sum_of_mem (List.mem_map_of_mem member)).trans (sum_le_tally w c t)

omit [DecidableEq τ] in
/-- What no frame weighs, tallies to nothing. -/
theorem tally_eq_zero (none : ∀ t, ∀ f ∈ c t, w f = 0) : tally w c = 0 := by
  refine Finset.sum_eq_zero fun t _ => List.sum_eq_zero fun x member => ?_
  obtain ⟨f, present, rfl⟩ := List.mem_map.mp member
  exact none t f present

/-- **Two different frames are both counted.** -/
theorem add_le_tally (running : c t = f :: rest) (other : Other c t rest g) :
    w f + w g ≤ tally w c := by
  rcases other with below | ⟨u, different, member⟩
  · have share := sum_le_tally w c t
    rw [running, List.map_cons, List.sum_cons] at share
    have part := List.le_sum_of_mem (List.mem_map_of_mem (f := w) below)
    omega
  · have returned := tally_ret w running
    have kept : g ∈ Function.update c t rest u := by
      rw [Function.update_of_ne different]
      exact member
    have part := le_tally w kept
    omega

end Tally

/-! ## Answers -/

section Answers

variable {β : Type w} [DecidableEq β] [Fintype τ] {κ : φ → Option β} {c : Crew τ φ} {t : τ}
  {f f' : φ} {rest returned : List φ} {k : β}

/-- The number of frames that give an answer, on a stack or returned. -/
def answers (κ : φ → Option β) (c : Crew τ φ) (returned : List φ) (k : β) : ℕ :=
  c.tally (fun f => if κ f = some k then 1 else 0) + (returned.filterMap κ).count k

/-- Each answer is given by one frame at most. -/
def Once (κ : φ → Option β) (c : Crew τ φ) (returned : List φ) : Prop :=
  ∀ k, answers κ c returned k ≤ 1

omit [DecidableEq τ] in
theorem answers_eq_zero (none : ∀ t, ∀ f ∈ c t, κ f ≠ some k)
    (none' : ∀ f ∈ returned, κ f ≠ some k) : answers κ c returned k = 0 := by
  have noFrame : c.tally (fun f => if κ f = some k then 1 else 0) = 0 :=
    tally_eq_zero _ fun t f member => if_neg (none t f member)
  have noAnswer : (returned.filterMap κ).count k = 0 := by
    refine List.count_eq_zero.mpr fun member => ?_
    obtain ⟨f, present, is⟩ := List.mem_filterMap.mp member
    exact none' f present is
  rw [answers, noFrame, noAnswer]

/-- A new frame has no answer yet. -/
theorem Once.call (once : Once κ c returned) (none : κ f = none) :
    Once κ (Function.update c t (f :: c t)) returned := by
  intro k
  have bound := once k
  have called := tally_call (fun f => if κ f = some k then 1 else 0) c t f
  rw [none, if_neg (fun is => by cases is)] at called
  unfold answers at bound ⊢
  omega

/-- A frame that returns keeps its answer. -/
theorem Once.ret (once : Once κ c returned) (running : c t = f :: rest) :
    Once κ (Function.update c t rest) (f :: returned) := by
  intro k
  have bound := once k
  have left := tally_ret (fun f => if κ f = some k then 1 else 0) running
  unfold answers at bound ⊢
  cases here : κ f with
  | none =>
      rw [here, if_neg (fun is => by cases is)] at left
      rw [List.filterMap_cons_none here]
      omega
  | some j =>
      rw [List.filterMap_cons_some here, List.count_cons]
      by_cases same : j = k
      · subst same
        rw [here, if_pos rfl] at left
        rw [beq_self_eq_true, if_pos rfl]
        omega
      · rw [here, if_neg (fun is => same (Option.some_inj.mp is))] at left
        rw [beq_false_of_ne same, if_neg Bool.false_ne_true]
        omega

/-- **A frame that takes an answer nobody has given keeps the answers apart.** -/
theorem Once.become (once : Once κ c returned) (running : c t = f :: rest)
    (new : ∀ k, κ f' = some k → κ f = some k ∨ answers κ c returned k = 0) :
    Once κ (Function.update c t (f' :: rest)) returned := by
  intro k
  have bound := once k
  have exchanged := tally_become (fun f => if κ f = some k then 1 else 0) f' running
  have present := le_tally (fun f => if κ f = some k then 1 else 0) (f := f) (c := c) (t := t)
    (running ▸ List.mem_cons_self)
  unfold answers at bound ⊢
  by_cases gives : κ f' = some k
  · rcases new k gives with given | nobody
    · simp only [gives, given, if_true] at exchanged
      omega
    · unfold answers at nobody
      simp only [gives, if_true] at exchanged
      omega
  · simp only [if_neg gives] at exchanged
    omega

omit [DecidableEq τ] in
/-- The answers of those that have returned are different. -/
theorem Once.nodup (once : Once κ c returned) : (returned.filterMap κ).Nodup :=
  List.nodup_iff_count_le_one.mpr fun k => (Nat.le_add_left _ _).trans (once k)

end Answers

end Crew

end Concurrency
