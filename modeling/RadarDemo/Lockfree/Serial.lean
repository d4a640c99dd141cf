import RadarDemo.Lockfree.Progress
import RadarDemo.Observable

/-!
# Calls that do not overlap

The rest of the development uses the collection of observers from one call at a
time, and models it as a list of nodes that `insert` and `remove` change at once
(`Observable.Collection`).  This module justifies that model: calls that are made
one after another, by whichever threads, return what it says and leave the list
that it says; every other node has been deleted (`serial`).

`Goes` runs a call by itself.  There is one lemma for each loop of the source, by
induction on the nodes before it: `goes_seek` for `remove`, `goes_visit` for
`apply`, and `goes_gcTest` for the collector.
-/

namespace RadarDemo.Lockfree

open Concurrency Relation TransitionSystem

variable {ω : Type}

/-! ## The list of nodes -/

/-- A node, as the sequential model has it. -/
def Node.view (n : Node ω) : Observable.Node ω := ⟨n.nodeId, n.element, n.deleted⟩

/-- The nodes of a list, as the sequential model has them. -/
def nodes (s : Shared ω) (l : List ℕ) : List (Observable.Node ω) :=
  l.filterMap fun a => (s.heap a).map Node.view

section Nodes

variable {s s' : Shared ω} {a : ℕ} {n : Node ω} {l pre post : List ℕ}

@[simp] theorem nodes_nil : nodes s [] = [] := rfl

@[simp] theorem nodes_append : nodes s (pre ++ post) = nodes s pre ++ nodes s post :=
  List.filterMap_append

theorem nodes_cons (here : s.heap a = some n) : nodes s (a :: l) = n.view :: nodes s l := by
  simp [nodes, here]

theorem nodes_congr (same : ∀ a ∈ l, (s'.heap a).map Node.view = (s.heap a).map Node.view) :
    nodes s' l = nodes s l :=
  List.filterMap_congr same

/-- A node elsewhere does not matter. -/
theorem nodes_update {o : Option (Node ω)} (heap : s'.heap = Function.update s.heap a o)
    (notMem : a ∉ l) : nodes s' l = nodes s l := by
  refine nodes_congr fun b member => ?_
  have apart : b ≠ a := by rintro rfl; exact notMem member
  rw [heap, Function.update_of_ne apart]

/-- What `apply` hands on, in the order of the list. -/
theorem entries_eq : (entries s l).map Prod.snd =
    Observable.Collection.apply ⟨s.lastId, nodes s l⟩ := by
  unfold entries nodes Observable.Collection.apply
  rw [List.map_filterMap, List.filterMap_filterMap]
  refine List.filterMap_congr fun a _ => ?_
  cases s.heap a with
  | none => rfl
  | some n =>
      simp only [Option.bind_some, Option.map_some, Node.view]
      cases n.deleted <;> rfl

end Nodes

/-! ## A call by itself -/

/-- Steps of one call, with nothing in between. -/
def Goes : Shared ω × Frame ω → Shared ω × Frame ω → Prop :=
  ReflTransGen fun x y => advance x.1 x.2 = some y

/-- What neither a removal nor a collector changes. -/
structure Kept (s s' : Shared ω) : Prop where
  blockGc : s'.blockGc = s.blockGc
  gcActive : s'.gcActive = s.gcActive
  lastId : s'.lastId = s.lastId

theorem Kept.refl (s : Shared ω) : Kept s s := ⟨rfl, rfl, rfl⟩

theorem Kept.trans {s s' s'' : Shared ω} (first : Kept s s') (second : Kept s' s'') :
    Kept s s'' :=
  ⟨second.blockGc.trans first.blockGc, second.gcActive.trans first.gcActive,
    second.lastId.trans first.lastId⟩

section Loops

variable {s : Shared ω} {f : Frame ω} {m post : List ℕ} {head p : Option ℕ}

/-- The loop of `apply`, with a functor that leaves the collection alone. -/
theorem goes_visit (linked : Linked Node.next s.heap m) :
    Goes (s, f.goto (.visit m.head?))
      (s, { f with pc := .unblockGc false, called := (entries s m).reverse ++ f.called }) := by
  induction m generalizing f with
  | nil => exact .single rfl
  | cons a m ih =>
      obtain ⟨⟨n, here, after⟩, linked⟩ := linked
      cases marked : n.deleted with
      | true =>
          refine .head ?_ (entries_cons_of_marked here marked ▸ ih linked)
          simp [advance, Frame.goto, deref_of_some here, marked, after]
      | false =>
          have rest := ih (f := { f with called := n.entry :: f.called }) linked
          rw [entries_cons_of_unmarked here marked, List.reverse_cons, List.append_assoc]
          refine .head (b := (s, f.goto (.call a))) ?_ (.head
            (b := (s, { f with pc := .calling a, called := n.entry :: f.called })) ?_
            (.head ?_ rest))
          · simp [advance, Frame.goto, deref_of_some here, marked]
          · simp [advance, Frame.goto, deref_of_some here]
          · simp [advance, Frame.goto, deref_of_some here, after]

/-- The nodes keep their links, and the others are as they were. -/
structure Rewrites (s s' : Shared ω) (m : List ℕ) : Prop where
  kept : Kept s s'
  head : s'.head = s.head
  outside : ∀ a, a ∉ m → s'.heap a = s.heap a
  link : ∀ a n, s.heap a = some n → ∃ n', s'.heap a = some n' ∧ n'.next = n.next

/-- The loop of `remove`: it marks the first node with the id. -/
theorem goes_seek (elementId : ℕ) (linked : Linked Node.next s.heap m)
    (result : f.result = .removed false) :
    ∃ s', Goes (s, f.goto (.seek elementId m.head?))
        (s', { f with
          pc := .unblockGc true
          result := .removed (Observable.Collection.markDeleted elementId (nodes s m)).2
          gone := s.retired }) ∧
      nodes s' m = (Observable.Collection.markDeleted elementId (nodes s m)).1 ∧
      Rewrites s s' m := by
  induction m with
  | nil =>
      refine ⟨s, .single ?_, rfl, .refl s, rfl, fun _ _ => rfl, fun a n here => ⟨n, here, rfl⟩⟩
      simp [advance, Frame.goto, Observable.Collection.markDeleted, result]
  | cons a m ih =>
      have notMem := (List.nodup_cons.mp linked.nodup).1
      obtain ⟨⟨n, here, after⟩, linked⟩ := linked
      by_cases differs : n.nodeId ≠ elementId
      · obtain ⟨s', goes, same, kept, head, outside, link⟩ := ih linked
        have here' : s'.heap a = some n := (outside a notMem).trans here
        have passes : Observable.Collection.markDeleted elementId (nodes s (a :: m)) =
            (n.view :: (Observable.Collection.markDeleted elementId (nodes s m)).1,
              (Observable.Collection.markDeleted elementId (nodes s m)).2) := by
          rw [nodes_cons here, Observable.Collection.markDeleted,
            if_pos (show n.view.nodeId ≠ elementId from differs)]
        rw [passes]
        refine ⟨s', .head ?_ goes, ?_, kept, head, fun b absent => ?_, link⟩
        · simp [advance, Frame.goto, deref_of_some here, differs, after]
        · rw [nodes_cons here', same]
        · exact outside b fun member => absent (List.mem_cons_of_mem a member)
      · have finds : Observable.Collection.markDeleted elementId (nodes s (a :: m)) =
            ({ n.view with deleted := true } :: nodes s m, !n.deleted) := by
          rw [nodes_cons here, Observable.Collection.markDeleted,
            if_neg (show ¬ n.view.nodeId ≠ elementId from differs)]
          rfl
        rw [finds]
        refine ⟨{ s.write a { n with deleted := true } with
            retired := if n.deleted then s.retired else n.nodeId :: s.retired },
          .head (b := (s, f.goto (.markDeleted a))) ?_ (.single ?_), ?_, ⟨rfl, rfl, rfl⟩, rfl,
          fun b absent => ?_, fun b k there => ?_⟩
        · simp [advance, Frame.goto, deref_of_some here, differs]
        · simp [advance, Frame.goto, markDeleted, deref_of_some here]
        · rw [nodes_cons (Function.update_self ..), nodes_update rfl notMem]
          rfl
        · have apart : b ≠ a := by rintro rfl; exact absent List.mem_cons_self
          exact Function.update_of_ne apart ..
        · by_cases is : b = a
          · subst is
            rw [here, Option.some_inj] at there
            exact ⟨_, Function.update_self .., by rw [← there]⟩
          · exact ⟨k, (Function.update_of_ne is ..).trans there, rfl⟩

/-- What a collector's link leads to: the first of the nodes before it. -/
theorem link_eq {pre : List ℕ} (linked : Linked Node.next s.heap (pre ++ post))
    (last : p = pre.getLast?) (copy : pre = [] → head = post.head?) :
    s.link head p = some post.head? := by
  subst last
  rcases pre.eq_nil_or_concat with rfl | ⟨pre, a, rfl⟩
  · exact congrArg some (copy rfl)
  · rw [List.concat_eq_append, List.append_assoc] at linked
    obtain ⟨⟨n, here, after⟩, -⟩ := linked.append_right
    simp [Shared.link, here, after]

/-- A node that is unlinked and freed leaves no other behind. -/
theorem freed_of_unlisted {s' : Shared ω} {pre : List ℕ} {d : ℕ}
    (unlisted : ∀ a, a ∉ pre ++ d :: post → s.heap a = none)
    (heap : s'.heap = Function.update s.heap d none) : ∀ a, a ∉ pre ++ post → s'.heap a = none := by
  intro a absent
  rw [heap]
  by_cases is : a = d
  · rw [is, Function.update_self]
  · rw [Function.update_of_ne is]
    refine unlisted a fun listed => absent ?_
    rw [List.mem_append, List.mem_cons] at listed
    rw [List.mem_append]
    exact listed.imp_right (Or.resolve_left · is)

/-- **The collector's loop reclaims every marked node before it**, while nobody
raises the counter. -/
theorem goes_gcTest (pre : List ℕ) (head : Option ℕ)
    (linked : Linked Node.next s.heap (pre ++ post)) (last : p = pre.getLast?)
    (copy : pre = [] → head = post.head?) (first : s.head = (pre ++ post).head?)
    (zero : s.blockGc = 0) (unlisted : ∀ a, a ∉ pre ++ post → s.heap a = none) :
    ∃ s' m, Goes (s, f.goto (.gcTest head p)) (s', f.goto .gcDone) ∧
      Linked Node.next s'.heap m ∧ s'.head = m.head? ∧ Kept s s' ∧
      (∀ a, a ∉ m → s'.heap a = none) ∧
      nodes s' m = nodes s pre ++ (nodes s post).filter fun n => !n.deleted := by
  have link := link_eq linked last copy
  induction post generalizing s pre p head with
  | nil =>
      rw [List.append_nil] at linked first unlisted
      refine ⟨s, pre, .single ?_, linked, first, .refl s, unlisted, by simp⟩
      simp only [advance, Frame.goto, gcTest, link]
      rfl
  | cons d post ih =>
      obtain ⟨⟨n, here, after⟩, behind⟩ := linked.append_right
      have distinct := linked.nodup
      have enters : advance s (f.goto (.gcTest head p)) = some (s, f.goto (.gcNode head p)) := by
        simp [advance, Frame.goto, gcTest, link, zero]
      cases marked : n.deleted with
      | false =>
          have linked' : Linked Node.next s.heap ((pre ++ [d]) ++ post) := by
            rwa [List.append_assoc]
          have passes : advance s (f.goto (.gcNode head p)) =
              some (s, f.goto (.gcTest head (some d))) := by
            simp [advance, Frame.goto, gcNode, link, deref_of_some here, marked]
          obtain ⟨s', m, goes, linked'', first', kept, unlisted', same⟩ :=
            ih (pre ++ [d]) head linked' (p := some d) (by simp) (by simp)
              (by rwa [List.append_assoc]) zero (by rwa [List.append_assoc])
              (link_eq linked' (by simp) (by simp))
          refine ⟨s', m, .head enters (.head passes goes), linked'', first', kept, unlisted', ?_⟩
          rw [same, nodes_append, nodes_cons here, nodes_cons here, List.append_assoc,
            List.filter_cons_of_pos (by simp [Node.view, marked])]
          rfl
      | true =>
          have skips : (nodes s (d :: post)).filter (fun n => !n.deleted) =
              (nodes s post).filter fun n => !n.deleted := by
            rw [nodes_cons here, List.filter_cons_of_neg (by simp [Node.view, marked])]
          rw [skips]
          rcases List.eq_nil_or_concat' pre with rfl | ⟨pre, a, rfl⟩
          · obtain rfl : p = none := last
            have notMem := (List.nodup_cons.mp distinct).1
            have linked' : Linked Node.next (s.free d).heap ([] ++ post) := linked.unlink_first
            have frees : advance s (f.goto (.gcNode head none)) =
                some (s.free d, f.goto (.gcStore n.next)) := by
              simp [advance, Frame.goto, gcNode, link, deref_of_some here, marked]
            have rest : nodes (({ s.free d with head := n.next }) : Shared ω) post = nodes s post :=
              nodes_update rfl notMem
            obtain ⟨s', m, goes, linked'', first', kept, unlisted', same⟩ :=
              ih (s := { s.free d with head := n.next }) [] n.next linked' rfl (fun _ => after)
                after zero (freed_of_unlisted unlisted rfl) (congrArg some after)
            refine ⟨s', m, .head enters (.head frees (.head rfl goes)), linked'', first',
              ⟨kept.blockGc, kept.gcActive, kept.lastId⟩, unlisted', ?_⟩
            rw [same, rest]
            rfl
          · obtain rfl : p = some a := by simpa using last
            rw [List.append_assoc] at linked distinct first
            obtain ⟨⟨k, before, next⟩, -⟩ := linked.append_right
            have notMem : d ∉ (pre ++ [a]) ++ post := by
              have moved := distinct
              rw [List.singleton_append, List.append_cons, List.nodup_middle] at moved
              exact (List.nodup_cons.mp moved).1
            have frees : advance s (f.goto (.gcNode head (some a))) =
                some ((s.write a { k with next := n.next }).free d,
                  f.goto (.gcTest head (some a))) := by
              simp [advance, Frame.goto, gcNode, link, deref_of_some here, deref_of_some before,
                marked]
            have linked' : Linked Node.next ((s.write a { k with next := n.next }).free d).heap
                ((pre ++ [a]) ++ post) := by
              rw [List.append_assoc]
              exact linked.unlink_next after
            have rest : ∀ m, d ∉ m →
                nodes ((s.write a { k with next := n.next }).free d) m = nodes s m := by
              intro m absent
              refine (nodes_update rfl absent).trans (nodes_congr fun b _ => ?_)
              by_cases is : b = a
              · subst is
                rw [Shared.write_heap, Function.update_self, before]
                rfl
              · rw [Shared.write_heap, Function.update_of_ne is]
            have unlisted₁ : ∀ b, b ∉ (pre ++ [a]) ++ d :: post →
                (s.write a { k with next := n.next }).heap b = none := by
              intro b absent
              have apart : b ≠ a := by rintro rfl; exact absent (by simp)
              rw [Shared.write_heap, Function.update_of_ne apart]
              exact unlisted b absent
            obtain ⟨s', m, goes, linked'', first', kept, unlisted', same⟩ :=
              ih (s := (s.write a { k with next := n.next }).free d) (pre ++ [a]) head
                (p := some a) linked' (by simp) (by simp) (first.trans (by cases pre <;> rfl)) zero
                (freed_of_unlisted unlisted₁ rfl) (link_eq linked' (by simp) (by simp))
            refine ⟨s', m, .head enters (.head frees goes), linked'', first',
              ⟨kept.blockGc, kept.gcActive, kept.lastId⟩, unlisted', ?_⟩
            rw [same, rest _ fun member => notMem (List.mem_append_left _ member),
              rest _ fun member => notMem (List.mem_append_right _ member)]

end Loops

/-! ## The methods -/

/-- No call is in progress, the list is what the sequential model says, and it has
all the nodes there are. -/
structure Rests (s : Shared ω) (l : List ℕ) (c : Observable.Collection ω) : Prop where
  linked : Linked Node.next s.heap l
  unlisted : ∀ a, a ∉ l → s.heap a = none
  head : s.head = l.head?
  blockGc : s.blockGc = 0
  gcActive : s.gcActive = false
  lastId : s.lastId = c.lastId
  nodes : nodes s l = c.nodes

theorem Rests.eq {s : Shared ω} {l : List ℕ} {c : Observable.Collection ω} (rests : Rests s l c) :
    c = ⟨s.lastId, RadarDemo.Lockfree.nodes s l⟩ := by
  rw [rests.lastId, rests.nodes]

/-- A call by itself leaves the collection, returns the result and hands the
elements to its functor that are given. -/
def Performs (s : Shared ω) (f : Frame ω) (c : Observable.Collection ω)
    (answer : Result × List ω) : Prop :=
  ∃ s' l f', Goes (s, f) (s', f') ∧ f'.pc = .done ∧ Rests s' l c ∧
    (f'.result, f'.called.reverse.map Prod.snd) = answer

section Methods

variable {s : Shared ω} {f : Frame ω} {l : List ℕ} {c : Observable.Collection ω}

/-- A collection with nobody inside reclaims the marked nodes. -/
theorem goes_gc (rests : Rests s l c) :
    ∃ s' m, Goes (s, f.goto .gcBlocked) (s', f.goto .done) ∧ Rests s' m c.gc := by
  obtain ⟨linked, unlisted, first, zero, inactive, lastId, same⟩ := rests
  obtain ⟨s', m, goes, linked', first', kept, unlisted', same'⟩ :=
    goes_gcTest (s := { s with gcActive := true }) (f := f) [] s.head linked rfl (fun _ => first)
      first zero unlisted
  refine ⟨{ s' with gcActive := false }, m, ?_, linked', unlisted', first',
    kept.blockGc.trans zero, rfl, kept.lastId.trans lastId, ?_⟩
  · refine .head (b := (s, f.goto .gcActive)) ?_ (.head
      (b := ({ s with gcActive := true }, f.goto .gcHead)) ?_ (.head
      (b := ({ s with gcActive := true }, f.goto (.gcFirst s.head))) rfl ?_))
    · simp [advance, Frame.goto, zero]
    · simp [advance, Frame.goto, inactive]
    · -- The first look at the condition is like any other.
      rcases ReflTransGen.cases_head goes with same | ⟨x, enters, goes⟩
      · cases same
      · exact (ReflTransGen.head (a := (_, f.goto (.gcFirst s.head))) enters goes).tail rfl
  · show nodes s' m = c.nodes.filter _
    rw [same', ← same]
    rfl

/-- With one call inside. -/
def Shared.enter (s : Shared ω) : Shared ω := { s with blockGc := s.blockGc + 1 }

theorem goes_enter {task : Task} (inactive : s.gcActive = false) (here : f.pc = .blockGc task) :
    Goes (s, f) (s.enter, f.goto (.loadHead task)) := by
  refine .head (b := (s.enter, f.goto (.awaitGc task))) ?_ (.single ?_)
  · simp only [advance, here]
    rfl
  · simp [advance, Frame.goto, Shared.enter, inactive]

theorem performs_insert (rests : Rests s l c) (element : ω) {a : ℕ} (free : s.heap a = none) :
    Performs (newNode s (Frame.start (.insert element)) element a).1
      (newNode s (Frame.start (.insert element)) element a).2
      (c.insert element).1 (.inserted (c.insert element).2, []) := by
  obtain rfl := rests.eq
  let n : Node ω := ⟨none, element, false, s.lastId + 1⟩
  let f : Frame ω := (newNode s (Frame.start (.insert element)) element a).2
  let s₁ : Shared ω := (newNode s (Frame.start (.insert element)) element a).1
  let s₂ : Shared ω := s₁.enter.write a { n with next := s.head }
  let s₃ : Shared ω := { s₂ with head := some a, published := n.entry :: s.published }
  have notMem : a ∉ l := by
    intro member
    obtain ⟨m, here⟩ := rests.linked.allocated member
    rw [free] at here
    cases here
  have there : s₂.heap a = some { n with next := s.head } := Function.update_self ..
  have enters := goes_enter (s := s₁) (f := f) rests.gcActive rfl
  have loads : advance s₁.enter (f.goto (.loadHead (.insert a))) =
      some (s₂, f.goto (.exchangeHead a)) := by
    show some (deref s₁.enter _ a _) = _
    rw [deref_of_some (show s₁.enter.heap a = some n from Function.update_self ..)]
    rfl
  have exchanges : advance s₂ (f.goto (.exchangeHead a)) =
      some (s₃, f.goto (.unblockGc true)) := by
    show some (deref s₂ _ a _) = _
    rw [deref_of_some there, if_pos ⟨rfl, rfl⟩]
    rfl
  have linked : Linked Node.next s₂.heap (a :: l) :=
    ⟨⟨_, there, rests.head⟩, (rests.linked.update notMem _).update notMem _⟩
  have rests' : Rests { s₃ with blockGc := s₃.blockGc - 1 } (a :: l)
      ⟨s.lastId + 1, n.view :: nodes s l⟩ := by
    refine ⟨linked, fun b absent => ?_, rfl, (Nat.add_sub_cancel ..).trans rests.blockGc,
      rests.gcActive, rfl, ?_⟩
    · obtain ⟨apart, notListed⟩ := not_or.mp (mt List.mem_cons.mpr absent)
      show Function.update (Function.update s.heap a _) a _ b = none
      rw [Function.update_of_ne apart, Function.update_of_ne apart, rests.unlisted b notListed]
    · rw [nodes_cons (show Shared.heap { s₃ with blockGc := s₃.blockGc - 1 } a = _ from there)]
      exact congrArg _ ((nodes_update (s := s₁) rfl notMem).trans (nodes_update rfl notMem))
  obtain ⟨s', m, collects, rests''⟩ := goes_gc (f := f) rests'
  exact ⟨s', m, _, enters.trans (.head loads (.head exchanges (.head rfl collects))), rfl, rests'',
    rfl⟩

theorem performs_remove (rests : Rests s l c) (elementId : ℕ) :
    Performs s (Frame.start (.remove elementId)) (c.remove elementId).1
      (.removed (c.remove elementId).2, []) := by
  obtain rfl := rests.eq
  let f : Frame ω := { Frame.start (.remove elementId) with offered := s.live }
  obtain ⟨s', seeks, same, kept, head, outside, link⟩ :=
    goes_seek (s := s.enter) (f := f) elementId rests.linked rfl
  have zero : s'.blockGc - 1 = 0 := by
    rw [kept.blockGc]
    exact (Nat.add_sub_cancel ..).trans rests.blockGc
  have rests' : Rests { s' with blockGc := s'.blockGc - 1 } l
      ⟨s.lastId, (Observable.Collection.markDeleted elementId (nodes s l)).1⟩ :=
    ⟨rests.linked.frame fun a _ n here => link a n here,
      fun a absent => (outside a absent).trans (rests.unlisted a absent), head.trans rests.head,
      zero, kept.gcActive.trans rests.gcActive, kept.lastId, same⟩
  obtain ⟨s'', m, collects, rests''⟩ := goes_gc (f := { f with
    result := .removed (Observable.Collection.markDeleted elementId (nodes s l)).2
    gone := s.retired }) rests'
  have enters := goes_enter (f := Frame.start (.remove elementId)) rests.gcActive rfl
  have loads : advance s.enter ((Frame.start (.remove elementId)).goto
      (.loadHead (.remove elementId))) = some (s.enter, f.goto (.seek elementId l.head?)) := by
    rw [← rests.head]
    rfl
  exact ⟨s'', m, _, enters.trans (.head loads (seeks.trans (.head rfl collects))), rfl, rests'',
    rfl⟩

theorem performs_apply (rests : Rests s l c) :
    Performs s (Frame.start .apply) c (.applied, c.apply) := by
  obtain rfl := rests.eq
  let f : Frame ω := { Frame.start .apply with offered := s.live }
  have enters := goes_enter (f := Frame.start .apply) rests.gcActive rfl
  have loads : advance s.enter ((Frame.start .apply).goto (.loadHead .apply)) =
      some (s.enter, f.goto (.visit l.head?)) := by
    rw [← rests.head]
    rfl
  have visits := goes_visit (s := s.enter) (f := f) rests.linked
  refine ⟨s, l, _, (enters.trans (.head loads visits)).tail rfl, rfl, rests, ?_⟩
  rw [← entries_eq]
  show (Result.applied, List.map Prod.snd ((entries s l).reverse ++ []).reverse) = _
  rw [List.append_nil, List.reverse_reverse]

/-- `empty()` looks at the first node alone. -/
def isEmpty (c : Observable.Collection ω) : Bool := c.nodes.head?.all Observable.Node.deleted

theorem performs_empty (rests : Rests s l c) :
    Performs s (Frame.start .empty) c (.emptiness (isEmpty c), []) := by
  obtain rfl := rests.eq
  let f : Frame ω := { Frame.start .empty with offered := s.live }
  have enters := goes_enter (f := Frame.start .empty) rests.gcActive rfl
  cases l with
  | nil =>
      have loads : advance s.enter ((Frame.start .empty).goto (.loadHead .empty)) =
          some (s.enter, f.goto (.unblockGc false)) := by
        show some (loadHead s.enter _ .empty) = _
        simp only [loadHead, show s.enter.head = none from rests.head]
        rfl
      exact ⟨s, [], _, (enters.trans (.single loads)).tail rfl, rfl, rests, rfl⟩
  | cons a l =>
      obtain ⟨n, here, -⟩ := rests.linked.1
      have loads : advance s.enter ((Frame.start .empty).goto (.loadHead .empty)) =
          some (s.enter, f.goto (.loadDeleted a)) := by
        show some (loadHead s.enter _ .empty) = _
        simp only [loadHead, show s.enter.head = some a from rests.head]
        rfl
      have tells : advance s.enter (f.goto (.loadDeleted a)) =
          some (s.enter, { f with
            pc := .unblockGc false, result := .emptiness n.deleted, gone := s.retired,
            top := some n.nodeId }) := by
        show some (deref s.enter _ a _) = _
        rw [deref_of_some (show s.enter.heap a = some n from here)]
        rfl
      refine ⟨s, a :: l, _, (enters.trans (.head loads (.single tells))).tail rfl, rfl, rests, ?_⟩
      rw [isEmpty, nodes_cons here]
      rfl

end Methods

/-! ## Calls one after another -/

/-- What the sequential model says of a call: the collection that it leaves, what
it returns, and what it hands to its functor. -/
def perform (c : Observable.Collection ω) : Op ω → Observable.Collection ω × Result × List ω
  | .insert element => ((c.insert element).1, .inserted (c.insert element).2, [])
  | .remove elementId => ((c.remove elementId).1, .removed (c.remove elementId).2, [])
  | .apply => (c, .applied, c.apply)
  | .empty => (c, .emptiness (isEmpty c), [])

/-- The same of several calls. -/
def performAll (c : Observable.Collection ω) :
    List (Op ω) → Observable.Collection ω × List (Result × List ω)
  | [] => (c, [])
  | op :: ops =>
      let (c', answer) := perform c op
      let (c'', answers) := performAll c' ops
      (c'', answer :: answers)

theorem performAll_cons (c : Observable.Collection ω) (op : Op ω) (ops : List (Op ω)) :
    performAll c (op :: ops) = ((performAll (perform c op).1 ops).1,
      (perform c op).2 :: (performAll (perform c op).1 ops).2) := rfl

variable {τ : Type} [DecidableEq τ]

/-- The steps of a call whose functor leaves the collection alone and does not
throw. -/
def Action.proceeds : Action τ ω → Bool
  | .run _ | .allocate .. | .spurious _ => true
  | .start .. | .raise _ => false

/-- The call that is in progress in a thread returns with the answer. -/
def Ends (s : State τ ω) (t : τ) (answer : Result × List ω) (s' : State τ ω) : Prop :=
  ∃ as s₁ f, (∀ a ∈ as, a.thread = t ∧ a.proceeds = true) ∧
    (collection τ ω).exec s as = some s₁ ∧ s₁.threads t = [f] ∧ f.pc = .done ∧
    (f.result, f.called.reverse.map Prod.snd) = answer ∧ step s₁ (.run t) = some s'

/-- Each thread makes its call when the one before has returned, and the calls
return, and hand on, what is listed. -/
inductive OneByOne :
    State τ ω → List (τ × Op ω) → List (Result × List ω) → State τ ω → Prop
  | nil (s : State τ ω) : OneByOne s [] [] s
  | cons {s s₁ s₂ s' : State τ ω} {t : τ} {op : Op ω} {answer : Result × List ω}
      {ops : List (τ × Op ω)} {answers : List (Result × List ω)}
      (called : step s (.start t op) = some s₁) (ends : Ends s₁ t answer s₂)
      (rest : OneByOne s₂ ops answers s') :
      OneByOne s ((t, op) :: ops) (answer :: answers) s'

/-- Nothing is in progress, and the sequential model describes the collection. -/
def Idle (s : State τ ω) (c : Observable.Collection ω) : Prop :=
  s.threads = (fun _ => []) ∧ ∃ l, Rests s.shared l c

/-- The call of one thread, with no other one in progress. -/
def only (returned : List (Frame ω)) (t : τ) (x : Shared ω × Frame ω) : State τ ω :=
  ⟨x.1, Function.update (fun _ => []) t [x.2], returned⟩

section Lift

variable {r : List (Frame ω)} {t : τ} {x y z : Shared ω × Frame ω}

theorem only_threads (r : List (Frame ω)) (t : τ) (x : Shared ω × Frame ω) :
    (only r t x).threads t = [x.2] :=
  Function.update_self (f := fun _ => []) ..

theorem ne_done_of_advance (moved : advance x.1 x.2 = some y) : x.2.pc ≠ .done := by
  intro done
  simp only [advance, done, reduceCtorEq] at moved

/-- A call takes part in the steps of its thread. -/
theorem step_only {a : Action τ ω} (own : a.thread = t) (goesOn : x.2.pc ≠ .done)
    (moved : move x.1 x.2 a = some y) : step (only r t x) a = some (only r t y) := by
  subst own
  rw [step_of_move (only_threads r a.thread x) goesOn moved]
  simp only [only, Function.update_idem]

theorem step_of_advance (moved : advance x.1 x.2 = some y) :
    step (only r t x) (.run t) = some (only r t y) :=
  step_only rfl (ne_done_of_advance moved) moved

/-- A call by itself is a run of its thread. -/
theorem Goes.exec (goes : Goes x y) :
    ∃ n, (collection τ ω).exec (only r t x) (List.replicate n (.run t)) =
      some (only r t y) := by
  induction goes using ReflTransGen.head_induction_on with
  | refl => exact ⟨0, rfl⟩
  | head enters _ ih =>
      obtain ⟨n, ran⟩ := ih
      exact ⟨n + 1, (exec_cons_of_step _ (step_of_advance enters) _).trans ran⟩

omit [DecidableEq τ] in
/-- **A spurious failure does nothing, or what the step would have done.** -/
theorem spurious_eq {u : τ} (moved : move x.1 x.2 (.spurious u) = some z) :
    z = x ∨ advance x.1 x.2 = some z := by
  obtain ⟨s, f⟩ := x
  cases here : f.pc with
  | exchangeHead a =>
      simp only [move, here, Option.some_inj] at moved
      subst moved
      simp only [advance, here, exchangeHead, Option.some_inj]
      cases there : s.heap a with
      | none => exact Or.inr (by rw [deref, deref, there])
      | some n =>
          rw [deref_of_some there, deref_of_some there, if_neg (fun both => by cases both.2)]
          by_cases expected : n.next = s.head
          · have same : s.write a { n with next := s.head } = s := by
              rw [← expected, Shared.write, ← there, Function.update_eq_self]
            exact Or.inl (by rw [same])
          · exact Or.inr (if_neg fun both => expected both.1)
  | _ => simp only [move, here, reduceCtorEq] at moved

omit [DecidableEq τ] in
/-- A call that has been given its id is given no other. -/
theorem allocate_refused {u : τ} {b : ℕ} (moved : advance x.1 x.2 = some y) :
    move x.1 x.2 (.allocate u b) = none := by
  cases here : x.2.pc with
  | lastId element => simp only [advance, here, reduceCtorEq] at moved
  | _ => simp only [move, here]

/-- A thread that has returned has nothing to go on with. -/
theorem exec_of_idle {s s' : State τ ω} {as : List (Action τ ω)} (idle : s.threads t = [])
    (own : ∀ a ∈ as, a.thread = t ∧ a.proceeds = true)
    (ran : (collection τ ω).exec s as = some s') : s' = s := by
  cases as with
  | nil => exact (Option.some_inj.mp ran).symm
  | cons a as =>
      rw [TransitionSystem.exec_cons, Option.bind_eq_some_iff] at ran
      obtain ⟨s₁, stepped, -⟩ := ran
      obtain ⟨rfl, proceeds⟩ := own a List.mem_cons_self
      change step s a = some s₁ at stepped
      cases a with
      | start u op => cases proceeds
      | _ => simp only [step, idle, reduceCtorEq] at stepped

/-- What a thread can do with a call that is about to return. -/
theorem step_of_done {s s' : State τ ω} {f : Frame ω} {a : Action τ ω}
    (running : s.threads a.thread = [f]) (done : f.pc = .done) (proceeds : a.proceeds = true)
    (stepped : step s a = some s') : s'.threads a.thread = [] := by
  have returns : f.returns = true := by rw [Frame.returns, done]
  cases a with
  | run u =>
      have same := step_of_return (t := u) running done
      rw [stepped, Option.some_inj] at same
      rw [same]
      exact Function.update_self ..
  | start u op => cases proceeds
  | raise u => cases proceeds
  | _ =>
      simp only [step, running, returns, Action.isRun, if_true, Bool.false_eq_true, if_false,
        reduceCtorEq] at stepped

/-- And any run of its thread that lets it return is that one. -/
theorem Goes.unique (goes : Goes x y) (done : y.2.pc = .done) {as : List (Action τ ω)}
    (own : ∀ a ∈ as, a.thread = t ∧ a.proceeds = true) {s : State τ ω} {g : Frame ω}
    (ran : (collection τ ω).exec (only r t x) as = some s)
    (running : s.threads t = [g]) (returns : g.pc = .done) : s = only r t y := by
  induction as generalizing x with
  | nil =>
      obtain rfl := Option.some_inj.mp ran
      obtain rfl : x.2 = g := (List.cons.inj ((only_threads r t x).symm.trans running)).1
      rcases ReflTransGen.cases_head goes with rfl | ⟨z, enters, -⟩
      · rfl
      · exact absurd returns (ne_done_of_advance enters)
  | cons a as ih =>
      rw [TransitionSystem.exec_cons, Option.bind_eq_some_iff] at ran
      obtain ⟨s₁, stepped, ran⟩ := ran
      obtain ⟨⟨rfl, proceeds⟩, own⟩ := List.forall_mem_cons.mp own
      change step _ a = some s₁ at stepped
      rcases ReflTransGen.cases_head goes with rfl | ⟨z, enters, goes'⟩
      · have idle := step_of_done (only_threads r a.thread x) done proceeds stepped
        rw [exec_of_idle idle own ran, idle] at running
        cases running
      have goesOn := ne_done_of_advance enters
      cases a with
      | run u =>
          rw [step_only (a := .run u) rfl goesOn enters, Option.some_inj] at stepped
          subst stepped
          exact ih goes' own ran
      | allocate u b =>
          have refused := allocate_refused (u := u) (b := b) enters
          rw [step_of_refused (only_threads r u x) goesOn (fun _ _ is => by cases is) refused]
            at stepped
          cases stepped
      | spurious u =>
          cases moved : move x.1 x.2 (.spurious u) with
          | none =>
              rw [step_of_refused (only_threads r u x) goesOn (fun _ _ is => by cases is) moved]
                at stepped
              cases stepped
          | some x' =>
              rw [step_only rfl goesOn moved, Option.some_inj] at stepped
              subst stepped
              rcases spurious_eq moved with rfl | same
              · exact ih goes own ran
              · rw [enters, Option.some_inj] at same
                exact ih (same ▸ goes') own ran
      | start u op => cases proceeds
      | raise u => cases proceeds

/-- **A call that runs by itself ends, and in one way.** -/
theorem Performs.ends {c : Observable.Collection ω} {answer : Result × List ω}
    (performs : Performs x.1 x.2 c answer) :
    (∃ s', Ends (only r t x) t answer s') ∧
      ∀ answer' s', Ends (only r t x) t answer' s' → answer' = answer ∧ Idle s' c := by
  obtain ⟨s', l, f, goes, done, rests, is⟩ := performs
  have returned : step (only r t (s', f)) (.run t) = some ⟨s', fun _ => [], f :: r⟩ := by
    rw [step_of_return (only_threads r t (s', f)) done]
    simp only [only, Function.update_idem, Function.update_eq_self]
  constructor
  · obtain ⟨n, ran⟩ := Goes.exec (r := r) (t := t) goes
    refine ⟨_, List.replicate n (.run t), _, f, fun a member => ?_, ran, only_threads r t (s', f),
      done, is, returned⟩
    rw [List.eq_of_mem_replicate member]
    exact ⟨rfl, rfl⟩
  · rintro answer' s'' ⟨as, s₁, g, own, ran, running, done', is', returned'⟩
    obtain rfl := Goes.unique goes done own ran running done'
    change step (only r t (s', f)) (.run t) = some s'' at returned'
    obtain rfl : f = g := (List.cons.inj ((only_threads r t (s', f)).symm.trans running)).1
    rw [returned, Option.some_inj] at returned'
    exact ⟨is'.symm.trans is, returned' ▸ ⟨rfl, l, rests⟩⟩

/-- An insertion begins with its id and its node. -/
theorem ends_insert {s : Shared ω} {element : ω} {answer : Result × List ω} {s' : State τ ω} :
    Ends (only r t (s, Frame.start (.insert element))) t answer s' ↔
      ∃ a, s.heap a = none ∧
        Ends (only r t (newNode s (Frame.start (.insert element)) element a)) t answer s' := by
  let x : Shared ω × Frame ω := (s, Frame.start (.insert element))
  have goesOn : x.2.pc ≠ .done := fun is => by cases is
  have moves : ∀ a, s.heap a = none → move x.1 x.2 (.allocate t a) =
      some (newNode s (Frame.start (.insert element)) element a) := by
    intro a free
    simp only [x, move, Frame.start, free]
    rfl
  have allocates : ∀ a, s.heap a = none → step (only r t x) (.allocate t a) =
      some (only r t (newNode s (Frame.start (.insert element)) element a)) :=
    fun a free => step_only rfl goesOn (moves a free)
  constructor
  · rintro ⟨as, s₁, f, own, ran, running, done, is, returned⟩
    cases as with
    | nil =>
        rw [← Option.some_inj.mp ran, only_threads] at running
        rw [← (List.cons.inj running).1] at done
        cases done
    | cons a as =>
        rw [TransitionSystem.exec_cons, Option.bind_eq_some_iff] at ran
        obtain ⟨s₂, stepped, ran⟩ := ran
        obtain ⟨⟨rfl, proceeds⟩, own⟩ := List.forall_mem_cons.mp own
        change step (only r a.thread x) a = some s₂ at stepped
        -- Nothing but the allocator lets it go on.
        have refuses : (∀ u op, a ≠ .start u op) → move x.1 x.2 a = none → False := by
          intro notStart refused
          rw [step_of_refused (only_threads r a.thread x) goesOn notStart refused] at stepped
          cases stepped
        cases a with
        | run u => exact (refuses (fun _ _ is => by cases is) rfl).elim
        | spurious u => exact (refuses (fun _ _ is => by cases is) rfl).elim
        | allocate u b =>
            by_cases free : s.heap b = none
            · have allocated := allocates b free
              change step _ (.allocate u b) = _ at allocated
              rw [allocated, Option.some_inj] at stepped
              subst stepped
              exact ⟨b, free, as, s₁, f, own, ran, running, done, is, returned⟩
            · refine (refuses (fun _ _ is => by cases is) (if_neg ?_)).elim
              rwa [Option.isNone_iff_eq_none]
        | start u op => cases proceeds
        | raise u => cases proceeds
  · rintro ⟨a, free, as, s₁, f, own, ran, rest⟩
    refine ⟨.allocate t a :: as, s₁, f, List.forall_mem_cons.mpr ⟨⟨rfl, rfl⟩, own⟩, ?_, rest⟩
    exact (exec_cons_of_step _ (allocates a free) as).trans ran

end Lift

variable [Fintype τ]

/-- **One call does what the sequential model says**, and nothing else. -/
theorem Idle.call {s s₁ : State τ ω} {c : Observable.Collection ω} (idle : Idle s c)
    {l : List ℕ} (sound : Sound s l) {t : τ} {op : Op ω} (called : step s (.start t op) = some s₁) :
    (∃ s', Ends s₁ t (perform c op).2 s') ∧
      ∀ answer s', Ends s₁ t answer s' → answer = (perform c op).2 ∧ Idle s' (perform c op).1 := by
  obtain ⟨nobody, m, rests⟩ := idle
  have is : s₁ = only s.returned t (s.shared, Frame.start op) := by
    have threads : s.threads t = [] := by rw [nobody]
    simp only [step, Action.thread, threads, mayCall, if_true, Option.some_inj] at called
    rw [← called, nobody]
    rfl
  subst is
  cases op with
  | insert element =>
      obtain ⟨a, free⟩ := sound.exists_free
      constructor
      · obtain ⟨s', ends⟩ := (performs_insert rests element free).ends (t := t) |>.1
        exact ⟨s', ends_insert.mpr ⟨a, free, ends⟩⟩
      · intro answer s' ends
        obtain ⟨b, free, ends⟩ := ends_insert.mp ends
        exact (performs_insert rests element free).ends.2 answer s' ends
  | remove elementId => exact (performs_remove rests elementId).ends
  | apply => exact (performs_apply rests).ends
  | empty => exact (performs_empty rests).ends

theorem Sound.step {s s' : State τ ω} {l : List ℕ} {a : Action τ ω} (sound : Sound s l)
    (stepped : step s a = some s') : ∃ l', Sound s' l' := by
  obtain ⟨l', turn⟩ := sound.turn stepped
  exact ⟨l', turn.sound sound⟩

theorem Sound.exec {s s' : State τ ω} {l : List ℕ} (sound : Sound s l) {as : List (Action τ ω)}
    (ran : (collection τ ω).exec s as = some s') : ∃ l', Sound s' l' := by
  induction as generalizing s l with
  | nil => exact ⟨l, Option.some_inj.mp ran ▸ sound⟩
  | cons a as ih =>
      rw [TransitionSystem.exec_cons, Option.bind_eq_some_iff] at ran
      obtain ⟨s₁, stepped, ran⟩ := ran
      obtain ⟨l₁, sound⟩ := sound.step stepped
      exact ih sound ran

theorem Ends.sound {s s' : State τ ω} {l : List ℕ} {t : τ} {answer : Result × List ω}
    (ends : Ends s t answer s') (sound : Sound s l) : ∃ l', Sound s' l' := by
  obtain ⟨as, s₁, f, -, ran, -, -, -, returned⟩ := ends
  obtain ⟨l₁, sound⟩ := sound.exec ran
  exact sound.step returned

theorem Idle.oneByOne {s : State τ ω} {c : Observable.Collection ω} (idle : Idle s c)
    {l : List ℕ} (sound : Sound s l) (ops : List (τ × Op ω)) :
    (∃ s', OneByOne s ops (performAll c (ops.map Prod.snd)).2 s') ∧
      ∀ answers s', OneByOne s ops answers s' →
        answers = (performAll c (ops.map Prod.snd)).2 ∧
          Idle s' (performAll c (ops.map Prod.snd)).1 := by
  induction ops generalizing s c l with
  | nil =>
      refine ⟨⟨s, .nil s⟩, fun answers s' made => ?_⟩
      cases made
      exact ⟨rfl, idle⟩
  | cons first ops ih =>
      obtain ⟨t, op⟩ := first
      rw [List.map_cons, performAll_cons]
      have may : mayCall (s.threads t) = true := by rw [idle.1]; rfl
      have called : step s (.start t op) =
          some { s with threads := Function.update s.threads t (Frame.start op :: s.threads t) } :=
        if_pos may
      obtain ⟨l₁, sound₁⟩ := sound.step called
      obtain ⟨⟨s₂, ends⟩, only⟩ := idle.call sound called
      constructor
      · obtain ⟨l₂, sound₂⟩ := ends.sound sound₁
        obtain ⟨s', made⟩ := (ih (only _ s₂ ends).2 sound₂).1
        exact ⟨s', .cons called ends made⟩
      · intro answers s' made
        cases made with
        | cons called' ends' rest =>
            obtain rfl := Option.some_inj.mp (called.symm.trans called')
            obtain ⟨l₂, sound₂⟩ := ends'.sound sound₁
            obtain ⟨rfl, idle₂⟩ := only _ _ ends'
            obtain ⟨rfl, idle'⟩ := (ih idle₂ sound₂).2 _ s' rest
            exact ⟨rfl, idle'⟩

/-- **Calls that do not overlap are what the sequential model says**: they return,
they return what it says and nothing else, and they leave the list that it says,
without a marked node in it. -/
theorem serial (ops : List (τ × Op ω)) :
    (∃ s', OneByOne (collection τ ω).init ops
      (performAll .empty (ops.map Prod.snd)).2 s') ∧
    ∀ answers s', OneByOne (collection τ ω).init ops answers s' →
      answers = (performAll .empty (ops.map Prod.snd)).2 ∧
        Idle s' (performAll .empty (ops.map Prod.snd)).1 := by
  refine Idle.oneByOne ⟨rfl, [], ?_⟩ sound_init ops
  exact ⟨trivial, fun _ _ => rfl, rfl, rfl, rfl, rfl, rfl⟩

end RadarDemo.Lockfree
