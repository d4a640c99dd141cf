import RadarDemo.Lockfree.Collection

/-!
# What holds of the collection in every reachable state

The list of the collection is not the one that `head_` points to: between the
`delete` of the first node and the store behind it `head_` dangles.  It is the
list `l` that `head_` will point to once the collector has stored, and the
invariant `Sound s l` is about that one.

* The gate is safe: the counter counts the calls inside a `gc_blocker`, and
  while a collector is alone nobody is inside (`Concurrency.Gate.Safe`).
* A node that is not published yet belongs to one call, and is not in the list.
* What a call is about to dereference is in the list, or its own new node.
* Ids are handed out once; the marks of the listed nodes are what `retired` says.

`Change` says what one step makes of the heap and the list.  It is the interface
to everything that follows: no later module looks at a program counter to learn
what a step does to the list.
-/

namespace RadarDemo.Lockfree

open Concurrency Concurrency.Gate

variable {ω : Type}

/-! ## What a program counter is about -/

/-- What a call is to the gate. -/
@[simp] def Pc.role : Pc ω → Role
  | .awaitGc _ => .announced
  | .loadHead _ | .exchangeHead _ | .seek .. | .markDeleted _ | .visit _ | .call _ | .calling _
  | .loadDeleted _ | .unblockGc _ => .inside
  | .gcHead | .gcFirst _ | .gcDone => .claimed
  | .gcTest .. | .gcNode .. | .gcStore _ => .sole
  | .lastId _ | .blockGc _ | .gcBlocked | .gcActive | .done => .outside

/-- The new node of an insertion. -/
@[simp] def Task.own : Task → Option ℕ
  | .insert a => some a
  | _ => none

/-- The node a call has made and not published yet. -/
@[simp] def Pc.own : Pc ω → Option ℕ
  | .blockGc task | .awaitGc task | .loadHead task => task.own
  | .exchangeHead a => some a
  | _ => none

/-- The listed node a call is about to dereference. -/
@[simp] def Pc.cursor : Pc ω → Option ℕ
  | .seek _ c | .visit c | .gcFirst c => c
  | .markDeleted a | .call a | .calling a | .loadDeleted a => some a
  | .gcTest head p | .gcNode head p => p.or head
  | _ => none

/-- The collector is at a node. -/
@[simp] def Pc.isNode : Pc ω → Bool
  | .gcNode .. => true
  | _ => false

/-- The collector has freed the first node and is about to store the next. -/
@[simp] def Pc.isStore : Pc ω → Bool
  | .gcStore _ => true
  | _ => false

/-- An insertion is about to exchange the head. -/
@[simp] def Pc.isExchange : Pc ω → Bool
  | .exchangeHead _ => true
  | _ => false

theorem Pc.ne_gcNode {pc : Pc ω} (not : pc.isNode = false) (head p : Option ℕ) :
    pc ≠ .gcNode head p := by
  rintro rfl
  cases not

theorem Pc.ne_gcStore {pc : Pc ω} (not : pc.isStore = false) (head : Option ℕ) :
    pc ≠ .gcStore head := by
  rintro rfl
  cases not

/-- A call with a cursor is inside, or a collector. -/
theorem Pc.role_of_cursor {pc : Pc ω} {a : ℕ} (points : pc.cursor = some a) :
    pc.role = .inside ∨ pc.role = .claimed ∨ pc.role = .sole := by
  cases pc <;> simp_all

/-- A new node: no longer than until it is published it is out of the list. -/
structure Private (s : Shared ω) (l : List ℕ) (a : ℕ) : Prop where
  exists_node : ∃ n, s.heap a = some n ∧ n.deleted = false ∧ n.nodeId ∉ s.ids
  notMem : a ∉ l

/-- What holds of every value of an empty option. -/
theorem forall_of_none {o : Option ℕ} {P : ℕ → Prop} (none : o = none) : ∀ a, o = some a → P a := by
  rintro a rfl
  cases none

/-- What holds at a program counter. -/
structure PcOk (s : Shared ω) (l : List ℕ) (pc : Pc ω) : Prop where
  own : ∀ a, pc.own = some a → Private s l a
  cursor : ∀ a, pc.cursor = some a → a ∈ l
  node : ∀ head p, pc = .gcNode head p → ∃ d, s.link head p = some (some d)
  store : ∀ head, pc = .gcStore head → head = l.head?

/-- Outside the collector's loop only the own node and the cursor matter. -/
theorem PcOk.of_not {s : Shared ω} {l : List ℕ} {pc : Pc ω}
    (own : ∀ a, pc.own = some a → Private s l a) (cursor : ∀ a, pc.cursor = some a → a ∈ l)
    (notNode : pc.isNode = false) (notStore : pc.isStore = false) : PcOk s l pc where
  own := own
  cursor := cursor
  node := fun head p is => absurd is (Pc.ne_gcNode notNode head p)
  store := fun head is => absurd is (Pc.ne_gcStore notStore head)

/-! ## The invariant -/

/-- How the ids of the nodes, and the marks, fit the history. -/
structure Ids (s : Shared ω) (l : List ℕ) : Prop where
  le_lastId : ∀ a n, s.heap a = some n → n.nodeId ≤ s.lastId
  injective : ∀ a b m n, s.heap a = some m → s.heap b = some n → m.nodeId = n.nodeId → a = b
  ids_le : ∀ i ∈ s.ids, i ≤ s.lastId
  listed : ∀ a ∈ l, ∀ n, s.heap a = some n →
    n.entry ∈ s.published ∧ (n.deleted = true ↔ n.nodeId ∈ s.retired)
  ids_nodup : s.ids.Nodup
  retired_nodup : s.retired.Nodup
  retired_subset : s.retired ⊆ s.ids

variable {τ : Type} [DecidableEq τ]

/-- No collector is between the `delete` of a first node and the store. -/
def Settled (c : Crew τ (Frame ω)) : Prop := ∀ t, ∀ f ∈ c t, ∀ head, f.pc ≠ .gcStore head

variable [Fintype τ]

/-- The invariant, with the list that the collection stands for. -/
structure Sound (s : State τ ω) (l : List ℕ) : Prop where
  fault : s.shared.fault = false
  gate : Safe s.shared.blockGc s.shared.gcActive (census (fun f => f.pc.role) s.threads)
  owner : ∀ a, s.threads.tally (fun f => if f.pc.own = some a then 1 else 0) ≤ 1
  frames : ∀ t, ∀ f ∈ s.threads t, PcOk s.shared l f.pc
  linked : Linked Node.next s.shared.heap l
  head : Settled s.threads → s.shared.head = l.head?
  ids : Ids s.shared l

theorem sound_init : Sound (collection τ ω).init [] where
  fault := rfl
  gate := ⟨by simp [collection, census, Crew.tally, Shared.empty],
    by simp [collection, census, Crew.tally, Shared.empty],
    by simp [collection, census, Crew.tally]⟩
  owner := fun a => by simp [collection, Crew.tally]
  frames := fun _ _ member => absurd member List.not_mem_nil
  linked := trivial
  head := fun _ => rfl
  ids := by constructor <;> simp [collection, Shared.empty, Shared.ids]

/-! ## What a step makes of the list -/

/-- The changes of the shared state and of the list, by the program counter that
makes them. -/
inductive Change (s : Shared ω) (l : List ℕ) : Pc ω → Shared ω → List ℕ → Prop
  | quiet (pc : Pc ω) (n : ℕ) (b : Bool) :
      Change s l pc { s with blockGc := n, gcActive := b } l
  | newNode {element : ω} {a : ℕ} (free : s.heap a = none) :
      Change s l (.lastId element)
        (({ s with lastId := s.lastId + 1 } : Shared ω).write a
          ⟨none, element, false, s.lastId + 1⟩) l
  | relink {pc : Pc ω} {a : ℕ} {n : Node ω} (own : pc.own = some a) (here : s.heap a = some n) :
      Change s l pc (s.write a { n with next := s.head }) l
  | publish {a : ℕ} {n : Node ω} (here : s.heap a = some n) (expected : n.next = s.head) :
      Change s l (.exchangeHead a)
        { s with head := some a, published := n.entry :: s.published } (a :: l)
  | mark {a : ℕ} {n : Node ω} (member : a ∈ l) (here : s.heap a = some n) :
      Change s l (.markDeleted a)
        { s.write a { n with deleted := true } with
          retired := if n.deleted then s.retired else n.nodeId :: s.retired } l
  | unlinkFirst {d : ℕ} {n : Node ω} {pre post : List ℕ} (split : l = pre ++ d :: post)
      (here : s.heap d = some n) (marked : n.deleted = true) :
      Change s l (.gcNode (some d) none) (s.free d) post
  | unlinkNext {head : Option ℕ} {a d : ℕ} {m n : Node ω} {pre post : List ℕ}
      (split : l = pre ++ a :: d :: post) (before : s.heap a = some m) (here : s.heap d = some n)
      (marked : n.deleted = true) :
      Change s l (.gcNode head (some a)) ((s.write a { m with next := n.next }).free d)
        (pre ++ a :: post)
  | store (head : Option ℕ) : Change s l (.gcStore head) { s with head := head } l

/-! ## The calls that a step leaves alone -/

section Congr

variable {s s' : Shared ω} {l : List ℕ} {pc : Pc ω}

/-- What holds at a program counter depends on the heap and the history alone. -/
theorem PcOk.congr (ok : PcOk s l pc) (heap : s'.heap = s.heap)
    (ids : s'.ids = s.ids) : PcOk s' l pc where
  own := fun a is => by
    obtain ⟨node, notMem⟩ := ok.own a is
    exact ⟨by rwa [heap, ids], notMem⟩
  cursor := ok.cursor
  node := fun head p is => by
    obtain ⟨d, link⟩ := ok.node head p is
    refine ⟨d, ?_⟩
    cases p with
    | none => exact link
    | some a => rwa [Shared.link, heap]
  store := ok.store

/-- A write to a node that is not the call's own, and that leaves the links of
the list as they are, leaves the call alone. -/
theorem PcOk.write (ok : PcOk s l pc) {b : ℕ} {n : Node ω} (notOwn : pc.own ≠ some b)
    (link : b ∈ l → (s.heap b).map Node.next = some n.next)
    (heap : s'.heap = Function.update s.heap b (some n)) (ids : s'.ids = s.ids) :
    PcOk s' l pc where
  own := fun a is => by
    obtain ⟨node, notMem⟩ := ok.own a is
    have apart : a ≠ b := by rintro rfl; exact notOwn is
    exact ⟨by rwa [heap, ids, Function.update_of_ne apart], notMem⟩
  cursor := ok.cursor
  node := fun head p is => by
    obtain ⟨d, points⟩ := ok.node head p is
    refine ⟨d, ?_⟩
    cases p with
    | none => exact points
    | some a =>
        have member : a ∈ l := ok.cursor a (by rw [is]; rfl)
        rw [Shared.link] at points ⊢
        rw [heap]
        by_cases same : a = b
        · subst same
          rw [Function.update_self, ← points, link member, Option.map_some]
        · rw [Function.update_of_ne same, points]
  store := ok.store

end Congr

section Others

variable {s : State τ ω} {l l' : List ℕ} {s' : Shared ω} {t : τ} {f g : Frame ω}
  {rest : List (Frame ω)}

/-- No two calls own the same node. -/
theorem Sound.own_ne (sound : Sound s l) (running : s.threads t = f :: rest)
    (other : Crew.Other s.threads t rest g) {a : ℕ} (own : f.pc.own = some a) :
    g.pc.own ≠ some a := by
  intro own'
  have both := Crew.add_le_tally (fun f => if f.pc.own = some a then 1 else 0) running other
  have bound := sound.owner a
  simp only [own, own', if_true] at both
  omega

/-- A call beside a collector that is alone has no cursor, and is no collector. -/
theorem Sound.apart (sound : Sound s l) (running : s.threads t = f :: rest)
    (other : Crew.Other s.threads t rest g) (sole : f.pc.role = .sole) :
    g.pc.role ≠ .sole ∧ g.pc.cursor = none := by
  obtain ⟨u, present⟩ := other.exists_mem running
  have notInside := sound.gate.not_inside (running ▸ List.mem_cons_self) sole present
  have notCaretaker := sound.gate.not_caretaker running (Or.inr sole) other
  refine ⟨notCaretaker.2, ?_⟩
  cases points : g.pc.cursor with
  | none => rfl
  | some a =>
      rcases Pc.role_of_cursor points with is | is | is
      · exact absurd is notInside
      · exact absurd is notCaretaker.1
      · exact absurd is notCaretaker.2

omit [DecidableEq τ] in
/-- What is not allocated is nobody's own, and is not in the list. -/
theorem Sound.fresh (sound : Sound s l) {a : ℕ} (free : s.shared.heap a = none) :
    (∀ u, ∀ g ∈ s.threads u, g.pc.own ≠ some a) ∧ a ∉ l := by
  constructor
  · intro u g present own
    obtain ⟨⟨n, here, -⟩, -⟩ := (sound.frames u g present).own a own
    rw [free] at here
    cases here
  · intro member
    obtain ⟨n, here⟩ := sound.linked.allocated member
    rw [free] at here
    cases here

omit [DecidableEq τ] in
/-- A listed node is nobody's own. -/
theorem Sound.own_ne_of_mem (sound : Sound s l) {u : τ} (present : g ∈ s.threads u) {a : ℕ}
    (member : a ∈ l) : g.pc.own ≠ some a :=
  fun own => ((sound.frames u g present).own a own).notMem member

/-- While a collector is alone, another call has at most a node of its own. -/
theorem Sound.others_of_sole (sound : Sound s l) (running : s.threads t = f :: rest)
    (other : Crew.Other s.threads t rest g) (sole : f.pc.role = .sole)
    (ids : s'.ids = s.shared.ids) (part : l' ⊆ l)
    (kept : ∀ a, a ∉ l → s'.heap a = s.shared.heap a) : PcOk s' l' g.pc := by
  obtain ⟨u, present⟩ := other.exists_mem running
  obtain ⟨own, cursor, node, store⟩ := sound.frames u g present
  obtain ⟨notSole, noCursor⟩ := sound.apart running other sole
  refine ⟨fun a is => ?_, fun a is => ?_, fun head p is => ?_, fun head is => ?_⟩
  · obtain ⟨there, notMem⟩ := own a is
    exact ⟨by rwa [kept a notMem, ids], fun member => notMem (part member)⟩
  · rw [noCursor] at is
    cases is
  · rw [is] at notSole
    exact absurd rfl notSole
  · rw [is] at notSole
    exact absurd rfl notSole

/-- **The other calls stay as they were.** -/
theorem Sound.others (sound : Sound s l) (running : s.threads t = f :: rest)
    (change : Change s.shared l f.pc s' l') (other : Crew.Other s.threads t rest g) :
    PcOk s' l' g.pc := by
  obtain ⟨u, present⟩ := other.exists_mem running
  have ok := sound.frames u g present
  have member : f ∈ s.threads t := running ▸ List.mem_cons_self
  generalize here : f.pc = pc at change
  cases change with
  | quiet _ n b => exact ok.congr rfl rfl
  | newNode free =>
      obtain ⟨unowned, notMem⟩ := sound.fresh free
      exact ok.write (unowned u g present) (fun member => absurd member notMem) rfl rfl
  | relink own there =>
      rw [← here] at own
      have notMem := ((sound.frames t f member).own _ own).notMem
      exact ok.write (sound.own_ne running other own) (fun member => absurd member notMem) rfl rfl
  | @publish a n there expected =>
      have own : f.pc.own = some a := by rw [here]; rfl
      have notSole : g.pc.role ≠ .sole := fun sole =>
        sound.gate.not_inside present sole member (by rw [here]; rfl)
      refine ⟨fun b is => ?_, fun b is => ?_, ok.node, fun head is => ?_⟩
      · obtain ⟨⟨m, there', unmarked, new⟩, notMem⟩ := ok.own b is
        have apart : b ≠ a := by rintro rfl; exact sound.own_ne running other own is
        refine ⟨⟨m, there', unmarked, fun known => ?_⟩, fun known => ?_⟩
        · rcases List.mem_cons.mp known with same | known
          · exact apart (sound.ids.injective b a m n there' there same)
          · exact new known
        · rcases List.mem_cons.mp known with same | known
          · exact apart same
          · exact notMem known
      · exact List.mem_cons_of_mem a (ok.cursor b is)
      · rw [is] at notSole
        exact absurd rfl notSole
  | @mark a n listed there =>
      refine ok.write (n := { n with deleted := true }) (sound.own_ne_of_mem present listed)
        (fun _ => ?_) rfl rfl
      rw [there]
      rfl
  | @unlinkFirst d n pre post split there marked =>
      subst split
      refine sound.others_of_sole running other (by rw [here]; rfl) rfl ?_ fun a notMem => ?_
      · exact fun a later => by simp [later]
      · have apart : a ≠ d := by rintro rfl; exact notMem (by simp)
        exact Function.update_of_ne apart ..
  | @unlinkNext head a d m n pre post split before there marked =>
      subst split
      refine sound.others_of_sole running other (by rw [here]; rfl) rfl ?_ fun b notMem => ?_
      · exact fun b later => by simp at later ⊢; tauto
      · have notA : b ≠ a := by rintro rfl; exact notMem (by simp)
        have notD : b ≠ d := by rintro rfl; exact notMem (by simp)
        show Function.update (Function.update s.shared.heap a _) d none b = _
        rw [Function.update_of_ne notD, Function.update_of_ne notA]
  | store head => exact ok.congr rfl rfl

end Others

/-! ## The list and the ids across a step -/

section Heap

variable {s s' : Shared ω} {l l' : List ℕ} {a : ℕ} {n : Node ω}

/-- Nodes that come and go, but keep their entries and marks. -/
theorem Ids.of_sub (ids : Ids s l)
    (sub : ∀ a n', s'.heap a = some n' →
      ∃ n, s.heap a = some n ∧ n.entry = n'.entry ∧ n.deleted = n'.deleted)
    (part : l' ⊆ l) (lastId : s'.lastId = s.lastId) (published : s'.published = s.published)
    (retired : s'.retired = s.retired) : Ids s' l' := by
  have known : s'.ids = s.ids := congrArg (List.map Prod.fst) published
  refine ⟨fun a n' there => ?_, fun a b m' n' thereA thereB equal => ?_, ?_,
    fun a member n' there => ?_, known ▸ ids.ids_nodup, retired ▸ ids.retired_nodup, ?_⟩
  · obtain ⟨n, here, same, -⟩ := sub a n' there
    rw [lastId, ← show n.nodeId = n'.nodeId from congrArg Prod.fst same]
    exact ids.le_lastId a n here
  · obtain ⟨m, hereA, sameA, -⟩ := sub a m' thereA
    obtain ⟨n, hereB, sameB, -⟩ := sub b n' thereB
    refine ids.injective a b m n hereA hereB ?_
    exact (congrArg Prod.fst sameA).trans (equal.trans (congrArg Prod.fst sameB).symm)
  · rw [known, lastId]
    exact ids.ids_le
  · obtain ⟨n, here, same, marked⟩ := sub a n' there
    rw [published, retired, ← same, ← marked,
      ← show n.nodeId = n'.nodeId from congrArg Prod.fst same]
    exact ids.listed a (part member) n here
  · rw [retired, known]
    exact ids.retired_subset

/-- A new node takes the next id. -/
theorem Ids.newNode (ids : Ids s l) (notMem : a ∉ l) (element : ω) :
    Ids (({ s with lastId := s.lastId + 1 } : Shared ω).write a
      ⟨none, element, false, s.lastId + 1⟩) l := by
  have old : ∀ b m, b ≠ a →
      Function.update s.heap a (some ⟨none, element, false, s.lastId + 1⟩) b = some m →
      s.heap b = some m := by
    intro b m apart there
    rwa [Function.update_of_ne apart] at there
  have new : ∀ m, Function.update s.heap a (some ⟨none, element, false, s.lastId + 1⟩) a = some m →
      m.nodeId = s.lastId + 1 := by
    intro m there
    rw [Function.update_self, Option.some_inj] at there
    rw [← there]
  refine ⟨fun b m there => ?_, fun b c m k thereB thereC equal => ?_, fun i known => ?_,
    fun b listed m there => ?_, ids.ids_nodup, ids.retired_nodup, ids.retired_subset⟩
  · show m.nodeId ≤ s.lastId + 1
    by_cases same : b = a
    · subst same
      exact (new m there).le
    · exact (ids.le_lastId b m (old b m same there)).trans (Nat.le_succ _)
  · by_cases sameB : b = a <;> by_cases sameC : c = a
    · rw [sameB, sameC]
    · subst sameB
      have bound := ids.le_lastId c k (old c k sameC thereC)
      have next := new m thereB
      omega
    · subst sameC
      have bound := ids.le_lastId b m (old b m sameB thereB)
      have next := new k thereC
      omega
    · exact ids.injective b c m k (old b m sameB thereB) (old c k sameC thereC) equal
  · exact (ids.ids_le i known).trans (Nat.le_succ _)
  · have apart : b ≠ a := by rintro rfl; exact notMem listed
    exact ids.listed b listed m (old b m apart there)

/-- A node that is published has an id that was not. -/
theorem Ids.publish (ids : Ids s l) (own : Private s l a) (here : s.heap a = some n)
    (head : Option ℕ) :
    Ids { s with head := head, published := n.entry :: s.published } (a :: l) := by
  obtain ⟨⟨n', here', unmarked, new⟩, notMem⟩ := own
  rw [here, Option.some_inj] at here'
  subst here'
  refine ⟨ids.le_lastId, ids.injective, fun i known => ?_, fun b listed m there => ?_,
    List.nodup_cons.mpr ⟨new, ids.ids_nodup⟩, ids.retired_nodup,
    fun i known => List.mem_cons_of_mem _ (ids.retired_subset known)⟩
  · rcases List.mem_cons.mp known with rfl | known
    · exact ids.le_lastId a n here
    · exact ids.ids_le i known
  · rcases List.mem_cons.mp listed with rfl | listed
    · rw [here, Option.some_inj] at there
      subst there
      refine ⟨List.mem_cons_self, ?_⟩
      rw [unmarked]
      exact ⟨Bool.noConfusion, fun known => absurd (ids.retired_subset known) new⟩
    · obtain ⟨known, marked⟩ := ids.listed b listed m there
      exact ⟨List.mem_cons_of_mem _ known, marked⟩

/-- The ids that are retired once a listed node has been marked. -/
theorem Ids.mem_retires (ids : Ids s l) (member : a ∈ l) (here : s.heap a = some n) {i : ℕ} :
    (i ∈ if n.deleted then s.retired else n.nodeId :: s.retired) ↔
      i = n.nodeId ∨ i ∈ s.retired := by
  split
  · have gone := (ids.listed a member n here).2.mp ‹_›
    exact ⟨Or.inr, fun either => either.elim (fun is => is ▸ gone) id⟩
  · exact List.mem_cons

/-- A mark retires the node's id, once. -/
theorem Ids.mark (ids : Ids s l) (member : a ∈ l) (here : s.heap a = some n) :
    Ids { s.write a { n with deleted := true } with
      retired := if n.deleted then s.retired else n.nodeId :: s.retired } l := by
  obtain ⟨known, marked⟩ := ids.listed a member n here
  have sub : ∀ b n', (Function.update s.heap a (some { n with deleted := true })) b = some n' →
      ∃ m, s.heap b = some m ∧ m.entry = n'.entry ∧ (b ≠ a → m.deleted = n'.deleted) ∧
        (b = a → n'.deleted = true) := by
    intro b n' there
    by_cases same : b = a
    · subst same
      rw [Function.update_self, Option.some_inj] at there
      exact ⟨n, here, by rw [← there]; rfl, fun differs => absurd rfl differs,
        fun _ => by rw [← there]⟩
    · rw [Function.update_of_ne same] at there
      exact ⟨n', there, rfl, fun _ => rfl, fun is => absurd is same⟩
  refine ⟨fun b n' there => ?_, fun b c m' n' thereB thereC equal => ?_, ids.ids_le,
    fun b listed n' there => ?_, ids.ids_nodup, ?_, fun i gone => ?_⟩
  · obtain ⟨m, here', same, -⟩ := sub b n' there
    have bound := ids.le_lastId b m here'
    rwa [show m.nodeId = n'.nodeId from congrArg Prod.fst same] at bound
  · obtain ⟨m, hereB, sameB, -⟩ := sub b m' thereB
    obtain ⟨k, hereC, sameC, -⟩ := sub c n' thereC
    refine ids.injective b c m k hereB hereC ?_
    exact (congrArg Prod.fst sameB).trans (equal.trans (congrArg Prod.fst sameC).symm)
  · obtain ⟨m, here', same, elsewhere, marks⟩ := sub b n' there
    obtain ⟨known', marked'⟩ := ids.listed b listed m here'
    have sameId : m.nodeId = n'.nodeId := congrArg Prod.fst same
    refine ⟨same ▸ known', Iff.trans ?_ (ids.mem_retires member here).symm⟩
    by_cases is : b = a
    · subst is
      rw [here, Option.some_inj] at here'
      exact ⟨fun _ => Or.inl (by rw [← sameId, here']), fun _ => marks rfl⟩
    · rw [← elsewhere is, marked', ← sameId]
      refine ⟨Or.inr, fun either => either.elim (fun equal => ?_) id⟩
      exact absurd (ids.injective b a m n here' here equal) is
  · show (if n.deleted then s.retired else n.nodeId :: s.retired).Nodup
    split
    · exact ids.retired_nodup
    · exact List.nodup_cons.mpr ⟨fun gone => ‹¬ _› (marked.mpr gone), ids.retired_nodup⟩
  · rcases (ids.mem_retires member here).mp gone with rfl | gone
    · exact Shared.mem_ids known
    · exact ids.retired_subset gone

end Heap

section Changes

variable {s : State τ ω} {l l' : List ℕ} {s' : Shared ω} {t : τ} {f : Frame ω}

omit [DecidableEq τ] in
/-- Someone is inside, so that no collector has a store to make up for. -/
theorem Sound.settled_of_inside (sound : Sound s l) (member : f ∈ s.threads t)
    (inside : f.pc.role = .inside) : Settled s.threads := by
  intro u g present head is
  exact sound.gate.not_inside present (by rw [is]; rfl) member inside

omit [DecidableEq τ] in
/-- **Ids stay unique, and marks stay what the history says.** -/
theorem Sound.ids_of_change (sound : Sound s l) (member : f ∈ s.threads t)
    (change : Change s.shared l f.pc s' l') : Ids s' l' := by
  have ids := sound.ids
  generalize here : f.pc = pc at change
  cases change with
  | quiet _ n b =>
      exact ids.of_sub (fun a n there => ⟨n, there, rfl, rfl⟩) (fun _ m => m) rfl rfl rfl
  | newNode free => exact ids.newNode (sound.fresh free).2 _
  | @relink _ a n own there =>
      refine ids.of_sub (fun b n' there' => ?_) (fun _ m => m) rfl rfl rfl
      change Function.update s.shared.heap a _ b = some n' at there'
      by_cases same : b = a
      · subst same
        rw [Function.update_self, Option.some_inj] at there'
        exact ⟨n, there, by rw [← there']; rfl, by rw [← there']⟩
      · rw [Function.update_of_ne same] at there'
        exact ⟨n', there', rfl, rfl⟩
  | @publish a n there expected =>
      exact ids.publish ((sound.frames t f member).own a (by rw [here]; rfl)) there _
  | mark listed there => exact ids.mark listed there
  | @unlinkFirst d n pre post split there marked =>
      subst split
      refine ids.of_sub (fun b n' there' => ?_) (fun b later => by simp [later]) rfl rfl rfl
      change Function.update s.shared.heap d none b = some n' at there'
      have apart : b ≠ d := by rintro rfl; rw [Function.update_self] at there'; cases there'
      rw [Function.update_of_ne apart] at there'
      exact ⟨n', there', rfl, rfl⟩
  | @unlinkNext head a d m n pre post split before there marked =>
      subst split
      refine ids.of_sub (fun b n' there' => ?_) (fun b later => by simp at later ⊢; tauto)
        rfl rfl rfl
      change Function.update (Function.update s.shared.heap a _) d none b = some n' at there'
      have apart : b ≠ d := by rintro rfl; rw [Function.update_self] at there'; cases there'
      rw [Function.update_of_ne apart] at there'
      by_cases same : b = a
      · subst same
        rw [Function.update_self, Option.some_inj] at there'
        exact ⟨m, before, by rw [← there']; rfl, by rw [← there']⟩
      · rw [Function.update_of_ne same] at there'
        exact ⟨n', there', rfl, rfl⟩
  | store head =>
      exact ids.of_sub (fun a n there => ⟨n, there, rfl, rfl⟩) (fun _ m => m) rfl rfl rfl

omit [DecidableEq τ] in
/-- **The list stays linked.** -/
theorem Sound.linked_of_change (sound : Sound s l) (member : f ∈ s.threads t)
    (change : Change s.shared l f.pc s' l') : Linked Node.next s'.heap l' := by
  have linked := sound.linked
  generalize here : f.pc = pc at change
  cases change with
  | quiet _ n b => exact linked
  | newNode free => exact linked.update (sound.fresh free).2 _
  | relink own there =>
      rw [← here] at own
      exact linked.update ((sound.frames t f member).own _ own).notMem _
  | publish there expected =>
      have settled := sound.settled_of_inside member (by rw [here]; rfl)
      exact ⟨⟨_, there, expected.trans (sound.head settled)⟩, linked⟩
  | mark listed there => exact linked.rewrite there rfl
  | unlinkFirst split there marked =>
      subst split
      exact linked.append_right.unlink_first
  | @unlinkNext head a d m n pre post split before there marked =>
      subst split
      obtain ⟨⟨n', there', after⟩, -⟩ := linked.append_right.2
      rw [there, Option.some_inj] at there'
      subst there'
      exact linked.unlink_next after
  | store head => exact linked

end Changes

end RadarDemo.Lockfree
