import RadarDemo.Lockfree.Invariant

/-!
# Every step keeps the invariant

A step of a call has an `Outcome`: what it changes, how it crosses the gate, and
that everything holds at the program counter it reaches.  `outcome_of_advance`
goes through the source line by line and is the only place that does; what it
needs of the other calls is that the head is the head of the list
(`Sound.head_of_role`).

`Turn` lists what a step of the collection can be, and `invariant` is the
induction over runs: a later module states what it wants to know of a sound
state and shows that every turn keeps it.
-/

namespace RadarDemo.Lockfree

open Concurrency Concurrency.Gate

variable {ω : Type}

/-- What a step of a call at `f` amounts to: a change of the list, a crossing of
the gate, and a program counter at which everything holds again. -/
structure Outcome (s : Shared ω) (l : List ℕ) (f : Frame ω) (s' : Shared ω) (f' : Frame ω)
    (l' : List ℕ) : Prop where
  change : Change s l f.pc s' l'
  cross : Cross f.pc.role f'.pc.role (s.blockGc, s.gcActive) (s'.blockGc, s'.gcActive)
  fault : s'.fault = false
  own : ∀ a, f'.pc.own = some a → f.pc.own = some a ∨ s.heap a = none
  ok : PcOk s' l' f'.pc
  head : (∀ h, f'.pc ≠ .gcStore h) → ((∀ h, f.pc ≠ .gcStore h) → s.head = l.head?) →
    s'.head = l'.head?

section Outcomes

variable {s s' : Shared ω} {l : List ℕ} {f f' : Frame ω}

/-- A step that touches neither the heap nor the head. -/
theorem Outcome.quiet (ok : PcOk s l f.pc) (fault : s.fault = false) (n : ℕ) (b : Bool)
    (cross : Cross f.pc.role f'.pc.role (s.blockGc, s.gcActive) (n, b))
    (own : f'.pc.own = none ∨ f'.pc.own = f.pc.own)
    (cursor : ∀ a, f'.pc.cursor = some a → a ∈ l)
    (node : ∀ head p, f'.pc = .gcNode head p → ∃ d, s.link head p = some (some d))
    (notStore : f.pc.isStore = false) (notStore' : f'.pc.isStore = false) :
    Outcome s l f { s with blockGc := n, gcActive := b } f' l := by
  have owned : ∀ a, f'.pc.own = some a → f.pc.own = some a := by
    intro a is
    rcases own with none | same
    · exact forall_of_none (P := fun a => f.pc.own = some a) none a is
    · exact same.symm.trans is
  refine ⟨.quiet f.pc n b, cross, fault, fun a is => Or.inl (owned a is), ?_, ?_⟩
  · exact PcOk.congr (s := s) ⟨fun a is => ok.own a (owned a is), cursor, node,
      fun head is => absurd is (Pc.ne_gcStore notStore' head)⟩ rfl rfl
  · exact fun _ settled => settled (Pc.ne_gcStore notStore)

/-- A dereference of an allocated node goes on. -/
theorem deref_of_some {a : ℕ} {n : Node ω} (here : s.heap a = some n)
    (k : Node ω → Shared ω × Frame ω) : deref s f a k = k n := by
  rw [deref, here]

/-- The new node of an insertion, linked to what the head is now. -/
theorem Outcome.relink {a : ℕ} {n : Node ω} (ok : PcOk s l f.pc) (fault : s.fault = false)
    (own : f.pc.own = some a) (here : s.heap a = some n) (inside : f.pc.role = .inside) :
    Outcome s l f (s.write a { n with next := s.head }) { f with pc := .exchangeHead a } l := by
  refine ⟨.relink own here, ?_, fault, fun b is => Or.inl (own.trans is), ?_, ?_⟩
  · rw [inside]
    exact .stay .inside _
  · refine PcOk.of_not (fun b is => ?_) (forall_of_none rfl) rfl rfl
    rw [Pc.own, Option.some_inj] at is
    subst is
    obtain ⟨⟨m, here', unmarked, new⟩, notMem⟩ := ok.own a own
    rw [here, Option.some_inj] at here'
    subst here'
    exact ⟨⟨_, Function.update_self .., unmarked, new⟩, notMem⟩
  · exact fun _ settled => settled fun h is => by rw [is] at own; cases own

/-- The condition of the collector's loop. -/
theorem Outcome.gcTest (head p : Option ℕ) (ok : PcOk s l f.pc) (fault : s.fault = false)
    (linked : Linked Node.next s.heap l) (cursor : f.pc.cursor = p.or head)
    (before : f.pc.role = .claimed ∨ f.pc.role = .sole) (notStore : f.pc.isStore = false) :
    Outcome s l f (gcTest s f head p).1 (gcTest s f head p).2 l := by
  have link : ∃ q, s.link head p = some q := by
    cases p with
    | none => exact ⟨head, rfl⟩
    | some a =>
        obtain ⟨n, here⟩ := linked.allocated (ok.cursor a cursor)
        exact ⟨n.next, by rw [Shared.link, here, Option.map_some]⟩
  obtain ⟨q, link⟩ := link
  unfold Lockfree.gcTest
  rw [link]
  by_cases goes : q.isSome ∧ s.blockGc = 0
  · simp only [if_pos goes]
    obtain ⟨d, rfl⟩ := Option.isSome_iff_exists.mp goes.1
    refine Outcome.quiet ok fault s.blockGc s.gcActive ?_ (Or.inl rfl)
      (fun a is => ok.cursor a (cursor.trans is)) (fun head' p' is => ?_) notStore rfl
    · rcases before with claimed | sole
      · rw [claimed, goes.2]
        exact .find s.gcActive
      · rw [sole]
        exact .stay .sole _
    · cases is
      exact ⟨d, link⟩
  · simp only [if_neg goes]
    refine Outcome.quiet ok fault s.blockGc s.gcActive ?_ (Or.inl rfl) (forall_of_none rfl)
      (fun head p is => absurd is (Pc.ne_gcNode rfl head p)) notStore rfl
    rcases before with claimed | sole
    · rw [claimed]
      exact .stay .claimed _
    · rw [sole]
      exact .retire _

/-- The body of the collector's loop. -/
theorem Outcome.gcNode {head p : Option ℕ} (ok : PcOk s l f.pc) (fault : s.fault = false)
    (linked : Linked Node.next s.heap l) (here : f.pc = .gcNode head p) :
    ∃ l', Outcome s l f (gcNode s f head p).1 (gcNode s f head p).2 l' := by
  obtain ⟨d, link⟩ := ok.node head p here
  have notStore : f.pc.isStore = false := by rw [here]; rfl
  have sole : f.pc.role = .sole := by rw [here]; rfl
  have member : d ∈ l := by
    cases p with
    | none =>
        rw [Shared.link, Option.some_inj] at link
        exact ok.cursor d (by rw [here, ← link]; rfl)
    | some a =>
        rw [Shared.link, Option.map_eq_some_iff] at link
        obtain ⟨m, before, points⟩ := link
        exact linked.next_mem (ok.cursor a (by rw [here]; rfl)) before points
  obtain ⟨n, there⟩ := linked.allocated member
  unfold Lockfree.gcNode
  simp only [link, deref_of_some there]
  by_cases unmarked : n.deleted = false
  · rw [if_pos unmarked]
    refine ⟨l, Outcome.quiet ok fault s.blockGc s.gcActive ?_ (Or.inl rfl) (fun a is => ?_)
      (fun head p is => absurd is (Pc.ne_gcNode rfl head p)) notStore rfl⟩
    · rw [sole]
      exact .stay .sole _
    · cases is
      exact member
  rw [if_neg unmarked]
  rw [Bool.not_eq_false] at unmarked
  cases p with
  | none =>
      rw [Shared.link, Option.some_inj] at link
      subst link
      obtain ⟨pre, post, split⟩ := List.append_of_mem member
      refine ⟨post, ?_, ?_, fault, forall_of_none rfl, ⟨forall_of_none rfl, forall_of_none rfl,
        fun head p is => absurd is (Pc.ne_gcNode rfl head p), fun h is => ?_⟩, fun settled => ?_⟩
      · rw [here]
        exact .unlinkFirst split there unmarked
      · rw [sole]
        exact .stay .sole _
      · cases is
        exact (linked.after ⟨pre, split.symm⟩ there).2.symm
      · exact absurd rfl (settled n.next)
  | some a =>
      rw [Shared.link, Option.map_eq_some_iff] at link
      obtain ⟨m, before, points⟩ := link
      obtain ⟨pre, post, split⟩ := List.append_of_mem (ok.cursor a (by rw [here]; rfl))
      have behind := (linked.after ⟨pre, split.symm⟩ before).2
      rw [points] at behind
      obtain ⟨post, rfl⟩ := List.head?_eq_some_iff.mp behind
      simp only [deref_of_some before]
      refine ⟨pre ++ a :: post, ?_, ?_, fault, forall_of_none rfl,
        .of_not (forall_of_none rfl) (fun b is => ?_) rfl rfl, fun _ settled => ?_⟩
      · rw [here]
        exact .unlinkNext split before there unmarked
      · rw [sole]
        exact .stay .sole _
      · cases is
        simp
      · have same := settled (Pc.ne_gcStore notStore)
        rw [split] at same
        cases pre <;> exact same

/-- **Every step of a call has an outcome.** -/
theorem outcome_of_advance (ok : PcOk s l f.pc) (fault : s.fault = false)
    (linked : Linked Node.next s.heap l)
    (settled : f.pc.role = .inside ∨ f.pc.role = .claimed → s.head = l.head?)
    (moved : advance s f = some (s', f')) : ∃ l', Outcome s l f s' f' l' := by
  have own := ok.own
  have cursor := ok.cursor
  unfold advance at moved
  generalize here : f.pc = pc at moved own cursor settled
  -- A step that touches neither heap nor head, from the program counter `pc`.
  have quiet : ∀ (n : ℕ) (b : Bool) (f' : Frame ω) (_ : pc.isStore = false)
      (_ : Cross pc.role f'.pc.role (s.blockGc, s.gcActive) (n, b))
      (_ : f'.pc.own = none ∨ f'.pc.own = pc.own) (_ : ∀ a, f'.pc.cursor = some a → a ∈ l)
      (_ : f'.pc.isNode = false) (_ : f'.pc.isStore = false),
      ∃ l', Outcome s l f { s with blockGc := n, gcActive := b } f' l' := by
    intro n b f' notStore cross owns points notNode notStore'
    subst here
    exact ⟨l, Outcome.quiet ok fault n b cross owns points
      (fun head p is => absurd is (Pc.ne_gcNode notNode head p)) notStore notStore'⟩
  -- One that changes nothing but the program counter, and that not with respect to the gate.
  have stay : ∀ (f' : Frame ω) (_ : pc.isStore = false) (_ : f'.pc.role = pc.role)
      (_ : f'.pc.own = none ∨ f'.pc.own = pc.own) (_ : ∀ a, f'.pc.cursor = some a → a ∈ l)
      (_ : f'.pc.isNode = false) (_ : f'.pc.isStore = false), ∃ l', Outcome s l f s f' l' := by
    intro f' notStore same owns points notNode notStore'
    refine quiet s.blockGc s.gcActive f' notStore ?_ owns points notNode notStore'
    rw [same]
    exact .stay pc.role _
  -- The listed node that is dereferenced is allocated, and what it links to is listed.
  have node : ∀ a, pc.cursor = some a →
      ∃ n, s.heap a = some n ∧ ∀ b, n.next = some b → b ∈ l := by
    intro a points
    obtain ⟨n, there⟩ := linked.allocated (cursor a points)
    exact ⟨n, there, fun b => linked.next_mem (cursor a points) there⟩
  -- Beside a visitor, and where the collector loads it, the head is listed.
  have first : (pc.role = .inside ∨ pc.role = .claimed) → ∀ a, s.head = some a → a ∈ l :=
    fun role a is => List.mem_of_mem_head? ((settled role).symm.trans is)
  cases pc with
  | lastId element => cases moved
  | blockGc task =>
      cases moved
      exact quiet _ _ _ rfl (.announce ..) (Or.inr rfl) (forall_of_none rfl) rfl rfl
  | awaitGc task =>
      cases moved
      cases active : s.gcActive with
      | true =>
          exact stay f rfl (by rw [here]) (Or.inr (by rw [here]))
            (forall_of_none (by rw [here]; rfl)) (by rw [here]; rfl) (by rw [here]; rfl)
      | false =>
          refine quiet s.blockGc s.gcActive _ rfl ?_ (Or.inr rfl) (forall_of_none rfl) rfl rfl
          rw [active]
          exact .enter _
  | loadHead task =>
      cases task with
      | insert a =>
          obtain ⟨⟨n, there, -⟩, -⟩ := own a rfl
          simp only [loadHead, deref_of_some there] at moved
          cases moved
          exact ⟨l, Outcome.relink ok fault (by rw [here]; rfl) there (by rw [here]; rfl)⟩
      | remove elementId =>
          cases moved
          exact stay _ rfl rfl (Or.inl rfl) (first (Or.inl rfl)) rfl rfl
      | apply =>
          cases moved
          exact stay _ rfl rfl (Or.inl rfl) (first (Or.inl rfl)) rfl rfl
      | empty =>
          cases load : s.head with
          | none =>
              simp only [loadHead, load] at moved
              cases moved
              exact stay _ rfl rfl (Or.inl rfl) (forall_of_none rfl) rfl rfl
          | some a =>
              simp only [loadHead, load] at moved
              cases moved
              exact stay _ rfl rfl (Or.inl rfl)
                (fun b is => first (Or.inl rfl) b (load.trans is)) rfl rfl
  | exchangeHead a =>
      obtain ⟨⟨n, there, -⟩, -⟩ := own a rfl
      simp only [exchangeHead, deref_of_some there, Option.some_inj, and_true] at moved
      by_cases expected : n.next = s.head
      · rw [if_pos expected] at moved
        cases moved
        refine ⟨a :: l, ?_, ?_, fault, forall_of_none rfl,
          .of_not (forall_of_none rfl) (forall_of_none rfl) rfl rfl, fun _ _ => rfl⟩
        · rw [here]
          exact .publish there expected
        · rw [here]
          exact .stay .inside _
      · rw [if_neg expected] at moved
        cases moved
        have relinked := Outcome.relink ok fault (by rw [here]; rfl) there (by rw [here]; rfl)
        rw [← here] at relinked
        exact ⟨l, relinked⟩
  | seek elementId c =>
      cases c with
      | none =>
          cases moved
          exact stay _ rfl rfl (Or.inl rfl) (forall_of_none rfl) rfl rfl
      | some a =>
          obtain ⟨n, there, next⟩ := node a rfl
          simp only [deref_of_some there] at moved
          cases moved
          by_cases differs : n.nodeId ≠ elementId
          · simp only [if_pos differs]
            exact stay _ rfl rfl (Or.inl rfl) next rfl rfl
          · simp only [if_neg differs]
            exact stay _ rfl rfl (Or.inl rfl) cursor rfl rfl
  | markDeleted a =>
      obtain ⟨n, there, -⟩ := node a rfl
      simp only [markDeleted, deref_of_some there] at moved
      cases moved
      refine ⟨l, ?_, ?_, fault, forall_of_none rfl,
        .of_not (forall_of_none rfl) (forall_of_none rfl) rfl rfl, fun _ same => ?_⟩
      · rw [here]
        exact .mark (cursor a rfl) there
      · rw [here]
        exact .stay .inside _
      · exact same fun h is => by rw [here] at is; cases is
  | visit c =>
      cases c with
      | none =>
          cases moved
          exact stay _ rfl rfl (Or.inl rfl) (forall_of_none rfl) rfl rfl
      | some a =>
          obtain ⟨n, there, next⟩ := node a rfl
          simp only [deref_of_some there] at moved
          cases moved
          cases n.deleted with
          | true => exact stay _ rfl rfl (Or.inl rfl) next rfl rfl
          | false => exact stay _ rfl rfl (Or.inl rfl) cursor rfl rfl
  | call a =>
      obtain ⟨n, there, next⟩ := node a rfl
      simp only [deref_of_some there] at moved
      cases moved
      exact stay _ rfl rfl (Or.inl rfl) cursor rfl rfl
  | calling a =>
      obtain ⟨n, there, next⟩ := node a rfl
      simp only [deref_of_some there] at moved
      cases moved
      exact stay _ rfl rfl (Or.inl rfl) next rfl rfl
  | loadDeleted a =>
      obtain ⟨n, there, next⟩ := node a rfl
      simp only [deref_of_some there] at moved
      cases moved
      exact stay _ rfl rfl (Or.inl rfl) (forall_of_none rfl) rfl rfl
  | unblockGc collects =>
      cases moved
      cases collects with
      | true => exact quiet _ _ _ rfl (.leave ..) (Or.inl rfl) (forall_of_none rfl) rfl rfl
      | false => exact quiet _ _ _ rfl (.leave ..) (Or.inl rfl) (forall_of_none rfl) rfl rfl
  | gcBlocked =>
      cases moved
      by_cases blocked : 0 < s.blockGc
      · simp only [if_pos blocked]
        exact stay _ rfl rfl (Or.inl rfl) (forall_of_none rfl) rfl rfl
      · simp only [if_neg blocked]
        exact stay _ rfl rfl (Or.inl rfl) (forall_of_none rfl) rfl rfl
  | gcActive =>
      cases moved
      cases active : s.gcActive with
      | true =>
          refine quiet _ _ _ rfl ?_ (Or.inl rfl) (forall_of_none rfl) rfl rfl
          rw [active]
          exact .stay .outside _
      | false =>
          refine quiet _ _ _ rfl ?_ (Or.inl rfl) (forall_of_none rfl) rfl rfl
          rw [active]
          exact .claim _
  | gcHead =>
      cases moved
      exact stay _ rfl rfl (Or.inl rfl) (first (Or.inr rfl)) rfl rfl
  | gcFirst head =>
      have tested := Outcome.gcTest head none ok fault linked (by rw [here]; rfl)
        (Or.inl (by rw [here]; rfl)) (by rw [here]; rfl)
      rw [Option.some_inj.mp moved] at tested
      exact ⟨l, tested⟩
  | gcTest head p =>
      have tested := Outcome.gcTest head p ok fault linked (by rw [here]; rfl)
        (Or.inr (by rw [here]; rfl)) (by rw [here]; rfl)
      rw [Option.some_inj.mp moved] at tested
      exact ⟨l, tested⟩
  | gcNode head p =>
      have worked := Outcome.gcNode ok fault linked here
      rwa [Option.some_inj.mp moved] at worked
  | gcStore head =>
      cases moved
      refine ⟨l, ?_, ?_, fault, forall_of_none rfl,
        .of_not (forall_of_none rfl) (fun a is => ?_) rfl rfl, fun _ _ => ok.store head here⟩
      · rw [here]
        exact .store head
      · rw [here]
        exact .stay .sole _
      · exact List.mem_of_mem_head? ((ok.store head here).symm.trans is)
  | gcDone =>
      cases moved
      exact quiet _ _ _ rfl (.release ..) (Or.inl rfl) (forall_of_none rfl) rfl rfl
  | done => cases moved

end Outcomes

variable {τ : Type} [DecidableEq τ] [Fintype τ]

/-! ## The step of a thread -/

section Steps

variable {s s' : State τ ω} {l l' : List ℕ} {t : τ} {f f' : Frame ω} {rest : List (Frame ω)}
  {shared : Shared ω} {a : Action τ ω}

/-- Beside a visitor, and beside a collector that has nothing to store, the head
is the head of the list. -/
theorem Sound.head_of_role (sound : Sound s l) (running : s.threads t = f :: rest)
    (role : f.pc.role = .inside ∨ f.pc.role = .claimed) : s.shared.head = l.head? := by
  have member : f ∈ s.threads t := running ▸ List.mem_cons_self
  refine sound.head ?_
  rcases role with inside | claimed
  · exact sound.settled_of_inside member inside
  · refine (Crew.forall_iff running).mpr ⟨fun h is => ?_, fun g other h is => ?_⟩
    · rw [is] at claimed
      cases claimed
    · exact (sound.gate.not_caretaker running (Or.inl claimed) other).2 (by rw [is]; rfl)

/-- **Every step of a running call has an outcome.** -/
theorem Sound.outcome (sound : Sound s l) (running : s.threads t = f :: rest)
    (moved : move s.shared f a = some (shared, f')) :
    ∃ l', Outcome s.shared l f shared f' l' := by
  have member : f ∈ s.threads t := running ▸ List.mem_cons_self
  have ok := sound.frames t f member
  cases a with
  | start u op => cases moved
  | run u =>
      exact outcome_of_advance ok sound.fault sound.linked (sound.head_of_role running) moved
  | allocate u a =>
      simp only [move] at moved
      cases here : f.pc with
      | lastId element =>
          simp only [here, Option.isNone_iff_eq_none] at moved
          split at moved
          · cases moved
            rename_i free
            refine ⟨l, ?_, ?_, sound.fault, fun b is => Or.inr ?_,
              .of_not (fun b is => ?_) (forall_of_none rfl) rfl rfl, fun _ same => ?_⟩
            · rw [here]
              exact .newNode free
            · rw [here]
              exact .stay .outside _
            · cases is
              exact free
            · cases is
              refine ⟨⟨_, Function.update_self .., rfl, fun known => ?_⟩, (sound.fresh free).2⟩
              exact absurd (sound.ids.ids_le _ known) (Nat.not_succ_le_self _)
            · exact same fun h is => by rw [here] at is; cases is
          · cases moved
      | _ => simp only [here, reduceCtorEq] at moved
  | spurious u =>
      simp only [move] at moved
      cases here : f.pc with
      | exchangeHead a =>
          obtain ⟨⟨n, there, -⟩, -⟩ := ok.own a (by rw [here]; rfl)
          simp only [here, exchangeHead, deref_of_some there] at moved
          rw [if_neg (fun both => Bool.noConfusion both.2)] at moved
          cases moved
          have relinked := Outcome.relink ok sound.fault (by rw [here]; rfl) there
            (by rw [here]; rfl)
          rw [← here] at relinked
          exact ⟨l, relinked⟩
      | _ => simp only [here, reduceCtorEq] at moved
  | raise u =>
      simp only [move] at moved
      cases here : f.pc with
      | calling a =>
          simp only [here] at moved
          cases moved
          refine ⟨l, Outcome.quiet ok sound.fault s.shared.blockGc s.shared.gcActive ?_
            (Or.inl rfl) (forall_of_none rfl) (fun h p is => absurd is (Pc.ne_gcNode rfl h p))
            (by rw [here]; rfl) rfl⟩
          rw [here]
          exact .stay .inside _
      | _ => simp only [here, reduceCtorEq] at moved

/-- **An outcome keeps the invariant.** -/
theorem Sound.become (sound : Sound s l) (running : s.threads t = f :: rest)
    (outcome : Outcome s.shared l f shared f' l') :
    Sound { s with shared := shared, threads := Function.update s.threads t (f' :: rest) } l' where
  fault := outcome.fault
  gate := sound.gate.cross running outcome.cross
  owner := fun a => by
    have exchanged := Crew.tally_become (fun f => if f.pc.own = some a then 1 else 0) f' running
    have bound := sound.owner a
    show Crew.tally _ (Function.update s.threads t (f' :: rest)) ≤ 1
    by_cases owns : f'.pc.own = some a
    · rcases outcome.own a owns with owned | free
      · simp only [owns, owned, if_true] at exchanged
        omega
      · have nobody := Crew.tally_eq_zero (fun f => if f.pc.own = some a then 1 else 0)
          fun u g present => if_neg ((sound.fresh free).1 u g present)
        rw [if_pos owns, nobody] at exchanged
        omega
    · rw [if_neg owns] at exchanged
      omega
  frames := Crew.forall_become_iff.mpr
    ⟨outcome.ok, fun g other => sound.others running outcome.change other⟩
  linked := sound.linked_of_change (running ▸ List.mem_cons_self) outcome.change
  head := fun settled => by
    obtain ⟨notStore', others⟩ := Crew.forall_become_iff.mp settled
    exact outcome.head notStore' fun notStore =>
      sound.head ((Crew.forall_iff running).mpr ⟨notStore, others⟩)
  ids := sound.ids_of_change (running ▸ List.mem_cons_self) outcome.change

/-- What a step of the collection can be. -/
inductive Turn (s : State τ ω) (l : List ℕ) : Action τ ω → State τ ω → List ℕ → Prop
  | call {t : τ} {op : Op ω} (may : mayCall (s.threads t)) :
      Turn s l (.start t op)
        { s with threads := Function.update s.threads t (Frame.start op :: s.threads t) } l
  | ret {a : Action τ ω} {f : Frame ω} {rest : List (Frame ω)}
      (running : s.threads a.thread = f :: rest) (here : f.pc = .done) :
      Turn s l a
        { s with threads := Function.update s.threads a.thread rest, returned := f :: s.returned } l
  | move {a : Action τ ω} {f f' : Frame ω} {rest : List (Frame ω)} {shared : Shared ω}
      {l' : List ℕ} (running : s.threads a.thread = f :: rest)
      (moved : move s.shared f a = some (shared, f'))
      (outcome : Outcome s.shared l f shared f' l') :
      Turn s l a
        { s with shared := shared, threads := Function.update s.threads a.thread (f' :: rest) } l'

/-- **Every step is a call, a return, or a step of a running call.** -/
theorem Sound.turn (sound : Sound s l) (stepped : step s a = some s') :
    ∃ l', Turn s l a s' l' := by
  unfold step at stepped
  split at stepped
  · rename_i t op stack
    split at stepped
    · cases stepped
      exact ⟨l, .call ‹_›⟩
    · cases stepped
  · cases stepped
  · rename_i a f rest notStart running
    split at stepped
    · rename_i returns
      split at stepped
      · cases stepped
        refine ⟨l, .ret running ?_⟩
        revert returns
        unfold Frame.returns
        cases f.pc <;> simp
      · cases stepped
    · rw [Option.map_eq_some_iff] at stepped
      obtain ⟨⟨shared, f'⟩, moved, rfl⟩ := stepped
      obtain ⟨l', outcome⟩ := sound.outcome running moved
      exact ⟨l', .move running moved outcome⟩

theorem Frame.start_pc (op : Op ω) :
    (Frame.start op).pc.role = .outside ∧ (Frame.start op).pc.own = none ∧
      (Frame.start op).pc.cursor = none := by
  cases op <;> exact ⟨rfl, rfl, rfl⟩

/-- **Every step keeps the invariant.** -/
theorem Turn.sound (turn : Turn s l a s' l') (sound : Sound s l) : Sound s' l' := by
  cases turn with
  | @call t op may =>
      obtain ⟨outside, notOwn, noCursor⟩ := Frame.start_pc op
      refine ⟨sound.fault, sound.gate.call outside, fun a => ?_, ?_, sound.linked,
        fun settled => ?_, sound.ids⟩
      · have called := Crew.tally_call (fun f => if f.pc.own = some a then 1 else 0) s.threads t
          (Frame.start op)
        rw [if_neg (by rw [notOwn]; exact Option.some_ne_none a ∘ Eq.symm)] at called
        exact called.trans_le (sound.owner a)
      · refine Crew.forall_call_iff.mpr ⟨⟨fun a is => ?_, fun a is => ?_, fun h p is => ?_,
          fun h is => ?_⟩, sound.frames⟩
        · rw [notOwn] at is
          cases is
        · rw [noCursor] at is
          cases is
        · rw [is] at outside
          cases outside
        · rw [is] at outside
          cases outside
      · exact sound.head (Crew.forall_call_iff.mp settled).2
  | ret running here =>
      refine ⟨sound.fault, sound.gate.ret running (by rw [here]; rfl), fun a => ?_,
        (Crew.forall_ret_iff running).mpr ((Crew.forall_iff running).mp sound.frames).2,
        sound.linked, fun settled => ?_, sound.ids⟩
      · have returned := Crew.tally_ret (fun f => if f.pc.own = some a then 1 else 0) running
        have bound := sound.owner a
        show Crew.tally _ (Function.update s.threads _ _) ≤ 1
        omega
      · refine sound.head ((Crew.forall_iff running).mpr ⟨fun h is => ?_, ?_⟩)
        · rw [here] at is
          cases is
        · exact (Crew.forall_ret_iff running).mp settled
  | move running moved outcome => exact sound.become running outcome

/-- The invariant rule of the collection: what holds initially, and across every
turn of a sound state that meets `ok`, holds in every state such turns reach. -/
theorem invariant {I : State τ ω → List ℕ → Prop} {ok : State τ ω → Action τ ω → Prop}
    (atInit : I (collection τ ω).init [])
    (preserved : ∀ {s l a s' l'}, Sound s l → Turn s l a s' l' → ok s a → I s l → I s' l')
    (reached : (collection τ ω).ReachableUnder ok s) : ∃ l, Sound s l ∧ I s l := by
  refine reached.invariant (I := fun s => ∃ l, Sound s l ∧ I s l) ⟨[], sound_init, atInit⟩ ?_
  rintro s a s' ⟨l, sound, held⟩ meets stepped
  obtain ⟨l', turn⟩ := sound.turn stepped
  exact ⟨l', turn.sound sound, preserved sound turn meets held⟩

/-- Every reachable state is sound, for some list. -/
theorem sound_of_reachable {ok : State τ ω → Action τ ω → Prop}
    (reached : (collection τ ω).ReachableUnder ok s) : ∃ l, Sound s l := by
  obtain ⟨l, sound, -⟩ := invariant (I := fun _ _ => True) trivial (fun _ _ _ _ => trivial) reached
  exact ⟨l, sound⟩

omit [DecidableEq τ] in
/-- The list is determined by the state. -/
theorem Sound.unique (sound : Sound s l) (other : Sound s l') : l = l' := by
  refine sound.linked.unique other.linked ?_
  by_cases settled : Settled s.threads
  · rw [← sound.head settled, ← other.head settled]
  · simp only [Settled, not_forall, not_not] at settled
    obtain ⟨t, f, member, head, is⟩ := settled
    rw [← (sound.frames t f member).store head is, ← (other.frames t f member).store head is]

end Steps

end RadarDemo.Lockfree
