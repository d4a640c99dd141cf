import RadarDemo.Concurrency.Crew

/-!
# A gate between visitors and one caretaker

A counter and a flag keep the visitors of a structure apart from the caretaker
that takes it to pieces.

* A visitor raises the counter, waits until it sees the flag down, works inside,
  and lowers the counter again.
* A caretaker raises the flag, which only one of them can, and before each piece
  of work looks at the counter; it works only while the counter is zero, and
  lowers the flag when it is done.

Neither side ever holds both: a visitor that has raised the counter is seen by
the caretaker's next look, and one that comes later waits for the flag.  What
the gate does *not* exclude is a caretaker that has raised the flag while a
visitor is still inside.  Until its first look at the counter has succeeded it
is not alone (`Role.claimed`); afterwards it is (`Role.sole`), until the flag
is down again.

The parties are counted, not named, so that they may be the frames of any
number of threads: a frame plays a `Role`, `Cross` lists how one party may
change its own, and `Safe` is the invariant that every crossing keeps
(`Safe.cross`).  A party that comes or goes is outside (`Safe.call`,
`Safe.ret`).
-/

namespace Concurrency.Gate

universe u v

/-- What a party is to the gate. -/
inductive Role
  | outside
  /-- A visitor that is counted and waits for the flag. -/
  | announced
  | inside
  /-- The caretaker, before it has found the counter at zero. -/
  | claimed
  /-- The caretaker, since it has found the counter at zero. -/
  | sole
  deriving DecidableEq, Repr

/-- The number of frames that play a role. -/
def census {τ : Type u} {φ : Type v} [Fintype τ] (role : φ → Role) (c : Crew τ φ) (r : Role) : ℕ :=
  c.tally fun f => if role f = r then 1 else 0

/-- The crossings: what one party's change of role requires of the counter and
of the flag, and makes of them. -/
inductive Cross : Role → Role → ℕ × Bool → ℕ × Bool → Prop
  | stay (r : Role) (g : ℕ × Bool) : Cross r r g g
  | announce (n : ℕ) (b : Bool) : Cross .outside .announced (n, b) (n + 1, b)
  | enter (n : ℕ) : Cross .announced .inside (n, false) (n, false)
  | leave (n : ℕ) (b : Bool) : Cross .inside .outside (n, b) (n - 1, b)
  | claim (n : ℕ) : Cross .outside .claimed (n, false) (n, true)
  | find (b : Bool) : Cross .claimed .sole (0, b) (0, b)
  | retire (g : ℕ × Bool) : Cross .sole .claimed g g
  | release (n : ℕ) (b : Bool) : Cross .claimed .outside (n, b) (n, false)

/-- **The invariant of the gate.**  The counter counts the visitors, the flag
the caretakers, and no visitor is inside with a caretaker that is alone. -/
structure Safe (count : ℕ) (flag : Bool) (c : Role → ℕ) : Prop where
  counted : count = c .announced + c .inside
  flagged : c .claimed + c .sole = flag.toNat
  apart : 0 < c .sole → c .inside = 0

section Crossings

variable {τ : Type u} {φ : Type v} [Fintype τ] [DecidableEq τ] {role : φ → Role} {c : Crew τ φ}
  {t : τ} {f f' g : φ} {rest : List φ} {count : ℕ} {flag : Bool}

/-- How one party's change of role shows in the census. -/
theorem census_become (role : φ → Role) (f' : φ) (running : c t = f :: rest) (r : Role) :
    census role (Function.update c t (f' :: rest)) r + (if role f = r then 1 else 0) =
      census role c r + if role f' = r then 1 else 0 :=
  Crew.tally_become _ f' running

/-- **Every crossing keeps the gate safe.** -/
theorem Safe.cross (safe : Safe count flag (census role c)) {count' : ℕ} {flag' : Bool}
    (running : c t = f :: rest)
    (crossing : Cross (role f) (role f') (count, flag) (count', flag')) :
    Safe count' flag' (census role (Function.update c t (f' :: rest))) := by
  have moved := census_become role f' running
  have announced := moved .announced
  have inside := moved .inside
  have claimed := moved .claimed
  have sole := moved .sole
  have member : f ∈ c t := running ▸ List.mem_cons_self
  have present := Crew.le_tally (fun g => if role g = role f then 1 else 0) member
  obtain ⟨counted, flagged, apart⟩ := safe
  generalize role f = r at *
  generalize role f' = r' at *
  rw [if_pos rfl] at present
  change 1 ≤ census role c r at present
  have bound := Bool.toNat_le flag
  cases crossing
  case stay => exact ⟨by omega, by omega, fun alone => by have := apart (by omega); omega⟩
  -- The new census is the old one but for the two roles of the crossing.
  all_goals
    simp only [reduceCtorEq, if_true, if_false, Nat.add_zero] at announced inside claimed sole
  case announce => exact ⟨by omega, by omega, fun alone => by have := apart (by omega); omega⟩
  case enter =>
      rw [Bool.toNat_false] at flagged
      exact ⟨by omega, by rw [Bool.toNat_false]; omega, fun alone => by omega⟩
  case leave =>
      exact ⟨by omega, by omega, fun alone => by have := apart (by omega); omega⟩
  case claim =>
      rw [Bool.toNat_false] at flagged
      exact ⟨by omega, by rw [Bool.toNat_true]; omega, fun alone => by omega⟩
  case find => exact ⟨by omega, by omega, fun _ => by omega⟩
  case retire => exact ⟨by omega, by omega, fun alone => by omega⟩
  case release =>
      exact ⟨by omega, by rw [Bool.toNat_false]; omega, fun alone => by omega⟩

/-- A party that is called in is outside. -/
theorem Safe.call (safe : Safe count flag (census role c)) (enters : role f = .outside) :
    Safe count flag (census role (Function.update c t (f :: c t))) := by
  have same : ∀ r, r ≠ .outside →
      census role (Function.update c t (f :: c t)) r = census role c r := by
    intro r different
    have called := Crew.tally_call (fun g => if role g = r then 1 else 0) c t f
    rw [if_neg fun is => different (is.symm.trans enters)] at called
    exact called
  obtain ⟨counted, flagged, apart⟩ := safe
  refine ⟨?_, ?_, ?_⟩
  · rwa [same _ (by decide), same _ (by decide)]
  · rwa [same _ (by decide), same _ (by decide)]
  · rwa [same _ (by decide), same _ (by decide)]

/-- A party that returns is outside. -/
theorem Safe.ret (safe : Safe count flag (census role c)) (running : c t = f :: rest)
    (exits : role f = .outside) :
    Safe count flag (census role (Function.update c t rest)) := by
  have same : ∀ r, r ≠ .outside →
      census role (Function.update c t rest) r = census role c r := by
    intro r different
    have returned := Crew.tally_ret (fun g => if role g = r then 1 else 0) running
    rw [if_neg fun is => different (is.symm.trans exits)] at returned
    exact returned
  obtain ⟨counted, flagged, apart⟩ := safe
  refine ⟨?_, ?_, ?_⟩
  · rwa [same _ (by decide), same _ (by decide)]
  · rwa [same _ (by decide), same _ (by decide)]
  · rwa [same _ (by decide), same _ (by decide)]

/-! ## What the gate keeps apart -/

omit [DecidableEq τ] in
/-- A frame is counted under its own role. -/
theorem census_pos (role : φ → Role) (member : f ∈ c t) : 0 < census role c (role f) := by
  have counted := Crew.le_tally (fun g => if role g = role f then 1 else 0) member
  rwa [if_pos rfl] at counted

omit [DecidableEq τ] in
/-- **Nobody is inside with a caretaker that is alone.** -/
theorem Safe.not_inside (safe : Safe count flag (census role c)) {u : τ} (member : f ∈ c t)
    (alone : role f = .sole) (present : g ∈ c u) : role g ≠ .inside := by
  intro inside
  have caretaker := census_pos role member
  have visitor := census_pos role present
  rw [alone] at caretaker
  rw [inside, safe.apart caretaker] at visitor
  exact absurd visitor (lt_irrefl 0)

/-- **There is one caretaker at a time.** -/
theorem Safe.not_caretaker (safe : Safe count flag (census role c)) (running : c t = f :: rest)
    (caretaker : role f = .claimed ∨ role f = .sole) (other : Crew.Other c t rest g) :
    role g ≠ .claimed ∧ role g ≠ .sole := by
  have both := Crew.add_le_tally (fun g =>
    (if role g = .claimed then 1 else 0) + if role g = .sole then 1 else 0) running other
  have split : (c.tally fun g =>
      (if role g = .claimed then 1 else 0) + if role g = .sole then 1 else 0) =
        census role c .claimed + census role c .sole := by
    unfold census Crew.tally
    rw [← Finset.sum_add_distrib]
    refine Finset.sum_congr rfl fun u _ => ?_
    rw [← List.sum_map_add]
  have flagged := safe.flagged
  have bound := Bool.toNat_le flag
  have counted : 1 ≤ (if role f = .claimed then 1 else 0) + if role f = .sole then 1 else 0 := by
    rcases caretaker with is | is <;> simp [is]
  constructor
  · intro is
    simp only [is, if_true] at both
    omega
  · intro is
    simp only [is, if_true, reduceCtorEq, if_false] at both
    omega

omit [DecidableEq τ] in
/-- Nobody is inside while the counter is zero. -/
theorem Safe.not_inside_of_zero (safe : Safe 0 flag (census role c)) (present : g ∈ c t) :
    role g ≠ .inside := by
  intro inside
  have visitor := census_pos role present
  rw [inside] at visitor
  have counted := safe.counted
  omega

omit [DecidableEq τ] in
/-- **Nobody enters beside a caretaker.** -/
theorem Safe.not_enter (safe : Safe count flag (census role c)) (present : g ∈ c t)
    (caretaker : role g = .claimed ∨ role g = .sole) {r : Role} {after : ℕ × Bool}
    (crossing : Cross r .inside (count, flag) after) : r = .inside := by
  cases crossing with
  | stay => rfl
  | enter =>
      have flagged := safe.flagged
      have counted := census_pos role present
      rw [Bool.toNat_false] at flagged
      rcases caretaker with is | is <;> rw [is] at counted <;> omega

end Crossings

end Concurrency.Gate
