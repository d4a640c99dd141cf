import RadarDemo.Freshness
import RadarDemo.Picture

/-!
# From the generator to the screen

The two halves of the demo put together, in exact arithmetic and for the batches
that `gen_amp` generates: once everything has come to rest, the calls that the
last painting made on the painter determine what the members of the model hold.

The hypotheses are those of `lastFrame_eq_cells`; the rest is `onDraw_faithful`,
whose bounds every stored list meets, being empty or generated.
-/

namespace RadarDemo

open Concurrency

variable {tk : Toolkit} {rand : ℕ → ℕ} {s : State ℝ}

/-- A list is stored as it was generated, or not yet stored. -/
theorem lookup_allInBounds (reached : (radarDemo tk (genAmp rand)).Reachable s) :
    AllInBounds (s.model.objsMap.lookup 0) ∧ AllInBounds (s.model.objsMap.lookup 1) := by
  have stored := stored_of_reachable reached
  constructor
  · rw [stored.front]
    cases s.producer.frontVersion s.iter with
    | zero => exact fun o member => absurd member List.not_mem_nil
    | succ k => exact genAmp_front_inBounds rand (k + 1)
  · rw [stored.rear]
    cases s.producer.rearVersion s.iter with
    | zero => exact fun o member => absurd member List.not_mem_nil
    | succ k => exact genAmp_rear_inBounds rand (k + 1)

/-- **The screen shows what was generated.**  At rest, with the sonar stored, the
last frame has a picture, and whatever readings in bounds would be drawn by the
same calls are the ones that the model holds. -/
theorem screen_faithful (show_ : tk.PaintsOnShow)
    (reached : (radarDemo tk (genAmp rand)).Reachable s) (idle : s.main = .run .idle)
    (clean : s.dirty s.content = false) (quiet : ¬ s.producer.WillPaint)
    {sonar : SonarData ℝ} (stored : s.model.sonar = some sonar) :
    ∃ picture, s.frames.head?.bind (Frame.paint Trig.real) = some picture ∧
      ∀ left right front rear, AllInBounds front → AllInBounds rear →
        onDraw Trig.real left right front rear = picture →
          left = sonar.left ∧ right = sonar.right ∧
            List.Forall₂ SameDetection front (s.model.objsMap.lookup 0) ∧
            List.Forall₂ SameDetection rear (s.model.objsMap.lookup 1) := by
  obtain ⟨frontIn, rearIn⟩ := lookup_allInBounds reached
  refine ⟨onDraw Trig.real sonar.left sonar.right (s.model.objsMap.lookup 0)
    (s.model.objsMap.lookup 1), ?_, ?_⟩
  · rw [lastFrame_eq_cells show_ reached idle clean quiet]
    simp [Frame.ofCells, TestModel.cells, stored, Frame.paint]
  · intro left right front rear frontIn' rearIn' same
    exact onDraw_faithful frontIn' rearIn' frontIn rearIn same

end RadarDemo
