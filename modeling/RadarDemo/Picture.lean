import Mathlib.Analysis.Real.Pi.Bounds
import RadarDemo.Painting
import RadarDemo.Plane.Polar

/-!
# What the picture shows

The radar picture in exact arithmetic: real numbers, the real `sin` and `cos`, and
the source's rational `pi`.  A detection is in bounds if its distance is not
negative and its bearing is within the source's `pi / 2` of straight ahead, which
is within the real `π / 2`; the generator produces no other.

* `detectedPoints_faithful` — the list `pts` determines both lists of detections,
  and no point of it lies inside the car.
* `onDraw_faithful` — the calls made on the painter determine the whole frame.

The points of the front list lie ahead of the line through the car's front edge
and those of the rear list behind the one through its rear edge, which is how the
end of the first list is found in `pts`.
-/

namespace RadarDemo

open Plane

/-- The exact functions. -/
noncomputable def Trig.real : Trig ℝ := ⟨Real.sin, Real.cos⟩

/-- Two detections that are drawn alike: at distance 0 there is no bearing. -/
def SameDetection (o o' : ObjectInfo77 ℝ) : Prop :=
  o.range = o'.range ∧ (0 < o.range → o.azimuth = o'.azimuth)

/-! ## Bounds -/

/-- The source's `pi` is too small, by less than a tenth of a millionth. -/
theorem pi_lt_real_pi : pi ℝ < Real.pi := by
  have precise := Real.pi_gt_d20
  unfold pi
  linarith

theorem azimuth_mem {o : ObjectInfo77 ℝ} (inBounds : o.InBounds) :
    o.azimuth ∈ Set.Icc (-(Real.pi / 2)) (Real.pi / 2) := by
  obtain ⟨-, lower, upper⟩ := inBounds
  have small := pi_lt_real_pi
  constructor <;> linarith

theorem distance_nonneg {o : ObjectInfo77 ℝ} (inBounds : o.InBounds) :
    0 ≤ o.range / unit ℝ := by
  have nonneg := inBounds.1
  unfold unit
  positivity

/-- How far ahead of, or behind, its edge a detection is drawn. -/
theorem ahead_nonneg {o : ObjectInfo77 ℝ} (inBounds : o.InBounds) :
    0 ≤ o.range / unit ℝ * Real.cos o.azimuth := by
  obtain ⟨lower, upper⟩ := azimuth_mem inBounds
  exact mul_nonneg (distance_nonneg inBounds)
    (Real.cos_nonneg_of_neg_pi_div_two_le_of_le lower upper)

/-! ## The two half planes -/

theorem frontPoint_y (o : ObjectInfo77 ℝ) : (frontPoint Trig.real o).y =
    (carBounds ℝ).y - o.range / unit ℝ * Real.cos o.azimuth := by
  simp only [frontPoint, carBounds, RectF.offset, Trig.real]
  ring

theorem rearPoint_y (o : ObjectInfo77 ℝ) : (rearPoint Trig.real o).y =
    (carBounds ℝ).bottom + o.range / unit ℝ * Real.cos o.azimuth := by
  simp only [rearPoint, carBounds, RectF.offset, RectF.bottom, Trig.real]
  ring

/-- A front point is on the car's front edge or ahead of it. -/
theorem frontPoint_ahead {o : ObjectInfo77 ℝ} (inBounds : o.InBounds) :
    (frontPoint Trig.real o).y ≤ (carBounds ℝ).y := by
  rw [frontPoint_y]
  exact sub_le_self _ (ahead_nonneg inBounds)

/-- A rear point is on the car's rear edge or behind it. -/
theorem rearPoint_behind {o : ObjectInfo77 ℝ} (inBounds : o.InBounds) :
    (carBounds ℝ).bottom ≤ (rearPoint Trig.real o).y := by
  rw [rearPoint_y]
  exact le_add_of_nonneg_right (ahead_nonneg inBounds)

/-- The car has a length. -/
theorem carBounds_y_lt_bottom : (carBounds ℝ).y < (carBounds ℝ).bottom := by
  simp only [carBounds, RectF.offset, RectF.bottom, height, unit]
  norm_num

/-! ## One detection -/

theorem sameDetection_of_polar {o o' : ObjectInfo77 ℝ} (inBounds : o.InBounds)
    (inBounds' : o'.InBounds)
    (across : o.range / unit ℝ * Real.sin o.azimuth = o'.range / unit ℝ * Real.sin o'.azimuth)
    (ahead : o.range / unit ℝ * Real.cos o.azimuth = o'.range / unit ℝ * Real.cos o'.azimuth) :
    SameDetection o o' := by
  obtain ⟨distance, bearing⟩ := polar_injective (distance_nonneg inBounds)
    (distance_nonneg inBounds') (azimuth_mem inBounds) (azimuth_mem inBounds') across ahead
  have scale : (0 : ℝ) < unit ℝ := by
    unfold unit
    norm_num
  refine ⟨(div_left_inj' scale.ne').mp distance, fun positive => ?_⟩
  exact bearing (div_pos positive scale)

theorem sameDetection_of_frontPoint {o o' : ObjectInfo77 ℝ} (inBounds : o.InBounds)
    (inBounds' : o'.InBounds) (same : frontPoint Trig.real o = frontPoint Trig.real o') :
    SameDetection o o' := by
  have across := congrArg PointF.x same
  have ahead := congrArg PointF.y same
  rw [frontPoint_y, frontPoint_y] at ahead
  exact sameDetection_of_polar inBounds inBounds' (add_left_cancel across)
    (sub_right_injective ahead)

theorem sameDetection_of_rearPoint {o o' : ObjectInfo77 ℝ} (inBounds : o.InBounds)
    (inBounds' : o'.InBounds) (same : rearPoint Trig.real o = rearPoint Trig.real o') :
    SameDetection o o' := by
  have across := congrArg PointF.x same
  have ahead := congrArg PointF.y same
  rw [rearPoint_y, rearPoint_y] at ahead
  exact sameDetection_of_polar inBounds inBounds' (sub_right_injective across)
    (add_left_cancel ahead)

/-! ## The list of points -/

/-- Detections that the drawing code can be given. -/
def AllInBounds (objects : Objects ℝ) : Prop := ∀ o ∈ objects, o.InBounds

/-- `pts` determines both lists. -/
theorem sameDetections_of_points {front rear front' rear' : Objects ℝ}
    (frontIn : AllInBounds front) (rearIn : AllInBounds rear)
    (frontIn' : AllInBounds front') (rearIn' : AllInBounds rear')
    (same : detectedPoints Trig.real front rear = detectedPoints Trig.real front' rear') :
    List.Forall₂ SameDetection front front' ∧ List.Forall₂ SameDetection rear rear' := by
  have ahead : ∀ {objects : Objects ℝ}, AllInBounds objects →
      ∀ p ∈ objects.map (frontPoint Trig.real), p.y ≤ (carBounds ℝ).y := by
    intro objects allIn p member
    obtain ⟨o, listed, rfl⟩ := List.mem_map.mp member
    exact frontPoint_ahead (allIn o listed)
  have behind : ∀ {objects : Objects ℝ}, AllInBounds objects →
      ∀ p ∈ objects.map (rearPoint Trig.real), ¬ p.y ≤ (carBounds ℝ).y := by
    intro objects allIn p member
    obtain ⟨o, listed, rfl⟩ := List.mem_map.mp member
    exact not_le.mpr (carBounds_y_lt_bottom.trans_le (rearPoint_behind (allIn o listed)))
  rw [detectedPoints_eq, detectedPoints_eq] at same
  obtain ⟨fronts, rears⟩ := append_inj_of_separated (ahead frontIn) (ahead frontIn')
    (behind rearIn) (behind rearIn') same
  exact ⟨forall₂_of_map_eq sameDetection_of_frontPoint frontIn frontIn' fronts,
    forall₂_of_map_eq sameDetection_of_rearPoint rearIn rearIn' rears⟩

/-- **The radar picture is faithful.**  The points determine the detections of both
lists, for lists of any length; they are the points around which
`updateRadarDetectedObjects` draws; none of them lies strictly inside the one
rectangle that `drawCar` strokes, the front points being on or ahead of its front
edge and the rear points on or behind its rear edge; and whatever `std::rand()`
returns, the lists that the generator builds are in bounds. -/
theorem detectedPoints_faithful :
    (∀ front rear front' rear' : Objects ℝ, AllInBounds front → AllInBounds rear →
      AllInBounds front' → AllInBounds rear' →
      detectedPoints Trig.real front rear = detectedPoints Trig.real front' rear' →
      List.Forall₂ SameDetection front front' ∧ List.Forall₂ SameDetection rear rear') ∧
    (∀ front rear : Objects ℝ,
      (updateRadarDetectedObjects Trig.real front rear).filterMap PainterOp.arcCenter =
        detectedPoints Trig.real front rear) ∧
    (drawCar ℝ).filterMap PainterOp.strokedRect = [carBounds ℝ] ∧
    (∀ front rear : Objects ℝ, AllInBounds front → AllInBounds rear →
      (∀ p ∈ detectedPoints Trig.real front rear, ¬ (carBounds ℝ).StrictlyInside p) ∧
      (∀ o ∈ front, (frontPoint Trig.real o).y ≤ (carBounds ℝ).y) ∧
      (∀ o ∈ rear, (carBounds ℝ).bottom ≤ (rearPoint Trig.real o).y)) ∧
    (∀ (rand : ℕ → ℕ) (k : ℕ),
      AllInBounds (genAmp rand k).front ∧ AllInBounds (genAmp rand k).rear) := by
  refine ⟨fun front rear front' rear' frontIn rearIn frontIn' rearIn' same =>
    sameDetections_of_points frontIn rearIn frontIn' rearIn' same,
    arcCenters_updateRadarDetectedObjects Trig.real, strokedRects_drawCar ℝ, ?_, ?_⟩
  · intro front rear frontIn rearIn
    refine ⟨?_, fun o member => frontPoint_ahead (frontIn o member),
      fun o member => rearPoint_behind (rearIn o member)⟩
    intro p member
    rw [detectedPoints_eq, List.mem_append] at member
    rintro ⟨-, -, below, above⟩
    rcases member with member | member
    · obtain ⟨o, listed, rfl⟩ := List.mem_map.mp member
      exact absurd below (not_lt.mpr (frontPoint_ahead (frontIn o listed)))
    · obtain ⟨o, listed, rfl⟩ := List.mem_map.mp member
      exact absurd above (not_lt.mpr (rearPoint_behind (rearIn o listed)))
  · intro rand k
    exact ⟨genAmp_front_inBounds rand k, genAmp_rear_inBounds rand k⟩

/-- Three detections, the second of which is at the car's edge. -/
noncomputable def threeDetections (bearing : ℝ) : Objects ℝ :=
  [⟨1, 1⟩, ⟨0, bearing⟩, ⟨1, -1⟩]

private theorem threeDetections_inBounds {bearing : ℝ} (lower : -1 ≤ bearing)
    (upper : bearing ≤ 1) : AllInBounds (threeDetections bearing) := by
  intro o member
  simp only [threeDetections, List.mem_cons, List.not_mem_nil, or_false] at member
  rcases member with rfl | rfl | rfl
  · norm_num [ObjectInfo77.InBounds, pi]
  · norm_num [ObjectInfo77.InBounds, pi]
    constructor <;> linarith
  · norm_num [ObjectInfo77.InBounds, pi]

/-- Different lists with the same points, ahead and behind: at the car's edge every
bearing is drawn alike, and the detections further away are the same. -/
theorem sameDetection_around_edge :
    List.Forall₂ SameDetection (threeDetections 0) (threeDetections 1) ∧
      List.Forall₂ SameDetection (threeDetections (-1)) (threeDetections (1 / 2)) := by
  have same : detectedPoints Trig.real (threeDetections 0) (threeDetections (-1)) =
      detectedPoints Trig.real (threeDetections 1) (threeDetections (1 / 2)) := by
    simp [detectedPoints, threeDetections, frontPoint, rearPoint]
  exact detectedPoints_faithful.1 _ _ _ _
    (threeDetections_inBounds (by norm_num) (by norm_num))
    (threeDetections_inBounds (by norm_num) (by norm_num))
    (threeDetections_inBounds (by norm_num) (by norm_num))
    (threeDetections_inBounds (by norm_num) (by norm_num)) same

/-! ## The calls on the painter -/

/-- An arc is drawn with its radius. -/
private theorem radius_of_drawSonarArc {T : Trig ℝ} {center : PointF ℝ} {sa ea radius radius' : ℝ}
    (same : drawSonarArc T center radius sa ea = drawSonarArc T center radius' sa ea) :
    radius = radius' := by
  simp only [drawSonarArc, List.cons.injEq, PainterOp.arc.injEq] at same
  exact same.2.2.2.2.2.1.2.1

/-- **The picture determines the readings.**  Two frames that make the same calls
on the painter have the same sonar readings and the same detections. -/
theorem onDraw_faithful {left right left' right' : ℝ} {front rear front' rear' : Objects ℝ}
    (frontIn : AllInBounds front) (rearIn : AllInBounds rear)
    (frontIn' : AllInBounds front') (rearIn' : AllInBounds rear')
    (same : onDraw Trig.real left right front rear = onDraw Trig.real left' right' front' rear') :
    left = left' ∧ right = right' ∧ List.Forall₂ SameDetection front front' ∧
      List.Forall₂ SameDetection rear rear' := by
  obtain ⟨upper, obstacles⟩ := List.append_inj same rfl
  obtain ⟨leftArc, rightArc⟩ := List.append_inj (List.append_cancel_left upper) rfl
  have scale : unit ℝ ≠ 0 := by
    unfold unit
    norm_num
  refine ⟨(div_left_inj' scale).mp (radius_of_drawSonarArc leftArc),
    (div_left_inj' scale).mp (radius_of_drawSonarArc rightArc), ?_⟩
  have points := congrArg (List.filterMap PainterOp.arcCenter) obstacles
  rw [arcCenters_updateRadarDetectedObjects, arcCenters_updateRadarDetectedObjects] at points
  exact sameDetections_of_points frontIn rearIn frontIn' rearIn' points

end RadarDemo
