import RadarDemo.TestModel

/-!
# The picture

The drawing functions of `main.cc`, as the calls they make on the painter, in
order.  The painter itself is the toolkit's; a picture is the list of calls.

`Frame` is what one run of the `on_draw` handler reads from the model; `Frame.paint`
is the picture it draws from that.  The two sonar readings are read from a
member without an initial value, so a frame may hold an indeterminate reading
(`none`), and then it determines no picture.

* `detectedPoints_eq` — the obstacles drawn are the images of the front list
  followed by the images of the rear list.
* `arcCenters_updateRadarDetectedObjects`, `strokedRects_drawCar` — what is drawn
  around `pts`, and the rectangle that is stroked.
* `onDraw_balanced` — every drawing function restores the painter state it
  saved.
-/

namespace RadarDemo

/-- The painter calls the demo makes; colours are the source's strings. -/
inductive PainterOp (R : Type)
  | save
  | restore
  | setStrokeColor (color : String)
  | setFillColor (color : String)
  | beginPath
  | closePath
  | moveTo (p : PointF R)
  | lineTo (p : PointF R)
  | arc (center : PointF R) (radius sa ea : R)
  | stroke
  | fill
  | strokeRect (rect : RectF R)
  deriving DecidableEq, Repr

section Drawing

variable {R : Type} [Field R] (T : Trig R)

def drawSonarArc (center : PointF R) (radius sa ea : R) : List (PainterOp R) :=
  [.save, .setStrokeColor "#2029E9", .beginPath, .moveTo center,
    .lineTo ⟨center.x + radius * T.cos sa, center.y + radius * T.sin sa⟩,
    .arc center radius sa ea, .closePath, .stroke, .restore]

def drawRadarObstacle (center : PointF R) (radius : R) : List (PainterOp R) :=
  [.save, .setStrokeColor "#550000", .setFillColor "#DD0000", .beginPath,
    .arc center radius 0 (2 * pi R), .closePath, .fill, .restore]

/-- The rectangle that `drawCar` strokes. -/
def carBounds (R : Type) [Field R] : RectF R :=
  RectF.offset ⟨-width R / 2, -height R / 2, width R, height R⟩ (centerX R) (centerY R)

def drawCar (R : Type) [Field R] : List (PainterOp R) :=
  [.save, .setStrokeColor "#000000", .strokeRect (carBounds R), .restore]

/-- The two arcs, from `m_sonar.left` and `m_sonar.right`. -/
def updateSonarArc (left right : R) : List (PainterOp R) :=
  drawSonarArc T ⟨centerX R - width R / 2, centerY R⟩ (left / unit R)
      (pi R - sonarAngleRange R / 2) (pi R + sonarAngleRange R / 2) ++
    drawSonarArc T ⟨centerX R + width R / 2, centerY R⟩ (right / unit R)
      (2 * pi R - sonarAngleRange R / 2) (sonarAngleRange R / 2)

/-- The point pushed for a detection of the front list. -/
def frontPoint (o : ObjectInfo77 R) : PointF R :=
  let r := o.range / unit R
  let thelta := o.azimuth
  ⟨centerX R + r * T.sin thelta, centerY R - height R / 2 - r * T.cos thelta⟩

/-- The point pushed for a detection of the rear list. -/
def rearPoint (o : ObjectInfo77 R) : PointF R :=
  let r := o.range / unit R
  let thelta := o.azimuth
  ⟨centerX R - r * T.sin thelta, centerY R + height R / 2 + r * T.cos thelta⟩

/-- `pts`, as the two loops of `updateRadarDetectedObjects` push it. -/
def detectedPoints (front rear : Objects R) : List (PointF R) :=
  let pts := front.foldl (fun pts o => pts ++ [frontPoint T o]) []
  rear.foldl (fun pts o => pts ++ [rearPoint T o]) pts

def updateRadarDetectedObjects (front rear : Objects R) : List (PainterOp R) :=
  (detectedPoints T front rear).flatMap fun pt => drawRadarObstacle pt 5

/-- The `on_draw` handler. -/
def onDraw (left right : R) (front rear : Objects R) : List (PainterOp R) :=
  drawCar R ++ updateSonarArc T left right ++ updateRadarDetectedObjects T front rear

end Drawing

/-! ## What the calls draw -/

/-- The rectangle that a call strokes. -/
def PainterOp.strokedRect {R : Type} : PainterOp R → Option (RectF R)
  | .strokeRect rect => some rect
  | _ => none

/-- The point around which a call draws an arc. -/
def PainterOp.arcCenter {R : Type} : PainterOp R → Option (PointF R)
  | .arc center _ _ _ => some center
  | _ => none

theorem strokedRects_drawCar (R : Type) [Field R] :
    (drawCar R).filterMap PainterOp.strokedRect = [carBounds R] := rfl

/-- One arc is drawn around every point of `pts`. -/
theorem arcCenters_updateRadarDetectedObjects {R : Type} [Field R] (T : Trig R)
    (front rear : Objects R) :
    (updateRadarDetectedObjects T front rear).filterMap PainterOp.arcCenter =
      detectedPoints T front rear := by
  unfold updateRadarDetectedObjects
  induction detectedPoints T front rear with
  | nil => rfl
  | cons pt pts ih =>
      rw [List.flatMap_cons, List.filterMap_append, ih]
      rfl

/-! ## Frames -/

/-- What one run of the `on_draw` handler has read. -/
structure Frame (R : Type) where
  left : Option R
  right : Option R
  front : Objects R
  rear : Objects R
  deriving DecidableEq, Repr

namespace Frame

variable {R : Type}

/-- The frame that shows one batch. -/
def ofBatch (batch : Batch R) : Frame R :=
  ⟨some batch.sonar.left, some batch.sonar.right, batch.front, batch.rear⟩

/-- The picture drawn from the readings, if they are determinate. -/
def paint [Field R] (T : Trig R) (frame : Frame R) : Option (List (PainterOp R)) :=
  match frame.left, frame.right with
  | some left, some right => some (onDraw T left right frame.front frame.rear)
  | _, _ => none

end Frame

/-! ## The obstacle list -/

/-- A loop that pushes one image per element builds the list of images. -/
private theorem foldl_push {α β : Type} (f : α → β) (xs : List α) (pts : List β) :
    xs.foldl (fun pts x => pts ++ [f x]) pts = pts ++ xs.map f := by
  induction xs generalizing pts with
  | nil => simp
  | cons x xs ih => rw [List.foldl_cons, ih, List.map_cons, List.append_assoc]; rfl

/-- The points are the images of the front list, then those of the rear list. -/
theorem detectedPoints_eq {R : Type} [Field R] (T : Trig R) (front rear : Objects R) :
    detectedPoints T front rear = front.map (frontPoint T) ++ rear.map (rearPoint T) := by
  rw [detectedPoints, foldl_push, foldl_push, List.nil_append]

/-! ## The painter state -/

/-- The number of saved painter states after the calls, starting from `depth`;
`none` if a call restores a state that was not saved. -/
def saveDepth {R : Type} : ℕ → List (PainterOp R) → Option ℕ
  | depth, [] => some depth
  | depth, .save :: ops => saveDepth (depth + 1) ops
  | 0, .restore :: _ => none
  | depth + 1, .restore :: ops => saveDepth depth ops
  | depth, _ :: ops => saveDepth depth ops

/-- Calls that leave the number of saved states as they found it. -/
def Balanced {R : Type} (ops : List (PainterOp R)) : Prop :=
  ∀ depth rest, saveDepth depth (ops ++ rest) = saveDepth depth rest

theorem Balanced.append {R : Type} {ops ops' : List (PainterOp R)} (first : Balanced ops)
    (second : Balanced ops') : Balanced (ops ++ ops') := by
  intro depth rest
  rw [List.append_assoc, first, second]

theorem Balanced.flatMap {R α : Type} {f : α → List (PainterOp R)} (each : ∀ x, Balanced (f x))
    (xs : List α) : Balanced (xs.flatMap f) := by
  induction xs with
  | nil => intro depth rest; rfl
  | cons x xs ih =>
      rw [List.flatMap_cons]
      exact (each x).append ih

section

variable {R : Type} [Field R] (T : Trig R)

theorem drawSonarArc_balanced (center : PointF R) (radius sa ea : R) :
    Balanced (drawSonarArc T center radius sa ea) := fun _ _ => rfl

theorem drawRadarObstacle_balanced (center : PointF R) (radius : R) :
    Balanced (drawRadarObstacle center radius) := fun _ _ => rfl

theorem drawCar_balanced : Balanced (drawCar R) := fun _ _ => rfl

/-- **The handler hands the painter back as it got it**, for every reading and
every number of obstacles. -/
theorem onDraw_balanced (left right : R) (front rear : Objects R) :
    Balanced (onDraw T left right front rear) :=
  (drawCar_balanced.append
      ((drawSonarArc_balanced T _ _ _ _).append (drawSonarArc_balanced T _ _ _ _))).append
    (Balanced.flatMap (fun _ => drawRadarObstacle_balanced _ _) _)

end

end RadarDemo
