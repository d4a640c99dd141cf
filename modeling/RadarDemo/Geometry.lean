import Mathlib.Algebra.Order.Field.Basic

/-!
# The demo's geometry

The constants at the head of `main.cc`, the points and rectangles of
`nativeui/gfx/geometry` and the two library functions of `<cmath>` the drawing
code calls.

The source computes in `float`.  Here the number type is a parameter: every
definition is the source's formula over an arbitrary field, so it is evaluated
over `ℚ` and reasoned about over `ℝ`.  `std::sin` and `std::cos` are a parameter
as well (`Trig`), for which the reals supply the exact functions.
-/

namespace RadarDemo

/-- The numeral `2` of every number type, under one name. -/
scoped instance atLeastTwo_two : Nat.AtLeastTwo 2 := inferInstance

/-! ## Constants -/

section Constants

variable (R : Type) [Field R]

/-- The source's `pi`, the decimal `3.1415926`. -/
def pi : R := 31415926 / 10000000

def windowWidth : R := 600

def windowHeight : R := 600

/-- This many centimetres are one pixel. -/
def unit : R := 2

/-- The car's width, 102 cm. -/
def width : R := 102 / unit R

/-- The car's length, 175 cm. -/
def height : R := 175 / unit R

def centerX : R := windowWidth R / 2

def centerY : R := windowHeight R / 2

def sonarAngleRange : R := pi R / 3

end Constants

/-! ## Points and rectangles -/

/-- `nu::PointF`; `y` grows downwards. -/
structure PointF (R : Type) where
  x : R
  y : R
  deriving DecidableEq, Repr

/-- `nu::RectF`: the upper left corner and the size. -/
structure RectF (R : Type) where
  x : R
  y : R
  width : R
  height : R
  deriving DecidableEq, Repr

namespace RectF

variable {R : Type} [Field R]

/-- `RectF::Offset`. -/
def offset (r : RectF R) (horizontal vertical : R) : RectF R :=
  { r with x := r.x + horizontal, y := r.y + vertical }

def right (r : RectF R) : R := r.x + r.width

def bottom (r : RectF R) : R := r.y + r.height

/-- The point lies in the rectangle and on none of its edges. -/
def StrictlyInside [LT R] (r : RectF R) (p : PointF R) : Prop :=
  r.x < p.x ∧ p.x < r.right ∧ r.y < p.y ∧ p.y < r.bottom

end RectF

/-- `std::sin` and `std::cos`. -/
structure Trig (R : Type) where
  sin : R → R
  cos : R → R

end RadarDemo
