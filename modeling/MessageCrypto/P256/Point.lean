import MessageCrypto.P256.Field

/-!
# Points of P-256

The curve `y² = x³ - 3x + b` with the point at infinity, under the chord-and-tangent law. A
generator of prime order `n` is fixed.

* `Point.add`, `Point.multiple`: the group operation and its multiples.
* `CurvePoint`: a finite point together with the proof that it is on the curve.
-/

namespace MessageCrypto.P256

/-- The constant of the curve. -/
def b : Field := 0x5ac635d8aa3a93e7b3ebbd55769886bc651d06b0cc53b0f63bce3c3e27d2604b

/-- The order of the generator. -/
def n : Nat := 0xffffffff00000000ffffffffffffffffbce6faada7179e84f3b9cac2fc632551

/-- The equation of the curve. -/
def OnCurve (x y : Field) : Prop := y * y = x * x * x - 3 * x + b

instance (x y : Field) : Decidable (OnCurve x y) := inferInstanceAs (Decidable (_ = _))

/-- The point at infinity, or coordinates. -/
inductive Point where
  | infinity
  | affine (x y : Field)
  deriving DecidableEq

namespace Point

/-- The third point of the line of the given slope through two points, reflected. -/
def third (slope x₁ y₁ x₂ : Field) : Point :=
  let x := slope * slope - x₁ - x₂
  affine x (slope * (x₁ - x) - y₁)

/-- The sum: through equal points goes the tangent, through opposite ones the vertical line. -/
def add : Point → Point → Point
  | infinity, q => q
  | r, infinity => r
  | affine x₁ y₁, affine x₂ y₂ =>
    if x₁ = x₂ then
      if y₁ + y₂ = 0 then infinity
      else third ((3 * x₁ * x₁ - 3) * Field.inverse (y₁ + y₁)) x₁ y₁ x₂
    else third ((y₂ - y₁) * Field.inverse (x₂ - x₁)) x₁ y₁ x₂

/-- The sum of `k` copies of a point. -/
def multiple (k : Nat) (q : Point) : Point := power add infinity q k

def generator : Point :=
  affine 0x6b17d1f2e12c4247f8bce6e563a440f277037d812deb33a0f4a13945d898c296
    0x4fe342e2fe1a7f9b8ee7eb4a7c0f9e162bce33576b315ececbb6406837bf51f5

end Point

/-- A finite point of the curve. -/
structure CurvePoint where
  x : Field
  y : Field
  onCurve : OnCurve x y
  deriving DecidableEq

namespace CurvePoint

def toPoint (q : CurvePoint) : Point := .affine q.x q.y

def ofCoordinates? (x y : Field) : Option CurvePoint :=
  if h : OnCurve x y then some ⟨x, y, h⟩ else none

/-- The same finite point with the proof that it is on the curve, if it is. -/
def ofPoint? : Point → Option CurvePoint
  | .infinity => none
  | .affine x y => ofCoordinates? x y

end CurvePoint

end MessageCrypto.P256
