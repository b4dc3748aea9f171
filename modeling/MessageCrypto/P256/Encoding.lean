import MessageCrypto.Bytes
import MessageCrypto.P256.Point

/-!
# Points as byte strings

Coordinates are written at a fixed width of 32 bytes. A point is written as a mark and both
coordinates, as a mark that gives the parity of `y` and `x` alone, or as a mark and `x` alone when
`y` is the smaller of the two roots.

* `CurvePoint.ofBytes?`: all three forms are read; the point at infinity is not.
* `CurvePoint.uncompressed`, `CurvePoint.compressed`: the first two are written.
-/

namespace MessageCrypto.P256

namespace Field

/-- The number of bytes of a coordinate. -/
def size : Nat := 32

def toBytes (x : Field) : Bytes := Bytes.ofNat size x.val

/-- A field element from as many bytes that stand for a number below `p`. -/
def ofBytes? (bytes : Bytes) : Option Field :=
  if bytes.length = size then ofNat? (Bytes.toNat bytes) else none

/-- The right-hand side of the equation of the curve. -/
def cubic (x : Field) : Field := x * x * x - 3 * x + b

end Field

namespace CurvePoint

/-- The point with the given `x` whose `y` is the root, or its opposite, that is wanted. -/
def ofRoot? (wanted : Field → Bool) (x : Field) : Option CurvePoint := do
  let y ← Field.sqrt? x.cubic
  ofCoordinates? x (if wanted y then y else -y)

/-- The point that a byte string stands for. -/
def ofBytes? : Bytes → Option CurvePoint
  | [] => none
  | mark :: rest =>
    if mark = 0x04 then do
      let x ← Field.ofBytes? (rest.take Field.size)
      let y ← Field.ofBytes? (rest.drop Field.size)
      ofCoordinates? x y
    else if mark = 0x02 ∨ mark = 0x03 then do
      let x ← Field.ofBytes? rest
      ofRoot? (fun y => y.val % 2 == mark.toNat % 2) x
    else if mark = 0x05 then do
      let x ← Field.ofBytes? rest
      ofRoot? (fun y => y.val ≤ (-y).val) x
    else none

/-- The mark 4 and both coordinates. -/
def uncompressed (q : CurvePoint) : Bytes := 0x04 :: (q.x.toBytes ++ q.y.toBytes)

/-- The mark 2 or 3, for an even or odd `y`, and `x`. -/
def compressed (q : CurvePoint) : Bytes := (if q.y.val % 2 = 0 then 0x02 else 0x03) :: q.x.toBytes

end CurvePoint

end MessageCrypto.P256
