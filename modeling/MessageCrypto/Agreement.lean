import MessageCrypto.Digest
import MessageCrypto.Signing

/-!
# Key agreement

Two parties agree on a secret key: each multiplies the other's public point by its own scalar and
hashes the `x` coordinate of the result. Public points are exchanged as coordinates of 32 bytes.
-/

namespace MessageCrypto

/-- The shared coordinate at its fixed width; the point at infinity has zero. -/
def P256.Point.xBytes : P256.Point → Bytes
  | infinity => Bytes.ofNat P256.Field.size 0
  | affine x _ => x.toBytes

/-- The key that the holder of a private key shares with the holder of the other public key. -/
def agree (own : PrivateKey) (peer : PublicKey) : Except Error SecretKey := do
  let d ← own.toScalar
  let q ← peer.toPoint
  let shared := (P256.Point.multiple d.val q.toPoint).xBytes
  SecretKey.ofBytes (← HashFunction.sha256.digest shared)

/-- The coordinates of a public key on P-256; the point at infinity has none. -/
def exportCoordinates (key : PublicKey) : Except Error (Bytes × Bytes) := do
  let q ← key.toPoint
  match q.toPoint with
  | .affine x y => .ok (x.toBytes, y.toBytes)
  | .infinity => .error .identityPoint

/-- The public key with the given coordinates, if they are those of a point. -/
def importCoordinates (x y : Bytes) : Except Error PublicKey :=
  match P256.CurvePoint.ofBytes? (0x04 :: (x ++ y)) with
  | some q => PublicKey.ofPoint q
  | none => .error .pointOffCurve

end MessageCrypto
