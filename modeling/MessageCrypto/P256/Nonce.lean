import MessageCrypto.Hash.Drbg
import MessageCrypto.P256.Scalar

/-!
# Deterministic nonces

The nonce of a signature is drawn from a generator that is seeded with the secret scalar and the
digest, so that equal inputs give equal signatures and no other randomness is needed. Draws out of
range are discarded.
-/

namespace MessageCrypto.P256

/-- The first draw of 32 bytes that is a scalar, out of `tries`. The one after them is brought into
range, which is where this departs from deterministic ECDSA: there the draws go on until one is a
scalar, without a bound on them. -/
def firstScalar : (tries : Nat) → Hash.Drbg → Scalar
  | 0, g => Scalar.reduce (Bytes.toNat (g.generate 32).1)
  | tries + 1, g =>
    let (bytes, next) := g.generate 32
    match Scalar.ofBytes? bytes with
    | some k => k
    | none => firstScalar tries next

/-- The nonce for a digest; a draw is out of range with a chance below `2^-32`. -/
def nonce (d : Scalar) (digest : Bytes) : Scalar :=
  firstScalar 64 (Hash.Drbg.ofSeed (d.toBytes ++ Bytes.ofNat 32 (Bytes.toNat digest % n)))

end MessageCrypto.P256
