import MessageCrypto.Random
import MessageCrypto.Signing

/-!
# Key generation

Key pairs are made from a scalar or from two primes, and those are drawn at random.

* `KeyPair.ofScalar`, `KeyPair.ofRsa`: the pair of what was drawn, encoded.
* `KeyPair.generateEc`, `KeyPair.generateRsa`: a fresh pair.
-/

namespace MessageCrypto

/-! ### P-256 -/

def KeyPair.ofScalar (d : P256.Scalar) : Except Error KeyPair :=
  match d.publicPoint? with
  | some q => do
    let privateKey ← PrivateKey.write .ecdsa (.unwritablePair .ecPrivate) (d.toDer q)
    let publicKey ← (PublicKey.ofPoint q).mapError fun _ => .unwritablePair .ecPublic
    .ok ⟨privateKey, publicKey⟩
  | none => .error .scalarWithoutPoint

/-- Eight bytes more than a scalar has leave no bias worth the name after reduction. -/
def P256.Scalar.draw : Draw P256.Scalar :=
  (fun bytes => P256.Scalar.reduce (Bytes.toNat bytes)) <$> Draw.bytes 40

def KeyPair.generateEc : Draw (Except Error KeyPair) := KeyPair.ofScalar <$> P256.Scalar.draw

/-! ### Primes -/

/-- The odd primes below 1000. -/
def smallPrimes : List Nat :=
  (List.range 1000).filter fun k =>
    3 ≤ k && k % 2 == 1 && (List.range k).all fun d => d < 2 || k % d != 0

/-- Squares `x` up to `count` times until it is `-1` modulo `m`. -/
def reachesMinusOne (m : Nat) : (count x : Nat) → Bool
  | 0, _ => false
  | k + 1, x => x == m - 1 || reachesMinusOne m k (x * x % m)

/-- The number of factors two of a number, up to `bound` of them, and the rest. -/
def splitTwos : (bound m : Nat) → Nat × Nat
  | 0, m => (0, m)
  | k + 1, m =>
    if m % 2 = 0 then
      let (twos, rest) := splitTwos k (m / 2)
      (twos + 1, rest)
    else (0, m)

/-- The powers of a base agree with `m` being prime. -/
def passes (m base : Nat) : Bool :=
  let (twos, rest) := splitTwos m.log2 (m - 1)
  let x := powerMod m base rest
  x == 1 || reachesMinusOne m twos x

/-- A number without small factors that passes for twenty bases. -/
def isProbablePrime (m : Nat) : Bool :=
  (smallPrimes.all fun k => m % k != 0) && (smallPrimes.take 20).all (passes m)

/-! ### RSA -/

namespace Rsa

/-- The exponent of generated keys. -/
def publicExponent : Nat := 65537

/-- 128 bytes as an odd number of 1024 bits with its two highest bits set. -/
def candidate (bytes : Bytes) : Nat := Bytes.toNat bytes % (1 <<< 1022) ||| (3 <<< 1022) ||| 1

/-- A prime whose predecessor is coprime to the exponent, and that is not `other`. -/
def drawPrime (other : Nat) : (tries : Nat) → Draw (Option Nat)
  | 0 => pure none
  | k + 1 => do
    let m := candidate (← Draw.bytes 128)
    if m ≠ other ∧ (m - 1) % publicExponent ≠ 0 ∧ isProbablePrime m then pure (some m)
    else drawPrime other k

/-- The key with two primes. -/
def PrivateKey.ofPrimes (p q : Nat) : PrivateKey where
  modulus := p * q
  exponent := publicExponent
  inverse := inverseMod publicExponent ((p - 1) * (q - 1))
  p := p
  q := q

/-- Twenty thousand candidates contain a prime but for a chance of `2^-80`. -/
def PrivateKey.draw : Draw (Option PrivateKey) := do
  match ← drawPrime 0 20000 with
  | none => pure none
  | some p =>
    match ← drawPrime p 20000 with
    | none => pure none
    | some q => pure (some (.ofPrimes p q))

end Rsa

def KeyPair.ofRsa (k : Rsa.PrivateKey) : Except Error KeyPair := do
  let privateKey ← PrivateKey.write .rsa (.unwritablePair .rsaPrivate)
    (k.toElement (Rsa.inverseMod k.q k.p)).encode
  let publicKey ← PublicKey.write .rsa (.unwritablePair .rsaPublic) k.toPublicKey.toDer
  .ok ⟨privateKey, publicKey⟩

def KeyPair.generateRsa : Draw (Except Error KeyPair) := do
  match ← Rsa.PrivateKey.draw with
  | some k => pure (KeyPair.ofRsa k)
  | none => pure (.error .noPrimeFound)

end MessageCrypto
