import MessageCrypto.Draw
import MessageCrypto.Power
import MessageCrypto.Rsa.Key

/-!
# RSA signatures of SHA-256 digests

A digest is written, with the name of the hash, behind padding that fills the size of the modulus.
A signature is a root of that number, and checking raises it to the public exponent and compares
all bytes. The root is taken of the number times a power of a random number, which is taken out
again: what the private exponent is applied to is not known from the digest.

* `PublicKey.drawUnit`, `PrivateKey.blindedRoot`: the random number, and the root with it.
* `sign?`, `verify`.
-/

namespace MessageCrypto.Rsa

open Der (Element)

/-- The name of SHA-256 and a digest. -/
def digestInfo (digest : Bytes) : Bytes :=
  (Element.sequence [
    .sequence [⟨.objectIdentifier, [0x60, 0x86, 0x48, 0x01, 0x65, 0x03, 0x04, 0x02, 0x01]⟩,
      ⟨.null, []⟩],
    .octetString digest]).encode

/-- `size` bytes: 0 and 1, as many 255s as fit, 0, and the digest with its name. -/
def padded (size : Nat) (digest : Bytes) : Bytes :=
  let info := digestInfo digest
  0 :: 1 :: (List.replicate (size - 3 - info.length) 0xff ++ 0 :: info)

/-! ### Inverses and roots -/

/-- Coefficients whose combination of two numbers is their greatest common divisor. -/
def bezout (a b : Nat) : Int × Int :=
  if h : b = 0 then (1, 0)
  else
    have : a % b < b := Nat.mod_lt _ (Nat.pos_of_ne_zero h)
    let (x, y) := bezout b (a % b)
    (y, x - (a / b) * y)
termination_by b

/-- The inverse modulo `m` of a number coprime to it. -/
def inverseMod (a m : Nat) : Nat := ((bezout a m).1 % m).toNat

/-- The number below `p * q` with the given remainders modulo coprime factors. -/
def combine (p q x y : Nat) : Nat :=
  let t := (x + p - y % p) * inverseMod q p % p
  t * q + y

namespace PrivateKey

/-- The power by the inverse exponent, modulo each factor if the factors are coprime. -/
def root (k : PrivateKey) (m : Nat) : Nat :=
  if Nat.gcd k.p k.q = 1 then
    combine k.p k.q (powerMod k.p m (k.inverse % (k.p - 1)))
      (powerMod k.q m (k.inverse % (k.q - 1)))
  else powerMod k.modulus m k.inverse

end PrivateKey

/-! ### Blinding -/

/-- Bytes as a number of as many bits as the modulus has; zero counts as one. -/
def PublicKey.unitCandidate (k : PublicKey) (bytes : Bytes) : Nat :=
  let r := Bytes.toNat bytes % (1 <<< (k.modulus.log2 + 1))
  if r = 0 then 1 else r

/-- A random number below the modulus and coprime to it. When no try is left it is one, which a try
may give as well: the bound on the tries adds no number and takes none away. -/
def PublicKey.drawUnit (k : PublicKey) : (tries : Nat) → Draw Nat
  | 0 => pure 1
  | tries + 1 => do
    let r := k.unitCandidate (← Draw.bytes k.size)
    if r < k.modulus ∧ Nat.gcd r k.modulus = 1 then pure r else k.drawUnit tries

/-- More than one number of 2048 bits in fourteen is a unit of an odd modulus, so that no unit is
among the tries with a chance below `2^-100`. -/
def blindingTries : Nat := 1000

/-- The root of a number, with the power of `r` on the number and `r` off its root. -/
def PrivateKey.blindedRoot (k : PrivateKey) (r m : Nat) : Nat :=
  k.root (m * powerMod k.modulus r k.exponent % k.modulus) * inverseMod r k.modulus % k.modulus

/-! ### Signatures -/

/-- The root of the padded digest, blinded by `r`, none if it is no root: the factors of a key need
not be prime. -/
def signWith? (k : PrivateKey) (r : Nat) (digest : Bytes) : Option Bytes :=
  let m := Bytes.toNat (padded k.size digest)
  let s := k.blindedRoot r m
  if powerMod k.modulus s k.exponent = m then some (Bytes.ofNat k.size s) else none

def sign? (k : PrivateKey) (digest : Bytes) : Draw (Option Bytes) :=
  (fun r => signWith? k r digest) <$> k.drawUnit blindingTries

def verify (k : PublicKey) (digest signature : Bytes) : Bool :=
  let s := Bytes.toNat signature
  signature.length == k.size && s < k.modulus &&
    Bytes.ofNat k.size (powerMod k.modulus s k.exponent) == padded k.size digest

end MessageCrypto.Rsa
