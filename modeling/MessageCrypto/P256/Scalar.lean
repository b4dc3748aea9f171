import MessageCrypto.P256.Encoding

/-!
# Secret scalars

A secret scalar is a number from 1 to one below the order of the generator; its public point is
that multiple of the generator.

* `Scalar.ofBytes?`: 24 to 32 bytes are read, short ones as if zeros stood in front.
-/

namespace MessageCrypto.P256

/-- A number from 1 to `n - 1`. -/
structure Scalar where
  val : Nat
  pos : 1 ≤ val
  lt : val < n
  deriving DecidableEq

namespace Scalar

def ofNat? (k : Nat) : Option Scalar :=
  if h : 1 ≤ k ∧ k < n then some ⟨k, h.1, h.2⟩ else none

/-- Any number, brought into range modulo `n - 1`. -/
def reduce (k : Nat) : Scalar :=
  ⟨k % (n - 1) + 1, by omega, by
    have h : k % (n - 1) < n - 1 := Nat.mod_lt _ (by decide)
    have : 1 ≤ n := by decide
    omega⟩

def toBytes (d : Scalar) : Bytes := Bytes.ofNat 32 d.val

def ofBytes? (bytes : Bytes) : Option Scalar :=
  if 24 ≤ bytes.length ∧ bytes.length ≤ 32 then ofNat? (Bytes.toNat bytes) else none

/-- The multiple of the generator. -/
def publicPoint? (d : Scalar) : Option CurvePoint :=
  CurvePoint.ofPoint? (Point.multiple d.val Point.generator)

end Scalar

end MessageCrypto.P256
