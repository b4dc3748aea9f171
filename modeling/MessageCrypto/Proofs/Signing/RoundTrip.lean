import MessageCrypto.Proofs.Signing.Dispatch
import MessageCrypto.Proofs.Signing.Ecdsa
import MessageCrypto.Proofs.Signing.Rsa
import MessageCrypto.Proofs.Signing.Tag

/-! # What is signed is accepted

Signing and checking fit together under every scheme, whether they take one key or the two halves of
a pair. The halves need not have been generated together: it is enough that the public one can be
read and holds what belongs to the private one.

* `SignatureScheme.Matches`: which key checks what another signs.
* `verify_of_sign`: what is signed under a scheme is accepted. -/

namespace MessageCrypto

/-- **The second key checks what the first signs**: it is the same secret key, or a public key with
the point of the scalar, or one with the public numbers of the private key. -/
inductive SignatureScheme.Matches : SignatureScheme → Key → Key → Prop
  | hmac (key : SecretKey) : Matches .hmacSha256 (.secret key) (.secret key)
  | ecdsa {own : PrivateKey} {peer : PublicKey} {d : P256.Scalar} {q : P256.CurvePoint}
      (hd : own.toScalar = .ok d) (hq : peer.toPoint = .ok q)
      (hdq : q.toPoint = P256.Point.multiple d.val P256.Point.generator) :
      Matches .ecdsaP256Sha256 (.privateHalf own) (.publicHalf peer)
  | rsa {own : PrivateKey} {peer : PublicKey} {k : Rsa.PrivateKey} (hk : own.toRsa = .ok k)
      (hpeer : peer.toRsa = .ok k.toPublicKey) :
      Matches .rsa2048Sha256 (.privateHalf own) (.publicHalf peer)

/-- A key that has signed something is of the right size. -/
theorem Rsa2048.size_eq_of_sign {key : PrivateKey} {k : Rsa.PrivateKey} {s data : Bytes}
    (hk : key.toRsa = .ok k) (h : (Rsa2048.sign key data).Yields (.ok s)) : k.size = 256 := by
  by_contra hsize
  rw [Rsa2048.sign_of_size_ne hk hsize] at h
  cases Draw.yields_pure.1 h

/-- **What is signed is accepted** under every scheme, whatever was drawn. -/
theorem verify_of_sign {scheme : SignatureScheme} {K L : Key} {s data : Bytes}
    (h : scheme.Matches K L) (hs : (sign scheme K data).Yields (.ok s)) :
    verify scheme L s data = true := by
  cases h with
  | hmac key =>
    rw [sign_secret, Draw.yields_pure] at hs
    exact verify_secret_iff.2 (Except.ok.inj hs)
  | ecdsa hd hq hdq =>
    have hsign := (Draw.yields_pure.1 hs).symm
    exact verify_publicHalf_iff.2 (Ecdsa.verify_of_sign hd hq hdq hsign)
  | rsa hk hpeer =>
    have hsize := Rsa2048.size_eq_of_sign hk hs
    exact verify_iff_check.2 (Rsa2048.verify_of_sign hk hpeer hsize hs).2

end MessageCrypto
