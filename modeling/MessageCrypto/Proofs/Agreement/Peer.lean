import MessageCrypto.Proofs.Agreement.Secret
import MessageCrypto.Proofs.Hash.Binding
import MessageCrypto.Proofs.P256.Count

/-! # The agreed key and the peer

Only the `x` coordinate of the shared point is hashed, and two points have one `x` if they are
opposite. So have their multiples: one side cannot tell the peer with a point from the peer with
the opposite one, but it can tell any others, as long as SHA-256 has no collision in the shared
coordinates.

* `sharedKey_eq_iff`: the keys of two points as digests of their shared coordinates.
* `agreed_key_identifies_peer`: the same from the keys. -/

namespace MessageCrypto

/-- The finite point `s` is what the scalar and the point of the peer give. -/
def IsShared (d : P256.Scalar) (q s : P256.CurvePoint) : Prop :=
  s.toPoint = P256.Point.multiple d.val q.toPoint

theorem P256.CurvePoint.xBytes_toPoint (q : P256.CurvePoint) : q.toPoint.xBytes = q.x.toBytes :=
  rfl

section
variable {d : P256.Scalar} {q r s t : P256.CurvePoint}

/-- The agreed key is the digest of the shared `x` at its full width. -/
theorem bytes_sharedKey (hs : IsShared d q s) :
    (sharedKey d q.toPoint).bytes = Hash.sha256 s.x.toBytes := by
  have hx : (P256.Point.multiple d.val q.toPoint).xBytes = s.x.toBytes := by
    rw [← hs, P256.CurvePoint.xBytes_toPoint]
  exact congrArg Hash.sha256 hx

theorem sharedKey_eq_iff (hs : IsShared d q s) (ht : IsShared d r t) :
    sharedKey d q.toPoint = sharedKey d r.toPoint ↔
      Hash.sha256 s.x.toBytes = Hash.sha256 t.x.toBytes := by
  rw [SecretKey.mk.injEq, ← bytes_sharedKey hs, ← bytes_sharedKey ht]

theorem P256.Field.toBytes_inj {x y : P256.Field} : x.toBytes = y.toBytes ↔ x = y := by
  rw [toBytes_eq_iff, toNat_toBytes, length_toBytes, Fin.ext_iff]
  exact and_iff_right rfl

/-- **The agreed key identifies the peer** up to the sign of its point. The points that are shared
with two peers are finite. Equal or opposite points of the peers give one key, and if others do
then the `x` coordinates of the shared points collide at their width of 32 bytes. -/
theorem agreed_key_identifies_peer {own : PrivateKey} {P Q : PublicKey} (hd : own.toScalar = .ok d)
    (hP : P.toPoint = .ok q) (hQ : Q.toPoint = .ok r) :
    ∃ k l s t, agree own P = .ok k ∧ agree own Q = .ok l ∧ IsShared d q s ∧ IsShared d r t ∧
      k.bytes = Hash.sha256 s.x.toBytes ∧ l.bytes = Hash.sha256 t.x.toBytes ∧
      s.x.toBytes.length = 32 ∧ t.x.toBytes.length = 32 ∧
      (q = r ∨ q.IsOpposite r → k = l) ∧
      (k = l → (q = r ∨ q.IsOpposite r) ∨ Hash.IsCollision s.x.toBytes t.x.toBytes) := by
  obtain ⟨s, -, hs⟩ := P256.CurvePoint.exists_multiple d q
  obtain ⟨t, -, ht⟩ := P256.CurvePoint.exists_multiple d r
  refine ⟨_, _, s, t, agree_eq hd hP, agree_eq hd hQ, hs, ht, bytes_sharedKey hs,
    bytes_sharedKey ht, P256.Field.length_toBytes _, P256.Field.length_toBytes _, ?_, ?_⟩
  · intro h
    rw [sharedKey_eq_iff hs ht, (P256.CurvePoint.multiple_x_eq_iff hs ht).2 h]
  · rw [sharedKey_eq_iff hs ht, ← P256.CurvePoint.multiple_x_eq_iff hs ht,
      ← P256.Field.toBytes_inj]
    exact Hash.eq_or_isCollision

end

/-! ### A peer and its opposite -/

/-- The public key of the opposite of the generator, with its point compressed. -/
def oppositePublicKey : PublicKey :=
  ⟨⟨.ecdsa, P256.container (0x02 :: P256.CurvePoint.generator.x.toBytes),
    KeyAlgorithm.ecdsa_ne_aes256, List.cons_ne_nil _ _⟩⟩

/-- The opposite of the generator. -/
def oppositePoint : P256.CurvePoint where
  x := P256.CurvePoint.generator.x
  y := -P256.CurvePoint.generator.y
  onCurve := by decide +kernel

/-- Two keys with different bytes whose points are opposite give one agreed key. -/
theorem agreed_key_identifies_peer_opposite :
    unitPrivateKey.toScalar = .ok unitScalar ∧
    unitPublicKey.toPoint = .ok .generator ∧ oppositePublicKey.toPoint = .ok oppositePoint ∧
    unitPublicKey.bytes ≠ oppositePublicKey.bytes ∧
    P256.CurvePoint.generator.IsOpposite oppositePoint ∧
    ∃ k, agree unitPrivateKey unitPublicKey = .ok k ∧
      agree unitPrivateKey oppositePublicKey = .ok k := by
  have hQ : oppositePublicKey.toPoint = .ok oppositePoint := by decide +kernel
  have hne : unitPublicKey.bytes ≠ oppositePublicKey.bytes := by decide +kernel
  have hopposite : P256.CurvePoint.generator.IsOpposite oppositePoint :=
    ⟨rfl, by decide +kernel⟩
  obtain ⟨k, l, -, -, hk, hl, -, -, -, -, -, -, hsame, -⟩ :=
    agreed_key_identifies_peer toScalar_unitPrivateKey toPoint_unitPublicKey hQ
  obtain rfl := hsame (.inr hopposite)
  exact ⟨toScalar_unitPrivateKey, toPoint_unitPublicKey, hQ, hne, hopposite, k, hk, hl⟩

end MessageCrypto
