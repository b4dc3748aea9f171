import MessageCrypto.Proofs.Agreement.Coordinates
import MessageCrypto.Proofs.Encryption.RoundTrip

/-! # The two sides of a key agreement

Each side multiplies the other's point by its own scalar. Both points are multiples of the
generator, so that the two sides reach the product of their scalars in either order, and hash its
`x` coordinate at one width. How the points were encoded does not matter, as only the points are
read from the keys.

* `agree_eq`: the agreed key in terms of the scalar and the point.
* `sharedKey_comm`: it is the same on both sides.
* `key_agreement_symmetric`: the same from the keys, with coordinates sent in place of keys, and
  with what is encrypted under the agreed key. -/

namespace MessageCrypto

theorem P256.Point.xBytes_ne_nil (q : P256.Point) : q.xBytes ≠ [] := by
  cases q with
  | infinity => exact List.ne_nil_of_length_pos (by simp [xBytes, P256.Field.size])
  | affine x y => exact List.ne_nil_of_length_pos (by simp [xBytes, P256.Field.size])

/-- The key that a scalar and the point of the other side give. -/
def sharedKey (d : P256.Scalar) (q : P256.Point) : SecretKey where
  bytes := Hash.sha256 (P256.Point.multiple d.val q).xBytes
  nonempty := List.ne_nil_of_length_pos (by simp [Hash.length_sha256])

theorem length_sharedKey (d : P256.Scalar) (q : P256.Point) : (sharedKey d q).bytes.length = 32 :=
  Hash.length_sha256 _

/-- The agreed key depends on the scalar and the point alone, and there always is one. -/
theorem agree_eq {own : PrivateKey} {peer : PublicKey} {d : P256.Scalar} {q : P256.CurvePoint}
    (hd : own.toScalar = .ok d) (hq : peer.toPoint = .ok q) :
    agree own peer = .ok (sharedKey d q.toPoint) := by
  have hdigest : HashFunction.sha256.digest (P256.Point.multiple d.val q.toPoint).xBytes =
      .ok (sharedKey d q.toPoint).bytes := if_neg (P256.Point.xBytes_ne_nil _)
  rw [agree, bind_eq_ok_iff]
  refine ⟨d, hd, bind_eq_ok_iff.2 ⟨q, hq, bind_eq_ok_iff.2 ⟨_, hdigest, ?_⟩⟩⟩
  exact dif_neg (sharedKey d q.toPoint).nonempty

/-- Both sides reach the product of their scalars. -/
theorem sharedKey_comm (d e : P256.Scalar) :
    sharedKey d (P256.Point.multiple e.val P256.Point.generator) =
      sharedKey e (P256.Point.multiple d.val P256.Point.generator) := by
  simp only [sharedKey, P256.Point.multiple_multiple, Nat.mul_comm d.val]

/-! ### Encryption under an agreed key -/

theorem Aes256Cbc.exists_encrypt_decrypt {key : SecretKey} {vector : Bytes}
    (hkey : key.bytes.length = keySize) (hvector : vector.length = 16) (plaintext : Bytes) :
    ∃ ciphertext, encrypt key vector plaintext = .ok ciphertext ∧
      decrypt key vector ciphertext = .ok plaintext := by
  obtain ⟨⟨s, before⟩, hs⟩ := setup_eq_ok_iff.2 ⟨hkey, hvector⟩
  obtain ⟨ciphertext, hencrypt⟩ := exists_encrypt hs plaintext
  exact ⟨ciphertext, hencrypt, (decrypt_eq_ok_iff_encrypt _ _ _ _).2 hencrypt⟩

theorem exists_encrypt_decrypt (key : SecretKey) {vector : Bytes} (hvector : vector.length = 16)
    (plaintext : Bytes) :
    ∃ ciphertext, encrypt key .aes256Cbc vector plaintext = .ok ciphertext ∧
      decrypt key .aes256Cbc vector ciphertext = .ok plaintext := by
  simp only [encrypt_eq, decrypt_eq]
  exact Aes256Cbc.exists_encrypt_decrypt key.length_encryptionKey hvector plaintext

/-! ### Main statement -/

/-- **Key agreement is symmetric.** The holders of two scalars, each with a key of the other's
point in any encoding, agree on one key of 32 bytes. It stays the same if a public key is replaced
by what is imported from its coordinates, and what one side encrypts under it the other decrypts,
under the scheme and with the key itself. -/
theorem key_agreement_symmetric {a b : PrivateKey} {A B : PublicKey} {da db : P256.Scalar}
    {qa qb : P256.CurvePoint} (ha : a.toScalar = .ok da) (hb : b.toScalar = .ok db)
    (hA : A.toPoint = .ok qa) (hB : B.toPoint = .ok qb)
    (hqa : qa.toPoint = P256.Point.multiple da.val P256.Point.generator)
    (hqb : qb.toPoint = P256.Point.multiple db.val P256.Point.generator) :
    ∃ k, agree a B = .ok k ∧ agree b A = .ok k ∧ k.bytes.length = 32 ∧
      (∃ x y A', exportCoordinates A = .ok (x, y) ∧ importCoordinates x y = .ok A' ∧
        agree b A' = .ok k) ∧
      (∃ x y B', exportCoordinates B = .ok (x, y) ∧ importCoordinates x y = .ok B' ∧
        agree a B' = .ok k) ∧
      ∀ vector plaintext, vector.length = 16 →
        (∃ ciphertext, encrypt k .aes256Cbc vector plaintext = .ok ciphertext ∧
          decrypt k .aes256Cbc vector ciphertext = .ok plaintext) ∧
        ∃ ciphertext, Aes256Cbc.encrypt k vector plaintext = .ok ciphertext ∧
          Aes256Cbc.decrypt k vector ciphertext = .ok plaintext := by
  have hcomm : sharedKey db qa.toPoint = sharedKey da qb.toPoint := by
    rw [hqa, hqb, sharedKey_comm]
  obtain ⟨A', himportA, hA'⟩ := exists_importCoordinates qa
  obtain ⟨B', himportB, hB'⟩ := exists_importCoordinates qb
  refine ⟨sharedKey da qb.toPoint, agree_eq ha hB, ?_, length_sharedKey _ _,
    ⟨_, _, A', exportCoordinates_eq_ok_iff.2 ⟨qa, hA, rfl, rfl⟩, himportA, ?_⟩,
    ⟨_, _, B', exportCoordinates_eq_ok_iff.2 ⟨qb, hB, rfl, rfl⟩, himportB, agree_eq ha hB'⟩, ?_⟩
  · rw [agree_eq hb hA, hcomm]
  · rw [agree_eq hb hA', hcomm]
  · intro vector plaintext hvector
    exact ⟨exists_encrypt_decrypt _ hvector plaintext,
      Aes256Cbc.exists_encrypt_decrypt (length_sharedKey _ _) hvector plaintext⟩

/-! ### The keys of the scalar 2 -/

def doubleScalar : P256.Scalar := ⟨2, by decide, by decide⟩

/-- Twice the generator. -/
def doublePoint : P256.CurvePoint where
  x := 0x7cf27b188d034f7e8a52380304b51ac3c08969e277f21b35a60b48fc47669978
  y := 0x07775510db8ed040293d9ac69f7430dbba7dade63ce982299e04b79d227873d1
  onCurve := by decide +kernel

def doublePrivateKey : PrivateKey :=
  ⟨⟨.ecdsa, doubleScalar.toDer doublePoint, KeyAlgorithm.ecdsa_ne_aes256, List.cons_ne_nil _ _⟩⟩

/-- The public key with the mark 5, as the `y` is the smaller root. -/
def doublePublicKey : PublicKey :=
  ⟨⟨.ecdsa, P256.container (0x05 :: doublePoint.x.toBytes), KeyAlgorithm.ecdsa_ne_aes256,
    List.cons_ne_nil _ _⟩⟩

theorem key_agreement_symmetric_unit_double :
    unitPrivateKey.toScalar = .ok unitScalar ∧ doublePrivateKey.toScalar = .ok doubleScalar ∧
    unitPublicKey.toPoint = .ok .generator ∧ doublePublicKey.toPoint = .ok doublePoint ∧
    P256.CurvePoint.generator.toPoint = P256.Point.multiple unitScalar.val P256.Point.generator ∧
    doublePoint.toPoint = P256.Point.multiple doubleScalar.val P256.Point.generator ∧
    ∃ k, agree unitPrivateKey doublePublicKey = .ok k ∧
      agree doublePrivateKey unitPublicKey = .ok k := by
  have hb : doublePrivateKey.toScalar = .ok doubleScalar := by decide +kernel
  have hB : doublePublicKey.toPoint = .ok doublePoint := by decide +kernel
  have hqa : P256.CurvePoint.generator.toPoint =
      P256.Point.multiple unitScalar.val P256.Point.generator := by decide +kernel
  have hqb : doublePoint.toPoint =
      P256.Point.multiple doubleScalar.val P256.Point.generator := by decide +kernel
  obtain ⟨k, hunit, hdouble, -⟩ := key_agreement_symmetric toScalar_unitPrivateKey hb
    toPoint_unitPublicKey hB hqa hqb
  exact ⟨toScalar_unitPrivateKey, hb, toPoint_unitPublicKey, hB, hqa, hqb, k, hunit, hdouble⟩

end MessageCrypto
