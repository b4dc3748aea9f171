import MessageCrypto.Proofs.Derivation
import MessageCrypto.Proofs.Draw
import MessageCrypto.Proofs.Signing.Check

/-! # Tags under a master key

Under the scheme with a secret key, the tag is made with a key derived from the master key. One tag
is accepted for each message, and it is bound to the master key as well: unlike a tag made with the
key as it is, where zeros behind a short key make no difference.

* `sign_secret`, `verify_secret_iff`: the tag that is made, and that no other is accepted.
* `eq_or_collides_of_tag_eq`: if a tag is accepted under another key or for another message, two
  inputs of corresponding hashes collide. -/

namespace MessageCrypto

/-- The key that tags are made with. -/
def SecretKey.tagKey (master : SecretKey) : SecretKey :=
  master.derived SignatureScheme.hmacSha256.purpose

theorem sign_secret (master : SecretKey) (data : Bytes) :
    sign .hmacSha256 (.secret master) data = pure (.ok (Hmac.sign master.tagKey data)) := by
  simp only [sign, SecretKey.derive_eq, bind, Except.bind, SecretKey.tagKey, Hmac.tag_eq]

theorem verify_secret_iff {master : SecretKey} {signature data : Bytes} :
    verify .hmacSha256 (.secret master) signature data = true ↔
      signature = Hmac.sign master.tagKey data := by
  have hcheck : check .hmacSha256 (.secret master) signature data =
      Hmac.verify master.tagKey signature data := by
    simp only [check, SecretKey.derive_eq, bind, Except.bind, SecretKey.tagKey]
  rw [verify_iff_check, hcheck, Hmac.verify_eq_ok_iff]

/-- **A tag binds** the master key and the message. -/
theorem eq_or_collides_of_tag_eq {k k' : SecretKey} {d d' : Bytes}
    (h : Hmac.sign k.tagKey d = Hmac.sign k'.tagKey d') :
    (k = k' ∧ d = d') ∨ SecretKey.DerivationCollides k k' "SIG:1" "SIG:1" ∨
      Hash.Hmac.Collides k.tagKey.bytes d k'.tagKey.bytes d' := by
  have hk : k.tagKey.bytes.length = 32 := SecretKey.length_derived _ _
  have hk' : k'.tagKey.bytes.length = 32 := SecretKey.length_derived _ _
  rcases Hash.Hmac.eq_or_collides_of_length_eq (by omega) (hk.trans hk'.symm) h with
    ⟨hkey, hd⟩ | hc
  · rcases SecretKey.eq_or_collides_of_derived_eq hkey with ⟨hmaster, -⟩ | hc
    · exact Or.inl ⟨hmaster, hd⟩
    · exact Or.inr (Or.inl hc)
  · exact Or.inr (Or.inr hc)

/-- **Exactly the tag that signing returns is accepted**, nothing is drawn for it, it has 32 bytes,
and if it is accepted under another master key or for another message, then two inputs of one of the
six hashes on the way collide. -/
theorem tag_exact_and_binding (k k' : SecretKey) (d d' : Bytes) :
    (∀ s, verify .hmacSha256 (.secret k) s d = true ↔
      (sign .hmacSha256 (.secret k) d).Yields (.ok s)) ∧
    ∃ t, sign .hmacSha256 (.secret k) d = pure (.ok t) ∧ t.length = 32 ∧
      (verify .hmacSha256 (.secret k') t d' = true →
        (k = k' ∧ d = d') ∨ SecretKey.DerivationCollides k k' "SIG:1" "SIG:1" ∨
          Hash.Hmac.Collides k.tagKey.bytes d k'.tagKey.bytes d') := by
  refine ⟨fun s => ?_, Hmac.sign k.tagKey d, sign_secret k d, Hmac.length_sign _ _, fun h => ?_⟩
  · rw [verify_secret_iff, sign_secret, Draw.yields_pure, Except.ok.injEq]
  · exact eq_or_collides_of_tag_eq (verify_secret_iff.1 h)

end MessageCrypto
