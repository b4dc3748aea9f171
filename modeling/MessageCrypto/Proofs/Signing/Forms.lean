import MessageCrypto.Proofs.Der.PrivateKey
import MessageCrypto.Proofs.Signing.Dispatch
import MessageCrypto.Proofs.Signing.Rsa
import MessageCrypto.Proofs.Signing.Writing

/-! # The two forms of RSA private keys

A private key is read as a bare key or else as one in a container. No byte string is both: behind
the version a bare key has a number and a container has its algorithm. So the order in which the two
are tried does not matter, and a bare key that is put into a container is read as what it was.

* `Rsa.PrivateKey.decodePrivateKey?_of_ofBare?`: a bare key is no container.
* `Rsa.PrivateKey.ofDer?_eq_ofContainer?_or`: the two forms in the other order.
* `Rsa.PrivateKey.ofDer?_encodePrivateKey`: a bare key in a container.
* `rsa_private_key_forms_unambiguous`: the same from the keys, with what they sign. -/

namespace MessageCrypto

open Der (Element IsSequence IsPrivateKeyInfo)

namespace Rsa.PrivateKey

variable {bytes : Bytes} {k : PrivateKey}

/-! ### One form or the other -/

/-- The key in a container. -/
def ofContainer? (bytes : Bytes) : Option PrivateKey :=
  (Der.decodePrivateKey? algorithm bytes).bind ofBare?

/-- A bare key is the strict encoding of nine numbers. -/
theorem exists_isSequence_of_ofBare? (h : ofBare? bytes = some k) :
    ∃ ns : List ℕ, ns.length = 9 ∧ IsSequence (ns.map .unsigned) bytes := by
  simp only [ofBare?, Option.bind_eq_bind, Option.bind_eq_some_iff] at h
  obtain ⟨es, hes, ns, hns, h⟩ := h
  obtain rfl := Element.mapM_unsigned?_eq_some_iff.1 hns
  split at h
  case h_1 => exact ⟨_, rfl, Der.isSequence_iff.2 hes⟩
  case h_2 => cases h

/-- Numbers in a row are no container: the second of them would be the algorithm. -/
theorem not_isPrivateKeyInfo_of_isSequence {ns : List ℕ} {algorithm : Der.Algorithm} {key : Bytes}
    (h : IsSequence (ns.map .unsigned) bytes) : ¬ IsPrivateKeyInfo algorithm key bytes := by
  rintro ⟨-, version, trailer, -, hseq⟩
  have hsecond : (ns.map Element.unsigned)[1]? = some (.sequence algorithm) := by
    rw [h.unique hseq]
    rfl
  rw [List.getElem?_map] at hsecond
  obtain ⟨m, -, hm⟩ := Option.map_eq_some_iff.1 hsecond
  cases congrArg Element.tag hm

/-- **A bare key is no container** of a private key, for any algorithm. -/
theorem decodePrivateKey?_of_ofBare? (h : ofBare? bytes = some k) (algorithm : Der.Algorithm) :
    Der.decodePrivateKey? algorithm bytes = none := by
  obtain ⟨ns, -, hseq⟩ := exists_isSequence_of_ofBare? h
  refine Option.eq_none_iff_forall_ne_some.2 fun key hkey => ?_
  exact not_isPrivateKeyInfo_of_isSequence hseq (Der.decodePrivateKey?_eq_some_iff.1 hkey)

/-- **The order of the two forms does not matter.** -/
theorem ofDer?_eq_ofContainer?_or (bytes : Bytes) :
    ofDer? bytes = (ofContainer? bytes).or (ofBare? bytes) := by
  unfold ofDer?
  cases h : ofBare? bytes with
  | none => exact Option.or_none.symm
  | some k =>
    have hnone : ofContainer? bytes = none := by
      rw [ofContainer?, decodePrivateKey?_of_ofBare? h, Option.bind_none]
    rw [hnone, Option.none_or]

/-- **A bare key in a container** is read as what it was. -/
theorem ofDer?_encodePrivateKey (h : ofBare? bytes = some k)
    (hlength : (Der.encodePrivateKey algorithm bytes).length ≤ Der.maxLength) :
    ofDer? (Der.encodePrivateKey algorithm bytes) = some k := by
  have hdecode := Der.decodePrivateKey?_eq_some_iff.2
    (Der.isPrivateKeyInfo_encodePrivateKey isValid_of_mem_algorithm hlength)
  rw [ofDer?_eq_ofContainer?_or, ofContainer?, hdecode, Option.bind_some, h, Option.some_or]

end Rsa.PrivateKey

/-! ### Under keys -/

/-- The key with its bytes put into a container for RSA. -/
def PrivateKey.inContainer (key : PrivateKey) : PrivateKey :=
  ⟨⟨key.algorithm, Der.encodePrivateKey Rsa.algorithm key.bytes, key.asymmetric,
    Element.encode_ne_nil _⟩⟩

/-- **The two forms of RSA private keys cannot be confused.** What is read as a bare key is no
container, so that the two could be tried in either order. A bare key in a container, if that is
within the limit on lengths, is read as the same numbers, and signs alike under every scheme. -/
theorem rsa_private_key_forms_unambiguous :
    (∀ bytes k, Rsa.PrivateKey.ofBare? bytes = some k →
      ∀ algorithm, Der.decodePrivateKey? algorithm bytes = none) ∧
    (∀ bytes, Rsa.PrivateKey.ofDer? bytes =
      (Rsa.PrivateKey.ofContainer? bytes).or (Rsa.PrivateKey.ofBare? bytes)) ∧
    ∀ (key : PrivateKey) (k : Rsa.PrivateKey), key.algorithm = .rsa →
      Rsa.PrivateKey.ofBare? key.bytes = some k → key.inContainer.bytes.length ≤ Der.maxLength →
      key.toRsa = .ok k ∧ key.inContainer.toRsa = .ok k ∧
      (∀ data, Rsa2048.sign key.inContainer data = Rsa2048.sign key data) ∧
      ∀ scheme data, sign scheme (.privateHalf key.inContainer) data =
        sign scheme (.privateHalf key) data := by
  refine ⟨fun bytes k h => Rsa.PrivateKey.decodePrivateKey?_of_ofBare? h,
    Rsa.PrivateKey.ofDer?_eq_ofContainer?_or, fun key k hkey hbare hlength => ?_⟩
  have hk : key.toRsa = .ok k :=
    PrivateKey.toRsa_eq_ok_iff.2 ⟨hkey, Rsa.PrivateKey.ofDer?_of_ofBare? hbare⟩
  have hk' : key.inContainer.toRsa = .ok k :=
    PrivateKey.toRsa_eq_ok_iff.2 ⟨hkey, Rsa.PrivateKey.ofDer?_encodePrivateKey hbare hlength⟩
  have hd : key.inContainer.toScalar = key.toScalar := by
    have hne : key.algorithm ≠ .ecdsa := hkey ▸ by decide
    rw [PrivateKey.toScalar_of_algorithm_ne hne]
    exact PrivateKey.toScalar_of_algorithm_ne hne
  refine ⟨hk, hk', fun data => ?_, fun scheme data => ?_⟩
  · simp only [Rsa2048.sign, Rsa2048.signingKey, hk, hk']
  · exact sign_privateHalf_congr rfl hd (hk'.trans hk.symm)

theorem length_inContainer_shortPrivateKey_le :
    shortPrivateKey.inContainer.bytes.length ≤ Der.maxLength := by
  obtain ⟨hlt, hinverse, hcoefficient⟩ := lt_shortRsaKey
  have hkey : shortPrivateKey.bytes.length ≤ 9 * (256 + 7) + 6 :=
    Rsa.PrivateKey.length_encode_toElement_le hasPrimeFactors_shortRsaKey.valid hlt hinverse
      hcoefficient (by decide)
  have halgorithm : (Der.encode Rsa.algorithm).length ≤ 9 * (256 + 7) + 7 :=
    Rsa.length_encode_algorithm_le.trans (by decide)
  exact (Der.length_encodePrivateKey_le halgorithm (Nat.lt_succ_of_le hkey) (by decide)).trans
    (by decide)

/-- The short key signs the empty message in both forms, with one signature, whatever is drawn. -/
theorem rsa_private_key_forms_unambiguous_short :
    Rsa.PrivateKey.ofBare? shortPrivateKey.bytes = some shortRsaKey ∧
    shortPrivateKey.inContainer.bytes.length ≤ Der.maxLength ∧
    ∃ s, (∀ x, (Rsa2048.sign shortPrivateKey []).Yields x ↔ x = .ok s) ∧
      ∀ x, (Rsa2048.sign shortPrivateKey.inContainer []).Yields x ↔ x = .ok s := by
  have hprimes := hasPrimeFactors_shortRsaKey
  have hsize : shortRsaKey.size = 256 := by decide +kernel
  obtain ⟨s, hsign, -⟩ : ∃ s, (∀ x, (Rsa2048.sign shortPrivateKey []).Yields x ↔ x = .ok s) ∧
      ∀ s', Rsa2048.verify shortPublicKey s' [] = .ok () ↔ s' = s :=
    Rsa2048.exists_sign toRsa_shortPrivateKey toRsa_shortPublicKey hsize hprimes.prime_p
      hprimes.prime_q hprimes.ne
  obtain ⟨-, -, hforms⟩ := rsa_private_key_forms_unambiguous
  obtain ⟨-, -, hsame, -⟩ := hforms shortPrivateKey shortRsaKey rfl ofBare?_shortPrivateKey
    length_inContainer_shortPrivateKey_le
  refine ⟨ofBare?_shortPrivateKey, length_inContainer_shortPrivateKey_le, s, hsign, fun x => ?_⟩
  rw [hsame]
  exact hsign x

end MessageCrypto
