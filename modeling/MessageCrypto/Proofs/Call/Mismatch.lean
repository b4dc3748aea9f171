import MessageCrypto.Proofs.Call.Failure

/-! # Keys are used for their own algorithm

Every operation that takes an asymmetric key compares its tag before anything else is done with the
key. If the tag is another one, the failure names the tag that was expected and the one that was
given, and it is the same for any other bytes under that tag.

* `Call.Refuses`: a call is turned down for the tag of one of its keys.
* `Call.refuses_of_fails`: every mismatch that is reported is of this kind.
* `keys_used_for_their_algorithm`: with the rules for signing and verifying under a scheme. -/

namespace MessageCrypto

/-! ### Reading -/

theorem EncodedKey.ReadFails.ne_of_mismatch {α : Type} {key : EncodedKey}
    {expected e a : KeyAlgorithm} {read : Option α} {malformed : Error}
    (h : key.ReadFails expected read malformed (.keyAlgorithmMismatch e a))
    (hmalformed : malformed ≠ .keyAlgorithmMismatch e a) :
    key.algorithm ≠ expected ∧ e = expected ∧ a = key.algorithm := by
  obtain ⟨hne, heq⟩ | ⟨-, -, heq⟩ := h
  · obtain ⟨rfl, rfl⟩ := Error.keyAlgorithmMismatch.inj heq
    exact ⟨hne, rfl, rfl⟩
  · exact absurd heq.symm hmalformed

/-! ### Calls that are turned down -/

/-- **A call is turned down for the tag** of one of its keys, whatever the bytes of that key are. -/
structure Call.Refuses (c : Call) (K : Key) (expected : KeyAlgorithm) : Prop where
  mem : K ∈ c.keys
  ne : K.algorithm ≠ expected
  run_withKey : ∀ L, K.SameTag L →
    (c.withKey L).run = pure (.error (.keyAlgorithmMismatch expected K.algorithm))

namespace Key

variable {L : Key}

theorem SameTag.of_secret {key : SecretKey} (h : (secret key).SameTag L) :
    ∃ key', L = secret key' := by
  cases L with
  | secret key' => exact ⟨key', rfl⟩
  | privateHalf => cases h.kind_eq
  | publicHalf => cases h.kind_eq

theorem SameTag.of_privateHalf {key : PrivateKey} (h : (privateHalf key).SameTag L) :
    ∃ key', L = privateHalf key' ∧ key'.algorithm = key.algorithm := by
  cases L with
  | secret => cases h.kind_eq
  | publicHalf => cases h.kind_eq
  | privateHalf key' => exact ⟨key', rfl, h.algorithm_eq.symm⟩

theorem SameTag.of_publicHalf {key : PublicKey} (h : (publicHalf key).SameTag L) :
    ∃ key', L = publicHalf key' ∧ key'.algorithm = key.algorithm := by
  cases L with
  | secret => cases h.kind_eq
  | privateHalf => cases h.kind_eq
  | publicHalf key' => exact ⟨key', rfl, h.algorithm_eq.symm⟩

end Key

namespace Call

/-- A key among the arguments stands in its own place. -/
theorem withKey_of_mem {c : Call} {K : Key} (h : K ∈ c.keys) : c.withKey K = c := by
  cases c <;> simp only [keys, List.mem_cons, List.not_mem_nil, or_false] at h
  case agree =>
    obtain rfl | rfl := h <;> rfl
  all_goals
    obtain rfl := h
    rfl

theorem Refuses.run_eq {c : Call} {K : Key} {expected : KeyAlgorithm} (h : c.Refuses K expected) :
    c.run = pure (.error (.keyAlgorithmMismatch expected K.algorithm)) := by
  rw [← h.run_withKey K ⟨rfl, rfl⟩, withKey_of_mem h.mem]

section
variable {c : Call} {expected : KeyAlgorithm}

/-- It is enough to look at the private keys with a wrong tag. -/
theorem Refuses.of_privateHalf {key : PrivateKey} (hmem : .privateHalf key ∈ c.keys)
    (hne : key.algorithm ≠ expected)
    (hrun : ∀ key' : PrivateKey, key'.algorithm ≠ expected → (c.withKey (.privateHalf key')).run =
      pure (.error (.keyAlgorithmMismatch expected key'.algorithm))) :
    c.Refuses (.privateHalf key) expected where
  mem := hmem
  ne := hne
  run_withKey L hL := by
    obtain ⟨key', rfl, ha⟩ := hL.of_privateHalf
    rw [hrun key' (ha ▸ hne), ha]
    rfl

/-- It is enough to look at the public keys with a wrong tag. -/
theorem Refuses.of_publicHalf {key : PublicKey} (hmem : .publicHalf key ∈ c.keys)
    (hne : key.algorithm ≠ expected)
    (hrun : ∀ key' : PublicKey, key'.algorithm ≠ expected → (c.withKey (.publicHalf key')).run =
      pure (.error (.keyAlgorithmMismatch expected key'.algorithm))) :
    c.Refuses (.publicHalf key) expected where
  mem := hmem
  ne := hne
  run_withKey L hL := by
    obtain ⟨key', rfl, ha⟩ := hL.of_publicHalf
    rw [hrun key' (ha ▸ hne), ha]
    rfl

end

section
variable {s data : Bytes}

theorem refuses_signEcdsa {key : PrivateKey} (hne : key.algorithm ≠ .ecdsa) :
    (signEcdsa key data).Refuses (.privateHalf key) .ecdsa :=
  .of_privateHalf (List.mem_singleton_self _) hne fun key' hne' => by
    rw [withKey, run, Ecdsa.sign_of_algorithm_ne hne']
    rfl

theorem refuses_verifyEcdsa {key : PublicKey} (hne : key.algorithm ≠ .ecdsa) :
    (verifyEcdsa key s data).Refuses (.publicHalf key) .ecdsa :=
  .of_publicHalf (List.mem_singleton_self _) hne fun key' hne' => by
    rw [withKey, run, Ecdsa.verify_of_algorithm_ne hne']
    rfl

theorem refuses_signRsa {key : PrivateKey} (hne : key.algorithm ≠ .rsa) :
    (signRsa key data).Refuses (.privateHalf key) .rsa :=
  .of_privateHalf (List.mem_singleton_self _) hne fun key' hne' => by
    rw [withKey, run, Rsa2048.sign_of_algorithm_ne hne']
    rfl

theorem refuses_verifyRsa {key : PublicKey} (hne : key.algorithm ≠ .rsa) :
    (verifyRsa key s data).Refuses (.publicHalf key) .rsa :=
  .of_publicHalf (List.mem_singleton_self _) hne fun key' hne' => by
    rw [withKey, run, Rsa2048.verify_of_algorithm_ne hne']
    rfl

theorem refuses_exportCoordinates {key : PublicKey} (hne : key.algorithm ≠ .ecdsa) :
    (exportCoordinates key).Refuses (.publicHalf key) .ecdsa :=
  .of_publicHalf (List.mem_singleton_self _) hne fun key' hne' => by
    rw [withKey, run, exportCoordinates_of_toPoint_eq_error (PublicKey.toPoint_of_algorithm_ne hne')]
    rfl

theorem refuses_agree_own {own : PrivateKey} {peer : PublicKey} (hne : own.algorithm ≠ .ecdsa) :
    (agree own peer).Refuses (.privateHalf own) .ecdsa :=
  .of_privateHalf (List.mem_cons_self) hne fun own' hne' => by
    rw [withKey, run, agree_eq_error_iff.2 (.inl (PrivateKey.toScalar_of_algorithm_ne hne'))]
    rfl

/-- The key of the peer is only looked at if the own key has been read. -/
theorem refuses_agree_peer {own : PrivateKey} {peer : PublicKey}
    (hown : ∃ d, own.toScalar = .ok d) (hne : peer.algorithm ≠ .ecdsa) :
    (agree own peer).Refuses (.publicHalf peer) .ecdsa :=
  .of_publicHalf (List.mem_cons_of_mem _ (List.mem_singleton_self _)) hne fun peer' hne' => by
    rw [withKey, run,
      agree_eq_error_iff.2 (.inr ⟨hown, PublicKey.toPoint_of_algorithm_ne hne'⟩)]
    rfl

theorem refuses_sign {scheme : SignatureScheme} {K : Key} (hkind : K.kind ≠ .publicHalf)
    (hne : K.algorithm ≠ scheme.keyAlgorithm) :
    (sign scheme K data).Refuses K scheme.keyAlgorithm where
  mem := List.mem_singleton_self _
  ne := hne
  run_withKey L hL := by
    rw [withKey, run, sign_of_algorithm_ne (hL.kind_eq ▸ hkind) (hL.algorithm_eq ▸ hne),
      hL.algorithm_eq]
    rfl

end

/-- **Every mismatch that is reported** is that of a key among the arguments, and of nothing but its
tag. -/
theorem refuses_of_fails {c : Call} {e a : KeyAlgorithm}
    (h : c.Fails (.keyAlgorithmMismatch e a)) : ∃ K, K.algorithm = a ∧ c.Refuses K e := by
  have hmay := mayFail_of_fails h
  cases c with
  | signEcdsa key data =>
    obtain hread | hother := hmay
    · obtain ⟨hne, rfl, rfl⟩ := (PrivateKey.toScalar_eq_error_iff.1 hread).ne_of_mismatch nofun
      exact ⟨_, rfl, refuses_signEcdsa hne⟩
    · cases hother
  | verifyEcdsa key s data =>
    obtain hread | hother := hmay
    · obtain ⟨hne, rfl, rfl⟩ := (PublicKey.toPoint_eq_error_iff.1 hread).ne_of_mismatch nofun
      exact ⟨_, rfl, refuses_verifyEcdsa hne⟩
    · cases hother
  | signRsa key data =>
    obtain hread | ⟨bits, hother⟩ | hother := hmay
    · obtain ⟨hne, rfl, rfl⟩ := (PrivateKey.toRsa_eq_error_iff.1 hread).ne_of_mismatch nofun
      exact ⟨_, rfl, refuses_signRsa hne⟩
    · cases hother
    · cases hother
  | verifyRsa key s data =>
    obtain hread | ⟨bits, hother⟩ | hother := hmay
    · obtain ⟨hne, rfl, rfl⟩ := (PublicKey.toRsa_eq_error_iff.1 hread).ne_of_mismatch nofun
      exact ⟨_, rfl, refuses_verifyRsa hne⟩
    · cases hother
    · cases hother
  | exportCoordinates key =>
    obtain ⟨hne, rfl, rfl⟩ := (PublicKey.toPoint_eq_error_iff.1 hmay).ne_of_mismatch nofun
    exact ⟨_, rfl, refuses_exportCoordinates hne⟩
  | agree own peer =>
    obtain hread | ⟨hown, hread⟩ := hmay
    · obtain ⟨hne, rfl, rfl⟩ := (PrivateKey.toScalar_eq_error_iff.1 hread).ne_of_mismatch nofun
      exact ⟨_, rfl, refuses_agree_own hne⟩
    · obtain ⟨hne, rfl, rfl⟩ := (PublicKey.toPoint_eq_error_iff.1 hread).ne_of_mismatch nofun
      exact ⟨_, rfl, refuses_agree_peer hown hne⟩
  | sign scheme K data =>
    obtain ⟨-, hother⟩ | ⟨hkind, hne, heq⟩ | ⟨-, -, hother⟩ := hmay
    · cases hother
    · obtain ⟨rfl, rfl⟩ := Error.keyAlgorithmMismatch.inj heq
      exact ⟨K, rfl, refuses_sign hkind hne⟩
    · obtain hother | hother | ⟨bits, hother⟩ | hother := hother <;> cases hother
  -- no other operation compares tags
  | digest | readInteger | readSignatureScheme | readEncryptionScheme | extract | expand
  | randomBytes => cases hmay.2
  | verifyHmac | importCoordinates | importSecret | generateRsa => cases hmay
  | encryptWith | importPrivate | importPublic => obtain hother | hother := hmay <;> cases hother
  | decryptWith => obtain (hother | hother) | hother | hother := hmay <;> cases hother
  | encrypt => obtain ⟨-, hother⟩ | hother := hmay <;> cases hother
  | decrypt => obtain ⟨-, hother⟩ | hother | hother | hother := hmay <;> cases hother
  | derive | signHmac | verify | randomVector | generateSecret | generateEc => exact hmay.elim

end Call

/-! ### Signing under a scheme -/

/-- The text of a modulus of another size is not that of a public key: it starts with another
letter. -/
theorem Error.detail?_modulusSize_ne (bits : ℕ) :
    (modulusSize bits).detail? ≠ some "cannot sign with a public key" := by
  intro h
  have hfirst := congrArg (Option.map fun text => text.toList.head?) h
  simp only [detail?, Option.map_some, String.toList_append, List.append_assoc] at hfirst
  rw [List.head?_append_of_ne_nil _ (by decide)] at hfirst
  exact absurd hfirst (by decide)

section
variable {scheme : SignatureScheme} {K : Key} {data : Bytes} {x : Except Error Bytes}
  (hx : (sign scheme K data).Yields x)
include hx

/-- **Signing with a public key** is the only way to fail with its text, whatever is drawn. -/
theorem sign_fails_for_publicHalf_iff :
    (∃ e, x = .error e ∧ e.kind = .invalidKey ∧
      e.detail? = some "cannot sign with a public key") ↔ K.kind = .publicHalf := by
  constructor
  · rintro ⟨e, rfl, hkind, hdetail⟩
    obtain ⟨hpublic, -⟩ | ⟨-, -, rfl⟩ | ⟨-, -, hcause⟩ := sign_yields_error hx
    · exact hpublic
    · cases hkind
    · obtain rfl | rfl | ⟨bits, rfl⟩ | rfl := hcause
      · exact absurd hdetail (by decide)
      · exact absurd hdetail (by decide)
      · exact absurd hdetail (Error.detail?_modulusSize_ne bits)
      · cases hkind
  · intro hpublic
    cases K with
    | secret => cases hpublic
    | privateHalf => cases hpublic
    | publicHalf key =>
      rw [sign_publicHalf, Draw.yields_pure] at hx
      exact ⟨_, hx, rfl, rfl⟩

theorem sign_mismatch_iff {e a : KeyAlgorithm} :
    x = .error (.keyAlgorithmMismatch e a) ↔
      K.kind ≠ .publicHalf ∧ K.algorithm ≠ scheme.keyAlgorithm ∧
        e = scheme.keyAlgorithm ∧ a = K.algorithm := by
  constructor
  · rintro rfl
    obtain ⟨-, hother⟩ | ⟨hkind, hne, heq⟩ | ⟨-, -, hother⟩ := sign_yields_error hx
    · cases hother
    · exact ⟨hkind, hne, Error.keyAlgorithmMismatch.inj heq⟩
    · obtain hother | hother | ⟨bits, hother⟩ | hother := hother <;> cases hother
  · rintro ⟨hkind, hne, rfl, rfl⟩
    rw [sign_of_algorithm_ne hkind hne, Draw.yields_pure] at hx
    exact hx

omit hx in
theorem Error.kind_eq_mismatch_iff {e : Error} :
    e.kind = .keyAlgorithmMismatch ↔ ∃ x a, e = .keyAlgorithmMismatch x a := by
  cases e <;> simp [kind]

theorem sign_failsWith_mismatch_iff : FailsWith .keyAlgorithmMismatch x ↔
    K.kind ≠ .publicHalf ∧ K.algorithm ≠ scheme.keyAlgorithm := by
  constructor
  · rintro ⟨e, he, hkind⟩
    obtain ⟨expected, actual, rfl⟩ := Error.kind_eq_mismatch_iff.1 hkind
    obtain ⟨hpublic, hne, -⟩ := (sign_mismatch_iff hx).1 he
    exact ⟨hpublic, hne⟩
  · rintro ⟨hpublic, hne⟩
    exact ⟨_, (sign_mismatch_iff hx).2 ⟨hpublic, hne, rfl, rfl⟩, rfl⟩

end

/-! ### Main statement -/

/-- **Keys are used for their own algorithm.** Whatever is drawn, signing fails for a public key, and
else for a tag that does not fit, which the failure names; a key that verifies something has the tag
and the kind of the scheme. A mismatch that any call reports names two different tags, the second one
that of a key among the arguments, and the call has the same outcome with any key of that kind and
tag. -/
theorem keys_used_for_their_algorithm :
    (∀ (scheme : SignatureScheme) (K : Key) (data : Bytes) (x : Except Error Bytes),
      (sign scheme K data).Yields x →
      ((∃ e, x = .error e ∧ e.kind = .invalidKey ∧
        e.detail? = some "cannot sign with a public key") ↔ K.kind = .publicHalf) ∧
      (FailsWith .keyAlgorithmMismatch x ↔
        K.kind ≠ .publicHalf ∧ K.algorithm ≠ scheme.keyAlgorithm) ∧
      ∀ e a, x = .error (.keyAlgorithmMismatch e a) →
        e = scheme.keyAlgorithm ∧ a = K.algorithm) ∧
    (∀ (scheme : SignatureScheme) (K : Key) (s data : Bytes), verify scheme K s data = true →
      K.algorithm = scheme.keyAlgorithm ∧ K.kind = scheme.verifyingKind) ∧
    ∀ (c : Call) (e a : KeyAlgorithm), c.Fails (.keyAlgorithmMismatch e a) →
      e ≠ a ∧ ∃ K ∈ c.keys, K.algorithm = a ∧
        ∀ L, K.SameTag L → (c.withKey L).run = c.run := by
  refine ⟨fun scheme K data x hx => ⟨sign_fails_for_publicHalf_iff hx,
    sign_failsWith_mismatch_iff hx, fun e a h => ((sign_mismatch_iff hx).1 h).2.2⟩,
    fun scheme K s data h => fits_of_verify h, fun c e a h => ?_⟩
  obtain ⟨K, rfl, hrefuses⟩ := Call.refuses_of_fails h
  refine ⟨hrefuses.ne.symm, K, hrefuses.mem, rfl, fun L hL => ?_⟩
  rw [hrefuses.run_withKey L hL, hrefuses.run_eq]

/-! ### A key with another tag -/

/-- A private key tagged for RSA, whose bytes are no key. -/
def taggedKey : PrivateKey :=
  ⟨⟨.rsa, [1], KeyAlgorithm.rsa_ne_aes256, List.cons_ne_nil _ _⟩⟩

/-- A secret key of one byte. -/
def byteKey : SecretKey := ⟨[1], List.cons_ne_nil _ _⟩

/-- A tag that verifies, and signing and an agreement that are turned down for the tag of the own
key. -/
theorem keys_used_for_their_algorithm_tagged :
    verify .hmacSha256 (.secret byteKey) (Hmac.sign byteKey.tagKey []) [] = true ∧
    (Key.secret byteKey).kind = SignatureScheme.hmacSha256.verifyingKind ∧
    sign .ecdsaP256Sha256 (.privateHalf taggedKey) [] =
      pure (.error (.keyAlgorithmMismatch .ecdsa .rsa)) ∧
    (∀ x, (sign .ecdsaP256Sha256 (.privateHalf taggedKey) []).Yields x →
      FailsWith .keyAlgorithmMismatch x) ∧
    (Call.agree taggedKey unitPublicKey).Fails (.keyAlgorithmMismatch .ecdsa .rsa) ∧
    ∃ K ∈ (Call.agree taggedKey unitPublicKey).keys, K.algorithm = .rsa := by
  obtain ⟨hsigning, hverify, hmismatch⟩ := keys_used_for_their_algorithm
  have htag : verify .hmacSha256 (.secret byteKey) (Hmac.sign byteKey.tagKey []) [] = true :=
    verify_secret_iff.2 rfl
  have htagged : taggedKey.algorithm = .rsa := rfl
  have hne : taggedKey.algorithm ≠ .ecdsa := htagged ▸ KeyAlgorithm.noConfusion
  have hread : taggedKey.toScalar = .error (.keyAlgorithmMismatch .ecdsa .rsa) := by
    rw [PrivateKey.toScalar_of_algorithm_ne hne, htagged]
  have hsign : sign .ecdsaP256Sha256 (.privateHalf taggedKey) [] =
      pure (.error (.keyAlgorithmMismatch .ecdsa .rsa)) :=
    sign_of_algorithm_ne Key.Kind.noConfusion hne
  have hfails : (Call.agree taggedKey unitPublicKey).Fails (.keyAlgorithmMismatch .ecdsa .rsa) :=
    Call.yields_pure_map_error_iff.2 (agree_eq_error_iff.2 (.inl hread))
  obtain ⟨-, K, hK, ha, -⟩ := hmismatch _ _ _ hfails
  exact ⟨htag, (hverify _ _ _ _ htag).2, hsign,
    fun x hx => (hsigning _ _ _ x hx).2.1.2 ⟨Key.Kind.noConfusion, hne⟩, hfails, K, hK, ha⟩

end MessageCrypto
