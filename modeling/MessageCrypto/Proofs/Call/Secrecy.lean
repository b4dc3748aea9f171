import MessageCrypto.Proofs.Call.Mismatch

/-! # Failures do not show keys

The texts that are made of a key are its description and the failures of the calls that take it.
Two runs of a call, with a key replaced by another, cannot be told apart by how they fail: what a
failure depends on is the kind, the tag and the length of the key, whether it can be read, and the
size of its modulus. Which of the bytes of a key make a padding wrong or a signature impossible is
not shown, as there is one cause for all of them.

* `FailAlike`, `AgreeOnCause`: two runs fail together, or for one cause if both of them fail.
* `Key.Alike`: keys that a failure does not tell apart.
* `Call.agree_of_alike`: no call tells such keys apart.
* `failures_hide_keys`: with the descriptions. -/

namespace MessageCrypto

/-! ### Failures of two runs -/

section
variable {α β : Type}

/-- Both runs fail, for one cause, or neither does. -/
def FailAlike (x y : Except Error α) : Prop := ∀ e, x = .error e ↔ y = .error e

/-- If both runs fail, they do for one cause. -/
def AgreeOnCause (x y : Except Error α) : Prop := ∀ e e', x = .error e → y = .error e' → e = e'

variable {x y : Except Error α}

theorem FailAlike.refl (x : Except Error α) : FailAlike x x := fun _ => Iff.rfl

theorem FailAlike.agree (h : FailAlike x y) : AgreeOnCause x y := by
  intro e e' hx hy
  rw [(h e).1 hx] at hy
  exact Except.error.inj hy

/-- There are two cases for runs that fail together. -/
theorem FailAlike.error_or_ok (h : FailAlike x y) :
    (∃ e, x = .error e ∧ y = .error e) ∨ ∃ a b, x = .ok a ∧ y = .ok b := by
  cases x with
  | error e => exact .inl ⟨e, rfl, (h e).1 rfl⟩
  | ok a =>
    cases y with
    | error e => cases (h e).2 rfl
    | ok b => exact .inr ⟨a, b, rfl, rfl⟩

theorem FailAlike.exists_ok_iff (h : FailAlike x y) : (∃ a, x = .ok a) ↔ ∃ b, y = .ok b := by
  obtain ⟨e, rfl, rfl⟩ | ⟨a, b, rfl, rfl⟩ := h.error_or_ok
  · simp only [reduceCtorEq, exists_false]
  · exact iff_of_true ⟨a, rfl⟩ ⟨b, rfl⟩

/-- One step after the other, where the runs fail together in each. -/
theorem FailAlike.bind {f g : α → Except Error β} (h : FailAlike x y)
    (hfg : ∀ a b, x = .ok a → y = .ok b → FailAlike (f a) (g b)) :
    FailAlike (x >>= f) (y >>= g) := by
  obtain ⟨e, rfl, rfl⟩ | ⟨a, b, rfl, rfl⟩ := h.error_or_ok
  · exact .refl (.error e)
  · exact hfg a b rfl rfl

/-- There is one cause to fail for. -/
theorem AgreeOnCause.of_unique {c : Error} (hx : ∀ e, x = .error e → e = c)
    (hy : ∀ e, y = .error e → e = c) : AgreeOnCause x y := by
  intro e e' he he'
  rw [hx e he, hy e' he']

/-- One step after the other: runs that fail together in the first step agree on the cause if they
do after it. -/
theorem FailAlike.agree_bind {f g : α → Except Error β} (h : FailAlike x y)
    (hfg : ∀ a b, x = .ok a → y = .ok b → AgreeOnCause (f a) (g b)) :
    AgreeOnCause (x >>= f) (y >>= g) := by
  obtain ⟨e, rfl, rfl⟩ | ⟨a, b, rfl, rfl⟩ := h.error_or_ok
  · exact (FailAlike.refl (.error e)).agree
  · exact hfg a b rfl rfl

theorem AgreeOnCause.call {f g : α → Output} {e e' : Error} (h : AgreeOnCause x y)
    (hx : (pure (x.map f) : Draw _).Yields (.error e))
    (hy : (pure (y.map g) : Draw _).Yields (.error e')) : e = e' :=
  h e e' (Call.yields_pure_map_error_iff.1 hx) (Call.yields_pure_map_error_iff.1 hy)

/-- Whatever each of two computations draws, their outcomes agree on the cause. -/
def Draw.AgreeOnCause (d d' : Draw (Except Error α)) : Prop :=
  ∀ x y, d.Yields x → d'.Yields y → MessageCrypto.AgreeOnCause x y

namespace Draw.AgreeOnCause

theorem of_pure (h : MessageCrypto.AgreeOnCause x y) :
    Draw.AgreeOnCause (pure x) (pure y) := by
  intro x' y' hx hy
  rwa [Draw.yields_pure.1 hx, Draw.yields_pure.1 hy]

/-- A draw behind a step in which both runs fail together. -/
theorem after {f g : α → Draw (Except Error β)} (h : FailAlike x y)
    (hfg : ∀ a b, x = .ok a → y = .ok b → (f a).AgreeOnCause (g b)) :
    (Draw.after x f).AgreeOnCause (Draw.after y g) := by
  obtain ⟨e, rfl, rfl⟩ | ⟨a, b, rfl, rfl⟩ := h.error_or_ok
  · exact of_pure (FailAlike.refl (.error e)).agree
  · exact hfg a b rfl rfl

theorem call {d d' : Draw (Except Error α)} {f g : α → Output} {e e' : Error}
    (h : d.AgreeOnCause d') (he : ((·.map f) <$> d).Yields (.error e))
    (he' : ((·.map g) <$> d').Yields (.error e')) : e = e' :=
  h _ _ (Call.yields_map_error_iff.1 he) (Call.yields_map_error_iff.1 he') e e' rfl rfl

end Draw.AgreeOnCause

end

/-! ### Keys that are alike -/

namespace Key

/-- The key can be read, for the algorithm of its tag; any bytes are a secret key. -/
def Parses : Key → Prop
  | secret _ => True
  | privateHalf key => (∃ d, key.toScalar = .ok d) ∨ ∃ k, key.toRsa = .ok k
  | publicHalf key => (∃ q, key.toPoint = .ok q) ∨ ∃ k, key.toRsa = .ok k

/-- The key is read for RSA, and its modulus has `size` bytes. -/
def HasModulusSize : Key → (size : ℕ) → Prop
  | secret _, _ => False
  | privateHalf key, size => ∃ k, key.toRsa = .ok k ∧ k.size = size
  | publicHalf key, size => ∃ k, key.toRsa = .ok k ∧ k.size = size

/-- **Keys that a failure does not tell apart**: of one kind, tag and length, malformed both or
neither, and with moduli of one size if they have any. -/
structure Alike (K L : Key) : Prop extends K.SameTag L where
  length_eq : K.bytes.length = L.bytes.length
  parses_iff : K.Parses ↔ L.Parses
  size_eq : ∀ m m', K.HasModulusSize m → L.HasModulusSize m' → m = m'

end Key

/-- Keys of one tag that are malformed both or neither cannot be read for one cause. -/
theorem EncodedKey.failAlike_of_readFails {α : Type} {a b : EncodedKey} {expected : KeyAlgorithm}
    {read read' : Option α} {malformed : Error} {x y : Except Error α}
    (hx : ∀ e, x = .error e ↔ a.ReadFails expected read malformed e)
    (hy : ∀ e, y = .error e ↔ b.ReadFails expected read' malformed e)
    (halgorithm : a.algorithm = b.algorithm)
    (hread : a.algorithm = expected → ((∃ v, read = some v) ↔ ∃ v, read' = some v)) :
    FailAlike x y := by
  intro e
  rw [hx, hy, ReadFails, ReadFails, ← halgorithm]
  by_cases h : a.algorithm = expected
  · have hnone : read = none ↔ read' = none := by
      simpa only [← Option.isSome_iff_exists, Option.isSome_iff_ne_none, ne_eq, not_iff_not]
        using hread h
    rw [hnone]
  · simp only [h, false_and]

/-! ### With a secret key -/

section
variable {a b : SecretKey} {vector data : Bytes}

namespace Aes256Cbc

theorem setup_of_key_length_ne (h : a.bytes.length ≠ keySize) :
    setup a vector = .error (.keyLength a.bytes.length) := by
  rw [Ne, keySize, ← Aes.Key.isSome_ofBytes?_iff, Option.not_isSome_iff_eq_none] at h
  rw [setup, h]

theorem setup_of_vector_length_ne (hkey : a.bytes.length = keySize)
    (hvector : vector.length ≠ vectorSize) :
    setup a vector = .error (.vectorLength vector.length) := by
  cases hs : setup a vector with
  | ok s => exact absurd (setup_eq_ok_iff.1 ⟨s, hs⟩).2 hvector
  | error e => rw [setup_eq_error hkey hs]

variable (hlength : a.bytes.length = b.bytes.length)
include hlength

/-- Of a key the set-up looks at the length alone. -/
theorem setup_failAlike : FailAlike (setup a vector) (setup b vector) := by
  by_cases hkey : a.bytes.length = keySize
  · have hkey' : b.bytes.length = keySize := hlength ▸ hkey
    by_cases hvector : vector.length = vectorSize
    · obtain ⟨s, hs⟩ := setup_eq_ok_iff.2 ⟨hkey, hvector⟩
      obtain ⟨t, ht⟩ := setup_eq_ok_iff.2 ⟨hkey', hvector⟩
      intro e
      simp only [hs, ht, reduceCtorEq]
    · rw [setup_of_vector_length_ne hkey hvector, setup_of_vector_length_ne hkey' hvector]
      exact .refl _
  · have hkey' : b.bytes.length ≠ keySize := hlength ▸ hkey
    rw [setup_of_key_length_ne hkey, setup_of_key_length_ne hkey', hlength]
    exact .refl _

theorem encrypt_agree : AgreeOnCause (encrypt a vector data) (encrypt b vector data) := by
  intro e e' ha hb
  exact (setup_failAlike hlength).agree e e' (encrypt_eq_error_iff.1 ha) (encrypt_eq_error_iff.1 hb)

/-- Behind the set-up the number of bytes of the ciphertext is looked at, and then there is one
cause. -/
theorem decrypt_agree : AgreeOnCause (decrypt a vector data) (decrypt b vector data) := by
  refine (setup_failAlike hlength).agree_bind fun s t _ _ => ?_
  match Aes.Block.split? data with
  | none | some [] => exact (FailAlike.refl _).agree
  | some (block :: blocks) =>
    refine .of_unique (c := .invalidPadding) (fun e h => ?_) (fun e h => ?_)
    all_goals
      dsimp only at h
      split at h
      · cases h
      · exact (Except.error.inj h).symm

end Aes256Cbc

/-- A derived key has one length, whatever the master key is. -/
theorem SecretKey.length_encryptionKey_eq (a b : SecretKey) :
    a.encryptionKey.bytes.length = b.encryptionKey.bytes.length :=
  a.length_encryptionKey.trans b.length_encryptionKey.symm

theorem encrypt_agree (a b : SecretKey) (scheme : EncryptionScheme) (vector data : Bytes) :
    AgreeOnCause (encrypt a scheme vector data) (encrypt b scheme vector data) := by
  cases scheme with
  | none => exact (FailAlike.refl _).agree
  | aes256Cbc =>
    rw [encrypt_eq, encrypt_eq]
    exact Aes256Cbc.encrypt_agree (SecretKey.length_encryptionKey_eq a b)

theorem decrypt_agree (a b : SecretKey) (scheme : EncryptionScheme) (vector data : Bytes) :
    AgreeOnCause (decrypt a scheme vector data) (decrypt b scheme vector data) := by
  cases scheme with
  | none => exact (FailAlike.refl _).agree
  | aes256Cbc =>
    rw [decrypt_eq, decrypt_eq]
    exact Aes256Cbc.decrypt_agree (SecretKey.length_encryptionKey_eq a b)

end

/-! ### With one half of a pair -/

namespace PrivateKey

variable {key a b : PrivateKey}

theorem parses_iff_of_ecdsa (h : key.algorithm = .ecdsa) :
    (Key.privateHalf key).Parses ↔ ∃ d, P256.Scalar.ofDer? key.bytes = some d := by
  simp only [Key.Parses, toScalar_eq_ok_iff, toRsa_eq_ok_iff, h, true_and, reduceCtorEq,
    false_and, exists_false, or_false]

theorem parses_iff_of_rsa (h : key.algorithm = .rsa) :
    (Key.privateHalf key).Parses ↔ ∃ k, Rsa.PrivateKey.ofDer? key.bytes = some k := by
  simp only [Key.Parses, toScalar_eq_ok_iff, toRsa_eq_ok_iff, h, true_and, reduceCtorEq,
    false_and, exists_false, false_or]

variable (h : (Key.privateHalf a).Alike (.privateHalf b))
include h

theorem toScalar_failAlike : FailAlike a.toScalar b.toScalar := by
  refine EncodedKey.failAlike_of_readFails (fun _ => toScalar_eq_error_iff)
    (fun _ => toScalar_eq_error_iff) h.algorithm_eq fun ha => ?_
  have hb : b.algorithm = .ecdsa := h.algorithm_eq.symm.trans ha
  rw [← parses_iff_of_ecdsa ha, ← parses_iff_of_ecdsa hb, h.parses_iff]

theorem toRsa_failAlike : FailAlike a.toRsa b.toRsa := by
  refine EncodedKey.failAlike_of_readFails (fun _ => toRsa_eq_error_iff)
    (fun _ => toRsa_eq_error_iff) h.algorithm_eq fun ha => ?_
  have hb : b.algorithm = .rsa := h.algorithm_eq.symm.trans ha
  rw [← parses_iff_of_rsa ha, ← parses_iff_of_rsa hb, h.parses_iff]

end PrivateKey

namespace PublicKey

variable {key a b : PublicKey}

theorem parses_iff_of_ecdsa (h : key.algorithm = .ecdsa) :
    (Key.publicHalf key).Parses ↔ ∃ q, P256.CurvePoint.ofDer? key.bytes = some q := by
  simp only [Key.Parses, toPoint_eq_ok_iff, toRsa_eq_ok_iff, h, true_and, reduceCtorEq,
    false_and, exists_false, or_false]

theorem parses_iff_of_rsa (h : key.algorithm = .rsa) :
    (Key.publicHalf key).Parses ↔ ∃ k, Rsa.PublicKey.ofDer? key.bytes = some k := by
  simp only [Key.Parses, toPoint_eq_ok_iff, toRsa_eq_ok_iff, h, true_and, reduceCtorEq,
    false_and, exists_false, false_or]

variable (h : (Key.publicHalf a).Alike (.publicHalf b))
include h

theorem toPoint_failAlike : FailAlike a.toPoint b.toPoint := by
  refine EncodedKey.failAlike_of_readFails (fun _ => toPoint_eq_error_iff)
    (fun _ => toPoint_eq_error_iff) h.algorithm_eq fun ha => ?_
  have hb : b.algorithm = .ecdsa := h.algorithm_eq.symm.trans ha
  rw [← parses_iff_of_ecdsa ha, ← parses_iff_of_ecdsa hb, h.parses_iff]

theorem toRsa_failAlike : FailAlike a.toRsa b.toRsa := by
  refine EncodedKey.failAlike_of_readFails (fun _ => toRsa_eq_error_iff)
    (fun _ => toRsa_eq_error_iff) h.algorithm_eq fun ha => ?_
  have hb : b.algorithm = .rsa := h.algorithm_eq.symm.trans ha
  rw [← parses_iff_of_rsa ha, ← parses_iff_of_rsa hb, h.parses_iff]

end PublicKey

/-- Of a modulus that is refused nothing but the size is shown. -/
theorem Rsa2048.checkSize_failAlike {k k' : Rsa.PublicKey} (h : k.size = k'.size) :
    FailAlike (checkSize k) (checkSize k') := by
  rw [checkSize, checkSize, h]
  exact .refl _

section
variable {a b : PrivateKey} (h : (Key.privateHalf a).Alike (.privateHalf b))
include h

theorem Ecdsa.sign_agree (data : Bytes) : AgreeOnCause (Ecdsa.sign a data) (Ecdsa.sign b data) := by
  refine (PrivateKey.toScalar_failAlike h).agree_bind fun d d' _ _ => ?_
  refine .of_unique (c := .signingFailed) (fun e he => ?_) (fun e he => ?_)
  all_goals
    split at he
    · cases he
    · exact (Except.error.inj he).symm

theorem Rsa2048.signingKey_failAlike :
    FailAlike (Rsa2048.signingKey a) (Rsa2048.signingKey b) := by
  refine (PrivateKey.toRsa_failAlike h).bind fun k k' hk hk' => ?_
  have hsize : k.size = k'.size := h.size_eq _ _ ⟨k, hk, rfl⟩ ⟨k', hk', rfl⟩
  refine (Rsa2048.checkSize_failAlike hsize).bind fun _ _ _ _ e => ?_
  simp only [pure, Except.pure, reduceCtorEq]

/-- Once the keys can sign there is one cause to fail for, whatever the two runs draw. -/
theorem Rsa2048.sign_agree (data : Bytes) :
    (Rsa2048.sign a data).AgreeOnCause (Rsa2048.sign b data) := by
  refine .after (Rsa2048.signingKey_failAlike h) fun k k' _ _ x y hx hy => ?_
  obtain ⟨s, -, rfl⟩ := Draw.yields_map.1 hx
  obtain ⟨t, -, rfl⟩ := Draw.yields_map.1 hy
  have hunique (s : Option Bytes) (e : Error)
      (he : s.elim (.error .signingFailed) Except.ok = .error e) : e = .signingFailed := by
    cases s with
    | none => exact (Except.error.inj he).symm
    | some s => cases he
  exact .of_unique (hunique s) (hunique t)

theorem agree_failAlike_own (peer : PublicKey) : FailAlike (agree a peer) (agree b peer) := by
  intro e
  rw [agree_eq_error_iff, agree_eq_error_iff, PrivateKey.toScalar_failAlike h e,
    (PrivateKey.toScalar_failAlike h).exists_ok_iff]

theorem sign_privateHalf_agree (scheme : SignatureScheme) (data : Bytes) :
    (sign scheme (.privateHalf a) data).AgreeOnCause (sign scheme (.privateHalf b) data) := by
  cases scheme with
  | hmacSha256 =>
    have hmismatch (key : PrivateKey) : sign .hmacSha256 (.privateHalf key) data =
        pure (.error (.keyAlgorithmMismatch .aes256 key.algorithm)) := rfl
    have halgorithm : a.algorithm = b.algorithm := h.algorithm_eq
    rw [hmismatch, hmismatch, halgorithm]
    exact .of_pure (FailAlike.refl _).agree
  | ecdsaP256Sha256 => exact .of_pure (Ecdsa.sign_agree h data)
  | rsa2048Sha256 => exact Rsa2048.sign_agree h data

end

section
variable {a b : PublicKey} (h : (Key.publicHalf a).Alike (.publicHalf b))
include h

theorem Ecdsa.verify_agree (s data : Bytes) :
    AgreeOnCause (Ecdsa.verify a s data) (Ecdsa.verify b s data) := by
  refine (PublicKey.toPoint_failAlike h).agree_bind fun q q' _ _ => ?_
  refine .of_unique (c := .signatureRejected) (fun e he => ?_) (fun e he => ?_)
  all_goals
    split at he
    · exact (accept_eq_error_iff.1 he).2
    · exact (Except.error.inj he).symm

theorem Rsa2048.verify_agree (s data : Bytes) :
    AgreeOnCause (Rsa2048.verify a s data) (Rsa2048.verify b s data) := by
  refine (PublicKey.toRsa_failAlike h).agree_bind fun k k' hk hk' => ?_
  have hsize : k.size = k'.size := h.size_eq _ _ ⟨k, hk, rfl⟩ ⟨k', hk', rfl⟩
  refine (Rsa2048.checkSize_failAlike hsize).agree_bind fun _ _ _ _ => ?_
  exact .of_unique (fun e he => (accept_eq_error_iff.1 he).2)
    fun e he => (accept_eq_error_iff.1 he).2

theorem agree_failAlike_peer (own : PrivateKey) : FailAlike (agree own a) (agree own b) := by
  intro e
  rw [agree_eq_error_iff, agree_eq_error_iff, PublicKey.toPoint_failAlike h e]

theorem exportCoordinates_failAlike : FailAlike (exportCoordinates a) (exportCoordinates b) := by
  intro e
  rw [exportCoordinates_eq_error_iff, exportCoordinates_eq_error_iff,
    PublicKey.toPoint_failAlike h e]

end

/-! ### Any call -/

theorem sign_agree {K L : Key} (h : K.Alike L) (scheme : SignatureScheme) (data : Bytes) :
    (sign scheme K data).AgreeOnCause (sign scheme L data) := by
  cases K with
  | secret a =>
    obtain ⟨b, rfl⟩ := h.of_secret
    -- a secret key signs, or does not fit, whichever it is
    cases scheme with
    | hmacSha256 =>
      rw [sign_secret, sign_secret]
      exact .of_pure (.of_unique (c := .signingFailed) nofun nofun)
    | ecdsaP256Sha256 | rsa2048Sha256 => exact .of_pure (FailAlike.refl _).agree
  | privateHalf a =>
    obtain ⟨b, rfl, -⟩ := h.of_privateHalf
    exact sign_privateHalf_agree h scheme data
  | publicHalf a =>
    obtain ⟨b, rfl, -⟩ := h.of_publicHalf
    rw [sign_publicHalf, sign_publicHalf]
    exact .of_pure (FailAlike.refl _).agree

/-- **No call tells keys apart that are alike**: whichever of them it is given, it fails for one
cause if it fails. -/
theorem Call.agree_of_alike {c : Call} {K L : Key} (hmem : K ∈ c.keys) (h : K.Alike L)
    {e e' : Error} (hK : c.Fails e) (hL : (c.withKey L).Fails e') : e = e' := by
  cases c with
  | encryptWith key vector plaintext =>
    obtain rfl := List.mem_singleton.1 hmem
    obtain ⟨b, rfl⟩ := h.of_secret
    exact (Aes256Cbc.encrypt_agree h.length_eq).call hK hL
  | decryptWith key vector ciphertext =>
    obtain rfl := List.mem_singleton.1 hmem
    obtain ⟨b, rfl⟩ := h.of_secret
    exact (Aes256Cbc.decrypt_agree h.length_eq).call hK hL
  | encrypt key scheme vector plaintext =>
    obtain rfl := List.mem_singleton.1 hmem
    obtain ⟨b, rfl⟩ := h.of_secret
    exact (encrypt_agree key b scheme vector plaintext).call hK hL
  | decrypt key scheme vector ciphertext =>
    obtain rfl := List.mem_singleton.1 hmem
    obtain ⟨b, rfl⟩ := h.of_secret
    exact (decrypt_agree key b scheme vector ciphertext).call hK hL
  | verifyHmac key signature data =>
    obtain rfl := List.mem_singleton.1 hmem
    obtain ⟨b, rfl⟩ := h.of_secret
    have hone : e = .signatureRejected := mayFail_of_fails hK
    have hother : e' = .signatureRejected := mayFail_of_fails hL
    rw [hone, hother]
  | signEcdsa key data =>
    obtain rfl := List.mem_singleton.1 hmem
    obtain ⟨b, rfl, -⟩ := h.of_privateHalf
    exact (Ecdsa.sign_agree h data).call hK hL
  | signRsa key data =>
    obtain rfl := List.mem_singleton.1 hmem
    obtain ⟨b, rfl, -⟩ := h.of_privateHalf
    exact (Rsa2048.sign_agree h data).call hK hL
  | verifyEcdsa key signature data =>
    obtain rfl := List.mem_singleton.1 hmem
    obtain ⟨b, rfl, -⟩ := h.of_publicHalf
    exact (Ecdsa.verify_agree h signature data).call hK hL
  | verifyRsa key signature data =>
    obtain rfl := List.mem_singleton.1 hmem
    obtain ⟨b, rfl, -⟩ := h.of_publicHalf
    exact (Rsa2048.verify_agree h signature data).call hK hL
  | exportCoordinates key =>
    obtain rfl := List.mem_singleton.1 hmem
    obtain ⟨b, rfl, -⟩ := h.of_publicHalf
    exact (exportCoordinates_failAlike h).agree.call hK hL
  | sign scheme key data =>
    obtain rfl := List.mem_singleton.1 hmem
    exact (sign_agree h scheme data).call hK hL
  | agree own peer =>
    simp only [keys, List.mem_cons, List.not_mem_nil, or_false] at hmem
    obtain rfl | rfl := hmem
    · obtain ⟨b, rfl, -⟩ := h.of_privateHalf
      exact (agree_failAlike_own h peer).agree.call hK hL
    · obtain ⟨b, rfl, -⟩ := h.of_publicHalf
      exact (agree_failAlike_peer h own).agree.call hK hL
  -- the other operations that take a key do not fail
  | derive | signHmac | verify => exact (mayFail_of_fails hK).elim
  | digest | readInteger | readSignatureScheme | readEncryptionScheme | extract | expand
  | importCoordinates | importSecret | importPrivate | importPublic | randomBytes | randomVector
  | generateSecret | generateEc | generateRsa => cases hmem

/-! ### Main statement -/

/-- **Failures hide keys.** The description of a secret key depends on its length, that of a private
key on its tag. If a call fails with a key, and fails with another one in its place that is of the
same kind, tag and length, malformed if the first is, and with a modulus of the same size, then both
failures are of one kind and have one text. The text is without what a parser says of a malformed key
(`Error.detail?`). -/
theorem failures_hide_keys :
    (∀ a b : SecretKey, a.bytes.length = b.bytes.length →
      a.text = b.text ∧ (Key.secret a).text = (Key.secret b).text) ∧
    (∀ a b : PrivateKey, a.algorithm = b.algorithm →
      a.text = b.text ∧ (Key.privateHalf a).text = (Key.privateHalf b).text) ∧
    ∀ (c : Call) (K L : Key), K ∈ c.keys → K.Alike L → ∀ e e' : Error, c.Fails e →
      (c.withKey L).Fails e' → e.kind = e'.kind ∧ e.message = e'.message := by
  refine ⟨fun a b h => ?_, fun a b h => ?_, fun c K L hmem h e e' hK hL => ?_⟩
  · have htext := SecretKey.text_congr h
    exact ⟨htext, by rw [Key.text, Key.text, htext]⟩
  · have htext := PrivateKey.text_congr h
    exact ⟨htext, by rw [Key.text, Key.text, htext]⟩
  · rw [Call.agree_of_alike hmem h hK hL]
    exact ⟨rfl, rfl⟩

/-! ### Two malformed keys -/

/-- The tagged key with another byte. -/
def taggedTwin : PrivateKey :=
  ⟨⟨.rsa, [2], KeyAlgorithm.rsa_ne_aes256, List.cons_ne_nil _ _⟩⟩

theorem ofDer?_taggedKey : Rsa.PrivateKey.ofDer? taggedKey.bytes = none := by decide

theorem ofDer?_taggedTwin : Rsa.PrivateKey.ofDer? taggedTwin.bytes = none := by decide

theorem alike_taggedTwin : (Key.privateHalf taggedKey).Alike (.privateHalf taggedTwin) where
  kind_eq := rfl
  algorithm_eq := rfl
  length_eq := rfl
  parses_iff := by
    rw [PrivateKey.parses_iff_of_rsa rfl, PrivateKey.parses_iff_of_rsa rfl, ofDer?_taggedKey,
      ofDer?_taggedTwin]
  size_eq := by
    rintro m m' ⟨k, hk, -⟩
    have hread := (PrivateKey.toRsa_eq_ok_iff.1 hk).2
    rw [ofDer?_taggedKey] at hread
    cases hread

/-- Two keys that do not sign, and nothing that tells one from the other. -/
theorem failures_hide_keys_malformed :
    taggedKey.text = taggedTwin.text ∧
    byteKey.text = (⟨[2], List.cons_ne_nil _ _⟩ : SecretKey).text ∧
    (Key.privateHalf taggedKey).Alike (.privateHalf taggedTwin) ∧
    ∃ e e', (Call.signRsa taggedKey []).Fails e ∧ (Call.signRsa taggedTwin []).Fails e' ∧
      e.kind = e'.kind ∧ e.message = e'.message := by
  obtain ⟨hsecret, hprivate, hcall⟩ := failures_hide_keys
  have hfails (key : PrivateKey) (hrsa : key.algorithm = .rsa)
      (hnone : Rsa.PrivateKey.ofDer? key.bytes = none) :
      (Call.signRsa key []).Fails .malformedRsaPrivateKey := by
    refine Call.yields_map_error_iff.2 ?_
    rw [Rsa2048.sign_of_malformed hrsa hnone]
    exact Draw.yields_pure.2 rfl
  have hkey := hfails taggedKey rfl ofDer?_taggedKey
  have htwin := hfails taggedTwin rfl ofDer?_taggedTwin
  exact ⟨(hprivate _ _ rfl).1, (hsecret _ _ rfl).1, alike_taggedTwin, _, _, hkey, htwin,
    hcall _ _ _ (List.mem_singleton_self _) alike_taggedTwin _ _ hkey htwin⟩

end MessageCrypto
