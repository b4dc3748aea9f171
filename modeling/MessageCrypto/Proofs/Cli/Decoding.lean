import MessageCrypto.Cli.Run
import MessageCrypto.Proofs.Call.Operation
import MessageCrypto.Proofs.Signing.Reading
import MessageCrypto.Proofs.Signing.Writing
import MessageCrypto.Proofs.Text.Blank

/-! # What typed text stands for

The byte strings of a command are typed as text: in hexadecimal, or in text mode for data. A key is
decoded and then imported. A text that stands for nothing has a failure of its own, which names what
the text is for.

* `HexDecodes`, `DataDecodes`, `KeyDecodes`: the bytes or the key that a text stands for.
* `hexDecodes_append`, `keyDecodes_encode`: what is printed stands for what it was printed from.
* `HexFails`, `DataFails`, `KeyFails`: how it is reported that a text stands for none.
* `signData_eq`, `verifyData_eq`: signing and checking decode a key of the kind of the scheme. -/

namespace MessageCrypto.Cli

variable {text : Bool} {label value : String} {bytes : Bytes} {f : Failure}

/-! ### Hexadecimal text -/

/-- The text is hexadecimal between blank characters, and stands for the bytes. -/
def HexDecodes (value : String) (bytes : Bytes) : Prop :=
  Hex.decode (Bytes.ofString (Text.trim value)) = .ok bytes

/-- The text is not hexadecimal, which is reported with the name of the input. -/
def HexFails (label value : String) (f : Failure) : Prop :=
  ∃ e, Hex.decode (Bytes.ofString (Text.trim value)) = .error e ∧
    f = { message := label ++ " is not valid hex", cause := some e.message }

theorem decodeHex_eq_ok_iff : decodeHex label value = .ok bytes ↔ HexDecodes value bytes :=
  mapError_eq_ok_iff

theorem decodeHex_eq_error_iff : decodeHex label value = .error f ↔ HexFails label value f :=
  mapError_eq_error_iff

theorem HexDecodes.unique {other : Bytes} (h : HexDecodes value bytes)
    (h' : HexDecodes value other) : bytes = other :=
  Except.ok.inj (h.symm.trans h')

theorem HexDecodes.not_fails (h : HexDecodes value bytes) : ¬ HexFails label value f := by
  rintro ⟨e, he, -⟩
  cases he.symm.trans h

/-! ### Printed text -/

theorem isBlank_digit {k : Nat} (h : k < 16) : Text.isBlank (Hex.digit k) = false := by
  have hall : ∀ k : Fin 16, Text.isBlank (Hex.digit k) = false := by decide
  exact hall ⟨k, h⟩

theorem isBlank_of_mem_encode {c : Char} (h : c ∈ (Hex.encode bytes).toList) :
    Text.isBlank c = false := by
  obtain ⟨k, hk, rfl⟩ := Hex.exists_digit_of_mem_encode h
  exact isBlank_digit hk

/-- **What is printed can be typed again**, also between blank characters, and stands for the same
bytes. -/
theorem hexDecodes_append {front back : String} (hfront : Text.AllBlank front)
    (hback : Text.AllBlank back) (bytes : Bytes) :
    HexDecodes (front ++ Hex.encode bytes ++ back) bytes := by
  rw [HexDecodes, Text.trim_append hfront hback fun _ => isBlank_of_mem_encode]
  exact Hex.decode_encode bytes

theorem hexDecodes_encode (bytes : Bytes) : HexDecodes (Hex.encode bytes) bytes := by
  have h := hexDecodes_append Text.allBlank_empty Text.allBlank_empty bytes
  rwa [String.empty_append, String.append_empty] at h

/-! ### Data -/

/-- In text mode data stands for its own bytes. -/
def DataDecodes (text : Bool) (value : String) (bytes : Bytes) : Prop :=
  if text then bytes = Bytes.ofString value else HexDecodes value bytes

/-- Data can only fail to be hexadecimal. -/
def DataFails (text : Bool) (value : String) (f : Failure) : Prop :=
  text = false ∧ HexFails "data" value f

theorem dataDecodes_true_iff : DataDecodes true value bytes ↔ bytes = Bytes.ofString value :=
  Iff.of_eq (if_pos rfl)

theorem dataDecodes_false_iff : DataDecodes false value bytes ↔ HexDecodes value bytes :=
  Iff.of_eq (if_neg Bool.false_ne_true)

theorem decodeData_true : decodeData true value = .ok (Bytes.ofString value) := if_pos rfl

theorem decodeData_false : decodeData false value = decodeHex "data" value :=
  if_neg Bool.false_ne_true

theorem decodeData_eq_ok_iff : decodeData text value = .ok bytes ↔
    DataDecodes text value bytes := by
  cases text with
  | true => rw [decodeData_true, dataDecodes_true_iff, Except.ok.injEq, eq_comm]
  | false => rw [decodeData_false, dataDecodes_false_iff, decodeHex_eq_ok_iff]

theorem decodeData_eq_error_iff :
    decodeData text value = .error f ↔ DataFails text value f := by
  cases text with
  | true => simp only [decodeData_true, DataFails, reduceCtorEq, false_and]
  | false => rw [decodeData_false, decodeHex_eq_error_iff, DataFails, and_iff_right rfl]

theorem DataDecodes.unique {other : Bytes} (h : DataDecodes text value bytes)
    (h' : DataDecodes text value other) : bytes = other :=
  Except.ok.inj ((decodeData_eq_ok_iff.2 h).symm.trans (decodeData_eq_ok_iff.2 h'))

theorem DataDecodes.not_fails (h : DataDecodes text value bytes) : ¬ DataFails text value f := by
  intro hfails
  cases (decodeData_eq_ok_iff.2 h).symm.trans (decodeData_eq_error_iff.2 hfails)

/-! ### Keys -/

section Keys
variable {kind : Key.Kind} {algorithm : KeyAlgorithm} {K : Key} {key : SecretKey}

/-- The key of a kind with the bytes; a secret key has no tag. -/
def importKey (kind : Key.Kind) (algorithm : KeyAlgorithm) (bytes : Bytes) : Except Error Key :=
  match kind with
  | .secret => (SecretKey.ofBytes bytes).map .secret
  | .privateHalf => (PrivateKey.ofDer algorithm bytes).map .privateHalf
  | .publicHalf => (PublicKey.ofDer algorithm bytes).map .publicHalf

/-- How it is reported that bytes are no key of a kind. -/
def importFailure (kind : Key.Kind) (e : Error) : Failure :=
  match kind with
  | .secret => { message := "Invalid secret key", cause := some e.message }
  | .privateHalf | .publicHalf => { message := e.message }

def KeyDecodes (kind : Key.Kind) (algorithm : KeyAlgorithm) (value : String) (K : Key) : Prop :=
  ∃ bytes, HexDecodes value bytes ∧ importKey kind algorithm bytes = .ok K

/-- A key is hexadecimal first, and then has to be imported. -/
def KeyFails (kind : Key.Kind) (algorithm : KeyAlgorithm) (value : String) (f : Failure) : Prop :=
  HexFails "key" value f ∨ ∃ bytes e, HexDecodes value bytes ∧
    importKey kind algorithm bytes = .error e ∧ f = importFailure kind e

/-- Decoding and importing a key of any kind. -/
def decodeKey (kind : Key.Kind) (algorithm : KeyAlgorithm) (value : String) :
    Except Failure Key := do
  (importKey kind algorithm (← decodeHex "key" value)).mapError (importFailure kind)

theorem decodeKey_eq_ok_iff :
    decodeKey kind algorithm value = .ok K ↔ KeyDecodes kind algorithm value K := by
  simp only [decodeKey, KeyDecodes, bind_eq_ok_iff, mapError_eq_ok_iff, decodeHex_eq_ok_iff]

theorem decodeKey_eq_error_iff :
    decodeKey kind algorithm value = .error f ↔ KeyFails kind algorithm value f := by
  simp only [decodeKey, KeyFails, bind_eq_error_iff, mapError_eq_error_iff, decodeHex_eq_ok_iff,
    decodeHex_eq_error_iff, exists_and_left]

theorem KeyDecodes.unique {L : Key} (h : KeyDecodes kind algorithm value K)
    (h' : KeyDecodes kind algorithm value L) : K = L :=
  Except.ok.inj ((decodeKey_eq_ok_iff.2 h).symm.trans (decodeKey_eq_ok_iff.2 h'))

theorem KeyFails.unique {g : Failure} (h : KeyFails kind algorithm value f)
    (h' : KeyFails kind algorithm value g) : f = g :=
  Except.error.inj ((decodeKey_eq_error_iff.2 h).symm.trans (decodeKey_eq_error_iff.2 h'))

theorem KeyDecodes.not_fails (h : KeyDecodes kind algorithm value K) :
    ¬ KeyFails kind algorithm value f := by
  intro hfails
  cases (decodeKey_eq_ok_iff.2 h).symm.trans (decodeKey_eq_error_iff.2 hfails)

/-- **A key that is printed can be typed again.** -/
theorem keyDecodes_encode (K : Key) : KeyDecodes K.kind K.algorithm (Hex.encode K.bytes) K := by
  refine ⟨K.bytes, hexDecodes_encode K.bytes, ?_⟩
  cases K with
  | secret key => exact map_eq_ok_iff.2 ⟨key, dif_neg key.nonempty, rfl⟩
  | privateHalf key => exact map_eq_ok_iff.2 ⟨key, PrivateKey.ofDer_eq_ok_iff.2 ⟨rfl, rfl⟩, rfl⟩
  | publicHalf key => exact map_eq_ok_iff.2 ⟨key, PublicKey.ofDer_eq_ok_iff.2 ⟨rfl, rfl⟩, rfl⟩

theorem mapError_map {α β : Type} {x : Except Error α} {g : α → β} {h : Error → Failure} :
    (x.map g).mapError h = g <$> x.mapError h := by
  cases x <;> rfl

theorem decodeKey_secret : decodeKey .secret algorithm value =
    Key.secret <$> decodeSecretKey value := by
  rw [decodeKey, decodeSecretKey, map_bind]
  simp only [importKey, mapError_map]
  rfl

theorem decodeSecretKey_eq_ok_iff :
    decodeSecretKey value = .ok key ↔ KeyDecodes .secret algorithm value (.secret key) := by
  rw [← decodeKey_eq_ok_iff, decodeKey_secret]
  exact (map_eq_ok_iff.trans (by simp)).symm

theorem decodeSecretKey_eq_error_iff :
    decodeSecretKey value = .error f ↔ KeyFails .secret algorithm value f := by
  rw [← decodeKey_eq_error_iff, decodeKey_secret]
  exact map_eq_error_iff.symm

theorem decodeKey_privateHalf : decodeKey .privateHalf algorithm value =
    decodeHex "key" value >>= fun bytes =>
      Key.privateHalf <$> lift (PrivateKey.ofDer algorithm bytes) := by
  rw [decodeKey]
  simp only [importKey, mapError_map]
  rfl

theorem decodeKey_publicHalf : decodeKey .publicHalf algorithm value =
    decodeHex "key" value >>= fun bytes =>
      Key.publicHalf <$> lift (PublicKey.ofDer algorithm bytes) := by
  rw [decodeKey]
  simp only [importKey, mapError_map]
  rfl

theorem decodeSigningKey_eq (scheme : SignatureScheme) (key : String) :
    decodeSigningKey scheme key = decodeKey scheme.signingKind scheme.keyAlgorithm key := by
  cases scheme with
  | hmacSha256 =>
    simp only [decodeSigningKey, SignatureScheme.usesKeyPair, SignatureScheme.signingKind,
      decodeKey_secret, Bool.false_eq_true, if_false]
  | ecdsaP256Sha256 | rsa2048Sha256 =>
    simp only [decodeSigningKey, SignatureScheme.usesKeyPair, SignatureScheme.signingKind,
      decodeKey_privateHalf, if_true]

theorem signData_eq (scheme : SignatureScheme) (key : String) (data : Bytes) :
    signData scheme key data =
      Draw.after (decodeKey scheme.signingKind scheme.keyAlgorithm key) fun K =>
        (fun signature => hexLine <$> lift signature) <$> sign scheme K data := by
  rw [signData, decodeSigningKey_eq]

theorem verifyData_eq (scheme : SignatureScheme) (key signature : String) (data : Bytes) :
    verifyData scheme key signature data = decodeHex "signature" signature >>= fun s =>
      decodeKey scheme.verifyingKind scheme.keyAlgorithm key >>= fun K =>
        if verify scheme K s data then pure (line "valid")
        else .error { message := "Signature is not valid" } := by
  cases scheme with
  | hmacSha256 =>
    simp only [verifyData, SignatureScheme.usesKeyPair, SignatureScheme.verifyingKind,
      decodeKey_secret, bind_map_left, Bool.false_eq_true, if_false]
  | ecdsaP256Sha256 | rsa2048Sha256 =>
    simp only [verifyData, SignatureScheme.usesKeyPair, SignatureScheme.verifyingKind,
      decodeKey_publicHalf, bind_assoc, bind_map_left, if_true]

end Keys

end MessageCrypto.Cli
