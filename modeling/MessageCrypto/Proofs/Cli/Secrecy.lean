import MessageCrypto.Proofs.Call.Secrecy
import MessageCrypto.Proofs.Cli.Refinement
import MessageCrypto.Proofs.Text.Hex

/-! # What the reports show of a key

A command that takes a key is run with two keys, all else being equal. If both runs fail, their
reports are the same, unless neither key is hexadecimal: then the first byte that is no digit is
shown, and its place in the key. Of a key that is hexadecimal nothing is shown, whether it is read or
not, as far as the texts of the causes go: the text of a parser that refuses the encoding of a key is
left out of them (`Error.detail?`), and it can quote a byte of the key.

* `Request`: what is asked for with a key.
* `Request.AlikeKeys`: keys that a report should not tell apart.
* `HasWrongDigit`, `wrongDigit`: what is shown all the same.
* `AgreeButDigits`: two runs that fail alike but for that, with a rule for each step.
* `reports_show_wrong_digits_alone`: the outcomes of the program. -/

namespace MessageCrypto.Cli

variable {text : Bool} {k l data : String} {x y : UInt8} {i j : ℕ} {f g : Failure}

/-! ### Requests with a key -/

/-- **What is asked for with a key.** -/
inductive Request where
  | derive (purpose : String)
  | encrypt (scheme : EncryptionScheme) (vector : Option String) (data : String)
  | decrypt (scheme : EncryptionScheme) (vector ciphertext : String)
  | sign (scheme : SignatureScheme) (data : String)
  | verify (scheme : SignatureScheme) (signature data : String)

namespace Request

/-- The command with a key. -/
def withKey (key : String) : Request → Command
  | derive purpose => .derive key purpose
  | encrypt scheme vector data => .encrypt key scheme vector data
  | decrypt scheme vector ciphertext => .decrypt key scheme vector ciphertext
  | sign scheme data => .sign scheme key data
  | verify scheme signature data => .verify scheme key signature data

/-- The kind of the key. -/
def kind : Request → Key.Kind
  | derive _ | encrypt _ _ _ | decrypt _ _ _ => .secret
  | sign scheme _ => scheme.signingKind
  | verify scheme _ _ => scheme.verifyingKind

/-- The tag of the key. -/
def algorithm : Request → KeyAlgorithm
  | derive _ | encrypt _ _ _ | decrypt _ _ _ => .aes256
  | sign scheme _ | verify scheme _ _ => scheme.keyAlgorithm

/-- The text stands for a key of the kind and the tag. -/
def Reads (r : Request) (value : String) (K : Key) : Prop := KeyDecodes r.kind r.algorithm value K

/-- **Typed keys that a report should not tell apart**: of one length without the white space around
them, both hexadecimal or neither, both keys that can be read or neither, and with moduli of one size
if they have any. -/
structure AlikeKeys (r : Request) (k l : String) : Prop where
  length_eq : (Bytes.ofString (Text.trim k)).length = (Bytes.ofString (Text.trim l)).length
  decodes_iff : (∃ bytes, HexDecodes k bytes) ↔ ∃ bytes, HexDecodes l bytes
  parses_iff : (∃ K, r.Reads k K ∧ K.Parses) ↔ ∃ L, r.Reads l L ∧ L.Parses
  size_eq : ∀ K L m m', r.Reads k K → r.Reads l L → K.HasModulusSize m → L.HasModulusSize m' →
    m = m'

end Request

/-! ### Wrong digits -/

/-- The typed key has an even length, and this is its first byte that is no digit. -/
def HasWrongDigit (value : String) (x : UInt8) (i : ℕ) : Prop :=
  (Bytes.ofString (Text.trim value)).length % 2 = 0 ∧
    Hex.IsFirstNoDigit (Bytes.ofString (Text.trim value)) x i

/-- The failure that shows a byte of a key and its place. -/
def wrongDigit (x : UInt8) (i : ℕ) : Failure :=
  { message := "key is not valid hex", cause := some (Hex.Error.noDigit x i).message }

theorem report_wrongDigit_injective
    (h : Outcome.ofResult (.error (wrongDigit x i)) = .ofResult (.error (wrongDigit y j))) :
    x = y ∧ i = j := by
  have hreport : line (wrongDigit x i).report = line (wrongDigit y j).report :=
    (Outcome.mk.inj h).2.2
  rw [line, line, String.append_left_inj] at hreport
  exact Hex.noDigit_message_injective (String.append_right_inj _ |>.1 hreport)

theorem HexDecodes.not_hasWrongDigit {bytes : Bytes} (h : HexDecodes k bytes) :
    ¬ HasWrongDigit k x i := by
  intro hwrong
  cases (Hex.decode_eq_error_noDigit_iff.2 hwrong).symm.trans h

/-- **The failures are the same**, unless each of them shows a byte of its own key that is no digit. -/
def SameButDigits (k l : String) (f g : Failure) : Prop :=
  f = g ∨ ∃ x i y j, HasWrongDigit k x i ∧ HasWrongDigit l y j ∧ f = wrongDigit x i ∧
    g = wrongDigit y j

/-- Keys of one length are refused for it both, or for a wrong digit. -/
theorem HexFails.sameButDigits
    (h : (Bytes.ofString (Text.trim k)).length = (Bytes.ofString (Text.trim l)).length)
    (hk : HexFails "key" k f) (hl : HexFails "key" l g) : SameButDigits k l f g := by
  obtain ⟨e, he, rfl⟩ := hk
  obtain ⟨e', he', rfl⟩ := hl
  cases e with
  | oddLength =>
    have hodd := Hex.decode_eq_error_oddLength_iff.1 he
    rw [h, ← Hex.decode_eq_error_oddLength_iff, he'] at hodd
    exact .inl (by rw [Except.error.inj hodd])
  | noDigit x i =>
    have hx := Hex.decode_eq_error_noDigit_iff.1 he
    cases e' with
    | oddLength =>
      have hodd := Hex.decode_eq_error_oddLength_iff.1 he'
      omega
    | noDigit y j =>
      exact .inr ⟨x, i, y, j, hx, Hex.decode_eq_error_noDigit_iff.1 he', rfl, rfl⟩

/-! ### Importing two keys -/

section Import
variable {b c : Bytes} {kind : Key.Kind} {algorithm : KeyAlgorithm} {K L : Key} {e : Error}

theorem ofDer_eq_error_iff (hb : b ≠ []) : EncodedKey.ofDer algorithm b = .error e ↔
    algorithm = .aes256 ∧ e = .symmetricTag := by
  unfold EncodedKey.ofDer
  split_ifs with ha
  · rw [Except.error.injEq, and_iff_right ha, eq_comm]
  · constructor
    · rintro ⟨⟩
    · intro h
      exact absurd h.1 ha

theorem importKey_eq_error_iff (hb : b ≠ []) : importKey kind algorithm b = .error e ↔
    kind ≠ .secret ∧ algorithm = .aes256 ∧ e = .symmetricTag := by
  cases kind with
  | secret =>
    have hkey : SecretKey.ofBytes b = .ok ⟨b, hb⟩ := dif_neg hb
    rw [importKey, map_eq_error_iff, hkey]
    simp
  | privateHalf =>
    rw [importKey, map_eq_error_iff, PrivateKey.ofDer, map_eq_error_iff, ofDer_eq_error_iff hb]
    simp
  | publicHalf =>
    rw [importKey, map_eq_error_iff, PublicKey.ofDer, map_eq_error_iff, ofDer_eq_error_iff hb]
    simp

/-- Of the bytes of a key the import looks at the length alone. -/
theorem importKey_failAlike (h : b.length = c.length) :
    FailAlike (importKey kind algorithm b) (importKey kind algorithm c) := by
  by_cases hb : b = []
  · have hc : c = [] := List.eq_nil_of_length_eq_zero (by rw [← h, hb, List.length_nil])
    rw [hb, hc]
    exact .refl _
  · have hc : c ≠ [] := fun hc => hb (List.eq_nil_of_length_eq_zero (h.trans (hc ▸ rfl)))
    intro e
    rw [importKey_eq_error_iff hb, importKey_eq_error_iff hc]

theorem bytes_of_importKey (h : importKey kind algorithm b = .ok K) : K.bytes = b := by
  cases kind with
  | secret =>
    obtain ⟨key, hkey, rfl⟩ := map_eq_ok_iff.1 h
    unfold SecretKey.ofBytes at hkey
    split_ifs at hkey
    exact (congrArg SecretKey.bytes (Except.ok.inj hkey)).symm
  | privateHalf =>
    obtain ⟨key, hkey, rfl⟩ := map_eq_ok_iff.1 h
    exact (PrivateKey.ofDer_eq_ok_iff.1 hkey).2
  | publicHalf =>
    obtain ⟨key, hkey, rfl⟩ := map_eq_ok_iff.1 h
    exact (PublicKey.ofDer_eq_ok_iff.1 hkey).2

theorem sameTag_of_importKey (hK : importKey kind algorithm b = .ok K)
    (hL : importKey kind algorithm c = .ok L) : K.SameTag L := by
  cases kind with
  | secret =>
    obtain ⟨a, -, rfl⟩ := map_eq_ok_iff.1 hK
    obtain ⟨a', -, rfl⟩ := map_eq_ok_iff.1 hL
    exact ⟨rfl, rfl⟩
  | privateHalf =>
    obtain ⟨a, ha, rfl⟩ := map_eq_ok_iff.1 hK
    obtain ⟨a', ha', rfl⟩ := map_eq_ok_iff.1 hL
    exact ⟨rfl, (PrivateKey.ofDer_eq_ok_iff.1 ha).1.trans (PrivateKey.ofDer_eq_ok_iff.1 ha').1.symm⟩
  | publicHalf =>
    obtain ⟨a, ha, rfl⟩ := map_eq_ok_iff.1 hK
    obtain ⟨a', ha', rfl⟩ := map_eq_ok_iff.1 hL
    exact ⟨rfl, (PublicKey.ofDer_eq_ok_iff.1 ha).1.trans (PublicKey.ofDer_eq_ok_iff.1 ha').1.symm⟩

end Import

theorem HexFails.of_not_decodes {label value : String} (h : ¬ ∃ bytes, HexDecodes value bytes) :
    ∃ f, HexFails label value f := by
  cases hdecode : Hex.decode (Bytes.ofString (Text.trim value)) with
  | ok bytes => exact absurd ⟨bytes, hdecode⟩ h
  | error e => exact ⟨_, e, hdecode, rfl⟩

namespace Request

variable {r : Request}

theorem Reads.parses_iff {K : Key} (h : r.Reads k K) :
    K.Parses ↔ ∃ K, r.Reads k K ∧ K.Parses := by
  constructor
  · intro hK
    exact ⟨K, h, hK⟩
  · rintro ⟨K', hK', hparses⟩
    exact h.unique hK' ▸ hparses

namespace AlikeKeys

theorem symm (h : r.AlikeKeys k l) : r.AlikeKeys l k where
  length_eq := h.length_eq.symm
  decodes_iff := h.decodes_iff.symm
  parses_iff := h.parses_iff.symm
  size_eq K L m m' hK hL hm hm' := (h.size_eq L K m' m hL hK hm' hm).symm

theorem of_alike {K L : Key} (hK : r.Reads k K) (hL : r.Reads l L) (h : K.Alike L) :
    r.AlikeKeys k l := by
  refine ⟨?_, ?_, hK.parses_iff.symm.trans (h.parses_iff.trans hL.parses_iff), ?_⟩
  · obtain ⟨b, hb, hK⟩ := hK
    obtain ⟨c, hc, hL⟩ := hL
    rw [Hex.length_of_decode hb, Hex.length_of_decode hc, ← bytes_of_importKey hK, h.length_eq,
      bytes_of_importKey hL]
  · obtain ⟨b, hb, -⟩ := hK
    obtain ⟨c, hc, -⟩ := hL
    exact iff_of_true ⟨b, hb⟩ ⟨c, hc⟩
  · intro K' L' m m' hK' hL' hm hm'
    obtain rfl := hK.unique hK'
    obtain rfl := hL.unique hL'
    exact h.size_eq m m' hm hm'

theorem of_not_decodes
    (h : (Bytes.ofString (Text.trim k)).length = (Bytes.ofString (Text.trim l)).length)
    (hk : ¬ ∃ bytes, HexDecodes k bytes) (hl : ¬ ∃ bytes, HexDecodes l bytes) :
    r.AlikeKeys k l := by
  have hreads {value : String} (hvalue : ¬ ∃ bytes, HexDecodes value bytes) :
      ¬ ∃ K, r.Reads value K ∧ K.Parses := by
    rintro ⟨K, ⟨bytes, hbytes, -⟩, -⟩
    exact hvalue ⟨bytes, hbytes⟩
  refine ⟨h, iff_of_false hk hl, iff_of_false (hreads hk) (hreads hl), ?_⟩
  rintro K L m m' ⟨bytes, hbytes, -⟩
  exact absurd ⟨bytes, hbytes⟩ hk

variable (h : r.AlikeKeys k l)
include h

theorem length_bytes_eq {b c : Bytes} (hb : HexDecodes k b) (hc : HexDecodes l c) :
    b.length = c.length := by
  have hk := Hex.length_of_decode hb
  have hl := Hex.length_of_decode hc
  have := h.length_eq
  omega

/-- Keys that are typed alike are alike for every call. -/
theorem alike {K L : Key} (hK : r.Reads k K) (hL : r.Reads l L) : K.Alike L := by
  have hparses : K.Parses ↔ L.Parses := hK.parses_iff.trans (h.parses_iff.trans hL.parses_iff.symm)
  have hsize (m m' : ℕ) := h.size_eq K L m m' hK hL
  obtain ⟨b, hb, hK⟩ := hK
  obtain ⟨c, hc, hL⟩ := hL
  have hlength : K.bytes.length = L.bytes.length := by
    rw [bytes_of_importKey hK, bytes_of_importKey hL]
    exact h.length_bytes_eq hb hc
  exact ⟨sameTag_of_importKey hK hL, hlength, hparses, hsize⟩

/-- If one of the keys is refused, so is the other. -/
theorem exists_keyFails (hk : KeyFails r.kind r.algorithm k f) :
    ∃ g, KeyFails r.kind r.algorithm l g := by
  obtain hk | ⟨b, e, hb, he, rfl⟩ := hk
  · have hl : ¬ ∃ bytes, HexDecodes l bytes := by
      intro hl
      obtain ⟨b, hb⟩ := h.decodes_iff.2 hl
      exact hb.not_fails hk
    obtain ⟨g, hg⟩ := HexFails.of_not_decodes hl
    exact ⟨g, .inl hg⟩
  · obtain ⟨c, hc⟩ := h.decodes_iff.1 ⟨b, hb⟩
    exact ⟨_, .inr ⟨c, e, hc, (importKey_failAlike (h.length_bytes_eq hb hc) e).1 he, rfl⟩⟩

/-- What is reported of the keys is the same, but for a wrong digit. -/
theorem keyFails_sameButDigits (hk : KeyFails r.kind r.algorithm k f)
    (hl : KeyFails r.kind r.algorithm l g) : SameButDigits k l f g := by
  obtain hk | ⟨b, e, hb, he, rfl⟩ := hk
  · obtain hl | ⟨c, e', hc, -, -⟩ := hl
    · exact hk.sameButDigits h.length_eq hl
    · obtain ⟨b, hb⟩ := h.decodes_iff.2 ⟨c, hc⟩
      exact absurd hk hb.not_fails
  · obtain hl | ⟨c, e', hc, he', rfl⟩ := hl
    · obtain ⟨c, hc⟩ := h.decodes_iff.1 ⟨b, hb⟩
      exact absurd hl hc.not_fails
    · have hcause := (importKey_failAlike (h.length_bytes_eq hb hc)).agree e e' he he'
      exact .inl (by rw [hcause])

end AlikeKeys

end Request

/-! ### Two runs, step by step -/

/-- **If both runs fail**, whatever each of them draws, their failures are the same but for wrong
digits of the keys. -/
def AgreeButDigits {α : Type} (k l : String) (d d' : Draw (Except Failure α)) : Prop :=
  ∀ f g, d.Yields (.error f) → d'.Yields (.error g) → SameButDigits k l f g

namespace AgreeButDigits

variable {α β : Type} {x y : Except Failure α}

theorem of_pure (h : ∀ f g, x = .error f → y = .error g → SameButDigits k l f g) :
    AgreeButDigits k l (pure x) (pure y) := by
  intro f g hf hg
  exact h f g (Draw.yields_pure.1 hf).symm (Draw.yields_pure.1 hg).symm

/-- Behind a step in which both runs fail or neither does. -/
theorem after {p q : α → Draw (Except Failure β)}
    (h : ∀ f g, x = .error f → y = .error g → SameButDigits k l f g)
    (hboth : (∃ f, x = .error f) ↔ ∃ g, y = .error g)
    (hnext : ∀ a b, x = .ok a → y = .ok b → AgreeButDigits k l (p a) (q b)) :
    AgreeButDigits k l (Draw.after x p) (Draw.after y q) := by
  cases x with
  | error f =>
    obtain ⟨g, rfl⟩ := hboth.1 ⟨f, rfl⟩
    refine of_pure fun f' g' hf hg => ?_
    obtain rfl := Except.error.inj hf
    obtain rfl := Except.error.inj hg
    exact h _ _ rfl rfl
  | ok a =>
    cases y with
    | error g =>
      obtain ⟨f, hf⟩ := hboth.2 ⟨g, rfl⟩
      cases hf
    | ok b => exact hnext a b rfl rfl

/-- A step without the key is the same in both runs. -/
theorem after_same {p q : α → Draw (Except Failure β)} (x : Except Failure α)
    (hnext : ∀ a, AgreeButDigits k l (p a) (q a)) :
    AgreeButDigits k l (Draw.after x p) (Draw.after x q) := by
  refine after (fun f g hf hg => ?_) Iff.rfl fun a b ha hb => ?_
  · exact .inl (Except.error.inj (hf.symm.trans hg))
  · obtain rfl := Except.ok.inj (ha.symm.trans hb)
    exact hnext a

/-- A step that decodes the key. -/
theorem after_of_keyFails {p q : α → Draw (Except Failure β)} {r : Request} (h : r.AlikeKeys k l)
    (hx : ∀ f, x = .error f ↔ KeyFails r.kind r.algorithm k f)
    (hy : ∀ g, y = .error g ↔ KeyFails r.kind r.algorithm l g)
    (hnext : ∀ a b, x = .ok a → y = .ok b → AgreeButDigits k l (p a) (q b)) :
    AgreeButDigits k l (Draw.after x p) (Draw.after y q) := by
  refine after (fun f g hf hg => ?_) ?_ hnext
  · exact h.keyFails_sameButDigits ((hx f).1 hf) ((hy g).1 hg)
  · simp only [hx, hy]
    exact ⟨fun ⟨f, hf⟩ => h.exists_keyFails hf, fun ⟨g, hg⟩ => h.symm.exists_keyFails hg⟩

theorem after_key {r : Request} (h : r.AlikeKeys k l) {p q : Key → Draw (Except Failure β)}
    (hnext : ∀ K L, K.Alike L → AgreeButDigits k l (p K) (q L)) :
    AgreeButDigits k l (Draw.after (decodeKey r.kind r.algorithm k) p)
      (Draw.after (decodeKey r.kind r.algorithm l) q) :=
  after_of_keyFails h (fun _ => decodeKey_eq_error_iff) (fun _ => decodeKey_eq_error_iff)
    fun K L hK hL => hnext K L (h.alike (decodeKey_eq_ok_iff.1 hK) (decodeKey_eq_ok_iff.1 hL))

/-! Runs that draw nothing. -/

theorem bind_same {p q : α → Except Failure β} (x : Except Failure α)
    (hnext : ∀ a, AgreeButDigits k l (pure (p a)) (pure (q a))) :
    AgreeButDigits k l (pure (x >>= p)) (pure (x >>= q)) := by
  rw [← Draw.after_pure, ← Draw.after_pure]
  exact after_same x hnext

theorem bind_key {r : Request} (h : r.AlikeKeys k l) {p q : Key → Except Failure β}
    (hnext : ∀ K L, K.Alike L → AgreeButDigits k l (pure (p K)) (pure (q L))) :
    AgreeButDigits k l (pure (decodeKey r.kind r.algorithm k >>= p))
      (pure (decodeKey r.kind r.algorithm l >>= q)) := by
  rw [← Draw.after_pure, ← Draw.after_pure]
  exact after_key h hnext

theorem bind_secretKey {r : Request} (h : r.AlikeKeys k l) (hr : r.kind = .secret)
    {p q : SecretKey → Except Failure β}
    (hnext : ∀ a b, (Key.secret a).Alike (.secret b) → AgreeButDigits k l (pure (p a)) (pure (q b))) :
    AgreeButDigits k l (pure (decodeSecretKey k >>= p)) (pure (decodeSecretKey l >>= q)) := by
  have hfails {value : String} (f : Failure) :
      decodeSecretKey value = .error f ↔ KeyFails r.kind r.algorithm value f := by
    rw [hr]
    exact decodeSecretKey_eq_error_iff
  have hreads {value : String} {a : SecretKey} (ha : decodeSecretKey value = .ok a) :
      r.Reads value (.secret a) := by
    rw [Request.Reads, hr]
    exact decodeSecretKey_eq_ok_iff.1 ha
  rw [← Draw.after_pure, ← Draw.after_pure]
  exact after_of_keyFails h hfails hfails fun a b ha hb =>
    hnext a b (h.alike (hreads ha) (hreads hb))

/-! The call is the last step. -/

theorem call {d d' : Draw (Except Error α)} {p q : α → β} (h : d.AgreeOnCause d') :
    AgreeButDigits k l ((fun x => p <$> lift x) <$> d) ((fun x => q <$> lift x) <$> d') := by
  intro f g hf hg
  obtain ⟨x, hx, hf⟩ := Draw.yields_map.1 hf
  obtain ⟨y, hy, hg⟩ := Draw.yields_map.1 hg
  obtain ⟨e, he, rfl⟩ := mapError_eq_error_iff.1 (map_eq_error_iff.1 hf)
  obtain ⟨e', he', rfl⟩ := mapError_eq_error_iff.1 (map_eq_error_iff.1 hg)
  exact .inl (by rw [h x y hx hy e e' he he'])

theorem call_pure {x y : Except Error α} {p q : α → β} (h : AgreeOnCause x y) :
    AgreeButDigits k l (pure (p <$> lift x)) (pure (q <$> lift y)) := by
  have hdraws : (pure x : Draw _).AgreeOnCause (pure y) := .of_pure h
  exact call hdraws

end AgreeButDigits

/-! ### The five commands -/

section Commands
variable {purpose vector ciphertext signature : String} {scheme : EncryptionScheme}
  {tag : SignatureScheme}

theorem deriveKey_agree (h : (Request.derive purpose).AlikeKeys k l) :
    AgreeButDigits k l (pure (deriveKey k purpose)) (pure (deriveKey l purpose)) := by
  refine .bind_secretKey h rfl fun a b _ => ?_
  simp only [bind_pure_comp]
  exact .call_pure fun e _ he _ => absurd he SecretKey.derive_ne_error

theorem encryptWith_agree (h : (Request.encrypt scheme (some vector) data).AlikeKeys k l)
    (message iv : Bytes) : AgreeButDigits k l (pure (encryptWith k scheme message iv))
      (pure (encryptWith l scheme message iv)) := by
  refine .bind_secretKey h rfl fun a b _ => ?_
  simp only [bind_pure_comp]
  exact .call_pure (encrypt_agree a b scheme iv message)

theorem decryptWith_agree (h : (Request.decrypt scheme vector ciphertext).AlikeKeys k l) :
    AgreeButDigits k l (pure (decryptWith k scheme vector ciphertext))
      (pure (decryptWith l scheme vector ciphertext)) := by
  refine .bind_secretKey h rfl fun a b _ => ?_
  refine .bind_same _ fun iv => .bind_same _ fun blocks => ?_
  exact .call_pure (decrypt_agree a b scheme iv blocks)

theorem signData_agree (h : (Request.sign tag data).AlikeKeys k l) (message : Bytes) :
    AgreeButDigits k l (signData tag k message) (signData tag l message) := by
  rw [signData_eq, signData_eq]
  refine .after_key h fun K L hKL => ?_
  exact .call (sign_agree hKL tag message)

theorem verifyData_agree (h : (Request.verify tag signature data).AlikeKeys k l)
    (message : Bytes) : AgreeButDigits k l (pure (verifyData tag k signature message))
      (pure (verifyData tag l signature message)) := by
  rw [verifyData_eq, verifyData_eq]
  refine .bind_same _ fun s => .bind_key h fun K L _ => .of_pure fun f g hf hg => ?_
  -- a check that fails has one cause, whatever the key is
  split at hf
  · cases hf
  · split at hg
    · cases hg
    · exact .inl ((Except.error.inj hf).symm.trans (Except.error.inj hg))

/-! ### A vector that is drawn -/

/-- Under a vector that is drawn the run fails without one, or for its key; the encryption itself
does not fail. -/
theorem fails_of_drawn {v : Except Failure Bytes} {plaintext : Bytes}
    (hv : (vectorFor scheme none).Yields v)
    (h : v >>= encryptWith k scheme plaintext = .error f) :
    scheme = .none ∧ f = { message := EncryptionScheme.none.name ++ " does not use an IV" } ∨
      scheme = .aes256Cbc ∧ KeyFails .secret .aes256 k f := by
  obtain ⟨drawn, hdrawn, hv⟩ := Draw.yields_bind_iff.1 hv
  cases scheme with
  | none =>
    obtain rfl := Draw.yields_pure.1 hdrawn
    obtain rfl := Draw.yields_pure.1 hv
    exact .inl ⟨rfl, (Except.error.inj h).symm⟩
  | aes256Cbc =>
    obtain ⟨iv, hiv, rfl⟩ := Draw.yields_map.1 hdrawn
    obtain rfl := Draw.yields_pure.1 hv
    obtain h | ⟨_, hok, h⟩ := bind_eq_error_iff.1 h
    · cases h
    obtain rfl := Except.ok.inj hok
    refine .inr ⟨rfl, ?_⟩
    obtain h | ⟨master, -, h⟩ := bind_eq_error_iff.1 h
    · exact decodeSecretKey_eq_error_iff.1 h
    · obtain ⟨ciphertext, hciphertext⟩ :=
        (exists_encrypt_iff master iv plaintext).2 (Draw.yields_bytes.1 hiv)
      rw [hciphertext] at h
      cases h

theorem encrypt_drawn_agree (h : (Request.encrypt scheme none data).AlikeKeys k l) :
    AgreeButDigits k l ((Command.encrypt k scheme none data).run text)
      ((Command.encrypt l scheme none data).run text) := by
  intro f g hf hg
  rw [Command.run] at hf hg
  cases hdata : decodeData text data with
  | error e =>
    rw [hdata] at hf hg
    exact .inl (Except.error.inj ((Draw.yields_pure.1 hf).trans (Draw.yields_pure.1 hg).symm))
  | ok plaintext =>
    rw [hdata] at hf hg
    -- the two runs draw vectors of their own, which no failure shows
    obtain ⟨v, hv, hf⟩ := Draw.yields_bind_iff.1 hf
    obtain ⟨w, hw, hg⟩ := Draw.yields_bind_iff.1 hg
    obtain ⟨hscheme, hf⟩ | ⟨hscheme, hf⟩ := fails_of_drawn hv (Draw.yields_pure.1 hf).symm
    · obtain ⟨-, hg⟩ | ⟨hother, -⟩ := fails_of_drawn hw (Draw.yields_pure.1 hg).symm
      · exact .inl (hf.trans hg.symm)
      · cases hscheme.symm.trans hother
    · obtain ⟨hother, -⟩ | ⟨-, hg⟩ := fails_of_drawn hw (Draw.yields_pure.1 hg).symm
      · cases hscheme.symm.trans hother
      · exact h.keyFails_sameButDigits hf hg

/-! ### The program -/

/-- **Two runs of a request** with alike keys. -/
theorem run_agree {r : Request} (h : r.AlikeKeys k l) :
    AgreeButDigits k l ((r.withKey k).run text) ((r.withKey l).run text) := by
  cases r with
  | derive purpose => exact deriveKey_agree h
  | encrypt scheme vector data =>
    cases vector with
    | none => exact encrypt_drawn_agree h
    | some vector =>
      rw [Request.withKey, Request.withKey, run_encrypt, run_encrypt]
      exact .bind_same _ fun message => .bind_same _ fun iv => encryptWith_agree h message iv
  | decrypt scheme vector ciphertext => exact decryptWith_agree h
  | sign scheme data => exact .after_same _ fun message => signData_agree h message
  | verify scheme signature data => exact .bind_same _ fun message => verifyData_agree h message

end Commands

/-- A run that does not succeed has reported a failure. -/
theorem Runs.exists_failure {command : Command} {o : Outcome} (h : Runs text command o)
    (h1 : o.exitCode = 1) : ∃ f, (command.run text).Yields (.error f) ∧
      o = .ofResult (.error f) := by
  obtain ⟨x, hx, rfl⟩ := h.exists_result
  cases x with
  | ok output => exact absurd h1 Nat.zero_ne_one
  | error f => exact ⟨f, hx, rfl⟩

/-- **The reports show wrong digits of a key, and nothing else of it.** Two runs of a request with
alike keys that both exit with 1 have the same outcome if the keys are hexadecimal, or of odd length.
If the outcomes differ then for this reason alone: neither key is hexadecimal, and each run shows the
first byte of its own key that is no digit and the place of that byte, which are not the same.

The reports are without the text of a parser that refuses a key (`Error.detail?`). With that text the
reports on two malformed keys of one length can differ, although both are hexadecimal. -/
theorem reports_show_wrong_digits_alone (text : Bool) (r : Request) {k l : String}
    (h : r.AlikeKeys k l) {o o' : Outcome} (ho : Runs text (r.withKey k) o)
    (ho' : Runs text (r.withKey l) o') (h1 : o.exitCode = 1) (h1' : o'.exitCode = 1) :
    ((∃ bytes, HexDecodes k bytes) ∨ (Bytes.ofString (Text.trim k)).length % 2 = 1 → o = o') ∧
    (o ≠ o' ↔ ∃ x i y j, (x, i) ≠ (y, j) ∧ HasWrongDigit k x i ∧ HasWrongDigit l y j ∧
      o = .ofResult (.error (wrongDigit x i)) ∧ o' = .ofResult (.error (wrongDigit y j))) := by
  obtain ⟨f, hf, rfl⟩ := ho.exists_failure h1
  obtain ⟨g, hg, rfl⟩ := ho'.exists_failure h1'
  refine ⟨fun hk => ?_, fun hne => ?_, ?_⟩
  · obtain rfl | ⟨x, i, y, j, hx, -, rfl, rfl⟩ := run_agree h f g hf hg
    · rfl
    · obtain ⟨bytes, hbytes⟩ | hodd := hk
      · exact absurd hx hbytes.not_hasWrongDigit
      · have := hx.1
        omega
  · obtain rfl | ⟨x, i, y, j, hx, hy, rfl, rfl⟩ := run_agree h f g hf hg
    · exact absurd rfl hne
    · refine ⟨x, i, y, j, ?_, hx, hy, rfl, rfl⟩
      rintro heq
      obtain ⟨rfl, rfl⟩ := Prod.mk.inj heq
      exact hne rfl
  · rintro ⟨x, i, y, j, hne, -, -, hf, hg⟩ heq
    rw [hf, hg] at heq
    obtain ⟨rfl, rfl⟩ := report_wrongDigit_injective heq
    exact hne rfl

theorem runs_sign_malformed {key : PrivateKey}
    (hkey : KeyDecodes .privateHalf .rsa k (.privateHalf key)) (hrsa : key.algorithm = .rsa)
    (hnone : Rsa.PrivateKey.ofDer? key.bytes = none) :
    Runs false (.sign .rsa2048Sha256 k "")
      (.ofResult (.error { message := Error.malformedRsaPrivateKey.message })) := by
  have hinputs : (Command.sign .rsa2048Sha256 k "").inputs ≠ [] := List.cons_ne_nil _ _
  have hsign : sign .rsa2048Sha256 (.privateHalf key) [] =
      pure (.error .malformedRsaPrivateKey) := Rsa2048.sign_of_malformed hrsa hnone
  have hrun : (Command.sign .rsa2048Sha256 k "").run false =
      pure (.error { message := Error.malformedRsaPrivateKey.message }) := by
    have hdata : decodeData false "" = .ok [] :=
      decodeData_eq_ok_iff.2 (dataDecodes_false_iff.2 rfl)
    have hkey : decodeKey SignatureScheme.rsa2048Sha256.signingKind
        SignatureScheme.rsa2048Sha256.keyAlgorithm k = .ok (.privateHalf key) :=
      decodeKey_eq_ok_iff.2 hkey
    rw [Command.run, hdata, Draw.after_ok, signData_eq, hkey, Draw.after_ok, hsign, Draw.map_pure]
    rfl
  exact (runs_iff_of_run_eq (Command.exists_readProgram false hinputs) hrun).2 rfl

/-- Two keys of one byte are no RSA keys, and the reports do not tell which of them was given. -/
theorem reports_show_wrong_digits_alone_malformed :
    (Request.sign .rsa2048Sha256 "").AlikeKeys "01" "02" ∧
    ∃ o o', Runs false (.sign .rsa2048Sha256 "01" "") o ∧
      Runs false (.sign .rsa2048Sha256 "02" "") o' ∧ o.exitCode = 1 ∧ o'.exitCode = 1 ∧ o = o' := by
  have hkey : (Request.sign .rsa2048Sha256 "").Reads "01" (.privateHalf taggedKey) :=
    ⟨[1], rfl, rfl⟩
  have htwin : (Request.sign .rsa2048Sha256 "").Reads "02" (.privateHalf taggedTwin) :=
    ⟨[2], rfl, rfl⟩
  have halike := Request.AlikeKeys.of_alike hkey htwin alike_taggedTwin
  have hruns := runs_sign_malformed hkey rfl ofDer?_taggedKey
  have hruns' := runs_sign_malformed htwin rfl ofDer?_taggedTwin
  exact ⟨halike, _, _, hruns, hruns', rfl, rfl,
    (reports_show_wrong_digits_alone false _ halike hruns hruns' rfl rfl).1 (.inl ⟨[1], rfl⟩)⟩

theorem runs_derive_wrongDigit {purpose : String}
    (h : Hex.decode (Bytes.ofString (Text.trim k)) = .error (.noDigit x i)) :
    Runs text (.derive k purpose) (.ofResult (.error (wrongDigit x i))) := by
  have hinputs : (Command.derive k purpose).inputs ≠ [] := List.cons_ne_nil _ _
  have hfails : KeyFails .secret .aes256 k (wrongDigit x i) := .inl ⟨_, h, rfl⟩
  have hkey : decodeSecretKey k = .error (wrongDigit x i) := decodeSecretKey_eq_error_iff.2 hfails
  have hrun : (Command.derive k purpose).run text = pure (.error (wrongDigit x i)) := by
    rw [Command.run, deriveKey, hkey]
    rfl
  exact (runs_iff_of_run_eq (Command.exists_readProgram text hinputs) hrun).2 rfl

/-- **Two alike keys are told apart by their reports**: each report shows the digit that is wrong. -/
theorem wrong_digit_of_key_reported :
    (Request.derive "ENC:2").AlikeKeys "5z" "5x" ∧ Text.trim "5z" = "5z" ∧ Text.trim "5x" = "5x" ∧
    ∃ o o', Runs false (.derive "5z" "ENC:2") o ∧ Runs false (.derive "5x" "ENC:2") o' ∧
      o.exitCode = 1 ∧ o'.exitCode = 1 ∧ o.stderr ≠ o'.stderr := by
  have hz : Hex.decode (Bytes.ofString (Text.trim "5z")) = .error (.noDigit 0x7a 1) := rfl
  have hx : Hex.decode (Bytes.ofString (Text.trim "5x")) = .error (.noDigit 0x78 1) := rfl
  have hlength : (Bytes.ofString (Text.trim "5z")).length = 2 := rfl
  have halike : (Request.derive "ENC:2").AlikeKeys "5z" "5x" := by
    refine .of_not_decodes (hlength.trans rfl) ?_ ?_
    · rintro ⟨bytes, hbytes⟩
      cases hz.symm.trans hbytes
    · rintro ⟨bytes, hbytes⟩
      cases hx.symm.trans hbytes
  refine ⟨halike, rfl, rfl, _, _, runs_derive_wrongDigit hz, runs_derive_wrongDigit hx, rfl, rfl,
    fun hsame => ?_⟩
  have hreport : Outcome.ofResult (.error (wrongDigit 0x7a 1)) =
      .ofResult (.error (wrongDigit 0x78 1)) := by
    rw [Outcome.ofResult, Outcome.ofResult, Outcome.mk.injEq]
    exact ⟨rfl, rfl, hsame⟩
  exact absurd (report_wrongDigit_injective hreport).1 (by decide)

end MessageCrypto.Cli
