import MessageCrypto.Proofs.Der.KeyInfo

/-! # Which byte strings are containers of a private key

A container is one SEQUENCE in its shortest form with nothing behind it. It holds a version, an
algorithm and a key, and what may follow is told apart by context-specific tags. The format is said
here without reading, as what has to be written; reading accepts exactly that, so that a byte string
holds one key at most.

* `IsSequence`, `isSequence_iff`: the encoding of elements in a row.
* `IsKeyTrailer`, `isKeyTrailer_iff`: what may follow a key.
* `IsPrivateKeyInfo`, `decodePrivateKey?_eq_some_iff`: the container, and that it is read. -/

namespace MessageCrypto.Der

/-! ### Sequences -/

/-- **The strict encoding of elements in a row**: one SEQUENCE with lengths in their shortest form
and nothing behind it, where all lengths are within the limit. -/
structure IsSequence (es : List Element) (bytes : Bytes) : Prop where
  encoded : bytes = (Element.sequence es).encode
  valid : ∀ e ∈ es, e.IsValid
  length_le : (encode es).length ≤ maxLength

theorem isSequence_iff {es : List Element} {bytes : Bytes} :
    IsSequence es bytes ↔ sequence? bytes = some es := by
  rw [sequence?_eq_some_iff]
  exact ⟨fun h => ⟨h.encoded, h.valid, h.length_le⟩, fun ⟨hbytes, hes, hlength⟩ =>
    ⟨hbytes, hes, hlength⟩⟩

/-- A byte string is the encoding of one row of elements. -/
theorem IsSequence.unique {es es' : List Element} {bytes : Bytes} (h : IsSequence es bytes)
    (h' : IsSequence es' bytes) : es = es' :=
  Option.some.inj ((isSequence_iff.1 h).symm.trans (isSequence_iff.1 h'))

/-- What is written within the limit is such an encoding. -/
theorem isSequence_encode {es : List Element} (htag : ∀ e ∈ es, e.tag.IsValid)
    (h : (Element.sequence es).encode.length ≤ maxLength) :
    IsSequence es (Element.sequence es).encode := by
  have hcontent : (encode es).length ≤ maxLength := by
    have hmem := length_content_le_of_mem (List.mem_singleton_self (Element.sequence es))
    rw [encode_singleton] at hmem
    exact hmem.trans h
  exact ⟨rfl, fun e he => ⟨htag e he, (length_content_le_of_mem he).trans hcontent⟩, hcontent⟩

/-! ### Wrapped elements -/

namespace Element

variable {e e' : Element} {number : ℕ}

theorem inner?_eq_some_iff : e.inner? = some e' ↔ e.content = e'.encode ∧ e'.IsValid := by
  have hread : e.inner? = some e' ↔ elements? e.content = some [e'] := by
    unfold inner?
    split
    case h_1 x hx =>
      rw [hx, Option.some.injEq, Option.some.injEq, List.cons.injEq, and_iff_left rfl]
    case h_2 hne => exact ⟨fun h => (by cases h), fun h => (hne _ h).elim⟩
  rw [hread, elements?_eq_some_iff, encode_singleton]
  simp only [List.mem_singleton, forall_eq]

theorem isExtension_iff :
    e.isExtension = true ↔ ∃ number e', e = tagged number e' ∧ e'.IsValid := by
  obtain ⟨tag, content⟩ := e
  constructor
  · intro h
    unfold isExtension at h
    split at h
    case h_1 number htag =>
      obtain ⟨e', he'⟩ := Option.isSome_iff_exists.1 h
      obtain ⟨hcontent, hvalid⟩ := inner?_eq_some_iff.1 he'
      obtain rfl : tag = .context true number := htag
      obtain rfl : content = e'.encode := hcontent
      exact ⟨number, e', rfl, hvalid⟩
    case h_2 => cases h
  · rintro ⟨number, e', he, hvalid⟩
    rw [he, isExtension]
    exact Option.isSome_iff_exists.2 ⟨e', inner?_tagged number hvalid⟩

/-- What a tag wraps is valid if the whole is. -/
theorem isValid_of_tagged (htag : e.tag.IsValid) (h : (tagged number e).IsValid) : e.IsValid := by
  have hlength : e.content.length ≤ (Der.encode [e]).length :=
    length_content_le_of_mem (List.mem_singleton_self e)
  rw [encode_singleton] at hlength
  exact ⟨htag, hlength.trans h.length⟩

theorem hasNumber_iff :
    e.hasNumber number = true ↔ ∃ constructed, e.tag = .context constructed number := by
  unfold hasNumber
  split
  case h_1 constructed m htag => simp [htag]
  case h_2 hne =>
    simp only [Bool.false_eq_true, false_iff, not_exists]
    exact fun constructed htag => hne constructed number htag

end Element

/-! ### What follows a key -/

/-- **What may follow a private key** in a container of the version: attributes, which are tagged 0;
behind them, exactly if the version is 1, a bit string of whole bytes tagged 1; and then extensions,
each of them one element wrapped in a tag. -/
inductive IsKeyTrailer : (version : ℕ) → List Element → Prop
  | withAttribute {version : ℕ} {e : Element} {es : List Element} (he : e.hasNumber 0 = true)
      (hes : IsKeyTrailer version es) : IsKeyTrailer version (e :: es)
  | withoutPublicKey {es : List Element}
      (hhead : ∀ e ∈ es.head?, e.hasNumber 0 = false ∧ e.hasNumber 1 = false)
      (hes : ∀ e ∈ es, ∃ number e', e = Element.tagged number e' ∧ e'.IsValid) : IsKeyTrailer 0 es
  | withPublicKey (key : Bytes) {es : List Element}
      (hes : ∀ e ∈ es, ∃ number e', e = Element.tagged number e' ∧ e'.IsValid) :
      IsKeyTrailer 1 (⟨.context false 1, 0 :: key⟩ :: es)

section
variable {version : ℕ} {e : Element} {es : List Element}

theorem isKeyTrailer_cons_of_attribute (he : e.hasNumber 0 = true) :
    isKeyTrailer version (e :: es) = isKeyTrailer version es := by
  rw [isKeyTrailer, isKeyTrailer, List.dropWhile_cons_of_pos he]

theorem all_isExtension_iff : es.all Element.isExtension = true ↔
    ∀ e ∈ es, ∃ number e', e = Element.tagged number e' ∧ e'.IsValid := by
  simp only [List.all_eq_true, Element.isExtension_iff]

theorem isKeyTrailer_publicKey {constructed : Bool} {content : Bytes} :
    isKeyTrailer version (⟨.context constructed 1, content⟩ :: es) =
      (!constructed && content.head? == some 0 && version == 1 && es.all Element.isExtension) := by
  have hne : ¬ Element.hasNumber 0 ⟨.context constructed 1, content⟩ = true := Bool.false_ne_true
  rw [isKeyTrailer, List.dropWhile_cons_of_neg hne]
  rfl

theorem isKeyTrailer_of_head
    (hhead : ∀ e ∈ es.head?, e.hasNumber 0 = false ∧ e.hasNumber 1 = false) :
    isKeyTrailer version es = (version == 0 && es.all Element.isExtension) := by
  cases es with
  | nil => rfl
  | cons e es =>
    obtain ⟨h0, h1⟩ := hhead e rfl
    rw [isKeyTrailer, List.dropWhile_cons_of_neg (Bool.eq_false_iff.1 h0)]
    split
    case h_1 constructed content es' heq =>
      rw [(List.cons.inj heq).1] at h1
      cases h1
    case h_2 => rfl

/-- **Reading accepts what may follow a key**, and nothing else. -/
theorem isKeyTrailer_iff : isKeyTrailer version es = true ↔ IsKeyTrailer version es := by
  constructor
  · intro h
    induction es with
    | nil =>
      obtain rfl : version = 0 := by simpa [isKeyTrailer] using h
      exact .withoutPublicKey (by simp) (by simp)
    | cons e es ih =>
      by_cases h0 : e.hasNumber 0 = true
      · exact .withAttribute h0 (ih ((isKeyTrailer_cons_of_attribute h0).symm.trans h))
      by_cases h1 : e.hasNumber 1 = true
      · obtain ⟨tag, content⟩ := e
        obtain ⟨constructed, rfl⟩ : ∃ constructed, tag = .context constructed 1 :=
          Element.hasNumber_iff.1 h1
        rw [isKeyTrailer_publicKey] at h
        simp only [Bool.and_eq_true, Bool.not_eq_true', beq_iff_eq, all_isExtension_iff] at h
        obtain ⟨⟨⟨rfl, hcontent⟩, rfl⟩, hes⟩ := h
        obtain ⟨key, rfl⟩ := List.head?_eq_some_iff.1 hcontent
        exact .withPublicKey key hes
      · have hhead : ∀ e' ∈ (e :: es).head?, e'.hasNumber 0 = false ∧ e'.hasNumber 1 = false := by
          rintro e' ⟨⟩
          exact ⟨Bool.eq_false_iff.2 h0, Bool.eq_false_iff.2 h1⟩
        rw [isKeyTrailer_of_head hhead, Bool.and_eq_true, beq_iff_eq, all_isExtension_iff] at h
        obtain ⟨rfl, hes⟩ := h
        exact .withoutPublicKey hhead hes
  · intro h
    induction h with
    | withAttribute he hes ih => rw [isKeyTrailer_cons_of_attribute he, ih]
    | withoutPublicKey hhead hes =>
      rw [isKeyTrailer_of_head hhead, all_isExtension_iff.2 hes]
      rfl
    | withPublicKey key hes =>
      rw [isKeyTrailer_publicKey, all_isExtension_iff.2 hes]
      rfl

end

/-! ### The container -/

/-- **A container of a private key** for an algorithm: the SEQUENCE of a version, the algorithm, the
key in an OCTET STRING, and what may follow it in that version. -/
def IsPrivateKeyInfo (algorithm : Algorithm) (key bytes : Bytes) : Prop :=
  (∀ e ∈ algorithm, e.IsValid) ∧ ∃ version trailer, IsKeyTrailer version trailer ∧
    IsSequence (.unsigned version :: .sequence algorithm :: .octetString key :: trailer) bytes

/-- **Reading accepts the containers for an algorithm**, and gives the key that they hold. -/
theorem decodePrivateKey?_eq_some_iff {algorithm : Algorithm} {bytes key : Bytes} :
    decodePrivateKey? algorithm bytes = some key ↔ IsPrivateKeyInfo algorithm key bytes := by
  constructor
  · intro h
    unfold decodePrivateKey? at h
    split at h
    case h_2 => cases h
    case h_1 version identifier content trailer hseq =>
      obtain ⟨v, hv, h⟩ := Option.bind_eq_some_iff.1 h
      obtain ⟨hok, hkey⟩ := Option.ite_none_right_eq_some.1 h
      obtain ⟨halgorithm, htrailer⟩ := Bool.and_eq_true_iff.1 hok
      obtain ⟨hidentifier, hvalid⟩ := Element.isAlgorithm_iff.1 halgorithm
      rw [Element.eq_unsigned_of_unsigned? hv, hidentifier, Option.some.inj hkey] at hseq
      exact ⟨hvalid, v, trailer, isKeyTrailer_iff.1 htrailer, isSequence_iff.2 hseq⟩
  · rintro ⟨hvalid, version, trailer, htrailer, hseq⟩
    rw [decodePrivateKey?, isSequence_iff.1 hseq]
    refine Option.bind_eq_some_iff.2 ⟨version, Element.unsigned?_unsigned version, ?_⟩
    exact Option.ite_none_right_eq_some.2 ⟨Bool.and_eq_true_iff.2
      ⟨Element.isAlgorithm_iff.2 ⟨rfl, hvalid⟩, isKeyTrailer_iff.2 htrailer⟩, rfl⟩

/-- A byte string is the container of one key. -/
theorem IsPrivateKeyInfo.unique {algorithm : Algorithm} {key key' bytes : Bytes}
    (h : IsPrivateKeyInfo algorithm key bytes) (h' : IsPrivateKeyInfo algorithm key' bytes) :
    key = key' :=
  Option.some.inj ((decodePrivateKey?_eq_some_iff.2 h).symm.trans
    (decodePrivateKey?_eq_some_iff.2 h'))

/-- What is written within the limit is such a container. -/
theorem isPrivateKeyInfo_encodePrivateKey {algorithm : Algorithm} {key : Bytes}
    (hvalid : ∀ e ∈ algorithm, e.IsValid)
    (h : (encodePrivateKey algorithm key).length ≤ maxLength) :
    IsPrivateKeyInfo algorithm key (encodePrivateKey algorithm key) := by
  refine ⟨hvalid, 0, [], .withoutPublicKey (by simp) (by simp), isSequence_encode ?_ h⟩
  simp only [List.forall_mem_cons]
  exact ⟨rfl, rfl, rfl, by simp⟩

end MessageCrypto.Der
