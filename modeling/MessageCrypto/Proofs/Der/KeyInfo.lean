import Mathlib.Data.Nat.ModEq
import MessageCrypto.Der.KeyInfo

/-! # The containers of keys have one written form

A container is read for one algorithm, and what is read from it is what was written into it. The
encoding of a row of elements is as long as each of its contents at least, so that the limit on the
outermost length is the only one.

* `decodePublicKey?_eq_some_iff`: the container of a public key is read only in its written form.
* `sequence?_encode`, `sequence?_encode_unsigned`: a SEQUENCE of elements, or of numbers, is read
  back. -/

namespace MessageCrypto.Der

/-! ### Lengths -/

theorem length_lengthOctets_le {n : ℕ} (hn : n ≤ maxLength) : (lengthOctets n).length ≤ 5 := by
  unfold lengthOctets
  split_ifs with hs
  · simp
  · have hlog : n.log2 < 28 := (Nat.log2_lt (by omega)).2 (by unfold maxLength at hn; omega)
    simp only [List.length_cons, Bytes.length_ofNat]
    omega

theorem length_encode_le {es : List Element} {c : ℕ} (hc : c ≤ maxLength)
    (h : ∀ e ∈ es, e.content.length ≤ c) : (encode es).length ≤ es.length * (c + 6) := by
  induction es with
  | nil => simp [encode]
  | cons e es ih =>
    have he := h e (by simp)
    have hlength := length_lengthOctets_le (he.trans hc)
    have ih := ih fun e he => h e (by simp [he])
    simp only [encode, List.flatMap_cons, Element.encode, List.length_append, List.length_cons,
      Nat.add_mul] at ih ⊢
    omega

theorem length_content_le_of_mem {e : Element} {es : List Element} (he : e ∈ es) :
    e.content.length ≤ (encode es).length := by
  induction es with
  | nil => simp at he
  | cons e' es ih =>
    simp only [encode, List.flatMap_cons, Element.encode, List.length_append,
      List.length_cons] at ih ⊢
    rcases List.mem_cons.1 he with rfl | he
    · omega
    · have := ih he
      omega

/-- One element takes six bytes at most for its tag and its length. -/
theorem Element.length_encode_le {e : Element} {c : ℕ} (hc : c ≤ maxLength)
    (h : e.content.length ≤ c) : e.encode.length ≤ c + 6 := by
  have hle : (Der.encode [e]).length ≤ [e].length * (c + 6) :=
    Der.length_encode_le hc (by simpa)
  rwa [encode_singleton, List.length_singleton, Nat.one_mul] at hle

/-- A SEQUENCE is read back, if its elements are not too many or too long. -/
theorem sequence?_encode {es : List Element} {c : ℕ} (htag : ∀ e ∈ es, e.tag.IsValid)
    (hcontent : ∀ e ∈ es, e.content.length ≤ c) (hc : c ≤ maxLength)
    (hlength : es.length * (c + 6) ≤ maxLength) :
    sequence? (Element.sequence es).encode = some es :=
  sequence?_eq_some_iff.2 ⟨rfl, fun e he => ⟨htag e he, (hcontent e he).trans hc⟩,
    (length_encode_le hc hcontent).trans hlength⟩

/-! ### Values -/

namespace Element

variable {e : Element}

theorem sequence?_iff {es : List Element} :
    e.sequence? = some es ↔ e = sequence es ∧ ∀ x ∈ es, x.IsValid := by
  constructor
  · intro h
    unfold Element.sequence? at h
    split at h
    case h_1 content =>
      obtain ⟨rfl, hes⟩ := elements?_eq_some_iff.1 h
      exact ⟨rfl, hes⟩
    case h_2 => simp at h
  · rintro ⟨rfl, hes⟩
    exact elements?_eq_some_iff.2 ⟨rfl, hes⟩

theorem isAlgorithm_iff {algorithm : Algorithm} :
    e.isAlgorithm algorithm = true ↔ e = sequence algorithm ∧ ∀ x ∈ algorithm, x.IsValid := by
  rw [isAlgorithm, beq_iff_eq, sequence?_iff]

/-- What a tag of a context wraps is read back. -/
theorem inner?_tagged (number : ℕ) (he : e.IsValid) : (tagged number e).inner? = some e := by
  have h : elements? (tagged number e).content = some [e] :=
    elements?_eq_some_iff.2 ⟨(encode_singleton e).symm, by simpa⟩
  rw [inner?, h]

theorem bitString?_eq_some_iff {b : Bytes} : e.bitString? = some b ↔ e = bitString b := by
  constructor
  · intro h
    unfold bitString? at h
    split at h
    case h_1 => rw [Option.some.inj h, bitString]
    case h_2 => simp at h
  · rintro rfl
    rfl

end Element

/-! ### Sequences of numbers -/

section
variable {ns : List ℕ} {w : ℕ} (hn : ∀ n ∈ ns, n < 256 ^ w)
include hn

theorem length_content_unsigned_le {e : Element} (he : e ∈ ns.map Element.unsigned) :
    e.content.length ≤ w + 1 := by
  obtain ⟨n, hmem, rfl⟩ := List.mem_map.1 he
  have hlog : n.log2 < 8 * w + 1 := by
    rcases Nat.eq_zero_or_pos n with rfl | hpos
    · simp
    · have hpow : 256 ^ w = 2 ^ (8 * w) := (Nat.pow_mul 2 8 w).symm
      have := (Nat.log2_lt hpos.ne').2 (hpow ▸ hn n hmem)
      omega
  simp only [Element.unsigned, Element.length_unsignedContent]
  omega

variable {count : ℕ} (hcount : ns.length = count) (hw : w < maxLength)
include hcount hw

theorem length_encode_unsigned_le : (encode (ns.map .unsigned)).length ≤ count * (w + 7) := by
  have hle := length_encode_le hw fun e he => length_content_unsigned_le hn he
  rwa [List.length_map, hcount] at hle

/-- A SEQUENCE of numbers is read back, if they are not too many or too large. -/
theorem sequence?_encode_unsigned (hlength : count * (w + 7) ≤ maxLength) :
    sequence? (Element.sequence (ns.map .unsigned)).encode = some (ns.map .unsigned) := by
  refine sequence?_encode ?_ (fun e he => length_content_unsigned_le hn he) hw ?_
  · intro e he
    obtain ⟨n, -, rfl⟩ := List.mem_map.1 he
    rfl
  · rwa [List.length_map, hcount]

end

/-! ### Public keys -/

/-- **The container of a public key** is read only in its written form. -/
theorem decodePublicKey?_eq_some_iff {algorithm : Algorithm} {bytes key : Bytes} :
    decodePublicKey? algorithm bytes = some key ↔
      bytes = encodePublicKey algorithm key ∧ (∀ e ∈ algorithm, e.IsValid) ∧
        (encode [.sequence algorithm, .bitString key]).length ≤ maxLength := by
  constructor
  · intro h
    unfold decodePublicKey? at h
    split at h
    case h_2 => simp at h
    case h_1 identifier e hseq =>
      obtain ⟨halgorithm, he⟩ := Option.ite_none_right_eq_some.1 h
      obtain ⟨rfl, hvalid⟩ := Element.isAlgorithm_iff.1 halgorithm
      obtain rfl := Element.bitString?_eq_some_iff.1 he
      obtain ⟨hbytes, -, hlength⟩ := sequence?_eq_some_iff.1 hseq
      exact ⟨hbytes, hvalid, hlength⟩
  · rintro ⟨rfl, hvalid, hlength⟩
    have hseq : sequence? (encodePublicKey algorithm key) =
        some [.sequence algorithm, .bitString key] := by
      refine sequence?_eq_some_iff.2 ⟨rfl, ?_, hlength⟩
      intro e he
      have hcontent := (length_content_le_of_mem he).trans hlength
      rcases List.mem_cons.1 he with rfl | he
      · exact ⟨rfl, hcontent⟩
      · obtain rfl := List.mem_singleton.1 he
        exact ⟨rfl, hcontent⟩
    rw [decodePublicKey?, hseq]
    exact Option.ite_none_right_eq_some.2 ⟨Element.isAlgorithm_iff.2 ⟨rfl, hvalid⟩, rfl⟩

/-! ### Written containers -/

section
variable {algorithm : Algorithm} {key : Bytes} {c : ℕ} (halgorithm : (encode algorithm).length ≤ c)
  (hkey : key.length < c)
include halgorithm hkey

theorem length_publicContent_le (hc : 2 * (c + 6) ≤ maxLength) :
    (encode [.sequence algorithm, .bitString key]).length ≤ 2 * (c + 6) := by
  refine length_encode_le (by omega) ?_
  simp only [List.forall_mem_cons]
  exact ⟨halgorithm, hkey, by simp⟩

theorem length_encodePublicKey_le (hc : 2 * (c + 6) ≤ maxLength) :
    (encodePublicKey algorithm key).length ≤ 2 * (c + 6) + 6 :=
  Element.length_encode_le hc (length_publicContent_le halgorithm hkey hc)

theorem decodePublicKey?_encodePublicKey (hc : 2 * (c + 6) ≤ maxLength)
    (hvalid : ∀ e ∈ algorithm, e.IsValid) :
    decodePublicKey? algorithm (encodePublicKey algorithm key) = some key :=
  decodePublicKey?_eq_some_iff.2
    ⟨rfl, hvalid, (length_publicContent_le halgorithm hkey hc).trans hc⟩

theorem length_privateContent_le :
    ∀ e ∈ [Element.unsigned 0, .sequence algorithm, .octetString key], e.content.length ≤ c := by
  simp only [List.forall_mem_cons]
  exact ⟨Nat.one_le_of_lt hkey, halgorithm, hkey.le, by simp⟩

theorem length_encodePrivateKey_le (hc : 3 * (c + 6) ≤ maxLength) :
    (encodePrivateKey algorithm key).length ≤ 3 * (c + 6) + 6 :=
  Element.length_encode_le hc
    (length_encode_le (by omega) (length_privateContent_le halgorithm hkey))

end

end MessageCrypto.Der
