import Mathlib.Data.List.TakeWhile
import MessageCrypto.Proofs.Der.PrivateKey
import MessageCrypto.Proofs.P256.Ecdsa
import MessageCrypto.Proofs.P256.KeyFormat

/-! # Which byte strings are private keys on P-256

The container of a private key holds a SEQUENCE of a version, a secret and, behind the name of a
curve that may stand there, a public point that may stand there. The format alone leaves the secret
and the point open. They belong to a scalar if the secret has 24 to 32 bytes and stands for it, and
the point is the scalar's; there is at most one scalar for them, and a byte string holds one secret
and one point at most, so that a byte string whose parts belong to no scalar is not read.

* `IsPrivateKey`, `IsPrivateKey.unique`: the format, and that it determines secret and point.
* `Scalar.IsHeldBy`: what the parts have to be for a scalar.
* `Scalar.ofDer?_eq_some_iff`: what is read, among it what is written for scalars. -/

namespace MessageCrypto.P256

open Der (Element IsSequence IsPrivateKeyInfo)

/-! ### Public points -/

namespace Scalar

variable {d : Scalar} {e : Element} {bytes : Bytes}

/-- **The bytes are the public point of the scalar**: that multiple of the generator, uncompressed
or compressed. -/
def IsPublicPoint (d : Scalar) (bytes : Bytes) : Prop :=
  ∃ q : CurvePoint, q.toPoint = Point.multiple d.val Point.generator ∧
    (bytes = q.uncompressed ∨ bytes = q.compressed)

theorem any_isWritten_iff :
    d.publicPoint?.any (·.isWritten bytes) = true ↔ d.IsPublicPoint bytes := by
  simp only [Option.any_eq_true, publicPoint?_eq_some_iff, CurvePoint.isWritten, Bool.or_eq_true,
    beq_iff_eq, IsPublicPoint]

theorem isPublicPoint_iff : d.isPublicPoint e = true ↔
    ∃ bytes, e = .tagged 1 (.bitString bytes) ∧ (Element.bitString bytes).IsValid ∧
      d.IsPublicPoint bytes := by
  obtain ⟨tag, content⟩ := e
  constructor
  · intro h
    unfold isPublicPoint at h
    split at h
    case h_1 bytes htag hbits =>
      obtain ⟨e', he', hbits⟩ := Option.bind_eq_some_iff.1 hbits
      obtain rfl := Element.bitString?_eq_some_iff.1 hbits
      obtain ⟨hcontent, hvalid⟩ := Element.inner?_eq_some_iff.1 he'
      obtain rfl : tag = .context true 1 := htag
      obtain rfl : content = (Element.bitString bytes).encode := hcontent
      exact ⟨bytes, rfl, hvalid, any_isWritten_iff.1 h⟩
    case h_2 => cases h
  · rintro ⟨bytes, he, hvalid, hpoint⟩
    have hbits := Element.bitString?_eq_some_iff.2 (rfl : Element.bitString bytes = _)
    rw [he, isPublicPoint, Element.inner?_tagged 1 hvalid, Option.bind_some, hbits]
    exact any_isWritten_iff.2 hpoint

end Scalar

/-! ### What follows a secret -/

/-- The element of a public point, if there is one. -/
def pointElements (point : Option Bytes) : List Element :=
  point.elim [] fun bytes => [.tagged 1 (.bitString bytes)]

/-- **What may follow a secret**: the public point, or in front of it the name of a curve tagged 0
and what is passed over behind that. -/
def IsScalarTrailer (point : Option Bytes) (es : List Element) : Prop :=
  es = pointElements point ∨
    ∃ name passed, Element.isIdentifier name = true ∧ (∀ e ∈ passed, e.hasNumber 0 = true) ∧
      es = .tagged 0 ⟨.objectIdentifier, name⟩ :: (passed ++ pointElements point)

theorem dropWhile_pointElements (point : Option Bytes) :
    (pointElements point).dropWhile (·.hasNumber 0) = pointElements point := by
  cases point <;> rfl

theorem isValid_bitString_of_mem {bytes : Bytes} {es : List Element} (hes : ∀ e ∈ es, e.IsValid)
    (h : .tagged 1 (.bitString bytes) ∈ es) : (Element.bitString bytes).IsValid :=
  Element.isValid_of_tagged rfl (hes _ h)

theorem pointElements_inj {point point' : Option Bytes}
    (hvalid : ∀ e ∈ pointElements point, e.IsValid)
    (h : pointElements point = pointElements point') :
    point = point' := by
  have hread (point : Option Bytes) (hvalid : ∀ e ∈ pointElements point, e.IsValid) :
      ((pointElements point).head?.bind Element.inner?).bind Element.bitString? = point := by
    cases point with
    | none => rfl
    | some bytes =>
      have hbits := isValid_bitString_of_mem hvalid (List.mem_singleton_self _)
      simp only [pointElements, Option.elim_some, List.head?_cons, Option.bind_some,
        Element.inner?_tagged 1 hbits]
      rfl
  rw [← hread point hvalid, h, hread point' (h ▸ hvalid)]

/-- What follows a secret determines the public point. -/
theorem IsScalarTrailer.dropWhile_eq {point : Option Bytes} {es : List Element}
    (h : IsScalarTrailer point es) : es.dropWhile (·.hasNumber 0) = pointElements point := by
  rcases h with rfl | ⟨name, passed, -, hpassed, rfl⟩
  · exact dropWhile_pointElements point
  · rw [List.dropWhile_cons_of_pos rfl, List.dropWhile_append_of_pos hpassed,
      dropWhile_pointElements]

theorem IsScalarTrailer.mem_of_mem_pointElements {point : Option Bytes} {es : List Element}
    {e : Element} (h : IsScalarTrailer point es) (he : e ∈ pointElements point) : e ∈ es :=
  (List.dropWhile_sublist _).mem (h.dropWhile_eq ▸ he)

theorem IsScalarTrailer.unique {point point' : Option Bytes} {es : List Element}
    (hes : ∀ e ∈ es, e.IsValid) (h : IsScalarTrailer point es) (h' : IsScalarTrailer point' es) :
    point = point' :=
  pointElements_inj (fun e he => hes e (h.mem_of_mem_pointElements he))
    (h.dropWhile_eq.symm.trans h'.dropWhile_eq)

namespace Scalar

section
variable {d : Scalar} {es rest : List Element} {point : Option Bytes} (hes : ∀ e ∈ es, e.IsValid)
include hes

theorem skipCurve?_eq_some_iff : skipCurve? es = some rest ↔
    es = rest ∧ (∀ e ∈ es.head?, e.hasNumber 0 = false) ∨
      ∃ name, Element.isIdentifier name = true ∧
        es = .tagged 0 ⟨.objectIdentifier, name⟩ :: rest := by
  constructor
  · intro h
    unfold skipCurve? at h
    split at h
    case h_1 constructed content es =>
      split at h
      case h_1 name hinner =>
        obtain ⟨hok, hrest⟩ := Option.ite_none_right_eq_some.1 h
        obtain ⟨rfl, hname⟩ := Bool.and_eq_true_iff.1 hok
        obtain ⟨hcontent, -⟩ := Element.inner?_eq_some_iff.1 hinner
        obtain rfl : content = Element.encode ⟨.objectIdentifier, name⟩ := hcontent
        exact .inr ⟨name, hname, by rw [Option.some.inj hrest, Element.tagged]⟩
      case h_2 => cases h
    case h_2 es hne =>
      refine .inl ⟨Option.some.inj h, fun e he => Bool.eq_false_iff.2 fun h0 => ?_⟩
      obtain ⟨es', rfl⟩ := List.head?_eq_some_iff.1 he
      obtain ⟨constructed, htag⟩ := Element.hasNumber_iff.1 h0
      obtain ⟨tag, content⟩ := e
      obtain rfl : tag = .context constructed 0 := htag
      exact hne constructed content es' rfl
  · rintro (⟨rfl, hhead⟩ | ⟨name, hname, rfl⟩)
    · unfold skipCurve?
      split
      case h_1 => cases hhead _ rfl
      case h_2 => rfl
    · have hvalid : Element.IsValid ⟨.objectIdentifier, name⟩ :=
        Element.isValid_of_tagged rfl (hes _ List.mem_cons_self)
      have hinner := Element.inner?_tagged 0 hvalid
      rw [Element.tagged] at hinner
      rw [Element.tagged, skipCurve?, hinner]
      exact if_pos hname

/-- The scalar's point may stand behind what is passed over, if anything does. -/
theorem exists_skipCurve?_iff :
    (∃ rest, skipCurve? es = some rest ∧ rest.dropWhile (·.hasNumber 0) = pointElements point) ↔
      IsScalarTrailer point es := by
  simp only [skipCurve?_eq_some_iff hes]
  constructor
  · rintro ⟨rest, ⟨rfl, hhead⟩ | ⟨name, hname, rfl⟩, hdrop⟩
    · left
      cases es with
      | nil => exact hdrop
      | cons e es => rwa [List.dropWhile_cons_of_neg (Bool.eq_false_iff.1 (hhead e rfl))] at hdrop
    · right
      refine ⟨name, rest.takeWhile (·.hasNumber 0), hname,
        fun e he => List.mem_takeWhile_imp he, ?_⟩
      rw [← hdrop, List.takeWhile_append_dropWhile]
  · rintro (rfl | ⟨name, passed, hname, hpassed, rfl⟩)
    · refine ⟨_, .inl ⟨rfl, fun e he => ?_⟩, dropWhile_pointElements point⟩
      cases point with
      | none => cases he
      | some bytes => cases he; rfl
    · exact ⟨_, .inr ⟨name, hname, rfl⟩, by
        rw [List.dropWhile_append_of_pos hpassed, dropWhile_pointElements]⟩

/-- **Reading accepts what may follow a secret** if the point that stands there is the scalar's. -/
theorem isTrailer_iff : d.isTrailer es = true ↔
    ∃ point, IsScalarTrailer point es ∧ ∀ bytes ∈ point, d.IsPublicPoint bytes := by
  constructor
  · intro h
    unfold isTrailer at h
    split at h
    case h_1 => cases h
    case h_2 rest hskip =>
      split at h
      case h_1 hdrop =>
        exact ⟨none, (exists_skipCurve?_iff hes).1 ⟨rest, hskip, hdrop⟩, fun _ h => by cases h⟩
      case h_2 e hdrop =>
        obtain ⟨bytes, rfl, -, hpoint⟩ := isPublicPoint_iff.1 h
        refine ⟨some bytes, (exists_skipCurve?_iff hes).1 ⟨rest, hskip, hdrop⟩, ?_⟩
        rintro _ ⟨⟩
        exact hpoint
      case h_3 => cases h
  · rintro ⟨point, htrailer, hpoint⟩
    obtain ⟨rest, hskip, hdrop⟩ := (exists_skipCurve?_iff hes).2 htrailer
    rw [isTrailer, hskip]
    simp only [hdrop]
    cases point with
    | none => rfl
    | some bytes =>
      have hmem := htrailer.mem_of_mem_pointElements (List.mem_singleton_self _)
      exact isPublicPoint_iff.2 ⟨bytes, rfl, isValid_bitString_of_mem hes hmem, hpoint bytes rfl⟩

end

end Scalar

/-! ### Secrets -/

namespace Scalar

/-- **The parts of a key belong to the scalar**: the secret has 24 to 32 bytes and stands for it,
and the public point, if there is one, is the scalar's. -/
structure IsHeldBy (d : Scalar) (secret : Bytes) (point : Option Bytes) : Prop where
  le_length : 24 ≤ secret.length
  length_le : secret.length ≤ 32
  toNat_eq : Bytes.toNat secret = d.val
  isPublicPoint : ∀ bytes ∈ point, d.IsPublicPoint bytes

theorem ofBytes?_eq_some_iff {d : Scalar} {bytes : Bytes} : ofBytes? bytes = some d ↔
    (24 ≤ bytes.length ∧ bytes.length ≤ 32) ∧ Bytes.toNat bytes = d.val := by
  rw [ofBytes?, Option.ite_none_right_eq_some, ofNat?_eq_some_iff, eq_comm (a := d.val)]

end Scalar

/-- **A secret and a point in the inner format**: the SEQUENCE of the version 1, the secret in an
OCTET STRING, and what may follow it. -/
def IsInnerKey (secret : Bytes) (point : Option Bytes) (bytes : Bytes) : Prop :=
  ∃ trailer, IsScalarTrailer point trailer ∧
    IsSequence (.unsigned 1 :: .octetString secret :: trailer) bytes

theorem Scalar.ofInner?_eq_some_iff {d : Scalar} {bytes : Bytes} : ofInner? bytes = some d ↔
    ∃ secret point, IsInnerKey secret point bytes ∧ d.IsHeldBy secret point := by
  constructor
  · intro h
    unfold ofInner? at h
    split at h
    case h_2 => cases h
    case h_1 version secret trailer hread =>
      obtain ⟨d', hd', h⟩ := Option.bind_eq_some_iff.1 h
      obtain ⟨hok, hd⟩ := Option.ite_none_right_eq_some.1 h
      obtain ⟨hversion, htrailer⟩ := Bool.and_eq_true_iff.1 hok
      obtain rfl := Option.some.inj hd
      rw [Element.eq_unsigned_of_unsigned? (beq_iff_eq.1 hversion)] at hread
      have hseq : IsSequence (.unsigned 1 :: .octetString secret :: trailer) bytes :=
        Der.isSequence_iff.2 hread
      obtain ⟨⟨hle, hlength⟩, hsecret⟩ := ofBytes?_eq_some_iff.1 hd'
      obtain ⟨point, hpoint, hpublic⟩ :=
        (isTrailer_iff fun e he => hseq.valid e (by simp [he])).1 htrailer
      exact ⟨secret, point, ⟨trailer, hpoint, hseq⟩, hle, hlength, hsecret, hpublic⟩
  · rintro ⟨secret, point, ⟨trailer, htrailer, hseq⟩, hle, hlength, hsecret, hpublic⟩
    have hok : d.isTrailer trailer = true :=
      (isTrailer_iff fun e he => hseq.valid e (by simp [he])).2 ⟨point, htrailer, hpublic⟩
    rw [ofInner?, Der.isSequence_iff.1 hseq]
    refine Option.bind_eq_some_iff.2 ⟨d, ofBytes?_eq_some_iff.2 ⟨⟨hle, hlength⟩, hsecret⟩, ?_⟩
    exact Option.ite_none_right_eq_some.2 ⟨Bool.and_eq_true_iff.2
      ⟨beq_iff_eq.2 (Element.unsigned?_unsigned 1), hok⟩, rfl⟩

/-! ### Keys -/

/-- **A secret and a point as a private key**: their inner format in a container for P-256. -/
def IsPrivateKey (secret : Bytes) (point : Option Bytes) (bytes : Bytes) : Prop :=
  ∃ inner, IsPrivateKeyInfo algorithm inner bytes ∧ IsInnerKey secret point inner

/-- A byte string holds one secret and one point. -/
theorem IsPrivateKey.unique {secret secret' bytes : Bytes} {point point' : Option Bytes}
    (h : IsPrivateKey secret point bytes) (h' : IsPrivateKey secret' point' bytes) :
    secret = secret' ∧ point = point' := by
  obtain ⟨inner, hinfo, trailer, htrailer, hseq⟩ := h
  obtain ⟨inner', hinfo', trailer', htrailer', hseq'⟩ := h'
  obtain rfl := hinfo.unique hinfo'
  obtain ⟨-, hrest⟩ := List.cons.inj (hseq.unique hseq')
  obtain ⟨hsecret, rfl⟩ := List.cons.inj hrest
  exact ⟨congrArg Element.content hsecret,
    htrailer.unique (fun e he => hseq.valid e (by simp [he])) htrailer'⟩

namespace Scalar

variable {d : Scalar} {q : CurvePoint} {secret bytes : Bytes} {point : Option Bytes}

/-- **What is read** are the private keys whose parts belong to a scalar. -/
theorem ofDer?_eq_some_iff : ofDer? bytes = some d ↔
    ∃ secret point, IsPrivateKey secret point bytes ∧ d.IsHeldBy secret point := by
  simp only [ofDer?, Option.bind_eq_some_iff, Der.decodePrivateKey?_eq_some_iff,
    ofInner?_eq_some_iff, IsPrivateKey]
  constructor
  · rintro ⟨inner, hinfo, secret, point, hinner, hheld⟩
    exact ⟨secret, point, ⟨inner, hinfo, hinner⟩, hheld⟩
  · rintro ⟨secret, point, ⟨inner, hinfo, hinner⟩, hheld⟩
    exact ⟨inner, hinfo, secret, point, hinner, hheld⟩

/-- A private key whose parts belong to no scalar is not read. -/
theorem ofDer?_eq_none_of_isPrivateKey (h : IsPrivateKey secret point bytes)
    (hnone : ∀ d : Scalar, ¬ d.IsHeldBy secret point) : ofDer? bytes = none := by
  refine Option.eq_none_iff_forall_ne_some.2 fun d hd => ?_
  obtain ⟨secret', point', h', hheld⟩ := ofDer?_eq_some_iff.1 hd
  obtain ⟨rfl, rfl⟩ := h.unique h'
  exact hnone d hheld

/-- A secret that is zero or not below the order belongs to no scalar, and neither does one next to
a point that is another's. -/
theorem not_isHeldBy (h : Bytes.toNat secret = 0 ∨ n ≤ Bytes.toNat secret ∨
    ∃ b ∈ point, ∀ d : Scalar, d.val = Bytes.toNat secret → ¬ d.IsPublicPoint b) :
    ¬ d.IsHeldBy secret point := by
  intro hheld
  have hpos := d.pos
  have hlt := d.lt
  rw [← hheld.toNat_eq] at hpos hlt
  rcases h with h | h | ⟨b, hb, hother⟩
  · omega
  · omega
  · exact hother d hheld.toNat_eq.symm (hheld.isPublicPoint b hb)

/-! ### Written keys -/

/-- What is written for a scalar holds its octets and the point. -/
theorem isPrivateKey_toDer (d : Scalar) (q : CurvePoint) :
    IsPrivateKey d.toBytes (some q.uncompressed) (d.toDer q) := by
  have htag : (Der.Tag.context true 1).IsValid := by decide
  have hinner : IsSequence (innerElements d q) (Element.sequence (innerElements d q)).encode := by
    refine Der.isSequence_encode ?_ ((length_encode_innerElements_lt d q).le.trans (by decide))
    simp only [innerElements, List.forall_mem_cons]
    exact ⟨rfl, rfl, htag, by simp⟩
  have hlength := length_toDer_le d q
  rw [toDer_eq] at hlength ⊢
  exact ⟨_, Der.isPrivateKeyInfo_encodePrivateKey isValid_of_mem_algorithm hlength, _, .inl rfl,
    hinner⟩

/-- **A scalar is read back** from the container with its public point. -/
theorem ofDer?_toDer (hq : d.publicPoint? = some q) : ofDer? (d.toDer q) = some d := by
  have hlength := length_toBytes d
  refine ofDer?_eq_some_iff.2 ⟨d.toBytes, some q.uncompressed, isPrivateKey_toDer d q,
    hlength.symm ▸ by decide, hlength.le, toNat_toBytes d, fun bytes hbytes => ?_⟩
  exact ⟨q, publicPoint?_eq_some_iff.1 hq, .inl (Option.mem_some_iff.1 hbytes).symm⟩

end Scalar

end MessageCrypto.P256
