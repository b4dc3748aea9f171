import MessageCrypto.Bytes

/-!
# Elements of DER

An encoding is a sequence of elements, each of which is a tag, a length and a content. Lengths
have one written form, the shortest. What a content means is left to the reader of the element;
the content of a constructed one is again a sequence of elements.

* `elements?_eq_some_iff`: a byte string is read as elements exactly if it is their encoding, so
  elements have one written form.
-/

namespace MessageCrypto.Der

/-! ### Tags -/

/-- A tag. Those that a key or a signature gives a meaning have a name of their own; `other` holds
the octet of one that may stand where any element may. -/
inductive Tag where
  | integer
  | bitString
  | octetString
  | null
  | objectIdentifier
  | sequence
  | context (constructed : Bool) (number : Nat)
  | other (octet : UInt8)
  deriving DecidableEq

namespace Tag

/-- The universal tags without a name in `Tag` that an element may carry. -/
def otherUniversal : List UInt8 :=
  [0x01, 0x09, 0x0a, 0x0c, 0x12, 0x13, 0x14, 0x15, 0x16, 0x17, 0x18, 0x1a, 0x1d, 0x31]

/-- A tag has one octet: the class in two bits, whether it is constructed in one, and the number
in five, not all of them set. -/
def ofOctet? (x : UInt8) : Option Tag :=
  if x = 0x02 then some integer
  else if x = 0x03 then some bitString
  else if x = 0x04 then some octetString
  else if x = 0x05 then some null
  else if x = 0x06 then some objectIdentifier
  else if x = 0x30 then some sequence
  else if x < 0x40 then if x ∈ otherUniversal then some (other x) else none
  else if x &&& 0x1f = 0x1f then none
  else if x &&& 0xc0 = 0x80 then some (context (x &&& 0x20 != 0) (x &&& 0x1f).toNat)
  else some (other x)

def toOctet : Tag → UInt8
  | integer => 0x02
  | bitString => 0x03
  | octetString => 0x04
  | null => 0x05
  | objectIdentifier => 0x06
  | sequence => 0x30
  | context constructed number => (if constructed then 0xa0 else 0x80) + UInt8.ofNat number
  | other octet => octet

/-- The tag is the one that its octet is read as. -/
def IsValid (t : Tag) : Prop := ofOctet? t.toOctet = some t

instance (t : Tag) : Decidable t.IsValid := inferInstanceAs (Decidable (_ = _))

theorem toOctet_of_ofOctet? {x : UInt8} {t : Tag} (h : ofOctet? x = some t) : t.toOctet = x := by
  have all : ∀ i : Fin 256, ∀ t ∈ ofOctet? (UInt8.ofFin i), t.toOctet = UInt8.ofFin i := by
    decide +kernel
  exact all x.toFin t h

theorem isValid_of_ofOctet? {x : UInt8} {t : Tag} (h : ofOctet? x = some t) : t.IsValid := by
  rw [IsValid, toOctet_of_ofOctet? h, h]

end Tag

/-! ### Lengths -/

/-- The greatest length of a content. -/
def maxLength : Nat := 0x0fffffff

/-- A length below 128 in one octet, any other as its octets behind their number plus 128. -/
def lengthOctets (n : Nat) : Bytes :=
  if n < 0x80 then [UInt8.ofNat n]
  else
    let width := n.log2 / 8 + 1
    UInt8.ofNat (0x80 + width) :: Bytes.ofNat width n

/-- The length that stands in front, in its one form, and what follows it. -/
def readLength : Bytes → Option (Nat × Bytes)
  | [] => none
  | x :: rest =>
    let width := x.toNat - 0x80
    let n := if x < 0x80 then x.toNat else Bytes.toNat (rest.take width)
    if lengthOctets n = x :: rest.take width ∧ n ≤ maxLength then some (n, rest.drop width)
    else none

theorem eq_append_of_readLength {b rest : Bytes} {n : Nat} (h : readLength b = some (n, rest)) :
    b = lengthOctets n ++ rest ∧ n ≤ maxLength := by
  cases b with
  | nil => simp [readLength] at h
  | cons x b =>
    simp only [readLength, Option.ite_none_right_eq_some, Option.some.injEq, Prod.mk.injEq] at h
    obtain ⟨⟨hform, hmax⟩, hn, rfl⟩ := h
    rw [hn] at hform hmax
    refine ⟨?_, hmax⟩
    rw [hform, List.cons_append, List.take_append_drop]

theorem readLength_append {n : Nat} (hn : n ≤ maxLength) (rest : Bytes) :
    readLength (lengthOctets n ++ rest) = some (n, rest) := by
  by_cases hs : n < 0x80
  · have hx : (UInt8.ofNat n).toNat = n := by rw [UInt8.toNat_ofNat']; omega
    have hlt : UInt8.ofNat n < 0x80 := by rw [UInt8.lt_iff_toNat_lt, hx]; exact hs
    simp [readLength, lengthOctets, hs, hx, hlt, hn, show n - 128 = 0 by omega]
  · have hw : n.log2 / 8 + 1 ≤ 4 := by
      have : n.log2 < 28 := (Nat.log2_lt (by omega)).2 (by unfold maxLength at hn; omega)
      omega
    have hpow : n < Nat.pow 256 (n.log2 / 8 + 1) := Bytes.lt_pow_of_log2_lt (by omega)
    generalize hwd : n.log2 / 8 + 1 = w at hw hpow
    have hx : (UInt8.ofNat (0x80 + w)).toNat = 0x80 + w := by rw [UInt8.toNat_ofNat']; omega
    have hge : ¬ UInt8.ofNat (0x80 + w) < 0x80 := by
      rw [UInt8.lt_iff_toNat_lt, hx]; simp
    have htake : (Bytes.ofNat w n ++ rest).take w = Bytes.ofNat w n := by simp
    have hdrop : (Bytes.ofNat w n ++ rest).drop w = rest := by simp
    have hnat : Bytes.toNat (Bytes.ofNat w n) = n := by
      rw [Bytes.toNat_ofNat, Nat.mod_eq_of_lt hpow]
    have hoct : lengthOctets n = UInt8.ofNat (0x80 + w) :: Bytes.ofNat w n := by
      simp [lengthOctets, hs, hwd]
    simp only [hoct, List.cons_append, readLength, hx, hge, if_false,
      show 0x80 + w - 0x80 = w by omega, htake, hdrop, hnat]
    simp [hn]

/-! ### Elements -/

/-- A tag and a content. -/
structure Element where
  tag : Tag
  content : Bytes
  deriving DecidableEq

def Element.encode (e : Element) : Bytes :=
  e.tag.toOctet :: (lengthOctets e.content.length ++ e.content)

/-- An encoding as a whole, none if it is longer than what a writer counts. -/
def written? (b : Bytes) : Option Bytes := if b.length ≤ maxLength then some b else none

/-- The element that stands in front, and what follows it. -/
def readElement : Bytes → Option (Element × Bytes)
  | [] => none
  | x :: rest => do
    let tag ← Tag.ofOctet? x
    let (n, rest) ← readLength rest
    if n ≤ rest.length then some (⟨tag, rest.take n⟩, rest.drop n) else none

/-- The encoding of elements in a row. -/
def encode (es : List Element) : Bytes := es.flatMap Element.encode

/-- All of a byte string as elements, `bound` of them at most. -/
def elementsWithin? : (bound : Nat) → Bytes → Option (List Element)
  | _, [] => some []
  | 0, _ => none
  | k + 1, b => do
    let (e, rest) ← readElement b
    let es ← elementsWithin? k rest
    some (e :: es)

/-- All of a byte string as elements; there are no more of them than bytes. -/
def elements? (b : Bytes) : Option (List Element) := elementsWithin? b.length b

/-! ### One written form -/

/-- An element that can be read back. -/
structure Element.IsValid (e : Element) : Prop where
  tag : e.tag.IsValid
  length : e.content.length ≤ maxLength

theorem readElement_append {e : Element} (he : e.IsValid) (rest : Bytes) :
    readElement (e.encode ++ rest) = some (e, rest) := by
  have ht : Tag.ofOctet? e.tag.toOctet = some e.tag := he.tag
  simp [readElement, Element.encode, ht, readLength_append he.length]

theorem eq_append_of_readElement {b rest : Bytes} {e : Element}
    (h : readElement b = some (e, rest)) : b = e.encode ++ rest ∧ e.IsValid := by
  cases b with
  | nil => simp [readElement] at h
  | cons x b =>
    simp only [readElement, Option.bind_eq_bind, Option.bind_eq_some_iff, Prod.exists,
      Option.ite_none_right_eq_some, Option.some.injEq, Prod.mk.injEq] at h
    obtain ⟨tag, htag, n, b', hlen, hfit, rfl, rfl⟩ := h
    obtain ⟨rfl, hn⟩ := eq_append_of_readLength hlen
    have hl : (b'.take n).length = n := by simp [hfit]
    refine ⟨?_, ⟨Tag.isValid_of_ofOctet? htag, by rw [hl]; exact hn⟩⟩
    simp only [Element.encode, hl, Tag.toOctet_of_ofOctet? htag, List.cons_append,
      List.append_assoc, List.take_append_drop]

theorem elementsWithin?_encode {es : List Element} (hes : ∀ e ∈ es, e.IsValid) {bound : Nat}
    (hb : es.length ≤ bound) : elementsWithin? bound (encode es) = some es := by
  induction es generalizing bound with
  | nil => cases bound <;> rfl
  | cons e es ih =>
    obtain ⟨k, rfl⟩ : ∃ k, bound = k + 1 := ⟨bound - 1, by simp at hb; omega⟩
    have he := readElement_append (hes e (by simp)) (encode es)
    have hk : es.length ≤ k := by simpa using hb
    have ih := ih (fun e h => hes e (by simp [h])) hk
    have hcons : encode (e :: es) = e.encode ++ encode es := by simp [encode]
    obtain ⟨x, b, hb⟩ : ∃ x b, e.encode ++ encode es = x :: b := ⟨_, _, rfl⟩
    rw [hcons, hb, elementsWithin?, ← hb, he]
    · simp [ih]
    · simp

theorem eq_encode_of_elementsWithin? {bound : Nat} {b : Bytes} {es : List Element}
    (h : elementsWithin? bound b = some es) : b = encode es ∧ ∀ e ∈ es, e.IsValid := by
  induction bound generalizing b es with
  | zero =>
    cases b with
    | nil =>
      obtain rfl := Option.some.inj h
      simp [encode]
    | cons x b => simp [elementsWithin?] at h
  | succ k ih =>
    cases b with
    | nil =>
      obtain rfl := Option.some.inj h
      simp [encode]
    | cons x b =>
      simp only [elementsWithin?, Option.bind_eq_bind, Option.bind_eq_some_iff, Prod.exists,
        Option.some.injEq] at h
      obtain ⟨e, rest, he, es', hes, rfl⟩ := h
      obtain ⟨hb, hv⟩ := eq_append_of_readElement he
      obtain ⟨rfl, hvs⟩ := ih hes
      exact ⟨by rw [hb]; simp [encode], by simpa using ⟨hv, hvs⟩⟩

theorem length_le_length_encode (es : List Element) : es.length ≤ (encode es).length := by
  induction es with
  | nil => simp
  | cons e es ih =>
    simp only [encode, List.flatMap_cons, Element.encode, List.length_append,
      List.length_cons] at ih ⊢
    omega

/-- Elements have one written form, and only it is read. -/
theorem elements?_eq_some_iff {b : Bytes} {es : List Element} :
    elements? b = some es ↔ b = encode es ∧ ∀ e ∈ es, e.IsValid := by
  constructor
  · exact eq_encode_of_elementsWithin?
  · rintro ⟨rfl, hes⟩
    exact elementsWithin?_encode hes (length_le_length_encode es)

end MessageCrypto.Der
