import MessageCrypto.Der.Element

/-!
# Values in DER

How the contents of elements hold numbers, bit strings of whole bytes, names of algorithms and
further elements. Each kind of value has a constructor `Element.…` and a reader `Element.…?`.

* `Element.unsigned?_unsigned`, `Element.eq_unsigned_of_unsigned?`: a number has one written form.
-/

namespace MessageCrypto.Der

namespace Element

/-! ### Numbers -/

/-- The shortest content whose first bit is zero. -/
def unsignedContent (n : Nat) : Bytes := Bytes.ofNat ((n.log2 + 1) / 8 + 1) n

def unsigned (n : Nat) : Element := ⟨.integer, unsignedContent n⟩

def unsigned? : Element → Option Nat
  | ⟨.integer, content⟩ =>
    let n := Bytes.toNat content
    if unsignedContent n = content then some n else none
  | _ => none

theorem toNat_unsignedContent (n : Nat) : Bytes.toNat (unsignedContent n) = n := by
  rw [unsignedContent, Bytes.toNat_ofNat]
  apply Nat.mod_eq_of_lt
  exact Bytes.lt_pow_of_log2_lt (by omega)

@[simp] theorem length_unsignedContent (n : Nat) :
    (unsignedContent n).length = (n.log2 + 1) / 8 + 1 := Bytes.length_ofNat _ _

@[simp] theorem unsigned?_unsigned (n : Nat) : (unsigned n).unsigned? = some n := by
  simp [unsigned, unsigned?, toNat_unsignedContent]

theorem eq_unsigned_of_unsigned? {e : Element} {n : Nat} (h : e.unsigned? = some n) :
    e = unsigned n := by
  unfold unsigned? at h
  split at h
  case h_1 content =>
    obtain ⟨hc, rfl⟩ := Option.ite_none_right_eq_some.1 h |>.imp id Option.some.inj
    rw [unsigned, hc]
  case h_2 => simp at h

theorem unsigned?_eq_some_iff {e : Element} {n : Nat} : e.unsigned? = some n ↔ e = unsigned n :=
  ⟨eq_unsigned_of_unsigned?, fun h => h ▸ unsigned?_unsigned n⟩

/-- A row of elements is read as numbers exactly if it is written from them. -/
theorem mapM_unsigned?_eq_some_iff {es : List Element} {ns : List Nat} :
    es.mapM unsigned? = some ns ↔ es = ns.map unsigned := by
  induction es generalizing ns with
  | nil => cases ns <;> simp
  | cons e es ih =>
    simp only [List.mapM_cons, Option.pure_def, Option.bind_eq_bind, Option.bind_eq_some_iff,
      unsigned?_eq_some_iff, ih, Option.some.injEq]
    constructor
    · rintro ⟨n, rfl, ns, rfl, rfl⟩
      rfl
    · intro h
      cases ns with
      | nil => simp at h
      | cons n ns => exact ⟨n, by simpa using h⟩

/-! ### Containers -/

def sequence (es : List Element) : Element := ⟨.sequence, Der.encode es⟩

def sequence? : Element → Option (List Element)
  | ⟨.sequence, content⟩ => elements? content
  | _ => none

/-- An element wrapped in a context-specific tag. -/
def tagged (number : Nat) (e : Element) : Element := ⟨.context true number, e.encode⟩

/-- The element within one that holds exactly one. -/
def inner? (e : Element) : Option Element :=
  match elements? e.content with
  | some [e] => some e
  | _ => none

def octetString (b : Bytes) : Element := ⟨.octetString, b⟩

/-- A bit string of whole bytes: no bit of its last byte is unused. -/
def bitString (b : Bytes) : Element := ⟨.bitString, 0 :: b⟩

def bitString? : Element → Option Bytes
  | ⟨.bitString, 0 :: b⟩ => some b
  | _ => none

/-! ### Object identifiers -/

/-- Whether octets are a row of arcs in base 128, the last octet of each below 128. An arc has at
most five octets, and a fifth is below 16. `before` counts the octets of the arc so far. -/
def areArcs : (before : Nat) → Bytes → Bool
  | before, [] => before == 0
  | before, x :: rest =>
    if 4 ≤ before ∧ 16 ≤ x then false
    else areArcs (if x < 0x80 then 0 else before + 1) rest

/-- The octets of an object identifier: the first holds two arcs, and there are 3 to 39. -/
def isIdentifier : Bytes → Bool
  | [] => false
  | x :: rest => x < 120 && 2 ≤ rest.length && rest.length ≤ 38 && areArcs 0 rest

end Element

/-- The elements of a byte string that is one SEQUENCE. -/
def sequence? (b : Bytes) : Option (List Element) :=
  match elements? b with
  | some [e] => e.sequence?
  | _ => none

theorem encode_singleton (e : Element) : encode [e] = e.encode := by simp [encode]

theorem sequence?_eq_some_iff {b : Bytes} {es : List Element} :
    sequence? b = some es ↔
      b = (Element.sequence es).encode ∧ (∀ e ∈ es, e.IsValid) ∧
        (encode es).length ≤ maxLength := by
  constructor
  · intro h
    unfold sequence? at h
    split at h
    case h_2 => simp at h
    case h_1 e he =>
      obtain ⟨rfl, hv⟩ := elements?_eq_some_iff.1 he
      unfold Element.sequence? at h
      split at h
      case h_2 => simp at h
      case h_1 content =>
        obtain ⟨rfl, hes⟩ := elements?_eq_some_iff.1 h
        have hv := (hv ⟨.sequence, encode es⟩ (by simp)).length
        exact ⟨encode_singleton _, hes, hv⟩
  · rintro ⟨rfl, hes, hlen⟩
    have hv : (Element.sequence es).IsValid := ⟨rfl, hlen⟩
    have h := elements?_eq_some_iff.2 ⟨(encode_singleton (Element.sequence es)).symm, by simpa⟩
    rw [sequence?, h]
    exact elements?_eq_some_iff.2 ⟨rfl, hes⟩

end MessageCrypto.Der
