import MessageCrypto.Bytes

/-!
# Hexadecimal text

A byte is written as two digits in lower case; digits of both cases are read. A text that is not
hexadecimal is refused for its odd length or else for its first character that is no digit, which
is shown as the byte at that place.

* `decode_encode`: reading undoes writing.
-/

namespace MessageCrypto.Hex

/-! ### Writing -/

/-- The digit of a number below sixteen. -/
def digit (k : Nat) : Char := Char.ofNat (if k < 10 then 48 + k else 87 + k)

def encode (bytes : Bytes) : String :=
  String.ofList (bytes.flatMap fun x => [digit (x.toNat / 16), digit (x.toNat % 16)])

theorem exists_digit_of_mem_encode {bytes : Bytes} {c : Char} (h : c ∈ (encode bytes).toList) :
    ∃ k < 16, c = digit k := by
  simp only [encode, String.toList_ofList, List.mem_flatMap, List.mem_cons, List.not_mem_nil,
    or_false] at h
  obtain ⟨x, -, rfl | rfl⟩ := h
  · exact ⟨_, by have := x.toNat_lt; omega, rfl⟩
  · exact ⟨_, by omega, rfl⟩

/-! ### Reading -/

/-- Why a text is not hexadecimal. -/
inductive Error where
  | oddLength
  | noDigit (byte : UInt8) (position : Nat)
  deriving DecidableEq

/-- The value of a digit of either case. -/
def value? (x : UInt8) : Option Nat :=
  if 48 ≤ x ∧ x ≤ 57 then some (x.toNat - 48)
  else if 65 ≤ x ∧ x ≤ 70 then some (x.toNat - 55)
  else if 97 ≤ x ∧ x ≤ 102 then some (x.toNat - 87)
  else none

/-- The bytes of pairs of digits, the first of which is at the given position. -/
def decodePairs : (position : Nat) → Bytes → Except Error Bytes
  | _, [] => .ok []
  | _, [_] => .error .oddLength
  | i, x :: y :: rest =>
    match value? x, value? y with
    | none, _ => .error (.noDigit x i)
    | some _, none => .error (.noDigit y (i + 1))
    | some high, some low => (UInt8.ofNat (16 * high + low) :: ·) <$> decodePairs (i + 2) rest

/-- The bytes that a text in UTF-8 stands for; its length is looked at first. -/
def decode (text : Bytes) : Except Error Bytes :=
  if text.length % 2 = 1 then .error .oddLength else decodePairs 0 text

/-! ### Reading undoes writing -/

theorem utf8EncodeChar_digit {k : Nat} (h : k < 16) :
    String.utf8EncodeChar (digit k) = [UInt8.ofNat (digit k).toNat] ∧
      value? (UInt8.ofNat (digit k).toNat) = some k := by
  have all : ∀ k : Fin 16, String.utf8EncodeChar (digit k) = [UInt8.ofNat (digit k).toNat] ∧
      value? (UInt8.ofNat (digit k).toNat) = some k.val := by
    decide +kernel
  exact all ⟨k, h⟩

/-- The two bytes that a byte is written as. -/
def pair (x : UInt8) : Bytes :=
  [UInt8.ofNat (digit (x.toNat / 16)).toNat, UInt8.ofNat (digit (x.toNat % 16)).toNat]

theorem ofString_encode (bytes : Bytes) : Bytes.ofString (encode bytes) = bytes.flatMap pair := by
  simp only [Bytes.ofString, encode, String.toList_ofList, List.flatMap_assoc]
  congr 1
  funext x
  have hx := x.toNat_lt
  simp [pair, (utf8EncodeChar_digit (show x.toNat / 16 < 16 by omega)).1,
    (utf8EncodeChar_digit (show x.toNat % 16 < 16 by omega)).1]

theorem decodePairs_pairs (position : Nat) (bytes : Bytes) :
    decodePairs position (bytes.flatMap pair) = .ok bytes := by
  induction bytes generalizing position with
  | nil => rfl
  | cons x bytes ih =>
    have hx := x.toNat_lt
    have hbyte : UInt8.ofNat (16 * (x.toNat / 16) + x.toNat % 16) = x := by
      rw [Nat.div_add_mod, UInt8.ofNat_toNat]
    simp only [List.flatMap_cons, pair, List.cons_append, List.nil_append, decodePairs,
      (utf8EncodeChar_digit (show x.toNat / 16 < 16 by omega)).2,
      (utf8EncodeChar_digit (show x.toNat % 16 < 16 by omega)).2, ih, hbyte]
    rfl

theorem length_pairs (bytes : Bytes) : (bytes.flatMap pair).length = 2 * bytes.length := by
  induction bytes with
  | nil => rfl
  | cons x bytes ih =>
    simp only [List.flatMap_cons, List.length_append, ih, pair, List.length_cons, List.length_nil]
    omega

theorem decode_encode (bytes : Bytes) : decode (Bytes.ofString (encode bytes)) = .ok bytes := by
  rw [ofString_encode, decode, length_pairs, if_neg (by omega), decodePairs_pairs]

/-! ### Error texts -/

/-- The fewest hexadecimal digits of a byte. -/
def shortest (x : UInt8) : List Char :=
  if x < 16 then [digit x.toNat] else [digit (x.toNat / 16), digit (x.toNat % 16)]

/-- What a byte is shown as: the character with its number, or an escape if that is a quote, a
backslash, or has no visible form. -/
def shown (x : UInt8) : List Char :=
  match x.toNat with
  | 0 => "\\0".toList
  | 9 => "\\t".toList
  | 10 => "\\n".toList
  | 13 => "\\r".toList
  | 39 => "\\\x27".toList
  | 92 => "\\\\".toList
  | k =>
    if k < 0x20 ∨ (0x7f ≤ k ∧ k ≤ 0xa0) ∨ k = 0xad then
      "\\u\x7b".toList ++ shortest x ++ ['\x7d']
    else [Char.ofNat k]

/-- The character in quotes. -/
def quoted (x : UInt8) : String := String.ofList ('\x27' :: shown x ++ ['\x27'])

def Error.message : Error → String
  | oddLength => "Odd number of digits"
  | noDigit byte position =>
    "Invalid character " ++ quoted byte ++ " at position " ++ toString position

end MessageCrypto.Hex
