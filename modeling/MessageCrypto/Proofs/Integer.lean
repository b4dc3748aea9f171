import MessageCrypto.Integer
import MessageCrypto.Proofs.Call.Failure
import MessageCrypto.Proofs.Der.Integer

/-! # The bytes of an integer

What is read of a byte string is its padded form: four bytes, the string at the end of them. These
are the bytes that the integer is written in, so two strings are read as one integer exactly if
their padded forms are equal, and one string of four bytes stands for each integer.

* `padded`, `signedValue`: zeros in front up to four bytes; the value in two's complement.
* `decode_eq_ok_iff`: an integer is read exactly from the strings that are padded to its bytes.
* `integers_are_padded_bytes`: with the value, its sign, and the two round trips. -/

namespace MessageCrypto.Integer

variable {bytes : Bytes} {v : Int32}

/-- The bytes with zeros in front, up to the size of an integer. -/
def padded (bytes : Bytes) : Bytes := List.replicate (size - bytes.length) 0 ++ bytes

/-- **The value in two's complement**: a first bit that is set counts negatively. -/
def signedValue (bytes : Bytes) : ℤ :=
  if bytes.headD 0 < 0x80 then Bytes.toNat bytes else Bytes.toNat bytes - 256 ^ bytes.length

/-! ### Padding -/

theorem length_padded (h : bytes.length ≤ size) : (padded bytes).length = size := by
  rw [padded, List.length_append, List.length_replicate]
  omega

theorem padded_of_length_eq (h : bytes.length = size) : padded bytes = bytes := by
  rw [padded, h, Nat.sub_self, List.replicate_zero, List.nil_append]

theorem toNat_padded (bytes : Bytes) : Bytes.toNat (padded bytes) = Bytes.toNat bytes := by
  rw [padded]
  induction size - bytes.length with
  | zero => rfl
  | succ k ih => rw [List.replicate_succ, List.cons_append, Bytes.toNat_zero_cons, ih]

/-- A string that is padded at all has a zero in front. -/
theorem headD_padded (h : bytes.length < size) : (padded bytes).headD 0 = 0 := by
  obtain ⟨k, hk⟩ := Nat.exists_eq_add_one_of_ne_zero (Nat.sub_ne_zero_of_lt h)
  rw [padded, hk, List.replicate_succ]
  rfl

/-! ### Reading and writing -/

theorem toNat_encode (v : Int32) : Bytes.toNat (encode v) = v.toUInt32.toNat := by
  rw [encode, Bytes.toNat_ofNat]
  exact Nat.mod_eq_of_lt v.toUInt32.toNat_lt

theorem length_encode (v : Int32) : (encode v).length = size := Bytes.length_ofNat _ _

theorem encode_injective : Function.Injective encode := by
  intro v w h
  have hdecode := congrArg decode h
  rw [decode_encode, decode_encode] at hdecode
  exact Except.ok.inj hdecode

/-- **An integer is read exactly from the strings that are padded to its bytes.** -/
theorem decode_eq_ok_iff :
    decode bytes = .ok v ↔ bytes.length ≤ size ∧ encode v = padded bytes := by
  by_cases h : bytes.length ≤ size
  · have hlt : Bytes.toNat bytes < 256 ^ size := by
      rw [← toNat_padded, ← length_padded h]
      exact Bytes.toNat_lt _
    have hread : decode bytes = .ok (UInt32.ofNat (Bytes.toNat bytes)).toInt32 := if_pos h
    have hwrite : encode (UInt32.ofNat (Bytes.toNat bytes)).toInt32 = padded bytes := by
      refine (Bytes.ofNat_eq_iff (length_padded h) (UInt32.toNat_lt _)).2 ?_
      rw [UInt32.toUInt32_toInt32, UInt32.toNat_ofNat_of_lt' hlt, toNat_padded]
    rw [hread, Except.ok.injEq, and_iff_right h, ← hwrite, encode_injective.eq_iff, eq_comm]
  · rw [decode, if_neg h]
    constructor
    · rintro ⟨⟩
    · intro hpadded
      exact absurd hpadded.1 h

theorem exists_decode (h : bytes.length ≤ size) : ∃ v, decode bytes = .ok v := ⟨_, if_pos h⟩

/-! ### Signs -/

/-- The bit in front says whether an integer is negative. -/
theorem toInt_eq_signedValue (v : Int32) : v.toInt = signedValue (encode v) := by
  obtain ⟨x, rest, hbytes⟩ := List.exists_cons_of_length_eq_add_one (length_encode v)
  have hrest : rest.length = 3 := by
    have := length_encode v
    rw [hbytes, List.length_cons] at this
    exact Nat.succ.inj this
  have hfirst : x < 0x80 ↔ Bytes.toNat (encode v) < 128 * 256 ^ rest.length := by
    rw [hbytes]
    exact Der.nonneg_iff
  have hcond : v.toInt = if 2 * v.toUInt32.toNat < 2 ^ 32 then (v.toUInt32.toNat : ℤ)
      else v.toUInt32.toNat - (2 ^ 32 : ℕ) := BitVec.toInt_eq_toNat_cond v.toBitVec
  have hhead : (encode v).headD 0 = x := by rw [hbytes, List.headD_cons]
  rw [hrest, toNat_encode] at hfirst
  rw [hcond, signedValue, hhead, toNat_encode, length_encode]
  by_cases hx : x < 0x80
  · have hsmall := hfirst.1 hx
    rw [if_pos hx, if_pos (by omega)]
  · have hlarge := mt hfirst.2 hx
    rw [if_neg hx, if_neg (by omega)]
    rfl

theorem signedValue_nonneg (h : bytes.headD 0 < 0x80) : 0 ≤ signedValue bytes := by
  rw [signedValue, if_pos h]
  exact Int.natCast_nonneg _

/-! ### Main statement -/

/-- **An integer is its padded bytes.** More than four bytes are refused, as invalid input. Any other
string is read as the value in two's complement of its padded form, which is what that value is
written as; so fewer than four bytes are never negative. Every integer is read back from what it is
written as. Two strings are read as one integer exactly if their padded forms are equal, and of four
bytes only those that are written stand for an integer. -/
theorem integers_are_padded_bytes :
    (∀ bytes, ((∃ e, decode bytes = .error e) ↔ size < bytes.length) ∧
      ∀ e, decode bytes = .error e → e.kind = .invalidInput) ∧
    (∀ bytes, bytes.length ≤ size → ∃ v, decode bytes = .ok v ∧
      v.toInt = signedValue (padded bytes) ∧ encode v = padded bytes ∧
      (bytes.length < size → 0 ≤ v.toInt)) ∧
    (∀ v, decode (encode v) = .ok v) ∧
    (∀ a b, a.length ≤ size → b.length ≤ size → (decode a = decode b ↔ padded a = padded b)) ∧
    ∀ v bytes, bytes.length = size → (decode bytes = .ok v ↔ bytes = encode v) := by
  refine ⟨fun bytes => ⟨?_, fun e he => ?_⟩, fun bytes h => ?_, decode_encode, fun a b ha hb => ?_,
    fun v bytes h => ?_⟩
  · simp only [decode_eq_error_iff, exists_and_left, exists_eq, and_true]
  · rw [(decode_eq_error_iff.1 he).2]
    rfl
  · obtain ⟨v, hv⟩ := exists_decode h
    have hwrite := (decode_eq_ok_iff.1 hv).2
    have hvalue : v.toInt = signedValue (padded bytes) := hwrite ▸ toInt_eq_signedValue v
    refine ⟨v, hv, hvalue, hwrite, fun hshort => ?_⟩
    rw [hvalue]
    exact signedValue_nonneg (by rw [headD_padded hshort]; decide)
  · obtain ⟨v, hv⟩ := exists_decode ha
    rw [hv, eq_comm, decode_eq_ok_iff, and_iff_right hb, (decode_eq_ok_iff.1 hv).2]
  · rw [decode_eq_ok_iff, padded_of_length_eq h, and_iff_right h.le, eq_comm]

/-- Five bytes with a zero in front are refused; three bytes with the first bit set are positive, and
the same with a byte in front that is zero; four bytes with the first bit set are negative. -/
theorem integers_are_padded_bytes_first_bit :
    (∃ e, decode [0, 0, 0x81, 0xa3, 0x99] = .error e ∧ e.kind = .invalidInput) ∧
    (∃ v, decode [0x81, 0xa3, 0x99] = .ok v ∧ v.toInt = 0x81a399 ∧
      encode v = [0, 0x81, 0xa3, 0x99] ∧ 0 ≤ v.toInt) ∧
    decode [0x81, 0xa3, 0x99] = decode [0, 0x81, 0xa3, 0x99] ∧
    (∃ v, decode [0xe0, 0, 0, 0] = .ok v ∧ v.toInt = -0x20000000) ∧
    decode [0xff, 0xff, 0xff, 0xff] = .ok (-1) := by
  obtain ⟨hfails, hreads, -, hsame, honly⟩ := integers_are_padded_bytes
  refine ⟨?_, ?_, (hsame _ _ (by decide) (by decide)).2 rfl, ?_, (honly _ _ rfl).2 rfl⟩
  · obtain ⟨e, he⟩ := (hfails [0, 0, 0x81, 0xa3, 0x99]).1.2 (by decide)
    exact ⟨e, he, (hfails _).2 e he⟩
  · obtain ⟨v, hv, hvalue, hwrite, hnonneg⟩ := hreads [0x81, 0xa3, 0x99] (by decide)
    exact ⟨v, hv, hvalue, hwrite, hnonneg (by decide)⟩
  · obtain ⟨v, hv, hvalue, -, -⟩ := hreads [0xe0, 0, 0, 0] (by decide)
    exact ⟨v, hv, hvalue⟩

end MessageCrypto.Integer
