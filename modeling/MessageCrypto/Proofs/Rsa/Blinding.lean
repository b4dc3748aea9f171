import MessageCrypto.Proofs.Draw
import MessageCrypto.Proofs.Rsa.Root

/-! # Blinded roots

A root is taken with the power of a random unit on the number, and with the inverse of the unit on
what comes out. Which units can be drawn does not depend on the number of tries. The blinded root is
below the modulus, whatever the factors are; with distinct primes for factors it is the root itself,
so that the unit makes no difference. With other factors it may: a number may have a root with one
unit and none with another.

* `PublicKey.yields_drawUnit_iff`: the units that can be drawn.
* `PrivateKey.blindedRoot_lt`: a blinded root is below the modulus.
* `PrivateKey.HasPrimeFactors.blindedRoot_eq`: with distinct primes the unit is off again. -/

namespace MessageCrypto.Rsa

/-! ### The units -/

namespace PublicKey

variable {k : PublicKey} {r tries : ℕ}

/-- A number below the modulus is the candidate of its own bytes. -/
theorem unitCandidate_ofNat (hpos : 0 < r) (hlt : r < k.modulus) :
    k.unitCandidate (Bytes.ofNat k.size r) = r := by
  have hbits : k.modulus < 2 ^ (k.modulus.log2 + 1) := Nat.lt_log2_self
  have hwidth : r < Nat.pow 256 k.size := by
    refine hlt.trans (Bytes.lt_pow_of_log2_lt ?_)
    unfold size
    omega
  have hr : Bytes.toNat (Bytes.ofNat k.size r) % (1 <<< (k.modulus.log2 + 1)) = r := by
    rw [Nat.one_shiftLeft, Bytes.toNat_ofNat, Nat.mod_eq_of_lt hwidth,
      Nat.mod_eq_of_lt (hlt.trans hbits)]
  simp only [unitCandidate, hr]
  exact if_neg hpos.ne'

theorem isUnit_of_yields (hmodulus : 1 < k.modulus) (h : (k.drawUnit tries).Yields r) :
    r < k.modulus ∧ Nat.Coprime r k.modulus := by
  induction tries with
  | zero =>
    rw [drawUnit, Draw.yields_pure] at h
    rw [h]
    exact ⟨hmodulus, Nat.coprime_one_left _⟩
  | succ tries ih =>
    obtain ⟨bytes, -, h⟩ := Draw.yields_bind_iff.1 h
    simp only at h
    split_ifs at h with hunit
    · rw [Draw.yields_pure] at h
      rw [h]
      exact hunit
    · exact ih h

theorem yields_drawUnit (hmodulus : 1 < k.modulus) (hlt : r < k.modulus)
    (hcoprime : Nat.Coprime r k.modulus) (tries : ℕ) : (k.drawUnit (tries + 1)).Yields r := by
  have hpos : 0 < r := by
    refine Nat.pos_of_ne_zero fun h0 => ?_
    rw [h0, Nat.coprime_zero_left] at hcoprime
    omega
  refine Draw.yields_bind_iff.2 ⟨_, Draw.yields_bytes.2 (Bytes.length_ofNat k.size r), ?_⟩
  simp only [unitCandidate_ofNat hpos hlt]
  rw [if_pos ⟨hlt, hcoprime⟩, Draw.yields_pure]

/-- **The units that can be drawn**, with one try or more, are all that there are. -/
theorem yields_drawUnit_iff (hmodulus : 1 < k.modulus) (htries : tries ≠ 0) :
    (k.drawUnit tries).Yields r ↔ r < k.modulus ∧ Nat.Coprime r k.modulus := by
  obtain ⟨tries, rfl⟩ := Nat.exists_eq_succ_of_ne_zero htries
  exact ⟨isUnit_of_yields hmodulus, fun h => yields_drawUnit hmodulus h.1 h.2 tries⟩

end PublicKey

/-! ### The roots -/

namespace PrivateKey

variable {k : PrivateKey} {r m : ℕ}

theorem one_lt_modulus (h : k.isValid = true) : 1 < k.modulus := by
  obtain ⟨-, hlt, -, hle, -⟩ := PublicKey.isValid_iff.1 (isValid_iff.1 h).1
  omega

theorem blindedRoot_lt (h : k.isValid = true) : k.blindedRoot r m < k.modulus :=
  Nat.mod_lt _ (modulus_pos h)

/-- **Unblinding cancels**: with distinct primes the blinded root is the root, whatever the unit. Both
have the number for their power, and no two numbers below the modulus have. -/
theorem HasPrimeFactors.blindedRoot_eq (h : k.HasPrimeFactors) (hr : Nat.Coprime r k.modulus)
    (hm : m < k.modulus) : k.blindedRoot r m = k.root m := by
  refine h.eq_of_powerMod_eq (blindedRoot_lt h.valid) (root_lt h.valid m) ?_
  have hinverse : (inverseMod r k.modulus : ZMod k.modulus) * r = 1 :=
    cast_inverseMod_mul (modulus_pos h.valid) hr
  have hroot := h.root_pow_modEq (m * powerMod k.modulus r k.exponent % k.modulus)
  rw [← ZMod.natCast_eq_natCast_iff, Nat.cast_pow, ZMod.natCast_mod, Nat.cast_mul,
    cast_powerMod dvd_rfl] at hroot
  have hpower : k.blindedRoot r m ^ k.exponent ≡ m [MOD k.modulus] := by
    rw [← ZMod.natCast_eq_natCast_iff, Nat.cast_pow, blindedRoot, ZMod.natCast_mod, Nat.cast_mul,
      mul_pow, hroot]
    calc (m * (r : ZMod k.modulus) ^ k.exponent) * (inverseMod r k.modulus) ^ k.exponent
        = m * ((inverseMod r k.modulus) * r) ^ k.exponent := by ring
      _ = m := by rw [hinverse, one_pow, mul_one]
  rw [h.powerMod_root hm, powerMod_eq, hpower, Nat.mod_eq_of_lt hm]

/-- The factor 15 is no prime: 2 has a root with the unit 2, and none with the unit 1. -/
example : let k : PrivateKey := ⟨⟨105, 11⟩, 23, 15, 7⟩
    k.isValid = true ∧ powerMod 105 (k.blindedRoot 1 2) 11 ≠ 2 ∧
      powerMod 105 (k.blindedRoot 2 2) 11 = 2 := by
  decide +kernel

end PrivateKey

end MessageCrypto.Rsa
