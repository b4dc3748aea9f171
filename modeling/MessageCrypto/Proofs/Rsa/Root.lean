import MessageCrypto.Proofs.Prime
import MessageCrypto.Rsa.Signature

/-! # Roots modulo the product of two primes

The root of a number is taken modulo each factor and put together from the two remainders. With
distinct primes for factors, powers by exponents that are inverse modulo each prime less one undo
each other, for every number and not only for those coprime to the modulus.

* `cast_combine_left`, `cast_combine_right`: the remainders of what is put together.
* `PrivateKey.root_lt`: a root is below the modulus, whatever the factors are.
* `PrivateKey.HasPrimeFactors.powerMod_root`, `PrivateKey.HasPrimeFactors.eq_of_powerMod_eq`: a root
  exists and is the only one. -/

namespace MessageCrypto.Rsa

/-! ### Inverses -/

/-- The invariant of Euclid's algorithm: the coefficients give the greatest common divisor. -/
theorem bezout_eq_gcd (a b : ℕ) : (bezout a b).1 * a + (bezout a b).2 * b = Nat.gcd a b := by
  fun_induction bezout a b with
  | case1 a => simp
  | case2 a b hb hlt x y hxy ih =>
    have hdiv : (b : ℤ) * (a / b) + (a : ℤ) % b = a := Int.mul_ediv_add_emod _ _
    have hgcd : Nat.gcd a b = Nat.gcd b (a % b) := by
      rw [Nat.gcd_comm, Nat.gcd_rec, Nat.gcd_comm]
    rw [hxy, Int.natCast_mod] at ih
    rw [hgcd, ← ih]
    linear_combination -y * hdiv

theorem cast_inverseMod_mul {a m : ℕ} (hm : 0 < m) (h : Nat.Coprime a m) :
    (inverseMod a m : ZMod m) * a = 1 := by
  have hnonneg : 0 ≤ (bezout a m).1 % m := Int.emod_nonneg _ (by omega)
  have hcast : (inverseMod a m : ZMod m) = (bezout a m).1 := by
    rw [inverseMod, ← Int.cast_natCast, Int.toNat_of_nonneg hnonneg, ZMod.intCast_mod]
  have hbezout := congrArg (Int.cast : ℤ → ZMod m) (bezout_eq_gcd a m)
  rw [Nat.Coprime] at h
  simpa only [h, Int.cast_add, Int.cast_mul, Int.cast_natCast, ZMod.natCast_self, mul_zero,
    add_zero, Nat.cast_one, Int.cast_one, hcast] using hbezout

theorem inverseMod_lt (a : ℕ) {m : ℕ} (hm : 0 < m) : inverseMod a m < m := by
  have hnonneg : 0 ≤ (bezout a m).1 % m := Int.emod_nonneg _ (by omega)
  have hlt : (bezout a m).1 % m < m := Int.emod_lt_of_pos _ (by omega)
  unfold inverseMod
  omega

/-! ### Numbers from their remainders -/

section
variable {p q x y : ℕ}

theorem cast_combine_left (hp : 0 < p) (h : Nat.Coprime q p) : (combine p q x y : ZMod p) = x := by
  have hle : y % p ≤ x + p := (Nat.mod_lt y hp).le.trans (Nat.le_add_left p x)
  have hinverse := cast_inverseMod_mul hp h
  simp only [combine, Nat.cast_add, Nat.cast_mul, ZMod.natCast_mod, Nat.cast_sub hle,
    ZMod.natCast_self, add_zero]
  linear_combination (x - y : ZMod p) * hinverse

theorem cast_combine_right : (combine p q x y : ZMod q) = y := by
  simp only [combine, Nat.cast_add, Nat.cast_mul, ZMod.natCast_self, mul_zero, zero_add]

theorem combine_lt (hp : 0 < p) (hy : y < q) : combine p q x y < p * q := by
  have ht : (x + p - y % p) * inverseMod q p % p < p := Nat.mod_lt _ hp
  calc combine p q x y < (x + p - y % p) * inverseMod q p % p * q + q := Nat.add_lt_add_left hy _
    _ = ((x + p - y % p) * inverseMod q p % p + 1) * q := (Nat.succ_mul _ _).symm
    _ ≤ p * q := Nat.mul_le_mul_right q ht

end

/-! ### Exponents that undo each other -/

section
variable {r e d : ℕ} [Fact r.Prime]

/-- Fermat's theorem for an exponent that is 1 modulo the prime less one; zero is no exception,
since such an exponent is not zero. -/
theorem pow_eq_self {k : ℕ} (hk : k % (r - 1) = 1) (x : ZMod r) : x ^ k = x := by
  have hk0 : k ≠ 0 := by
    rintro rfl
    simp at hk
  by_cases hx : x = 0
  · rw [hx, zero_pow hk0]
  · have hdiv : k = (r - 1) * (k / (r - 1)) + 1 := by
      have h := Nat.div_add_mod k (r - 1)
      omega
    rw [hdiv, pow_succ, pow_mul, ZMod.pow_card_sub_one_eq_one hx, one_pow, one_mul]

theorem pow_pow_eq_self (hed : e * d % (r - 1) = 1) (x : ZMod r) :
    (x ^ (d % (r - 1))) ^ e = x := by
  have hmod : e * (d % (r - 1)) ≡ e * d [MOD r - 1] := (Nat.mod_modEq d (r - 1)).mul_left e
  rw [← pow_mul, mul_comm]
  exact pow_eq_self (Eq.trans hmod hed) x

theorem modEq_of_pow_modEq (hed : e * d % (r - 1) = 1) {s t : ℕ} (h : s ^ e ≡ t ^ e [MOD r]) :
    s ≡ t [MOD r] := by
  have hd := h.pow d
  rw [← pow_mul, ← pow_mul, ← ZMod.natCast_eq_natCast_iff, Nat.cast_pow, Nat.cast_pow,
    pow_eq_self hed, pow_eq_self hed, ZMod.natCast_eq_natCast_iff] at hd
  exact hd

end

/-! ### Valid keys -/

theorem PublicKey.isValid_iff {k : PublicKey} : k.isValid = true ↔
    k.modulus % 2 = 1 ∧ k.exponent < k.modulus ∧ k.exponent % 2 = 1 ∧ 2 ≤ k.exponent ∧
      k.exponent.log2 < 33 := by
  simp only [isValid, Bool.and_eq_true, beq_iff_eq, decide_eq_true_eq, and_assoc]

namespace PrivateKey

variable {k : PrivateKey}

theorem isValid_iff : k.isValid = true ↔
    k.toPublicKey.isValid = true ∧ k.p * k.q = k.modulus ∧
      k.exponent * k.inverse % (k.p - 1) = 1 ∧ k.exponent * k.inverse % (k.q - 1) = 1 := by
  simp only [isValid, Bool.and_eq_true, beq_iff_eq, and_assoc]

section Valid
variable (h : k.isValid = true)
include h

theorem modulus_eq : k.p * k.q = k.modulus := (isValid_iff.1 h).2.1

theorem modulus_pos : 0 < k.modulus := by
  have hodd := (PublicKey.isValid_iff.1 (isValid_iff.1 h).1).1
  omega

theorem p_pos : 0 < k.p := by
  refine Nat.pos_of_ne_zero fun h0 => ?_
  have hpos := modulus_pos h
  rw [← modulus_eq h, h0, zero_mul] at hpos
  omega

theorem q_pos : 0 < k.q := by
  refine Nat.pos_of_ne_zero fun h0 => ?_
  have hpos := modulus_pos h
  rw [← modulus_eq h, h0, mul_zero] at hpos
  omega

theorem root_lt (m : ℕ) : k.root m < k.modulus := by
  unfold root
  split_ifs with hcoprime
  · rw [← modulus_eq h]
    refine combine_lt (p_pos h) ?_
    rw [powerMod_eq]
    exact Nat.mod_lt _ (q_pos h)
  · rw [powerMod_eq]
    exact Nat.mod_lt _ (modulus_pos h)

end Valid

/-- **A key whose factors are distinct primes.** Reading a key does not check this. -/
structure HasPrimeFactors (k : PrivateKey) : Prop where
  valid : k.isValid = true
  prime_p : k.p.Prime
  prime_q : k.q.Prime
  ne : k.p ≠ k.q

namespace HasPrimeFactors

variable (h : k.HasPrimeFactors)
include h

theorem coprime : Nat.Coprime k.p k.q := (Nat.coprime_primes h.prime_p h.prime_q).2 h.ne

/-- Numbers that agree modulo both factors agree modulo their product. -/
theorem modEq_of_modEq {s t : ℕ} (hp : s ≡ t [MOD k.p]) (hq : s ≡ t [MOD k.q]) :
    s ≡ t [MOD k.modulus] := by
  rw [← modulus_eq h.valid]
  exact (Nat.modEq_and_modEq_iff_modEq_mul h.coprime).1 ⟨hp, hq⟩

theorem root_pow_modEq (m : ℕ) : k.root m ^ k.exponent ≡ m [MOD k.modulus] := by
  obtain ⟨-, -, hedp, hedq⟩ := isValid_iff.1 h.valid
  have hp : Fact k.p.Prime := ⟨h.prime_p⟩
  have hq : Fact k.q.Prime := ⟨h.prime_q⟩
  have hroot : k.root m = combine k.p k.q (powerMod k.p m (k.inverse % (k.p - 1)))
      (powerMod k.q m (k.inverse % (k.q - 1))) := if_pos h.coprime
  refine h.modEq_of_modEq ?_ ?_
  · rw [← ZMod.natCast_eq_natCast_iff, Nat.cast_pow, hroot,
      cast_combine_left h.prime_p.pos h.coprime.symm, cast_powerMod dvd_rfl]
    exact pow_pow_eq_self hedp _
  · rw [← ZMod.natCast_eq_natCast_iff, Nat.cast_pow, hroot, cast_combine_right,
      cast_powerMod dvd_rfl]
    exact pow_pow_eq_self hedq _

/-- **A root is one**: its power is the number, if that is below the modulus. -/
theorem powerMod_root {m : ℕ} (hm : m < k.modulus) :
    powerMod k.modulus (k.root m) k.exponent = m := by
  rw [powerMod_eq, h.root_pow_modEq m, Nat.mod_eq_of_lt hm]

/-- **Roots are unique** below the modulus. -/
theorem eq_of_powerMod_eq {s t : ℕ} (hs : s < k.modulus) (ht : t < k.modulus)
    (heq : powerMod k.modulus s k.exponent = powerMod k.modulus t k.exponent) : s = t := by
  obtain ⟨-, -, hedp, hedq⟩ := isValid_iff.1 h.valid
  have hp : Fact k.p.Prime := ⟨h.prime_p⟩
  have hq : Fact k.q.Prime := ⟨h.prime_q⟩
  have hpow : s ^ k.exponent ≡ t ^ k.exponent [MOD k.p * k.q] := by
    rw [modulus_eq h.valid]
    rwa [powerMod_eq, powerMod_eq] at heq
  have hmod := h.modEq_of_modEq (modEq_of_pow_modEq hedp hpow.of_mul_right)
    (modEq_of_pow_modEq hedq hpow.of_mul_left)
  exact hmod.eq_of_lt_of_lt hs ht

end HasPrimeFactors

end PrivateKey

end MessageCrypto.Rsa
