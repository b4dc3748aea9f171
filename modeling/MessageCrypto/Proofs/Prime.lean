import Mathlib.FieldTheory.Finite.Basic
import MessageCrypto.Proofs.Power

/-! # Primes by part of a factorization

Some prime factors of `N - 1` whose product exceeds the root of `N` show that `N` is prime, given a
base whose powers behave as those of an element of that order do modulo every prime divisor of `N`.
All that is to be computed are powers modulo `N` and greatest common divisors. -/

namespace MessageCrypto

theorem cast_powerMod {r N : ℕ} (hr : r ∣ N) (a k : ℕ) :
    ((powerMod N a k : ℕ) : ZMod r) = (a : ZMod r) ^ k := by
  rw [powerMod_eq, ← Nat.cast_pow, ZMod.natCast_eq_natCast_iff']
  exact Nat.mod_mod_of_dvd _ hr

/-- **What shows that `N` is prime** if the factors are: they divide `N - 1` and exceed the root of
`N`, and `a` has a power whose order is their product modulo every prime divisor of `N`. -/
structure IsCertificate (N a : ℕ) (factors : List ℕ) : Prop where
  one_lt : 1 < N
  dvd : factors.prod ∣ N - 1
  lt : N < factors.prod * factors.prod
  power : powerMod N a (N - 1) = 1
  coprime : ∀ q ∈ factors, Nat.Coprime (powerMod N a ((N - 1) / q) + (N - 1)) N

instance (N a : ℕ) (factors : List ℕ) : Decidable (IsCertificate N a factors) :=
  decidable_of_iff (1 < N ∧ factors.prod ∣ N - 1 ∧ N < factors.prod * factors.prod ∧
      powerMod N a (N - 1) = 1 ∧
      ∀ q ∈ factors, Nat.Coprime (powerMod N a ((N - 1) / q) + (N - 1)) N)
    ⟨fun ⟨h1, h2, h3, h4, h5⟩ => ⟨h1, h2, h3, h4, h5⟩, fun ⟨h1, h2, h3, h4, h5⟩ =>
      ⟨h1, h2, h3, h4, h5⟩⟩

namespace IsCertificate

variable {N a : ℕ} {factors : List ℕ} (h : IsCertificate N a factors)
include h

theorem prod_pos : 0 < factors.prod := by
  by_contra h0
  have hlt := h.lt
  rw [show factors.prod = 0 by omega] at hlt
  omega

/-- **The order of a power of the base** modulo a prime divisor of `N` is the product of the
factors: it divides that product, and without any one factor the power is not 1. -/
theorem orderOf_eq (hprime : ∀ q ∈ factors, q.Prime) {r : ℕ} (hr : r.Prime) (hrN : r ∣ N) :
    orderOf ((a : ZMod r) ^ ((N - 1) / factors.prod)) = factors.prod := by
  have hrp : Fact r.Prime := ⟨hr⟩
  refine orderOf_eq_of_pow_and_pow_div_prime h.prod_pos ?_ fun q hq hqF h1 => ?_
  · rw [← pow_mul, Nat.div_mul_cancel h.dvd, ← cast_powerMod hrN, h.power, Nat.cast_one]
  · obtain ⟨q', hq', hqq'⟩ := (Prime.dvd_prod_iff hq.prime).1 hqF
    obtain rfl := (Nat.prime_dvd_prime_iff_eq hq (hprime q' hq')).1 hqq'
    have hexp : (N - 1) / factors.prod * (factors.prod / q) = (N - 1) / q := by
      rw [← Nat.mul_div_assoc _ hqF, Nat.div_mul_cancel h.dvd]
    rw [← pow_mul, hexp] at h1
    -- then `r` divides a number that is coprime to `N`
    have hdiv : r ∣ powerMod N a ((N - 1) / q) + (N - 1) := by
      have hN := h.one_lt
      rw [← CharP.cast_eq_zero_iff (ZMod r) r, Nat.cast_add, cast_powerMod hrN, h1,
        ← Nat.cast_one, ← Nat.cast_add, CharP.cast_eq_zero_iff (ZMod r) r]
      rwa [show 1 + (N - 1) = N by omega]
    have hunit := Nat.dvd_gcd hdiv hrN
    rw [h.coprime q hq'] at hunit
    exact hr.one_lt.ne' (Nat.dvd_one.1 hunit)

theorem prod_lt_of_prime_dvd (hprime : ∀ q ∈ factors, q.Prime) {r : ℕ} (hr : r.Prime)
    (hrN : r ∣ N) : factors.prod < r := by
  have hrp : Fact r.Prime := ⟨hr⟩
  have horder := h.orderOf_eq hprime hr hrN
  set x := (a : ZMod r) ^ ((N - 1) / factors.prod)
  have hx0 : x ≠ 0 := by
    intro h0
    have hone := pow_orderOf_eq_one x
    rw [horder, h0, zero_pow h.prod_pos.ne'] at hone
    exact zero_ne_one hone
  have hdvd : factors.prod ∣ r - 1 := horder ▸ ZMod.orderOf_dvd_card_sub_one hx0
  have htwo := hr.two_le
  have hle := Nat.le_of_dvd (by omega) hdvd
  omega

end IsCertificate

/-- **A certificate shows a prime**: the least prime divisor would be below the root of `N`. -/
theorem prime_of_isCertificate {N : ℕ} (a : ℕ) (factors : List ℕ) (h : IsCertificate N a factors)
    (hprime : ∀ q ∈ factors, q.Prime) : N.Prime := by
  have hN := h.one_lt
  by_contra hnot
  have hlt := h.prod_lt_of_prime_dvd hprime (Nat.minFac_prime (by omega)) (Nat.minFac_dvd N)
  have hsq := Nat.minFac_sq_le_self (by omega) hnot
  rw [sq] at hsq
  have hFF := Nat.mul_le_mul hlt.le hlt.le
  have hroot := h.lt
  omega

/-- One more than a multiple of a power of two. -/
def prothNumber (k m : ℕ) : ℕ := k * 2 ^ (m + 1) + 1

/-- **Proth's criterion**: such a number with a factor below the power of two is prime if half of
its predecessor is an exponent by which the power of some number is `-1`. -/
theorem prime_prothNumber {k m : ℕ} (a : ℕ) (hk0 : 0 < k) (hk : k < 2 ^ (m + 1))
    (ha : powerMod (prothNumber k m) a (k * 2 ^ m) = k * 2 ^ (m + 1)) :
    (prothNumber k m).Prime := by
  unfold prothNumber at *
  have hpos : 0 < k * 2 ^ m := Nat.mul_pos hk0 (Nat.two_pow_pos m)
  have hlt : k * 2 ^ (m + 1) + 1 < 2 ^ (m + 1) * 2 ^ (m + 1) := by
    have hle := Nat.mul_le_mul_right (2 ^ (m + 1)) (Nat.succ_le_of_lt hk)
    have hone : 1 < 2 ^ (m + 1) := Nat.one_lt_two_pow (Nat.succ_ne_zero m)
    rw [Nat.succ_mul] at hle
    omega
  have hdvd : 2 ^ (m + 1) ∣ k * 2 ^ (m + 1) := Nat.dvd_mul_left _ _
  have hdouble : k * 2 ^ (m + 1) = 2 * (k * 2 ^ m) := by ring
  rw [hdouble] at ha hlt hdvd ⊢
  generalize k * 2 ^ m = h at *
  refine prime_of_isCertificate a (List.replicate (m + 1) 2) ⟨by omega, ?_, ?_, ?_, ?_⟩ ?_
  · rwa [List.prod_replicate, Nat.add_sub_cancel]
  · rwa [List.prod_replicate]
  · obtain ⟨t, rfl⟩ : ∃ t, h = t + 1 := ⟨h - 1, by omega⟩
    rw [powerMod_eq] at ha
    rw [Nat.add_sub_cancel, powerMod_eq, mul_comm 2, pow_mul, Nat.pow_mod, mul_comm _ 2, ha,
      show (2 * (t + 1)) ^ 2 = 1 + (2 * (t + 1) + 1) * (2 * t + 1) by ring,
      Nat.add_mul_mod_self_left, Nat.mod_eq_of_lt (by omega)]
  · intro q hq
    obtain rfl := List.eq_of_mem_replicate hq
    rw [Nat.add_sub_cancel, Nat.mul_div_cancel_left h two_pos, ha, ← two_mul]
    refine Nat.Coprime.mul_left ?_ ?_
    · exact (Nat.coprime_mul_left_add_right 2 1 h).2 (Nat.coprime_one_right 2)
    · exact Nat.coprime_self_add_right.2 (Nat.coprime_one_right _)
  · intro q hq
    obtain rfl := List.eq_of_mem_replicate hq
    exact Nat.prime_two

/-- The inverse modulo a prime is a power; that of zero is zero. -/
theorem pow_sub_two {N : ℕ} [Fact N.Prime] (hN : 2 < N) (x : ZMod N) : x ^ (N - 2) = x⁻¹ := by
  by_cases h0 : x = 0
  · rw [h0, inv_zero]
    exact zero_pow (by omega)
  · refine eq_inv_of_mul_eq_one_left ?_
    have h : x ^ (N - 2) * x = x ^ (N - 1) := by
      rw [← pow_succ]
      congr 1
      omega
    rw [h, ZMod.pow_card_sub_one_eq_one h0]

end MessageCrypto
