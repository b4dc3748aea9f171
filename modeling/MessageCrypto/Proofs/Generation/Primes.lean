import Mathlib.FieldTheory.Finite.Basic
import MessageCrypto.Generation
import MessageCrypto.Proofs.Prime

/-! # Primes pass

Generation draws numbers until one passes trial division and twenty Miller–Rabin rounds. No prime
of that size is turned down: a root of 1 modulo a prime is 1 or -1, so that the squares of a power
of the base, the last of which is 1, start with 1 or contain -1.

* `passes_of_prime`: a prime passes for every base that it does not divide.
* `isProbablePrime_of_prime`: a prime from 1000 on passes the whole check. -/

namespace MessageCrypto

/-! ### Factors two -/

theorem splitTwos_eq (bound m : ℕ) : 2 ^ (splitTwos bound m).1 * (splitTwos bound m).2 = m := by
  induction bound generalizing m with
  | zero => simp [splitTwos]
  | succ k ih =>
    unfold splitTwos
    split_ifs with heven
    · have hhalf := ih (m / 2)
      simp only [pow_succ]
      rw [mul_right_comm, hhalf]
      omega
    · simp

/-! ### One round -/

section
variable {m : ℕ} (hm : m.Prime)
include hm

theorem cast_eq_one_iff {x : ℕ} (hx : x < m) : (x : ZMod m) = 1 ↔ x = 1 := by
  rw [← Nat.cast_one, ZMod.natCast_eq_natCast_iff', Nat.mod_eq_of_lt hx, Nat.mod_eq_of_lt hm.one_lt]

theorem cast_eq_neg_one_iff {x : ℕ} (hx : x < m) : (x : ZMod m) = -1 ↔ x = m - 1 := by
  have hlast : ((m - 1 : ℕ) : ZMod m) = -1 := by
    rw [Nat.cast_sub hm.one_le, ZMod.natCast_self, Nat.cast_one, zero_sub]
  rw [← hlast, ZMod.natCast_eq_natCast_iff', Nat.mod_eq_of_lt hx,
    Nat.mod_eq_of_lt (Nat.sub_lt hm.pos one_pos)]

/-- If `count` squares lead to 1, the first number is 1 or -1 is met before. -/
theorem eq_one_or_reachesMinusOne {count x : ℕ} (hx : x < m)
    (hpow : (x : ZMod m) ^ 2 ^ count = 1) : x = 1 ∨ reachesMinusOne m count x = true := by
  have : Fact m.Prime := ⟨hm⟩
  induction count generalizing x with
  | zero =>
    rw [pow_zero, pow_one, cast_eq_one_iff hm hx] at hpow
    exact .inl hpow
  | succ k ih =>
    have hcast : ((x * x % m : ℕ) : ZMod m) = (x : ZMod m) ^ 2 := by
      rw [ZMod.natCast_mod, Nat.cast_mul, sq]
    have hsquare : ((x * x % m : ℕ) : ZMod m) ^ 2 ^ k = 1 := by
      rw [hcast, ← pow_mul, ← pow_succ', hpow]
    rw [reachesMinusOne, Bool.or_eq_true, beq_iff_eq]
    rcases ih (Nat.mod_lt _ hm.pos) hsquare with hone | hreach
    · -- the next number is 1, so that this one is one of the two roots of 1
      rw [← cast_eq_one_iff hm (Nat.mod_lt _ hm.pos), hcast, sq, mul_self_eq_one_iff,
        cast_eq_one_iff hm hx, cast_eq_neg_one_iff hm hx] at hone
      exact hone.imp_right .inl
    · exact .inr (.inr hreach)

/-- **A prime passes** for every base that it does not divide. -/
theorem passes_of_prime {base : ℕ} (hbase : ¬ m ∣ base) : passes m base = true := by
  have : Fact m.Prime := ⟨hm⟩
  have hne : (base : ZMod m) ≠ 0 := mt (ZMod.natCast_eq_zero_iff base m).1 hbase
  have hsplit := splitTwos_eq m.log2 (m - 1)
  rw [passes]
  generalize splitTwos m.log2 (m - 1) = parts at hsplit ⊢
  obtain ⟨twos, rest⟩ := parts
  have hpow : ((powerMod m base rest : ℕ) : ZMod m) ^ 2 ^ twos = 1 := by
    rw [cast_powerMod dvd_rfl, ← pow_mul, mul_comm, hsplit, ZMod.pow_card_sub_one_eq_one hne]
  have hlt : powerMod m base rest < m := by
    rw [powerMod_eq]
    exact Nat.mod_lt _ hm.pos
  simpa only [Bool.or_eq_true, beq_iff_eq] using eq_one_or_reachesMinusOne hm hlt hpow

end

/-! ### The whole check -/

theorem three_le_and_lt_of_mem_smallPrimes {k : ℕ} (hk : k ∈ smallPrimes) : 3 ≤ k ∧ k < 1000 := by
  simp only [smallPrimes, List.mem_filter, List.mem_range, Bool.and_eq_true, decide_eq_true_eq] at hk
  exact ⟨hk.2.1.1, hk.1⟩

/-- **A prime passes the check**, if it is not one of the small ones. -/
theorem isProbablePrime_of_prime {m : ℕ} (hm : m.Prime) (hlarge : 1000 ≤ m) :
    isProbablePrime m = true := by
  have hnot {k : ℕ} (hk : k ∈ smallPrimes) : ¬ m ∣ k := by
    obtain ⟨h3, hlt⟩ := three_le_and_lt_of_mem_smallPrimes hk
    exact Nat.not_dvd_of_pos_of_lt (by omega) (by omega)
  rw [isProbablePrime, Bool.and_eq_true, List.all_eq_true, List.all_eq_true]
  constructor
  · intro k hk
    obtain ⟨h3, hlt⟩ := three_le_and_lt_of_mem_smallPrimes hk
    rw [bne_iff_ne, Ne, ← Nat.dvd_iff_mod_eq_zero]
    intro hdvd
    rcases (Nat.dvd_prime hm).1 hdvd with rfl | rfl <;> omega
  · intro k hk
    exact passes_of_prime hm (hnot (List.mem_of_mem_take hk))

end MessageCrypto
