import Mathlib.Tactic.NormNum.Prime
import MessageCrypto.P256.Point
import MessageCrypto.Proofs.Prime

/-! # The field and the order of P-256 are prime

Each of the two has a chain of primes below it, every one of which is shown prime by the one or two
before it; the smallest by division. The base is 2 throughout. -/

namespace MessageCrypto.P256

theorem prime_p : Nat.Prime p := by
  have h1 : Nat.Prime 66417393611 :=
    prime_of_isCertificate 2 [197, 3677] (by decide +kernel) (by norm_num)
  have h2 : Nat.Prime 11290956913871 :=
    prime_of_isCertificate 2 [66417393611] (by decide +kernel) (by simpa)
  have h3 : Nat.Prime 46076956964474543 :=
    prime_of_isCertificate 2 [78283, 704251] (by decide +kernel) (by norm_num)
  have h4 : Nat.Prime 774023187263532362759620327192479577272145303 :=
    prime_of_isCertificate 2 [11290956913871, 46076956964474543]
      (by decide +kernel) (by simp [h2, h3])
  have h5 : Nat.Prime 835945042244614951780389953367877943453916927241 :=
    prime_of_isCertificate 2 [774023187263532362759620327192479577272145303]
      (by decide +kernel) (by simpa)
  exact prime_of_isCertificate 2 [835945042244614951780389953367877943453916927241]
    (by decide +kernel) (by simpa)

theorem prime_n : Nat.Prime n := by
  have h1 : Nat.Prime 3969899 :=
    prime_of_isCertificate 2 [104471] (by decide +kernel) (by norm_num)
  have h2 : Nat.Prime 1002328039319 :=
    prime_of_isCertificate 2 [3969899] (by decide +kernel) (by simpa)
  have h3 : Nat.Prime 191039911 :=
    prime_of_isCertificate 2 [155317] (by decide +kernel) (by norm_num)
  have h4 : Nat.Prime 208150935158385979 :=
    prime_of_isCertificate 2 [3023, 191039911] (by decide +kernel) (by norm_num [h3])
  have h5 : Nat.Prime 2624747550333869278416773953 :=
    prime_of_isCertificate 2 [208150935158385979] (by decide +kernel) (by simpa)
  exact prime_of_isCertificate 2 [1002328039319, 2624747550333869278416773953]
    (by decide +kernel) (by simp [h2, h5])

end MessageCrypto.P256
