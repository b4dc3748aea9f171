import MessageCrypto.Aes.Cipher

/-!
# Cipher block chaining

Each block is added to the ciphertext block before it, the first to the initialization vector,
and then encrypted.

* `decrypt_encrypt`, `encrypt_decrypt`: chaining both ways is inverse under every key schedule
  and every initialization vector.
-/

namespace MessageCrypto.Aes.Cbc

def encrypt (s : KeySchedule) : (before : Block) → List Block → List Block
  | _, [] => []
  | before, b :: bs =>
    let c := s.encrypt (b ^^^ before)
    c :: encrypt s c bs

def decrypt (s : KeySchedule) : (before : Block) → List Block → List Block
  | _, [] => []
  | before, c :: cs => (s.decrypt c ^^^ before) :: decrypt s c cs

theorem decrypt_encrypt (s : KeySchedule) (before : Block) (bs : List Block) :
    decrypt s before (encrypt s before bs) = bs := by
  induction bs generalizing before with
  | nil => rfl
  | cons b bs ih =>
    simp only [encrypt, decrypt, ih, KeySchedule.decrypt_encrypt, Block.xor_xor_self]

theorem encrypt_decrypt (s : KeySchedule) (before : Block) (cs : List Block) :
    encrypt s before (decrypt s before cs) = cs := by
  induction cs generalizing before with
  | nil => rfl
  | cons c cs ih =>
    simp only [encrypt, decrypt, ih, KeySchedule.encrypt_decrypt, Block.xor_xor_self]

@[simp] theorem length_encrypt (s : KeySchedule) (before : Block) (bs : List Block) :
    (encrypt s before bs).length = bs.length := by
  induction bs generalizing before with
  | nil => rfl
  | cons b bs ih => simp [encrypt, ih]

@[simp] theorem length_decrypt (s : KeySchedule) (before : Block) (cs : List Block) :
    (decrypt s before cs).length = cs.length := by
  induction cs generalizing before with
  | nil => rfl
  | cons c cs ih => simp [decrypt, ih]

end MessageCrypto.Aes.Cbc
