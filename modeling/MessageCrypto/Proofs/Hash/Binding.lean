import Mathlib.Logic.Function.Basic
import MessageCrypto.Hash.Hmac

/-! # A tag binds its key and its message

Nothing is assumed of SHA-256. A statement that would need it to be injective names the two byte
strings that collide if it fails: those that were hashed in the two computations.

* `Hmac.eq_or_collides`: two equal tags come from one block key and one message, or the inner or the
  outer hash inputs of the two computations collide.
* `Hmac.hmac_congr`: only the block key of a key matters.
* `Hmac.blockKey_inj`: keys of one length up to 64 have different block keys. Keys of different
  lengths need not: `Hmac.blockKey_eq_iff` says that they have one block key exactly if the longer is
  the shorter with zeros behind it. -/

namespace MessageCrypto.Hash

/-- **A collision**: two different byte strings with one digest. -/
structure IsCollision (a b : Bytes) : Prop where
  ne : a ≠ b
  digest_eq : sha256 a = sha256 b

theorem eq_or_isCollision {a b : Bytes} (h : sha256 a = sha256 b) : a = b ∨ IsCollision a b := by
  by_cases hab : a = b
  · exact Or.inl hab
  · exact Or.inr ⟨hab, h⟩

namespace Hmac

/-! ### Block keys -/

theorem blockKey_of_length_le {key : Bytes} (h : key.length ≤ 64) :
    blockKey key = key ++ List.replicate (64 - key.length) 0 := by
  unfold blockKey
  rw [if_pos h]

theorem blockKey_inj {a b : Bytes} (ha : a.length ≤ 64) (hl : a.length = b.length)
    (h : blockKey a = blockKey b) : a = b := by
  rw [blockKey_of_length_le ha, blockKey_of_length_le (hl ▸ ha)] at h
  exact (List.append_inj h hl).1

theorem blockKey_eq_iff {a b : Bytes} (hl : a.length ≤ b.length) (hb : b.length ≤ 64) :
    blockKey a = blockKey b ↔ b = a ++ List.replicate (b.length - a.length) 0 := by
  have hzeros : 64 - a.length = (b.length - a.length) + (64 - b.length) := by omega
  rw [blockKey_of_length_le (Nat.le_trans hl hb), blockKey_of_length_le hb, hzeros,
    ← List.replicate_append_replicate, ← List.append_assoc, List.append_cancel_right_eq, eq_comm]

theorem blockKey_replicate {n : Nat} (h : n ≤ 64) :
    blockKey [] = blockKey (List.replicate n 0) := by
  refine (blockKey_eq_iff (Nat.zero_le _) (by rw [List.length_replicate]; exact h)).2 ?_
  rw [List.length_replicate, List.length_nil, Nat.sub_zero, List.nil_append]

theorem hmac_congr {a b : Bytes} (h : blockKey a = blockKey b) (message : Bytes) :
    hmac a message = hmac b message := by
  simp only [hmac, innerKey, outerKey, h]

/-- At most 64 bytes, filled up with zeros and masked. -/
def masked (mask : UInt8) (b : Bytes) : Bytes :=
  (b ++ List.replicate (64 - b.length) 0).map (· ^^^ mask)

theorem xor_right_injective (mask : UInt8) : Function.Injective (· ^^^ mask : UInt8 → UInt8) := by
  intro x y h
  have hx (z : UInt8) : (z ^^^ mask) ^^^ mask = z := by rw [UInt8.xor_assoc]; simp
  rw [← hx x, ← hx y]
  exact congrArg (· ^^^ mask) h

theorem length_innerKey (key : Bytes) : (innerKey key).length = 64 := by
  rw [innerKey, List.length_map, length_blockKey]

theorem length_outerKey (key : Bytes) : (outerKey key).length = 64 := by
  rw [outerKey, List.length_map, length_blockKey]

theorem blockKey_eq_of_innerKey_eq {a b : Bytes} (h : innerKey a = innerKey b) :
    blockKey a = blockKey b :=
  (List.map_inj_right fun _ _ h => xor_right_injective 0x36 h).1 h

/-! ### The two hash inputs of a tag -/

/-- The input of the inner hash. -/
def innerInput (key message : Bytes) : Bytes := innerKey key ++ message

/-- The input of the outer hash. -/
def outerInput (key message : Bytes) : Bytes := outerKey key ++ sha256 (innerInput key message)

theorem innerInput_of_length_le {key : Bytes} (h : key.length ≤ 64) (message : Bytes) :
    innerInput key message = masked 0x36 key ++ message := by
  rw [innerInput, innerKey, blockKey_of_length_le h]
  rfl

theorem outerInput_of_length_le {key : Bytes} (h : key.length ≤ 64) (message : Bytes) :
    outerInput key message = masked 0x5c key ++ sha256 (masked 0x36 key ++ message) := by
  rw [outerInput, innerInput_of_length_le h, outerKey, blockKey_of_length_le h]
  rfl

theorem hmac_eq_sha256_outerInput (key message : Bytes) :
    hmac key message = sha256 (outerInput key message) := rfl

/-- The inner or the outer hash inputs of two tags collide. -/
def Collides (key message key' message' : Bytes) : Prop :=
  IsCollision (innerInput key message) (innerInput key' message') ∨
    IsCollision (outerInput key message) (outerInput key' message')

/-- **A tag binds** the block key and the message. -/
theorem eq_or_collides {key message key' message' : Bytes}
    (h : hmac key message = hmac key' message') :
    (blockKey key = blockKey key' ∧ message = message') ∨
      Collides key message key' message' := by
  rw [hmac_eq_sha256_outerInput, hmac_eq_sha256_outerInput] at h
  rcases eq_or_isCollision h with houter | hc
  · have hl : (outerKey key).length = (outerKey key').length := by
      rw [length_outerKey, length_outerKey]
    have hdigest := (List.append_inj houter hl).2
    rcases eq_or_isCollision hdigest with hinner | hc
    · have hl : (innerKey key).length = (innerKey key').length := by
        rw [length_innerKey, length_innerKey]
      obtain ⟨hkey, hmessage⟩ := List.append_inj hinner hl
      exact Or.inl ⟨blockKey_eq_of_innerKey_eq hkey, hmessage⟩
    · exact Or.inr (Or.inl hc)
  · exact Or.inr (Or.inr hc)

/-- With keys of one length up to 64 the tag binds the key itself. -/
theorem eq_or_collides_of_length_eq {key message key' message' : Bytes} (hk : key.length ≤ 64)
    (hl : key.length = key'.length) (h : hmac key message = hmac key' message') :
    (key = key' ∧ message = message') ∨ Collides key message key' message' :=
  (eq_or_collides h).imp_left fun ⟨hkey, hmessage⟩ => ⟨blockKey_inj hk hl hkey, hmessage⟩

end Hmac

end MessageCrypto.Hash
