import MessageCrypto.Hash.Hmac

/-!
# A deterministic generator from HMAC-SHA256

The generator holds a key and a value. Output is a chain of tags of the value; feeding data in, or
the empty string after each output, replaces both, so earlier output cannot be recomputed from a
later state.

* `length_generate`: as many bytes come out as were asked for.
-/

namespace MessageCrypto.Hash

/-- The state of the generator. -/
structure Drbg where
  key : Bytes
  value : Bytes

namespace Drbg

/-- The key hashed with the value, a mark and data, and the value hashed with the new key. -/
def mix (g : Drbg) (mark : UInt8) (data : Bytes) : Drbg :=
  let key := hmac g.key (g.value ++ mark :: data)
  ⟨key, hmac key g.value⟩

/-- The state after feeding in `data`. -/
def update (g : Drbg) (data : Bytes) : Drbg :=
  let g := g.mix 0 data
  if data = [] then g else g.mix 1 data

/-- The state a seed starts from. -/
def ofSeed (seed : Bytes) : Drbg :=
  update ⟨List.replicate 32 0, List.replicate 32 1⟩ seed

/-- The values of the next `count` steps of the chain, and the last of them. -/
def chain (key : Bytes) : (count : Nat) → (value : Bytes) → Bytes × Bytes
  | 0, value => ([], value)
  | k + 1, value =>
    let value := hmac key value
    let (rest, last) := chain key k value
    (value ++ rest, last)

/-- `length` bytes of output, and the state after them. -/
def generate (g : Drbg) (length : Nat) : Bytes × Drbg :=
  let (output, value) := chain g.key ((length + 31) / 32) g.value
  (output.take length, update ⟨g.key, value⟩ [])

theorem length_chain (key : Bytes) (count : Nat) (value : Bytes) :
    (chain key count value).1.length = 32 * count := by
  induction count generalizing value with
  | zero => rfl
  | succ k ih =>
    simp only [chain, List.length_append, length_hmac, ih]
    omega

@[simp] theorem length_generate (g : Drbg) (length : Nat) :
    (g.generate length).1.length = length := by
  simp only [generate, List.length_take, length_chain]
  omega

end Drbg

end MessageCrypto.Hash
