/-!
# Powers by squaring

The power of an element under a binary operation, read off the bits of the exponent from the top:
each bit squares what was reached so far, and a set bit multiplies by the element once more.

* `power`: for any operation; multiples of a point and powers of a field element are instances.
* `powerMod`: powers of naturals modulo a number.
-/

namespace MessageCrypto

/-- The `n`-th power of `x`, for an associative `op` with the neutral element `one`. -/
@[specialize] def power {α : Type} (op : α → α → α) (one x : α) (n : Nat) : α :=
  (List.range (n.log2 + 1)).foldr
    (fun i acc =>
      let square := op acc acc
      if n.testBit i then op square x else square)
    one

/-- `base ^ n` modulo `m`. -/
def powerMod (m base n : Nat) : Nat :=
  power (fun a b => a * b % m) (1 % m) (base % m) n

end MessageCrypto
