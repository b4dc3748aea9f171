import MessageCrypto.Hash.Drbg

/-!
# Computations that draw random bytes

A computation that needs random bytes is a tree: it is done, or it asks for some bytes and goes on
with whatever they are. What a computation can yield is said without a source of bytes, and it is
run by a generator from a seed or by the machine.

* `Draw.Yields`: the results for all bytes that the source may give.
* `Draw.yields_run`: what a generator makes it yield is among them.
* `Draw.after`: a computation behind a step that may fail.
-/

namespace MessageCrypto

/-- A computation that may ask for random bytes. -/
inductive Draw (α : Type) where
  | done (result : α)
  | ask (count : Nat) (next : Bytes → Draw α)

namespace Draw

variable {α β ε : Type}

def bind : Draw α → (α → Draw β) → Draw β
  | done a, f => f a
  | ask count next, f => ask count fun bytes => (next bytes).bind f

instance : Monad Draw where
  pure := done
  bind := bind

/-- Random bytes as they come. -/
def bytes (count : Nat) : Draw Bytes := ask count done

/-- Goes on with the result of a step, or ends with its failure. -/
def after (x : Except ε α) (f : α → Draw (Except ε β)) : Draw (Except ε β) :=
  match x with
  | .ok a => f a
  | .error e => done (.error e)

/-- `d` can yield `a`. -/
inductive Yields : Draw α → α → Prop where
  | done (a : α) : Yields (done a) a
  | ask {count : Nat} {next : Bytes → Draw α} {a : α} (bytes : Bytes)
      (length_eq : bytes.length = count) (h : Yields (next bytes) a) : Yields (ask count next) a

/-- The result with bytes from a generator, and the generator after it. -/
def run : Draw α → Hash.Drbg → α × Hash.Drbg
  | done a, g => (a, g)
  | ask count next, g =>
    let (bytes, g) := g.generate count
    (next bytes).run g

theorem yields_run (d : Draw α) (g : Hash.Drbg) : d.Yields (d.run g).1 := by
  induction d generalizing g with
  | done a => exact .done a
  | ask count next ih => exact .ask _ (g.length_generate count) (ih _ _)

theorem yields_bind {d : Draw α} {f : α → Draw β} {b : β} :
    (d.bind f).Yields b ↔ ∃ a, d.Yields a ∧ (f a).Yields b := by
  constructor
  · intro h
    induction d with
    | done a => exact ⟨a, .done a, h⟩
    | ask count next ih =>
      cases h with
      | ask bytes hlen h =>
        obtain ⟨a, ha, hb⟩ := ih bytes h
        exact ⟨a, .ask bytes hlen ha, hb⟩
  · rintro ⟨a, ha, hb⟩
    induction ha with
    | done a => exact hb
    | ask bytes hlen _ ih => exact .ask bytes hlen (ih hb)

end Draw

end MessageCrypto
