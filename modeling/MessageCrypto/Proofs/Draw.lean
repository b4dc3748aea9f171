import MessageCrypto.Draw

/-! # What random computations can yield

A computation yields what it can end with for some bytes of the source; `Draw.yields_bind` takes
two steps apart, and here are the single ones. There is always something that it yields.

* `Draw.yields_pure`, `Draw.yields_bytes`, `Draw.yields_bind_iff`, `Draw.yields_map`.
* `Draw.after_pure`, `Draw.yields_after_error_iff`: behind a step that may fail.
* `Draw.exists_yields`: no computation is stuck. -/

namespace MessageCrypto.Draw

variable {α β γ ε : Type}

theorem exists_yields (d : Draw α) : ∃ a, d.Yields a := by
  induction d with
  | done a => exact ⟨a, .done a⟩
  | ask count next ih =>
    obtain ⟨a, ha⟩ := ih (List.replicate count 0)
    exact ⟨a, .ask _ List.length_replicate ha⟩

@[simp] theorem yields_pure {a b : α} : (pure a : Draw α).Yields b ↔ b = a := by
  constructor
  · intro h
    cases h
    rfl
  · rintro rfl
    exact .done _

@[simp] theorem yields_bytes {count : Nat} {bytes : Bytes} :
    (Draw.bytes count).Yields bytes ↔ bytes.length = count := by
  constructor
  · intro h
    cases h with
    | ask bytes hlength h =>
      cases h
      exact hlength
  · intro h
    exact .ask bytes h (.done bytes)

theorem yields_bind_iff {d : Draw α} {f : α → Draw β} {b : β} :
    (d >>= f).Yields b ↔ ∃ a, d.Yields a ∧ (f a).Yields b := yields_bind

/-! ### Maps -/

@[simp] theorem yields_map {d : Draw α} {f : α → β} {b : β} :
    (f <$> d).Yields b ↔ ∃ a, d.Yields a ∧ f a = b := by
  have hmap : (f <$> d).Yields b ↔ ∃ a, d.Yields a ∧ (pure (f a) : Draw β).Yields b := yields_bind
  simp only [hmap, yields_pure, eq_comm]

@[simp] theorem map_pure (f : α → β) (a : α) : f <$> (pure a : Draw α) = pure (f a) := rfl

theorem map_map (f : α → β) (g : β → γ) (d : Draw α) : g <$> f <$> d = (fun a => g (f a)) <$> d := by
  induction d with
  | done a => rfl
  | ask count next ih => exact congrArg (ask count) (funext ih)

/-! ### Behind a step that may fail -/

section
variable {x : Except ε α} {f : α → Draw (Except ε β)}

theorem after_ok (a : α) : after (.ok a) f = f a := rfl

theorem after_error (e : ε) : after (.error e) f = pure (.error e) := rfl

theorem after_pure (k : α → Except ε β) : after x (fun a => pure (k a)) = pure (x >>= k) := by
  cases x <;> rfl

theorem yields_after_error_iff {e : ε} :
    (after x f).Yields (.error e) ↔ x = .error e ∨ ∃ a, x = .ok a ∧ (f a).Yields (.error e) := by
  cases x with
  | ok a => simp [after_ok]
  | error e' => simp [after_error, eq_comm]

end

end MessageCrypto.Draw
