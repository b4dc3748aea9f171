import MessageCrypto.Aes.Block

/-!
# AES with a key of 256 bits

A key of two blocks is expanded to fifteen: one before the first round, one for each of thirteen
full rounds, and one for the last round, which does not mix columns.

* `KeySchedule.decrypt_encrypt`, `KeySchedule.encrypt_decrypt`: the two directions are inverse
  under every schedule, however its blocks were made.
-/

namespace MessageCrypto.Aes

/-- A key of 32 bytes. -/
structure Key where
  (first second : Block)

def Key.ofBytes? (bytes : Bytes) : Option Key :=
  match Block.split? bytes with
  | some [first, second] => some ⟨first, second⟩
  | _ => none

theorem Key.isSome_ofBytes?_iff {bytes : Bytes} : (ofBytes? bytes).isSome ↔ bytes.length = 32 := by
  rw [show (32 : Nat) = Block.size * 2 from rfl, ← Block.exists_split?_iff]
  unfold ofBytes?
  split
  case h_1 h => simp [h]
  case h_2 h =>
    simp only [Option.isSome_none, Bool.false_eq_true, false_iff, not_exists, not_and]
    intro bs hbs hl
    match bs, hl with
    | [first, second], _ => exact h first second hbs

/-- The key blocks in the order of their use in encryption. -/
structure KeySchedule where
  initial : Block
  rounds : List Block
  final : Block

namespace KeySchedule

/-- A key block two steps after `b`: each column is the running sum of those of `b`, from `t`. -/
def successor (t : Column) (b : Block) : Block :=
  let c0 := b.c0 ^^^ t
  let c1 := b.c1 ^^^ c0
  let c2 := b.c2 ^^^ c1
  ⟨c0, c1, c2, b.c3 ^^^ c2⟩

/-- What starts an even block, from the last column before it and the round constant. -/
def rotated (constant : UInt8) (c : Column) : Column :=
  c.rotate.map substitute ^^^ ⟨constant, 0, 0, 0⟩

/-- The `2 * pairs` blocks that follow two given ones, and the single block after those. -/
def extend (constant : UInt8) : (pairs : Nat) → Block → Block → List Block × Block
  | 0, a, b => ([], successor (rotated constant b.c3) a)
  | n + 1, a, b =>
    let a := successor (rotated constant b.c3) a
    let b := successor (a.c3.map substitute) b
    let (rest, last) := KeySchedule.extend (Column.double constant) n a b
    (a :: b :: rest, last)

def ofKey (k : Key) : KeySchedule :=
  let (later, final) := KeySchedule.extend 1 6 k.first k.second
  ⟨k.first, k.second :: later, final⟩

/-! ### The two directions -/

def encrypt (s : KeySchedule) (b : Block) : Block :=
  let b := s.rounds.foldl (fun b k => b.substitute.shiftRows.mix ^^^ k) (b ^^^ s.initial)
  b.substitute.shiftRows ^^^ s.final

def decrypt (s : KeySchedule) (b : Block) : Block :=
  let b := (b ^^^ s.final).unshiftRows.unsubstitute
  s.rounds.foldr (fun k b => (b ^^^ k).unmix.unshiftRows.unsubstitute) b ^^^ s.initial

theorem decrypt_encrypt (s : KeySchedule) (b : Block) : s.decrypt (s.encrypt b) = b := by
  have h (ks : List Block) (b : Block) :
      ks.foldr (fun k b => (b ^^^ k).unmix.unshiftRows.unsubstitute)
        (ks.foldl (fun b k => b.substitute.shiftRows.mix ^^^ k) b) = b := by
    induction ks generalizing b with
    | nil => rfl
    | cons k ks ih =>
      simp only [List.foldl_cons, List.foldr_cons, ih, Block.xor_xor_self, Block.unmix_mix,
        Block.unshiftRows_shiftRows, Block.unsubstitute_substitute]
  simp only [decrypt, encrypt, Block.xor_xor_self, Block.unshiftRows_shiftRows,
    Block.unsubstitute_substitute, h]

theorem encrypt_decrypt (s : KeySchedule) (b : Block) : s.encrypt (s.decrypt b) = b := by
  have h (ks : List Block) (b : Block) :
      ks.foldl (fun b k => b.substitute.shiftRows.mix ^^^ k)
        (ks.foldr (fun k b => (b ^^^ k).unmix.unshiftRows.unsubstitute) b) = b := by
    induction ks generalizing b with
    | nil => rfl
    | cons k ks ih =>
      simp only [List.foldl_cons, List.foldr_cons, ih, Block.xor_xor_self, Block.mix_unmix,
        Block.shiftRows_unshiftRows, Block.substitute_unsubstitute]
  simp only [decrypt, encrypt, Block.xor_xor_self, Block.shiftRows_unshiftRows,
    Block.substitute_unsubstitute, h]

theorem encrypt_inj (s : KeySchedule) {b c : Block} : s.encrypt b = s.encrypt c ↔ b = c := by
  refine ⟨fun h => ?_, fun h => h ▸ rfl⟩
  rw [← s.decrypt_encrypt b, h, decrypt_encrypt]

theorem decrypt_inj (s : KeySchedule) {b c : Block} : s.decrypt b = s.decrypt c ↔ b = c := by
  refine ⟨fun h => ?_, fun h => h ▸ rfl⟩
  rw [← s.encrypt_decrypt b, h, encrypt_decrypt]

end KeySchedule

end MessageCrypto.Aes
