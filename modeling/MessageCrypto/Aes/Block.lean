import MessageCrypto.Aes.Substitution

/-!
# Blocks of AES

A block is four columns of four bytes. The four layers of a round act on it: bytes are
substituted, rows are rotated, columns are mixed over the field of 256 elements, and a key block
is added.

* `split?_eq_some_iff`: a byte string divides into blocks in one way, and only if nothing is left.
* `unmix_mix`, `mix_unmix`: mixing a column has order four, so its cube undoes it.
-/

namespace MessageCrypto.Aes

/-- Four bytes, from the first row to the last. -/
structure Column where
  (r0 r1 r2 r3 : UInt8)
  deriving DecidableEq

/-- Four columns, sixteen bytes. -/
structure Block where
  (c0 c1 c2 c3 : Column)
  deriving DecidableEq

/-! ### Columns -/

namespace Column

def map (f : UInt8 → UInt8) (c : Column) : Column := ⟨f c.r0, f c.r1, f c.r2, f c.r3⟩

instance : XorOp Column where
  xor a b := ⟨a.r0 ^^^ b.r0, a.r1 ^^^ b.r1, a.r2 ^^^ b.r2, a.r3 ^^^ b.r3⟩

/-- The bytes moved up by one row, the first to the last. -/
def rotate (c : Column) : Column := ⟨c.r1, c.r2, c.r3, c.r0⟩

/-- A byte as a polynomial over bits, times `x`: the bit that leaves at the top comes back as
`x⁴ + x³ + x + 1`. -/
def double (x : UInt8) : UInt8 :=
  let t := x >>> 7
  (x <<< 1) ^^^ t ^^^ (t <<< 1) ^^^ (t <<< 3) ^^^ (t <<< 4)

/-- One row of the mixing matrix: coefficients `x`, `x + 1`, `1` and `1`. -/
def combine (a b c d : UInt8) : UInt8 := double a ^^^ double b ^^^ b ^^^ c ^^^ d

def mix (c : Column) : Column :=
  ⟨combine c.r0 c.r1 c.r2 c.r3, combine c.r1 c.r2 c.r3 c.r0,
    combine c.r2 c.r3 c.r0 c.r1, combine c.r3 c.r0 c.r1 c.r2⟩

/-- The inverse of `mix`. -/
def unmix (c : Column) : Column := c.mix.mix.mix

theorem double_xor (x y : UInt8) : double (x ^^^ y) = double x ^^^ double y := by
  simp only [double, UInt8.shiftLeft_xor, UInt8.shiftRight_xor]
  ac_rfl

theorem xor_left_comm (x y z : UInt8) : x ^^^ (y ^^^ z) = y ^^^ (x ^^^ z) := by
  ac_rfl

theorem xor_xor_self_left (x y : UInt8) : x ^^^ (x ^^^ y) = y := by
  rw [← UInt8.xor_assoc, UInt8.xor_self, UInt8.zero_xor]

theorem mix_mix (c : Column) :
    c.mix.mix =
      ⟨double (double (c.r0 ^^^ c.r2)) ^^^ c.r0, double (double (c.r1 ^^^ c.r3)) ^^^ c.r1,
        double (double (c.r2 ^^^ c.r0)) ^^^ c.r2, double (double (c.r3 ^^^ c.r1)) ^^^ c.r3⟩ := by
  simp only [mix, combine, double_xor, mk.injEq]
  refine ⟨?_, ?_, ?_, ?_⟩ <;>
    simp only [UInt8.xor_assoc, UInt8.xor_comm, xor_left_comm, xor_xor_self_left,
      UInt8.xor_self, UInt8.zero_xor]

theorem unmix_mix (c : Column) : c.mix.unmix = c := by
  rw [unmix, mix_mix, mix_mix]
  simp only [double_xor]
  cases c
  simp only [UInt8.xor_comm, xor_left_comm, UInt8.xor_self, UInt8.zero_xor, UInt8.xor_zero]

theorem mix_unmix (c : Column) : c.unmix.mix = c := unmix_mix c

theorem map_map_of_inverse {f g : UInt8 → UInt8} (h : ∀ x, g (f x) = x) (c : Column) :
    (c.map f).map g = c := by
  simp [map, h]

theorem xor_xor_self (a b : Column) : (a ^^^ b) ^^^ b = a := by
  have h (x y : UInt8) : (x ^^^ y) ^^^ y = x := by rw [UInt8.xor_assoc]; simp
  show mk _ _ _ _ = a
  simp only [HXor.hXor, XorOp.xor] at h ⊢
  simp [h]

theorem xor_def (a b : Column) :
    a ^^^ b = ⟨a.r0 ^^^ b.r0, a.r1 ^^^ b.r1, a.r2 ^^^ b.r2, a.r3 ^^^ b.r3⟩ := rfl

theorem xor_comm (a b : Column) : a ^^^ b = b ^^^ a := by
  rw [xor_def, xor_def, UInt8.xor_comm a.r0, UInt8.xor_comm a.r1, UInt8.xor_comm a.r2,
    UInt8.xor_comm a.r3]

theorem xor_assoc (a b c : Column) : (a ^^^ b) ^^^ c = a ^^^ (b ^^^ c) := by
  simp only [xor_def, UInt8.xor_assoc]

end Column

/-! ### Blocks and bytes -/

namespace Block

instance : XorOp Block where
  xor a b := ⟨a.c0 ^^^ b.c0, a.c1 ^^^ b.c1, a.c2 ^^^ b.c2, a.c3 ^^^ b.c3⟩

def map (f : Column → Column) (b : Block) : Block := ⟨f b.c0, f b.c1, f b.c2, f b.c3⟩

def toBytes (b : Block) : Bytes :=
  [b.c0.r0, b.c0.r1, b.c0.r2, b.c0.r3, b.c1.r0, b.c1.r1, b.c1.r2, b.c1.r3,
    b.c2.r0, b.c2.r1, b.c2.r2, b.c2.r3, b.c3.r0, b.c3.r1, b.c3.r2, b.c3.r3]

/-- The number of bytes of a block. -/
def size : Nat := 16

/-- The bytes of a list of blocks. -/
def join (bs : List Block) : Bytes := bs.flatMap toBytes

/-- The blocks of a byte string, none if its length is no multiple of sixteen. -/
def split? : Bytes → Option (List Block)
  | [] => some []
  | b0 :: b1 :: b2 :: b3 :: b4 :: b5 :: b6 :: b7 ::
      b8 :: b9 :: b10 :: b11 :: b12 :: b13 :: b14 :: b15 :: rest =>
    (split? rest).map (⟨⟨b0, b1, b2, b3⟩, ⟨b4, b5, b6, b7⟩,
      ⟨b8, b9, b10, b11⟩, ⟨b12, b13, b14, b15⟩⟩ :: ·)
  | _ => none

@[simp] theorem length_toBytes (b : Block) : b.toBytes.length = size := rfl

theorem length_join (bs : List Block) : (join bs).length = size * bs.length := by
  induction bs with
  | nil => rfl
  | cons b bs ih => simp only [join, List.flatMap_cons, List.length_append, length_toBytes,
      List.length_cons, size] at ih ⊢; omega

theorem split?_join (bs : List Block) : split? (join bs) = some bs := by
  induction bs with
  | nil => rfl
  | cons b bs ih =>
    simp only [join, List.flatMap_cons, toBytes, List.cons_append, List.nil_append] at ih ⊢
    simp [split?, ih]

theorem eq_join_of_split? {bytes : Bytes} {bs : List Block} (h : split? bytes = some bs) :
    bytes = join bs := by
  fun_induction split? bytes generalizing bs with
  | case1 => simp_all [join]
  | case2 b0 b1 b2 b3 b4 b5 b6 b7 b8 b9 b10 b11 b12 b13 b14 b15 rest ih =>
    obtain ⟨bs, hbs, rfl⟩ := Option.map_eq_some_iff.1 h
    simp [join, toBytes, ih hbs]
  | case3 => simp at h

theorem split?_eq_some_iff {bytes : Bytes} {bs : List Block} :
    split? bytes = some bs ↔ bytes = join bs :=
  ⟨eq_join_of_split?, fun h => h ▸ split?_join bs⟩

theorem exists_split? {n : Nat} {bytes : Bytes} (h : bytes.length = size * n) :
    ∃ bs, split? bytes = some bs := by
  induction n generalizing bytes with
  | zero => exact ⟨[], by rw [List.length_eq_zero_iff.1 h]; rfl⟩
  | succ n ih =>
    unfold size at h ih
    obtain ⟨bs, hbs⟩ := @ih (bytes.drop 16) (by rw [List.length_drop]; omega)
    have hl : (bytes.take 16).length = 16 := by rw [List.length_take]; omega
    have happ := List.take_append_drop 16 bytes
    match bytes.take 16, hl, happ with
    | [b0, b1, b2, b3, b4, b5, b6, b7, b8, b9, b10, b11, b12, b13, b14, b15], _, happ =>
      rw [← happ]
      simp only [List.cons_append, List.nil_append, split?, hbs]
      exact ⟨_, rfl⟩

/-- A byte string divides into `n` blocks exactly if it is as long as they are. -/
theorem exists_split?_iff (n : Nat) {bytes : Bytes} :
    (∃ bs, split? bytes = some bs ∧ bs.length = n) ↔ bytes.length = size * n := by
  constructor
  · rintro ⟨bs, hbs, rfl⟩
    rw [eq_join_of_split? hbs, length_join]
  · intro h
    obtain ⟨bs, hbs⟩ := exists_split? h
    have hl := length_join bs
    rw [← eq_join_of_split? hbs, h] at hl
    exact ⟨bs, hbs, (Nat.eq_of_mul_eq_mul_left (Nat.succ_pos 15) hl).symm⟩

/-! ### Layers of a round -/

/-- Row `i` moved `i` columns to the left. -/
def shiftRows (b : Block) : Block :=
  ⟨⟨b.c0.r0, b.c1.r1, b.c2.r2, b.c3.r3⟩, ⟨b.c1.r0, b.c2.r1, b.c3.r2, b.c0.r3⟩,
    ⟨b.c2.r0, b.c3.r1, b.c0.r2, b.c1.r3⟩, ⟨b.c3.r0, b.c0.r1, b.c1.r2, b.c2.r3⟩⟩

/-- Row `i` moved `i` columns to the right. -/
def unshiftRows (b : Block) : Block :=
  ⟨⟨b.c0.r0, b.c3.r1, b.c2.r2, b.c1.r3⟩, ⟨b.c1.r0, b.c0.r1, b.c3.r2, b.c2.r3⟩,
    ⟨b.c2.r0, b.c1.r1, b.c0.r2, b.c3.r3⟩, ⟨b.c3.r0, b.c2.r1, b.c1.r2, b.c0.r3⟩⟩

def substitute (b : Block) : Block := b.map (·.map Aes.substitute)

def unsubstitute (b : Block) : Block := b.map (·.map Aes.unsubstitute)

def mix (b : Block) : Block := b.map Column.mix

def unmix (b : Block) : Block := b.map Column.unmix

/-! ### Inverse layers -/

theorem unshiftRows_shiftRows (b : Block) : b.shiftRows.unshiftRows = b := rfl

theorem shiftRows_unshiftRows (b : Block) : b.unshiftRows.shiftRows = b := rfl

theorem unsubstitute_substitute (b : Block) : b.substitute.unsubstitute = b := by
  simp [unsubstitute, substitute, map,
    Column.map_map_of_inverse Aes.unsubstitute_substitute]

theorem substitute_unsubstitute (b : Block) : b.unsubstitute.substitute = b := by
  simp [unsubstitute, substitute, map,
    Column.map_map_of_inverse Aes.substitute_unsubstitute]

theorem unmix_mix (b : Block) : b.mix.unmix = b := by
  simp [mix, unmix, map, Column.unmix_mix]

theorem mix_unmix (b : Block) : b.unmix.mix = b := by
  simp [mix, unmix, map, Column.mix_unmix]

theorem xor_xor_self (a b : Block) : (a ^^^ b) ^^^ b = a := by
  have h := Column.xor_xor_self
  show mk _ _ _ _ = a
  simp only [HXor.hXor, XorOp.xor] at h ⊢
  simp [h]

theorem xor_def (a b : Block) :
    a ^^^ b = ⟨a.c0 ^^^ b.c0, a.c1 ^^^ b.c1, a.c2 ^^^ b.c2, a.c3 ^^^ b.c3⟩ := rfl

theorem xor_comm (a b : Block) : a ^^^ b = b ^^^ a := by
  rw [xor_def, xor_def, Column.xor_comm a.c0, Column.xor_comm a.c1, Column.xor_comm a.c2,
    Column.xor_comm a.c3]

theorem xor_assoc (a b c : Block) : (a ^^^ b) ^^^ c = a ^^^ (b ^^^ c) := by
  simp only [xor_def, Column.xor_assoc]

theorem xor_xor_self_left (a b : Block) : a ^^^ (a ^^^ b) = b := by
  rw [xor_comm a b, xor_comm a, xor_xor_self]

/-- The block in the middle falls out. -/
theorem xor_xor_xor_cancel (a b c : Block) : (a ^^^ b) ^^^ (b ^^^ c) = a ^^^ c := by
  rw [← xor_assoc, xor_xor_self]

theorem xor_left_inj {a b c : Block} : a ^^^ c = b ^^^ c ↔ a = b := by
  constructor
  · intro h
    rw [← xor_xor_self a c, h, xor_xor_self]
  · rintro rfl
    rfl

theorem xor_right_inj {a b c : Block} : a ^^^ b = a ^^^ c ↔ b = c := by
  rw [xor_comm a b, xor_comm a c, xor_left_inj]

end Block

end MessageCrypto.Aes
