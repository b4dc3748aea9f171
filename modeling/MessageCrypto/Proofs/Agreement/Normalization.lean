import MessageCrypto.Proofs.Agreement.Coordinates

/-! # Import undoes export up to the encoding

What is done with a public key depends on its point alone, while keys are equal if their bytes are.
Importing the coordinates of a key therefore gives a key that cannot be told from it in use, and
gives back the key itself only if its point was uncompressed. In the other direction nothing is
lost: coordinates that are imported are exported again byte for byte.

* `importCoordinates_eq_ok_iff_exists`, `importCoordinates_of_not_areCoordinates`: which coordinates
  are imported.
* `PublicKey.SameUse`: two keys that cannot be told apart in use.
* `PublicKey.normalize_bind_normalize`: the key that is imported from the coordinates of a key is
  its own.
* `coordinates_round_trip`: both directions. -/

namespace MessageCrypto

/-! ### Import -/

section
variable {x y : Bytes} (hx : x.length = 32) (hy : y.length = 32)
include hx

/-- Behind the mark 4 the first 32 bytes are `x` and the others `y`. -/
theorem P256.CurvePoint.ofBytes?_append_eq_some_iff {q : P256.CurvePoint} :
    ofBytes? (0x04 :: (x ++ y)) = some q ↔ q.x.toBytes = x ∧ q.y.toBytes = y := by
  rw [ofBytes?_eq_some_iff, P256.isEncoding_cons_iff]
  constructor
  · rintro (⟨-, h⟩ | ⟨hmark, -⟩ | ⟨hmark, -⟩)
    · have hlength : x.length = q.x.toBytes.length := hx.trans (P256.Field.length_toBytes q.x).symm
      exact (List.append_inj h hlength).imp Eq.symm Eq.symm
    · exact absurd hmark (by decide)
    · exact absurd hmark (by decide)
  · rintro ⟨hqx, hqy⟩
    exact .inl ⟨rfl, by rw [hqx, hqy]⟩

theorem importCoordinates_of_not_areCoordinates (h : ¬ P256.AreCoordinates x y) :
    importCoordinates x y = .error .pointOffCurve := by
  have hnone : P256.CurvePoint.ofBytes? (0x04 :: (x ++ y)) = none := by
    refine Option.eq_none_iff_forall_ne_some.2 fun q hq => h ?_
    exact P256.areCoordinates_iff.2 ⟨q, (P256.CurvePoint.ofBytes?_append_eq_some_iff hx).1 hq⟩
  rw [importCoordinates, hnone]

include hy

/-- **What is imported** are the coordinates of points, and the key holds the point. -/
theorem importCoordinates_eq_ok_iff_exists {key : PublicKey} :
    importCoordinates x y = .ok key ↔
      ∃ q : P256.CurvePoint, (q.x.toBytes = x ∧ q.y.toBytes = y) ∧
        key.algorithm = .ecdsa ∧ key.bytes = q.toDer := by
  constructor
  · intro h
    cases hq : P256.CurvePoint.ofBytes? (0x04 :: (x ++ y)) with
    | none =>
      rw [importCoordinates, hq] at h
      cases h
    | some q =>
      obtain ⟨rfl, rfl⟩ := (P256.CurvePoint.ofBytes?_append_eq_some_iff hx).1 hq
      exact ⟨q, ⟨rfl, rfl⟩, (importCoordinates_eq_ok_iff q).1 h⟩
  · rintro ⟨q, ⟨rfl, rfl⟩, hkey⟩
    exact (importCoordinates_eq_ok_iff q).2 hkey

theorem exists_importCoordinates_iff :
    (∃ key, importCoordinates x y = .ok key) ↔ P256.AreCoordinates x y := by
  rw [P256.areCoordinates_iff]
  constructor
  · rintro ⟨key, h⟩
    obtain ⟨q, hq, -⟩ := (importCoordinates_eq_ok_iff_exists hx hy).1 h
    exact ⟨q, hq⟩
  · rintro ⟨q, rfl, rfl⟩
    obtain ⟨key, hkey, -⟩ := exists_importCoordinates q
    exact ⟨key, hkey⟩

/-- **What is imported is exported again**, byte for byte. -/
theorem exportCoordinates_of_importCoordinates {key : PublicKey}
    (h : importCoordinates x y = .ok key) : exportCoordinates key = .ok (x, y) := by
  obtain ⟨q, hq, ha, hbytes⟩ := (importCoordinates_eq_ok_iff_exists hx hy).1 h
  have hpoint : key.toPoint = .ok q :=
    PublicKey.toPoint_eq_ok_iff.2 ⟨ha, hbytes ▸ q.ofDer?_toDer⟩
  exact exportCoordinates_eq_ok_iff.2 ⟨q, hpoint, hq⟩

end

namespace PublicKey

/-! ### Keys of one point -/

/-- **The second key does what the first does**: it has its coordinates, accepts the same
signatures, and leads to the same agreed keys. Where one of them fails so does the other, for the
same cause. -/
structure SameUse (key key' : PublicKey) : Prop where
  exports : exportCoordinates key' = exportCoordinates key
  verifies : ∀ s data, Ecdsa.verify key' s data = Ecdsa.verify key s data
  agrees : ∀ own, agree own key' = agree own key

variable {key key' : PublicKey} {q : P256.CurvePoint}

theorem SameUse.of_toPoint_eq (h : key'.toPoint = key.toPoint) : SameUse key key' where
  exports := by simp only [exportCoordinates, h]
  verifies s data := by simp only [Ecdsa.verify, h]
  agrees own := by simp only [agree, h]

/-! ### The key of the coordinates of a key -/

/-- The key that is imported from the coordinates of a key. -/
def normalize (key : PublicKey) : Except Error PublicKey := do
  let coordinates ← exportCoordinates key
  importCoordinates coordinates.1 coordinates.2

theorem normalize_of_toPoint_eq_ok (hq : key.toPoint = .ok q) :
    key.normalize = importCoordinates q.x.toBytes q.y.toBytes := by
  rw [normalize, exportCoordinates_eq_ok_iff.2 ⟨q, hq, rfl, rfl⟩]
  exact pure_bind (q.x.toBytes, q.y.toBytes) _

theorem normalize_eq_ok_iff (hq : key.toPoint = .ok q) :
    key.normalize = .ok key' ↔ key'.algorithm = .ecdsa ∧ key'.bytes = q.toDer := by
  rw [normalize_of_toPoint_eq_ok hq, importCoordinates_eq_ok_iff]

theorem exists_normalize (hq : key.toPoint = .ok q) :
    ∃ key', key.normalize = .ok key' ∧ key'.toPoint = .ok q := by
  rw [normalize_of_toPoint_eq_ok hq]
  exact exists_importCoordinates q

/-- **A key is its own** if its bytes are the container of the uncompressed point. -/
theorem normalize_eq_self_iff (hq : key.toPoint = .ok q) :
    key.normalize = .ok key ↔ key.bytes = P256.container q.uncompressed := by
  have halgorithm := (toPoint_eq_ok_iff.1 hq).1
  rw [normalize_eq_ok_iff hq, ← P256.encodePublicKey_eq q.length_uncompressed.le]
  exact and_iff_right halgorithm

/-- **Normalizing twice is normalizing once**, whether the key can be read or not. -/
theorem normalize_bind_normalize (key : PublicKey) :
    (key.normalize >>= normalize) = key.normalize := by
  cases hq : key.toPoint with
  | error e =>
    rw [normalize, exportCoordinates_of_toPoint_eq_error hq]
    rfl
  | ok q =>
    obtain ⟨key', hkey', hq'⟩ := exists_normalize hq
    rw [hkey']
    refine (pure_bind key' _).trans ?_
    rw [normalize_of_toPoint_eq_ok hq', ← normalize_of_toPoint_eq_ok hq, hkey']

end PublicKey

/-! ### Main statement -/

/-- **Import and export are inverse up to the encoding.** Two byte strings of 32 bytes are imported
exactly if they are the coordinates of a point, are turned down as an invalid key otherwise, and are
exported as they were imported. What is imported from the coordinates of a key has the same use, and
is the key itself exactly if that was the container of its point in the uncompressed form. Doing this
twice is doing it once, also for keys that cannot be read. -/
theorem coordinates_round_trip :
    (∀ x y : Bytes, x.length = 32 → y.length = 32 →
      ((∃ key, importCoordinates x y = .ok key) ↔ P256.AreCoordinates x y) ∧
      (¬ P256.AreCoordinates x y → FailsWith .invalidKey (importCoordinates x y)) ∧
      ∀ key, importCoordinates x y = .ok key → exportCoordinates key = .ok (x, y)) ∧
    (∀ (key : PublicKey) (q : P256.CurvePoint), key.toPoint = .ok q →
      ∃ x y key', exportCoordinates key = .ok (x, y) ∧ importCoordinates x y = .ok key' ∧
        key.SameUse key' ∧ (key' = key ↔ key.bytes = P256.container (0x04 :: (x ++ y)))) ∧
    ∀ key : PublicKey, (key.normalize >>= PublicKey.normalize) = key.normalize := by
  refine ⟨fun x y hx hy => ⟨exists_importCoordinates_iff hx hy, fun h => ?_, fun key =>
    exportCoordinates_of_importCoordinates hx hy⟩, fun key q hq => ?_,
    PublicKey.normalize_bind_normalize⟩
  · exact ⟨_, importCoordinates_of_not_areCoordinates hx h, rfl⟩
  · obtain ⟨key', hkey', hq'⟩ := PublicKey.exists_normalize hq
    have himport := (PublicKey.normalize_of_toPoint_eq_ok hq).symm.trans hkey'
    refine ⟨q.x.toBytes, q.y.toBytes, key', exportCoordinates_eq_ok_iff.2 ⟨q, hq, rfl, rfl⟩,
      himport, .of_toPoint_eq (hq'.trans hq.symm), ?_⟩
    rw [← P256.CurvePoint.uncompressed, ← PublicKey.normalize_eq_self_iff hq, hkey',
      Except.ok.injEq]

/-- The compressed generator comes back uncompressed and with the same use; its `x` in place of its
`y` is turned down. -/
theorem coordinates_round_trip_generator :
    unitPublicKey.toPoint = .ok .generator ∧
    (∃ x y key, exportCoordinates unitPublicKey = .ok (x, y) ∧ importCoordinates x y = .ok key ∧
      unitPublicKey.SameUse key ∧ key ≠ unitPublicKey) ∧
    P256.CurvePoint.generator.x.toBytes.length = 32 ∧
    ¬ P256.AreCoordinates P256.CurvePoint.generator.x.toBytes
      P256.CurvePoint.generator.x.toBytes ∧
    FailsWith .invalidKey
      (importCoordinates P256.CurvePoint.generator.x.toBytes
        P256.CurvePoint.generator.x.toBytes) := by
  obtain ⟨himport, hkeys, -⟩ := coordinates_round_trip
  obtain ⟨x, y, key, hexport, hkey, huse, hself⟩ := hkeys _ _ toPoint_unitPublicKey
  have hlength := P256.Field.length_toBytes P256.CurvePoint.generator.x
  have hoff : ¬ P256.AreCoordinates P256.CurvePoint.generator.x.toBytes
      P256.CurvePoint.generator.x.toBytes := fun h => absurd h.equation (by decide +kernel)
  refine ⟨toPoint_unitPublicKey, ⟨x, y, key, hexport, hkey, huse, fun h => ?_⟩, hlength, hoff,
    (himport _ _ hlength hlength).2.1 hoff⟩
  -- behind the 26 bytes that are the same in all containers stands the mark of the point
  have hmark : unitPublicKey.bytes[26]? = some 0x04 := by
    rw [hself.1 h]
    rfl
  exact absurd hmark (by decide +kernel)

end MessageCrypto
