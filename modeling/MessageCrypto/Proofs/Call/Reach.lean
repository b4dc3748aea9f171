import MessageCrypto.Proofs.Agreement.Secret
import MessageCrypto.Proofs.Call.Failure

/-! # Reachable keys

A key is the result of a call: it was imported, generated, derived, agreed on or made from
coordinates, and the keys that this call took came out of earlier calls. Each constructor checks
what it is given, so that no key is without bytes and no half of a pair has the tag of secret keys;
everything else can be imported. Operations that start from a key therefore never see the inputs
that their last checks are for.

* `Key.Reachable`: the keys that calls return.
* `Key.exists_reachable_iff`: which tags and bytes such keys have.
* `well_formed_keys_leave_branches_dead`: what never fails for them. -/

namespace MessageCrypto

/-! ### Reachability -/

/-- **A key that a call returns**, of keys that are reachable themselves. -/
inductive Key.Reachable : Key → Prop where
  | of_call {c : Call} {out : Output} {K : Key} (hargs : ∀ L ∈ c.keys, Reachable L)
      (hreturns : c.Returns out) (hmem : K ∈ out.keys) : Reachable K

/-- The tags of the keys of a kind. -/
def Key.Kind.Admits : Key.Kind → KeyAlgorithm → Prop
  | secret, a => a = .aes256
  | privateHalf, a | publicHalf, a => a = .ecdsa ∨ a = .rsa

theorem KeyAlgorithm.ne_aes256_iff {a : KeyAlgorithm} : a ≠ aes256 ↔ a = ecdsa ∨ a = rsa := by
  cases a <;> decide

namespace Key

theorem kind_admits (K : Key) : K.kind.Admits K.algorithm := by
  cases K with
  | secret key => exact rfl
  | privateHalf key => exact KeyAlgorithm.ne_aes256_iff.1 key.asymmetric
  | publicHalf key => exact KeyAlgorithm.ne_aes256_iff.1 key.asymmetric

theorem bytes_ne_nil (K : Key) : K.bytes ≠ [] := by
  cases K with
  | secret key => exact key.nonempty
  | privateHalf key => exact key.nonempty
  | publicHalf key => exact key.nonempty

/-- A call that takes no keys makes what it returns reachable. -/
theorem Reachable.of_keys_eq_nil {c : Call} {K : Key} (hnil : c.keys = [])
    (hreturns : c.Returns (.key K)) : K.Reachable :=
  of_call (hnil ▸ List.forall_mem_nil _) hreturns (List.mem_singleton_self _)

/-- Importing is enough to reach every key. -/
theorem reachable (K : Key) : K.Reachable := by
  cases K with
  | secret key =>
    refine .of_keys_eq_nil (c := .importSecret key.bytes) rfl ?_
    exact Call.yields_pure_map_ok_iff.2 ⟨key, dif_neg key.nonempty, rfl⟩
  | privateHalf key =>
    refine .of_keys_eq_nil (c := .importPrivate key.algorithm key.bytes) rfl ?_
    exact Call.yields_pure_map_ok_iff.2 ⟨key, PrivateKey.ofDer_eq_ok_iff.2 ⟨rfl, rfl⟩, rfl⟩
  | publicHalf key =>
    refine .of_keys_eq_nil (c := .importPublic key.algorithm key.bytes) rfl ?_
    exact Call.yields_pure_map_ok_iff.2 ⟨key, PublicKey.ofDer_eq_ok_iff.2 ⟨rfl, rfl⟩, rfl⟩

theorem exists_of_admits {kind : Kind} {algorithm : KeyAlgorithm} {bytes : Bytes}
    (ha : kind.Admits algorithm) (hb : bytes ≠ []) :
    ∃ K : Key, K.kind = kind ∧ K.algorithm = algorithm ∧ K.bytes = bytes := by
  cases kind with
  | secret => exact ⟨.secret ⟨bytes, hb⟩, rfl, ha.symm, rfl⟩
  | privateHalf =>
    exact ⟨.privateHalf ⟨⟨algorithm, bytes, KeyAlgorithm.ne_aes256_iff.2 ha, hb⟩⟩, rfl, rfl, rfl⟩
  | publicHalf =>
    exact ⟨.publicHalf ⟨⟨algorithm, bytes, KeyAlgorithm.ne_aes256_iff.2 ha, hb⟩⟩, rfl, rfl, rfl⟩

/-- **The keys that are reached**: any bytes but the empty ones, under the tags of the kind. -/
theorem exists_reachable_iff {kind : Kind} {algorithm : KeyAlgorithm} {bytes : Bytes} :
    (∃ K : Key, K.Reachable ∧ K.kind = kind ∧ K.algorithm = algorithm ∧ K.bytes = bytes) ↔
      kind.Admits algorithm ∧ bytes ≠ [] := by
  constructor
  · rintro ⟨K, -, rfl, rfl, rfl⟩
    exact ⟨K.kind_admits, K.bytes_ne_nil⟩
  · rintro ⟨ha, hb⟩
    obtain ⟨K, hK⟩ := exists_of_admits ha hb
    exact ⟨K, K.reachable, hK⟩

end Key

/-! ### What starts from a key -/

theorem agree_eq_error_iff_readFails {own : PrivateKey} {peer : PublicKey} {e : Error} :
    agree own peer = .error e ↔
      own.ReadFails .ecdsa (P256.Scalar.ofDer? own.bytes) .malformedEcPrivateKey e ∨
      (∃ d, own.algorithm = .ecdsa ∧ P256.Scalar.ofDer? own.bytes = some d) ∧
        peer.ReadFails .ecdsa (P256.CurvePoint.ofDer? peer.bytes) .malformedEcPublicKey e := by
  rw [agree_eq_error_iff, PrivateKey.toScalar_eq_error_iff, PublicKey.toPoint_eq_error_iff]
  simp only [PrivateKey.toScalar_eq_ok_iff]

theorem length_of_agree {own : PrivateKey} {peer : PublicKey} {k : SecretKey}
    (h : agree own peer = .ok k) : k.bytes.length = 32 := by
  obtain ⟨d, hd, hagree⟩ := bind_eq_ok_iff.1 h
  obtain ⟨q, hq, -⟩ := bind_eq_ok_iff.1 hagree
  rw [agree_eq hd hq] at h
  obtain rfl := Except.ok.inj h
  exact length_sharedKey d q.toPoint

/-- What is hashed in an agreement is never empty. -/
theorem agree_ne_emptyMessage {own : PrivateKey} {peer : PublicKey} :
    agree own peer ≠ .error .emptyMessage := by
  intro h
  obtain (⟨-, hother⟩ | ⟨-, -, hother⟩) | ⟨-, ⟨-, hother⟩ | ⟨-, -, hother⟩⟩ :=
    agree_eq_error_iff_readFails.1 h
  all_goals cases hother

theorem Error.kind_eq_encryptionFailed_iff {e : Error} :
    e.kind = .encryptionFailed ↔ e = .brokenBlocks := by
  cases e <;> simp [kind]

theorem Error.ne_of_isDead {e d : Error} (he : ¬ e.IsDead) (hd : d.IsDead) : e ≠ d :=
  fun h => he (h ▸ hd)

/-! ### Main statement -/

/-- **Well-formed keys leave branches dead.** The reachable keys are those with bytes under a tag of
their kind. From each secret key a key of 32 bytes is derived for every purpose, and every message
gets a tag of 32 bytes. An agreement fails for a key with another tag or malformed bytes, the own
key first, and else gives 32 bytes. No call fails in an expansion, in an encryption, for the length
of a key of HMAC, at the point at infinity or in writing a key, and no agreement for an empty
message. -/
theorem well_formed_keys_leave_branches_dead :
    (∀ (kind : Key.Kind) (algorithm : KeyAlgorithm) (bytes : Bytes),
      (∃ K : Key, K.Reachable ∧ K.kind = kind ∧ K.algorithm = algorithm ∧ K.bytes = bytes) ↔
        kind.Admits algorithm ∧ bytes ≠ []) ∧
    (∀ (key : SecretKey) (purpose : String) (data : Bytes),
      (∃ k, key.derive purpose = .ok k ∧ k.bytes.length = 32) ∧
      (∃ s, Hmac.tag key data = .ok s ∧ s.length = 32) ∧
      ∃ s, sign .hmacSha256 (.secret key) data = pure (.ok s) ∧ s.length = 32) ∧
    (∀ (own : PrivateKey) (peer : PublicKey),
      (∀ e, agree own peer = .error e ↔
        own.ReadFails .ecdsa (P256.Scalar.ofDer? own.bytes) .malformedEcPrivateKey e ∨
        (∃ d, own.algorithm = .ecdsa ∧ P256.Scalar.ofDer? own.bytes = some d) ∧
          peer.ReadFails .ecdsa (P256.CurvePoint.ofDer? peer.bytes) .malformedEcPublicKey e) ∧
      ∀ k, agree own peer = .ok k → k.bytes.length = 32) ∧
    ∀ (c : Call) (e : Error), c.Fails e →
      e ≠ .expansionFailed ∧ e.kind ≠ .encryptionFailed ∧ e ≠ .macKeyLength ∧
      e ≠ .identityPoint ∧ e ≠ .unwritablePoint ∧ (∀ encoding, e ≠ .unwritablePair encoding) ∧
      ∀ own peer, c = .agree own peer → e ≠ .emptyMessage := by
  refine ⟨fun kind algorithm bytes => Key.exists_reachable_iff, fun key purpose data => ?_,
    fun own peer => ⟨fun e => agree_eq_error_iff_readFails, fun k => length_of_agree⟩,
    fun c e h => ?_⟩
  · exact ⟨⟨key.derived purpose, key.derive_eq purpose, key.length_derived purpose⟩,
      ⟨_, Hmac.tag_eq key data, Hash.length_hmac _ _⟩,
      ⟨_, sign_secret key data, Hash.length_hmac _ _⟩⟩
  · have hlive : ¬ e.IsDead := Call.not_isDead_of_fails h
    refine ⟨Error.ne_of_isDead hlive trivial, fun hkind => ?_, Error.ne_of_isDead hlive trivial,
      Error.ne_of_isDead hlive trivial, Error.ne_of_isDead hlive trivial,
      fun encoding => Error.ne_of_isDead hlive trivial, ?_⟩
    · obtain rfl := Error.kind_eq_encryptionFailed_iff.1 hkind
      exact hlive trivial
    · rintro own peer rfl rfl
      exact agree_ne_emptyMessage (Call.yields_pure_map_error_iff.1 h)

/-! ### A key that is no encoding -/

/-- A private key of one byte, tagged for ECDSA. -/
def malformedKey : PrivateKey :=
  ⟨⟨.ecdsa, [0], KeyAlgorithm.ecdsa_ne_aes256, List.cons_ne_nil _ _⟩⟩

/-- A reachable key that agrees with no other, and two keys that agree. -/
theorem well_formed_keys_leave_branches_dead_malformed :
    (∃ K : Key, K.Reachable ∧ K.kind = .privateHalf ∧ K.algorithm = .ecdsa ∧ K.bytes = [0]) ∧
    (Call.agree malformedKey unitPublicKey).Fails .malformedEcPrivateKey ∧
    Error.malformedEcPrivateKey.kind ≠ .encryptionFailed ∧
    ∃ k, agree unitPrivateKey unitPublicKey = .ok k ∧ k.bytes.length = 32 := by
  obtain ⟨hreach, -, hagree, hfails⟩ := well_formed_keys_leave_branches_dead
  have hmalformed : agree malformedKey unitPublicKey = .error .malformedEcPrivateKey :=
    ((hagree _ _).1 _).2 (.inl (.inr ⟨rfl, rfl, rfl⟩))
  have hcall : (Call.agree malformedKey unitPublicKey).Fails .malformedEcPrivateKey :=
    Call.yields_pure_map_error_iff.2 hmalformed
  have hunit := agree_eq toScalar_unitPrivateKey toPoint_unitPublicKey
  exact ⟨(hreach _ _ _).2 ⟨.inl rfl, List.cons_ne_nil _ _⟩, hcall, (hfails _ _ hcall).2.1,
    _, hunit, (hagree _ _).2 _ hunit⟩

end MessageCrypto
