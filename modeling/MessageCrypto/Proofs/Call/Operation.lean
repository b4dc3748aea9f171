import MessageCrypto.Agreement
import MessageCrypto.Encryption
import MessageCrypto.Generation
import MessageCrypto.Integer
import MessageCrypto.Proofs.Draw
import MessageCrypto.Proofs.Signing.Dispatch

/-! # The operations of the library

What holds whichever operation is called is stated over calls: an operation together with its
arguments. A call may draw random bytes, and returns something or fails; both are said for all bytes
that the source may give.

* `Call`, `Call.run`: every operation that the library offers.
* `Call.keys`, `Call.withKey`: the keys among the arguments, and the call with another key in place
  of one of them.
* `Call.Fails`, `Call.Returns`: the outcomes. -/

namespace MessageCrypto

/-! ### Keys of one kind and tag -/

/-- Keys that differ in their bytes at most. -/
structure Key.SameTag (K L : Key) : Prop where
  kind_eq : K.kind = L.kind
  algorithm_eq : K.algorithm = L.algorithm

/-! ### Calls -/

/-- An operation with its arguments. -/
inductive Call where
  | digest (f : HashFunction) (message : Bytes)
  | readInteger (bytes : Bytes)
  | readSignatureScheme (name : String)
  | readEncryptionScheme (name : String)
  | extract (material salt : Bytes)
  | expand (material salt context : Bytes)
  | derive (master : SecretKey) (purpose : String)
  | encryptWith (key : SecretKey) (vector plaintext : Bytes)
  | decryptWith (key : SecretKey) (vector ciphertext : Bytes)
  | encrypt (master : SecretKey) (scheme : EncryptionScheme) (vector plaintext : Bytes)
  | decrypt (master : SecretKey) (scheme : EncryptionScheme) (vector ciphertext : Bytes)
  | signHmac (key : SecretKey) (data : Bytes)
  | verifyHmac (key : SecretKey) (signature data : Bytes)
  | signEcdsa (key : PrivateKey) (data : Bytes)
  | verifyEcdsa (key : PublicKey) (signature data : Bytes)
  | signRsa (key : PrivateKey) (data : Bytes)
  | verifyRsa (key : PublicKey) (signature data : Bytes)
  | sign (scheme : SignatureScheme) (key : Key) (data : Bytes)
  | verify (scheme : SignatureScheme) (key : Key) (signature data : Bytes)
  | agree (own : PrivateKey) (peer : PublicKey)
  | exportCoordinates (key : PublicKey)
  | importCoordinates (x y : Bytes)
  | importSecret (bytes : Bytes)
  | importPrivate (algorithm : KeyAlgorithm) (bytes : Bytes)
  | importPublic (algorithm : KeyAlgorithm) (bytes : Bytes)
  | randomBytes (length : Nat)
  | randomVector (scheme : EncryptionScheme)
  | generateSecret
  | generateEc
  | generateRsa

/-- What a call returns. -/
inductive Output where
  | accepted
  | verdict (valid : Bool)
  | integer (value : Int32)
  | signatureScheme (scheme : SignatureScheme)
  | encryptionScheme (scheme : EncryptionScheme)
  | bytes (bytes : Bytes)
  | vector (bytes : Option Bytes)
  | coordinates (x y : Bytes)
  | key (key : Key)
  | pair (pair : KeyPair)

/-- The keys in what a call returns. -/
def Output.keys : Output → List Key
  | key k => [k]
  | pair p => [.privateHalf p.privateKey, .publicHalf p.publicKey]
  | _ => []

namespace Call

/-- The operation itself. -/
def run : Call → Draw (Except Error Output)
  | digest f message => pure ((f.digest message).map .bytes)
  | readInteger bytes => pure ((Integer.decode bytes).map .integer)
  | readSignatureScheme name => pure ((SignatureScheme.read name).map .signatureScheme)
  | readEncryptionScheme name => pure ((EncryptionScheme.read name).map .encryptionScheme)
  | extract material salt => pure ((Derivation.extract material salt).map .bytes)
  | expand material salt context => pure ((Derivation.derive material salt context).map .bytes)
  | derive master purpose => pure ((master.derive purpose).map (.key ∘ .secret))
  | encryptWith key vector plaintext =>
    pure ((Aes256Cbc.encrypt key vector plaintext).map .bytes)
  | decryptWith key vector ciphertext =>
    pure ((Aes256Cbc.decrypt key vector ciphertext).map .bytes)
  | encrypt master scheme vector plaintext =>
    pure ((MessageCrypto.encrypt master scheme vector plaintext).map .bytes)
  | decrypt master scheme vector ciphertext =>
    pure ((MessageCrypto.decrypt master scheme vector ciphertext).map .bytes)
  | signHmac key data => pure ((Hmac.tag key data).map .bytes)
  | verifyHmac key signature data =>
    pure ((Hmac.verify key signature data).map fun _ => .accepted)
  | signEcdsa key data => pure ((Ecdsa.sign key data).map .bytes)
  | verifyEcdsa key signature data =>
    pure ((Ecdsa.verify key signature data).map fun _ => .accepted)
  | signRsa key data => (·.map .bytes) <$> Rsa2048.sign key data
  | verifyRsa key signature data =>
    pure ((Rsa2048.verify key signature data).map fun _ => .accepted)
  | sign scheme key data => (·.map .bytes) <$> MessageCrypto.sign scheme key data
  | verify scheme key signature data =>
    pure (.ok (.verdict (MessageCrypto.verify scheme key signature data)))
  | agree own peer => pure ((MessageCrypto.agree own peer).map (.key ∘ .secret))
  | exportCoordinates key =>
    pure ((MessageCrypto.exportCoordinates key).map fun (x, y) => .coordinates x y)
  | importCoordinates x y =>
    pure ((MessageCrypto.importCoordinates x y).map (.key ∘ .publicHalf))
  | importSecret bytes => pure ((SecretKey.ofBytes bytes).map (.key ∘ .secret))
  | importPrivate algorithm bytes =>
    pure ((PrivateKey.ofDer algorithm bytes).map (.key ∘ .privateHalf))
  | importPublic algorithm bytes =>
    pure ((PublicKey.ofDer algorithm bytes).map (.key ∘ .publicHalf))
  | randomBytes length => (·.map .bytes) <$> MessageCrypto.randomBytes length
  | randomVector scheme => (.ok ∘ .vector) <$> randomVector? scheme
  | generateSecret => (·.map (.key ∘ .secret)) <$> SecretKey.generate
  | generateEc => (·.map .pair) <$> KeyPair.generateEc
  | generateRsa => (·.map .pair) <$> KeyPair.generateRsa

/-- The keys among the arguments. -/
def keys : Call → List Key
  | derive key _ | encryptWith key _ _ | decryptWith key _ _ | encrypt key _ _ _
  | decrypt key _ _ _ | signHmac key _ | verifyHmac key _ _ => [.secret key]
  | signEcdsa key _ | signRsa key _ => [.privateHalf key]
  | verifyEcdsa key _ _ | verifyRsa key _ _ | exportCoordinates key => [.publicHalf key]
  | sign _ key _ | verify _ key _ _ => [key]
  | agree own peer => [.privateHalf own, .publicHalf peer]
  | _ => []

/-- The call with a key in place of the argument of its kind, if there is one. -/
def withKey : Call → Key → Call
  | derive _ purpose, .secret key => derive key purpose
  | encryptWith _ vector plaintext, .secret key => encryptWith key vector plaintext
  | decryptWith _ vector ciphertext, .secret key => decryptWith key vector ciphertext
  | encrypt _ scheme vector plaintext, .secret key => encrypt key scheme vector plaintext
  | decrypt _ scheme vector ciphertext, .secret key => decrypt key scheme vector ciphertext
  | signHmac _ data, .secret key => signHmac key data
  | verifyHmac _ signature data, .secret key => verifyHmac key signature data
  | signEcdsa _ data, .privateHalf key => signEcdsa key data
  | verifyEcdsa _ signature data, .publicHalf key => verifyEcdsa key signature data
  | signRsa _ data, .privateHalf key => signRsa key data
  | verifyRsa _ signature data, .publicHalf key => verifyRsa key signature data
  | sign scheme _ data, key => sign scheme key data
  | verify scheme _ signature data, key => verify scheme key signature data
  | agree _ peer, .privateHalf own => agree own peer
  | agree own _, .publicHalf peer => agree own peer
  | exportCoordinates _, .publicHalf key => exportCoordinates key
  | c, _ => c

/-! ### Outcomes -/

/-- For some random bytes the call fails for a cause. -/
def Fails (c : Call) (e : Error) : Prop := c.run.Yields (.error e)

/-- For some random bytes the call returns something. -/
def Returns (c : Call) (out : Output) : Prop := c.run.Yields (.ok out)

theorem yields_pure_map_error_iff {α : Type} {x : Except Error α} {f : α → Output} {e : Error} :
    (pure (x.map f) : Draw _).Yields (.error e) ↔ x = .error e := by
  rw [Draw.yields_pure, eq_comm, map_eq_error_iff]

theorem yields_pure_map_ok_iff {α : Type} {x : Except Error α} {f : α → Output} {out : Output} :
    (pure (x.map f) : Draw _).Yields (.ok out) ↔ ∃ a, x = .ok a ∧ f a = out := by
  rw [Draw.yields_pure, eq_comm, map_eq_ok_iff]

theorem yields_map_error_iff {α : Type} {d : Draw (Except Error α)} {f : α → Output} {e : Error} :
    ((·.map f) <$> d).Yields (.error e) ↔ d.Yields (.error e) := by
  simp only [Draw.yields_map, map_eq_error_iff, exists_eq_right]

theorem yields_map_ok_iff {α : Type} {d : Draw (Except Error α)} {f : α → Output} {out : Output} :
    ((·.map f) <$> d).Yields (.ok out) ↔ ∃ a, d.Yields (.ok a) ∧ f a = out := by
  simp only [Draw.yields_map, map_eq_ok_iff]
  constructor
  · rintro ⟨_, hx, a, rfl, rfl⟩
    exact ⟨a, hx, rfl⟩
  · rintro ⟨a, ha, rfl⟩
    exact ⟨_, ha, a, rfl, rfl⟩

end Call

end MessageCrypto
