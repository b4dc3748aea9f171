import MessageCrypto.Proofs.Agreement.Coordinates
import MessageCrypto.Proofs.Cli.Refinement
import MessageCrypto.Proofs.Encryption.RoundTrip
import MessageCrypto.Proofs.Signing.RoundTrip

/-! # What the program writes, the program reads

The output of one command is typed as input of another: the vector and the ciphertext that are
written by encryption are decrypted to the data, and the signature that is written by signing is
valid. The arguments may come in any order, with the key from the environment or not, and the vector
may be given or drawn.

* `encrypt_output`, `runs_decrypt_iff`: what encryption writes, and its decryption.
* `sign_output`, `runs_verify_iff`: what signing writes, and its check.
* `program_round_trip`: the outcomes of the program. -/

namespace MessageCrypto.Cli

variable {text : Bool} {key data output : String}

/-! ### Encryption -/

/-- What an encryption has written. -/
theorem encrypt_output {scheme : EncryptionScheme} {vector : Option String}
    (h : ((Command.encrypt key scheme vector data).run text).Yields (.ok output)) :
    ∃ master iv plaintext ciphertext, KeyDecodes .secret .aes256 key (.secret master) ∧
      DataDecodes text data plaintext ∧ encrypt master scheme iv plaintext = .ok ciphertext ∧
      output = encryptionLines iv ciphertext := by
  rw [Command.run] at h
  cases hdata : decodeData text data with
  | error f =>
    rw [hdata] at h
    cases Draw.yields_pure.1 h
  | ok plaintext =>
    rw [hdata] at h
    -- whether the vector was given or drawn, the run goes on with it in the same way
    obtain ⟨vector, -, h⟩ := Draw.yields_bind_iff.1 h
    obtain ⟨iv, -, h⟩ := bind_eq_ok_iff.1 (Draw.yields_pure.1 h).symm
    obtain ⟨master, hmaster, h⟩ := bind_eq_ok_iff.1 h
    obtain ⟨ciphertext, hciphertext, h⟩ := bind_eq_ok_iff.1 h
    exact ⟨master, iv, plaintext, ciphertext, decodeSecretKey_eq_ok_iff.1 hmaster,
      decodeData_eq_ok_iff.1 hdata, mapError_eq_ok_iff.1 hciphertext, (Except.ok.inj h).symm⟩

/-- Decryption of what an encryption has written. -/
theorem runs_decrypt_iff {master : SecretKey} {iv plaintext ciphertext : Bytes} {o : Outcome}
    (hkey : KeyDecodes .secret .aes256 key (.secret master))
    (h : encrypt master .aes256Cbc iv plaintext = .ok ciphertext) :
    Runs text (.decrypt key .aes256Cbc (Hex.encode iv) (Hex.encode ciphertext)) o ↔
      o = ⟨0, hexLine plaintext, ""⟩ := by
  have hdecrypt : decrypt master .aes256Cbc iv ciphertext = .ok plaintext := by
    rw [decrypt_eq, Aes256Cbc.decrypt_eq_ok_iff_encrypt, ← encrypt_eq, h]
  have hcalls : Command.Calls text (.decrypt key .aes256Cbc (Hex.encode iv) (Hex.encode ciphertext))
      (.decrypt master .aes256Cbc iv ciphertext) :=
    .decrypt hkey (hexDecodes_encode iv) (hexDecodes_encode ciphertext)
  have hrun : (Call.decrypt master .aes256Cbc iv ciphertext).run = pure (.ok (.bytes plaintext)) := by
    rw [Call.run, hdecrypt]
    rfl
  exact runs_iff_of_calls hcalls hrun rfl

/-! ### Signatures -/

section Signatures
variable {scheme : SignatureScheme}

/-- What signing has written. -/
theorem sign_output (h : ((Command.sign scheme key data).run text).Yields (.ok output)) :
    ∃ K message signature, KeyDecodes scheme.signingKind scheme.keyAlgorithm key K ∧
      DataDecodes text data message ∧ (sign scheme K message).Yields (.ok signature) ∧
      output = hexLine signature := by
  obtain ⟨c, hcalls, out, hreturns, hlayout⟩ := (refines_sign.ok_iff output).1 h
  cases hcalls with
  | sign hdata hkey =>
    obtain ⟨signature, hsign, rfl⟩ := Call.yields_map_ok_iff.1 hreturns
    exact ⟨_, _, signature, hkey, hdata, hsign, (Option.some.inj hlayout).symm⟩

/-- Checking what signing has written, with a key that matches. -/
theorem runs_verify_iff {K L : Key} {peer : String} {message signature : Bytes} {o : Outcome}
    (hdata : DataDecodes text data message) (hsign : (sign scheme K message).Yields (.ok signature))
    (hpeer : KeyDecodes scheme.verifyingKind scheme.keyAlgorithm peer L)
    (hmatches : scheme.Matches K L) :
    Runs text (.verify scheme peer (Hex.encode signature) data) o ↔ o = ⟨0, line "valid", ""⟩ := by
  have hcalls : Command.Calls text (.verify scheme peer (Hex.encode signature) data)
      (.verify scheme L signature message) :=
    .verify hdata (hexDecodes_encode signature) hpeer
  have hrun : (Call.verify scheme L signature message).run = pure (.ok (.verdict true)) := by
    rw [Call.run, verify_of_sign hmatches hsign]
  exact runs_iff_of_calls hcalls hrun rfl

end Signatures

/-! ### The program -/

/-- **What the program writes, it reads.** If encryption exits with 0, it has written a vector and a
ciphertext that are decrypted, under the same key, to the data, on whatever command line; without a
cipher it never exits with 0. If signing exits with 0, it has written a signature that is valid for
the same data in the same mode, under every key that matches the key that has signed. -/
theorem program_round_trip (text : Bool) (key data : String) (o : Outcome) :
    (∀ vector, Runs text (.encrypt key .aes256Cbc vector data) o → o.exitCode = 0 →
      ∃ iv ciphertext plaintext, o.stdout = encryptionLines iv ciphertext ∧
        DataDecodes text data plaintext ∧
        ∀ mode o', Runs mode (.decrypt key .aes256Cbc (Hex.encode iv) (Hex.encode ciphertext)) o' ↔
          o' = ⟨0, hexLine plaintext, ""⟩) ∧
    (∀ vector, Runs text (.encrypt key .none vector data) o → o.exitCode ≠ 0) ∧
    ∀ scheme, Runs text (.sign scheme key data) o → o.exitCode = 0 →
      ∃ K signature, KeyDecodes scheme.signingKind scheme.keyAlgorithm key K ∧
        o.stdout = hexLine signature ∧
        ∀ peer L, KeyDecodes scheme.verifyingKind scheme.keyAlgorithm peer L →
          scheme.Matches K L →
          ∀ o', Runs text (.verify scheme peer (Hex.encode signature) data) o' ↔
            o' = ⟨0, line "valid", ""⟩ := by
  refine ⟨fun vector hruns h0 => ?_, fun vector hruns h0 => ?_, fun scheme hruns h0 => ?_⟩
  · obtain ⟨output, houtput, hstdout⟩ := hruns.exists_output h0
    obtain ⟨master, iv, plaintext, ciphertext, hkey, hdata, hencrypt, rfl⟩ :=
      encrypt_output houtput
    exact ⟨iv, ciphertext, plaintext, hstdout, hdata, fun mode o' => runs_decrypt_iff hkey hencrypt⟩
  · obtain ⟨output, houtput, -⟩ := hruns.exists_output h0
    obtain ⟨master, iv, plaintext, ciphertext, -, -, hencrypt, -⟩ := encrypt_output houtput
    cases hencrypt
  · obtain ⟨output, houtput, hstdout⟩ := hruns.exists_output h0
    obtain ⟨K, message, signature, hkey, hdata, hsign, rfl⟩ := sign_output houtput
    exact ⟨K, signature, hkey, hstdout,
      fun peer L hpeer hmatches o' => runs_verify_iff hdata hsign hpeer hmatches⟩

/-- A text is encrypted under a key of one byte, nothing is encrypted without a cipher, and the
empty message is signed with the scalar 1. -/
theorem program_round_trip_unit :
    (∃ o, Runs true (.encrypt "00" .aes256Cbc (some (Hex.encode (List.replicate 16 0))) "hi") o ∧
      o.exitCode = 0 ∧ ∃ iv ciphertext, o.stdout = encryptionLines iv ciphertext ∧
        ∀ o', Runs false (.decrypt "00" .aes256Cbc (Hex.encode iv) (Hex.encode ciphertext)) o' ↔
          o' = ⟨0, line "6869", ""⟩) ∧
    (∃ o, Runs false (.encrypt "00" .none (some "00") "") o ∧ o.exitCode ≠ 0) ∧
    ∃ o, Runs false (.sign .ecdsaP256Sha256 (Hex.encode unitPrivateKey.bytes) "") o ∧
      o.exitCode = 0 ∧ ∃ signature, o.stdout = hexLine signature ∧
        ∀ o', Runs false (.verify .ecdsaP256Sha256 (Hex.encode unitPublicKey.bytes)
          (Hex.encode signature) "") o' ↔ o' = ⟨0, line "valid", ""⟩ := by
  refine ⟨?_, ?_, ?_⟩
  · have hdata : DataDecodes true "hi" (Bytes.ofString "hi") := dataDecodes_true_iff.2 rfl
    have hkey : KeyDecodes .secret .aes256 "00" (.secret ⟨[0], List.cons_ne_nil _ _⟩) :=
      ⟨[0], rfl, rfl⟩
    obtain ⟨ciphertext, hencrypt⟩ := (exists_encrypt_iff ⟨[0], List.cons_ne_nil _ _⟩
      (List.replicate 16 0) (Bytes.ofString "hi")).2 rfl
    have hrun : (Call.encrypt ⟨[0], List.cons_ne_nil _ _⟩ .aes256Cbc (List.replicate 16 0)
        (Bytes.ofString "hi")).run = pure (.ok (.bytes ciphertext)) := by
      rw [Call.run, hencrypt]
      rfl
    have hruns := (runs_iff_of_calls (.encrypt hdata (hexDecodes_encode _) hkey) hrun rfl).2 rfl
    obtain ⟨iv, blocks, plaintext, hstdout, hplaintext, hdecrypt⟩ :=
      (program_round_trip true "00" "hi" _).1 _ hruns rfl
    obtain rfl := hdata.unique hplaintext
    have hhex : hexLine (Bytes.ofString "hi") = line "6869" := rfl
    exact ⟨_, hruns, rfl, iv, blocks, hstdout, hhex ▸ hdecrypt false⟩
  · have hinputs : (Command.encrypt "00" .none (some "00") "").inputs ≠ [] := by
      simp [Command.inputs]
    have hruns := (runs_iff_of_run_eq (Command.exists_readProgram false hinputs) run_encrypt).2 rfl
    exact ⟨_, hruns, (program_round_trip false "00" "" _).2.1 _ hruns⟩
  · have hdata : DataDecodes false "" [] := dataDecodes_false_iff.2 rfl
    have hkey := keyDecodes_encode (.privateHalf unitPrivateKey)
    have hpeer := keyDecodes_encode (.publicHalf unitPublicKey)
    obtain ⟨s, hsign⟩ := exists_sign_unitPrivateKey
    have hcalls : Command.Calls false
        (.sign .ecdsaP256Sha256 (Hex.encode unitPrivateKey.bytes) "")
        (.sign .ecdsaP256Sha256 (.privateHalf unitPrivateKey) []) := .sign hdata hkey
    have hrun : (Call.sign .ecdsaP256Sha256 (.privateHalf unitPrivateKey) []).run =
        pure (.ok (.bytes s)) := by
      rw [Call.run, sign_privateHalf, hsign]
      rfl
    have hruns := (runs_iff_of_calls hcalls hrun rfl).2 rfl
    obtain ⟨K, signature, hK, hstdout, hverify⟩ :=
      (program_round_trip false _ "" _).2.2 .ecdsaP256Sha256 hruns rfl
    obtain rfl := hkey.unique hK
    exact ⟨_, hruns, rfl, signature, hstdout, hverify _ _ hpeer
      (.ecdsa toScalar_unitPrivateKey toPoint_unitPublicKey toPoint_generator_eq_unitScalar)⟩

end MessageCrypto.Cli
