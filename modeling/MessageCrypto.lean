import MessageCrypto.Integer
import MessageCrypto.Main
import MessageCrypto.Proofs.Encryption.RoundTrip
import MessageCrypto.Proofs.Signing.Ecdsa
import MessageCrypto.Proofs.Signing.Tag
import MessageCrypto.Proofs.Rsa.Root
import MessageCrypto.Proofs.Rsa.Signature
import MessageCrypto.Proofs.Der.KeyInfo
import MessageCrypto.Proofs.Rsa.Key
import MessageCrypto.Proofs.Signing.Reading
import MessageCrypto.Proofs.Signing.Rsa
import MessageCrypto.Proofs.P256.Encoding
import MessageCrypto.Proofs.Agreement.Coordinates
import MessageCrypto.Proofs.Agreement.Secret
import MessageCrypto.Proofs.P256.Count
import MessageCrypto.Proofs.Agreement.Peer
import MessageCrypto.Proofs.P256.KeyFormat
import MessageCrypto.Proofs.Draw
import MessageCrypto.Proofs.Generation.Primes
import MessageCrypto.Proofs.Generation.Draw
import MessageCrypto.Proofs.Generation.Pair
import MessageCrypto.Proofs.Signing.Writing
import MessageCrypto.Proofs.Signing.Dispatch
import MessageCrypto.Proofs.Call.Operation
import MessageCrypto.Proofs.Call.Failure
import MessageCrypto.Proofs.Call.Mismatch
import MessageCrypto.Proofs.Call.Reach
import MessageCrypto.Proofs.Call.Secrecy
import MessageCrypto.Proofs.Der.Integer
import MessageCrypto.Proofs.P256.Signature
import MessageCrypto.Proofs.Signing.Acceptance
import MessageCrypto.Proofs.Cli.Decoding
import MessageCrypto.Proofs.Cli.Refinement
import MessageCrypto.Proofs.Cli.RoundTrip
import MessageCrypto.Proofs.Signing.Padding
import MessageCrypto.Proofs.Agreement.Normalization
import MessageCrypto.Proofs.Agreement.OwnKey
import MessageCrypto.Proofs.Der.PrivateKey
import MessageCrypto.Proofs.P256.PrivateKey
import MessageCrypto.Proofs.Signing.Forms
import MessageCrypto.Proofs.Encryption.Blocks
import MessageCrypto.Proofs.Encryption.Tampering
import MessageCrypto.Proofs.Encryption.Reuse
import MessageCrypto.Proofs.Signing.RawKey
import MessageCrypto.Proofs.Integer
import MessageCrypto.Proofs.Cli.Entries
import MessageCrypto.Proofs.Cli.KeySource
import MessageCrypto.Proofs.Cli.TextMode
import MessageCrypto.Proofs.Text.Hex
import MessageCrypto.Proofs.Cli.Secrecy
import MessageCrypto.Proofs.Text.Encoding
import MessageCrypto.Proofs.Text.Blank
import MessageCrypto.Proofs.Text.Digits
import MessageCrypto.Proofs.Cli.HexArgument
