/-
# `CommonFoundry.Platform` — what the crates take from outside

Every hash of the repository is `blake3::Hasher::new_derive_key(domain)` fed
with bytes, and every signature is BIP-340 Schnorr over secp256k1.  Neither is
in the repository.  `Platform` names exactly the calls the crates make; a
result that needs a property of them (that hashes do not collide, that signing
and verifying agree) states it as a hypothesis.

`overflowChecks` is the setting of the same name in the build profile: the
workspace's `Cargo.toml` has no profile section, so a debug build aborts where a
plain `+` on `u64` overflows and a release build wraps.
-/
import CommonFoundry.Lib.Bytes
import CommonFoundry.Lib.Word

namespace CommonFoundry

open Lib

/-- `[u8; 32]`: identifiers, keys, digests and targets. -/
abbrev Bytes32 := Bytes 32

/-- The all-zero identifier `[0; 32]`. -/
def zero32 : Bytes32 := Bytes.zero 32

/-- A Schnorr signing key, by its secret bytes. -/
structure SigningKey where
  secret : Bytes32
  deriving DecidableEq

/-- The hash, the signature scheme and the build setting. -/
structure Platform where
  /-- `Hasher::new_derive_key(domain)`, one `update` with the bytes, `finalize`. -/
  deriveKey : String → List UInt8 → Bytes32
  /-- `VerifyingKey::from_bytes(key)` succeeds. -/
  verifyingKey : Bytes32 → Bool
  /-- `Signature::try_from(bytes)` succeeds. -/
  signature : List UInt8 → Bool
  /-- `key.verify(digest, signature)` succeeds. -/
  verify : Bytes32 → Bytes32 → List UInt8 → Bool
  /-- `key.verifying_key().to_bytes()`. -/
  publicKey : SigningKey → Bytes32
  /-- `key.sign(digest).to_bytes()`. -/
  sign : SigningKey → Bytes32 → Bytes 64
  overflowChecks : Bool

/-- The key parses, the signature parses, and it verifies over the digest. -/
structure Platform.Verifies (P : Platform) (key digest : Bytes32) (bytes : List UInt8) :
    Prop where
  verifyingKey : P.verifyingKey key = true
  signature : P.signature bytes = true
  verify : P.verify key digest bytes = true

/-- What the crates rely on when they sign: a signature made with a key is
well formed, and verifies under that key's public half. -/
structure Platform.SignsCorrectly (P : Platform) : Prop where
  verifyingKey (key : SigningKey) : P.verifyingKey (P.publicKey key) = true
  signature (key : SigningKey) (digest : Bytes32) : P.signature (P.sign key digest).1 = true
  verify (key : SigningKey) (digest : Bytes32) :
    P.verify (P.publicKey key) digest (P.sign key digest).1 = true

end CommonFoundry
