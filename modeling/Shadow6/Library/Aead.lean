import Shadow6.Library.Bytes

/-!
# `Library.Aead` — authenticated encryption

An AEAD as its users see it: what was encrypted under a key, a nonce and associated data is decrypted under the
same three, and a ciphertext is 16 bytes longer than its plaintext. That nobody else can make a ciphertext is not a
law of the functions; a model says it by what its network can deliver.
-/

namespace Library

structure Aead where
  encrypt : (key nonce ad plain : Bytes) → Bytes
  decrypt : (key nonce ad cipher : Bytes) → Option Bytes
  decrypt_encrypt : ∀ key nonce ad plain, decrypt key nonce ad (encrypt key nonce ad plain) = some plain
  length_encrypt : ∀ key nonce ad plain, (encrypt key nonce ad plain).length = plain.length + 16

namespace Aead

/-- Sixteen bytes that depend on all their inputs. -/
def tag (key nonce ad plain : Bytes) : Bytes := toBE 16 (ofBE (key ++ nonce ++ ad ++ plain) % (2 ^ 127 - 1))

/-- An AEAD that a model can be run with: the plaintext in the clear under a checksum. -/
def checksum : Aead where
  encrypt := fun key nonce ad plain => plain ++ tag key nonce ad plain
  decrypt := fun key nonce ad cipher =>
    let plain := cipher.take (cipher.length - 16)
    if cipher = plain ++ tag key nonce ad plain then some plain else none
  decrypt_encrypt := by
    intro key nonce ad plain
    simp [tag]
  length_encrypt := by
    intro key nonce ad plain
    simp [tag]

end Aead

end Library
