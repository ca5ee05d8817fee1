import Shadow6.Library.Bytes

/-!
# `Library.Signature` — digital signatures

A signature scheme as its users see it: a signature made with a secret key is accepted under its public key. That
nobody else can make one is not a law of the functions; a model says it by what it assumes of a run.
-/

namespace Library

structure SignatureScheme where
  publicKey : (secret : Bytes) → Bytes
  sign : (secret message : Bytes) → Bytes
  verify : (pub message signature : Bytes) → Bool
  verify_sign : ∀ secret message, verify (publicKey secret) message (sign secret message) = true
  length_publicKey : ∀ secret, (publicKey secret).length = 32
  length_sign : ∀ secret message, (sign secret message).length = 64

namespace SignatureScheme

/-- A scheme that a model can be run with: a checksum of the public key and the message. -/
def checksum : SignatureScheme where
  publicKey := fun secret => toBE 32 (ofBE secret)
  sign := fun secret message => toBE 64 (ofBE (toBE 32 (ofBE secret) ++ message) % (2 ^ 251 - 1))
  verify := fun pub message signature => decide (signature = toBE 64 (ofBE (pub ++ message) % (2 ^ 251 - 1)))
  verify_sign := by
    intro secret message
    simp
  length_publicKey := by
    intro secret
    simp
  length_sign := by
    intro secret message
    simp

end SignatureScheme

end Library
