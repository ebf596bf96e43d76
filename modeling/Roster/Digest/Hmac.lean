import Roster.Digest.Sha256

/-!
# Keyed digests

The digest of a message under a secret: the secret is brought to the size of a block, and the
message is digested behind one mask of it and the result behind another.
-/

namespace Roster.Hmac

/-- The length in octets to which a secret is brought. -/
def blockSize : Nat := 64

/-- A secret at the size of a block: a longer one is digested first, and zeros fill the rest. -/
def block (secret : List UInt8) : List UInt8 :=
  let key := if blockSize < secret.length then Sha256.digest secret else secret
  key ++ List.replicate (blockSize - key.length) 0

/-- The tag of a message under a secret: two digests, one in the other. -/
def tag (secret message : List UInt8) : List UInt8 :=
  let key := block secret
  Sha256.digest (key.map (· ^^^ 0x5c) ++ Sha256.digest (key.map (· ^^^ 0x36) ++ message))

end Roster.Hmac
