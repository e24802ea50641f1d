import LeasePool.Digest.Sha256
import LeasePool.Text.Digits

/-!
# Signatures

A signature stands for what a connection was issued for: the address of the
data source and the credentials. It is the digest of a byte sequence in which
each of the three parts is marked as absent or present, and a present part is
preceded by its length; so no two different triples share a sequence.

* `Signature.sequence`: the bytes that are digested;
* `Signature.of`: the signature of an address with credentials.
-/

namespace LeasePool

/-- The fingerprint of an address with credentials. -/
structure Signature where
  /-- The bytes of the digest. -/
  bytes : List UInt8
  deriving DecidableEq, Repr

namespace Signature

/-- One part of the digested sequence: a zero for an absent part; otherwise a
    one, the length of the part in eight bytes, and its bytes. -/
def partBytes : Option String → List UInt8
  | none => [0]
  | some s => 1 :: (Digest.Sha256.bigEndian 8 s.utf8ByteSize ++ s.toUTF8.data.toList)

/-- The bytes that are digested. -/
def sequence (url : String) (username password : Option String) : List UInt8 :=
  partBytes (some url) ++ (partBytes username ++ partBytes password)

/-- The signature of an address with credentials. -/
def of (url : String) (username password : Option String) : Signature :=
  ⟨Digest.Sha256.digest (sequence url username password)⟩

/-- Two lower-case hexadecimal digits for each byte. -/
def hexText (bytes : List UInt8) : String :=
  String.ofList (bytes.flatMap fun b => Text.hexByte b.toNat)

/-- All bytes of a signature in hexadecimal digits. -/
def hex (s : Signature) : String := hexText s.bytes

/-- The short text of a signature, its first eight bytes. -/
def text (s : Signature) : String := hexText (s.bytes.take 8)

/-- The inspection text of a signature. -/
def inspection (s : Signature) : String := "TypeSignature(" ++ s.text ++ ")"

end Signature

end LeasePool
