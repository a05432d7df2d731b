import Stanzas.Digest.Blake3
import Stanzas.Text.Bytes

/-!
# Digests

The digest of a text is the BLAKE3 hash of its UTF-8 bytes. Two readings of a file are taken for the
same if their digests are. Other texts with the same digest are not known, but nothing here says that
there are none; what is proved of edits assumes it of the texts that are met, where it matters.
-/

namespace Stanzas

/-- The hash of a file. -/
structure Digest where
  bytes : List UInt8
  deriving DecidableEq, Repr

namespace Digest

/-- The digest of some bytes. -/
def ofBytes (bytes : ByteArray) : Digest := ⟨Blake3.hash bytes⟩

/-- The digest of a text. -/
def ofText (t : Text) : Digest := ofBytes (utf8 t)

/-- Two digits for each byte. -/
def hex (d : Digest) : Text :=
  d.bytes.flatMap fun b => [Nat.digitChar (b.toNat / 16), Nat.digitChar (b.toNat % 16)]

/-- The digits of the first eight bytes. -/
def short (d : Digest) : Text := d.hex.take 16

end Digest

end Stanzas
