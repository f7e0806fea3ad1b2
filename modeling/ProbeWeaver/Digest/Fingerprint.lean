import ProbeWeaver.Digest.Xxh3

/-!
# Digest/Fingerprint — telling whether a text has changed

A `Fingerprint` is taken when a file is parsed.  A file whose text no longer matches is not
overwritten.
-/

namespace ProbeWeaver

/-- **The hash of a text.** -/
structure Fingerprint where
  value : UInt64
  deriving DecidableEq, Repr

namespace Fingerprint

/-- The fingerprint of a text. -/
def of (text : String) : Fingerprint := ⟨Xxh3.hash text.toUTF8 0⟩

/-- The text still has the fingerprint. -/
def accepts (f : Fingerprint) (text : String) : Bool := of text == f

end Fingerprint

end ProbeWeaver
