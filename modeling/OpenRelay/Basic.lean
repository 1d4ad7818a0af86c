/-
# Bytes

The byte strings of files, payloads and streams.
-/
import Mathlib.Data.List.Infix
import Mathlib.Data.Nat.Notation

namespace OpenRelay

/-- What is read, written and kept on disk. -/
abbrev Bytes := List UInt8

end OpenRelay
