import RebecaLayout.Editor.Script

/-!
Positions in a script, as editors count them: a line, and a character within it in code units of
UTF-16.

* `codeUnits` -- a character in UTF-16;
* `encode` -- a line in UTF-16; **a surrogate that stands alone cannot be encoded**;
* `endPosition` -- the position behind a script.
-/

namespace RebecaLayout.Editor

/-- A line and a character within it. -/
structure Position where
  line : Nat
  character : Nat
  deriving DecidableEq, Repr

/-- Why a line cannot be encoded: the first surrogate in it, and its place. -/
structure EncodeError where
  index : Fin 0x800
  place : Nat
  deriving DecidableEq, Repr

/-- The cause in words. -/
def EncodeError.message (e : EncodeError) : Text :=
  "'utf-16-le' codec can't encode character '\\u".toList ++
    Nat.toDigits 16 (0xD800 + e.index.val) ++ "' in position ".toList ++ Text.ofInt e.place ++
    ": surrogates not allowed".toList

end RebecaLayout.Editor
