import RebecaLayout.Text.Quoted
import RebecaLayout.Token.Basic

/-!
Listings of tokens for inspection: a line for each token with its offset, the label of its kind
and its text in quotes, in columns.
-/

namespace RebecaLayout.Token

/-- The width of the column of labels: that of the longest. -/
def labelWidth : Nat := (Kind.all.map fun k => k.label.length).foldl max 0

/-- The line of a token. -/
def listingLine (t : Placed) : Text :=
  "  ".toList ++ Text.padLeft ' ' 6 (Text.ofNat t.offset) ++ "  ".toList ++
    Text.padRight ' ' labelWidth t.kind.label ++ "  ".toList ++ Text.quoted t.text ++ ['\n']

/-- The listing of tokens, under a title line unless the title is empty. -/
def listing (title : Text) (tokens : List Placed) : Text :=
  (if title.isEmpty then [] else "Tokens ".toList ++ title ++ ['\n']) ++
    tokens.flatMap listingLine

end RebecaLayout.Token
