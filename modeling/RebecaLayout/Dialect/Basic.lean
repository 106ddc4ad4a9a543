import RebecaLayout.Text.Basic

/-!
Dialects: what tokens and layout need to know about a language.

* `Dialect` -- the words of the language with a role of their own, and its rule for the colon;
* `Dialect.rebeca` -- the modelling language of actors;
* `Dialect.property` -- the language of the properties that a model is checked against.
-/

namespace RebecaLayout

/-- The words that stand apart from a parenthesis behind them, unless a dialect says otherwise. -/
def controlWords : List Text := ["if", "for", "while", "switch", "catch"].map String.toList

/-- A language, as far as its layout goes. -/
structure Dialect where
  /-- The name under which settings choose it. -/
  name : Text
  /-- The words that are keywords. -/
  keywords : List Text
  /-- The words that stay on the line of a closing brace before them. -/
  braceJoiners : List Text := []
  /-- The keywords with a space between them and an opening parenthesis. -/
  parenKeywords : List Text := controlWords
  /-- Whether a space follows a colon. None ever precedes it. -/
  spaceAfterColon : Bool := false
  /-- The extensions of its files, without the dot. -/
  extensions : List Text := []
  deriving DecidableEq, Repr

namespace Dialect

/-- Rebeca, the language of models. -/
def rebeca : Dialect where
  name := "rebeca".toList
  keywords :=
    ["reactiveclass", "knownrebecs", "statevars", "msgsrv", "main", "if", "else", "switch", "case",
     "break", "default", "for", "while", "do", "continue", "return", "assertion", "env", "extends",
     "abstract", "interface", "implements", "externalclass", "sends", "of", "globalvariables",
     "catch", "finally", "delay"].map String.toList
  braceJoiners := ["else", "catch", "finally"].map String.toList
  extensions := ["rebeca".toList]

/-- The language of properties. -/
def property : Dialect where
  name := "property".toList
  keywords :=
    ["property", "define", "Assertion", "LTL", "CTL", "Safety", "Liveness", "AG", "EF", "G", "F",
     "X", "U", "R", "W"].map String.toList
  spaceAfterColon := true
  extensions := ["property".toList]

/-- The dialects that can be chosen by name or by extension. -/
def all : List Dialect := [rebeca, property]

end Dialect

end RebecaLayout
