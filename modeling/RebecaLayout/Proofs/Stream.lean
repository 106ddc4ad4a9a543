import RebecaLayout.Proofs.Reread
import RebecaLayout.Proofs.Visible

/-!
**Layout preserves the program**: the tokens of a text and of its layout have the same cores, except
where a character that continues words comes to stand right behind one.

* `stream` -- the cores of the tokens of a text that are no layout;
* `stream_of_formatSource` -- the stream of a layout is that of the welded tokens;
* `stream_formatSource_iff` -- so the stream is kept **exactly if no two tokens weld**.
-/

namespace RebecaLayout

variable {d : Dialect} {x : Text}

/-- The tokens of a text that are no layout, up to what layout may change in them. -/
def stream (d : Dialect) (x : Text) : List (Kind × List Text) :=
  (Token.significant (tokenize d x)).map Token.core

/-- A text that shows something has a token that is no layout. -/
theorem significant_ne_nil (d : Dialect) (hx : Text.isVoid x = false) :
    Token.significant (tokenize d x) ≠ [] := by
  intro hnil
  have hshown := shown_significant d x
  rw [hnil] at hshown
  exact Text.shown_ne_nil hx hshown.symm

/-- The layout of a text that shows something. -/
theorem formatSource_eq_finished {unit? terminator? : Option Text}
    (hu : ∀ u ∈ unit?, ∀ c ∈ u, Text.isBlank c = true) (hn : ∀ nl ∈ terminator?, LineEnd nl)
    (d : Dialect) (hx : Text.isVoid x = false) : formatSource d unit? terminator? x =
      .ok (finished (.resolve d unit? terminator? x) (rendered (.resolve d unit? terminator? x)
        (.start 0 true) (Token.significant (tokenize d x)))) := by
  rw [formatSource_rendered hu hn, hx, if_neg Bool.false_ne_true]

/-- The layout of a text that shows something is the text of its row and one terminator. -/
theorem formatSource_spread {unit? terminator? : Option Text}
    (hu : ∀ u ∈ unit?, ∀ c ∈ u, Text.isBlank c = true) (hn : ∀ nl ∈ terminator?, LineEnd nl)
    (d : Dialect) (hx : Text.isVoid x = false) : formatSource d unit? terminator? x =
      .ok (spread (pieces (.resolve d unit? terminator? x) (.start 0 true)
        (Token.significant (tokenize d x))) ++ (Style.resolve d unit? terminator? x).terminator) := by
  rw [formatSource_eq_finished hu hn d hx]
  exact congrArg Except.ok (finished_rendered (resolve_orderly hu hn d x) (legible_significant d x)
    (significant_ne_nil d hx) (.start 0 true))

/-- **The stream of a layout is that of the welded tokens.** -/
theorem stream_of_formatSource {unit? terminator? : Option Text} {out : Text}
    (hu : ∀ u ∈ unit?, ∀ c ∈ u, Text.isBlank c = true) (hn : ∀ nl ∈ terminator?, LineEnd nl)
    (hx : Text.isVoid x = false) (h : formatSource d unit? terminator? x = .ok out) :
    stream d out = (welded d (Token.significant (tokenize d x))).map Token.core := by
  rw [formatSource_eq_finished hu hn d hx] at h
  rw [← Except.ok.inj h]
  exact tokenize_layout (resolve_orderly hu hn d x) (legible_significant d x)
    (significant_ne_nil d hx) (.start 0 true)

/-- Welding changes the cores exactly if something welds. -/
theorem cores_welded_iff (d : Dialect) (ts : List Token) :
    (welded d ts).map Token.core = ts.map Token.core ↔ WeldFree ts := by
  constructor
  · intro h
    have hlength := congrArg List.length h
    rw [List.length_map, List.length_map] at hlength
    exact weldFree_of_length hlength
  · intro h
    rw [welded_of_weldFree h]

/-- **Layout preserves the program**: the layout of a text that shows something, in any dialect, with
    any unit of blanks and any terminator, has the stream of the text if and only if no identifier,
    keyword or number is followed by a character that continues words and is a token of its own. -/
theorem stream_formatSource_iff (d : Dialect) (unit nl x : Text)
    (hu : ∀ c ∈ unit, Text.isBlank c = true) (hn : LineEnd nl) (hx : Text.isVoid x = false) :
    ∃ out, formatSource d (some unit) (some nl) x = .ok out ∧
      (stream d out = stream d x ↔ WeldFree (Token.significant (tokenize d x))) := by
  have hu' : ∀ u ∈ some unit, ∀ c ∈ u, Text.isBlank c = true := by simpa using hu
  have hn' : ∀ nl' ∈ some nl, LineEnd nl' := by simpa using hn
  have hout := formatSource_eq_finished hu' hn' d hx
  refine ⟨_, hout, ?_⟩
  rw [stream_of_formatSource hu' hn' hx hout]
  exact cores_welded_iff d _

/-- A superscript two behind a word is read as part of it once the space between them is gone. -/
theorem stream_formatSource_iff_superscript :
    (∀ c ∈ ['\t'], Text.isBlank c = true) ∧ LineEnd ['\r', '\n'] ∧
    Text.isVoid "if(x \u00B2)\x7by;\x7d".toList = false ∧
    ∃ out, formatSource .rebeca (some ['\t']) (some ['\r', '\n'])
        "if(x \u00B2)\x7by;\x7d".toList = .ok out ∧
      stream .rebeca out ≠ stream .rebeca "if(x \u00B2)\x7by;\x7d".toList := by
  have hu : ∀ c ∈ ['\t'], Text.isBlank c = true := by simp [Text.isBlank]
  have hx : Text.isVoid "if(x \u00B2)\x7by;\x7d".toList = false := by decide
  obtain ⟨out, hout, hiff⟩ := stream_formatSource_iff .rebeca ['\t'] ['\r', '\n'] _ hu .returnFeed hx
  refine ⟨hu, .returnFeed, hx, out, hout, fun e => ?_⟩
  exact absurd (hiff.mp e) (by decide +kernel)

end RebecaLayout
