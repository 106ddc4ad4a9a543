import RebecaLayout.Main
import RebecaLayout.Proofs.BlankLines
import RebecaLayout.Proofs.Deepening
import RebecaLayout.Proofs.Dialects
import RebecaLayout.Proofs.Edits
import RebecaLayout.Proofs.Endings
import RebecaLayout.Proofs.Grammar
import RebecaLayout.Proofs.Likeness
import RebecaLayout.Proofs.Numerals
import RebecaLayout.Proofs.Outcome
import RebecaLayout.Proofs.Precedence
import RebecaLayout.Proofs.Seam
import RebecaLayout.Proofs.Statements
import RebecaLayout.Proofs.Stepwise
