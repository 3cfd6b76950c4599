import ClassLang.Main
import ClassLang.Proofs.Lower.Casts
import ClassLang.Proofs.Lower.Closed
import ClassLang.Proofs.Lower.Literals
import ClassLang.Proofs.Lower.RecordOrder
import ClassLang.Proofs.Lower.Returns
import ClassLang.Proofs.Lower.WellTyped
import ClassLang.Proofs.Meaning.Evaluation
import ClassLang.Proofs.Meaning.Expressions
import ClassLang.Proofs.Meaning.Statements
import ClassLang.Proofs.Meaning.World
import ClassLang.Proofs.Order.Independence
import ClassLang.Proofs.Render.Arithmetic
import ClassLang.Proofs.Render.Constants
import ClassLang.Proofs.Render.Merge
import ClassLang.Proofs.Render.Names
import ClassLang.Proofs.Resolve.Cascade
import ClassLang.Proofs.Resolve.Circles
import ClassLang.Proofs.Resolve.Comparisons
import ClassLang.Proofs.Resolve.Dispatch
import ClassLang.Proofs.Resolve.Environments
import ClassLang.Proofs.Resolve.Layouts
import ClassLang.Proofs.Resolve.Lineage
import ClassLang.Proofs.Resolve.Literals
import ClassLang.Proofs.Resolve.Sizes
import ClassLang.Proofs.Resolve.Underway
import ClassLang.Proofs.Syntax.Braces
import ClassLang.Proofs.Syntax.Derivation
import ClassLang.Proofs.Syntax.Keys
import ClassLang.Proofs.Syntax.Numbers
import ClassLang.Proofs.Syntax.Reports
import ClassLang.Proofs.Syntax.RereadScript
import ClassLang.Proofs.Syntax.Respacing
import ClassLang.Proofs.Syntax.Spans
import ClassLang.Proofs.Syntax.Termination
import ClassLang.Proofs.Syntax.Texts
import ClassLang.Proofs.Token.Cursor
import ClassLang.Proofs.Token.Lines
import ClassLang.Proofs.Token.Lookahead
import ClassLang.Proofs.Token.Tiling
import ClassLang.Syntax.Walk
