import ScriptLens.Main
import ScriptLens.Proofs.Query.Arena
import ScriptLens.Proofs.Symbol.Laminar
import ScriptLens.Proofs.Text.Cut
import ScriptLens.Proofs.Text.LineEndings
import ScriptLens.Proofs.Editor.LineEndings
import ScriptLens.Proofs.Symbol.Grammar
import ScriptLens.Proofs.Symbol.Completeness
import ScriptLens.Proofs.Token.Tiling
import ScriptLens.Proofs.Editor.TokenRange
import ScriptLens.Proofs.Editor.Refinement
import ScriptLens.Proofs.Symbol.StringContent
import ScriptLens.Proofs.Token.LookAhead
import ScriptLens.Proofs.Editor.LocalEdits
import ScriptLens.Proofs.Query.ScopeWalks
import ScriptLens.Proofs.Symbol.BracketErrors
import ScriptLens.Proofs.Query.Offered
import ScriptLens.Proofs.Symbol.Relocation
import ScriptLens.Proofs.Symbol.NameTokens
import ScriptLens.Proofs.Symbol.Backing
import ScriptLens.Proofs.Token.Padding
import ScriptLens.Proofs.Symbol.LayoutChanges
import ScriptLens.Proofs.Symbol.BrokenBodies
import ScriptLens.Proofs.Query.Innermost
import ScriptLens.Proofs.Query.MemberAccess
import ScriptLens.Proofs.Text.Clamping
import ScriptLens.Proofs.Text.RoundTrip
import ScriptLens.Proofs.Query.Receivers
import ScriptLens.Proofs.Query.MemberTargets
import ScriptLens.Proofs.Token.Caret
import ScriptLens.Proofs.Editor.NameOffers
import ScriptLens.Proofs.Symbol.MissingNames
import ScriptLens.Proofs.Symbol.Directives
import ScriptLens.Proofs.Token.JoinedTexts
import ScriptLens.Proofs.Token.Printing
import ScriptLens.Proofs.Token.UnknownEscapes
import ScriptLens.Proofs.Query.EnclosingScopes
import ScriptLens.Proofs.Query.TypePaths
import ScriptLens.Proofs.Editor.CompletionEdits
import ScriptLens.Proofs.Token.Balance
