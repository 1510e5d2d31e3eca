import MathMarkup.Compile
import MathMarkup.Options.Record
import MathMarkup.Proofs.Markup.Decode
import MathMarkup.Proofs.Parser.Budget
import MathMarkup.Proofs.Parser.Consumption
import MathMarkup.Proofs.Parser.Grammar
import MathMarkup.Proofs.Parser.Printing
import MathMarkup.Proofs.Parser.Substitution
import MathMarkup.Proofs.Rendering
import MathMarkup.Proofs.Url.Disguise
import MathMarkup.Proofs.Node.Occurrence
import MathMarkup.Proofs.Parser.Position
import MathMarkup.Proofs.Parser.Screen
import MathMarkup.Proofs.Parser.Strictness
import MathMarkup.Proofs.Parser.UnusedMacros
import MathMarkup.Proofs.Layout.Validity
import MathMarkup.Proofs.Layout.Contents
import MathMarkup.Proofs.Node.Location
import MathMarkup.Proofs.Node.Move
import MathMarkup.Proofs.Parser.Lockstep
import MathMarkup.Proofs.Parser.Translation
import MathMarkup.Proofs.Token.Junction
import MathMarkup.Proofs.Parser.Concatenation
import MathMarkup.Proofs.Parser.Characters
import MathMarkup.Proofs.Registry.History
import MathMarkup.Proofs.Registry.Extension
import MathMarkup.Proofs.Token.Coverage
import MathMarkup.Proofs.Token.Comment
import MathMarkup.Proofs.Parser.Modes
import MathMarkup.Proofs.Parser.Blanks
import MathMarkup.Proofs.Layout.Pairs
import MathMarkup.Proofs.Url.Recognition
import MathMarkup.Proofs.Parser.Relevance
import MathMarkup.Proofs.Layout.Levels
import MathMarkup.Proofs.Layout.Places
import MathMarkup.Proofs.Parser.Braces
import MathMarkup.Proofs.Parser.Located
import MathMarkup.Proofs.Text.Boundary
import MathMarkup.Proofs.Message
import MathMarkup.Parser.Descent
import MathMarkup.Proofs.Parser.Descent
import MathMarkup.Proofs.Parser.Restoration
