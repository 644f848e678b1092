import SceneGrammar.CommandLine.World
import SceneGrammar.Main
import SceneGrammar.Proofs.Expansion.Moves
import SceneGrammar.Proofs.Expansion.Reachable
import SceneGrammar.Proofs.Expansion.Halting
import SceneGrammar.Proofs.Expansion.Safety
import SceneGrammar.Proofs.Expansion.Recursive
import SceneGrammar.Proofs.Expansion.Combinations
import SceneGrammar.Proofs.Expansion.Meaning
import SceneGrammar.Proofs.Expansion.Delivery
import SceneGrammar.Proofs.Expansion.Refusal
import SceneGrammar.Proofs.Grammar.Anonymous
import SceneGrammar.Proofs.Expansion.Budget
import SceneGrammar.Proofs.Expansion.Lockstep
import SceneGrammar.Proofs.Program.Variants
import SceneGrammar.Proofs.Program.Bleach
import SceneGrammar.Proofs.Program.Renumber
import SceneGrammar.Proofs.Expansion.Colorless
import SceneGrammar.Proofs.Expansion.Independence
import SceneGrammar.Proofs.Expansion.Renumber
import SceneGrammar.Proofs.Text.Lines
import SceneGrammar.Proofs.Token.Lookup
import SceneGrammar.Proofs.Color.Literal
import SceneGrammar.Proofs.Scan.Character
import SceneGrammar.Proofs.Scan.Concatenation
import SceneGrammar.Proofs.Scan.Numeral
import SceneGrammar.Proofs.Scan.Keyword
import SceneGrammar.Proofs.Scan.Spelling
import SceneGrammar.Proofs.Scan.Gap
import SceneGrammar.Proofs.Scan.Layout
import SceneGrammar.Proofs.Scan.Recovery
import SceneGrammar.Proofs.Grammar.Phrase
import SceneGrammar.Proofs.Grammar.Reading
import SceneGrammar.Proofs.Grammar.Acceptance
import SceneGrammar.Proofs.Grammar.Operands
import SceneGrammar.Proofs.Grammar.Directives
import SceneGrammar.Proofs.Grammar.Actions
import SceneGrammar.Proofs.Grammar.Failure
import SceneGrammar.Proofs.Grammar.Renumber
import SceneGrammar.Proofs.Build.Layout
import SceneGrammar.Proofs.Program.Groups
import SceneGrammar.Proofs.Build.Reports
import SceneGrammar.Proofs.Output.EventLine
import SceneGrammar.Proofs.Output.FullSink
import SceneGrammar.Proofs.CommandLine.Outcome
import SceneGrammar.Proofs.Expansion.Sweep
import SceneGrammar.Proofs.Expansion.Placements
import SceneGrammar.Proofs.Program.Padded
import SceneGrammar.Proofs.Expansion.Padded
import SceneGrammar.Proofs.Expansion.Chronicle
import SceneGrammar.Proofs.Expansion.Tally
import SceneGrammar.Proofs.Expansion.Limits
import SceneGrammar.Proofs.Grammar.Repetition
import SceneGrammar.Proofs.Expansion.Depth
import SceneGrammar.Proofs.Scan.Segments
import SceneGrammar.Proofs.Roulette.Selection
import SceneGrammar.Proofs.Roulette.Odds
import SceneGrammar.Proofs.Grammar.Definitions
import SceneGrammar.Proofs.Grammar.Substitution
import SceneGrammar.Proofs.Program.Regroup
import SceneGrammar.Proofs.Grammar.Exchange
import SceneGrammar.Proofs.Build.Exchange
import SceneGrammar.Proofs.Number.Rational
import SceneGrammar.Proofs.Color.Circle
import SceneGrammar.Proofs.Color.Blend
import SceneGrammar.Proofs.Color.Digits
import SceneGrammar.Proofs.Token.Entries
import SceneGrammar.Proofs.Token.Arena
import SceneGrammar.Proofs.Expansion.Slates
import SceneGrammar.Proofs.Expansion.SlateMachine
import SceneGrammar.Proofs.Expansion.Reuse
