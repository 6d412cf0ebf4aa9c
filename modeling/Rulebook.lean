import Rulebook.CommandLine.Outcome
import Rulebook.Grammar.Save
import Rulebook.Main
import Rulebook.Settings.Layers
import Rulebook.Source
import Rulebook.Toml.Document
import Rulebook.Proofs.Decomposition
import Rulebook.Proofs.Blocks
import Rulebook.Proofs.Events
import Rulebook.Proofs.Rules
import Rulebook.Proofs.Runs
import Rulebook.Proofs.Outcome
import Rulebook.Proofs.FileMerge
import Rulebook.Proofs.Content
import Rulebook.Proofs.FileJoin
import Rulebook.Proofs.Headers
import Rulebook.Proofs.Listing
import Rulebook.Proofs.DocumentReading
import Rulebook.Proofs.Replay
import Rulebook.Proofs.Comparison
import Rulebook.Proofs.Sessions
import Rulebook.Proofs.Stages
import Rulebook.Proofs.Writing
import Rulebook.Proofs.Descent
import Rulebook.Proofs.Collection
import Rulebook.Proofs.Assignment
import Rulebook.Proofs.SectionMerge
import Rulebook.Proofs.Winning
import Rulebook.Proofs.CursorReset
import Rulebook.Proofs.RuleShape
import Rulebook.Proofs.LineLayout
import Rulebook.Proofs.LinkWalk
import Rulebook.Proofs.HeaderPattern
import Rulebook.Proofs.InnerText
import Rulebook.Proofs.References
import Rulebook.Proofs.LineBreaks
import Rulebook.Proofs.SecondRun
import Rulebook.Proofs.Origins
import Rulebook.Proofs.Relayering
