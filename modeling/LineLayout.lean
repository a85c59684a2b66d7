import LineLayout.Consistency
import LineLayout.LayoutRun
import LineLayout.Listing
import LineLayout.Proofs.Lines
import LineLayout.Proofs.History
import LineLayout.Proofs.Handles
import LineLayout.Proofs.Strands
import LineLayout.Proofs.TornWalks
import LineLayout.Proofs.RenderedPlaces
import LineLayout.Settings.Loader
import LineLayout.TomlFolder.Library
import LineLayout.Source.Placement
import LineLayout.Proofs.BlankLines
import LineLayout.Proofs.Alignment
import LineLayout.Proofs.Operations
import LineLayout.Proofs.Traces
import LineLayout.Proofs.CommentPass
import LineLayout.Proofs.KeptCode
import LineLayout.Proofs.Lexemes
import LineLayout.Proofs.Relexing
import LineLayout.Proofs.FreshLexing
import LineLayout.Proofs.LosslessLexing
import LineLayout.Proofs.Shapes
import LineLayout.Proofs.MovedLines
import LineLayout.Proofs.IndentedLine
import LineLayout.Proofs.CommentTargets
import LineLayout.Proofs.Formatting
import LineLayout.Proofs.LinePlans
import LineLayout.Proofs.EditOrder
import LineLayout.Proofs.CheckedIndentation
import LineLayout.Proofs.UnmovedCode
import LineLayout.Proofs.AlignmentAtRest
import LineLayout.Proofs.LinesWithCode
import LineLayout.Proofs.CheckedEnds
import LineLayout.Proofs.RepeatedIndentation
import LineLayout.Proofs.LastLevel
import LineLayout.Proofs.ExactSeparation
import LineLayout.Proofs.ReportedViolations
import LineLayout.Proofs.PlacedParts
import LineLayout.Proofs.NestingRuns
import LineLayout.Proofs.ArenaAccounts
import LineLayout.Proofs.LexingInPieces
import LineLayout.Proofs.Listings
import LineLayout.Proofs.CheckedLines
import LineLayout.Proofs.TomlFolderLibrary
import LineLayout.Proofs.LayerPrecedence
import LineLayout.Proofs.ExactShifts
import LineLayout.Proofs.SettingsLibrary
