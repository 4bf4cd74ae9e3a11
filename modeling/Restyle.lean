import Restyle.Buffer.WellFormed
import Restyle.Catalogue
import Restyle.Cli.Run
import Restyle.FileTree
import Restyle.Main
import Restyle.Proofs.Buffer.Changes
import Restyle.Proofs.Buffer.Records
import Restyle.Proofs.Catalogue.Configured
import Restyle.Proofs.Cli.Coloured
import Restyle.Proofs.Cli.CommandLine
import Restyle.Proofs.Config.Applied
import Restyle.Proofs.Cursor.Backwards
import Restyle.Proofs.Highlighter.Incremental
import Restyle.Proofs.Highlighter.Settings
import Restyle.Proofs.Highlighter.UpToDate
import Restyle.Proofs.Highlighter.WholeLines
import Restyle.Proofs.Lexer.CarriageReturns
import Restyle.Proofs.Lexer.Delimited
import Restyle.Proofs.Lexer.LineEnds
import Restyle.Proofs.Lexer.Notes
import Restyle.Proofs.Lexer.Operators
import Restyle.Proofs.Lexer.StoredLevels
import Restyle.Proofs.Lexer.Termination
import Restyle.Proofs.Packing.RoundTrip
import Restyle.Proofs.R.LongDelimiter
import Restyle.Proofs.Scanner.Words
