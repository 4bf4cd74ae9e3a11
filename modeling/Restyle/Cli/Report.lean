/-
Restyle.Cli.Report — what the command line prints about a styled buffer.

In colour, every line of a run is styled by itself, so that no escape
sequence stays open across a line end. Spans are one line each, with their
text quoted. Fold levels stand before their lines, with marks for fold
headers and white lines.
-/
import Restyle.Buffer
import Restyle.Style
import Restyle.Text.Quoted

namespace Restyle.Cli

/-! ## In colour -/

/-- A text to be written in one style. -/
structure Piece where
  style : Style
  text : String
  deriving DecidableEq, Repr, Inhabited

namespace Piece

/-- The end of a line, which has no style. -/
def lineEnd : Piece := ⟨{}, "\n"⟩

/-- A line in a style; an empty line is nothing. -/
def ofLine (style : Style) (line : List Char) : List Piece :=
  if line = [] then [] else [⟨style, String.ofList line⟩]

/-- A text in a style, with its line ends apart; plain text is one piece. -/
def ofText (style : Style) (text : String) : List Piece :=
  if style.isPlain then [⟨style, text⟩]
  else [lineEnd].intercalate ((text.toList.splitOn '\n').map (ofLine style))

/-- A piece between its escape sequences. -/
def render (colours : Bool) (p : Piece) : String := p.style.apply colours p.text

end Piece

/-- The text of a span as it shows. -/
def spanText (b : Buffer) (s : Span) : String := b.text.slice s.start s.stop

/-- The pieces of a styled text, run after run. -/
def pieces (b : Buffer) : List Piece :=
  b.runs.flatMap fun s => Piece.ofText s.token.style (spanText b s)

/-- The whole text in colour. -/
def coloured (colours : Bool) (b : Buffer) : String :=
  String.join ((pieces b).map (Piece.render colours))

/-! ## Spans -/

/-- One span as a line. -/
def tokenLine (b : Buffer) (s : Span) : String :=
  toString s.start ++ ".." ++ toString s.stop ++ " " ++ s.token.name ++ " "
    ++ Quoted.encode (spanText b s) ++ "\n"

/-- Every run of equal style as a line. -/
def tokens (b : Buffer) : String := String.join (b.runs.map (tokenLine b))

/-! ## Fold levels -/

/-- A text at the right end of a field three characters wide. -/
def padLeft (s : String) : String := String.ofList (List.replicate (3 - s.length) ' ') ++ s

/-- A line without its terminator. -/
def withoutTerminator (s : String) : String :=
  String.ofList (s.toList.reverse.dropWhile fun c => c == '\r' || c == '\n').reverse

/-- One line with its fold level. -/
def foldLine (b : Buffer) (line : Nat) : String :=
  let l := FoldLevel.unpack (b.level line)
  let header := if l.header then Style.apply true { bold := true } "+" else " "
  let white := if l.white then "w" else " "
  padLeft (toString l.depth) ++ " " ++ header ++ white ++ " | "
    ++ withoutTerminator (b.text.lineText line) ++ "\n"

/-- Every line with its fold level, but for an empty last line. -/
def folds (b : Buffer) : String :=
  let lines := List.range b.text.lineCount
  String.join ((lines.filter fun line =>
    !(b.text.lineText line == "" && line + 1 == b.text.lineCount)).map (foldLine b))

/-! ## About the program -/

/-- The version of the program. -/
def version : String := "0.4.0"

/-- What the program is. -/
def versionText : String :=
  "foldlex " ++ version ++ "\nHaskell and R lexers with indentation and brace folding\n"

/-- How to use the program, and where its configuration is. -/
def usageText (config : Option String) : String :=
  "foldlex " ++ version ++ " - syntax styling and code folding\n"
    ++ "\n"
    ++ "Usage: foldlex [OPTIONS] FILE\n"
    ++ "\n"
    ++ "Options:\n"
    ++ "  -l, --language NAME   Force a language instead of detecting it\n"
    ++ "  -s, --set KEY=VALUE   Set a lexer property (repeatable)\n"
    ++ "  -f, --folds           Prefix each line with its fold level and markers\n"
    ++ "  -t, --tokens          Print spans as \"start..end Token\" instead of colour\n"
    ++ "  -h, --help            Show this help message\n"
    ++ "  -V, --version         Show version information\n"
    ++ "\n"
    ++ "Languages: Haskell (.hs .lhs .hsc), R (.r .R .Rprofile)\n"
    ++ "\n"
    ++ (match config with
      | some path => "Configuration is read from " ++ path ++ "\n"
      | none => "Set FOLDLEX_CONFIG to read a configuration file\n")
    ++ "Set FOLDLEX_LOG (e.g. FOLDLEX_LOG=foldlex=trace) for diagnostics\n"

end Restyle.Cli
