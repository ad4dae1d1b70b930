import HtmlTemplate.Text.CharClass
import HtmlTemplate.Text.Span

/-! Lines and columns of byte offsets. A line starts at the beginning of the source and
after every newline. -/

namespace HtmlTemplate

/-- The byte offsets at which the lines of a source start, in order. -/
structure LineTable where
  starts : List Nat

namespace LineTable

/-- The offsets just after each newline of a text that begins at offset `pos`. -/
def startsAfterNewlines (pos : Nat) : List Char → List Nat
  | [] => []
  | char :: text =>
    let next := pos + char.utf8Size
    if char == '\n' then next :: startsAfterNewlines next text else startsAfterNewlines next text

def ofSource (source : List Char) : LineTable := ⟨0 :: startsAfterNewlines 0 source⟩

def lineCount (table : LineTable) : Nat := table.starts.length

/-- The line, counted from one, that holds an offset. -/
def lineOf (table : LineTable) (offset : Nat) : Nat :=
  (table.starts.filter (· ≤ offset)).length

/-- Where a line starts; lines that do not exist start with the source. -/
def startOf (table : LineTable) (line : Nat) : Nat := (table.starts[line - 1]?).getD 0

/-- The column, counted from one in characters, of an offset on its line. An offset past
the end counts as the end; one inside a character counts as the start of the line. -/
def columnOf (table : LineTable) (source : List Char) (offset : Nat) : Nat :=
  let start := table.startOf (table.lineOf offset)
  let stop := max (min offset (byteLength source)) start
  ((sliceBytes? source start stop).getD []).length + 1

/-- The text of a line without its terminator. -/
def textOf (table : LineTable) (source : List Char) (line : Nat) : List Char :=
  ((dropBytes? (table.startOf line) source).getD []).takeWhile fun char =>
    !CharClass.isLineEnd char

end LineTable

/-! What is reported about a template: the phase that found it, a message and, for a
fault in the source, the line it is on with a mark under the place. -/

/-- What was being done with the template. -/
inductive Phase where
  | lexer
  | compiler
  | context
  deriving DecidableEq, Repr

namespace Phase

def label : Phase → String
  | lexer => "Lexer"
  | compiler => "Compiler"
  | context => "Context"

end Phase

/-- A place in the source: line and column are counted from one, the column in characters. -/
structure Location where
  line : Nat
  column : Nat
  lineText : String
  deriving DecidableEq, Repr

structure Diagnostic where
  phase : Phase
  message : String
  location : Option Location
  deriving DecidableEq, Repr

namespace Diagnostic

/-- A diagnostic without a place. -/
def plain (phase : Phase) (message : String) : Diagnostic := ⟨phase, message, none⟩

/-- A diagnostic that points at a byte offset of the source. -/
def atOffset (phase : Phase) (source : List Char) (offset : Nat) (message : String) :
    Diagnostic :=
  let table := LineTable.ofSource source
  let line := table.lineOf offset
  { phase, message,
    location := some
      { line, column := table.columnOf source offset,
        lineText := String.ofList (table.textOf source line) } }

/-- The line that a location is on, and under it a mark below its column. Tabs are kept
in front of the mark, so that it stands right whatever their width. -/
def caret (location : Location) : String :=
  let lead := s!"-> {location.line}: "
  let blank := lead.toList.map fun _ => ' '
  let under := (location.lineText.toList.take (location.column - 1)).map fun char =>
    if char == '\t' then '\t' else ' '
  lead ++ location.lineText ++ "\n" ++ String.ofList (blank ++ under) ++ "^\n"

def text (diagnostic : Diagnostic) : String :=
  (diagnostic.location.elim "" caret) ++ diagnostic.phase.label ++ " error: " ++
    diagnostic.message

end Diagnostic

end HtmlTemplate
