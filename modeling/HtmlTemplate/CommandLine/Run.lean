import HtmlTemplate.Files.Basic
import HtmlTemplate.Host.Defaults
import HtmlTemplate.Render.Run
import HtmlTemplate.Template.Source
import HtmlTemplate.Value.Json

/-! The arguments of the command. -/

namespace HtmlTemplate

structure Arguments where
  options : TemplateOptions
  /-- Leaves the output as it is. -/
  raw : Bool
  data : Option String
  dumpTokens : Bool
  dumpChunks : Bool
  template : Option String
  deriving DecidableEq

inductive ArgumentFault where
  | missingDataFile
  | unknownOption (text : String)
  | unexpected (text : String)
  | missingTemplate
  deriving DecidableEq, Repr

namespace ArgumentFault

def message : ArgumentFault → String
  | missingDataFile => "missing file after --data"
  | unknownOption text => "unknown option '" ++ text ++ "'"
  | unexpected text => "unexpected argument '" ++ text ++ "'"
  | missingTemplate => "missing template path"

end ArgumentFault

namespace Arguments

def none : Arguments :=
  { options := { pretty := false, stopOnError := false }, raw := false, data := .none,
    dumpTokens := false, dumpChunks := false, template := .none }

/-- What an option without a value of its own changes. -/
def setFlag? (arguments : Arguments) (text : String) : Option Arguments :=
  if text = "--pretty" then
    some { arguments with options := { arguments.options with pretty := true } }
  else if text = "--raw" then some { arguments with raw := true }
  else if text = "--stop-on-error" then
    some { arguments with options := { arguments.options with stopOnError := true } }
  else if text = "--dump-tokens" then some { arguments with dumpTokens := true }
  else if text = "--dump-chunks" then some { arguments with dumpChunks := true }
  else .none

/-- Reads arguments after those read before. -/
def readAll (read : Arguments) : List String → Except ArgumentFault Arguments
  | [] => .ok read
  | "--data" :: [] => .error .missingDataFile
  | "--data" :: path :: rest => readAll { read with data := some path } rest
  | text :: rest =>
    match read.setFlag? text with
    | some read => readAll read rest
    | .none =>
      if text.toList.head? = some '-' then .error (.unknownOption text)
      else if read.template.isSome then .error (.unexpected text)
      else readAll { read with template := some text } rest

/-- The arguments and the path of the template among them. -/
def ofTexts (texts : List String) : Except ArgumentFault (Arguments × String) := do
  let arguments ← readAll none texts
  match arguments.template with
  | some template => return (arguments, template)
  | .none => .error .missingTemplate

/-- How the command is used. -/
def usage : List String :=
  ["Usage: spug [options] <template>", "", "Options:",
    "  --pretty          Indent block tags",
    "  --raw             Do not escape `=` output",
    "  --stop-on-error   Abort at the first evaluation error",
    "  --data <file>     JSON object whose keys become template variables",
    "  --dump-tokens     Print the token tree and exit",
    "  --dump-chunks     Print the compiled chunk tree and exit"]

end Arguments

/-! The command: it reads a template and its data, and prints what the template gives. Errors
of the template go to the error output and do not keep it from being printed. -/

/-- What a command leaves behind. -/
structure Outcome where
  succeeded : Bool
  output : String
  /-- The lines of the error output. -/
  notes : List String
  deriving DecidableEq

namespace Outcome

def success (output : String) (notes : List String) : Outcome :=
  { succeeded := true, output, notes }

def failure (message : String) (notes : List String) : Outcome :=
  { succeeded := false, output := "", notes := notes ++ ["error: " ++ message] }

def code (outcome : Outcome) : Nat := if outcome.succeeded then 0 else 1

def errorText (outcome : Outcome) : String :=
  String.join (outcome.notes.map (· ++ "\n"))

end Outcome

namespace Command

def readText (files : Files) (path : String) : Except String String :=
  (files.read path).mapError fun reason => "cannot read '" ++ path ++ "': " ++ reason

/-- The variables that a template gets. -/
def readData (files : Files) : Option String → Except String (List (String × Value))
  | none => .ok []
  | some path => do
    let source := (← readText files path).toList
    match Json.read source with
    | .error error => .error ("invalid JSON in '" ++ path ++ "': " ++ error.text source)
    | .ok (.dict entries) => .ok entries
    | .ok _ => .error ("'" ++ path ++ "' must hold a JSON object")

/-- Where an included template is, seen from the directory of the one that was asked for. A
name without an extension may leave out the usual one. -/
def includePath (files : Files) (directory : FilePath) (name : String) : FilePath :=
  let path := directory.join (.ofText name)
  if !path.hasExtension && !(files.find path).isThere then path.addExtension "pug" else path

/-- The paths at which the templates may be that a source includes. -/
def includedPaths (options : TemplateOptions) (directory : FilePath) (source : String) :
    List FilePath :=
  match Template.ofSource options source.toList with
  | .error _ => []
  | .ok template =>
    template.includes.flatMap fun name =>
      let path := directory.join (.ofText name)
      [path, path.addExtension "pug"]

/-- Loads the templates that are included. -/
def loader (files : Files) (options : TemplateOptions) (directory : FilePath) (name : String) :
    Loaded :=
  match (files.find (includePath files directory name)).text? with
  | .error _ => .missing
  | .ok source =>
    match Template.ofSource options source.toList with
    | .ok template => .template template
    | .error error => .failed (some (error.diagnostic source.toList).text)

/-- The context for a template: the functions for every template, and the data for reading. -/
def context (files : Files) (arguments : Arguments) (template : String)
    (data : List (String × Value)) : Context :=
  let start : Context :=
    { Context.new with
      loader := loader files arguments.options (FilePath.ofText template).parent
      escapeOutput := !arguments.raw
      reports := { Reports.none with taken := some [] } }
  data.foldl (fun context (name, value) => context.lend name value)
    (start.setFunctions Host.defaults)

/-- Runs a template and gives what it has written. -/
def render (bound : Nat) (files : Files) (arguments : Arguments) (path : String)
    (template : Template) : Outcome :=
  match readData files arguments.data with
  | .error message => .failure message []
  | .ok data =>
    let (result, state) :=
      template.run bound (context files arguments path data) .unlimited
    let notes := state.context.takeTold.1
    match result with
    | .ok () => .success state.sink.text notes
    | .error (.stopped message) => .failure message notes
    | .error .output => .failure "failed to write template output" notes
    | .error .exhausted => .failure "endless loop" notes

/-- Runs the command on a template. -/
def runTemplate (bound : Nat) (files : Files) (arguments : Arguments) (path : String) : Outcome :=
  match readText files path with
  | .error message => .failure message []
  | .ok text =>
    let source := text.toList
    if arguments.dumpTokens then
      match Token.ofSource source with
      | .error error => .failure (error.diagnostic source).text []
      | .ok root => .success root.describe []
    else
      match Template.ofSource arguments.options source with
      | .error error =>
        .failure ("failed to compile '" ++ path ++ "'") [(error.diagnostic source).text]
      | .ok template =>
        if arguments.dumpChunks then .success (template.describe true) []
        else render bound files arguments path template

/-- Runs the command. -/
def run (bound : Nat) (files : Files) (texts : List String) : Outcome :=
  match Arguments.ofTexts texts with
  | .error fault =>
    { succeeded := false, output := "", notes := ("error: " ++ fault.message) :: Arguments.usage }
  | .ok (arguments, path) => runTemplate bound files arguments path

end Command

end HtmlTemplate
