import HtmlTemplate.CommandLine.Run

/-! The program: it looks at the files that a command may need, runs the command on them and
prints what comes of it. -/

namespace HtmlTemplate

/-- Endless loops and endless recursion are given up after this many rounds. -/
def commandBound : Nat := 10000000

def pathText (path : FilePath) : String :=
  let parts := "/".intercalate (path.parts ++ if path.folder then ["."] else [])
  if path.absolute then "/" ++ parts else parts

/-- Looks at what is at a path. -/
def inspect (path : FilePath) : IO FileNode := do
  let place := (← IO.currentDir) / pathText path
  if ← place.isDir then return .directory
  try
    return .file (← IO.FS.readFile place)
  catch
    | .inappropriateType .. => return .blocked
    | _ => return .missing

/-- Adds what is at some paths, and at the paths of the templates that are included there. -/
partial def collect (arguments : Arguments) (directory : FilePath)
    (seen : List (FilePath × FileNode)) : List FilePath → IO (List (FilePath × FileNode))
  | [] => return seen
  | path :: rest => do
    if (seen.lookup path).isSome then collect arguments directory seen rest
    else
      let node ← inspect path
      let more := match node with
        | .file text => Command.includedPaths arguments.options directory text
        | _ => []
      collect arguments directory ((path, node) :: seen) (more ++ rest)

/-- The files that a command may need. -/
def filesFor (texts : List String) : IO Files := do
  match Arguments.ofTexts texts with
  | .error _ => return { find := fun _ => .missing }
  | .ok (arguments, template) =>
    let path := FilePath.ofText template
    let nodes ← collect arguments path.parent [] [path]
    let data ← arguments.data.toList.mapM fun data => do
      return (FilePath.ofText data, ← inspect (.ofText data))
    return { find := fun path => ((data ++ nodes).lookup path).getD .missing }

end HtmlTemplate

open HtmlTemplate in
def main (texts : List String) : IO UInt32 := do
  let outcome := Command.run commandBound (← filesFor texts) texts
  IO.eprint outcome.errorText
  IO.print outcome.output
  return outcome.code.toUInt32
