import HtmlTemplate.Context.Basic
import HtmlTemplate.Value.Coercion

/-! A host with a few functions and classes of its own, for templates to call. -/

namespace HtmlTemplate.Host

/-- The arguments as an array. -/
def echo : HostFunction := fun _ arguments => .ok (.array arguments)

/-- The number of arguments. -/
def count : HostFunction := fun _ arguments => .ok (.ofNat arguments.length)

def fail : HostFunction := fun _ _ => .error "boom"

/-- A text with its ASCII letters in upper case. -/
def upper : HostFunction
  | _, .text content :: _ => .ok (.text (content.map Char.toUpper))
  | _, _ => .error "upper expects a string"

/-- The largest of the arguments as integers. -/
def largest : HostFunction
  | _, [] => .ok .null
  | _, first :: rest =>
    let largest := rest.foldl (fun best value => if best < value.toInt then value.toInt else best)
      first.toInt
    .ok (.int largest)

/-- A greeting for the name of the receiver. -/
def greet : HostFunction := fun receiver arguments =>
  let greeting := (arguments.head?.map Value.toText).getD "Hi"
  let name := ((receiver.bind (·.get? "name")).map Value.toText).getD ""
  .ok (.text (greeting ++ " " ++ name))

def samples : List (String × HostFunction) :=
  [("echo", echo), ("count", count), ("fail", fail), ("upper", upper)]

def math : HostClass := { name := "Math", statics := [("max", largest)], members := [] }

def person : HostClass :=
  { name := "Person", statics := [],
    members := Entries.ofList [("greet", greet), ("fail", fun _ _ => .error "person failed")] }

end HtmlTemplate.Host
