import GraphMarkup.CommandLine.Arguments
import GraphMarkup.Json.Reader
import GraphMarkup.Session

/-!
# The command line

* `Report` : what a run of the program leaves: exit code, output, and an error with its causes;
* `Report.headline?`, `Report.causes` : the first line of the error, and what is behind it;
* `Arguments.policy` : the policy that the arguments ask for;
* `convert` : the JSON items of a text written as XML, or the first failure;
* `run` : the whole program, given what its sources hold.

Output written before a failure stays written.
-/

namespace GraphMarkup.CommandLine

/-- What a run of the program leaves behind. The error comes before its causes. -/
structure Report where
  exitCode : Nat
  output : String
  errors : List String := []
  deriving DecidableEq, Repr

def firstLine (text : String) : String :=
  let line := text.toList.takeWhile (· != '\n')
  String.ofList (if line.getLast? = some '\r' then line.dropLast else line)

namespace Report

/-- The first line of the error, if there is one. The name of a file may break an error into several lines. -/
def headline? (report : Report) : Option String := report.errors.head?.map firstLine

def causes (report : Report) : List String := report.errors.tail

def success (output : String) : Report := { exitCode := 0, output }

def failure (output : String) (errors : List String) : Report := { exitCode := 1, output, errors }

def usage : Report := { exitCode := 2, output := "" }

end Report

def versionLine : String := "objxml 0.1.0\n"

/-- That a source cannot be read, or holds no text. -/
def Source.unreadable : Source → String
  | standardInput => "failed to read stdin"
  | file path => "failed to read " ++ path

namespace Arguments

def policy (a : Arguments) : Except Error Policy := do
  let policy ← Policy.ofDepth (a.depth.getD 1)
  return { policy with
    includeTypeNames := !a.noTypeInformation
    knownTypes := if a.dotnetTypeNames then TypeTable.dotnet else TypeTable.plain }

end Arguments

/-- Writes items in order; an error comes with the number of the item, counted from one. -/
def serializeItems {ω : Type} [Writer ω] : Nat → List Value → Session ω →
    EStateM.Result (Nat × Error) (Session ω) Unit
  | _, [], s => .ok () s
  | number, value :: values, s =>
    match Session.serialize value s with
    | .ok _ s => serializeItems (number + 1) values s
    | .error e s => .error (number, e) s

/-- Writes values as XML text in a layout: a document begins with the declaration, and a line feed ends both. -/
def writeItems (a : Arguments) (policy : Policy) (items : List Value) : Report :=
  let layout := a.layout.getD .document
  let writer : XmlWriter String := { out := "", indent := a.indent }
  let begun := if layout = .document then XmlWriter.declaration writer else .ok () writer
  match begun with
  | .error e writer => .failure writer.out [e.message]
  | .ok _ writer =>
    match Session.create writer policy layout with
    | .error e => .failure writer.out [e.message]
    | .ok session =>
      match serializeItems 1 items session with
      | .error (number, e) s => .failure s.writer.out ["failed to serialize item " ++ number.repr, e.message]
      | .ok _ s =>
        match Session.finish s with
        | .error e s => .failure s.writer.out [e.message]
        | .ok _ s => .success (s.writer.out ++ "\n")

def convert (a : Arguments) (policy : Policy) (text : String) : Report :=
  match Json.parse? text with
  | none => .failure "" ["input is not valid JSON"]
  | some json => writeItems a policy json.items

/-- Reads a source with the given policy and converts what it holds, which has to be text. -/
def convertBytes (a : Arguments) (policy : Policy) (bytes : Option ByteArray) : Report :=
  match bytes.bind String.fromUTF8? with
  | none => .failure "" [a.source.unreadable]
  | some text => convert a policy text

def invalidPolicy (e : Error) : Report := .failure "" ["invalid --depth", e.message]

/-- The program: `read` tells what a source holds, if it can be read. -/
def run (arguments : List String) (read : Source → Option ByteArray) : Report :=
  match Command.parse? arguments with
  | none => .usage
  | some .version => .success versionLine
  | some (.convert a) =>
    match a.policy with
    | .error e => invalidPolicy e
    | .ok policy => convertBytes a policy (read a.source)

end GraphMarkup.CommandLine
