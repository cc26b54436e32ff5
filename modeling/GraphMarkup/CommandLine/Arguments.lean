import GraphMarkup.Policy
import GraphMarkup.Layout

/-!
# Command-line arguments

* `Source` : where the input comes from;
* `Arguments` : what the arguments say; an option that is not given has its default;
* `Command`, `Command.parse?` : what is to be done, unless the arguments are not understood.

Options come in any order and at most once each, before or after the input; behind `--` nothing is an option. The
value of an option follows its name, or an equals sign, or the letter of a short option. What looks like an option is
never the value of another one by itself.
-/

namespace GraphMarkup.CommandLine

/-- Where the input comes from. -/
inductive Source where
  | standardInput
  | file (path : String)
  deriving DecidableEq, Repr

/-- What the arguments say. -/
structure Arguments where
  input : Option String := none
  depth : Option Nat := none
  noTypeInformation : Bool := false
  layout : Option Layout := none
  indent : Option Nat := none
  dotnetTypeNames : Bool := false
  deriving DecidableEq, Repr

/-- What is to be done. -/
inductive Command where
  | version
  | convert (arguments : Arguments)
  deriving DecidableEq, Repr

/-- The options that take a value. -/
inductive ValueOption where
  | depth
  | layout
  | indent
  deriving DecidableEq, Repr

/-- A whole number of 64 bits in decimal, behind a plus sign or none. -/
def natural? (text : String) : Option Nat :=
  let digits := match text.toList with
    | '+' :: rest => rest
    | chars => chars
  if digits.isEmpty || !digits.all Char.isDigit then none
  else
    let n := digits.foldl (fun n c => n * 10 + (c.toNat - '0'.toNat)) 0
    if n < Nat.pow 2 64 then some n else none

def layout? : String → Option Layout
  | "document" => some .document
  | "stream" => some .stream
  | _ => none

namespace Arguments

/-- Where the input comes from: a dash, like no input at all, is the standard input. -/
def source (a : Arguments) : Source :=
  match a.input with
  | none | some "-" => .standardInput
  | some path => .file path

/-- Sets the input, which may be given once and not be empty. -/
def setInput? (a : Arguments) (text : String) : Option Arguments :=
  if a.input.isSome || text.isEmpty then none else some { a with input := some text }

/-- Sets an option, which may be given once. -/
def set? (a : Arguments) (option : ValueOption) (text : String) : Option Arguments :=
  match option with
  | .depth => if a.depth.isSome then none else (natural? text).map fun n => { a with depth := some n }
  | .layout => if a.layout.isSome then none else (layout? text).map fun l => { a with layout := some l }
  | .indent => if a.indent.isSome then none else (natural? text).map fun n => { a with indent := some n }

end Arguments

/-- What one argument is. -/
inductive Argument where
  /-- The mark behind which nothing is an option. -/
  | endOfOptions
  /-- A long option with the text behind its equals sign, if there is one. -/
  | long (name : String) (attached : Option String)
  /-- Short options in one argument, at least one. -/
  | short (letters : List Char)
  | plain (text : String)
  deriving DecidableEq, Repr

/-- Reads an argument. A dash alone is plain. -/
def Argument.ofString (text : String) : Argument :=
  match text.toList with
  | ['-', '-'] => .endOfOptions
  | '-' :: '-' :: rest =>
    match rest.dropWhile (· != '=') with
    | _ :: attached => .long (String.ofList (rest.takeWhile (· != '='))) (some (String.ofList attached))
    | [] => .long (String.ofList rest) none
  | '-' :: letter :: rest => .short (letter :: rest)
  | _ => .plain text

/-- What reading an argument leads to. -/
inductive Outcome where
  /-- On with the next argument. -/
  | next (a : Arguments)
  /-- The next argument has to be the value of an option. -/
  | wantsValue (a : Arguments) (option : ValueOption)
  /-- From here on all arguments are plain. -/
  | plainOnly (a : Arguments)
  /-- The version is asked for, whatever follows. -/
  | version

def takeLong? (a : Arguments) (name : String) (attached : Option String) : Option Outcome :=
  match name, attached with
  | "version", none => some .version
  | "no-type-information", none =>
    if a.noTypeInformation then none else some (.next { a with noTypeInformation := true })
  | "dotnet-type-names", none =>
    if a.dotnetTypeNames then none else some (.next { a with dotnetTypeNames := true })
  | "depth", attached => takeValue .depth attached
  | "as", attached => takeValue .layout attached
  | "indent", attached => takeValue .indent attached
  | _, _ => none
where
  /-- Sets an option at once if its value is attached. -/
  takeValue (option : ValueOption) (attached : Option String) : Option Outcome :=
    match attached with
    | some text => (a.set? option text).map .next
    | none => some (.wantsValue a option)

/-- Takes the short options of an argument. All of it behind the letter of the depth, less an equals sign, is its
value. -/
def takeShort? (a : Arguments) : List Char → Option Outcome
  | 'V' :: _ => some .version
  | ['d'] => some (.wantsValue a .depth)
  | 'd' :: '=' :: value => (a.set? .depth (String.ofList value)).map .next
  | 'd' :: value => (a.set? .depth (String.ofList value)).map .next
  | _ => none

def take? (a : Arguments) : Argument → Option Outcome
  | .endOfOptions => some (.plainOnly a)
  | .long name attached => takeLong? a name attached
  | .short letters => takeShort? a letters
  | .plain text => (a.setInput? text).map .next

namespace Command

def parsePlain? (a : Arguments) : List String → Option Command
  | [] => some (convert a)
  | text :: rest => do parsePlain? (← a.setInput? text) rest

def parseFrom? (a : Arguments) : List String → Option Command
  | [] => some (convert a)
  | text :: rest =>
    match take? a (Argument.ofString text), rest with
    | none, _ => none
    | some .version, _ => some version
    | some (.plainOnly a), rest => parsePlain? a rest
    | some (.next a), rest => parseFrom? a rest
    | some (.wantsValue a option), value :: rest =>
      match Argument.ofString value with
      | .plain value => do parseFrom? (← a.set? option value) rest
      | _ => none
    | some (.wantsValue ..), [] => none

/-- What the arguments ask for, unless they are not understood. -/
def parse? (arguments : List String) : Option Command := parseFrom? {} arguments

end Command

end GraphMarkup.CommandLine
