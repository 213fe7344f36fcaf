import ClassGraph.Text.Integer
import ClassGraph.Text.Search

/-!
Reading the arguments of a command. Options may stand anywhere, long names may be cut short as long
as they stay unambiguous, a value may be attached to its option, and behind the separator `--`
everything is plain. A plain argument fills the place of the file, if the command has one.
-/

namespace ClassGraph.Arguments

inductive Use where
  | help
  | flag
  /-- Takes one value, which has to be acceptable. -/
  | value (accepts : String → Bool)

/-- An option: its names, the first of which stands for it, and what it does. -/
structure Form where
  names : List String
  use : Use

structure Interface where
  forms : List Form
  takesFile : Bool

/-- What is attached to the name of an option. -/
inductive Attached where
  | nothing
  | toLong (s : String)
  /-- Behind a short name, with an equals sign between them or without. -/
  | toShort (s : String)

inductive Item where
  | plain (s : String)
  | separator
  | option (form : Form) (attached : Attached)
  | unknown

def helpForm : Form := ⟨["-h", "--help"], .help⟩

def findForm? (forms : List Form) (name : String) : Option Form :=
  forms.find? fun form => form.names.contains name

def splitEquals? (arg : String) : Option (String × String) :=
  (Text.splitAtWord ['='] arg.toList).map fun (name, value) =>
    (String.ofList name, String.ofList value)

/-- The options that have a name beginning with `start`, once for each such name. -/
def formsStarting (forms : List Form) (start : String) : List Form :=
  forms.flatMap fun form =>
    (form.names.filter fun name => Text.startsWith start.toList name.toList).map fun _ => form

/-- How an argument is understood that is no option by its full name. -/
def understandOther (forms : List Form) (arg : String) : Option Item :=
  let fallback :=
    if Text.looksNegative arg || arg.toList.contains ' ' then Item.plain arg else .unknown
  match arg.toList with
  | '-' :: '-' :: _ =>
    let (name, attached) := match splitEquals? arg with
      | some (name, value) => (name, Attached.toLong value)
      | none => (arg, .nothing)
    match formsStarting forms name with
    | [] => some fallback
    | [form] => some (.option form attached)
    | _ => none
  | '-' :: letter :: rest =>
    match findForm? forms (String.ofList ['-', letter]) with
    | some form => some (.option form (.toShort (String.ofList rest)))
    | none => some fallback
  | _ => some (.plain arg)

/-- A value behind the name of an option and an equals sign. -/
def attach (name value : String) : Attached :=
  if name.startsWith "--" then .toLong value else .toShort value

/-- How one argument is understood; nothing if a name is cut so short that it fits two options. -/
def understand (forms : List Form) (arg : String) : Option Item :=
  match arg.toList with
  | '-' :: _ :: _ =>
    match findForm? forms arg with
    | some form => some (.option form .nothing)
    | none =>
      match splitEquals? arg with
      | some (name, value) =>
        match findForm? forms name with
        | some form => some (.option form (attach name value))
        | none => understandOther forms arg
      | none => understandOther forms arg
  | _ => some (.plain arg)

def understandAll (forms : List Form) : List String → Option (List Item)
  | [] => some []
  | arg :: rest =>
    if arg = "--" then some (.separator :: rest.map .plain)
    else
      match understand forms arg with
      | none => none
      | some item => (understandAll forms rest).map (item :: ·)

/-- An option that is given, and its value. -/
structure Given where
  name : String
  value : Option String
deriving DecidableEq

inductive Reading where
  | help
  | refused
  /-- The given options in order, and the file. -/
  | given (options : List Given) (file : Option String)
deriving DecidableEq

/-- Whether letters stand for options one after the other, the last of which may take the letters
behind it, or else the next argument, as its value. -/
def areOptions (forms : List Form) (plainFollows : Bool) : List Char → Bool
  | [] => false
  | letter :: rest =>
    match findForm? forms (String.ofList ['-', letter]) with
    | none => false
    | some form =>
      match form.use with
      | .value _ => !rest.isEmpty || plainFollows
      | _ => rest.isEmpty || areOptions forms plainFollows rest

/-- Whether help is given. What is attached to a short name has to stand for further options, though
they come too late to take effect; nothing can be attached to the long name. -/
def givesHelp (forms : List Form) (plainFollows : Bool) : Attached → Bool
  | .nothing => true
  | .toLong _ => false
  | .toShort letters => areOptions forms plainFollows letters.toList

structure Progress where
  options : List Given
  file : Option String
  surplus : Bool

def Progress.note (p : Progress) (form : Form) (value : Option String) : Progress :=
  { p with options := p.options ++ [⟨form.names.headD "", value⟩] }

/-- Notes a value that is attached to its option, if it is acceptable. The separator is no value,
so that the option stands there without one. -/
def Progress.noteAttached? (p : Progress) (form : Form) (accepts : String → Bool)
    (value : String) : Option Progress :=
  if value = "--" then some (p.note form none)
  else if accepts value then some (p.note form (some value))
  else none

def plainNext : List Item → Bool
  | .plain _ :: _ => true
  | _ => false

def Progress.close (p : Progress) (takesFile : Bool) : Reading :=
  if p.surplus || (takesFile && p.file.isNone) then .refused else .given p.options p.file

/-- Reads the arguments one by one. Help takes effect where it stands. -/
def readItems (interface : Interface) : Progress → List Item → Reading
  | p, [] => p.close interface.takesFile
  | p, .unknown :: rest => readItems interface { p with surplus := true } rest
  | p, .separator :: rest =>
    if interface.takesFile && p.file.isNone && plainNext rest then readItems interface p rest
    else readItems interface { p with surplus := true } rest
  | p, .plain s :: rest =>
    if interface.takesFile && p.file.isNone then
      match rest with
      | .separator :: rest => readItems interface { p with file := some s } rest
      | rest => readItems interface { p with file := some s } rest
    else readItems interface { p with surplus := true } rest
  | p, .option form attached :: rest =>
    match form.use, attached with
    | .help, attached =>
      if givesHelp interface.forms (plainNext rest) attached then .help else .refused
    | .flag, .nothing => readItems interface (p.note form none) rest
    | .flag, _ => .refused
    | .value accepts, .nothing =>
      match rest with
      | .plain s :: rest =>
        if accepts s then readItems interface (p.note form (some s)) rest else .refused
      | _ => .refused
    | .value accepts, .toLong s =>
      match p.noteAttached? form accepts s with
      | some p => readItems interface p rest
      | none => .refused
    | .value accepts, .toShort s =>
      match p.noteAttached? form accepts s with
      | some p => readItems interface p rest
      | none => .refused

def read (interface : Interface) (args : List String) : Reading :=
  match understandAll interface.forms args with
  | none => .refused
  | some items => readItems interface ⟨[], none, false⟩ items

def last? (given : List Given) (name : String) : Option Given :=
  given.reverse.find? fun g => g.name == name

/-- The value that an option is given last, if it is given and has one there. -/
def valueOf? (given : List Given) (name : String) : Option String :=
  (last? given name).bind (·.value)

end ClassGraph.Arguments
