import GraphReasoner.Text.Search

/-!
# Arguments

A command line is a path of commands, each with arguments of its own. Every command knows some
options, which take a value, some flags, which do not, and perhaps one plain argument or commands
below it. Options and flags may stand in any order among the plain arguments, each at most once; a
value follows its option or is attached to it by an equals sign. A value that begins with a hyphen
has to be attached, and after two hyphens everything is a plain argument.

Three arguments are known to every command: `--batch`, `--config` and `--json`. One that is given to
several commands of the path counts as the last of them has it.

* `GraphReasoner.CommandLine.scan` – the arguments of one command;
* `GraphReasoner.CommandLine.Invocation.ofArgs` – what a command line asks for.
-/

namespace GraphReasoner.CommandLine

/-- What arguments a command takes. -/
structure Shape where
  /-- The names of options. -/
  options : List String
  /-- The names of flags. -/
  flags : List String
  /-- Whether there is a plain argument. -/
  plain : Bool
  /-- The commands below. -/
  commands : List String

/-- The arguments of one command so far. -/
structure Level where
  options : List (String × String)
  flags : List String
  plain : Option String
  /-- The command below and its arguments. -/
  below : Option (String × List String)
deriving Inhabited

/-- Why a command line is not carried out. -/
inductive Stop
  /-- It asks for help. -/
  | help
  /-- It asks for the version. -/
  | version
  /-- It is not understood. -/
  | misuse
deriving DecidableEq, Repr

namespace Level

/-- No arguments. -/
def empty : Level := ⟨[], [], none, none⟩

/-- The value of an option. -/
def option? (l : Level) (name : String) : Option String :=
  l.options.lookup name

/-- Whether a flag is given. -/
def flag (l : Level) (name : String) : Bool :=
  l.flags.contains name

end Level

/-- The options that every command knows. They name files. -/
def globalOptions : List String := ["batch", "config"]

/-- The flags that every command knows. -/
def globalFlags : List String := ["json"]

/-- Whether an argument is an option or a flag by its form. A single hyphen is not. -/
def isHyphenated (argument : String) : Bool :=
  argument.startsWith "-" && argument != "-"

/-- Gives an option its value, once. A file has a name. -/
def setOption (l : Level) (name value : String) : Except Stop Level :=
  if (l.option? name).isSome || (globalOptions.contains name && value.isEmpty) then .error .misuse
  else .ok { l with options := l.options ++ [(name, value)] }

/-- Sets a flag, once. -/
def setFlag (l : Level) (name : String) : Except Stop Level :=
  if l.flag name then .error .misuse else .ok { l with flags := l.flags ++ [name] }

/-- Takes a plain argument, if one is still awaited. -/
def setPlain (shape : Shape) (l : Level) (argument : String) : Except Stop Level :=
  if shape.plain && l.plain.isNone then .ok { l with plain := some argument } else .error .misuse

/-- What a hyphenated argument other than an option or a flag asks for. -/
def stopFor (top : Bool) (name : List Char) : Stop :=
  match name with
  | ['-', 'h', 'e', 'l', 'p'] => .help
  | ['-', 'v', 'e', 'r', 's', 'i', 'o', 'n'] => if top then .version else .misuse
  | 'h' :: _ => .help
  | 'V' :: _ => if top then .version else .misuse
  | _ => .misuse

/-- An argument in two hyphens, taken apart into its name and the value attached to it. -/
def splitAttached (argument : String) : String × Option String :=
  let body := argument.toList.drop 2
  match body.dropWhile (· != '=') with
  | [] => (String.ofList body, none)
  | _ :: value => (String.ofList (body.takeWhile (· != '=')), some (String.ofList value))

/-- Takes the arguments of one command. `top` says whether it is the first one. -/
def scan (top : Bool) (shape : Shape) (l : Level) : List String → Except Stop Level
  | [] => .ok l
  | "--" :: rest => rest.foldlM (setPlain shape) l
  | argument :: rest =>
    if isHyphenated argument then
      let long := argument.startsWith "--"
      let (name, attached) := splitAttached argument
      if long && (globalOptions ++ shape.options).contains name then
        match attached with
        | some value => do scan top shape (← setOption l name value) rest
        | none =>
          match rest with
          | [] => .error .misuse
          | value :: rest =>
            if isHyphenated value then .error .misuse
            else do scan top shape (← setOption l name value) rest
      else if long && attached.isNone && (globalFlags ++ shape.flags).contains name then do
        scan top shape (← setFlag l name) rest
      else .error (stopFor top (argument.toList.drop 1))
    else if shape.commands.contains argument ∨ (argument = "help" ∧ !shape.commands.isEmpty) then
      .ok { l with below := some (argument, rest) }
    else do scan top shape (← setPlain shape l argument) rest

/-- What a command line asks the engine. -/
inductive Command
  | info
  | inferRules
  | inferChains (source target kind : String)
  | query (text : String) (useCache withInferred : Bool)
  | plan (text : String)
  | suggest (text : String) (most : Nat)
  | rules
  | cacheStatistics
  | cacheClear
deriving DecidableEq, Repr

/-- A command line. -/
structure Invocation where
  /-- The path of the batch file. -/
  batch : Option String
  /-- The path of the settings file. -/
  config : Option String
  /-- Whether documents are printed instead of text. -/
  json : Bool
  command : Command
deriving DecidableEq, Repr

/-! ### The commands -/

/-- The shape of the command line as a whole. -/
def topShape : Shape :=
  ⟨[], [], false, ["info", "infer", "query", "plan", "suggest", "rules", "cache"]⟩

/-- The shape of a command, by its path. -/
def shapeOf : List String → Shape
  | [] => topShape
  | ["infer"] => ⟨[], [], false, ["rules", "advanced"]⟩
  | ["infer", "advanced"] => ⟨["source", "target", "relation-type"], [], false, []⟩
  | ["query"] => ⟨[], ["no-cache", "with-inferred"], true, []⟩
  | ["plan"] => ⟨[], [], true, []⟩
  | ["suggest"] => ⟨["max"], [], true, []⟩
  | ["cache"] => ⟨[], [], false, ["stats", "clear"]⟩
  | _ => ⟨[], [], false, []⟩

/-- Whether names, one below the other, lead to a command that help can be asked for. -/
def isHelpTopic (path : List String) : List String → Bool
  | [] => true
  | name :: names =>
    let shape := shapeOf path
    (shape.commands.contains name || (name == "help" && !shape.commands.isEmpty)) &&
      isHelpTopic (path ++ [name]) names

/-- Takes the arguments of a command and of the commands below it, which are at most so
many deep. -/
def scanPath : Nat → List String → List String → Except Stop (List String × List Level)
  | 0, path, _ => .ok (path, [])
  | depth + 1, path, arguments => do
    let level ← scan path.isEmpty (shapeOf path) .empty arguments
    match level.below with
    | none => return (path, [level])
    | some ("help", topics) =>
      if isHelpTopic path topics then throw .help else throw .misuse
    | some (name, rest) =>
      let (path, levels) ← scanPath depth (path ++ [name]) rest
      return (path, level :: levels)

/-- The greatest number of 64 bits. -/
def greatestNumber : Nat := 18446744073709551615

/-- A number without sign in at most 64 bits. A plus may stand in front of it. -/
def number? (text : String) : Option Nat :=
  let digits := match text.toList with
    | '+' :: digits => digits
    | digits => digits
  if digits.isEmpty || !digits.all Char.isDigit then none
  else
    let n := digits.foldl (fun n c => 10 * n + (c.toNat - '0'.toNat)) 0
    if n ≤ greatestNumber then some n else none

/-- The number of suggestions when none is given. -/
def usualMost : Nat := 3

/-- The command of a path, with the arguments of its last name. -/
def command? (path : List String) (l : Level) : Option Command :=
  match path with
  | ["info"] => some .info
  | ["infer", "rules"] => some .inferRules
  | ["infer", "advanced"] => do
    return .inferChains (← l.option? "source") (← l.option? "target") (← l.option? "relation-type")
  | ["query"] => do return .query (← l.plain) (!l.flag "no-cache") (l.flag "with-inferred")
  | ["plan"] => do return .plan (← l.plain)
  | ["suggest"] => do
    let most ← match l.option? "max" with
      | none => some usualMost
      | some text => number? text
    return .suggest (← l.plain) most
  | ["rules"] => some .rules
  | ["cache", "stats"] => some .cacheStatistics
  | ["cache", "clear"] => some .cacheClear
  | _ => none

/-- The greatest number of commands below one another, the whole command line included. -/
def deepest : Nat := 3

/-- What a command line asks for. -/
def Invocation.ofArgs (arguments : List String) : Except Stop Invocation := do
  let (path, levels) ← scanPath deepest [] arguments
  match command? path (levels.getLastD .empty) with
  | none => throw .misuse
  | some command =>
    let last (name : String) := (levels.filterMap fun l => l.option? name).getLast?
    return ⟨last "batch", last "config", levels.any fun l => l.flag "json", command⟩

end GraphReasoner.CommandLine
