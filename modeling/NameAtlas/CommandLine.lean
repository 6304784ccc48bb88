import NameAtlas.Command

/-!
# Command lines

Arguments are read from left to right. The options of every command may stand in front of the name
of the command or behind it, where they count more; an option takes one value, in the same argument
behind an equals sign or as the next argument, and is given at most once on each side. Behind the
name of the command every other argument is an operand, and behind two dashes all of them are.
-/

namespace NameAtlas.CommandLine

/-- The name of the program. -/
def programName : String := "tugscope"

/-- The version of the program. -/
def version : String := "0.1.0"

/-- How much is logged, from most to least. -/
def logLevels : List String := ["trace", "debug", "info", "warn", "error"]

/-- The values of options on one side of the name of the command. -/
structure Options where
  /-- The options of every command. -/
  run : RunOptions := {}
  /-- How much is logged. -/
  logLevel : Option String := none
  /-- The name that a command is asked about. -/
  fqn : Option String := none
  deriving DecidableEq, Repr, Inhabited

/-- The options of every command. -/
def sharedOptions : List String := ["workspace", "config", "root-module", "jobs", "log-level"]

/-- A path, which is never empty. -/
def path? (text : String) : Option Path := if text = "" then none else some ⟨text⟩

/-- A number of workers, in front of which a plus sign may stand. -/
def jobs? (text : String) : Option Nat :=
  let digits := match text.toList with
    | '+' :: rest => rest
    | cs => cs
  let n := Text.decimalValue digits
  if digits ≠ [] ∧ digits.all Char.isDigit ∧ n < UInt64.size then some n else none

/-- A value that is not there yet. -/
def once? {α : Type} (old : Option α) (new : Option α) : Option (Option α) :=
  if old.isSome then none else new.map some

namespace Options

/-- Gives an option its value, if it has none yet and the value is one of the option. -/
def set? (o : Options) (name value : String) : Option Options :=
  match name with
  | "workspace" => do pure { o with run.workspace := ← once? o.run.workspace (path? value) }
  | "config" => do pure { o with run.config := ← once? o.run.config (path? value) }
  | "root-module" => do pure { o with run.rootModule := ← once? o.run.rootModule (some value) }
  | "jobs" => do pure { o with run.jobs := ← once? o.run.jobs (jobs? value) }
  | "log-level" => do
    let level := if logLevels.contains value then some value else none
    pure { o with logLevel := ← once? o.logLevel level }
  | "fqn" => do pure { o with fqn := ← once? o.fqn (some value) }
  | _ => none

/-- The options on both sides of the name of the command, where those behind it count more. -/
def combine (outer inner : Options) : RunOptions :=
  { workspace := inner.run.workspace.or outer.run.workspace
    config := inner.run.config.or outer.run.config
    rootModule := inner.run.rootModule.or outer.run.rootModule
    jobs := inner.run.jobs.or outer.run.jobs }

end Options

/-- What an argument is by its form. -/
inductive Form where
  /-- Two dashes. -/
  | separator
  /-- An option by its name, maybe with a value. -/
  | option (name : String) (value : Option String)
  /-- Letters behind one dash. -/
  | letters (letters : List Char)
  /-- Anything else, one dash included. -/
  | plain
  deriving DecidableEq, Repr, Inhabited

/-- The form of an argument. -/
def formOf (arg : String) : Form :=
  match arg.toList with
  | ['-', '-'] => .separator
  | '-' :: '-' :: rest =>
    let name := String.ofList (rest.takeWhile (· ≠ '='))
    match rest.dropWhile (· ≠ '=') with
    | _ :: value => .option name (some (String.ofList value))
    | [] => .option name none
  | '-' :: c :: rest => .letters (c :: rest)
  | _ => .plain

/-- What is behind the name of a command. -/
structure Tail where
  /-- The values of options. -/
  options : Options := {}
  /-- The operands, newest first. -/
  operands : List String := []
  deriving DecidableEq, Repr, Inhabited

/-- Reads the arguments behind the name of a command that has the options `names`. An option whose
value is still to come is `pending`. -/
def readTail (names : List String) (pending : Option String) (t : Tail) :
    List String → Option Tail
  | [] => if pending.isSome then none else some t
  | arg :: rest =>
    match pending, formOf arg with
    | some name, .plain => do
      readTail names none { t with options := ← t.options.set? name arg } rest
    | some _, _ => none
    | none, .separator => some { t with operands := rest.reverse ++ t.operands }
    | none, .option name value =>
      if names.contains name then
        match value with
        | some value => do
          readTail names none { t with options := ← t.options.set? name value } rest
        | none => readTail names (some name) t rest
      else none
    | none, .letters _ => none
    | none, .plain => readTail names none { t with operands := arg :: t.operands } rest

/-- The options of a command. -/
def optionsOf (command : String) : List String :=
  if command = "symbol" ∨ command = "usages" then "fqn" :: sharedOptions else sharedOptions

/-- The command of a name, an asked name and operands. -/
def commandOf? (command : String) (fqn : Option String) (operands : List Path) : Option Command :=
  match command, fqn, operands with
  | "index", none, targets => some (.index targets)
  | "symbol", some fqn, targets => some (.symbol fqn targets)
  | "usages", some fqn, targets => some (.usages fqn targets)
  | "diagnostics", none, targets => some (.diagnostics targets)
  | "annotate", none, [file] => some (.annotate file)
  | _, _, _ => none

/-- What arguments ask for. -/
inductive Request where
  /-- The version of the program. -/
  | version
  /-- A command. -/
  | run (options : RunOptions) (command : Command)
  deriving DecidableEq, Repr, Inhabited

/-- Reads the arguments from the name of a command on. -/
def readCommand? (outer : Options) (command : String) (args : List String) : Option Request := do
  let t ← readTail (optionsOf command) none {} args
  let operands ← t.operands.reverse.mapM path?
  pure (.run (outer.combine t.options) (← commandOf? command t.options.fqn operands))

/-- Reads the arguments up to the name of a command. The version is given as soon as it is asked
for, whatever comes behind. -/
def read (pending : Option String) (o : Options) : List String → Option Request
  | [] => none
  | arg :: rest =>
    match pending, formOf arg with
    | some name, .plain => do read none (← o.set? name arg) rest
    | some _, _ => none
    | none, .option name value =>
      if name = "version" ∧ value = none then some .version
      else if sharedOptions.contains name then
        match value with
        | some value => do read none (← o.set? name value) rest
        | none => read (some name) o rest
      else none
    | none, .letters letters => if letters.head? = some 'V' then some .version else none
    | none, .plain => readCommand? o arg rest
    | none, .separator => none

/-- What arguments ask for, if they are well formed. -/
def request? (args : List String) : Option Request := read none {} args

/-- How a run of the program ends. -/
inductive Outcome where
  /-- The arguments are malformed. -/
  | refused
  /-- There is a result to print. -/
  | printed (text : String)
  /-- The command failed. -/
  | failed (failure : Failure)
  deriving DecidableEq, Repr, Inhabited

namespace Outcome

/-- The exit code. -/
def exitCode : Outcome → Nat
  | .refused => 2
  | .printed _ => 0
  | .failed f => f.code

/-- What is printed. A failure is printed like every other response. -/
def output : Outcome → String
  | .refused => ""
  | .printed text => text
  | .failed f => f.toJson.document

end Outcome

/-- Runs the program on a file system. -/
def run (fs : FileSystem) (args : List String) : Outcome :=
  match request? args with
  | none => .refused
  | some .version => .printed (programName ++ " " ++ version ++ "\n")
  | some (.run options command) =>
    match command.run fs options with
    | .ok text => .printed text
    | .error f => .failed f

end NameAtlas.CommandLine
