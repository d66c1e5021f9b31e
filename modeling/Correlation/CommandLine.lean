import Correlation.Check.Verdict
import Correlation.Interchange.Program

/-!
# The command line

    check FILE... [--single] [--json]
    fmt FILE

`check` checks programs, in single mode if that is asked for, and says of each whether it is valid.
With `--json` it gives all diagnostics as one JSON text instead.  `fmt` prints a program in the
layout in which programs are written.

What a command does is a function of the texts of the files.
-/

namespace Correlation

/-- What the program is asked to do. -/
inductive Command where
  /-- Checks the programs in files. -/
  | check (files : List String) (single json : Bool)
  /-- Prints the program in a file. -/
  | format (file : String)
deriving DecidableEq, Repr

/-- The arguments of a command, sorted. -/
structure Arguments where
  /-- What is not an option. -/
  files : List String
  /-- The options, without duplicates. -/
  options : List String
deriving DecidableEq, Repr

namespace Arguments

/-- Whether an argument is an option. -/
def isOption (arg : String) : Bool := arg.startsWith "-" && !decide (arg = "-")

/-- Sorts arguments.  An option must be known and is given once, a file has a name, and two dashes
end the options. -/
def ofList? (known : List String) : List String → Option Arguments
  | [] => some ⟨[], []⟩
  | arg :: rest =>
    if arg = "--" then if rest.contains "" then none else some ⟨rest, []⟩
    else
      (ofList? known rest).bind fun sorted =>
        if isOption arg then
          if known.contains arg && !sorted.options.contains arg then
            some { sorted with options := arg :: sorted.options }
          else none
        else if arg = "" then none
        else some { sorted with files := arg :: sorted.files }

end Arguments

namespace Command

/-- The command that arguments ask for, if they do ask for one. -/
def ofArguments? : List String → Option Command
  | "check" :: rest =>
    (Arguments.ofList? ["--single", "--json"] rest).bind fun sorted =>
      if sorted.files.isEmpty then none
      else some (.check sorted.files (sorted.options.contains "--single")
        (sorted.options.contains "--json"))
  | "fmt" :: rest =>
    match Arguments.ofList? [] rest with
    | some ⟨[file], _⟩ => some (.format file)
    | _ => none
  | _ => none

/-- The files that a command reads. -/
def files : Command → List String
  | .check files _ _ => files
  | .format file => [file]

end Command

/-- What a command leaves behind. -/
structure CommandResult where
  /-- Zero if all is well. -/
  exitCode : UInt32
  /-- What is printed. -/
  output : String
  /-- What is told to the user besides. -/
  remarks : List String
deriving DecidableEq, Repr

/-- Writes a diagnostic. -/
def Diagnostic.toJson (d : Diagnostic) : Json :=
  .object [("file", .string d.file), ("line", Json.ofOption (fun n : Nat => .integer n) d.line),
    ("code", .string d.code), ("message", .string d.message)]

namespace Command

/-- What has been found out about files. -/
structure Findings where
  /-- Whether all programs are valid. -/
  allValid : Bool
  lines : List String
  diagnostics : List Diagnostic
  /-- What to tell the user besides. -/
  remarks : List String
deriving DecidableEq, Repr

/-- Loads a program from a file. -/
def loadFile (texts : String → Option String) (file : String) : Except String Program :=
  match texts file with
  | none => .error ("Could not read " ++ file)
  | some source => (Program.load source file).mapError LoadError.message

/-- Checks one more file. -/
def checkFile (texts : String → Option String) (mode : Option ExecutionMode) (f : Findings)
    (file : String) : Findings :=
  match loadFile texts file with
  | .error remark => { f with allValid := false, remarks := f.remarks ++ [remark] }
  | .ok program =>
    let verdict := program.check mode
    let word := if verdict.isValid then "ok" else "invalid"
    ⟨f.allValid && verdict.isValid, f.lines ++ [word ++ " " ++ file],
      f.diagnostics ++ verdict.diagnostics, f.remarks ++ verdict.reports⟩

/-- A text of lines. -/
def lineText (lines : List String) : String := String.join (lines.map (· ++ "\n"))

/-- Performs a command, given the texts of the files that can be read. -/
def perform (texts : String → Option String) : Command → CommandResult
  | .check files single json =>
    let mode := if single then some .single else none
    let f := files.foldl (checkFile texts mode) ⟨true, [], [], []⟩
    let lines := if json then [(Json.array (f.diagnostics.map Diagnostic.toJson)).pretty]
      else f.lines
    ⟨if f.allValid then 0 else 1, lineText lines, f.remarks⟩
  | .format file =>
    match loadFile texts file with
    | .error remark => ⟨1, "", [remark]⟩
    | .ok program => ⟨0, lineText [program.print], []⟩

/-- How the program is used. -/
def usage : String := "usage: check FILE... [--single] [--json]\n       fmt FILE"

/-- Performs what arguments ask for. -/
def performArguments (texts : String → Option String) (args : List String) : CommandResult :=
  match ofArguments? args with
  | some command => command.perform texts
  | none => ⟨2, "", [usage]⟩

end Command

/-! ## Tests -/

example : Command.ofArguments? ["check", "--json", "a", "b"] = some (.check ["a", "b"] false true)
    := by decide +kernel
example : Command.ofArguments? ["check", "--", "--json"] = some (.check ["--json"] false false) :=
  by decide +kernel
example : Command.ofArguments? ["check", "--json", "a", "--json"] = none := by decide +kernel
example : Command.ofArguments? ["fmt", "a", "b"] = none := by decide +kernel

end Correlation
