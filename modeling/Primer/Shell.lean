/-
Primer/Shell.lean

The interactive loop, as a function of the lines that it is given.  Lines are
gathered until they hold whole data only, and then run as one unit.  While
nothing is gathered a line may also be a command.  A backspace in the input takes
back what was typed before it on the same line.

The shell writes to the channels of its session: the banner, help texts and
listings to `out`, like all that programs print.
-/
import Primer.Session
import Primer.Text.Typed

namespace Primer

/-- A session and the lines of an unfinished datum. -/
structure Shell (L : Language) where
  session : Session L
  buffer : String

/-- How the shell goes on after a line. -/
inductive Shell.Next (L : Language) where
  | ready (shell : Shell L)
  /-- the user asked to leave -/
  | leave (shell : Shell L)
  | unfinished (shell : Shell L)

namespace Shell

variable {L : Language}

def helpLines : List String :=
  ["Commands:",
   "  :help      - Show this help message",
   "  :env       - Show global bindings",
   "  :quit      - Exit the interpreter",
   "  Ctrl+D     - Exit the interpreter",
   "",
   "Top-level forms:",
   "  (val x e)  (define f (x ...) e)  (use file)  e",
   "  (check-expect e e)  (check-assert e)  (check-error e)",
   "",
   "Set &trace to a positive count to trace that many calls:",
   "  (val &trace 5)"]

def banner (L : Language) : String :=
  L.name ++ " interpreter. Type :help for commands, Ctrl+D to exit."

/-- Write lines to `out`, as far as it takes them. -/
def say (s : Session L) (lines : List String) : Session L :=
  let text := lines.foldl (fun acc line => acc ++ line ++ "\n") ""
  s.withMachine (s.machine.withOut (s.machine.console.out.write text).state)

/-- Write a line to the diagnostics, as far as they take it. -/
def complain (s : Session L) (line : String) : Session L :=
  s.withMachine (s.machine.diagLine fun _ => line).state

/-- Gather a line, and run what was gathered if it needs no more. -/
def gather (disk : Disk) (line : String) (shell : Shell L) : Next L :=
  let text := shell.buffer ++ line ++ "\n"
  if needsMore text then .ready { shell with buffer := text }
  else
    match shell.session.runSource disk standardInput text with
    | .value _ s => .ready ⟨s, ""⟩
    | .fault _ s => .ready ⟨s, ""⟩
    | .unfinished s => .unfinished ⟨s, ""⟩

/-- Take one line. -/
def line (disk : Disk) (line : String) (shell : Shell L) : Next L :=
  if shell.buffer.isEmpty then
    match Text.trimBlanks line with
    | "" => .ready shell
    | ":help" => .ready { shell with session := say shell.session helpLines }
    | ":env" =>
        let memory := shell.session.machine.memory
        .ready { shell with session := say shell.session (L.listing memory) }
    | ":quit" => .leave shell
    | ":exit" => .leave shell
    | _ => gather disk line shell
  else gather disk line shell

/-- Take lines until they end or the user leaves. -/
def lines (disk : Disk) : List String → Shell L → Next L
  | [], shell => .leave shell
  | l :: ls, shell =>
      match line disk l shell with
      | .ready shell => lines disk ls shell
      | done => done

/-- The settings of interactive use. -/
def settings : Settings := { echo := .on, locations := .hidden }

/-- Run files in order; the first that cannot be run ends this with an error. -/
def runFiles (disk : Disk) : List String → Session L → Outcome (Session L) Unit
  | [], s => .value () s
  | file :: files, s => (s.runFile disk file).andThen fun _ s => runFiles disk files s

/-- The argument that chooses the procedural language. -/
def proceduralFlag : String := "-impcore"

/-- The arguments that are files. -/
def fileArguments (args : List String) : List String := args.filter fun a => a != proceduralFlag

/-- The language that the arguments choose. -/
def languageOf (args : List String) : Language :=
  if args.contains proceduralFlag then .procedural else .functional

/-! ### Whole runs -/

/-- What a run of the shell leaves behind. -/
structure Transcript where
  out : String
  diag : String
  code : Nat

/-- What a session has written, and the exit code. -/
def transcript (s : Session L) (code : Nat) : Transcript :=
  ⟨s.machine.console.out.text, s.machine.console.diag.text, code⟩

/-- The lines of a text.  A line ends in a line feed or in a carriage return and
a line feed; a last line may lack its end. -/
def linesOf (reversed : List Char) : List Char → List String
  | [] => if reversed.isEmpty then [] else [String.ofList reversed.reverse]
  | '\n' :: rest =>
      let chars := match reversed with
        | '\r' :: before => before
        | _ => reversed
      String.ofList chars.reverse :: linesOf [] rest
  | c :: rest => linesOf (c :: reversed) rest

/-- The lines of the input as they were typed, backspaces carried out. -/
def typedLines (input : String) : List String := (linesOf [] input.toList).map Text.typed

/-- Run the shell on arguments and all of its input.  `none` if some program did
not come to an end. -/
def run (disk : Disk) (limits : Limits) (args : List String) (input : String) :
    Option Transcript :=
  let L := languageOf args
  match runFiles disk (fileArguments args) (Session.initial L .empty limits settings) with
  | .unfinished _ => none
  | .fault e s => some (transcript (complain s e.message) 1)
  | .value _ s =>
      match lines disk (typedLines input) ⟨say s [banner L], ""⟩ with
      | .unfinished _ => none
      | .ready shell => some (transcript shell.session 0)
      | .leave shell => some (transcript shell.session 0)

end Shell

end Primer
