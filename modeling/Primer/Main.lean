/-
Primer/Main.lean

The interpreter as a command.  Arguments are files to run first; `-impcore`
among them chooses the procedural language.  Then lines are read from standard
input until it ends.

The shell itself is a function of the files it can use.  So before a text is
run, the files that it uses are read, and those that they use in turn.
-/
import Primer.Shell

namespace Primer.Main

/-- The paths that were tried, with the file that each led to. -/
abbrev Loaded := List (String × Option Document)

/-- The files that were found, as a disk. -/
def disk (loaded : Loaded) : Disk :=
  ⟨loaded.filterMap (·.2), fun path => (loaded.lookup path).join.map (·.identity)⟩

/-- The files that a text uses. -/
def uses (L : Language) (text : String) : List String :=
  (readAll "" text).filterMap fun entry =>
    match entry.result.bind L.recognise with
    | .ok (.use file) => some file
    | _ => none

/-- Read a file, if that is possible. -/
def load (path : String) : IO (Option Document) := do
  try
    let text ← IO.FS.readFile path
    let place ← IO.FS.realPath path
    return some ⟨place.toString, text⟩
  catch _ => return none

/-- Read files, and those that they use. -/
partial def loadAll (L : Language) (loaded : Loaded) : List String → IO Loaded
  | [] => return loaded
  | path :: paths => do
      if (loaded.lookup path).isSome then loadAll L loaded paths
      else
        let found ← load path
        let inner := (found.map fun doc => uses L doc.text).getD []
        loadAll L ((path, found) :: loaded) (inner ++ paths)

/-- Print what a session has written, and go on with an empty console. -/
def flush {L : Language} (s : Session L) : IO (Session L) := do
  let out ← IO.getStdout
  out.putStr s.machine.console.out.text
  out.flush
  let diag ← IO.getStderr
  diag.putStr s.machine.console.diag.text
  diag.flush
  return s.withConsole s.machine.console.cleared

/-- Read a line as it was typed, without its end; `none` at the end of the input. -/
def readLine : IO (Option String) := do
  let line ← (← IO.getStdin).getLine
  return (Shell.typedLines line).head?

/-- Read lines and give them to the shell until one of the two ends. -/
partial def loop {L : Language} (interactive : Bool) (shell : Shell L) : IO UInt32 := do
  if interactive then
    let out ← IO.getStdout
    out.putStr (if shell.buffer.isEmpty then "-> " else "   ")
    out.flush
  match ← readLine with
  | none => return 0
  | some line =>
      let loaded ← loadAll L [] (uses L (shell.buffer ++ line ++ "\n"))
      match shell.line (disk loaded) line with
      | .ready shell => loop interactive { shell with session := ← flush shell.session }
      | .leave _ => return 0
      | .unfinished shell => do
          let _ ← flush shell.session
          return 2

/-- Run the files among the arguments, then the shell. -/
def start (args : List String) : IO UInt32 := do
  let L := Shell.languageOf args
  let files := Shell.fileArguments args
  let loaded ← loadAll L [] files
  match Shell.runFiles (disk loaded) files (Session.initial L .empty {} Shell.settings) with
  | .unfinished s => do
      let _ ← flush s
      return 2
  | .fault e s => do
      let _ ← flush (Shell.complain s e.message)
      return 1
  | .value _ s =>
      let s ← flush (Shell.say s [Shell.banner L])
      loop (← (← IO.getStdin).isTty) ⟨s, ""⟩

end Primer.Main

def main (args : List String) : IO UInt32 := Primer.Main.start args
