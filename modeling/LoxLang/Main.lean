/-
LoxLang.Main: the program `lox`.

The outer layer of the command line: it reads files and lines, shows what the library computed and
ends with the exit status.
-/
import LoxLang.Command

namespace LoxLang

/-- The bounds of a run: nesting is limited well below what the stack holds, and loops are not
limited in practice. -/
def defaultBounds : Bounds := ⟨10000, Nat.pow 2 62⟩

/-- Shows the last words of a command that ends without an exit status. -/
def Escape.text : Escape → String
  | .failure (.runtime _ fault) => fault.message
  | .failure (.internal _ fault) => fault.message
  | .failure .overflow => RuntimeFault.stackOverflow.message
  | .failure .unfinished => "The program was stopped."
  | .file .missing => "The file cannot be read."
  | .file .notText => "The file is not valid UTF-8."

/-- Shows what was printed and reported. -/
def showTranscript (withLog : Bool) (output : String) (reports : List Report) : IO Unit := do
  let out ← IO.getStdout
  out.putStr output
  out.flush
  (← IO.getStderr).putStr (reportText withLog reports)

/-- Ends a command. -/
def finish (exit : Except Escape Nat) : IO UInt32 := do
  match exit with
  | .ok status => return status.toUInt32
  | .error e =>
    (← IO.getStderr).putStrLn e.text
    return 1

/-- The bytes of a file, if it can be read. -/
def fileBytes (path : String) : IO (Option ByteArray) := do
  try
    return some (← IO.FS.readBinFile path)
  catch _ => return none

/-- An interactive dialogue with whoever types the lines. -/
partial def dialogue (withLog : Bool) (session : Session) : IO UInt32 := do
  showTranscript withLog Session.promptText []
  let line ← (← IO.getStdin).getLine
  if line.isEmpty then return 0
  let (failure, after) := (Session.answer line).run session
  showTranscript withLog after.machine.output after.reports
  match failure with
  | some f => finish (.error (.failure f))
  | none => dialogue withLog (Session.clearTranscript.run after).2

end LoxLang

open LoxLang in
/-- The program `lox`. -/
def main (args : List String) : IO UInt32 := do
  let call := Invocation.ofArguments args
  let session := Session.start defaultBounds (.even ((← IO.monoMsNow).toFloat / 1000) 0.001)
  match call.command with
  | .prompt => dialogue call.withLog session
  | .usage | .onFile _ _ =>
    let file ← match call.command with
      | .onFile _ path => fileBytes path
      | _ => pure none
    let effect := call.command.perform session (fun _ => decodeFile file) ""
    showTranscript call.withLog effect.output effect.reports
    finish effect.exit
