/-
LoxLang.Command: the command line.

Arguments select a command, a command reads at most one file or the standard input, and what it does
is a function of the text it read.

* `Invocation.ofArguments`: what the arguments ask for.
* `decodeFile`: the text of a file.
* `Command.perform`: what a command prints and reports, and its exit status.
-/
import LoxLang.Session.Basic
import LoxLang.Token.Table
import LoxLang.Tree.Print

namespace LoxLang

/-! ## Arguments -/

/-- What is done with a file. -/
inductive Mode where
  | run | lex | parse | check
  deriving DecidableEq, Repr

/-- What the arguments ask for. -/
inductive Command where
  /-- An interactive dialogue. -/
  | prompt
  | onFile (mode : Mode) (path : String)
  /-- The arguments make no sense. -/
  | usage
  deriving DecidableEq, Repr

/-- A command, with or without the log. -/
structure Invocation where
  withLog : Bool
  command : Command
  deriving DecidableEq, Repr

/-- The lower-case form of a character as far as it can be an ASCII letter; the Kelvin sign is an
upper-case `k`. -/
def lowerChar (c : Char) : Char := if c = '\u212a' then 'k' else c.toLower

/-- The mode that a word names, in whatever case it is written. -/
def Mode.ofWord? (word : String) : Option Mode :=
  let lower := String.ofList (word.toList.map lowerChar)
  [("run", Mode.run), ("lex", .lex), ("parse", .parse), ("check", .check)].lookup lower

/-- The command of arguments without options.  A first argument that names no mode is a file to
run. -/
def Command.ofArguments : List String → Command
  | [] => .prompt
  | first :: rest =>
    match Mode.ofWord? first, rest with
    | some mode, [path] => .onFile mode path
    | some _, _ => .usage
    | none, [] => .onFile .run first
    | none, _ => .usage

/-- The option that turns the log on. -/
def logOption : String := "--debug"

/-- What arguments ask for; the option for the log may stand anywhere, once. -/
def Invocation.ofArguments (args : List String) : Invocation :=
  ⟨args.contains logOption, .ofArguments (args.erase logOption)⟩

/-! ## Files -/

/-- Why a file has no text. -/
inductive FileFault where
  | missing
  /-- The bytes are not UTF-8. -/
  | notText
  deriving DecidableEq, Repr

/-- Turns every line end, `\r\n` or `\r`, into a newline. -/
def unifyLineEnds : List Char → List Char
  | [] => []
  | '\r' :: '\n' :: cs => '\n' :: unifyLineEnds cs
  | '\r' :: cs => '\n' :: unifyLineEnds cs
  | c :: cs => c :: unifyLineEnds cs

/-- The text of a file, from its bytes if it is there. -/
def decodeFile : Option ByteArray → Except FileFault String
  | none => .error .missing
  | some bytes =>
    match String.fromUTF8? bytes with
    | some text => .ok (String.ofList (unifyLineEnds text.toList))
    | none => .error .notText

/-! ## Doing it -/

/-- What ends a command without an exit status. -/
inductive Escape where
  | failure (f : Failure)
  | file (f : FileFault)

/-- What a command did. -/
structure Effect where
  output : String
  reports : List Report
  exit : Except Escape Nat

/-- The exit status after wrong arguments. -/
def exitUsage : Nat := 64

/-- The exit status after complaints about a text. -/
def exitStaticError : Nat := 65

/-- The exit status after a failure of a program. -/
def exitRuntimeError : Nat := 70

/-- The help text. -/
def usageText : String :=
  "Usage:\n"
    ++ "  lox                 start the interactive prompt\n"
    ++ "  lox <file>          run a script\n"
    ++ "  lox run <file>      run a script\n"
    ++ "  lox lex <file>      print the token table\n"
    ++ "  lox parse <file>    print the syntax tree\n"
    ++ "  lox check <file>    report static errors without running\n"
    ++ "  add --debug to any command for debug logging\n"

/-- What is printed for a text without static errors. -/
def checkedText : String := "OK: no syntax/resolution errors found.\n"

/-- The exit status after a text was looked at. -/
def staticStatus (s : Session) : Nat := if s.hadError then exitStaticError else 0

/-- The exit status after a text was run. -/
def runStatus (s : Session) : Nat :=
  if s.hadError then exitStaticError
  else if s.hadRuntimeError then exitRuntimeError
  else 0

/-- The effect of a session that printed what its machine printed. -/
def Session.effect (s : Session) (exit : Except Escape Nat) : Effect :=
  ⟨s.machine.output, s.reports, exit⟩

/-- The exit status, unless a failure was handed on. -/
def exitOr (failure : Option Failure) (status : Nat) : Except Escape Nat :=
  match failure with
  | some f => .error (.failure f)
  | none => .ok status

/-- Does what a mode does with a text. -/
def Mode.perform (mode : Mode) (session : Session) (text : String) : Effect :=
  match mode with
  | .run =>
    let (failure, s) := (Session.run text).run session
    s.effect (exitOr failure (runStatus s))
  | .lex =>
    let (scan, s) := (Session.scan text).run session
    ⟨tokenTable scan.allTokens, s.reports, .ok (staticStatus s)⟩
  | .parse =>
    let (program, s) := (Session.read text).run session
    ⟨programText program ++ "\n", s.reports, .ok (staticStatus s)⟩
  | .check =>
    let (_, s) := (Session.check text).run session
    ⟨if s.hadError then "" else checkedText, s.reports, .ok (staticStatus s)⟩

/-- Does what a command asks for in a new session.  `fileText` yields the text of a file and `input`
is the standard input. -/
def Command.perform (command : Command) (session : Session)
    (fileText : String → Except FileFault String) (input : String) : Effect :=
  match command with
  | .prompt =>
    let (failure, s) := (Session.runPrompt input).run session
    s.effect (exitOr failure 0)
  | .usage => ⟨usageText, [], .ok exitUsage⟩
  | .onFile mode path =>
    match fileText path with
    | .ok text => mode.perform session text
    | .error fault => ⟨"", [], .error (.file fault)⟩

end LoxLang
