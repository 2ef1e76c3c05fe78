import Primer.CommandLine.Request
import Primer.Program

/-! # Reports on the command line

What a request prints, and the status that it ends with: 0 if all went well, 1 if the program has a
fault or its file cannot be read, and 2 if the arguments are not understood.
-/
namespace Primer.CommandLine

/-- Why the text of a file is not available. -/
inductive FileFault where
  | notFound
  | accessDenied
  | notDirectory
  | isDirectory
  | nameTooLong
  | notText
deriving DecidableEq

/-- The words of the system, with its number for the fault. -/
def FileFault.text : FileFault → String
  | .notFound => "No such file or directory (os error 2)"
  | .accessDenied => "Permission denied (os error 13)"
  | .notDirectory => "Not a directory (os error 20)"
  | .isDirectory => "Is a directory (os error 21)"
  | .nameTooLong => "File name too long (os error 36)"
  | .notText => "stream did not contain valid UTF-8"

structure Report where
  status : Nat
  output : String
  errors : String
deriving DecidableEq

/-- A number at the end of a field of at least `width` characters. -/
def padLeft (width n : Nat) : String :=
  let digits := n.repr
  String.ofList (List.replicate (width - digits.length) ' ') ++ digits

def tokenDump (tokens : TokenList) : String :=
  String.join (tokens.rows.map fun (line, text) => padLeft 4 line ++ "  " ++ text ++ "\n")

/-- The value of the program, if it has one, and in pipe mode its variables in the order of their
names. -/
def outcomeText (pipe : Bool) (o : Outcome) : String :=
  let result := match o.result with
    | some value => value.text ++ "\n"
    | none => ""
  let rows := o.environment.entries.map fun (name, value) =>
    name ++ " = " ++ value.text ++ "\n"
  if pipe then result ++ String.join rows else result

namespace Options

/-- What the mode prints for a program without faults. -/
def modeOutput (o : Options) (program : String) : Except Fault String :=
  match o.mode with
  | .check => (Program.check program).map fun table => table.text ++ "\n"
  | .interpret => (Program.interpret program).map (outcomeText o.pipe)
  | .run => (Program.run program).map (outcomeText o.pipe)

/-- What is printed for a program, and the fault that the printing ends with. If the tokens are
asked for and can all be read, they are printed first, whatever happens then. -/
def execute (o : Options) (program : String) : String × Option Fault :=
  let printed := match o.modeOutput program with
    | .ok text => (text, none)
    | .error f => ("", some f)
  if o.showTokens then
    match (TokenStream.ofString program).toTokenList with
    | .ok tokens => (tokenDump tokens ++ printed.1, printed.2)
    | .error f => ("", some (.source (.lexical f)))
  else printed

def report (o : Options) (readFile : String → Except FileFault String) : Report :=
  match if o.fromFile then readFile o.contents else .ok o.contents with
  | .error f =>
    ⟨1, "", "Failed to read the input file '" ++ o.contents ++ "': " ++ f.text ++ "\n"⟩
  | .ok program =>
    match o.execute program with
    | (output, none) => ⟨0, output, ""⟩
    | (output, some f) => ⟨1, output, f.heading ++ ": " ++ f.message ++ "\n"⟩

end Options

def versionText : String := "quill 0.1.0\n"

def usageText : String :=
  "Usage: [-f] [-m check|interpret|run] [-t] [-p] CONTENTS\n"

def report (arguments : List String) (readFile : String → Except FileFault String) : Report :=
  match Request.ofArguments? arguments with
  | some .version => ⟨0, versionText, ""⟩
  | some .help => ⟨0, usageText, ""⟩
  | some (.execute options) => options.report readFile
  | none => ⟨2, "", usageText⟩

end Primer.CommandLine
