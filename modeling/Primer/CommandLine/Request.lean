/-! # Requests on the command line

    [-f | --file] [-m MODE | --mode MODE] [-t | --tokens] [-p | --pipe-mode] CONTENTS

The arguments are taken one by one, and the first one that cannot be understood ends it. Options
may stand before or after the contents, short options may share one dash, and the mode may be
attached to its option. Nothing may be given twice. Behind `--` every argument is contents.
-/
namespace Primer.CommandLine

/-- What to do with a program: check its declarations, evaluate it, or both. -/
inductive Mode where
  | check
  | interpret
  | run
deriving DecidableEq

def Mode.ofString? : String → Option Mode
  | "check" => some .check
  | "interpret" => some .interpret
  | "run" => some .run
  | _ => none

structure Options where
  mode : Mode
  /-- The contents are the path of a file and not the program itself. -/
  fromFile : Bool
  showTokens : Bool
  pipe : Bool
  contents : String
deriving DecidableEq

inductive Request where
  | version
  | help
  | execute (options : Options)
deriving DecidableEq

/-- The options that are understood so far. -/
structure Draft where
  mode? : Option Mode := none
  fromFile : Bool := false
  showTokens : Bool := false
  pipe : Bool := false
  contents? : Option String := none
deriving DecidableEq

namespace Draft

def setMode (d : Draft) (mode : String) : Option Draft :=
  match d.mode?, Mode.ofString? mode with
  | none, some m => some { d with mode? := some m }
  | _, _ => none

def setFromFile (d : Draft) : Option Draft :=
  if d.fromFile then none else some { d with fromFile := true }

def setShowTokens (d : Draft) : Option Draft :=
  if d.showTokens then none else some { d with showTokens := true }

def setPipe (d : Draft) : Option Draft :=
  if d.pipe then none else some { d with pipe := true }

def setContents (d : Draft) (contents : String) : Option Draft :=
  match d.contents? with
  | none => some { d with contents? := some contents }
  | some _ => none

/-- The contents are required, and the mode is to check if it is not given. -/
def toRequest (d : Draft) : Option Request :=
  d.contents?.map fun contents =>
    .execute ⟨d.mode?.getD .check, d.fromFile, d.showTokens, d.pipe, contents⟩

end Draft

inductive Step where
  | next (d : Draft)
  /-- The argument that follows is the mode. -/
  | modeFollows (d : Draft)
  | answer (r : Request)
  | refuse

def Step.ofDraft? : Option Draft → Step
  | some d => .next d
  | none => .refuse

namespace Draft

/-- Takes short options that share one dash. The first one that wants a mode takes the rest of the
argument for it. -/
def shorts (d : Draft) : List Char → Step
  | [] => .next d
  | 'f' :: cs => match d.setFromFile with
    | some d => d.shorts cs
    | none => .refuse
  | 't' :: cs => match d.setShowTokens with
    | some d => d.shorts cs
    | none => .refuse
  | 'p' :: cs => match d.setPipe with
    | some d => d.shorts cs
    | none => .refuse
  | ['m'] => .modeFollows d
  | 'm' :: '=' :: cs => .ofDraft? (d.setMode (String.ofList cs))
  | 'm' :: cs => .ofDraft? (d.setMode (String.ofList cs))
  | 'V' :: _ => .answer .version
  | 'h' :: _ => .answer .help
  | _ :: _ => .refuse

/-- Takes a long option, with the text behind its equals sign if it has one. -/
def long (d : Draft) (name : String) (value? : Option String) : Step :=
  match name, value? with
  | "file", none => .ofDraft? d.setFromFile
  | "tokens", none => .ofDraft? d.setShowTokens
  | "pipe-mode", none => .ofDraft? d.setPipe
  | "mode", none => .modeFollows d
  | "mode", some mode => .ofDraft? (d.setMode mode)
  | "version", none => .answer .version
  | "help", none => .answer .help
  | _, _ => .refuse

/-- Takes an argument before `--`. A single dash is contents. -/
def step (d : Draft) (argument : String) : Step :=
  match argument.toList with
  | '-' :: '-' :: cs =>
    let name := String.ofList (cs.takeWhile (· ≠ '='))
    match cs.dropWhile (· ≠ '=') with
    | [] => d.long name none
    | _ :: value => d.long name (some (String.ofList value))
  | '-' :: c :: cs => d.shorts (c :: cs)
  | _ => .ofDraft? (d.setContents argument)

/-- Takes the arguments behind `--`. -/
def readContents (d : Draft) : List String → Option Request
  | [] => d.toRequest
  | argument :: others => match d.setContents argument with
    | some d => d.readContents others
    | none => none

def read (d : Draft) : List String → Option Request
  | [] => d.toRequest
  | "--" :: others => d.readContents others
  | argument :: others =>
    match d.step argument with
    | .next d => d.read others
    | .modeFollows d =>
      match others with
      | [] => none
      | mode :: others => match d.setMode mode with
        | some d => d.read others
        | none => none
    | .answer r => some r
    | .refuse => none

end Draft

def Request.ofArguments? (arguments : List String) : Option Request :=
  ({} : Draft).read arguments

end Primer.CommandLine
