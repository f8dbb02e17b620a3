import Outlier.Table
import Outlier.Text.Blank

/-! # Environments and assignment files

An environment gives texts to names. An assignment file adds names to it that have no text yet: it
holds lines `NAME=value`, optionally after the word `export`, with comments from `#` on, single or
double quotes that may run over several lines, and a backslash before a character that is meant
literally. A line that cannot be read ends the file; what stood before it counts. -/

namespace Outlier

/-- The texts of names. -/
abbrev Environment := Table String

namespace Environment

/-! ### Logical lines -/

/-- Where a scan for the end of a logical line stands. -/
inductive Scan where
  | plain
  | blank
  | escape
  | single
  | singleEscape
  | double
  | doubleEscape
  deriving DecidableEq

/-- One character of the scan; a comment has no next state. -/
def Scan.next? (s : Scan) (c : Char) : Option Scan :=
  match s with
  | plain =>
    if Text.isBlank c && c ≠ '\n' && c ≠ '\r' then some blank else some (outside c)
  | blank => if c = '#' then none else some (outside c)
  | escape => some plain
  | single => some (if c = '\\' then singleEscape else if c = '\'' then plain else single)
  | singleEscape => some single
  | double => some (if c = '\\' then doubleEscape else if c = '"' then plain else double)
  | doubleEscape => some double
where
  /-- The state after a character outside quotes. -/
  outside (c : Char) : Scan :=
    if c = '\\' then escape else if c = '"' then double else if c = '\'' then single else plain

/-- What a physical line leaves of a logical one. -/
inductive LineEnd where
  /-- The logical line ends, and this is all of it. -/
  | complete (text : List Char)
  /-- The logical line goes on. -/
  | unfinished (state : Scan) (text : List Char)

/-- Scan the characters of a physical line; `done` holds the logical line so far, latest first. A
line feed leaves the scan plain unless quotes are open or a backslash stands before it. -/
def scanLine (s : Scan) (done : List Char) : List Char → LineEnd
  | [] => if s = .plain then .complete done.reverse else .unfinished s done
  | c :: rest => match s.next? c with
    | some s => scanLine s (c :: done) rest
    | none => .complete done.reverse

/-- The physical lines of a text, each with its line end. -/
def physicalLines (done : List Char) : List Char → List (List Char)
  | [] => if done.isEmpty then [] else [done.reverse]
  | c :: rest =>
    if c = '\n' then (c :: done).reverse :: physicalLines [] rest
    else physicalLines (c :: done) rest

/-- The logical lines of a text; an unfinished last line is `none`. -/
def logicalLines (s : Scan) (done : List Char) : List (List Char) → List (Option (List Char))
  | [] => if s = .plain then [] else [none]
  | line :: rest =>
    if (Text.trimStart (done.reverse ++ line)).head? = some '#' then
      some [] :: logicalLines .plain [] rest
    else match scanLine s done line with
      | .complete text => some text :: logicalLines .plain [] rest
      | .unfinished s done => logicalLines s done rest

/-! ### Assignments -/

/-- A name at the start of the text and what follows it. -/
def name? (text : List Char) : Option (String × List Char) :=
  match text with
  | c :: _ =>
    if c.isAlpha || c = '_' then
      let isPart := fun c : Char => c.isAlphanum || c = '_' || c = '.'
      some (String.ofList (text.takeWhile isPart), text.dropWhile isPart)
    else none
  | [] => none

/-- Which quotes are open in a value. -/
inductive Quote where
  | unquoted
  | single
  | double
  /-- A blank ended the value; only a comment may follow. -/
  | ended

/-- The value that the text gives; `done` holds what was read, latest first. -/
def value? (q : Quote) (done : List Char) : List Char → Option String
  | [] => match q with
    | .unquoted | .ended => some (String.ofList done.reverse)
    | .single | .double => none
  | '\\' :: rest => match q with
    | .single => value? q ('\\' :: done) rest
    | .ended => none
    | _ => match rest with
      | [] => match q with
        | .unquoted => some (String.ofList done.reverse)
        | _ => none
      | c :: rest =>
        if c = '\\' || c = '\'' || c = '"' || c = '$' || c = ' ' then value? q (c :: done) rest
        else if c = 'n' then value? q ('\n' :: done) rest
        else none
  | c :: rest => match q with
    | .ended =>
      if c = ' ' || c = '\t' then value? q done rest
      else if c = '#' then some (String.ofList done.reverse)
      else none
    | .single => if c = '\'' then value? .unquoted done rest else value? q (c :: done) rest
    | .double => if c = '"' then value? .unquoted done rest else value? q (c :: done) rest
    | .unquoted =>
      if c = '\'' then value? .single done rest
      else if c = '"' then value? .double done rest
      else if c = ' ' || c = '\t' then value? .ended done rest
      else value? q (c :: done) rest

/-- The text after an equals sign at its start. -/
def afterEquals? : List Char → Option (List Char)
  | '=' :: rest => some rest
  | _ => none

/-- What a logical line says. -/
inductive Line where
  | nothing
  | assignment (name value : String)
  | unreadable

/-- Does nothing but a comment stand here? -/
def isOver (text : List Char) : Bool := text.isEmpty || text.head? = some '#'

/-- Read a logical line. -/
def Line.ofText (text : List Char) : Line :=
  let text := Text.trimStart (Text.trimEnd text)
  if isOver text then .nothing
  else
    let assigned := do
      let (name, rest) ← name? text
      let rest := Text.trimStart rest
      let (name, rest) ← match afterEquals? rest with
        | some rest => some (name, rest)
        | none =>
          if name = "export" then do
            let (name, rest) ← name? rest
            let rest ← afterEquals? (Text.trimStart rest)
            some (name, rest)
          else none
      let rest := Text.trimStart rest
      let value ← if isOver rest then some "" else value? .unquoted [] rest
      some (name, value)
    match assigned with
    | some (name, value) => .assignment name value
    | none => .unreadable

/-- Take over the assignments of logical lines up to the first that cannot be read. -/
def takeLines (env : Environment) : List (Option (List Char)) → Environment
  | [] => env
  | none :: _ => env
  | some text :: rest => match Line.ofText text with
    | .nothing => takeLines env rest
    | .unreadable => env
    | .assignment name value =>
      takeLines (if (env.get? name).isSome then env else env.insert name value) rest

/-- The environment with the assignments of a file. -/
def withFile (env : Environment) (file : String) : Environment :=
  takeLines env (logicalLines .plain [] (physicalLines [] file.toList))

end Environment
end Outlier
