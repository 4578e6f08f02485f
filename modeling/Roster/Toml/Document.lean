import Roster.Toml.Section
import Roster.Toml.Token

/-!
# TOML documents

`Value.ofToml?` reads a text as one table. The text is cut into tokens, the tokens are read as lines
(`Line`), and the lines fill the table in their order. Lists may go on over several lines; all else
ends with its line.

Lists and tables in brackets are nested fewer than 80 levels deep, and a dotted key has fewer than
80 names.
-/

set_option autoImplicit false
set_option relaxedAutoImplicit false

namespace Roster.Toml

/-- The number of levels, and of names in a key, that is too many. -/
def depthLimit : Nat := 80

/-- What follows blanks at the start of a row of tokens. -/
def dropBlank : List Token → List Token
  | .blank _ :: rest => rest
  | tokens => tokens

/-- What follows blanks and line ends at the start of a row of tokens. -/
def dropBlankLines : List Token → List Token
  | .blank _ :: rest => dropBlankLines rest
  | .lineEnd :: rest => dropBlankLines rest
  | tokens => tokens

/-- Blanks and tabs. -/
def Token.isBlank : Token → Bool
  | .blank _ => true
  | _ => false

/-- A token that may be part of a key. -/
def Token.isKeyPart : Token → Bool
  | .blank _ | .word _ | .quoted _ => true
  | .mark character => character = '.'
  | _ => false

/-- The name that a token is. -/
def Token.name? : Token → Option String
  | .word text =>
    if text.all fun character ↦ character ≠ '+' && character ≠ ':' then some (String.ofList text)
    else none
  | .quoted text => some (String.ofList text)
  | _ => none

/-- The names of a dotted key. -/
def keyNames : List Token → Option (List String)
  | [only] => only.name?.map fun name ↦ [name]
  | first :: .mark '.' :: rest => do
    let name ← first.name?
    let names ← keyNames rest
    return name :: names
  | _ => none

/-- The key at the start of a row of tokens, and what follows it. -/
def readKey (tokens : List Token) : Option (List String × List Token) :=
  let part := tokens.takeWhile Token.isKeyPart
  match keyNames (part.filter fun token ↦ !token.isBlank) with
  | some names => if names.length < depthLimit then some (names, tokens.drop part.length) else none
  | none => none

/-- The text of a token that may be part of a value without quotes. -/
def Token.bareText? : Token → Option (List Char)
  | .word text => some text
  | .mark character => if character = '.' then some ['.'] else none
  | _ => none

/-- The text of the tokens of a value without quotes, and what follows them. -/
def readBareText : List Token → List Char × List Token
  | [] => ([], [])
  | token :: rest =>
    match token.bareText? with
    | some text =>
      let (more, behind) := readBareText rest
      (text ++ more, behind)
    | none => ([], token :: rest)

/-- The value without quotes at the start of a row of tokens, and what follows it. A single blank
may stand between a date and a time. -/
def readBare (tokens : List Token) : Option (Value × List Token) :=
  let (text, behind) := readBareText tokens
  let (text, behind) :=
    match behind with
    | .blank [' '] :: .word word :: rest =>
      if isDate text then
        let (time, behind) := readBareText (.word word :: rest)
        (text ++ ' ' :: time, behind)
      else (text, behind)
    | _ => (text, behind)
  (Value.ofBare? text).map fun value ↦ (value, behind)

mutual

/-- The value at the start of a row of tokens, and what follows it. `levels` is how many levels of
brackets may still be opened. -/
def readValue : Nat → Nat → List Token → Option (Value × List Token)
  | 0, _, _ => none
  | steps + 1, levels, tokens =>
    match tokens with
    | .quoted text :: rest | .block text :: rest => some (.text (String.ofList text), rest)
    | .mark '[' :: rest =>
      if levels ≤ 1 then none
      else (readItems steps (levels - 1) rest).map fun (items, behind) ↦ (.list items, behind)
    | .mark '\x7b' :: rest =>
      if levels ≤ 1 then none
      else
        match dropBlank rest with
        | .mark '\x7d' :: behind => some (.table [], behind)
        | fields => do
          let (fields, behind) ← readFields steps (levels - 1) fields
          let table ← Value.ofFields fields
          return (table, behind)
    | _ => readBare tokens

/-- The items of a list up to its bracket, and what follows the bracket. -/
def readItems : Nat → Nat → List Token → Option (List Value × List Token)
  | 0, _, _ => none
  | steps + 1, levels, tokens =>
    match dropBlankLines tokens with
    | .mark ']' :: behind => some ([], behind)
    | item => do
      let (value, behind) ← readValue steps levels item
      match dropBlankLines behind with
      | .mark ']' :: behind => return ([value], behind)
      | .mark ',' :: rest => do
        let (values, behind) ← readItems steps levels rest
        return (value :: values, behind)
      | _ => none

/-- The fields of a table up to its brace, and what follows the brace. -/
def readFields : Nat → Nat → List Token → Option (List (List String × Value) × List Token)
  | 0, _, _ => none
  | steps + 1, levels, tokens => do
    let (key, behind) ← readKey tokens
    match behind with
    | .mark '=' :: rest =>
      let (value, behind) ← readValue steps levels (dropBlank rest)
      match dropBlank behind with
      | .mark '\x7d' :: behind => return ([(key, value)], behind)
      | .mark ',' :: rest => do
        let (fields, behind) ← readFields steps levels rest
        return ((key, value) :: fields, behind)
      | _ => none
    | _ => none

end

/-- What a line says. -/
inductive Line
  /-- A table begins, or one more table of a list. -/
  | header (isList : Bool) (path : List String)
  /-- A key has a value. -/
  | entry (key : List String) (value : Value)

/-- What follows the end of a line. -/
def endLine (tokens : List Token) : Option (List Token) :=
  match dropBlank tokens with
  | [] => some []
  | .lineEnd :: rest => some rest
  | _ => none

/-- The line at the start of a row of tokens, and what follows it. -/
def readLine (tokens : List Token) : Option (Line × List Token) :=
  match tokens with
  | .mark '[' :: .mark '[' :: rest => do
    let (path, behind) ← readKey rest
    match behind with
    | .mark ']' :: .mark ']' :: behind => return (.header true path, ← endLine behind)
    | _ => none
  | .mark '[' :: rest => do
    let (path, behind) ← readKey rest
    match behind with
    | .mark ']' :: behind => return (.header false path, ← endLine behind)
    | _ => none
  | _ => do
    let (key, behind) ← readKey tokens
    match behind with
    | .mark '=' :: rest => do
      let (value, behind) ← readValue (2 * rest.length + 2) depthLimit (dropBlank rest)
      return (.entry key value, ← endLine behind)
    | _ => none

/-- The lines of a row of tokens, within a number of steps. -/
def readLines : Nat → List Token → Option (List Line)
  | 0, tokens => if tokens.isEmpty then some [] else none
  | steps + 1, tokens =>
    match dropBlankLines tokens with
    | [] => some []
    | tokens => do
      let (line, behind) ← readLine tokens
      let lines ← readLines steps behind
      return line :: lines

/-- A table that is being filled, and the path of the last header. -/
structure Filling where
  /-- The names of the last header. -/
  path : List String
  /-- The entries so far. -/
  entries : List (String × Section)

/-- The table after one more line. -/
def Filling.add (filling : Filling) : Line → Option Filling
  | .header isList path =>
    (Section.enter isList path filling.entries).map fun entries ↦ ⟨path, entries⟩
  | .entry key value =>
    (Section.defineAt filling.path key value filling.entries).map fun entries ↦
      { filling with entries := entries }

/-- The table that a text holds. -/
def Value.ofToml? (text : String) : Option Value := do
  let tokens ← tokens text.toList
  let lines ← readLines (tokens.length + 1) tokens
  let filling ← lines.foldlM Filling.add ⟨[], []⟩
  return .table (Section.entriesToValues filling.entries)

end Roster.Toml
