import Emend.Toml.Value

/-!
# TOML documents

A document is a sequence of lines: pairs of a key and a value, and headers that
open a table or one more table under a shared name. The pairs after a header
belong to the table that it opens. `parse?` gives the members of the outermost
table, or nothing if the text is no document or defines something twice.
-/

set_option autoImplicit false

namespace Emend.Toml

/-- A document that is read up to some line. -/
structure Draft where
  outer : Members
  /-- The header of the open table; none for the outermost one. -/
  header : List String
  /-- Whether the open table is one of several under its name. -/
  isElement : Bool
  members : Members

namespace Draft

def start : Draft := ⟨[], [], false, []⟩

/-- Put the open table into the outermost one. -/
def close (draft : Draft) : Option Members :=
  let last := draft.header.getLastD ""
  let add (_ : TableForm) (outer : Members) : Option (Members × Unit) :=
    match get? outer last, draft.isElement with
    | none, false => some (put last (.table .header draft.members) outer, ())
    | none, true => some (put last (.tables [draft.members]) outer, ())
    | some (.tables elements), true =>
      some (put last (.tables (elements ++ [draft.members])) outer, ())
    | some _, _ => none
  if draft.header.isEmpty then some draft.members
  else (updateAt false add draft.header.dropLast .header draft.outer).map Prod.fst

/-- Take a table that is only implied so far out of the table that holds it. -/
def takeImplied (name : String) (_ : TableForm) (members : Members) :
    Option (Members × Members) :=
  match get? members name with
  | none => some (members, [])
  | some (.table .implied inner) => some (members.filter fun (key, _) => key != name, inner)
  | some _ => none

/-- Open the table of a header. A table may have been implied before, but has
only one header. -/
def openTable (draft : Draft) (header : List String) : Option Draft := do
  let outer ← draft.close
  let (outer, members) ← updateAt false (takeImplied (header.getLastD "")) header.dropLast .header
    outer
  return ⟨outer, header, false, members⟩

/-- Open one more table under the name of a header. -/
def openElement (draft : Draft) (header : List String) : Option Draft := do
  return ⟨← draft.close, header, true, []⟩

def addPair (draft : Draft) (key : List String) (value : Toml) : Option Draft := do
  return { draft with members := ← addKey draft.members key value }

end Draft

/-- The rest after what may end a line: blanks, a comment, and the end of the line
or of the text. -/
def endLine? (cs : List Char) : Option (List Char) :=
  match skipComment (skip cs) with
  | [] => some []
  | rest => newline? rest

def line? (draft : Draft) (cs : List Char) : Option (Draft × List Char) :=
  match cs with
  | '[' :: '[' :: rest => do
    let (header, rest) ← key? rest
    let rest ← char? ']' (← char? ']' rest)
    return (← draft.openElement header, ← endLine? rest)
  | '[' :: rest => do
    let (header, rest) ← key? rest
    let rest ← char? ']' rest
    return (← draft.openTable header, ← endLine? rest)
  | _ => do
    let (key, rest) ← key? cs
    let rest ← char? '=' rest
    let (value, rest) ← value? (rest.length + 1) (depthLimit - 1) (skip rest)
    return (← draft.addPair key value, ← endLine? rest)

/-- Read lines up to the end of the text. The first argument bounds their
number. -/
def linesFrom? : Nat → Draft → List Char → Option Draft
  | 0, _, _ => none
  | fuel + 1, draft, cs =>
    match skip cs with
    | [] => some draft
    | '#' :: rest => (endLine? ('#' :: rest)).bind (linesFrom? fuel draft)
    | rest =>
      match newline? rest with
      | some rest => linesFrom? fuel draft rest
      | none => (line? draft rest).bind fun (draft, rest) => linesFrom? fuel draft rest

/-- The members of the outermost table of a document. A byte order mark may stand
at its beginning. -/
def parse? (source : String) : Option Members := do
  let cs := match source.toList with
    | '\ufeff' :: rest => rest
    | cs => cs
  let draft ← linesFrom? (cs.length + 1) Draft.start cs
  draft.close

end Emend.Toml
