import Switchboard.Toml.Value

/-!
# Documents of TOML

A document is a sequence of lines: entries, which go into the table of the last header, and
headers. A header may open a table that was only named so far, never one that exists already.
-/

namespace Switchboard.Toml

/-- What a document has come to: its entries, and the path of the last header. -/
structure Document where
  entries : List (String × Value)
  path : List String

namespace Document

/-- Changes the table at the end of a path of headers. -/
def changeAt (d : Document) (path : List String)
    (change : Origin → List (String × Value) → Option (Origin × List (String × Value))) :
    Option Document := do
  let (_, entries) ← descend false change path .header d.entries
  return { d with entries }

/-- Adds an entry to the table of the last header. -/
def add (d : Document) (path : List String) (key : String) (value : Value) : Option Document :=
  d.changeAt d.path (addEntry path key value)

/-- Opens a table. -/
def openTable (d : Document) (path : List String) (key : String) : Option Document := do
  let d ← d.changeAt path fun o es =>
    match find? key es with
    | none => some (o, es ++ [(key, .table .header [])])
    | some (.table .parent inner) => some (o, put key (.table .header inner) es)
    | some _ => none
  return { d with path := path ++ [key] }

/-- Opens one more table under a repeated header. -/
def openRepeated (d : Document) (path : List String) (key : String) : Option Document := do
  let d ← d.changeAt path fun o es =>
    match find? key es with
    | none => some (o, es ++ [(key, .tables [.table .header []])])
    | some (.tables items) => some (o, put key (.tables (items ++ [.table .header []])) es)
    | some _ => none
  return { d with path := path ++ [key] }

/-- A header, and the end of its line. -/
def header (d : Document) : Rest → Option (Document × Rest)
  | '[' :: '[' :: cs => do
    let (path, key, cs) ← takeKey cs
    match cs with
    | ']' :: ']' :: cs =>
      let cs ← endLine? cs
      return (← d.openRepeated path key, cs)
    | _ => none
  | '[' :: cs => do
    let (path, key, cs) ← takeKey cs
    match cs with
    | ']' :: cs =>
      let cs ← endLine? cs
      return (← d.openTable path key, cs)
    | _ => none
  | _ => none

/-- An entry, and the end of its line. -/
def entry (d : Document) (cs : Rest) : Option (Document × Rest) := do
  let ((path, key, value), cs) ← takeEntry (takeValue (depthLimit - 1)) cs
  let cs ← endLine? cs
  return (← d.add path key value, cs)

/-- The lines of a document. -/
def lines : (fuel : Nat) → Document → Rest → Option Document
  | 0, _, _ => none
  | fuel + 1, d, cs =>
    match skipBlanks cs with
    | [] => some d
    | '#' :: cs =>
      match endLine? ('#' :: cs) with
      | some cs => lines fuel d cs
      | none => none
    | '[' :: cs =>
      match d.header ('[' :: cs) with
      | some (d, cs) => lines fuel d cs
      | none => none
    | c :: cs =>
      match newline? (c :: cs) with
      | some cs => lines fuel d cs
      | none =>
        match d.entry (c :: cs) with
        | some (d, cs) => lines fuel d cs
        | none => none

end Document

/-- The entries of a document, if it is one. A byte order mark in front does not count. -/
def parse (text : String) : Option (List (String × Value)) :=
  let cs :=
    match text.toList with
    | '\uFEFF' :: cs => cs
    | cs => cs
  (Document.lines (cs.length + 1) ⟨[], []⟩ cs).map (·.entries)

end Switchboard.Toml
