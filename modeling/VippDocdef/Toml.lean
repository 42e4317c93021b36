/-! TOML documents as values. Every table remembers how it came to be, since that decides what may
still be added to it. -/

set_option autoImplicit false

namespace VippDocdef.Toml

inductive Origin where
  | header
  /-- A table that only stands on the way of a header. -/
  | implied
  | dotted
  | inline
  deriving DecidableEq, Repr

inductive Value where
  | string (s : String)
  | integer (n : Int)
  | float (x : Float)
  | boolean (b : Bool)
  | moment
  | array (elements : List Value)
  | table (origin : Origin) (entries : List (String × Value))
  /-- An array of tables, the last one first. -/
  | tables (elements : List (List (String × Value)))

abbrev Entries := List (String × Value)

namespace Entries

def get? (key : String) : Entries → Option Value
  | [] => none
  | (k, v) :: rest => if k = key then some v else get? key rest

def replace (key : String) (value : Value) : Entries → Entries
  | [] => []
  | (k, v) :: rest => if k = key then (k, value) :: rest else (k, v) :: replace key value rest

/-- Changes the table at the end of a path, and makes the tables on the way that are missing. A
dotted key does not go through a table that has a header. -/
def descend (byDots : Bool) (change : Origin → Entries → Option Entries) :
    List String → Origin → Entries → Option Entries
  | [], origin, entries => change origin entries
  | key :: path, _, entries =>
    match entries.get? key with
    | none =>
      let origin := if byDots then .dotted else .implied
      (descend byDots change path origin []).map fun new => entries ++ [(key, .table origin new)]
    | some (.table origin inner) =>
      if origin = .inline || (byDots && origin = .header) then none
      else
        (descend byDots change path origin inner).map fun new =>
          entries.replace key (.table origin new)
    | some (.tables (last :: before)) =>
      (descend byDots change path .header last).map fun new =>
        entries.replace key (.tables (new :: before))
    | some _ => none

/-- Adds an entry under a dotted key; a table is filled either by dots or without them. -/
def addDotted (path : List String) (key : String) (value : Value) :
    Origin → Entries → Option Entries :=
  descend true (fun origin entries =>
    if (origin = .dotted) = path.isEmpty then none
    else if (entries.get? key).isSome then none
    else some (entries ++ [(key, value)])) path

def openTable (key : String) (entries : Entries) : Option Entries :=
  match entries.get? key with
  | none => some (entries ++ [(key, .table .header [])])
  | some (.table .implied inner) => some (entries.replace key (.table .header inner))
  | some _ => none

def openElement (key : String) (entries : Entries) : Option Entries :=
  match entries.get? key with
  | none => some (entries ++ [(key, .tables [[]])])
  | some (.tables elements) => some (entries.replace key (.tables ([] :: elements)))
  | some _ => none

end Entries

def Value.elements? : Value → Option (List Value)
  | .array elements => some elements
  | .tables elements => some (elements.reverse.map (.table .header))
  | _ => none

end VippDocdef.Toml
