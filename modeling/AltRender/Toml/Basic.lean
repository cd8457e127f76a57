import AltRender.Keyed

/-!
# `Toml` — tables of settings

A settings file is a table of named items, and a table may hold tables. How a table came to be
decides who may add to it: a header makes a table once, tables above a header are implied by it and
may get a header of their own later, dotted keys make tables that only further dotted keys may add
to, and a table written inline is finished.

The operations here are what the statements of a file do to its outermost table. Each of them
refuses to define anything twice.
-/

set_option autoImplicit false

namespace AltRender.Toml

open AltRender.Keyed

/-- How a table came to be. -/
inductive Origin where
  | header
  | implied
  | dotted
  | inline
  deriving DecidableEq, Repr

/-- What a name stands for. Settings are texts and flags; of numbers and times only their kind is
kept. -/
inductive Item where
  | text (s : String)
  | flag (b : Bool)
  | number
  | moment
  | list (items : List Item)
  | table (origin : Origin) (entries : List (String × Item))
  /-- A list of tables that headers add to, the last one apart. -/
  | tables (earlier : List (List (String × Item))) (last : List (String × Item))

abbrev Entries := List (String × Item)

/-! ## Headers -/

/-- Changes the table at the path of a header. What is missing on the way is implied. -/
def descend (change : Entries → Option Entries) : List String → Entries → Option Entries
  | [], es => change es
  | name :: path, es =>
    match lookup name es with
    | none => (descend change path []).map fun sub => put name (.table .implied sub) es
    -- An inline table is complete where it is written.
    | some (.table .inline _) => none
    | some (.table origin sub) => (descend change path sub).map fun sub =>
      put name (.table origin sub) es
    | some (.tables earlier last) => (descend change path last).map fun last =>
      put name (.tables earlier last) es
    | some _ => none

/-- The header of a table: the name is new, or only implied so far. -/
def openTable (name : String) (es : Entries) : Option Entries :=
  match lookup name es with
  | none => some (put name (.table .header []) es)
  | some (.table .implied sub) => some (put name (.table .header sub) es)
  | some _ => none

/-- The header of a further table in a list of tables. -/
def openElement (name : String) (es : Entries) : Option Entries :=
  match lookup name es with
  | none => some (put name (.tables [] []) es)
  | some (.tables earlier last) => some (put name (.tables (earlier ++ [last]) []) es)
  | some _ => none

/-! ## Assignments -/

/-- A new name for an item. -/
def define (name : String) (item : Item) (es : Entries) : Option Entries :=
  match lookup name es with
  | none => some (put name item es)
  | some _ => none

/-- An item under a dotted key: `path` are the parts before the last one. The table that gets the
item has to be one that dotted keys make. -/
def assign (name : String) (item : Item) : List String → Entries → Option Entries
  | [], es => define name item es
  -- The table right around the item is looked at more strictly than those further out.
  | [part], es =>
    match lookup part es with
    | none => (define name item []).map fun sub => put part (.table .dotted sub) es
    | some (.table .dotted sub) => (define name item sub).map fun sub =>
      put part (.table .dotted sub) es
    | some _ => none
  | part :: path, es =>
    match lookup part es with
    | none => (assign name item path []).map fun sub => put part (.table .dotted sub) es
    | some (.table .dotted sub) => (assign name item path sub).map fun sub =>
      put part (.table .dotted sub) es
    | some (.table .implied sub) => (assign name item path sub).map fun sub =>
      put part (.table .implied sub) es
    | some (.tables earlier last) => (assign name item path last).map fun last =>
      put part (.tables earlier last) es
    | some _ => none

/-- An item under a key of one or more parts. -/
def assignKey (key : List String) (item : Item) (es : Entries) : Option Entries :=
  match key.getLast? with
  | none => none
  | some name => assign name item key.dropLast es

end AltRender.Toml
