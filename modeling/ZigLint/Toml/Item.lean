import ZigLint.Toml.Value

namespace ZigLint.Toml

/-!
# Building tables

While a file is read, its tables are still open, and how a table came to be
decides how it may be added to. A header `[a.b]` opens the table it names and
may do so once; a dotted key `a.b = 1` extends only tables that dotted keys
made; a header `[[a]]` adds a table to a list of tables.
-/

/-- How a table came to be. -/
inductive Origin where
  /-- Opened by its own header. -/
  | header
  /-- Named on the way to another header. -/
  | path
  /-- Named in a dotted key. -/
  | dotted
  deriving Repr, DecidableEq

/-- An entry of a table that is still open. -/
inductive Item where
  | value (value : Value)
  | table (origin : Origin) (entries : List (String × Item))
  | tables (all : List (List (String × Item)))

/-- The entries of an open table, in order of appearance. -/
abbrev Entries := List (String × Item)

namespace Entries

/-- The entry at a key. -/
def get? (entries : Entries) (key : String) : Option Item :=
  (List.find? (fun (entryKey, _) => entryKey == key) entries).map Prod.snd

/-- Set the entry at a key; a new key goes to the end. -/
def put (entries : Entries) (key : String) (item : Item) : Entries :=
  if (entries.get? key).isSome then
    List.map (fun entry => if entry.1 == key then (key, item) else entry) entries
  else
    entries ++ [(key, item)]

/-- Change the last table of a list of tables. -/
def modifyLast (change : Entries → Option Entries) (tables : List Entries) :
    Option (List Entries) := do
  let last ← tables.getLast?
  return tables.dropLast ++ [← change last]

/--
Add a value at a dotted key: `path`, then `key`.

A table on the path must not have been opened by a header, and the last one must
come from a dotted key; the key itself must be new.
-/
def insert (key : String) (value : Value) : (path : List String) → Entries → Option Entries
  | [], entries =>
      if (entries.get? key).isSome then
        none
      else
        some (entries.put key (.value value))
  | name :: rest, entries =>
      match entries.get? name with
      | none => do
          return entries.put name (.table .dotted (← insert key value rest []))
      | some (.table origin inner) =>
          if origin = .header ∨ (rest.isEmpty ∧ origin ≠ .dotted) then
            none
          else do
            return entries.put name (.table origin (← insert key value rest inner))
      | some (.tables all) =>
          if rest.isEmpty then
            none
          else do
            return entries.put name (.tables (← modifyLast (insert key value rest) all))
      | some (.value _) => none

/-- Change the table that a path of headers leads to; tables on the way are made as needed. -/
def modifyAt (change : Entries → Option Entries) : (path : List String) → Entries → Option Entries
  | [], entries => change entries
  | name :: rest, entries =>
      match entries.get? name with
      | none => do
          return entries.put name (.table .path (← modifyAt change rest []))
      | some (.table origin inner) => do
          return entries.put name (.table origin (← modifyAt change rest inner))
      | some (.tables all) => do
          return entries.put name (.tables (← modifyLast (modifyAt change rest) all))
      | some (.value _) => none

/-- The entries without the one at a key. -/
def erase (entries : Entries) (key : String) : Entries :=
  List.filter (fun (entryKey, _) => entryKey != key) entries

/-- Open the table `key` by its own header; it becomes the last entry. -/
def openTable (key : String) (entries : Entries) : Option Entries :=
  match entries.get? key with
  | none => some (entries.put key (.table .header []))
  | some (.table .path inner) => some ((entries.erase key).put key (.table .header inner))
  | some _ => none

/-- Add an empty table to the list of tables `key`. -/
def appendTable (key : String) (entries : Entries) : Option Entries :=
  match entries.get? key with
  | none => some (entries.put key (.tables [[]]))
  | some (.tables all) => some (entries.put key (.tables (all ++ [[]])))
  | some _ => none

end Entries

mutual

/-- The value of an item. -/
def Item.close : Item → Value
  | .value value => value
  | .table _ entries => .table (closeEntries entries)
  | .tables all => .array (closeTables all)

/-- The values of entries. -/
def closeEntries : List (String × Item) → List (String × Value)
  | [] => []
  | (key, item) :: rest => (key, item.close) :: closeEntries rest

/-- The values of a list of tables. -/
def closeTables : List (List (String × Item)) → List Value
  | [] => []
  | entries :: rest => .table (closeEntries entries) :: closeTables rest

end

/-- The finished table of open entries. -/
def Entries.close (entries : Entries) : Table :=
  closeEntries entries

end ZigLint.Toml
