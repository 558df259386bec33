import LiveTables.Change.Basic
import LiveTables.Delta.Error
import LiveTables.Event
import LiveTables.FieldMap

/-!
# Reports of a session

What a command answers and what observers note down: single facts, lists of them, and records with
named fields.
-/

namespace LiveTables

/-- A report. -/
inductive Report where
  | nothing
  /-- The command was carried out. -/
  | done
  | flag (b : Bool)
  | count (n : Nat)
  | text (s : String)
  | value (v : Value)
  | event (e : Event)
  | change (c : Change)
  | bytes (bs : List UInt8)
  | tableError (e : TableError)
  | wireError (e : Wire.WireError)
  | fieldMapError (e : FieldMapError)
  /-- A name that stands for no object of the sort asked for. -/
  | unknown (name : String)
  | list (items : List Report)
  | record (fields : List (String × Report))

namespace Report

/-- A report of a number that may be missing. -/
def count? : Option Nat → Report
  | some n => count n
  | none => nothing

/-- A report of what an operation on a table answered. -/
def ofExcept {α : Type} (report : α → Report) : Except TableError α → Report
  | .ok a => report a
  | .error e => tableError e

/-- A report of a cell. -/
def cell (r : Except TableError Value) : Report := ofExcept value r

/-- A list of numbers. -/
def counts (ns : List Nat) : Report := list (ns.map count)

/-- A list of texts. -/
def texts (ss : List String) : Report := list (ss.map text)

end Report

end LiveTables
