import LiveTables.Text.Visible

/-!
# Quoted text

Names are shown between quotes when objects are inspected. Quotes and backslashes are escaped, and so
is every character without a glyph of its own, by a letter or by its number.
-/

namespace LiveTables.Text

/-- A character as it stands between quotes. -/
def quoteChar (c : Char) : List Char :=
  match c with
  | '"' => ['\\', '"']
  | '\\' => ['\\', '\\']
  | '\x00' => ['\\', '0']
  | '\t' => ['\\', 't']
  | '\n' => ['\\', 'n']
  | '\r' => ['\\', 'r']
  | c =>
    if isVisible c then [c] else ['\\', 'u', '\x7b'] ++ Nat.toDigits 16 c.toNat ++ ['\x7d']

/-- Text between quotes. -/
def quoted (s : String) : String := String.ofList ('"' :: s.toList.flatMap quoteChar ++ ['"'])

/-- The notation for inspection: a name and fields with their texts. -/
def inspect (name : String) (fields : List (String × String)) : String :=
  name ++ " \x7b " ++ ", ".intercalate (fields.map fun (field, content) => field ++ ": " ++ content) ++
    " \x7d"

end LiveTables.Text
