/-!
# Ordered maps

A map in the order of its keys is a list of entries whose keys ascend. Looking up is `List.lookup`.
-/

namespace LiveTables.Ordered

variable {κ α : Type} [LT κ] [DecidableLT κ]

/-- Puts an entry in its place, instead of one with the same key. -/
def put (key : κ) (content : α) : List (κ × α) → List (κ × α)
  | [] => [(key, content)]
  | e :: rest =>
    if key < e.1 then (key, content) :: e :: rest
    else if e.1 < key then e :: put key content rest
    else (key, content) :: rest

end LiveTables.Ordered
