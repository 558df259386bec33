import Mathlib.Data.List.Nodup

/-!
# Lists of keys with their contents

What `List.lookup` finds in a list, told by membership; in a list with distinct keys, both say the same
(`lookup_eq_some_iff_mem`).
-/

namespace LiveTables

variable {κ α : Type} [DecidableEq κ] {entries : List (κ × α)} {key key' : κ} {content : α}

theorem lookup_cons (e : κ × α) (entries : List (κ × α)) (key : κ) :
    (e :: entries).lookup key = if key = e.1 then some e.2 else entries.lookup key := by
  obtain ⟨k, a⟩ := e
  rw [List.lookup_cons, beq_eq_decide]
  by_cases hkey : key = k
  · simp [hkey]
  · simp [hkey]

theorem lookup_eq_none_iff_not_mem : entries.lookup key = none ↔ key ∉ entries.map (·.1) := by
  rw [List.lookup_eq_none_iff]
  constructor
  · intro h hmem
    obtain ⟨e, he, rfl⟩ := List.mem_map.1 hmem
    simpa using h e he
  · intro h e he
    simpa using fun heq : key = e.1 => h (heq ▸ List.mem_map_of_mem he)

theorem mem_of_lookup_eq_some (h : entries.lookup key = some content) : (key, content) ∈ entries := by
  obtain ⟨before, after, rfl, -⟩ := List.lookup_eq_some_iff.1 h
  simp

/-- Where every key occurs once, a lookup finds exactly what is there. -/
theorem lookup_eq_some_iff_mem (h : (entries.map (·.1)).Nodup) :
    entries.lookup key = some content ↔ (key, content) ∈ entries := by
  refine ⟨mem_of_lookup_eq_some, fun hmem => ?_⟩
  obtain ⟨before, after, rfl⟩ := List.append_of_mem hmem
  refine List.lookup_eq_some_iff.2 ⟨before, after, rfl, fun e he => ?_⟩
  rw [List.map_append, List.map_cons, List.nodup_append'] at h
  have hne : key ≠ e.1 := fun heq => h.2.2 (List.mem_map_of_mem he) (heq ▸ List.mem_cons_self)
  simpa using hne

/-- Entries are taken out by their keys. -/
theorem lookup_filter (entries : List (κ × α)) (p : κ → Bool) (key : κ) :
    (entries.filter (p ·.1)).lookup key = if p key = true then entries.lookup key else none := by
  induction entries with
  | nil => simp
  | cons e entries ih =>
    by_cases he : p e.1 = true
    · rw [List.filter_cons_of_pos (by exact he), lookup_cons, lookup_cons, ih]
      split_ifs with h h'
      · rfl
      · exact absurd (h ▸ he) h'
      · rfl
      · rfl
    · rw [List.filter_cons_of_neg (by exact he), ih, lookup_cons]
      split_ifs with h h'
      · exact absurd (h' ▸ h) he
      · rfl
      · rfl

/-- The entries of one key are taken out. -/
theorem lookup_filter_ne (entries : List (κ × α)) (key key' : κ) :
    (entries.filter (·.1 ≠ key')).lookup key = if key = key' then none else entries.lookup key := by
  rw [lookup_filter entries (fun k => decide (k ≠ key'))]
  by_cases h : key = key' <;> simp [h]

/-- Contents are changed as their keys say. -/
theorem lookup_map (entries : List (κ × α)) (f : κ → α → α) (key : κ) :
    (entries.map fun e => (e.1, f e.1 e.2)).lookup key = (entries.lookup key).map (f key) := by
  induction entries with
  | nil => rfl
  | cons e entries ih =>
    rw [List.map_cons, lookup_cons, lookup_cons, ih]
    split_ifs with h
    · rw [h, Option.map_some]
    · rfl

end LiveTables
