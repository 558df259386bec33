import LiveTables.Ordered
import LiveTables.Proofs.Data.Lookup
import Mathlib.Data.List.Pairwise

/-!
# Lookups in ordered maps

To put an entry changes what is found under its key and nothing else (`lookup_put`), and keeps the order
(`Ascending.put`). A new entry is one more (`put_perm`). An ordered map is known by what is found in it
(`Ascending.ext`).
-/

namespace LiveTables.Ordered

variable {κ α : Type} [LT κ] {key : κ} {content : α} {entries entries' : List (κ × α)}

/-- The keys ascend. -/
def Ascending (entries : List (κ × α)) : Prop := entries.Pairwise fun e e' => e.1 < e'.1

theorem Ascending.nodup [Std.Irrefl (α := κ) (· < ·)] (h : Ascending entries) : (entries.map (·.1)).Nodup := by
  rw [List.Nodup, List.pairwise_map]
  refine List.Pairwise.imp (fun hlt heq => ?_) h
  rw [heq] at hlt
  exact Std.Irrefl.irrefl _ hlt

/-- Two ordered maps in which the same is found are the same. -/
theorem Ascending.ext [DecidableEq κ] [Std.Irrefl (α := κ) (· < ·)] [IsTrans κ (· < ·)] (h : Ascending entries)
    (h' : Ascending entries') (hlookup : ∀ key, entries.lookup key = entries'.lookup key) : entries = entries' := by
  refine List.Perm.eq_of_pairwise (fun e e' _ _ hlt hgt => ?_) h h' ?_
  · exact absurd (IsTrans.trans _ _ _ hlt hgt) (Std.Irrefl.irrefl e.1)
  · refine (List.perm_ext_iff_of_nodup (h.nodup.of_map _) (h'.nodup.of_map _)).2 fun e => ?_
    obtain ⟨key, content⟩ := e
    rw [← lookup_eq_some_iff_mem h.nodup, ← lookup_eq_some_iff_mem h'.nodup, hlookup]

variable [DecidableLT κ]

theorem mem_of_mem_put {e : κ × α} (he : e ∈ put key content entries) : e = (key, content) ∨ e ∈ entries := by
  induction entries with
  | nil => exact .inl (List.mem_singleton.1 he)
  | cons e' rest ih =>
    rw [put] at he
    split_ifs at he
    · exact List.mem_cons.1 he
    · rcases List.mem_cons.1 he with rfl | he
      · exact .inr List.mem_cons_self
      · exact (ih he).imp_right (List.mem_cons_of_mem _)
    · exact (List.mem_cons.1 he).imp_right (List.mem_cons_of_mem _)

variable [Std.Trichotomous (α := κ) (· < ·)]

theorem lookup_put [DecidableEq κ] [Std.Irrefl (α := κ) (· < ·)] (key key' : κ) (content : α) (entries : List (κ × α)) :
    (put key content entries).lookup key' = if key' = key then some content else entries.lookup key' := by
  induction entries with
  | nil => simp [put, lookup_cons]
  | cons e rest ih =>
    by_cases hlt : key < e.1
    · rw [put, if_pos hlt, lookup_cons]
    rw [put, if_neg hlt]
    by_cases hgt : e.1 < key
    · rw [if_pos hgt, lookup_cons, lookup_cons, ih]
      have hne : e.1 ≠ key := fun heq => Std.Irrefl.irrefl key (heq ▸ hgt)
      split_ifs with hfirst hkey
      · exact absurd (hfirst.symm.trans hkey) hne
      · rfl
      · rfl
      · rfl
    · -- the entry that is replaced is the one of the key
      have heq : key = e.1 := Std.Trichotomous.trichotomous _ _ hlt hgt
      rw [if_neg hgt, lookup_cons, lookup_cons, ← heq]
      split_ifs
      · rfl
      · rfl

theorem Ascending.put [IsTrans κ (· < ·)] (h : Ascending entries) : Ascending (put key content entries) := by
  induction entries with
  | nil => exact List.pairwise_singleton _ _
  | cons e rest ih =>
    obtain ⟨hfirst, hrest⟩ := List.pairwise_cons.1 h
    rw [Ordered.put]
    split_ifs with hlt hgt
    · refine List.pairwise_cons.2 ⟨fun e' he' => ?_, h⟩
      rcases List.mem_cons.1 he' with rfl | he'
      · exact hlt
      · exact IsTrans.trans _ _ _ hlt (hfirst e' he')
    · refine List.pairwise_cons.2 ⟨fun e' he' => ?_, ih hrest⟩
      rcases mem_of_mem_put he' with rfl | he'
      · exact hgt
      · exact hfirst e' he'
    · have heq : key = e.1 := Std.Trichotomous.trichotomous _ _ hlt hgt
      exact List.pairwise_cons.2 ⟨fun e' he' => heq ▸ hfirst e' he', hrest⟩

/-- An entry with a new key is one more. -/
theorem put_perm (h : key ∉ entries.map (·.1)) : (put key content entries).Perm ((key, content) :: entries) := by
  induction entries with
  | nil => exact .refl _
  | cons e rest ih =>
    rw [List.map_cons, List.mem_cons, not_or] at h
    rw [put]
    split_ifs with hlt hgt
    · exact .refl _
    · exact ((ih h.2).cons e).trans (.swap _ _ _)
    · exact absurd (Std.Trichotomous.trichotomous _ _ hlt hgt) h.1

end LiveTables.Ordered
