import LiveTables.Proofs.Computed.Registry
import Mathlib.Logic.Relation

/-!
# What depends on touched columns

One pass over the registered columns, in order, finds all that depend on some touched columns, directly or by way of
others. It is enough to go once because a column may depend only on what is there before it. That holds of whatever
requests to register leave behind, those that fail included (`Computed.layered_registerAll`), and so the pass finds
just the columns from which a touched one is reached (`Computed.dependentsOf_registerAll`).
-/

namespace LiveTables

namespace Computed

variable {c c' : Computed} {isStored : String → Bool} {table id d : String} {col : ComputedColumn}
  {kindOf : String → Option Kind} {touched : List String} {error : TableError}

/-! ### Registering -/

/-- An identifier is that of a stored column, or of one that is registered. -/
def Knows (c : Computed) (isStored : String → Bool) (id : String) : Prop := isStored id = true ∨ id ∈ c.ids

instance : Decidable (c.Knows isStored id) := inferInstanceAs (Decidable (_ ∨ _))

theorem decide_knows : decide (c.Knows isStored id) = (isStored id || (c.column? id).isSome) := by
  rw [Bool.eq_iff_iff, decide_eq_true_iff, Knows, mem_ids_iff, Bool.or_eq_true]

theorem register_eq (c : Computed) (table : String) (isStored : String → Bool) (col : ComputedColumn) :
    c.register table isStored col =
      if c.Knows isStored col.id then (c, .error (.duplicateColumn table col.id))
      else match col.dependencies.find? (fun d => !decide (c.Knows isStored d)) with
        | some missing => (c, .error (.columnNotFound table missing))
        | none => ({ newestFirst := col :: c.newestFirst }, .ok ()) := by
  have hadd : c.register table isStored col =
      if (isStored col.id || (c.column? col.id).isSome) = true then (c, .error (.duplicateColumn table col.id))
      else match col.dependencies.find? (fun d => !(isStored d || (c.column? d).isSome)) with
        | some missing => (c, .error (.columnNotFound table missing))
        | none => ({ newestFirst := col :: c.newestFirst }, .ok ()) := rfl
  simp only [hadd, ← decide_knows, decide_eq_true_eq]

/-- A column is refused if its identifier is known, and otherwise because of its first dependency that is not. -/
theorem register_eq_error_iff : (c.register table isStored col).2 = .error error ↔
    c.Knows isStored col.id ∧ error = .duplicateColumn table col.id ∨
      ¬ c.Knows isStored col.id ∧ ∃ before missing after, col.dependencies = before ++ missing :: after ∧
        (∀ d ∈ before, c.Knows isStored d) ∧ ¬ c.Knows isStored missing ∧ error = .columnNotFound table missing := by
  have hfirst (missing : String) : col.dependencies.find? (fun d => !decide (c.Knows isStored d)) = some missing ↔
      ∃ before after, col.dependencies = before ++ missing :: after ∧ (∀ d ∈ before, c.Knows isStored d) ∧
        ¬ c.Knows isStored missing := by
    rw [List.find?_eq_some_iff_append]
    simp only [Bool.not_eq_true', decide_eq_false_iff_not, Bool.not_not, decide_eq_true_eq]
    exact ⟨fun ⟨hmissing, before, after, heq, hbefore⟩ => ⟨before, after, heq, hbefore, hmissing⟩,
      fun ⟨before, after, heq, hbefore, hmissing⟩ => ⟨hmissing, before, after, heq, hbefore⟩⟩
  rw [register_eq]
  split_ifs with hknown
  · simp [hknown, eq_comm]
  · simp only [hknown, false_and, false_or, not_false_eq_true, true_and]
    constructor
    · intro hadd
      rcases hfind : col.dependencies.find? (fun d => !decide (c.Knows isStored d)) with - | missing
      · simp [hfind] at hadd
      · obtain ⟨before, after, heq, hbefore, hmissing⟩ := (hfirst missing).1 hfind
        rw [hfind] at hadd
        exact ⟨before, missing, after, heq, hbefore, hmissing, (Except.error.inj hadd).symm⟩
    · rintro ⟨before, missing, after, heq, hbefore, hmissing, rfl⟩
      rw [(hfirst missing).2 ⟨before, after, heq, hbefore, hmissing⟩]

/-- The columns after a request, be it refused or not. -/
def after (c : Computed) (isStored : String → Bool) (request : String × ComputedColumn) : Computed :=
  (c.register request.1 isStored request.2).1

/-- The columns that requests leave behind where there were none. -/
def registerAll (isStored : String → Bool) (requests : List (String × ComputedColumn)) : Computed :=
  requests.foldl (·.after isStored ·) {}

/-- A kind for each stored column, where only this matters, that it is stored. -/
def anyKind (isStored : String → Bool) (id : String) : Option Kind := if isStored id then some .boolean else none

theorem layered_after (h : Layered (anyKind isStored) c.newestFirst) (request : String × ComputedColumn) :
    Layered (anyKind isStored) (c.after isStored request).newestFirst := by
  rw [after]
  rcases hadd : c.register request.1 isStored request.2 with ⟨c', error | ⟨⟩⟩
  · rwa [register_of_error hadd]
  · refine (h.register (fun id => ?_) hadd).2
    rw [anyKind]
    cases isStored id <;> rfl

/-- Whatever was requested, each column depends on what was there before it. -/
theorem layered_registerAll (isStored : String → Bool) (requests : List (String × ComputedColumn)) :
    Layered (anyKind isStored) (registerAll isStored requests).newestFirst := by
  rw [registerAll]
  generalize hc : ({} : Computed) = c
  have hlayered : Layered (anyKind isStored) c.newestFirst := hc ▸ .nil
  clear hc
  induction requests generalizing c with
  | nil => exact hlayered
  | cons request requests ih => exact ih _ (layered_after hlayered request)

/-! ### Reaching -/

/-- A registered column has a dependency. -/
def DependsOn (c : Computed) (id d : String) : Prop := ∃ col, c.column? id = some col ∧ d ∈ col.dependencies

/-- From a dependent a touched column is reached. -/
theorem exists_transGen (h : Layered kindOf c.newestFirst) (hid : id ∈ c.dependentsOf touched) :
    ∃ t ∈ touched, Relation.TransGen c.DependsOn id t := by
  obtain ⟨col, hcol⟩ := h.exists_column?_of_mem hid
  have hknown : c.kind? kindOf id ≠ none := by simp [kind?_of_column? hcol]
  revert hid
  refine h.induction (motive := fun id => id ∈ c.dependentsOf touched →
    ∃ t ∈ touched, Relation.TransGen c.DependsOn id t) ?_ ?_ id hknown
  · intro id hnone _ hid
    obtain ⟨col, hcol⟩ := h.exists_column?_of_mem hid
    exact absurd (hnone.symm.trans hcol) (by simp)
  · intro id col hcol ih hid
    obtain ⟨d, hd, htouched | hdependent⟩ := (h.mem_dependentsOf_iff hcol).1 hid
    · exact ⟨d, htouched, .single ⟨col, hcol, hd⟩⟩
    · obtain ⟨t, ht, hreach⟩ := ih d hd hdependent
      exact ⟨t, ht, .head ⟨col, hcol, hd⟩ hreach⟩

/-- A column from which a touched one is reached is a dependent. -/
theorem mem_dependentsOf_of_transGen {t : String} (h : Layered kindOf c.newestFirst) (ht : t ∈ touched)
    (hreach : Relation.TransGen c.DependsOn id t) : id ∈ c.dependentsOf touched := by
  induction hreach using Relation.TransGen.head_induction_on with
  | single hstep =>
    obtain ⟨_, hcol, hd⟩ := hstep
    exact (h.mem_dependentsOf_iff hcol).2 ⟨t, hd, .inl ht⟩
  | head hstep _ ih =>
    obtain ⟨_, hcol, hd⟩ := hstep
    exact (h.mem_dependentsOf_iff hcol).2 ⟨_, hd, .inr ih⟩

/-- Whatever was requested of a new registry, the dependents of some columns are the registered columns from which one
of those is reached in one step or more, each named once, in order of registration. A request is refused if the
identifier is known, or else for its first dependency that is not; it then changes nothing, neither at once nor for
what is requested later. -/
theorem dependentsOf_registerAll (isStored : String → Bool) (requests : List (String × ComputedColumn)) :
    let c := registerAll isStored requests
    (∀ touched : List String, (c.dependentsOf touched).Sublist c.ids ∧ (c.dependentsOf touched).Nodup ∧
      ∀ id, id ∈ c.dependentsOf touched ↔ id ∈ c.ids ∧ ∃ t ∈ touched, Relation.TransGen c.DependsOn id t) ∧
    ∀ table col error, ((c.register table isStored col).2 = .error error ↔
        c.Knows isStored col.id ∧ error = .duplicateColumn table col.id ∨
          ¬ c.Knows isStored col.id ∧ ∃ before missing after, col.dependencies = before ++ missing :: after ∧
            (∀ d ∈ before, c.Knows isStored d) ∧ ¬ c.Knows isStored missing ∧
            error = .columnNotFound table missing) ∧
      ((c.register table isStored col).2 = .error error → (c.register table isStored col).1 = c ∧ ∀ later,
        registerAll isStored (requests ++ (table, col) :: later) = registerAll isStored (requests ++ later)) := by
  intro c
  have h : Layered (anyKind isStored) c.newestFirst := layered_registerAll isStored requests
  refine ⟨fun touched => ⟨dependentsAmong_sublist touched c.toList, h.nodup_dependentsOf, fun id => ⟨?_, ?_⟩⟩,
    fun table col error => ⟨register_eq_error_iff, fun hadd => ?_⟩⟩
  · intro hid
    obtain ⟨col, hcol⟩ := h.exists_column?_of_mem hid
    exact ⟨mem_ids_of_column? hcol, exists_transGen h hid⟩
  · rintro ⟨-, t, ht, hreach⟩
    exact mem_dependentsOf_of_transGen h ht hreach
  · have hsame : c.after isStored (table, col) = c := register_of_error (Prod.ext rfl hadd)
    refine ⟨hsame, fun later => ?_⟩
    rw [registerAll, registerAll, List.foldl_append, List.foldl_append, List.foldl_cons]
    exact congrArg (later.foldl (·.after isStored ·)) hsame

/-- Columns that name one that is not there yet are refused, and so is one in the place of a stored column. -/
example :
    let column (id : String) (dependencies : List String) : String × ComputedColumn :=
      ("t", { id, kind := .boolean, dependencies, compute := fun _ => .boolean true })
    let c := registerAll (· = "x") [column "a" ["x"], column "b" ["c"], column "c" ["a", "b"], column "x" ["a"],
      column "c" ["a"], column "d" ["x", "c"]]
    c.ids = ["a", "c", "d"] ∧ c.dependentsOf ["a"] = ["c", "d"] := by
  decide

end Computed

end LiveTables
