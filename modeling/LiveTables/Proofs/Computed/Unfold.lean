import LiveTables.Proofs.Computed.Registry

/-!
# Unfolded columns

A computed column can be written out: in place of each dependency that is computed stands what that one computes, and so
on, down to columns that are not computed (`Computed.unfold`). What is left is an expression over the source columns of
the row, and to read the column is to evaluate that expression (`Computed.read_eq_eval`).

An expression is evaluated from the inside, the arguments in order. If that fails, the error is the one of the first
step that fails (`Expression.eval_eq_error_iff`).
-/

namespace LiveTables

/-- An expression over columns: the value of a column, or what a function of a kind makes of some arguments. -/
inductive Expression where
  | column (id : String)
  | apply (kind : Kind) (compute : List Value → Value) (args : List Expression)

namespace Expression

mutual

/-- The value of an expression, where columns are read by `read`. -/
def eval (read : String → Except TableError Value) : Expression → Except TableError Value
  | .column id => read id
  | .apply kind compute args => do (compute (← evalAll read args)).readAs kind

/-- The values of expressions, in order. -/
def evalAll (read : String → Except TableError Value) : List Expression → Except TableError (List Value)
  | [] => return []
  | x :: xs => return (← eval read x) :: (← evalAll read xs)

end

mutual

/-- The steps in which an expression is evaluated: the steps of each argument in order, and then the expression. -/
def steps : Expression → List Expression
  | .column id => [.column id]
  | .apply kind compute args => stepsAll args ++ [.apply kind compute args]

/-- The steps of expressions, in order. -/
def stepsAll : List Expression → List Expression
  | [] => []
  | x :: xs => steps x ++ stepsAll xs

end

mutual

/-- The columns that an expression is about. -/
def columns : Expression → List String
  | .column id => [id]
  | .apply _ _ args => columnsAll args

/-- The columns that expressions are about. -/
def columnsAll : List Expression → List String
  | [] => []
  | x :: xs => columns x ++ columnsAll xs

end

variable {read : String → Except TableError Value} {x : Expression} {xs : List Expression} {error : TableError}

/-- What holds of columns, and of what is made of arguments if it holds of these, holds of every expression. -/
@[elab_as_elim]
theorem induction {motive : Expression → Prop} (column : ∀ id, motive (.column id))
    (apply : ∀ kind compute args, (∀ x ∈ args, motive x) → motive (.apply kind compute args)) (x : Expression) :
    motive x :=
  @Expression.rec motive (fun xs => ∀ x ∈ xs, motive x) column apply
    (fun _ hx => absurd hx List.not_mem_nil) (fun _ _ hx hxs => List.forall_mem_cons.2 ⟨hx, hxs⟩) x

theorem evalAll_eq_mapM (xs : List Expression) : evalAll read xs = xs.mapM (eval read) := by
  induction xs with
  | nil => rfl
  | cons x xs ih => rw [evalAll, ih, List.mapM_cons]

theorem columnsAll_eq_flatMap (xs : List Expression) : columnsAll xs = xs.flatMap columns := by
  induction xs with
  | nil => rfl
  | cons x xs ih => rw [columnsAll, ih, List.flatMap_cons]

theorem eval_apply (kind : Kind) (compute : List Value → Value) (args : List Expression) :
    (apply kind compute args).eval read = (do (compute (← args.mapM (eval read))).readAs kind) := by
  rw [eval, evalAll_eq_mapM]

/-- One who takes the steps one after the other fails where the expression does. -/
theorem mapM_steps_eq_error_iff (x : Expression) :
    x.steps.mapM (eval read) = .error error ↔ x.eval read = .error error := by
  induction x using Expression.induction generalizing error with
  | column id => simp [steps, bind_eq_error_iff, pure, Except.pure]
  | apply kind compute args ih =>
    -- the arguments fail where their steps do
    have hargs (error : TableError) : (stepsAll args).mapM (eval read) = .error error ↔
        args.mapM (eval read) = .error error := by
      induction args generalizing error with
      | nil => rfl
      | cons y ys ihs =>
        obtain ⟨hy, hys⟩ := List.forall_mem_cons.1 ih
        rw [stepsAll, mapM_append_eq_error_iff, mapM_cons_eq_error_iff, hy, ihs hys,
          exists_ok_iff @hy]
    rw [steps, mapM_append_eq_error_iff, hargs, exists_ok_iff hargs, mapM_cons_eq_error_iff, eval_apply]
    rcases args.mapM (eval read) with e | vs
    · simp [bind, Except.bind]
    · simp [bind, Except.bind, pure, Except.pure]

/-- An expression fails with the error of the first step that does. -/
theorem eval_eq_error_iff : x.eval read = .error error ↔ ∃ before y after, x.steps = before ++ y :: after ∧
    (∀ z ∈ before, ∃ v, z.eval read = .ok v) ∧ y.eval read = .error error := by
  rw [← mapM_steps_eq_error_iff, mapM_eq_error_iff]

/-- Evaluation reads the columns of the expression and nothing else. -/
theorem eval_congr {read' : String → Except TableError Value} (h : ∀ id ∈ x.columns, read id = read' id) :
    x.eval read = x.eval read' := by
  induction x using Expression.induction with
  | column id => exact h id (List.mem_singleton_self id)
  | apply kind compute args ih =>
    have hargs : args.mapM (eval read) = args.mapM (eval read') := by
      refine mapM_congr fun x hx => ih x hx fun id hid => h id ?_
      rw [columns, columnsAll_eq_flatMap]
      exact List.mem_flatMap.2 ⟨x, hx, hid⟩
    rw [eval_apply, eval_apply, hargs]

end Expression

namespace Computed

/-- A column written out by way of computed columns, the newest first. -/
def unfoldAmong : List ComputedColumn → String → Expression
  | [], id => .column id
  | c :: older, id =>
    if c.id = id then .apply c.kind c.compute (c.dependencies.map fun d => unfoldAmong older d) else unfoldAmong older id

/-- A column written out down to columns that are not computed. -/
def unfold (c : Computed) (id : String) : Expression := unfoldAmong c.newestFirst id

variable {kindOf : String → Option Kind} {c : Computed} {col : ComputedColumn} {id d : String}
  {stored : String → Except TableError Value}

/-- To read a column is to evaluate what it is when written out. -/
theorem read_eq_eval (c : Computed) (stored : String → Except TableError Value) (id : String) :
    c.read stored id = (c.unfold id).eval stored := by
  rcases c with ⟨cs⟩
  induction cs generalizing id with
  | nil => rfl
  | cons e older ih =>
    show (if e.id = id then _ else readFrom stored older id) = Expression.eval stored (if e.id = id then _ else _)
    split_ifs
    · have hargs : (e.dependencies.map fun d => unfoldAmong older d).mapM (Expression.eval stored) =
          e.dependencies.mapM fun d => readFrom stored older d := by
        rw [List.mapM_map]
        exact congrArg (e.dependencies.mapM ·) (funext fun d => (ih d).symm)
      rw [Expression.eval_apply, hargs]
      rfl
    · exact ih id

theorem unfold_of_stored (h : c.column? id = none) : c.unfold id = .column id := by
  rcases c with ⟨cs⟩
  induction cs with
  | nil => rfl
  | cons e older ih =>
    rw [column?_cons] at h
    split_ifs at h with heq
    rw [unfold, unfoldAmong, if_neg heq]
    exact ih h

/-- How many columns are as old as the column of an identifier; none if it is not registered. -/
def rankAmong : List ComputedColumn → String → Nat
  | [], _ => 0
  | c :: older, id => if c.id = id then older.length + 1 else rankAmong older id

/-- The place of a column in the order of registration, counted from one. -/
def rank (c : Computed) (id : String) : Nat := rankAmong c.newestFirst id

theorem rank_le_size (c : Computed) (id : String) : c.rank id ≤ c.size := by
  rcases c with ⟨cs⟩
  induction cs with
  | nil => exact Nat.le_refl 0
  | cons e older ih =>
    show (if e.id = id then older.length + 1 else rankAmong older id) ≤ older.length + 1
    split_ifs
    · exact Nat.le_refl _
    · exact Nat.le_succ_of_le ih

end Computed

namespace Layered

open Computed

variable {kindOf : String → Option Kind} {c : Computed} {col : ComputedColumn} {id d : String}
  {before after : List ComputedColumn}

/-- A dependency was registered before, or is not computed. -/
theorem rank_lt (h : Layered kindOf c.newestFirst) (hcol : c.column? id = some col) (hd : d ∈ col.dependencies) :
    c.rank d < c.rank id := by
  have hskip {e : ComputedColumn} {older : List ComputedColumn} {d : String} (hd : d ≠ e.id) :
      rank ⟨e :: older⟩ d = rank ⟨older⟩ d := if_neg hd.symm
  refine h.column_induction (motive := fun c id col => ∀ d ∈ col.dependencies, c.rank d < c.rank id)
    (fun {e older} _ hdeps d hd => ?_) (fun hid hdeps ih d hd => ?_) hcol d hd
  · have hself : rank ⟨e :: older⟩ e.id = older.length + 1 := if_pos rfl
    rw [hskip (hdeps d hd), hself]
    exact Nat.lt_succ_of_le (rank_le_size ⟨older⟩ d)
  · rw [hskip (hdeps d hd), hskip hid]
    exact ih d hd

theorem of_append (h : Layered kindOf (before ++ after)) : Layered kindOf after := by
  induction before with
  | nil => exact h
  | cons e before ih =>
    cases h with
    | cons _ _ tail => exact ih tail

/-- In the order of registration, what a column depends on stands before it, or is not computed. -/
theorem earlier (h : Layered kindOf c.newestFirst) (hlist : c.toList = before ++ col :: after)
    (hd : d ∈ col.dependencies) : kindOf d ≠ none ∨ d ∈ before.map (·.id) := by
  have hnewest : c.newestFirst = after.reverse ++ col :: before.reverse := by
    have hreverse : c.toList.reverse = c.newestFirst := List.reverse_reverse _
    rw [← hreverse, hlist]
    simp
  rw [hnewest] at h
  cases h.of_append with
  | cons _ known _ =>
    have hknown := known d hd
    change Computed.kind? ⟨before.reverse⟩ kindOf d ≠ none at hknown
    rcases hcol : column? ⟨before.reverse⟩ d with - | e
    · rw [kind?_of_stored hcol] at hknown
      exact .inl hknown
    · refine .inr (List.mem_map.2 ⟨e, ?_, id_of_column? hcol⟩)
      exact List.mem_reverse.1 (List.mem_of_find?_eq_some hcol)

/-- A registered column is written out as what it computes of its dependencies, written out. -/
theorem unfold_eq (h : Layered kindOf c.newestFirst) (hcol : c.column? id = some col) :
    c.unfold id = .apply col.kind col.compute (col.dependencies.map c.unfold) := by
  have hskip {e : ComputedColumn} {older : List ComputedColumn} {d : String} (hd : d ≠ e.id) :
      unfold ⟨e :: older⟩ d = unfold ⟨older⟩ d := if_neg hd.symm
  refine h.column_induction
    (motive := fun c id col => c.unfold id = .apply col.kind col.compute (col.dependencies.map c.unfold))
    (fun _ hdeps => ?_) (fun hid hdeps ih => ?_) hcol
  · rw [List.map_congr_left fun d hd => hskip (hdeps d hd)]
    exact if_pos rfl
  · rw [hskip hid, ih, List.map_congr_left fun d hd => hskip (hdeps d hd)]

/-- What is written out is about columns that are known and not computed. -/
theorem of_mem_columns (h : Layered kindOf c.newestFirst) (hid : c.kind? kindOf id ≠ none) :
    ∀ d ∈ (c.unfold id).columns, c.column? d = none ∧ kindOf d ≠ none := by
  refine h.induction (motive := fun id => ∀ d ∈ (c.unfold id).columns, c.column? d = none ∧ kindOf d ≠ none)
    (fun id hnone hid d hd => ?_) (fun id col hcol ih d hd => ?_) id hid
  · rw [unfold_of_stored hnone] at hd
    obtain rfl := List.mem_singleton.1 hd
    exact ⟨hnone, hid⟩
  · rw [h.unfold_eq hcol, Expression.columns, Expression.columnsAll_eq_flatMap] at hd
    obtain ⟨x, hx, hd⟩ := List.mem_flatMap.1 hd
    obtain ⟨b, hb, rfl⟩ := List.mem_map.1 hx
    exact ih b hb d hd

end Layered

end LiveTables
