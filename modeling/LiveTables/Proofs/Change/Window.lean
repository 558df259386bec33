import LiveTables.Proofs.Change.Collapse
import Mathlib.Data.List.Induction

/-!
# What waits in a queue

Of a column of which only the last value matters, updates of a cell are taken together: a window of a cell is what is
pushed from one addition or deletion of its row to the next. Of the updates of a window the earliest waits, with the
value of the last one, and the others are left out (`Change.collapse`). All other changes wait as they were pushed.

A queue holds, at every point, what was pushed since it was last drained, collapsed in this way
(`ChangeQueue.changes_eq_collapse`). The induction is on what was pushed, from its end, with what is still to be pushed
kept beside it: an update that is pushed last changes the value of the one that opened its window, and nothing else.
The queue finds that one by its index, which therefore has to say of every cell whether its window is open
(`ChangeQueue.Holds`).
-/

namespace LiveTables

/-! ## Windows -/

namespace Change

/-- Whether a change adds or deletes a row. -/
def ends (row : Nat) : Change → Bool
  | .update .. => false
  | .add r | .delete r => r = row

/-- The value that a change writes into a cell. -/
def valueOf? (row : Nat) (column : String) : Change → Option Value
  | .update r c value => if r = row ∧ c = column then some value else none
  | .add _ | .delete _ => none

/-- The changes in front of the first that adds or deletes a row. -/
def window (row : Nat) (changes : List Change) : List Change := changes.takeWhile fun c => !c.ends row

/-- Whether a cell was updated since its row was last added or deleted. -/
def isOpen (row : Nat) (column : String) (earlier : List Change) : Bool :=
  (window row earlier.reverse).any fun c => (c.valueOf? row column).isSome

/-- The last value that is written into a cell before its row is added or deleted. -/
def lastValue? (row : Nat) (column : String) (later : List Change) : Option Value :=
  ((window row later).filterMap (valueOf? row column)).getLast?

/-- What waits of a change, among those pushed earlier and later. -/
def collapsed? (lastValue : List String) (earlier : List Change) (c : Change) (later : List Change) : Option Change :=
  match c with
  | .update row column value =>
    if column ∈ lastValue then
      if isOpen row column earlier then none
      else some (.update row column ((lastValue? row column later).getD value))
    else some c
  | .add _ | .delete _ => some c

/-- What waits of some changes, among those pushed earlier and later. -/
def collapseAmong (lastValue : List String) : (earlier changes later : List Change) → List Change
  | _, [], _ => []
  | earlier, c :: rest, later =>
    (collapsed? lastValue earlier c (rest ++ later)).toList ++ collapseAmong lastValue (earlier ++ [c]) rest later

/-- What waits of the changes that were pushed: of the updates of a cell in one window the earliest, with the value of
the last, if only the last value of the column matters; and every other change. -/
def collapse (lastValue : List String) (changes : List Change) : List Change := collapseAmong lastValue [] changes []

variable {lastValue : List String} {row : Nat} {column : String} {value : Value} {c d : Change}
  {earlier changes later : List Change}

theorem window_cons : window row (c :: later) = if c.ends row then [] else c :: window row later := by
  rw [window, List.takeWhile_cons, window]
  cases c.ends row <;> rfl

/-- What is pushed after the end of a window does not belong to it. -/
theorem window_append_of_ends (h : ∃ d ∈ later, d.ends row) (rest : List Change) :
    window row (later ++ rest) = window row later := by
  induction later with
  | nil => simp at h
  | cons d later ih =>
    rw [List.cons_append, window_cons, window_cons]
    split_ifs with hends
    · rfl
    · have hlater : ∃ d ∈ later, d.ends row := by simpa [hends] using h
      rw [ih hlater]

/-- A window that was not ended goes on. -/
theorem window_append_of_not_ends (h : ¬ ∃ d ∈ later, d.ends row) (rest : List Change) :
    window row (later ++ rest) = later ++ window row rest :=
  List.takeWhile_append_of_pos (by simpa using h)

theorem isOpen_concat : isOpen row column (earlier ++ [c]) =
    (!c.ends row && ((c.valueOf? row column).isSome || isOpen row column earlier)) := by
  rw [isOpen, List.reverse_append, List.reverse_singleton, List.singleton_append, window_cons, isOpen]
  cases c.ends row <;> rfl

theorem lastValue?_append_of_ends (h : ∃ d ∈ later, d.ends row) (rest : List Change) :
    lastValue? row column (later ++ rest) = lastValue? row column later := by
  rw [lastValue?, window_append_of_ends h, lastValue?]

/-- The last update of a window that was not ended counts. -/
theorem lastValue?_concat_update (h : ¬ ∃ d ∈ later, d.ends row) :
    lastValue? row column (later ++ [.update row column value]) = some value := by
  have hlast : window row [.update row column value] = [.update row column value] := rfl
  rw [lastValue?, window_append_of_not_ends h, hlast, List.filterMap_append]
  simp [valueOf?]

/-- What does not write into a cell leaves its last value. -/
theorem lastValue?_concat_of_none (h : c.valueOf? row column = none) :
    lastValue? row column (later ++ [c]) = lastValue? row column later := by
  by_cases hends : ∃ d ∈ later, d.ends row
  · exact lastValue?_append_of_ends hends [c]
  · have hself : window row later = later := by
      simpa [window] using window_append_of_not_ends hends []
    have hnone : (window row [c]).filterMap (valueOf? row column) = [] := by
      rw [window_cons]
      split_ifs
      · rfl
      · exact List.filterMap_cons_none h
    rw [lastValue?, window_append_of_not_ends hends, List.filterMap_append, hnone, List.append_nil, lastValue?, hself]

theorem collapseAmong_concat : collapseAmong lastValue earlier (changes ++ [c]) later =
    collapseAmong lastValue earlier changes (c :: later) ++
      (collapsed? lastValue (earlier ++ changes) c later).toList := by
  induction changes generalizing earlier with
  | nil => simp [collapseAmong]
  | cons d changes ih => simp [collapseAmong, ih]

/-- A change that is pushed later leaves what waits, if no update that waits is of a cell that it writes, in a window
that was not ended. -/
theorem collapseAmong_concat_later (h : ∀ row column, column ∈ lastValue → c.valueOf? row column ≠ none →
      isOpen row column changes = false ∨ ∃ d ∈ later, d.ends row) :
    collapseAmong lastValue [] changes (later ++ [c]) = collapseAmong lastValue [] changes later := by
  induction changes using List.reverseRecOn generalizing later with
  | nil => rfl
  | append_singleton changes d ih =>
    have hbefore : collapseAmong lastValue [] changes (d :: later ++ [c]) =
        collapseAmong lastValue [] changes (d :: later) := by
      refine ih fun row column hcolumn hvalue => ?_
      rcases h row column hcolumn hvalue with hclosed | ⟨x, hx, hends⟩
      · rw [isOpen_concat] at hclosed
        rcases hends : d.ends row with - | -
        · exact .inl (by simp_all)
        · exact .inr ⟨d, List.mem_cons_self, hends⟩
      · exact .inr ⟨x, List.mem_cons_of_mem _ hx, hends⟩
    have hself : collapsed? lastValue changes d (later ++ [c]) = collapsed? lastValue changes d later := by
      cases d with
      | add r | delete r => rfl
      | update row column value =>
        by_cases hvalue : c.valueOf? row column = none
        · simp only [collapsed?, lastValue?_concat_of_none hvalue]
        by_cases hcolumn : column ∈ lastValue
        · -- the update opened the window, so the window was ended
          have hopen : isOpen row column (changes ++ [.update row column value]) = true := by
            simp [isOpen_concat, ends, valueOf?]
          have hends := (h row column hcolumn hvalue).resolve_left (by simp [hopen])
          simp only [collapsed?, lastValue?_append_of_ends hends]
        · simp only [collapsed?, if_neg hcolumn]
    rw [collapseAmong_concat, collapseAmong_concat, ← List.cons_append, hbefore, List.nil_append, hself]

/-- An update of a cell of which no update waits leaves what waits. -/
theorem collapseAmong_concat_update (lastValue : List String) (value : Value) (later : List Change)
    (h : isOpen row column changes = false) :
    collapseAmong lastValue [] changes (later ++ [.update row column value]) =
      collapseAmong lastValue [] changes later :=
  collapseAmong_concat_later fun r column' _ hwrites => by
    obtain ⟨rfl, rfl⟩ : row = r ∧ column = column' := by simpa [valueOf?] using hwrites
    exact .inl h

theorem eq_update_of_valueOf? (h : c.valueOf? row column = some value) : c = .update row column value := by
  cases c with
  | update r column' value' =>
    obtain ⟨⟨rfl, rfl⟩, rfl⟩ : (r = row ∧ column' = column) ∧ value' = value := by simpa [valueOf?] using h
    rfl
  | add r | delete r => cases h

/-- A change that writes into no cell of which only the last value matters waits as it is. -/
theorem collapse_concat_of_kept (h : ∀ row column, column ∈ lastValue → c.valueOf? row column = none) :
    collapse lastValue (changes ++ [c]) = collapse lastValue changes ++ [c] := by
  have hself : collapsed? lastValue changes c [] = some c := by
    cases c with
    | add r | delete r => rfl
    | update row column value =>
      have hother : column ∉ lastValue := fun hcolumn => by simpa [valueOf?] using h row column hcolumn
      rw [collapsed?, if_neg hother]
  have hbefore : collapseAmong lastValue [] changes ([] ++ [c]) = collapseAmong lastValue [] changes [] :=
    collapseAmong_concat_later fun row column hcolumn hwrites => absurd (h row column hcolumn) hwrites
  rw [List.nil_append] at hbefore
  rw [collapse, collapseAmong_concat, hbefore, List.nil_append, hself, collapse, Option.toList_some]

/-- A change ends the window of a cell, or it is an update of the cell, or it is clear of it. -/
theorem of_cell (c : Change) (row : Nat) (column : String) : c.ends row ∨ (∃ value, c = .update row column value) ∨
    c.Clear row column ∧ c.ends row = false ∧ c.valueOf? row column = none := by
  cases c with
  | update r column' value =>
    by_cases hcell : r = row ∧ column' = column
    · exact .inr (.inl ⟨value, by rw [hcell.1, hcell.2]⟩)
    · exact .inr (.inr ⟨not_and_or.1 hcell, rfl, if_neg hcell⟩)
  | add r | delete r =>
    by_cases hrow : r = row
    · exact .inl (decide_eq_true hrow)
    · exact .inr (.inr ⟨hrow, decide_eq_false hrow, rfl⟩)

/-- An update of another cell leaves what waits of a change. -/
theorem collapsed?_concat_of_clear (h : c.Clear row column) :
    collapsed? lastValue earlier c (later ++ [.update row column value]) = collapsed? lastValue earlier c later := by
  cases c with
  | update r column' old =>
    have hother : (Change.update row column value).valueOf? r column' = none :=
      if_neg fun heq => h.elim (· heq.1.symm) (· heq.2.symm)
    simp only [collapsed?, lastValue?_concat_of_none hother]
  | add r | delete r => rfl

/-- What waits of a change is clear of the cells of which it is. -/
theorem Clear.of_mem_collapsed? (h : c.Clear row column) (hd : collapsed? lastValue earlier c later = some d) :
    d.Clear row column := by
  cases c with
  | update r column' old =>
    simp only [collapsed?] at hd
    split_ifs at hd
    · obtain rfl := Option.some.inj hd
      exact h
    · obtain rfl := Option.some.inj hd
      exact h
  | add r | delete r =>
    obtain rfl := Option.some.inj hd
    exact h

end Change

namespace ChangeQueue

open Change

variable {lastValue : List String} {row : Nat} {column : String} {value : Value} {c : Change}
  {changes later : List Change}

/-- While the window of a cell is open, the update that opened it waits. An update that is pushed now gives it another
value, and changes nothing else. -/
theorem exists_waits_collapseAmong (hcolumn : column ∈ lastValue) (h : ¬ ∃ d ∈ later, d.ends row)
    (hopen : isOpen row column changes = true) (value : Value) : ∃ before old after,
      Waits row column (collapseAmong lastValue [] changes later) before old after ∧
      collapseAmong lastValue [] changes (later ++ [.update row column value]) =
        before ++ .update row column value :: after := by
  induction changes using List.reverseRecOn generalizing later with
  | nil => cases hopen
  | append_singleton changes d ih =>
    rw [isOpen_concat, Bool.and_eq_true, Bool.not_eq_true'] at hopen
    have hlater : ¬ ∃ x ∈ d :: later, x.ends row := by simpa [hopen.1] using h
    rw [collapseAmong_concat, collapseAmong_concat, List.nil_append, ← List.cons_append]
    rcases d.of_cell row column with hends | ⟨old, rfl⟩ | ⟨hclear, -, hvalue⟩
    · simp [hends] at hopen
    · rcases hearlier : isOpen row column changes with - | -
      · -- the update opened the window: it waits, and takes the value
        rw [collapseAmong_concat_update lastValue value _ hearlier]
        simp only [collapsed?, if_pos hcolumn, hearlier, Bool.false_eq_true, if_false, lastValue?_concat_update h]
        exact ⟨_, _, [], waits_concat_self _ row column _, rfl⟩
      · -- the window was open before
        simpa [collapsed?, hcolumn, hearlier] using ih hlater hearlier
    · have hearlier : isOpen row column changes = true := by simpa [hvalue] using hopen.2
      obtain ⟨before, old, after, hwaits, hupdated⟩ := ih hlater hearlier
      rw [hupdated, collapsed?_concat_of_clear hclear]
      rcases hself : collapsed? lastValue changes d later with - | x
      · exact ⟨before, old, after, by simpa using hwaits, by simp⟩
      · exact ⟨before, old, after ++ [x], hwaits.concat (hclear.of_mem_collapsed? hself), by simp⟩

/-! ## Positions and windows -/

/-- What a queue holds of the changes that were pushed: what their collapse leaves waits, every position that is
remembered is that of an update, and a position is remembered for a cell just while its window is open. -/
structure Holds (q : ChangeQueue) (changes : List Change) : Prop where
  waiting : q.changes = collapse q.lastValue changes
  indexed : q.Indexed
  remembers : ∀ row, ∀ column ∈ q.lastValue, (q.position? row column).isSome = isOpen row column changes

theorem holds_nil {q : ChangeQueue} (hchanges : q.changes = []) (hpositions : q.positions = []) : q.Holds [] := by
  have hnone (row : Nat) (column : String) : q.position? row column = none := by rw [position?, hpositions]; rfl
  refine ⟨hchanges, fun row column position hposition => ?_, fun row column _ => ?_⟩
  · rw [hnone] at hposition
    cases hposition
  · rw [hnone]
    rfl

@[simp] theorem lastValue_push (q : ChangeQueue) (c : Change) : (q.push c).lastValue = q.lastValue := by
  cases c with
  | add r | delete r => rfl
  | update row column value =>
    rw [push]
    split_ifs
    · rcases hover : (q.position? row column).bind (q.overwrite? · value) with - | q'
      · rfl
      · obtain ⟨position, -, hover⟩ := Option.bind_eq_some_iff.1 hover
        rw [overwrite?] at hover
        split at hover
        · obtain rfl := Option.some.inj hover
          rfl
        · cases hover
    · rfl

namespace Holds

variable {q : ChangeQueue} (h : q.Holds changes)

include h

/-- A push adds one change to those of which the collapse waits. -/
theorem changes_push (c : Change) : (q.push c).changes = collapse q.lastValue (changes ++ [c]) := by
  by_cases hkept : ∀ row column, column ∈ q.lastValue → c.valueOf? row column = none
  · have happended : (q.push c).changes = q.changes ++ [c] := by
      cases c with
      | add r | delete r => rfl
      | update row column value =>
        rw [push_of_not_lastValue fun hcolumn => by simpa [valueOf?] using hkept row column hcolumn]
        rfl
    rw [happended, h.waiting, collapse_concat_of_kept hkept]
  · obtain ⟨row, column, value, hcolumn, rfl⟩ : ∃ row column value, column ∈ q.lastValue ∧
        c = .update row column value := by
      simp only [not_forall] at hkept
      obtain ⟨row, column, hcolumn, hwrites⟩ := hkept
      obtain ⟨value, hvalue⟩ := Option.ne_none_iff_exists'.1 hwrites
      exact ⟨row, column, value, hcolumn, eq_update_of_valueOf? hvalue⟩
    have hremembers := h.remembers row column hcolumn
    rw [collapse, collapseAmong_concat, List.nil_append]
    rcases hposition : q.position? row column with - | position
    · -- the window of the cell is not open, and so the update waits at the end
      rw [hposition, Option.isSome_none, eq_comm] at hremembers
      have hbefore := collapseAmong_concat_update q.lastValue value [] hremembers
      rw [List.nil_append] at hbefore
      have hself : collapsed? q.lastValue changes (.update row column value) [] =
          some (.update row column value) := by simp [collapsed?, hcolumn, hremembers, lastValue?, window]
      rw [push_of_no_position hcolumn hposition, hbefore, hself, Option.toList_some, ← collapse, ← h.waiting]
      rfl
    · -- the position is that of the update that opened the window, which takes the value
      rw [hposition, Option.isSome_some, eq_comm] at hremembers
      obtain ⟨before, old, after, hwaits, hpush⟩ := h.indexed.push_of_position hposition value
      have hlast : ¬ ∃ d ∈ ([] : List Change), d.ends row := by simp
      obtain ⟨before', old', after', hwaits', hupdated⟩ := exists_waits_collapseAmong hcolumn hlast hremembers value
      rw [← collapse, ← h.waiting] at hwaits'
      obtain ⟨rfl, -, rfl⟩ := hwaits.unique hwaits'
      have hself : collapsed? q.lastValue changes (.update row column value) [] = none := by
        simp [collapsed?, hcolumn, hremembers]
      rw [hpush, ← List.nil_append [Change.update row column value], hupdated, hself]
      simp

/-- A push opens the window of a cell, or ends it, in the index as in what was pushed. -/
theorem isSome_position?_push (c : Change) (row : Nat) {column : String} (hcolumn : column ∈ q.lastValue) :
    ((q.push c).position? row column).isSome = isOpen row column (changes ++ [c]) := by
  have hremembers := h.remembers row column hcolumn
  rw [isOpen_concat]
  cases c with
  | add r | delete r =>
    show ((q.forget r).position? row column).isSome = _
    rw [position?_forget]
    by_cases hrow : row = r
    · simp [hrow, ends]
    · simp [hrow, ends, valueOf?, hremembers, Ne.symm hrow]
  | update r column' value =>
    by_cases hother : column' ∈ q.lastValue
    · rcases hposition : q.position? r column' with - | position
      · rw [push_of_no_position hother hposition]
        show ((q.remember r column' q.changes.length).position? row column).isSome = _
        rw [position?_remember]
        by_cases hcell : row = r ∧ column = column'
        · simp [hcell, ends, valueOf?]
        · have hcell' : ¬ (r = row ∧ column' = column) := fun heq => hcell ⟨heq.1.symm, heq.2.symm⟩
          simp [hcell, hcell', ends, valueOf?, hremembers]
      · obtain ⟨before, old, after, -, hpush⟩ := h.indexed.push_of_position hposition value
        rw [hpush]
        show (q.position? row column).isSome = _
        by_cases hcell : r = row ∧ column' = column
        · obtain ⟨rfl, rfl⟩ := hcell
          simp [hposition, ends, valueOf?]
        · simp [hcell, ends, valueOf?, hremembers]
    · rw [push_of_not_lastValue hother]
      have hne : ¬ (r = row ∧ column' = column) := fun heq => hother (heq.2 ▸ hcolumn)
      show (q.position? row column).isSome = _
      simp [hne, ends, valueOf?, hremembers]

theorem push (c : Change) : (q.push c).Holds (changes ++ [c]) where
  waiting := by rw [h.changes_push, lastValue_push]
  indexed := h.indexed.push c
  remembers row column hcolumn := h.isSome_position?_push c row (by rwa [lastValue_push] at hcolumn)

end Holds

/-! ## Runs -/

@[simp] theorem lastValue_perform (x : ChangeQueue × List (List Change)) (call : Call) :
    (perform x call).1.lastValue = x.1.lastValue := by
  cases call with
  | push c => exact lastValue_push x.1 c
  | drain => rfl

/-- The changes that calls push after the last drain among them. -/
def sinceDrain (calls : List Call) : List Change :=
  calls.foldl (fun changes call => match call with | .push c => changes ++ [c] | .drain => []) []

/-- A queue keeps its columns, and it holds what was pushed since the last drain. -/
theorem holds_run (lastValue : List String) (calls : List Call) :
    (calls.foldl perform ({ lastValue }, [])).1.lastValue = lastValue ∧
      (calls.foldl perform ({ lastValue }, [])).1.Holds (sinceDrain calls) := by
  induction calls using List.reverseRecOn with
  | nil => exact ⟨rfl, holds_nil rfl rfl⟩
  | append_singleton calls call ih =>
    obtain ⟨hcolumns, hholds⟩ := ih
    have hsince (call : Call) : sinceDrain (calls ++ [call]) =
        match call with | .push c => sinceDrain calls ++ [c] | .drain => [] := List.foldl_append
    rw [List.foldl_append, List.foldl_cons, List.foldl_nil, lastValue_perform, hsince]
    refine ⟨hcolumns, ?_⟩
    cases call with
    | push c => exact hholds.push c
    | drain => exact holds_nil rfl rfl

/-- Where every value matters, what is told is what was pushed. -/
theorem told_run {x : ChangeQueue × List (List Change)} (h : x.1.lastValue = []) (calls : List Call) :
    told (calls.foldl perform x) = told x ++ pushed calls := by
  induction calls generalizing x with
  | nil => exact (List.append_nil _).symm
  | cons call calls ih =>
    rw [List.foldl_cons, ih (by rw [lastValue_perform, h])]
    cases call with
    | drain =>
      rw [told_drain]
      rfl
    | push c =>
      have hpush : (x.1.push c).changes = x.1.changes ++ [c] := by
        cases c with
        | add r | delete r => rfl
        | update row column value =>
          rw [push_of_not_lastValue (by simp [h])]
          rfl
      simp only [told, perform, hpush, pushed, List.filterMap_cons, List.append_assoc, List.singleton_append]

end ChangeQueue

open ChangeQueue in
/-- After any calls, the changes that wait in a queue are the collapse of those that were pushed since it was last
drained, and the queue counts them. Every position that it remembers is that of an update of the cell, behind which
nothing is about the cell or adds or deletes its row; and it remembers one for a cell of which only the last value
matters just while the window of the cell is open. If no column is one of which only the last value matters, all that
is drained is all that was pushed. -/
theorem ChangeQueue.changes_eq_collapse (lastValue : List String) (calls : List Call) :
    let q := (calls.foldl perform ({ lastValue }, [])).1
    q.changes = Change.collapse lastValue (sinceDrain calls) ∧
      q.size = (Change.collapse lastValue (sinceDrain calls)).length ∧
      (∀ row column position, q.position? row column = some position → column ∈ lastValue ∧
        ∃ before old after, Change.Waits row column q.changes before old after ∧ before.length = position) ∧
      (∀ row, ∀ column ∈ lastValue, (q.position? row column).isSome = Change.isOpen row column (sinceDrain calls)) ∧
      (drained [] calls).flatten = pushed calls := by
  intro q
  obtain ⟨hcolumns, hholds⟩ := holds_run lastValue calls
  have hwaiting : q.changes = Change.collapse lastValue (sinceDrain calls) := hcolumns ▸ hholds.waiting
  refine ⟨hwaiting, by rw [← hwaiting, size], fun row column position hposition => ?_,
    fun row column hcolumn => hholds.remembers row column (by rwa [hcolumns]), ?_⟩
  · rw [← hcolumns]
    exact hholds.indexed row column position hposition
  · rw [flatten_drained, told_run rfl]
    rfl

example : Change.collapse ["price"] [.update 0 "price" (.int32 1), .update 1 "price" (.int32 5),
    .update 0 "price" (.int32 2), .delete 0, .update 0 "price" (.int32 3)] =
      [.update 0 "price" (.int32 2), .update 1 "price" (.int32 5), .delete 0, .update 0 "price" (.int32 3)] := by
  decide

end LiveTables
