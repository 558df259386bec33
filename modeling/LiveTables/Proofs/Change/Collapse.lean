import LiveTables.Change.Queue
import LiveTables.Proofs.Data.Lookup
import Mathlib.Logic.Basic
import Mathlib.Tactic.SplitIfs

/-!
# What waits in a queue does what was pushed

Changes act on states of some kind. Of two updates of a cell the last counts, and an update can change places with
a change of another row, and with an update of another column (`Change.Collapses`). That is why a queue may
overwrite the value that waits for a cell: nothing that stands behind it is about the cell or adds or deletes its
row (`Change.Waits`). A queue does not look for that, but goes by the positions that it remembers; each of them is
the position of such an update (`ChangeQueue.Indexed`), and every push keeps this (`ChangeQueue.Indexed.push`).

So what waits after a push does what waited before and then the change that was pushed
(`ChangeQueue.foldl_push`), and all that was ever drained from a queue, with what is drained in the end, does what
all changes do that were pushed (`ChangeQueue.foldl_drained`).
-/

namespace LiveTables

variable {σ : Type} {act : σ → Change → σ} {P : σ → Prop} {ok : Change → Prop} {row : Nat} {column : String}
  {value : Value} {c : Change} {s : σ}

/-- Whether a change can change places with an update of a cell: it is of another row, or it updates another
column. -/
def Change.Clear (row : Nat) (column : String) : Change → Prop
  | .update r c _ => r ≠ row ∨ c ≠ column
  | .add r | .delete r => r ≠ row

/-- Changes of some kind act on states that they keep among themselves, and an update counts only for its cell,
until it is updated again. -/
structure Change.Collapses (act : σ → Change → σ) (P : σ → Prop) (ok : Change → Prop) : Prop where
  kept {s : σ} {c : Change} (hs : P s) (hc : ok c) : P (act s c)
  last {s : σ} {row : Nat} {column : String} {value : Value} (value' : Value) (hs : P s)
    (hc : ok (.update row column value)) :
    act (act s (.update row column value)) (.update row column value') = act s (.update row column value')
  comm {s : σ} {row : Nat} {column : String} {value : Value} {c : Change} (hs : P s) (hc : ok c)
    (hupdate : ok (.update row column value)) (hclear : c.Clear row column) :
    act (act s (.update row column value)) c = act (act s c) (.update row column value)

theorem Change.Collapses.foldl_kept (h : Collapses act P ok) {changes : List Change} (hs : P s)
    (hall : ∀ c ∈ changes, ok c) : P (changes.foldl act s) := by
  induction changes generalizing s with
  | nil => exact hs
  | cons c changes ih =>
    obtain ⟨hc, hrest⟩ := List.forall_mem_cons.1 hall
    exact ih (h.kept hs hc) hrest

/-- An update of a cell stands among changes, and what stands behind it can change places with an update of the
cell. -/
structure Change.Waits (row : Nat) (column : String) (changes before : List Change) (old : Value)
    (after : List Change) : Prop where
  eq : changes = before ++ .update row column old :: after
  clear : ∀ d ∈ after, d.Clear row column

theorem Change.Waits.concat {changes before after : List Change} {old : Value}
    (h : Waits row column changes before old after) (hc : c.Clear row column) :
    Waits row column (changes ++ [c]) before old (after ++ [c]) where
  eq := by rw [h.eq, List.append_assoc, List.cons_append]
  clear d hd := by
    rcases List.mem_append.1 hd with hd | hd
    · exact h.clear d hd
    · exact List.mem_singleton.1 hd ▸ hc

theorem Change.waits_concat_self (changes : List Change) (row : Nat) (column : String) (value : Value) :
    Waits row column (changes ++ [.update row column value]) changes value [] :=
  ⟨rfl, by simp⟩

/-- There is only one such update of a cell. -/
theorem Change.Waits.unique {changes before before' after after' : List Change} {old old' : Value}
    (h : Waits row column changes before old after) (h' : Waits row column changes before' old' after') :
    before = before' ∧ old = old' ∧ after = after' := by
  have heq := h.eq.symm.trans h'.eq
  -- where one of the two stands behind the other, it would have to be clear of its own cell
  have hself {value : Value} : ¬ (Change.update row column value).Clear row column := by simp [Change.Clear]
  rcases List.append_eq_append_iff.1 heq with ⟨between, rfl, hafter⟩ | ⟨between, rfl, hafter⟩
  · cases between with
    | nil => simpa using hafter
    | cons d between =>
      obtain ⟨-, rfl⟩ := List.cons.inj hafter
      exact absurd (h.clear _ (List.mem_append_right _ List.mem_cons_self)) hself
  · cases between with
    | nil => simpa [eq_comm] using hafter
    | cons d between =>
      obtain ⟨-, rfl⟩ := List.cons.inj hafter
      exact absurd (h'.clear _ (List.mem_append_right _ List.mem_cons_self)) hself

namespace ChangeQueue

/-! ### Positions -/

section Positions

variable {q : ChangeQueue}

theorem position?_remember (q : ChangeQueue) (row r : Nat) (column column' : String) (position : Nat) :
    (q.remember row column position).position? r column' =
      if r = row ∧ column' = column then some position else q.position? r column' := by
  rw [position?, remember, lookup_cons, lookup_filter_ne, position?]
  by_cases hrow : r = row
  · subst hrow
    rw [if_pos rfl, Option.bind_some, lookup_cons, lookup_filter_ne]
    by_cases hcolumn : column' = column
    · simp [hcolumn]
    · rcases q.positions.lookup r with - | columns <;> simp [hcolumn]
  · simp [hrow]

theorem position?_forget (q : ChangeQueue) (row r : Nat) (column : String) :
    (q.forget row).position? r column = if r = row then none else q.position? r column := by
  rw [position?, forget, lookup_filter_ne, position?]
  split_ifs <;> rfl

/-- Every position that is remembered is that of an update of the cell, in the window that is open, and only the last
value of its column matters. -/
def Indexed (q : ChangeQueue) : Prop :=
  ∀ row column position, q.position? row column = some position → column ∈ q.lastValue ∧
    ∃ before old after, Change.Waits row column q.changes before old after ∧ before.length = position

theorem indexed_empty (lastValue : List String) : Indexed { lastValue } := by
  intro row column position h
  cases h

theorem indexed_drain (q : ChangeQueue) : q.drain.1.Indexed := indexed_empty q.lastValue

/-- An update that waits is overwritten at its position. -/
theorem overwrite?_of_waits {before after : List Change} {old : Value}
    (h : Change.Waits row column q.changes before old after) (value : Value) :
    q.overwrite? before.length value = some { q with changes := before ++ .update row column value :: after } := by
  rw [overwrite?, h.eq, List.getElem?_append_right (Nat.le_refl _), Nat.sub_self]
  simp

theorem push_of_not_lastValue (hcolumn : column ∉ q.lastValue) (value : Value) :
    q.push (.update row column value) = q.append (.update row column value) := by
  simp [push, isLastValue, hcolumn]

/-- Of a cell for which no position is remembered an update is put at the end, and its position is remembered. -/
theorem push_of_no_position (hcolumn : column ∈ q.lastValue) (h : q.position? row column = none) (value : Value) :
    q.push (.update row column value) =
      (q.remember row column q.changes.length).append (.update row column value) := by
  simp [push, isLastValue, hcolumn, h]

/-- A remembered position leads to an update of the cell, which takes the value that is pushed. -/
theorem Indexed.push_of_position (h : q.Indexed) {position : Nat} (hposition : q.position? row column = some position)
    (value : Value) : ∃ before old after, Change.Waits row column q.changes before old after ∧
      q.push (.update row column value) = { q with changes := before ++ .update row column value :: after } := by
  obtain ⟨hcolumn, before, old, after, hwaits, rfl⟩ := h row column position hposition
  refine ⟨before, old, after, hwaits, ?_⟩
  simp [push, isLastValue, hcolumn, hposition, overwrite?_of_waits hwaits]

/-- What a push makes of a queue: the change waits at the end, or it overwrites what waits for its cell. -/
theorem Indexed.push_cases (h : q.Indexed) (c : Change) :
    (q.push c).changes = q.changes ++ [c] ∨ ∃ row column value before old after, c = .update row column value ∧
      Change.Waits row column q.changes before old after ∧
      (q.push c).changes = before ++ .update row column value :: after := by
  cases c with
  | add r | delete r => exact .inl rfl
  | update r column value =>
    by_cases hcolumn : column ∈ q.lastValue
    · rcases hposition : q.position? r column with - | position
      · rw [push_of_no_position hcolumn hposition]
        exact .inl rfl
      · obtain ⟨before, old, after, hwaits, hpush⟩ := h.push_of_position hposition value
        exact .inr ⟨r, column, value, before, old, after, rfl, hwaits, by rw [hpush]⟩
    · rw [push_of_not_lastValue hcolumn]
      exact .inl rfl

theorem Indexed.append (h : q.Indexed)
    (hclear : ∀ row column, q.position? row column ≠ none → c.Clear row column) : (q.append c).Indexed := by
  intro row column position hposition
  obtain ⟨hcolumn, before, old, after, hwaits, hlength⟩ := h row column position hposition
  have hne : q.position? row column ≠ none := by
    rw [show q.position? row column = some position from hposition]
    exact Option.some_ne_none position
  exact ⟨hcolumn, before, old, _, hwaits.concat (hclear row column hne), hlength⟩

/-- An update takes the place of one of the same cell, so every update that waited for a cell still does. -/
theorem Indexed.overwritten (h : q.Indexed) {before after : List Change} {old : Value}
    (hwaits : Change.Waits row column q.changes before old after) (value : Value) :
    Indexed { q with changes := before ++ .update row column value :: after } := by
  intro r column' position hposition
  obtain ⟨hcolumn, before', old', after', hwaits', hlength⟩ := h r column' position hposition
  refine ⟨hcolumn, ?_⟩
  have heq := hwaits.eq.symm.trans hwaits'.eq
  rcases List.append_eq_append_iff.1 heq with ⟨between, rfl, hafter⟩ | ⟨between, rfl, hafter⟩
  · cases between with
    | nil =>
      obtain ⟨hcell, rfl⟩ := List.cons.inj hafter
      obtain ⟨rfl, rfl, rfl⟩ := Change.update.inj hcell
      exact ⟨before, value, after, ⟨rfl, hwaits.clear⟩, by simpa using hlength⟩
    | cons d between =>
      -- it stands behind the one that is overwritten
      obtain ⟨rfl, rfl⟩ := List.cons.inj hafter
      exact ⟨before ++ .update row column value :: between, old', after', ⟨by simp, hwaits'.clear⟩,
        by simpa using hlength⟩
  · cases between with
    | nil =>
      obtain ⟨hcell, rfl⟩ := List.cons.inj hafter
      obtain ⟨rfl, rfl, rfl⟩ := Change.update.inj hcell
      exact ⟨before', value, after', ⟨by simp, hwaits'.clear⟩, hlength⟩
    | cons d between =>
      -- it stands in front of it
      obtain ⟨rfl, rfl⟩ := List.cons.inj hafter
      refine ⟨before', old', between ++ .update row column value :: after, ⟨by simp, fun d hd => ?_⟩, hlength⟩
      rcases List.mem_append.1 hd with hd | hd
      · exact hwaits'.clear d (List.mem_append_left _ hd)
      · rcases List.mem_cons.1 hd with rfl | hd
        · exact hwaits'.clear (.update row column old) (List.mem_append_right _ List.mem_cons_self)
        · exact hwaits'.clear d (List.mem_append_right _ (List.mem_cons_of_mem _ hd))

/-- A push leaves every remembered position that of an update of its cell in an open window. -/
theorem Indexed.push (h : q.Indexed) (c : Change) : (q.push c).Indexed := by
  have hforget (r : Nat) : (q.forget r).Indexed := by
    intro row column position hposition
    rw [position?_forget] at hposition
    split_ifs at hposition
    exact h row column position hposition
  have hended (r : Nat) {c : Change} (hc : ∀ row column, r ≠ row → c.Clear row column) :
      ((q.forget r).append c).Indexed := by
    refine (hforget r).append fun row column hposition => hc row column fun heq => hposition ?_
    rw [position?_forget, if_pos heq.symm]
  cases c with
  | add r => exact hended r fun row column hne => hne
  | delete r => exact hended r fun row column hne => hne
  | update r column value =>
    by_cases hcolumn : column ∈ q.lastValue
    · rcases hnone : q.position? r column with - | position
      · -- the update opens the window of its cell, and it is clear of all others
        rw [push_of_no_position hcolumn hnone]
        intro row column' position hposition
        change (q.remember r column q.changes.length).position? row column' = some position at hposition
        rw [position?_remember] at hposition
        split_ifs at hposition with hcell
        · obtain ⟨rfl, rfl⟩ := hcell
          obtain rfl := Option.some.inj hposition
          exact ⟨hcolumn, _, _, _, Change.waits_concat_self q.changes row column' value, rfl⟩
        · obtain ⟨hcolumn', before, old, after, hwaits, hlength⟩ := h row column' position hposition
          have hclear : (Change.update r column value).Clear row column' :=
            not_and_or.1 fun heq => hcell ⟨heq.1.symm, heq.2.symm⟩
          exact ⟨hcolumn', before, old, _, hwaits.concat hclear, hlength⟩
      · obtain ⟨before, old, after, hwaits, hpush⟩ := h.push_of_position hnone value
        rw [hpush]
        exact h.overwritten hwaits value
    · rw [push_of_not_lastValue hcolumn]
      refine h.append fun row column' hposition => .inr fun heq => hcolumn ?_
      obtain ⟨position, hposition⟩ := Option.ne_none_iff_exists'.1 hposition
      exact heq ▸ (h row column' position hposition).1

theorem Indexed.foldl_push (h : q.Indexed) (changes : List Change) : (changes.foldl ChangeQueue.push q).Indexed :=
  List.foldlRecOn changes ChangeQueue.push h fun _ hq c _ => hq.push c

end Positions

/-! ### What waits -/

/-- Only what was pushed waits. -/
theorem Indexed.of_mem_push {q : ChangeQueue} (hq : q.Indexed) {c' : Change} (h : c ∈ (q.push c').changes) :
    c ∈ q.changes ∨ c = c' := by
  rcases hq.push_cases c' with happended | ⟨row, column, value, before, old, after, rfl, hwaits, hpush⟩
  · simpa [happended] using h
  · rw [hpush] at h
    rw [hwaits.eq]
    simp only [List.mem_append, List.mem_cons] at h ⊢
    tauto

theorem Indexed.of_mem_foldl_push {q : ChangeQueue} (hq : q.Indexed) {changes : List Change}
    (h : c ∈ (changes.foldl ChangeQueue.push q).changes) : c ∈ q.changes ∨ c ∈ changes := by
  induction changes generalizing q with
  | nil => exact .inl h
  | cons c' changes ih =>
    rcases ih (hq.push c') h with hmem | hmem
    · rcases hq.of_mem_push hmem with hmem | rfl
      · exact .inl hmem
      · exact .inr List.mem_cons_self
    · exact .inr (List.mem_cons_of_mem _ hmem)

/-! ### What is drained -/

/-- A call of a queue. -/
inductive Call where
  | push (c : Change)
  | drain
  deriving DecidableEq

/-- A queue, and the batches that were drained from it, after a call. -/
def perform : ChangeQueue × List (List Change) → Call → ChangeQueue × List (List Change)
  | (q, batches), .push c => (q.push c, batches)
  | (q, batches), .drain => (q.drain.1, batches ++ [q.drain.2])

/-- The batches that calls drain from a new queue, with those of a last drain. -/
def drained (lastValue : List String) (calls : List Call) : List (List Change) :=
  (perform (calls.foldl perform ({ lastValue }, [])) .drain).2

/-- The changes that calls push, in order. -/
def pushed (calls : List Call) : List Change :=
  calls.filterMap fun
    | .push c => some c
    | .drain => none

/-- All that was drained, and then what waits. -/
def told (x : ChangeQueue × List (List Change)) : List Change := x.2.flatten ++ x.1.changes

theorem flatten_drained (lastValue : List String) (calls : List Call) :
    (drained lastValue calls).flatten = told (calls.foldl perform ({ lastValue }, [])) := by
  simp [drained, perform, told, drain]

/-- To drain a queue changes nothing of what is told. -/
theorem told_drain (x : ChangeQueue × List (List Change)) : told (perform x .drain) = told x := by
  simp [told, perform, drain]

theorem Indexed.perform {x : ChangeQueue × List (List Change)} (h : x.1.Indexed) (call : Call) :
    (perform x call).1.Indexed := by
  cases call with
  | push c => exact h.push c
  | drain => exact indexed_drain x.1

/-- Only what was pushed is told. -/
theorem Indexed.of_mem_told {x : ChangeQueue × List (List Change)} (hx : x.1.Indexed) {calls : List Call}
    (h : c ∈ told (calls.foldl ChangeQueue.perform x)) : c ∈ told x ∨ c ∈ pushed calls := by
  induction calls generalizing x with
  | nil => exact .inl h
  | cons call calls ih =>
    rcases ih (hx.perform call) h with hmem | hmem
    · cases call with
      | drain => exact .inl (told_drain x ▸ hmem)
      | push c' =>
        rcases List.mem_append.1 hmem with hmem | hmem
        · exact .inl (List.mem_append_left _ hmem)
        · rcases hx.of_mem_push hmem with hmem | rfl
          · exact .inl (List.mem_append_right _ hmem)
          · exact .inr List.mem_cons_self
    · cases call with
      | drain => exact .inr hmem
      | push c' => exact .inr (List.mem_cons_of_mem _ hmem)

theorem of_mem_drained {lastValue : List String} {calls : List Call}
    (h : c ∈ (drained lastValue calls).flatten) : c ∈ pushed calls := by
  rw [flatten_drained] at h
  exact ((indexed_empty lastValue).of_mem_told h).resolve_left (by simp [told])

/-! ### What it does -/

section Collapses

variable (h : Change.Collapses act P ok)

include h

/-- A value that is overwritten where it waits does what an update at the end does. -/
theorem foldl_overwritten {after : List Change} {old : Value} (hs : P s) (hold : ok (.update row column old))
    (hc : ok (.update row column value)) (hall : ∀ d ∈ after, ok d) (hclear : ∀ d ∈ after, d.Clear row column) :
    after.foldl act (act s (.update row column value)) =
      act (after.foldl act (act s (.update row column old))) (.update row column value) := by
  induction after generalizing s with
  | nil => exact (h.last value hs hold).symm
  | cons d after ih =>
    -- what stands behind the update changes places with it, so the update moves on to the end
    obtain ⟨hd, hrest⟩ := List.forall_mem_cons.1 hall
    obtain ⟨hdclear, hclear'⟩ := List.forall_mem_cons.1 hclear
    rw [List.foldl_cons, List.foldl_cons, h.comm hs hd hc hdclear, h.comm hs hd hold hdclear]
    exact ih (h.kept hs hd) hrest hclear'

/-- A change that is pushed does what it does at the end. -/
theorem foldl_push {q : ChangeQueue} (hq : q.Indexed) (hs : P s) (hall : ∀ c ∈ q.changes, ok c) (hc : ok c) :
    (q.push c).changes.foldl act s = act (q.changes.foldl act s) c := by
  rcases hq.push_cases c with happended | ⟨row, column, value, before, old, after, rfl, hwaits, hpush⟩
  · rw [happended, List.foldl_append, List.foldl_cons, List.foldl_nil]
  · rw [hwaits.eq] at hall
    obtain ⟨hbefore, hrest⟩ := List.forall_mem_append.1 hall
    obtain ⟨hold, hafter⟩ := List.forall_mem_cons.1 hrest
    rw [hpush, hwaits.eq, List.foldl_append, List.foldl_append, List.foldl_cons, List.foldl_cons]
    exact foldl_overwritten h (h.foldl_kept hs hbefore) hold hc hafter hwaits.clear

theorem foldl_foldl_push {q : ChangeQueue} (hq : q.Indexed) {changes : List Change} (hs : P s)
    (hall : ∀ c ∈ q.changes, ok c) (hchanges : ∀ c ∈ changes, ok c) :
    (changes.foldl push q).changes.foldl act s = changes.foldl act (q.changes.foldl act s) := by
  induction changes generalizing q with
  | nil => rfl
  | cons c changes ih =>
    obtain ⟨hc, hrest⟩ := List.forall_mem_cons.1 hchanges
    have hpushed : ∀ c' ∈ (q.push c).changes, ok c' := by
      intro c' hc'
      rcases hq.of_mem_push hc' with hmem | rfl
      · exact hall c' hmem
      · exact hc
    rw [List.foldl_cons, ih (hq.push c) hpushed hrest, foldl_push h hq hs hall hc, List.foldl_cons]

/-- What is told after calls does what was told before and then all that the calls push. -/
theorem foldl_told {x : ChangeQueue × List (List Change)} (hx : x.1.Indexed) {calls : List Call} (hs : P s)
    (htold : ∀ c ∈ told x, ok c) (hpushed : ∀ c ∈ pushed calls, ok c) :
    (told (calls.foldl perform x)).foldl act s = (pushed calls).foldl act ((told x).foldl act s) := by
  induction calls generalizing x with
  | nil => rfl
  | cons call calls ih =>
    cases call with
    | drain =>
      have hdrain := told_drain x
      rw [List.foldl_cons, ih (hx.perform .drain) (hdrain.symm ▸ htold) hpushed, hdrain]
      rfl
    | push c =>
      obtain ⟨hc, hrest⟩ := List.forall_mem_cons.1 (show ∀ c' ∈ c :: pushed calls, ok c' from hpushed)
      obtain ⟨hbatches, hqueue⟩ := List.forall_mem_append.1 htold
      have hnow : ∀ c' ∈ told (perform x (.push c)), ok c' := by
        refine List.forall_mem_append.2 ⟨hbatches, fun c' hc' => ?_⟩
        rcases hx.of_mem_push hc' with hmem | rfl
        · exact hqueue c' hmem
        · exact hc
      have hpush : (told (perform x (.push c))).foldl act s = act ((told x).foldl act s) c := by
        simp only [told, perform, List.foldl_append]
        exact foldl_push h hx (h.foldl_kept hs hbatches) hqueue hc
      rw [List.foldl_cons, ih (hx.perform (.push c)) hnow hrest, hpush]
      rfl

/-- All that is drained does what all that was pushed does. -/
theorem foldl_drained {lastValue : List String} {calls : List Call} (hs : P s)
    (hpushed : ∀ c ∈ pushed calls, ok c) :
    (drained lastValue calls).flatten.foldl act s = (pushed calls).foldl act s := by
  rw [flatten_drained, foldl_told h (indexed_empty lastValue) hs (by simp [told]) hpushed]
  rfl

end Collapses

end ChangeQueue

end LiveTables
