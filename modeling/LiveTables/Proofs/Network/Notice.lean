import LiveTables.Event
import Mathlib.Data.List.Basic

/-!
# Announcements on their way

What a table has announced, or is about to announce, to a listener waits in a queue. A notice is an event
together with whether it brings news: the update of all columns that follows upon a fresh joined row does
not, because who has heard of the row has read it.

A queue tells of a cell if some notice makes its reader look at the cell again (`Notice.Tells`).
-/

namespace LiveTables

/-- An announcement on its way. -/
structure Notice where
  event : Event
  news : Bool

namespace Notice

variable {q q' : List Notice} {x : Notice} {row : Nat} {column : String}

/-- An event that brings news. -/
def fresh (e : Event) : Notice := { event := e, news := true }

/-- An event that repeats what was told. -/
def repeated (e : Event) : Notice := { event := e, news := false }

@[simp] theorem event_fresh (e : Event) : (fresh e).event = e := rfl

@[simp] theorem news_fresh (e : Event) : (fresh e).news = true := rfl

@[simp] theorem event_repeated (e : Event) : (repeated e).event = e := rfl

@[simp] theorem news_repeated (e : Event) : (repeated e).news = false := rfl

/-- A row is to be added. -/
def Adds (q : List Notice) (row : Nat) : Prop :=
  ∃ x ∈ q, x.event.action = .add ∧ x.event.row = row

/-- A row is to be deleted. -/
def Deletes (q : List Notice) (row : Nat) : Prop :=
  ∃ x ∈ q, x.event.action = .delete ∧ x.event.row = row

/-- A column of a row is to be updated. -/
def Updates (q : List Notice) (row : Nat) (column : String) : Prop :=
  ∃ x ∈ q, x.event.action = .update ∧ x.event.row = row ∧ x.news = true ∧ column ∈ x.event.columns

/-- A cell is to be looked at again, or its row to be forgotten. -/
def Tells (q : List Notice) (row : Nat) (column : String) : Prop :=
  Deletes q row ∨ Updates q row column

@[simp] theorem not_adds_nil : ¬ Adds [] row := by simp [Adds]

@[simp] theorem not_deletes_nil : ¬ Deletes [] row := by simp [Deletes]

@[simp] theorem not_updates_nil : ¬ Updates [] row column := by simp [Updates]

@[simp] theorem not_tells_nil : ¬ Tells [] row column := by simp [Tells]

theorem adds_cons : Adds (x :: q) row ↔ x.event.action = .add ∧ x.event.row = row ∨ Adds q row := by
  simp [Adds]

theorem deletes_cons :
    Deletes (x :: q) row ↔ x.event.action = .delete ∧ x.event.row = row ∨ Deletes q row := by
  simp [Deletes]

theorem updates_cons : Updates (x :: q) row column ↔
    (x.event.action = .update ∧ x.event.row = row ∧ x.news = true ∧ column ∈ x.event.columns) ∨
      Updates q row column := by
  simp [Updates]

theorem adds_append : Adds (q ++ q') row ↔ Adds q row ∨ Adds q' row := by
  simp [Adds, or_and_right, exists_or]

/-- A notice about another row says nothing of this one. -/
theorem adds_cons_of_ne (h : x.event.row ≠ row) : Adds (x :: q) row ↔ Adds q row := by
  simp [adds_cons, h]

theorem deletes_cons_of_ne (h : x.event.row ≠ row) : Deletes (x :: q) row ↔ Deletes q row := by
  simp [deletes_cons, h]

theorem tells_cons_of_ne (h : x.event.row ≠ row) : Tells (x :: q) row column ↔ Tells q row column := by
  simp [Tells, deletes_cons, updates_cons, h]

theorem adds_cons_of_action (h : x.event.action ≠ .add) : Adds (x :: q) row ↔ Adds q row := by
  simp [adds_cons, h]

/-- What is told is told by the first notice or by a later one. -/
theorem tells_cons : Tells (x :: q) row column ↔
    (x.event.row = row ∧ (x.event.action = .delete ∨
      x.event.action = .update ∧ x.news = true ∧ column ∈ x.event.columns)) ∨ Tells q row column := by
  rw [Tells, Tells, deletes_cons, updates_cons]
  tauto

/-- Rows that are deleted although they are there are added again later. -/
def Refills (live : Nat → Prop) : List Notice → Prop
  | [] => True
  | x :: q => (x.event.action = .delete → live x.event.row → Adds q x.event.row) ∧ Refills live q

theorem refills_of_forall {live : Nat → Prop} (h : ∀ x ∈ q, x.event.action ≠ .delete) : Refills live q := by
  induction q with
  | nil => trivial
  | cons x q ih =>
    exact ⟨fun hdelete => absurd hdelete (h x (by simp)), ih fun y hy => h y (List.mem_cons_of_mem _ hy)⟩

/-- After a row was added or updated, its columns in `plain` are not updated again, and the row is neither
added nor deleted. -/
def Settles (plain : String → Prop) (q : List Notice) : Prop :=
  q.Pairwise fun x y => x.event.row = y.event.row → x.event.action ≠ .delete →
    y.event.action = .update ∧ (y.news = true → ∀ c ∈ y.event.columns, ¬ plain c)

/-- What notices say about the rows of a table before and after a change: rows that come are added, rows
that go are deleted, and the rows of all other notices are there. -/
structure Publishes (rows rows' : List Nat) (q : List Notice) : Prop where
  comes : ∀ row ∈ rows', row ∉ rows → Adds q row
  goes : ∀ row ∈ rows, row ∉ rows' → Deletes q row
  refills : Refills (· ∈ rows') q
  alive : ∀ x ∈ q, x.event.action ≠ .delete → x.event.row ∈ rows'

/-- What is told of a row after it was added or updated concerns no column in `plain`. -/
theorem Settles.not_tells {plain : String → Prop} (h : Settles plain (x :: q)) (hx : x.event.row = row)
    (haction : x.event.action ≠ .delete) (hplain : plain column) : ¬ Tells q row column := by
  have hlater := (List.pairwise_cons.1 h).1
  rintro (⟨y, hy, hdelete, hrow⟩ | ⟨y, hy, -, hrow, hnews, hcolumn⟩)
  · have hupdate := (hlater y hy (hx.trans hrow.symm) haction).1
    rw [hdelete] at hupdate
    exact Action.noConfusion hupdate
  · exact (hlater y hy (hx.trans hrow.symm) haction).2 hnews column hcolumn hplain

/-- A row is not added after it was added or updated. -/
theorem Settles.not_adds {plain : String → Prop} (h : Settles plain (x :: q)) (hx : x.event.row = row)
    (haction : x.event.action ≠ .delete) : ¬ Adds q row := by
  rintro ⟨y, hy, hadd, hrow⟩
  have hupdate := ((List.pairwise_cons.1 h).1 y hy (hx.trans hrow.symm) haction).1
  rw [hadd] at hupdate
  exact Action.noConfusion hupdate

end Notice

end LiveTables
