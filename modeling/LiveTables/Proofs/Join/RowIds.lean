import LiveTables.Join.RowIds
import Mathlib.Data.List.Perm.Basic
import Mathlib.Data.List.Perm.Lattice
import Mathlib.Order.Bounds.Basic

/-!
# Identifiers held and free

The identifiers given out so far are `0, …, next - 1`. Each of them is either free or held, and none is
both: the free ones and the held ones together are a rearrangement of these numbers (`RowIds.Holds`).
From this alone follows that a fresh identifier is the smallest one that is not held
(`RowIds.isLeast_allocate`), whatever the history.

How many identifiers were needed does depend on the history: a new one is only given out when none is
free, that is when all of them are held. So over a run in which only held ones are taken back, there
are as many as were ever held at once (`RowIds.Run.reuses_lowest`).
-/

open scoped List

namespace LiveTables.RowIds

variable {ids : RowIds} {held : List Nat} {id : Nat}

/-- The identifiers that were given out and not taken back are the given ones, each held once. -/
def Holds (ids : RowIds) (held : List Nat) : Prop := (ids.free ++ held).Perm (List.range ids.next)

theorem holds_nil : RowIds.Holds {} [] := by simp [Holds]

theorem Holds.perm {held' : List Nat} (h : ids.Holds held) (hp : held.Perm held') : ids.Holds held' :=
  (hp.symm.append_left ids.free).trans h

theorem Holds.nodup (h : ids.Holds held) : held.Nodup := by
  have hall : (ids.free ++ held).Nodup := h.nodup_iff.2 List.nodup_range
  exact (List.nodup_append.1 hall).2.1

/-- A number below `next` that is not held is free. -/
theorem Holds.mem_free (h : ids.Holds held) (hlt : id < ids.next) (hid : id ∉ held) :
    id ∈ ids.free := by
  have hmem : id ∈ ids.free ++ held := h.symm.subset (List.mem_range.2 hlt)
  exact (List.mem_append.1 hmem).resolve_right hid

/-- There are as many numbers below `next` as free and held ones together. -/
theorem Holds.length (h : ids.Holds held) : ids.free.length + held.length = ids.next := by
  simpa using h.length_eq

/-- What is given out is held from then on. -/
theorem Holds.allocate (h : ids.Holds held) : ids.allocate.1.Holds (ids.allocate.2 :: held) := by
  unfold RowIds.allocate
  split
  · rename_i id hmin
    have hid : id ∈ ids.free := List.min?_mem hmin
    show (ids.free.erase id ++ id :: held).Perm (List.range ids.next)
    calc ids.free.erase id ++ id :: held
        ~ id :: (ids.free.erase id ++ held) := List.perm_middle
      _ ~ ids.free ++ held := (List.perm_cons_erase hid).symm.append_right held
      _ ~ List.range ids.next := h
  · rename_i hmin
    have hfree : ids.free = [] := List.min?_eq_none_iff.1 hmin
    show (ids.free ++ ids.next :: held).Perm (List.range (ids.next + 1))
    rw [hfree, List.nil_append, List.range_succ]
    have hheld : held.Perm (List.range ids.next) := by simpa [Holds, hfree] using h
    exact (hheld.cons ids.next).trans (List.perm_append_singleton _ _).symm

/-- What is taken back is no longer held. -/
theorem Holds.release (h : ids.Holds (id :: held)) : (ids.release id).Holds held := by
  show (id :: ids.free ++ held).Perm (List.range ids.next)
  exact List.perm_middle.symm.trans h

/-- A fresh identifier is the smallest number that is not held. -/
theorem isLeast_allocate (h : ids.Holds held) : IsLeast {n | n ∉ held} ids.allocate.2 := by
  have hfresh : ids.allocate.2 ∉ held := (List.nodup_cons.1 h.allocate.nodup).1
  refine ⟨hfresh, fun n hn => ?_⟩
  unfold RowIds.allocate
  split
  · rename_i id hmin
    by_cases hlt : n < ids.next
    · exact (List.min?_eq_some_iff.1 hmin).2 n (h.mem_free hlt hn)
    · have hid : id < ids.next :=
        List.mem_range.1 (h.subset (List.mem_append_left _ (List.min?_mem hmin)))
      show id ≤ n
      omega
  · rename_i hmin
    have hfree : ids.free = [] := List.min?_eq_none_iff.1 hmin
    show ids.next ≤ n
    by_contra hlt
    exact absurd (h.mem_free (by omega) hn) (by simp [hfree])

/-! ### Runs -/

/-- What is held after each step of a run, the last step first. Only what is held is taken back. -/
inductive Run : List (List Nat) → RowIds → Prop
  | start : Run [[]] {}
  | allocate {ids : RowIds} {held : List Nat} {past : List (List Nat)} (h : Run (held :: past) ids) :
    Run ((ids.allocate.2 :: held) :: held :: past) ids.allocate.1
  | release {ids : RowIds} {held : List Nat} {past : List (List Nat)} {id : Nat} (h : Run (held :: past) ids)
    (hid : id ∈ held) : Run (held.erase id :: held :: past) (ids.release id)

/-- A new identifier is only given out when as many are held as were ever given out. -/
theorem Holds.next_allocate (h : ids.Holds held) : ids.allocate.1.next = max ids.next (held.length + 1) := by
  have hlength := h.length
  unfold RowIds.allocate
  split
  · rename_i id hmin
    have hfree : 0 < ids.free.length := List.length_pos_of_mem (List.min?_mem hmin)
    show ids.next = _
    omega
  · rename_i hmin
    have hfree : ids.free.length = 0 := List.length_eq_zero_iff.2 (List.min?_eq_none_iff.1 hmin)
    show ids.next + 1 = _
    omega

namespace Run

variable {past : List (List Nat)}

theorem holds (h : Run (held :: past) ids) : ids.Holds held := by
  generalize hhistory : held :: past = history at h
  induction h generalizing held past with
  | start =>
    cases hhistory
    exact holds_nil
  | allocate h ih =>
    cases hhistory
    exact (ih rfl).allocate
  | release h hid ih =>
    cases hhistory
    exact ((ih rfl).perm (List.perm_cons_erase hid)).release

/-- As many identifiers were needed as were held at the moment when the most were. -/
theorem isGreatest_capacity {history : List (List Nat)} (h : Run history ids) :
    IsGreatest {n | ∃ held ∈ history, held.length = n} ids.capacity := by
  induction h with
  | start => exact ⟨⟨[], List.mem_singleton_self _, rfl⟩, by simp [upperBounds, capacity]⟩
  | @allocate ids held past h ih =>
    have hset : {n | ∃ hs ∈ (ids.allocate.2 :: held) :: held :: past, hs.length = n} =
        insert (held.length + 1) {n | ∃ hs ∈ held :: past, hs.length = n} := by
      ext n
      simp [eq_comm]
    rw [hset, capacity, h.holds.next_allocate, max_comm]
    exact ih.insert _
  | @release ids held past id h hid ih =>
    refine ⟨?_, ?_⟩
    · obtain ⟨hs, hmem, hlength⟩ := ih.1
      exact ⟨hs, List.mem_cons_of_mem _ hmem, hlength⟩
    · rintro _ ⟨hs, hmem, rfl⟩
      rcases List.mem_cons.1 hmem with rfl | hmem
      · -- fewer are held than before
        exact List.length_erase_le.trans (ih.2 ⟨held, List.mem_cons_self, rfl⟩)
      · exact ih.2 ⟨hs, hmem, rfl⟩

/-- At every moment of a run, a fresh identifier is the smallest number that is not held, as many identifiers were
needed as were ever held at once, and those of them that are not held are free. -/
theorem reuses_lowest (h : Run (held :: past) ids) :
    IsLeast {n | n ∉ held} ids.allocate.2 ∧
      IsGreatest {n | ∃ held' ∈ held :: past, held'.length = n} ids.capacity ∧
      held.length + ids.freeCount = ids.capacity :=
  ⟨isLeast_allocate h.holds, h.isGreatest_capacity, (Nat.add_comm _ _).trans h.holds.length⟩

/-- Three are given out, and the first and then the second are taken back. Two of the three are free then, and the
first is the next to be given out. -/
theorem reuses_lowest_three :
    let ids : RowIds := { free := [1, 0], next := 3 }
    let history := [[2], [2, 1], [2, 1, 0], [1, 0], [0], []]
    Run history ids ∧ ids.allocate.2 = 0 ∧ IsLeast {n | n ∉ [2]} 0 ∧
      IsGreatest {n | ∃ held ∈ history, held.length = n} 3 ∧ ids.freeCount = 2 := by
  have hrun : Run [[2], [2, 1], [2, 1, 0], [1, 0], [0], []] { free := [1, 0], next := 3 } :=
    (Run.start.allocate.allocate.allocate.release (show 0 ∈ [2, 1, 0] by decide)).release (show 1 ∈ [2, 1] by decide)
  obtain ⟨hleast, hgreatest, -⟩ := reuses_lowest hrun
  exact ⟨hrun, rfl, hleast, hgreatest, rfl⟩

end Run

end LiveTables.RowIds
