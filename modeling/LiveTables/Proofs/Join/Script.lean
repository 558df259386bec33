import LiveTables.Join.Engine
import LiveTables.Proofs.Join.RowIds
import Mathlib.Data.Finset.Basic
import Mathlib.Data.Finset.Dedup

/-!
# Changes as an edit script

The changes that an operation on a join reports can be replayed on the set of joined rows
(`JoinChange.replay`): an added row must be absent, an updated or deleted one present. A script says
what an operation did to the identifiers as well (`Scripted`): it leads from the rows held before to the
rows held after, and every row that it adds takes the smallest identifier absent at that moment.
-/

open scoped List

namespace LiveTables

namespace JoinChange

/-- The joined row that a change is about. -/
def row : JoinChange → Nat
  | added id => id
  | updated id _ => id
  | deleted id => id

@[simp] theorem row_added (id : Nat) : (added id).row = id := rfl

@[simp] theorem row_updated (id : Nat) (side : Side) : (updated id side).row = id := rfl

@[simp] theorem row_deleted (id : Nat) : (deleted id).row = id := rfl

/-- The joined rows that changes are about, in order. -/
def mentioned (changes : List JoinChange) : List Nat := changes.map row

@[simp] theorem mentioned_nil : mentioned [] = [] := rfl

@[simp] theorem mentioned_cons (c : JoinChange) (cs : List JoinChange) :
    mentioned (c :: cs) = c.row :: mentioned cs := rfl

theorem mem_mentioned {cs : List JoinChange} {id : Nat} : id ∈ mentioned cs ↔ ∃ c ∈ cs, c.row = id :=
  List.mem_map

@[simp] theorem mentioned_append (cs cs' : List JoinChange) :
    mentioned (cs ++ cs') = mentioned cs ++ mentioned cs' := List.map_append

/-- The joined rows after a change, if the change fits the rows before. -/
def applyTo (visible : Finset ℕ) : JoinChange → Option (Finset ℕ)
  | added id => if id ∈ visible then none else some (insert id visible)
  | updated id _ => if id ∈ visible then some visible else none
  | deleted id => if id ∈ visible then some (visible.erase id) else none

/-- The joined rows after some changes, if each of them fits the rows at its turn. -/
def replay (visible : Finset ℕ) (changes : List JoinChange) : Option (Finset ℕ) :=
  changes.foldlM applyTo visible

@[simp] theorem replay_nil (visible : Finset ℕ) : replay visible [] = some visible := rfl

theorem replay_append (visible : Finset ℕ) (cs cs' : List JoinChange) :
    replay visible (cs ++ cs') = (replay visible cs).bind (replay · cs') := List.foldlM_append

theorem replay_cons_eq_some {visible v' : Finset ℕ} {c : JoinChange} {cs : List JoinChange} :
    replay visible (c :: cs) = some v' ↔ ∃ v, c.applyTo visible = some v ∧ replay v cs = some v' := by
  rw [replay, List.foldlM_cons]
  exact Option.bind_eq_some_iff

/-- A change leaves all rows but its own as they are. -/
theorem mem_of_applyTo {visible v : Finset ℕ} {c : JoinChange} {id : Nat}
    (h : c.applyTo visible = some v) (hid : id ≠ c.row) : id ∈ v ↔ id ∈ visible := by
  cases c with
  | added n =>
    simp only [applyTo, Option.ite_none_left_eq_some, Option.some.injEq] at h
    rw [← h.2, Finset.mem_insert]
    simpa using fun heq : id = n => absurd heq hid
  | updated n s =>
    simp only [applyTo, Option.ite_none_right_eq_some, Option.some.injEq] at h
    rw [h.2]
  | deleted n =>
    simp only [applyTo, Option.ite_none_right_eq_some, Option.some.injEq] at h
    rw [← h.2, Finset.mem_erase]
    simpa using fun _ => hid

/-- Rows that are not mentioned stay or stay away. -/
theorem mem_of_replay {visible v' : Finset ℕ} {cs : List JoinChange} {id : Nat}
    (h : replay visible cs = some v') (hid : id ∉ mentioned cs) : id ∈ v' ↔ id ∈ visible := by
  induction cs generalizing visible with
  | nil =>
    obtain rfl := Option.some.inj h
    rfl
  | cons c cs ih =>
    obtain ⟨v, hv, hrest⟩ := replay_cons_eq_some.1 h
    rw [mentioned_cons, List.mem_cons, not_or] at hid
    rw [ih hrest hid.2, mem_of_applyTo hv hid.1]

/-- A row that is deleted, and not mentioned elsewhere, is gone. -/
theorem not_mem_of_deleted {visible v' : Finset ℕ} {cs : List JoinChange} {id : Nat}
    (h : replay visible cs = some v') (hnodup : (mentioned cs).Nodup) (hid : .deleted id ∈ cs) :
    id ∉ v' := by
  induction cs generalizing visible with
  | nil => simp at hid
  | cons c cs ih =>
    obtain ⟨v, hv, hrest⟩ := replay_cons_eq_some.1 h
    rw [mentioned_cons, List.nodup_cons] at hnodup
    rcases List.mem_cons.1 hid with rfl | hid
    · have hnot : id ∉ mentioned cs := hnodup.1
      rw [mem_of_replay hrest hnot]
      simp only [applyTo, Option.ite_none_right_eq_some, Option.some.injEq] at hv
      rw [← hv.2]
      exact Finset.notMem_erase _ _
    · exact ih hrest hnodup.2 hid

/-- Every row that is added takes the smallest identifier that is absent at its turn. -/
def Frugal (visible : Finset ℕ) (changes : List JoinChange) : Prop :=
  ∀ earlier id later, changes = earlier ++ added id :: later →
    ∃ v, replay visible earlier = some v ∧ IsLeast {n | n ∉ v} id

theorem frugal_nil (visible : Finset ℕ) : Frugal visible [] := by
  intro earlier id later h
  simp at h

/-- A single change that adds nothing, or the smallest absent identifier. -/
theorem frugal_singleton {visible : Finset ℕ} {c : JoinChange}
    (h : ∀ id, c = added id → IsLeast {n | n ∉ visible} id) : Frugal visible [c] := by
  intro earlier id later heq
  obtain ⟨rfl, hc⟩ : earlier = [] ∧ c = added id := by
    rcases earlier with - | ⟨d, ds⟩
    · exact ⟨rfl, (List.cons.inj heq).1⟩
    · simp at heq
  exact ⟨visible, rfl, h id hc⟩

theorem Frugal.append {visible mid : Finset ℕ} {cs cs' : List JoinChange} (h : Frugal visible cs)
    (hmid : replay visible cs = some mid) (h' : Frugal mid cs') : Frugal visible (cs ++ cs') := by
  intro earlier id later heq
  rcases List.append_eq_append_iff.1 heq with ⟨as, rfl, hcs'⟩ | ⟨bs, hcs, hlater⟩
  · obtain ⟨v, hv, hleast⟩ := h' as id later hcs'
    exact ⟨v, by rw [replay_append, hmid]; exact hv, hleast⟩
  · rcases bs with - | ⟨b, bs⟩
    · rw [List.append_nil] at hcs
      subst hcs
      obtain ⟨v, hv, hleast⟩ := h' [] id later hlater.symm
      exact ⟨v, by rw [hmid]; exact hv, hleast⟩
    · obtain ⟨rfl, rfl⟩ := List.cons.inj hlater
      exact h earlier id bs hcs

end JoinChange

open JoinChange

/-- What changes do to the identifiers: they lead from rows held to rows held, and whatever they add
takes the smallest identifier absent at its turn. -/
structure Scripted (held : List Nat) (changes : List JoinChange) (ids : RowIds) (held' : List Nat) :
    Prop where
  holds : ids.Holds held'
  replay : replay held.toFinset changes = some held'.toFinset
  frugal : Frugal held.toFinset changes

namespace Scripted

variable {ids ids' : RowIds} {held held' held'' : List Nat} {cs cs' : List JoinChange}

theorem nil (h : ids.Holds held) : Scripted held [] ids held := ⟨h, rfl, frugal_nil _⟩

theorem append (h : Scripted held cs ids held') (h' : Scripted held' cs' ids' held'') :
    Scripted held (cs ++ cs') ids' held'' where
  holds := h'.holds
  replay := by rw [replay_append, h.replay]; exact h'.replay
  frugal := h.frugal.append h.replay h'.frugal

theorem perm_left (h : Scripted held cs ids held') (hp : held.Perm held'') :
    Scripted held'' cs ids held' := by
  have heq : held.toFinset = held''.toFinset := List.toFinset_eq_of_perm _ _ hp
  exact ⟨h.holds, heq ▸ h.replay, heq ▸ h.frugal⟩

theorem perm_right (h : Scripted held cs ids held') (hp : held'.Perm held'') :
    Scripted held cs ids held'' :=
  ⟨h.holds.perm hp, (List.toFinset_eq_of_perm _ _ hp) ▸ h.replay, h.frugal⟩

end Scripted

/-! ## Edit scripts -/

/-- What changes tell about two states of a join, given the joined rows and what stands in them before and after. -/
structure EditScript (rows rows' : List Nat) (source source' : Side → Nat → Option Nat) (side : Side)
    (changes : List JoinChange) : Prop where
  replay : replay rows.toFinset changes = some rows'.toFinset
  frame : ∀ id ∉ mentioned changes, ∀ s, source' s id = source s id
  updated : ∀ id s, .updated id s ∈ changes → s = side ∧ id ∈ rows ∧ id ∈ rows' ∧
    source' s id ≠ source s id ∧ source' s.other id = source s.other id
  once : ∀ id, (changes.filter (·.row = id)).length ≤ 1 ∨
    changes.filter (·.row = id) = [.deleted id, .added id]

namespace EditScript

variable {rows rows' : List Nat} {source source' : Side → Nat → Option Nat} {side : Side}
  {changes before after : List JoinChange} {k : Nat}

/-- Nothing happens. -/
theorem refl (rows : List Nat) (source : Side → Nat → Option Nat) (side : Side) :
    EditScript rows rows source source side [] :=
  ⟨rfl, by simp, by simp, by simp⟩

variable (h : EditScript rows rows' source source' side changes)

include h

/-- Two changes of one joined row are a deletion and an addition. -/
theorem pairwise : changes.Pairwise fun c d =>
    c.row = d.row → c = .deleted c.row ∧ d = .added c.row := by
  rw [List.pairwise_iff_forall_sublist]
  intro c d hsub hrow
  have hfilter : [c, d].Sublist (changes.filter (·.row = c.row)) := by
    have hboth : [c, d].filter (·.row = c.row) = [c, d] := by simp [hrow]
    have hsub' := hsub.filter (·.row = c.row)
    rwa [hboth] at hsub'
  rcases h.once c.row with hone | htwo
  · have hlength := hfilter.length_le
    simp only [List.length_cons, List.length_nil] at hlength
    omega
  · rw [htwo] at hfilter
    have heq := hfilter.eq_of_length rfl
    simp only [List.cons.injEq, and_true] at heq
    exact heq

/-- A joined row that is mentioned again is first deleted and then added. -/
theorem mentioned_again {c : JoinChange} (hsplit : changes = before ++ c :: after) (hmem : c.row ∈ mentioned after) :
    c = .deleted c.row ∧ .added c.row ∈ after := by
  obtain ⟨d, hd, hrow⟩ := mem_mentioned.1 hmem
  have hpair := h.pairwise
  rw [hsplit, List.pairwise_append] at hpair
  obtain ⟨hdeleted, rfl⟩ := (List.pairwise_cons.1 hpair.2.1).1 d hd hrow.symm
  exact ⟨hdeleted, hd⟩

/-- After an addition or an update a joined row is not mentioned again. -/
theorem not_mem_after {c : JoinChange} (hc : c ≠ .deleted c.row)
    (hsplit : changes = before ++ c :: after) : c.row ∉ mentioned after :=
  fun hmem => hc (h.mentioned_again hsplit hmem).1

/-- The rows at the moment of a change. -/
theorem exists_replay {c : JoinChange} (hsplit : changes = before ++ c :: after) :
    ∃ v v', JoinChange.replay rows.toFinset before = some v ∧ c.applyTo v = some v' ∧
      JoinChange.replay v' after = some rows'.toFinset := by
  have hreplay := h.replay
  rw [hsplit, replay_append, Option.bind_eq_some_iff] at hreplay
  obtain ⟨v, hv, hrest⟩ := hreplay
  obtain ⟨v', hv', hafter⟩ := replay_cons_eq_some.1 hrest
  exact ⟨v, v', hv, hv', hafter⟩

/-- A joined row that is added is there afterwards. -/
theorem mem_of_added (hk : .added k ∈ changes) : k ∈ rows' := by
  obtain ⟨before, after, hsplit⟩ := List.append_of_mem hk
  obtain ⟨v, v', -, happly, hafter⟩ := h.exists_replay hsplit
  have hnot : k ∉ mentioned after := h.not_mem_after (c := .added k) (by simp) hsplit
  rw [← List.mem_toFinset, mem_of_replay hafter hnot]
  simp only [applyTo, Option.ite_none_left_eq_some, Option.some.injEq] at happly
  rw [← happly.2]
  exact Finset.mem_insert_self _ _

/-- A joined row that is added was not there, unless it was deleted before. -/
theorem not_mem_of_added (hk : .added k ∈ changes) (hdeleted : .deleted k ∉ changes) : k ∉ rows := by
  obtain ⟨before, after, hsplit⟩ := List.append_of_mem hk
  obtain ⟨v, v', hbefore, happly, -⟩ := h.exists_replay hsplit
  have hnot : k ∉ mentioned before := by
    intro hmem
    obtain ⟨d, hd, rfl⟩ := mem_mentioned.1 hmem
    have hpair := h.pairwise
    rw [hsplit, List.pairwise_append] at hpair
    have hfirst := (hpair.2.2 d hd _ List.mem_cons_self rfl).1
    rw [hsplit, ← hfirst] at hdeleted
    exact hdeleted (List.mem_append_left _ hd)
  rw [← List.mem_toFinset, ← mem_of_replay hbefore hnot]
  simp only [applyTo, Option.ite_none_left_eq_some] at happly
  exact happly.1

/-- A joined row that is deleted and there afterwards is added later. -/
theorem added_after (hsplit : changes = before ++ .deleted k :: after) (hk : k ∈ rows') :
    .added k ∈ after := by
  obtain ⟨v, v', -, happly, hafter⟩ := h.exists_replay hsplit
  by_contra hadded
  have hnot : k ∉ mentioned after := fun hmem => hadded (h.mentioned_again (c := .deleted k) hsplit hmem).2
  rw [← List.mem_toFinset, mem_of_replay hafter hnot] at hk
  simp only [applyTo, Option.ite_none_right_eq_some, Option.some.injEq] at happly
  rw [← happly.2] at hk
  exact Finset.notMem_erase _ _ hk

/-- A joined row that comes is added. -/
theorem added_of_mem (hk : k ∈ rows') (hold : k ∉ rows) : .added k ∈ changes := by
  by_cases hmem : k ∈ mentioned changes
  · obtain ⟨c, hc, hrow⟩ := mem_mentioned.1 hmem
    cases c with
    | added n =>
      obtain rfl : n = k := hrow
      exact hc
    | updated n s =>
      obtain rfl : n = k := hrow
      exact absurd (h.updated n s hc).2.1 hold
    | deleted n =>
      obtain rfl : n = k := hrow
      obtain ⟨before, after, hsplit⟩ := List.append_of_mem hc
      rw [hsplit]
      exact List.mem_append_right _ (List.mem_cons_of_mem _ (h.added_after hsplit hk))
  · rw [← List.mem_toFinset, mem_of_replay h.replay hmem, List.mem_toFinset] at hk
    exact absurd hk hold

/-- A joined row that goes is deleted. -/
theorem deleted_of_mem (hold : k ∈ rows) (hk : k ∉ rows') : .deleted k ∈ changes := by
  by_cases hmem : k ∈ mentioned changes
  · obtain ⟨c, hc, hrow⟩ := mem_mentioned.1 hmem
    cases c with
    | added n =>
      obtain rfl : n = k := hrow
      exact absurd (h.mem_of_added hc) hk
    | updated n s =>
      obtain rfl : n = k := hrow
      exact absurd (h.updated n s hc).2.2.1 hk
    | deleted n =>
      obtain rfl : n = k := hrow
      exact hc
  · rw [← List.mem_toFinset, mem_of_replay h.replay hmem, List.mem_toFinset] at hk
    exact absurd hold hk

theorem mem_iff_of_not_mentioned (hk : k ∉ mentioned changes) : k ∈ rows' ↔ k ∈ rows := by
  have hiff := mem_of_replay h.replay hk
  rwa [List.mem_toFinset, List.mem_toFinset] at hiff

end EditScript

end LiveTables
