import LiveTables.Proofs.Join.EditScript

/-!
# What a call leaves behind

Readers of a joined table go by the changes of a call. So the changes have to account for the rows that come
and go (`EditScript.added_of_mem`, `EditScript.deleted_of_mem`), and a joined row has to be mentioned if a
row that stands in it got another key (`Outcome.stands`). What is mentioned stands, on the side of the call,
on the row of the call or on none (`Outcome.lands`).
-/

namespace LiveTables

open JoinChange

namespace Matching

variable {m m' : Matching} {side : Side} {changes : List JoinChange} {k row : Nat}

/-! ## The row of the call -/

theorem mem_rows_of_sourceRow? (hrow : m.sourceRow? side k = some row) : k ∈ m.rows := by
  by_contra hdead
  rw [sourceRow?_eq_none hdead] at hrow
  exact absurd hrow (by simp)

/-- A row that stands in a joined row is linked. -/
theorem Sound.keyClass?_ne_none (h : m.Sound) (hrow : m.sourceRow? side k = some row) :
    m.keyClass? side row ≠ none := by
  obtain ⟨p, hp, hid⟩ := mem_rows.1 (mem_rows_of_sourceRow? hrow)
  rw [h.sourceRow?_eq hp hid] at hrow
  have hsits := (Match.sits_of_some hrow).1 ((h.exact.stands p hp).sits side)
  simp [hsits]

/-- The joined rows of a row that is no longer linked are mentioned. -/
theorem Moves.mentioned_of_unlinked {lands : Option Nat} {touched : Match → Prop}
    (hm : m.Moves lands side touched row none m' changes) (h : m.Sound)
    (hrow : m.sourceRow? side k = some row) : k ∈ mentioned changes := by
  by_contra hnot
  rw [← hm.frame h hnot] at hrow
  have hlinked := hm.sound.keyClass?_ne_none hrow
  rw [hm.classes, Match.relabel_self] at hlinked
  exact hlinked rfl

theorem Moves.lands_of_mentioned {lands : Option Nat} {touched : Match → Prop} {s : Side}
    {g : Option Value} (hm : m.Moves lands side touched row g m' changes)
    (hk : .added k ∈ changes ∨ .updated k s ∈ changes) : m'.sourceRow? side k = lands := by
  obtain ⟨p', hp', hid, hlands⟩ := hm.transits.lands_of_mentioned hk
  rw [hm.sound.sourceRow?_eq hp' hid, hlands]

section Performs

variable {c : JoinCall} (hp : m.Performs c m' changes) (h : m.Sound)

include hp h

/-- If the row of a call got another key, the joined rows in which it stood are mentioned. -/
theorem Performs.mentioned_of_relabeled (hdiffers : m'.keyClass? c.side c.row ≠ m.keyClass? c.side c.row)
    (hrow : m.sourceRow? c.side k = some c.row) : k ∈ mentioned changes := by
  cases hp with
  | idle => exact absurd rfl hdiffers
  | attach free _ => exact absurd free (h.keyClass?_ne_none hrow)
  | detach _ moves => exact moves.mentioned_of_unlinked h hrow
  | move _ _ leaves _ =>
    rw [mentioned_append]
    exact List.mem_append_left _ (leaves.mentioned_of_unlinked h hrow)

/-- What is mentioned and there stands, on the side of the call, on the row of the call or on none. -/
theorem Performs.lands_of_mentioned {s : Side} (hk : .added k ∈ changes ∨ .updated k s ∈ changes) :
    m'.sourceRow? c.side k = none ∨ m'.sourceRow? c.side k = some c.row := by
  cases hp with
  | idle => simp at hk
  | attach _ moves => exact .inr (moves.lands_of_mentioned hk)
  | detach _ moves => exact .inl (moves.lands_of_mentioned hk)
  | move linked differs leaves arrives =>
    simp only [List.mem_append] at hk
    rcases hk with (hgone | hcome) | (hgone | hcome)
    · exact absurd rfl (leaves.transits.of_mem_added hgone).1
    · exact .inr (arrives.lands_of_mentioned (s := s) (.inl hcome))
    · -- what the row leaves is not touched when it arrives
      have hnot := not_mentioned_of_updated h linked differs leaves arrives hgone
      have hlands : _ = none := leaves.lands_of_mentioned (.inr hgone)
      exact .inl ((arrives.frame leaves.sound hnot _).trans hlands)
    · exact .inr (arrives.lands_of_mentioned (.inr hcome))

end Performs

end Matching

namespace JoinEngine

variable {e : JoinEngine} {side : Side} {k row : Nat}

/-- A row that stands in a joined row is linked. -/
theorem Sound.keyClass?_ne_none (h : e.Sound) (hrow : e.sourceRow? side k = some row) :
    e.keyClass? side row ≠ none := by
  obtain ⟨m, hrepresents, hm⟩ := h
  rw [hrepresents.sourceRow? hm] at hrow
  rw [hrepresents.keyClass?]
  exact hm.keyClass?_ne_none hrow

/-- What a call on a row of a side does to the engine, for its readers. -/
structure Outcome (e : JoinEngine) (side : Side) (row : Nat) (e' : JoinEngine)
    (changes : List JoinChange) : Prop where
  sound : e'.Sound
  script : e.EditScript e' side changes
  classes : ∀ s x, s ≠ side ∨ x ≠ row → e'.keyClass? s x = e.keyClass? s x
  stands : e'.keyClass? side row ≠ e.keyClass? side row → ∀ k, e.sourceRow? side k = some row →
    k ∈ mentioned changes
  lands : ∀ k s, .added k ∈ changes ∨ .updated k s ∈ changes →
    e'.sourceRow? side k = none ∨ e'.sourceRow? side k = some row

/-- A call on a row has an outcome as readers expect it. -/
theorem Sound.outcome (h : e.Sound) (c : JoinCall) : e.Outcome c.side c.row (e.perform c).1 (e.perform c).2 where
  sound := h.perform c
  script := h.editScript c
  classes s x hother := by
    rw [h.classes_perform, Match.relabel, if_neg]
    rintro ⟨rfl, rfl⟩
    exact hother.elim (fun hne => hne rfl) fun hne => hne rfl
  stands hdiffers k hrow := by
    obtain ⟨m, hrepresents, hm⟩ := h
    obtain ⟨hrepresents', hchanges⟩ := hrepresents.perform hm c
    rw [hrepresents.keyClass?, hrepresents'.keyClass?] at hdiffers
    rw [hrepresents.sourceRow? hm] at hrow
    rw [hchanges]
    exact (hm.performs c).mentioned_of_relabeled hm hdiffers hrow
  lands k s hk := by
    obtain ⟨m, hrepresents, hm⟩ := h
    obtain ⟨hrepresents', hchanges⟩ := hrepresents.perform hm c
    rw [hchanges] at hk
    rw [hrepresents'.sourceRow? ((hm.performs c).sound hm)]
    exact (hm.performs c).lands_of_mentioned hm hk

/-- Doing nothing. -/
theorem Outcome.refl (h : e.Sound) (side : Side) (row : Nat) : e.Outcome side row e [] where
  sound := h
  script := .refl _ _ side
  classes _ _ _ := rfl
  stands hdiffers := absurd rfl hdiffers
  lands k s hk := by simp at hk

end JoinEngine

end LiveTables
