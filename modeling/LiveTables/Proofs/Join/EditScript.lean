import LiveTables.Proofs.Join.Contents

/-!
# The changes of a call

The changes that a call reports are an exact edit script of the joined rows (`Matching.EditScript`):
they can be replayed, what they do not mention stays as it is, an update tells that the row of the call's
side changed and no other, and no joined row is mentioned twice, unless it is deleted and then added.
The last happens only when a row moves to another key: the identifiers that it frees in one group are
taken again in another.
-/

namespace LiveTables

open JoinChange

namespace Matching

/-- The changes are an edit script from what one matching shows to what another one does. -/
abbrev EditScript (m m' : Matching) (side : Side) (changes : List JoinChange) : Prop :=
  LiveTables.EditScript m.rows m'.rows m.sourceRow? m'.sourceRow? side changes

variable {m m' : Matching} {lands : Option Nat} {side : Side} {touched : Match → Prop} {source : Nat}
  {g : Option Value} {changes : List JoinChange} {id : Nat}

theorem sourceRow?_eq_none (h : id ∉ m.rows) (s : Side) : m.sourceRow? s id = none := by
  have hnone : m.pairing? id = none := by
    rw [pairing?, List.find?_eq_none]
    intro p hp
    simpa using fun hrow => h (mem_rows.2 ⟨p, hp, hrow⟩)
  rw [sourceRow?, hnone, Option.bind_none]

/-! ## One pass -/

theorem Moves.scripted (hm : m.Moves lands side touched source g m' changes) (h : m.Sound) :
    Scripted (Match.rows m.pairings) changes m'.ids (Match.rows m'.pairings) :=
  hm.transits.scripted_rows h.ids

theorem Moves.replay (hm : m.Moves lands side touched source g m' changes) (h : m.Sound) :
    JoinChange.replay m.rows.toFinset changes = some m'.rows.toFinset := by
  rw [toFinset_rows, toFinset_rows]
  exact (hm.scripted h).replay

theorem Moves.nodup_mentioned (hm : m.Moves lands side touched source g m' changes) (h : m.Sound) :
    (mentioned changes).Nodup := by
  have hids : m.ids.Holds (Match.rows m.pairings ++ []) := by simpa using h.ids
  exact (hm.transits.nodup_rows hids).1

/-- A row that is added was not there. -/
theorem Moves.not_mem_of_added (hm : m.Moves lands side touched source g m' changes) (h : m.Sound)
    (hid : .added id ∈ changes) : id ∉ m.rows := by
  have hids : m.ids.Holds (Match.rows m.pairings ++ []) := by simpa using h.ids
  have hnot := hm.transits.not_mem_of_added hids hid
  rwa [List.append_nil, ← List.mem_toFinset, ← toFinset_rows, List.mem_toFinset] at hnot

/-- What is not mentioned stays as it is. -/
theorem Moves.frame (hm : m.Moves lands side touched source g m' changes) (h : m.Sound)
    (hid : id ∉ mentioned changes) (s : Side) : m'.sourceRow? s id = m.sourceRow? s id := by
  by_cases hmem : id ∈ m.rows
  · obtain ⟨p, hp, hrow⟩ := mem_rows.1 hmem
    have hp' := hm.transits.mem_of_not_mentioned hp hrow hid
    rw [hm.sound.sourceRow?_eq hp' hrow, h.sourceRow?_eq hp hrow]
  · have hmem' : id ∉ m'.rows := by
      rw [← List.mem_toFinset] at hmem ⊢
      rwa [mem_of_replay (hm.replay h) hid]
    rw [sourceRow?_eq_none hmem', sourceRow?_eq_none hmem]

/-- A row that is updated is there before and after, with another row on the side of the call. -/
theorem Moves.updated {s : Side} (hm : m.Moves lands side touched source g m' changes) (h : m.Sound)
    (hid : .updated id s ∈ changes) : s = side ∧ id ∈ m.rows ∧ id ∈ m'.rows ∧
      m'.sourceRow? s id ≠ m.sourceRow? s id ∧ m'.sourceRow? s.other id = m.sourceRow? s.other id := by
  obtain ⟨rfl, p, hp, p', hp', -, hrow, hrow', -, hthere, hhere, hmoved⟩ :=
    hm.transits.of_mem_updated hid
  rw [hm.sound.sourceRow?_eq hp' hrow', hm.sound.sourceRow?_eq hp' hrow', h.sourceRow?_eq hp hrow,
    h.sourceRow?_eq hp hrow]
  have hdiffers : p'.on s ≠ p.on s := hhere ▸ hmoved.symm
  exact ⟨rfl, mem_rows.2 ⟨p, hp, hrow⟩, mem_rows.2 ⟨p', hp', hrow'⟩, hdiffers, hthere⟩

theorem length_filter_row_le (h : (mentioned changes).Nodup) (id : Nat) :
    (changes.filter (·.row = id)).length ≤ 1 := by
  have hcount := List.nodup_iff_count_le_one.1 h id
  rw [mentioned, List.count, List.countP_map, List.countP_eq_length_filter] at hcount
  simpa [Function.comp_def, Bool.beq_eq_decide_eq] using hcount

theorem Moves.editScript (hm : m.Moves lands side touched source g m' changes) (h : m.Sound) :
    m.EditScript m' side changes where
  replay := hm.replay h
  frame _ hid := hm.frame h hid
  updated _ _ hid := hm.updated h hid
  once id := .inl (length_filter_row_le (hm.nodup_mentioned h) id)

/-! ## A row that moves -/

section Move

variable {m₁ : Matching} {row : Nat} {key : Value} {k : Value} {gone come : List JoinChange}

/-- What a row leaves is in another group than where it arrives, so a joined row that outlives its
leaving is not touched by its arrival. -/
theorem not_mentioned_of_updated (h : m.Sound) (hlinked : m.keyClass? side row = some k)
    (hdiffers : k ≠ key.canonical)
    (hleaves : m.Moves none side (·.on side = some row) row none m₁ gone)
    (harrives : m₁.Moves (some row) side (·.key.same key) row (some key.canonical) m' come)
    {s : Side} (hid : .updated id s ∈ gone) : id ∉ mentioned come := by
  obtain ⟨rfl, p, hp, p', hp', hon, hrow, hrow', hkey, -⟩ := hleaves.transits.of_mem_updated hid
  have hclass : p'.key.canonical = k := by
    have hsits := (Match.sits_of_some hon).1 ((h.exact.stands p hp).sits s)
    rw [hkey]
    exact Option.some.inj (hsits.symm.trans hlinked)
  intro hmem
  obtain ⟨c, hc, hcrow⟩ := mem_mentioned.1 hmem
  cases c with
  | added n =>
    obtain rfl : n = id := hcrow
    exact harrives.not_mem_of_added hleaves.sound hc (mem_rows.2 ⟨p', hp', hrow'⟩)
  | updated n t =>
    obtain rfl : n = id := hcrow
    obtain ⟨-, q, hq, -, -, hsame, hqrow, -⟩ := harrives.transits.of_mem_updated hc
    obtain rfl := Match.eq_of_row_eq hleaves.sound.nodup_rows hp' hq hrow' hqrow
    exact hdiffers (hclass.symm.trans (Value.same_iff.1 hsame))
  | deleted n => exact absurd (harrives.transits.of_mem_deleted hc).1 (by simp)

/-- A joined row that an arrival updates was not mentioned before. -/
theorem not_mentioned_of_updated_later (h : m.Sound) (hlinked : m.keyClass? side row = some k)
    (hdiffers : k ≠ key.canonical)
    (hleaves : m.Moves none side (·.on side = some row) row none m₁ gone)
    (harrives : m₁.Moves (some row) side (·.key.same key) row (some key.canonical) m' come)
    {s : Side} (hid : .updated id s ∈ come) : id ∉ mentioned gone := by
  obtain ⟨-, hmem, -⟩ := harrives.updated hleaves.sound hid
  intro hgone
  obtain ⟨c, hc, hcrow⟩ := mem_mentioned.1 hgone
  cases c with
  | added n => exact absurd rfl (hleaves.transits.of_mem_added hc).1
  | updated n t =>
    obtain rfl : n = id := hcrow
    exact not_mentioned_of_updated h hlinked hdiffers hleaves harrives hc
      (mem_mentioned.2 ⟨_, hid, rfl⟩)
  | deleted n =>
    obtain rfl : n = id := hcrow
    have hnot := not_mem_of_deleted (hleaves.replay h) (hleaves.nodup_mentioned h) hc
    exact hnot (List.mem_toFinset.2 hmem)

/-- Only a joined row that was deleted is mentioned again, when it is added. -/
theorem once_of_move (h : m.Sound) (hlinked : m.keyClass? side row = some k)
    (hdiffers : k ≠ key.canonical)
    (hleaves : m.Moves none side (·.on side = some row) row none m₁ gone)
    (harrives : m₁.Moves (some row) side (·.key.same key) row (some key.canonical) m' come) (id : Nat) :
    ((gone ++ come).filter (·.row = id)).length ≤ 1 ∨
      (gone ++ come).filter (·.row = id) = [.deleted id, .added id] := by
  have hgone := length_filter_row_le (hleaves.nodup_mentioned h) id
  have hcome := length_filter_row_le (harrives.nodup_mentioned hleaves.sound) id
  rw [List.filter_append]
  rcases hg : gone.filter (·.row = id) with - | ⟨c, cs⟩
  · rw [hg, List.nil_append]
    exact .inl hcome
  rcases hc : come.filter (·.row = id) with - | ⟨d, ds⟩
  · rw [hc, List.append_nil]
    exact .inl hgone
  -- it is mentioned once on the way out, and once on the way in
  right
  rw [hg, hc]
  obtain rfl : cs = [] := List.eq_nil_of_length_eq_zero (by rw [hg] at hgone; simpa using hgone)
  obtain rfl : ds = [] := List.eq_nil_of_length_eq_zero (by rw [hc] at hcome; simpa using hcome)
  obtain ⟨hcmem, hcrow⟩ : c ∈ gone ∧ c.row = id := by
    simpa using List.mem_filter.1 (hg ▸ List.mem_cons_self : c ∈ gone.filter (·.row = id))
  obtain ⟨hdmem, hdrow⟩ : d ∈ come ∧ d.row = id := by
    simpa using List.mem_filter.1 (hc ▸ List.mem_cons_self : d ∈ come.filter (·.row = id))
  have hmentioned : id ∈ mentioned come := mem_mentioned.2 ⟨d, hdmem, hdrow⟩
  cases c with
  | added n => exact absurd rfl (hleaves.transits.of_mem_added hcmem).1
  | updated n s =>
    obtain rfl : n = id := hcrow
    exact absurd hmentioned (not_mentioned_of_updated h hlinked hdiffers hleaves harrives hcmem)
  | deleted n =>
    obtain rfl : n = id := hcrow
    cases d with
    | added n' =>
      obtain rfl : n' = n := hdrow
      rfl
    | updated n' s =>
      obtain rfl : n' = n := hdrow
      exact absurd (mem_mentioned.2 ⟨_, hcmem, rfl⟩)
        (not_mentioned_of_updated_later h hlinked hdiffers hleaves harrives hdmem)
    | deleted _ => exact absurd (harrives.transits.of_mem_deleted hdmem).1 (by simp)

end Move

/-- The changes of a call are an edit script. -/
theorem Performs.editScript {c : JoinCall} (hp : m.Performs c m' changes) (h : m.Sound) :
    m.EditScript m' c.side changes := by
  cases hp with
  | idle => exact ⟨rfl, by simp, by simp, by simp⟩
  | attach _ moves => exact moves.editScript h
  | detach _ moves => exact moves.editScript h
  | move linked differs leaves arrives =>
    refine ⟨?_, fun id hid s => ?_, fun id s hid => ?_, once_of_move h linked differs leaves arrives⟩
    · rw [replay_append, leaves.replay h, Option.bind_some]
      exact arrives.replay leaves.sound
    · rw [mentioned_append, List.mem_append, not_or] at hid
      rw [arrives.frame leaves.sound hid.2, leaves.frame h hid.1]
    · rcases List.mem_append.1 hid with hgone | hcome
      · -- what was updated while the row left is not mentioned any more when it arrives
        have hframe := arrives.frame leaves.sound
          (not_mentioned_of_updated h linked differs leaves arrives hgone)
        obtain ⟨hs, hmem, hmem₁, hhere, hthere⟩ := leaves.updated h hgone
        refine ⟨hs, hmem, ?_, ?_, ?_⟩
        · have hiff := mem_of_replay (arrives.replay leaves.sound)
            (not_mentioned_of_updated h linked differs leaves arrives hgone)
          simpa using hiff.2 (List.mem_toFinset.2 hmem₁)
        · rwa [hframe]
        · rwa [hframe]
      · -- and the other way round
        have hnot := not_mentioned_of_updated_later h linked differs leaves arrives hcome
        have hframe := leaves.frame h hnot
        obtain ⟨hs, hmem₁, hmem', hhere, hthere⟩ := arrives.updated leaves.sound hcome
        refine ⟨hs, ?_, hmem', ?_, ?_⟩
        · have hiff := mem_of_replay (leaves.replay h) hnot
          simpa using hiff.1 (List.mem_toFinset.2 hmem₁)
        · rwa [← hframe]
        · rwa [← hframe]

end Matching

namespace JoinEngine

variable {e : JoinEngine} {c : JoinCall}

/-- The changes are an edit script from what one engine shows to what another one does. -/
abbrev EditScript (e e' : JoinEngine) (side : Side) (changes : List JoinChange) : Prop :=
  LiveTables.EditScript e.rows e'.rows e.sourceRow? e'.sourceRow? side changes

/-- The changes that an engine reports are an edit script. -/
theorem Sound.editScript (h : e.Sound) (c : JoinCall) : e.EditScript (e.perform c).1 c.side (e.perform c).2 := by
  obtain ⟨m, hrepresents, hm⟩ := h
  obtain ⟨hrepresents', hchanges⟩ := hrepresents.perform hm c
  have hperforms := hm.performs c
  rw [EditScript, hrepresents.rows, hrepresents.sourceRow? hm, hrepresents'.rows,
    hrepresents'.sourceRow? (hperforms.sound hm), hchanges]
  exact hperforms.editScript hm

/-- A call that asks for what is so already: a row is to be linked under a key that is the same as its
own, or a row is to be unlinked that is not linked. -/
def Ignores (e : JoinEngine) : JoinCall → Prop
  | .link side row key => ∃ k, e.key? side row = some k ∧ k.same key = true
  | .unlink side row => e.key? side row = none

theorem perform_of_ignores (h : e.Ignores c) : e.perform c = (e, []) := by
  cases c with
  | link side row key =>
    obtain ⟨k, hk, hsame⟩ := h
    simp only [perform, link, hk, if_pos hsame]
  | unlink side row =>
    have hfree : e.key? side row = none := h
    simp only [perform, unlink, unlinkInto, hfree]

end JoinEngine

/-- In every state that a join engine can reach, the changes that a call reports are an edit script from
the joined rows before to those after, and a call that asks for what is so already reports none. -/
theorem changes_exact (kind : JoinKind) (calls : List JoinCall) (c : JoinCall) :
    let e := JoinEngine.run kind calls
    let e' := (e.perform c).1
    let changes := (e.perform c).2
    replay e.rows.toFinset changes = some e'.rows.toFinset ∧
    (∀ id ∉ mentioned changes, ∀ s, e'.sourceRow? s id = e.sourceRow? s id) ∧
    (∀ id s, .updated id s ∈ changes → s = c.side ∧ id ∈ e.rows ∧ id ∈ e'.rows ∧
      e'.sourceRow? s id ≠ e.sourceRow? s id ∧ e'.sourceRow? s.other id = e.sourceRow? s.other id) ∧
    (∀ id, (changes.filter (·.row = id)).length ≤ 1 ∨
      changes.filter (·.row = id) = [.deleted id, .added id]) ∧
    (e.Ignores c → changes = []) := by
  have hscript := (JoinEngine.sound_run kind calls).editScript c
  refine ⟨hscript.replay, hscript.frame, hscript.updated, hscript.once, fun hignores => ?_⟩
  rw [JoinEngine.perform_of_ignores hignores]

end LiveTables
