import LiveTables.Proofs.Join.Groups
import LiveTables.Proofs.Join.Reading

/-!
# Engines and matchings

A join engine looks at one group to link or unlink a row, where a matching goes through all its pairings. As long as
the matching is sound, both do the same: an engine that represents a matching (`JoinEngine.Represents`) represents it
again after a row was linked or unlinked, and reports the same changes (`Represents.link`, `Represents.unlink`).
-/

open scoped List

namespace LiveTables

open Numbered

/-! ## Changes made before -/

namespace Matching

variable {kind : JoinKind} {side : Side} {key : Value} {source : Nat}

/-- Progress that began with some changes. -/
def Progress.after (before : List JoinChange) (s : Progress) : Progress := { s with changes := before ++ s.changes }

variable (before : List JoinChange) (s : Progress)

theorem settle_after (p : Match) :
    settle kind side (s.after before) p = ((settle kind side s p).1.after before, (settle kind side s p).2) := by
  simp only [settle, Progress.after]
  rcases p.row with - | id <;> rcases kind.isVisible p.left.isSome p.right.isSome with - | - <;>
    simp [List.append_assoc]

theorem createAll_after (others : List (Option Nat)) :
    createAll kind side key source (s.after before) others =
      ((createAll kind side key source s others).1.after before, (createAll kind side key source s others).2) := by
  induction others generalizing s with
  | nil => rfl
  | cons other others ih => simp only [createAll, settle_after, ih]

theorem revise_fill_after (ps : List Match) :
    revise (fill kind side key source) (s.after before) ps =
      ((revise (fill kind side key source) s ps).1.after before, (revise (fill kind side key source) s ps).2) := by
  have hfill (s : Progress) (p : Match) : fill kind side key source (s.after before) (id p) =
      ((fill kind side key source s p).1.after before, (fill kind side key source s p).2.map id) := by
    simp only [fill, settle_after, id]
    split_ifs <;> rfl
  have hrevise := revise_map (·.after before) id hfill s ps
  simpa using hrevise

end Matching

namespace JoinEngine

variable {e : JoinEngine} {m : Matching} {side : Side} {source : Nat} {key : Value} {t : Numbered}

/-- An engine keeps what a matching consists of, and nothing else. -/
structure Represents (e : JoinEngine) (m : Matching) : Prop where
  kind : e.kind = m.kind
  keys : ∀ side, e.keys side = m.links side
  ids : e.ids = m.ids
  stored : ∃ t : Numbered, e.Stored t ∧ t.map (·.2) = m.pairings

/-! ## Linking -/

/-- The engine with the row in the group of its key, before it is paired. -/
def enlist (e : JoinEngine) (side : Side) (source : Nat) (key : Value) : JoinEngine :=
  (e.setKeys side (insertEntry (e.keys side) source key)).setGroup key
    ((e.groupOf key).setRows side ((e.groupOf key).rows side ++ [source]))

theorem insertEntry_of_not_mem {rows : Keyed} (h : rows.lookup source = none) :
    insertEntry rows source key = rows ++ [(source, key)] := by
  rw [insertEntry, List.filter_eq_self.2]
  intro x hx
  have hne : x.1 ≠ source := fun heq => lookup_eq_none_iff_not_mem.1 h (heq ▸ List.mem_map_of_mem hx)
  simpa using hne

theorem keys_enlist_self (hfree : e.key? side source = none) :
    (e.enlist side source key).keys side = e.keys side ++ [(source, key)] := by
  rw [enlist, keys_setGroup, ← insertEntry_of_not_mem hfree]
  cases side <;> rfl

theorem keys_enlist_other : (e.enlist side source key).keys side.other = e.keys side.other := by
  rw [enlist, keys_setGroup]
  cases side <;> rfl

theorem groupOf_enlist_ne_none (e : JoinEngine) : (e.enlist side source key).group? key ≠ none := by
  rw [enlist, group?_setGroup, if_pos rfl]
  exact Option.some_ne_none _

theorem Stored.enlist (h : e.Stored t) (hfree : e.key? side source = none) : (e.enlist side source key).Stored t := by
  have hunder (k : Value) : Keyed.under ((e.enlist side source key).keys side) k =
      Keyed.under (e.keys side) k ++ if k.canonical = key.canonical then [source] else [] := by
    rw [keys_enlist_self hfree, Keyed.under, List.filter_append, List.map_append, Keyed.under, List.filter_cons]
    simp only [Value.same_iff, List.filter_nil, eq_comm (a := k.canonical)]
    split_ifs <;> rfl
  have hother (k : Value) (hk : k.canonical ≠ key.canonical) (s : Side) :
      Keyed.under ((e.enlist side source key).keys s) k = Keyed.under (e.keys s) k := by
    rcases Side.eq_or_eq_other s side with rfl | rfl
    · rw [hunder, if_neg hk, List.append_nil]
    · rw [keys_enlist_other]
  have hgroup (k : Value) : (e.enlist side source key).groupOf k = if k.canonical = key.canonical then
      (e.groupOf key).setRows side ((e.groupOf key).rows side ++ [source]) else e.groupOf k := by
    rw [JoinEngine.enlist, groupOf_setGroup, groupOf_setKeys]
  refine ⟨(h.keeps.setKeys side _).setGroup key _, ?_, fun k hk => ?_⟩
  · refine h.indexes.of_groupOf (nodup_classes_setGroup (h.indexes.classes_setKeys side _) key _) hgroup ?_
      (fun s => ?_) fun k hk => ⟨rfl, hother k hk⟩
    · rw [RowGroup.pairings_setRows, h.indexes.pairings]
    · rcases Side.eq_or_eq_other s side with rfl | rfl
      · rw [RowGroup.rows_setRows_self, hunder, if_pos rfl, h.indexes.rows]
      · rw [RowGroup.rows_setRows_other, keys_enlist_other, h.indexes.rows]
  · by_cases hkey : k.canonical = key.canonical
    · refine ⟨side, ?_⟩
      rw [hunder, if_pos hkey]
      simp
    · rw [JoinEngine.enlist, group?_setGroup, if_neg hkey, group?_setKeys] at hk
      obtain ⟨s, hs⟩ := h.populated k hk
      exact ⟨s, by rwa [hother k hkey]⟩

/-- How a row is linked, told by the matching: it stands alone if there is no row of its key on the other side, takes
open sides if there is none on its own, and otherwise is paired with every row of the other side. -/
theorem linkInto_eq (hm : m.Sound) (hkeys : ∀ s, e.keys s = m.links s) (hstored : e.Stored t)
    (ht : t.map (·.2) = m.pairings) (hlisted : (e.enlist side source key).Stored t) (changes : List JoinChange) :
    e.linkInto side source key changes =
      if (m.rowsUnder side.other key).isEmpty then pairUp side source key (e.enlist side source key, changes) none
      else if (m.rowsUnder side key).isEmpty then
        (numbers (t.filter fun x => x.2.key.same key ∧ x.2.on side = none)).foldl (fill side source)
          (e.enlist side source key, changes)
      else ((m.rowsUnder side.other key).map some).foldl (pairUp side source key)
        (e.enlist side source key, changes) := by
  have hothers : ((e.groupOf key).setRows side ((e.groupOf key).rows side ++ [source])).rows side.other =
      m.rowsUnder side.other key := by
    rw [RowGroup.rows_setRows_other, hstored.indexes.rows, hkeys]
    rfl
  have hwaiting : ((e.groupOf key).setRows side ((e.groupOf key).rows side ++ [source])).pairings.filter
        (fun number => ((e.enlist side source key).pairing? number).any (·.on side = none)) =
      numbers (t.filter fun x => x.2.key.same key ∧ x.2.on side = none) := by
    rw [RowGroup.pairings_setRows, hstored.indexes.pairings, under, filter_numbers (·.2.on side = none)]
    · simp
    · intro x hx
      rw [hlisted.keeps.pairing?_of_mem hx, Option.any_some, Match.on_pairing]
  have hlink : e.linkInto side source key changes =
      if (m.rowsUnder side.other key).isEmpty then pairUp side source key (e.enlist side source key, changes) none
      else if !(numbers (t.filter fun x => x.2.key.same key ∧ x.2.on side = none)).isEmpty then
        (numbers (t.filter fun x => x.2.key.same key ∧ x.2.on side = none)).foldl (fill side source)
          (e.enlist side source key, changes)
      else ((m.rowsUnder side.other key).map some).foldl (pairUp side source key)
        (e.enlist side source key, changes) := by
    rw [← hothers, ← hwaiting]
    rfl
  rcases hnone : (m.rowsUnder side.other key).isEmpty with - | -
  · -- pairings wait exactly if the row is the first of its side
    have hfirst : (!(numbers (t.filter fun x => x.2.key.same key ∧ x.2.on side = none)).isEmpty) =
        (m.rowsUnder side key).isEmpty := by
      have hiff := hm.exists_waiting_iff (List.isEmpty_eq_false_iff.1 hnone)
      rw [← ht] at hiff
      rw [Bool.eq_iff_iff, List.isEmpty_iff, ← hiff, Bool.not_eq_true', List.isEmpty_eq_false_iff_exists_mem]
      simp only [numbers, List.mem_map, List.mem_filter, decide_eq_true_eq]
      constructor
      · rintro ⟨_, x, ⟨hx, hwaits⟩, -⟩
        exact ⟨x.2, ⟨x, hx, rfl⟩, hwaits⟩
      · rintro ⟨_, ⟨x, hx, rfl⟩, hwaits⟩
        exact ⟨x.1, x, ⟨hx, hwaits⟩, rfl⟩
    rw [hlink, hnone, hfirst]
  · rw [hlink, hnone, if_pos rfl, if_pos rfl]

/-- Linking a row that is not linked. -/
theorem Represents.linkInto (h : e.Represents m) (hm : m.Sound) (hfree : m.keyClass? side source = none)
    (key : Value) (changes : List JoinChange) :
    (e.linkInto side source key changes).1.Represents (m.attach side source key).1 ∧
      (e.linkInto side source key changes).2 = changes ++ (m.attach side source key).2 := by
  obtain ⟨t, hstored, ht⟩ := h.stored
  have hkey : e.key? side source = none := by
    rw [key?, h.keys]
    exact Matching.keyClass?_eq_none_iff.1 hfree
  have hlisted : (e.enlist side source key).Stored t := hstored.enlist hkey
  have hkind : (e.enlist side source key).kind = m.kind := by
    rw [← h.kind, enlist]
    cases side <;> rfl
  have hstart : progress (e.enlist side source key, changes) = Matching.Progress.after changes { ids := m.ids } := by
    rw [← h.ids, Matching.Progress.after, List.append_nil, enlist]
    cases side <;> rfl
  -- whatever became of the pairings, the engine represents the matching with the row among its links
  have hdone {r : JoinEngine × List JoinChange} {s : Matching.Progress} {ps : List Match}
      (hps : ∃ t', r.1.Stored t' ∧ t'.map (·.2) = ps) (hprogress : progress r = s.after changes)
      (hsame : r.1.kind = m.kind) (hkeys : ∀ s, r.1.keys s = (e.enlist side source key).keys s) :
      r.1.Represents { m.setLinks side (m.links side ++ [(source, key)]) with pairings := ps, ids := s.ids } ∧
        r.2 = changes ++ s.changes := by
    refine ⟨⟨hsame.trans Matching.kind_setLinks.symm, fun s => ?_, congrArg (·.ids) hprogress, hps⟩,
      congrArg (·.changes) hprogress⟩
    rw [hkeys, Matching.links_mk]
    rcases Side.eq_or_eq_other s side with rfl | rfl
    · rw [keys_enlist_self hkey, h.keys, Matching.links_setLinks_self]
    · rw [keys_enlist_other, h.keys, Matching.links_setLinks_other]
  have hpaired (others : List (Option Nat)) :=
    hlisted.foldl_pairUp (groupOf_enlist_ne_none e) side source others changes
  rw [hstart] at hpaired
  simp only [hkind, Matching.createAll_after] at hpaired
  rw [linkInto_eq hm h.keys hstored ht hlisted, Matching.attach]
  split_ifs with hnone hmine
  · obtain ⟨⟨t', hstored', hmade⟩, hprogress, hsame, hkeys, -⟩ := hpaired [none]
    exact hdone ⟨_, hstored', by rw [List.map_append, ht, hmade]⟩ hprogress hsame hkeys
  · -- the groups stay as they are
    have hfilled := hlisted.keeps.foldl_fill side key source changes
    have hrevised := revise_lift (Matching.fill m.kind side key source)
      (Matching.Progress.after changes { ids := m.ids }) t
    rw [ht, Matching.revise_fill_after, Prod.mk.injEq] at hrevised
    rw [hstart, hkind] at hfilled
    refine hdone ⟨_, hlisted.congr hfilled.keeps hfilled.same fun k => ?_, hrevised.2.symm⟩
      (hfilled.progress.trans hrevised.1.symm) (hfilled.same.kind.trans hkind) hfilled.same.keys
    rw [under_revise (fun _ => True) (by simpa using Matching.key_fill)]
    simp [under]
  · obtain ⟨⟨t', hstored', hmade⟩, hprogress, hsame, hkeys, -⟩ := hpaired ((m.rowsUnder side.other key).map some)
    exact hdone ⟨_, hstored', by rw [List.map_append, ht, hmade]⟩ hprogress hsame hkeys

/-! ## Unlinking -/

/-- The engine without the row in the group of its key, before its pairings are looked at. -/
def delist (e : JoinEngine) (side : Side) (source : Nat) (key : Value) : JoinEngine :=
  (e.setKeys side ((e.keys side).filter (·.1 ≠ source))).setGroup key
    ((e.groupOf key).setRows side (((e.groupOf key).rows side).filter (· ≠ source)))

theorem keys_delist_self : (e.delist side source key).keys side = (e.keys side).filter (·.1 ≠ source) := by
  rw [delist, keys_setGroup]
  cases side <;> rfl

theorem keys_delist_other : (e.delist side source key).keys side.other = e.keys side.other := by
  rw [delist, keys_setGroup]
  cases side <;> rfl

theorem under_filter_ne (rows : Keyed) (source : Nat) (key : Value) :
    Keyed.under (rows.filter (·.1 ≠ source)) key = (rows.under key).filter (· ≠ source) := by
  rw [Keyed.under, Keyed.under, List.filter_map, List.filter_filter, List.filter_filter]
  refine congrArg _ (List.filter_congr fun x _ => ?_)
  exact Bool.and_comm _ _

/-- A row is missing only under its own key. -/
theorem under_delist (hdistinct : Keyed.Distinct (e.keys side)) (hlinked : e.key? side source = some key) {k : Value}
    (hk : k.canonical ≠ key.canonical) (s : Side) :
    Keyed.under ((e.delist side source key).keys s) k = Keyed.under (e.keys s) k := by
  rcases Side.eq_or_eq_other s side with rfl | rfl
  · rw [keys_delist_self, under_filter_ne, List.filter_eq_self]
    intro row hrow
    have hne : row ≠ source := by
      rintro rfl
      rw [hdistinct.mem_under, Keyed.classOf] at hrow
      have hclass : (some key).map Value.canonical = some k.canonical := hlinked ▸ hrow
      exact hk (Option.some.inj hclass).symm
    simpa using hne
  · rw [keys_delist_other]

theorem Stored.delist (h : e.Stored t) (hdistinct : Keyed.Distinct (e.keys side))
    (hlinked : e.key? side source = some key) :
    (e.delist side source key).Keeps t ∧ (e.delist side source key).Indexes t := by
  have hgroup (k : Value) : (e.delist side source key).groupOf k = if k.canonical = key.canonical then
      (e.groupOf key).setRows side (((e.groupOf key).rows side).filter (· ≠ source)) else e.groupOf k := by
    rw [JoinEngine.delist, groupOf_setGroup, groupOf_setKeys]
  refine ⟨(h.keeps.setKeys side _).setGroup key _, ?_⟩
  refine h.indexes.of_groupOf (nodup_classes_setGroup (h.indexes.classes_setKeys side _) key _) hgroup ?_
    (fun s => ?_) fun k hk => ⟨rfl, under_delist hdistinct hlinked hk⟩
  · rw [RowGroup.pairings_setRows, h.indexes.pairings]
  · rcases Side.eq_or_eq_other s side with rfl | rfl
    · rw [RowGroup.rows_setRows_self, keys_delist_self, under_filter_ne, h.indexes.rows]
    · rw [RowGroup.rows_setRows_other, keys_delist_other, h.indexes.rows]

/-- Pairings are struck from the group of their key, and the group if none is left. -/
theorem Indexes.strike {t' : Numbered} {destroyed : List Nat} (h : e.Indexes t) (hthere : e.group? key ≠ none)
    (hleft : (t.under key).filter (· ∉ destroyed) = t'.under key)
    (hother : ∀ k, k.canonical ≠ key.canonical → t'.under k = t.under k)
    (hrows : ∀ k, (∃ s, Keyed.under (e.keys s) k ≠ []) ↔ t'.under k ≠ [])
    (hpopulated : ∀ k, k.canonical ≠ key.canonical → e.group? k ≠ none → ∃ s, Keyed.under (e.keys s) k ≠ []) :
    (e.strike key destroyed).Indexes t' ∧
      ∀ k, (e.strike key destroyed).group? k ≠ none → ∃ s, Keyed.under ((e.strike key destroyed).keys s) k ≠ [] := by
  obtain ⟨g, hg⟩ := Option.ne_none_iff_exists'.1 hthere
  have hleft : g.pairings.filter (· ∉ destroyed) = t'.under key := by rw [← hleft, ← h.pairings, groupOf_eq_of_some hg]
  have hstrike : e.strike key destroyed = if (t'.under key).isEmpty then e.removeGroup key
      else e.setGroup key { g with pairings := t'.under key } := by
    rw [← hleft, JoinEngine.strike, hg]
  rw [hstrike]
  split_ifs with hempty
  · rw [List.isEmpty_iff] at hempty
    refine ⟨h.of_groupOf (nodup_classes_removeGroup h.classes key) (groupOf_removeGroup e key) hempty.symm (fun s => ?_)
      fun k hk => ⟨hother k hk, fun s => by rw [keys_removeGroup]⟩, fun k hk => ?_⟩
    · have hnone : Keyed.under (e.keys s) key = [] := by
        by_contra hrow
        exact (hrows key).1 ⟨s, hrow⟩ hempty
      rw [keys_removeGroup, hnone]
      cases s <;> rfl
    · rw [group?_removeGroup] at hk
      split_ifs at hk with hkey
      · exact absurd rfl hk
      · simpa only [keys_removeGroup] using hpopulated k hkey hk
  · rw [List.isEmpty_iff] at hempty
    refine ⟨h.of_groupOf (nodup_classes_setGroup h.classes key _) (groupOf_setGroup e key _) rfl (fun s => ?_)
      fun k hk => ⟨hother k hk, fun s => by rw [keys_setGroup]⟩, fun k hk => ?_⟩
    · rw [keys_setGroup, ← h.rows, groupOf_eq_of_some hg]
      cases s <;> rfl
    · simp only [keys_setGroup]
      by_cases hkey : k.canonical = key.canonical
      · rw [hrows, under_congr hkey]
        exact hempty
      · rw [group?_setGroup, if_neg hkey] at hk
        exact hpopulated k hkey hk

theorem Keeps.strike (h : e.Keeps t) (key : Value) (destroyed : List Nat) : (e.strike key destroyed).Keeps t := by
  rw [JoinEngine.strike]
  split
  · exact h
  · dsimp only
    split_ifs
    · exact h.removeGroup key
    · exact h.setGroup key _

/-- To strike pairings from a group changes neither keys nor identifiers. -/
theorem strike_same (e : JoinEngine) (key : Value) (destroyed : List Nat) :
    (e.strike key destroyed).kind = e.kind ∧ (∀ s, (e.strike key destroyed).keys s = e.keys s) ∧
      (e.strike key destroyed).ids = e.ids := by
  rw [strike]
  split
  · exact ⟨rfl, fun _ => rfl, rfl⟩
  · dsimp only
    split_ifs
    · exact ⟨rfl, keys_removeGroup e key, rfl⟩
    · exact ⟨rfl, keys_setGroup e key _, rfl⟩

/-- How a row is unlinked, in the engine and in the matching: it leaves the pairings in which it stands, and the engine
strikes those that go from its group. -/
theorem unlink_eq (hm : m.Sound) (hkeys : ∀ s, e.keys s = m.links s) (hstored : e.Stored t)
    (ht : t.map (·.2) = m.pairings) (hkeeps : (e.delist side source key).Keeps t)
    (hlinked : m.key? side source = some key) :
    ∃ last,
      e.unlink side source = (((e.delist side source key).leave t side source last).1.1.strike key
        ((e.delist side source key).leave t side source last).2,
          ((e.delist side source key).leave t side source last).1.2) ∧
      m.unlink side source = ({ m.setLinks side ((m.links side).filter (·.1 ≠ source)) with
        pairings := (Matching.revise (Matching.vacate m.kind side source last) { ids := m.ids } m.pairings).2
        ids := (Matching.revise (Matching.vacate m.kind side source last) { ids := m.ids } m.pairings).1.ids },
          (Matching.revise (Matching.vacate m.kind side source last) { ids := m.ids } m.pairings).1.changes) := by
  refine ⟨!((m.links side).filter (·.1 ≠ source)).any (·.2.same key), ?_, by rw [Matching.unlink, hlinked]⟩
  have hclass : m.keyClass? side source = some key.canonical := Matching.keyClass?_eq_some_iff.2 ⟨key, hlinked, rfl⟩
  have hthere : e.group? key = some (e.groupOf key) := by
    have hrow : ∃ s, m.rowsUnder s key ≠ [] := ⟨side, List.ne_nil_of_mem ((Matching.mem_rowsUnder hm).2 hclass)⟩
    rw [hm.exists_rowsUnder_iff, ← ht, ← under_ne_nil_iff, ← hstored.indexes.pairings] at hrow
    rcases hg : e.group? key with - | g
    · rw [groupOf, hg] at hrow
      exact absurd rfl hrow
    · rw [groupOf_eq_of_some hg]
  have haffected : ((e.groupOf key).setRows side (((e.groupOf key).rows side).filter (· ≠ source))).pairings.filter
        (fun number => ((e.delist side source key).pairing? number).bind (·.on side) = some source) =
      numbers (t.filter (·.2.on side = some source)) := by
    rw [RowGroup.pairings_setRows, hstored.indexes.pairings, under, filter_numbers (·.2.on side = some source)]
    · refine congrArg _ (List.filter_congr fun x hx => ?_)
      by_cases hon : x.2.on side = some source
      · have hp : x.2 ∈ m.pairings := ht ▸ List.mem_map_of_mem hx
        rw [hm.same_of_on hp hon hlinked, Bool.true_and]
      · simp [hon]
    · intro x hx
      rw [hkeeps.pairing?_of_mem hx, Option.bind_some, Match.on_pairing]
  have hlast : (((e.groupOf key).setRows side (((e.groupOf key).rows side).filter (· ≠ source))).rows side).isEmpty =
      !((m.links side).filter (·.1 ≠ source)).any (·.2.same key) := by
    rw [RowGroup.rows_setRows_self, hstored.indexes.rows, ← under_filter_ne, hkeys, Keyed.isEmpty_under]
  have hkey : e.key? side source = some key := by rw [key?, hkeys, ← hlinked, Matching.key?]
  rw [leave, ← haffected, ← hlast]
  simp only [JoinEngine.unlink, unlinkInto, hkey, group?_setKeys, hthere]
  rfl

/-- No other group lists a pairing that goes: the row stands under its own key. -/
theorem under_gone (hm : m.Sound) (ht : t.map (·.2) = m.pairings) (hdistinct : t.numbers.Nodup)
    (hlinked : m.key? side source = some key) {k : Value} (hk : k.canonical ≠ key.canonical) (last : Bool) :
    (t.under k).filter (· ∉ gone t side source last) = t.under k := by
  rw [List.filter_eq_self]
  intro n hn
  obtain ⟨x, hx, rfl⟩ := List.mem_map.1 hn
  obtain ⟨hx, hsame⟩ := List.mem_filter.1 hx
  have hstays : x.1 ∉ gone t side source last := by
    rw [gone, mem_numbers_filter hdistinct hx, decide_eq_true_eq]
    rintro ⟨hon, -⟩
    have hp : x.2 ∈ m.pairings := ht ▸ List.mem_map_of_mem hx
    exact hk ((Value.same_iff.1 hsame).symm.trans (Value.same_iff.1 (hm.same_of_on hp hon hlinked)))
  simpa using hstays

/-- When a row is in no group any more, and the pairings that go are struck from its group, every group lists the
pairings of its key that are left, and none is left without a row. -/
theorem Represents.stored_strike (h : e.Represents m) (hm : m.Sound) (hstored : e.Stored t)
    (hlinked : m.key? side source = some key) {e' : JoinEngine} {t' : Numbered} {destroyed : List Nat}
    (hsame : (e.delist side source key).SameGroups e') (hkeeps : e'.Keeps t')
    (hleft : ∀ k, t'.under k = (t.under k).filter (· ∉ destroyed))
    (hother : ∀ k, k.canonical ≠ key.canonical → (t.under k).filter (· ∉ destroyed) = t.under k)
    (hlinks : ∀ s, (m.unlink side source).1.links s = (e.delist side source key).keys s)
    (hpairings : t'.map (·.2) = (m.unlink side source).1.pairings) : (e'.strike key destroyed).Stored t' := by
  have hdistinct : Keyed.Distinct (e.keys side) := h.keys side ▸ hm.distinct side
  have hkey : e.key? side source = some key := by rw [key?, h.keys, ← hlinked, Matching.key?]
  have hsound := (hm.unlink (Matching.keyClass?_eq_some_iff.2 ⟨key, hlinked, rfl⟩)).sound
  have hgroup (k : Value) : e'.group? k = (e.delist side source key).group? k := by rw [group?, hsame.groups, group?]
  have hthere : e'.group? key ≠ none := by
    rw [hgroup, delist, group?_setGroup, if_pos rfl]
    exact Option.some_ne_none _
  have hrows (k : Value) : (∃ s, Keyed.under (e'.keys s) k ≠ []) ↔ t'.under k ≠ [] := by
    simp only [hsame.keys, ← hlinks]
    rw [under_ne_nil_iff, hpairings]
    exact hsound.exists_rowsUnder_iff
  have hpopulated (k : Value) (hk : k.canonical ≠ key.canonical) (hsome : e'.group? k ≠ none) :
      ∃ s, Keyed.under (e'.keys s) k ≠ [] := by
    rw [hgroup, delist, group?_setGroup, if_neg hk, group?_setKeys] at hsome
    obtain ⟨s, hs⟩ := hstored.populated k hsome
    exact ⟨s, by rwa [hsame.keys, under_delist hdistinct hkey hk]⟩
  have hindexes := (hstored.delist hdistinct hkey).2.congr hsame.groups hsame.keys fun _ => rfl
  obtain ⟨hstruck, hleftover⟩ := hindexes.strike hthere (hleft key).symm
    (fun k hk => (hleft k).trans (hother k hk)) hrows hpopulated
  exact ⟨hkeeps.strike key _, hstruck, hleftover⟩

/-- Unlinking a row. -/
theorem Represents.unlink (h : e.Represents m) (hm : m.Sound) (side : Side) (source : Nat) :
    (e.unlink side source).1.Represents (m.unlink side source).1 ∧
      (e.unlink side source).2 = (m.unlink side source).2 := by
  have hkey : e.key? side source = m.key? side source := by rw [key?, h.keys, Matching.key?]
  rcases hlinked : m.key? side source with - | key
  · rw [JoinEngine.unlink, unlinkInto, hkey, hlinked, Matching.unlink, hlinked]
    exact ⟨h, rfl⟩
  obtain ⟨t, hstored, ht⟩ := h.stored
  have hkeeps := (hstored.delist (h.keys side ▸ hm.distinct side) (hkey.trans hlinked)).1
  obtain ⟨last, hunlink, hleft⟩ := unlink_eq hm h.keys hstored ht hkeeps hlinked
  rw [← ht, revise_lift] at hleft
  -- the loop and the matching leave the same pairings
  obtain ⟨hreaches, hgone⟩ := hkeeps.leave side source last
  have hstart : progress (e.delist side source key, []) = { ids := m.ids } := by
    rw [← h.ids, delist]
    cases side <;> rfl
  have hkind : (e.delist side source key).kind = m.kind := by
    rw [← h.kind, delist]
    cases side <;> rfl
  rw [hstart, hkind] at hreaches
  rw [hgone] at hunlink
  have hlinks (s : Side) : (m.unlink side source).1.links s = (e.delist side source key).keys s := by
    rw [hleft, Matching.links_mk]
    rcases Side.eq_or_eq_other s side with rfl | rfl
    · rw [Matching.links_setLinks_self, keys_delist_self, h.keys]
    · rw [Matching.links_setLinks_other, keys_delist_other, h.keys]
  have hpairings : (Matching.revise (lift (Matching.vacate m.kind side source last)) { ids := m.ids } t).2.map (·.2) =
      (m.unlink side source).1.pairings := by rw [hleft]
  have hstruck := h.stored_strike hm hstored hlinked hreaches.same hreaches.keeps
    (under_vacate hkeeps.distinct _) (fun k hk => under_gone hm ht hkeeps.distinct hlinked hk last) hlinks hpairings
  obtain ⟨hstruckKind, hstruckKeys, hstruckIds⟩ :=
    strike_same ((e.delist side source key).leave t side source last).1.1 key (gone t side source last)
  rw [hunlink]
  refine ⟨⟨?_, fun s => ?_, ?_, _, hstruck, hpairings⟩, ?_⟩
  · rw [hstruckKind, hreaches.same.kind, hkind, hleft]
    exact Matching.kind_setLinks.symm
  · rw [hstruckKeys, hreaches.same.keys, hlinks]
  · rw [hstruckIds, hleft]
    exact congrArg (·.ids) hreaches.progress
  · rw [hleft]
    exact congrArg (·.changes) hreaches.progress

/-- Linking a row, wherever it is linked. -/
theorem Represents.link (h : e.Represents m) (hm : m.Sound) (side : Side) (source : Nat) (key : Value) :
    (e.link side source key).1.Represents (m.link side source key).1 ∧
      (e.link side source key).2 = (m.link side source key).2 := by
  have hkey : e.key? side source = m.key? side source := by rw [key?, h.keys, Matching.key?]
  rcases hlinked : m.key? side source with - | current
  · simp only [JoinEngine.link, hkey, hlinked, Matching.link]
    exact h.linkInto hm (Matching.keyClass?_eq_none_iff.2 hlinked) key []
  · simp only [JoinEngine.link, hkey, hlinked, Matching.link]
    split_ifs
    · exact ⟨h, rfl⟩
    · obtain ⟨hrepresents, hchanges⟩ := h.unlink hm side source
      have hmoves := hm.unlink (Matching.keyClass?_eq_some_iff.2 ⟨current, hlinked, rfl⟩)
      have hfree : (m.unlink side source).1.keyClass? side source = none := by
        rw [hmoves.classes, Match.relabel_self]
      rw [← hchanges]
      exact hrepresents.linkInto hmoves.sound hfree key _

end JoinEngine

end LiveTables
