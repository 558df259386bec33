import LiveTables.Proofs.Join.Numbers

/-!
# Groups under keys

The groups of an engine are looked up by keys that are the same. They are an index of everything else
(`JoinEngine.Indexes`): there is at most one group of a key, it lists the rows that are linked under the key, and the
numbers of the pairings of the key. To put a group in its place, or to remove it, changes what is found under its key
and nothing else (`groupOf_setGroup`, `groupOf_removeGroup`), so the index stays right as long as the group is right
(`Indexes.of_groupOf`). A row that is paired with others has its pairings listed one after the other
(`Stored.foldl_pairUp`).
-/

namespace LiveTables

open Numbered

variable {t t' : Numbered} {key k : Value}

theorem Value.same_congr (h : k.canonical = key.canonical) (v : Value) : v.same k = v.same key := by
  rw [Bool.eq_iff_iff, same_iff, same_iff, h]

theorem Numbered.under_congr (h : k.canonical = key.canonical) (t : Numbered) : t.under k = t.under key := by
  simp only [under, Value.same_congr h]

theorem Keyed.under_congr (h : k.canonical = key.canonical) (rows : Keyed) : rows.under k = rows.under key := by
  simp only [under, Value.same_congr h]

namespace RowGroup

@[simp] theorem rows_setRows_self (g : RowGroup) (side : Side) (rows : List Nat) :
    (g.setRows side rows).rows side = rows := by
  cases side <;> rfl

@[simp] theorem rows_setRows_other (g : RowGroup) (side : Side) (rows : List Nat) :
    (g.setRows side rows).rows side.other = g.rows side.other := by
  cases side <;> rfl

@[simp] theorem pairings_setRows (g : RowGroup) (side : Side) (rows : List Nat) :
    (g.setRows side rows).pairings = g.pairings := by
  cases side <;> rfl

end RowGroup

namespace JoinEngine

variable {e e' : JoinEngine} {g : RowGroup} {side : Side}

/-! ## Looking up a group -/

/-- The group of a key; a new one if there is none. -/
def groupOf (e : JoinEngine) (key : Value) : RowGroup := (e.group? key).getD {}

theorem groupOf_eq_of_some (h : e.group? key = some g) : e.groupOf key = g := by rw [groupOf, h, Option.getD_some]

theorem group?_congr (h : k.canonical = key.canonical) (e : JoinEngine) : e.group? k = e.group? key := by
  simp only [group?, Value.same_congr h]

theorem group?_eq_none_iff : e.group? key = none ↔ key.canonical ∉ e.groups.map (·.1.canonical) := by
  rw [group?, Option.map_eq_none_iff, List.find?_eq_none, List.mem_map]
  simp only [Value.same_iff, not_exists, not_and]

/-- If no two groups are of one key, a group is found under its key. -/
theorem group?_of_mem (h : (e.groups.map (·.1.canonical)).Nodup) {x : Value × RowGroup} (hx : x ∈ e.groups) :
    e.group? x.1 = some x.2 := by
  rcases hfind : e.groups.find? (·.1.same x.1) with - | y
  · exact absurd (Value.same_refl x.1) (List.find?_eq_none.1 hfind x hx)
  · have hsame : y.1.canonical = x.1.canonical := Value.same_iff.1 (by simpa using List.find?_some hfind)
    rw [group?, hfind, Option.map_some, List.inj_on_of_nodup_map h (List.mem_of_find?_eq_some hfind) hx hsame]

/-- Which group is found does not depend on what the groups hold. -/
theorem find?_map_groups (f : Value × RowGroup → RowGroup) (groups : List (Value × RowGroup)) (k : Value) :
    (groups.map fun x => (x.1, f x)).find? (·.1.same k) = (groups.find? (·.1.same k)).map fun x => (x.1, f x) := by
  rw [List.find?_map]
  rfl

theorem group?_setGroup (e : JoinEngine) (key : Value) (g : RowGroup) (k : Value) :
    (e.setGroup key g).group? k = if k.canonical = key.canonical then some g else e.group? k := by
  by_cases hk : k.canonical = key.canonical
  · rw [if_pos hk, group?_congr hk]
    rcases hfind : e.groups.find? (·.1.same key) with - | x
    · -- there is none: it stands behind the others
      have hnone : e.group? key = none := by rw [group?, hfind, Option.map_none]
      rw [setGroup, hnone, group?]
      simp [List.find?_append, hfind]
    · have hsome : (e.group? key).isSome := by rw [group?, hfind]; rfl
      have hx : x.1.same key = true := by simpa using List.find?_some hfind
      rw [setGroup, if_pos hsome, group?, find?_map_groups, hfind]
      simp [hx]
  · have hdiffers {v : Value} (hv : v.same k = true) : v.same key = false := by
      rw [Bool.eq_false_iff]
      exact fun hv' => hk ((Value.same_iff.1 hv).symm.trans (Value.same_iff.1 hv'))
    rw [if_neg hk, setGroup, group?]
    split_ifs
    · rw [find?_map_groups, group?]
      rcases hfind : e.groups.find? (·.1.same k) with - | x
      · rw [hfind, Option.map_none]
      · have hx : x.1.same k = true := by simpa using List.find?_some hfind
        simp [hfind, hdiffers hx]
    · have hkey : key.same k = false := by
        rw [Bool.eq_false_iff]
        exact fun hv => hk (Value.same_iff.1 hv).symm
      rw [List.find?_append, group?]
      simp [hkey]

theorem group?_removeGroup (e : JoinEngine) (key k : Value) :
    (e.removeGroup key).group? k = if k.canonical = key.canonical then none else e.group? k := by
  rw [removeGroup, group?, List.find?_filter]
  split_ifs with hk
  · rw [Option.map_eq_none_iff, List.find?_eq_none]
    intro x _
    simp [Value.same_congr hk]
  · have hsame : (fun x : Value × RowGroup => decide ((!x.1.same key) = true ∧ x.1.same k = true)) =
        fun x => x.1.same k := by
      funext x
      rw [Bool.eq_iff_iff]
      simp only [Bool.not_eq_true', decide_eq_true_eq, and_iff_right_iff_imp]
      intro hx
      rw [Bool.eq_false_iff]
      exact fun hx' => hk ((Value.same_iff.1 hx).symm.trans (Value.same_iff.1 hx'))
    rw [hsame, group?]

theorem groupOf_setGroup (e : JoinEngine) (key : Value) (g : RowGroup) (k : Value) :
    (e.setGroup key g).groupOf k = if k.canonical = key.canonical then g else e.groupOf k := by
  rw [groupOf, group?_setGroup]
  split_ifs <;> rfl

theorem groupOf_removeGroup (e : JoinEngine) (key k : Value) :
    (e.removeGroup key).groupOf k = if k.canonical = key.canonical then {} else e.groupOf k := by
  rw [groupOf, group?_removeGroup]
  split_ifs <;> rfl

/-! ## The index -/

/-- The groups list what the keys and the pairings say: no two of them are of one key, a group lists the rows of its
key, and the pairings of its key. -/
structure Indexes (e : JoinEngine) (t : Numbered) : Prop where
  classes : (e.groups.map (·.1.canonical)).Nodup
  pairings : ∀ key, (e.groupOf key).pairings = t.under key
  rows : ∀ key side, (e.groupOf key).rows side = Keyed.under (e.keys side) key

theorem nodup_classes_setGroup (h : (e.groups.map (·.1.canonical)).Nodup) (key : Value) (g : RowGroup) :
    ((e.setGroup key g).groups.map (·.1.canonical)).Nodup := by
  rw [setGroup]
  split_ifs with hsome
  · rw [List.map_map]
    exact h
  · rw [Option.isSome_iff_ne_none, not_not, group?_eq_none_iff] at hsome
    rw [List.map_append, List.nodup_append']
    exact ⟨h, List.nodup_singleton _, by simpa using hsome⟩

theorem nodup_classes_removeGroup (h : (e.groups.map (·.1.canonical)).Nodup) (key : Value) :
    ((e.removeGroup key).groups.map (·.1.canonical)).Nodup :=
  h.sublist (List.filter_sublist.map _)

namespace Indexes

/-- If the group of one key changed, the index is right if the group is right and nothing else changed. -/
theorem of_groupOf (h : e.Indexes t) (hclasses : (e'.groups.map (·.1.canonical)).Nodup)
    (hgroup : ∀ k, e'.groupOf k = if k.canonical = key.canonical then g else e.groupOf k)
    (hpairings : g.pairings = t'.under key) (hrows : ∀ side, g.rows side = Keyed.under (e'.keys side) key)
    (hother : ∀ k, k.canonical ≠ key.canonical →
      t'.under k = t.under k ∧ ∀ side, Keyed.under (e'.keys side) k = Keyed.under (e.keys side) k) :
    e'.Indexes t' where
  classes := hclasses
  pairings k := by
    rw [hgroup]
    split_ifs with hk
    · rw [hpairings, under_congr hk]
    · rw [h.pairings, (hother k hk).1]
  rows k side := by
    rw [hgroup]
    split_ifs with hk
    · rw [hrows, Keyed.under_congr hk]
    · rw [h.rows, (hother k hk).2]

theorem congr (h : e.Indexes t) (hgroups : e'.groups = e.groups) (hkeys : ∀ side, e'.keys side = e.keys side)
    (hunder : ∀ k, t'.under k = t.under k) : e'.Indexes t' := by
  have hgroup (k : Value) : e'.groupOf k = e.groupOf k := by rw [groupOf, groupOf, group?, group?, hgroups]
  exact ⟨hgroups ▸ h.classes, fun k => by rw [hgroup, h.pairings, hunder], fun k side => by rw [hgroup, h.rows, hkeys]⟩

end Indexes

/-! ## Pairings that are listed -/

/-- An engine keeps pairings, and lists them in its groups; there is no group without a row. -/
structure Stored (e : JoinEngine) (t : Numbered) : Prop where
  keeps : e.Keeps t
  indexes : e.Indexes t
  populated : ∀ key, e.group? key ≠ none → ∃ side, Keyed.under (e.keys side) key ≠ []

/-- What the groups list does not change if only pairings do. -/
theorem Stored.congr (h : e.Stored t) (hkeeps : e'.Keeps t') (hsame : e.SameGroups e')
    (hunder : ∀ k, t'.under k = t.under k) : e'.Stored t' := by
  refine ⟨hkeeps, h.indexes.congr hsame.groups hsame.keys hunder, fun k hk => ?_⟩
  rw [group?, hsame.groups, ← group?] at hk
  simp only [hsame.keys]
  exact h.populated k hk

theorem Keeps.setGroup (h : e.Keeps t) (key : Value) (g : RowGroup) : (e.setGroup key g).Keeps t :=
  ⟨h.pairings, h.distinct, h.fresh, h.slots.ids, h.slots.slot, h.slots.count⟩

theorem Keeps.removeGroup (h : e.Keeps t) (key : Value) : (e.removeGroup key).Keeps t :=
  ⟨h.pairings, h.distinct, h.fresh, h.slots.ids, h.slots.slot, h.slots.count⟩

theorem Keeps.setKeys (h : e.Keeps t) (side : Side) (keys : Keyed) : (e.setKeys side keys).Keeps t := by
  cases side <;> exact ⟨h.pairings, h.distinct, h.fresh, h.slots.ids, h.slots.slot, h.slots.count⟩

@[simp] theorem keys_setGroup (e : JoinEngine) (key : Value) (g : RowGroup) (side : Side) :
    (e.setGroup key g).keys side = e.keys side := by
  cases side <;> rfl

@[simp] theorem keys_removeGroup (e : JoinEngine) (key : Value) (side : Side) :
    (e.removeGroup key).keys side = e.keys side := by
  cases side <;> rfl

@[simp] theorem groups_setKeys (e : JoinEngine) (side : Side) (keys : Keyed) :
    (e.setKeys side keys).groups = e.groups := by
  cases side <;> rfl

theorem Indexes.classes_setKeys (h : e.Indexes t) (side : Side) (keys : Keyed) :
    ((e.setKeys side keys).groups.map (·.1.canonical)).Nodup := by
  rw [groups_setKeys]
  exact h.classes

@[simp] theorem group?_setKeys (e : JoinEngine) (side : Side) (keys : Keyed) (key : Value) :
    (e.setKeys side keys).group? key = e.group? key := by
  rw [group?, groups_setKeys, group?]

@[simp] theorem groupOf_setKeys (e : JoinEngine) (side : Side) (keys : Keyed) (key : Value) :
    (e.setKeys side keys).groupOf key = e.groupOf key := by
  rw [groupOf, group?_setKeys, groupOf]

/-- To list a pairing in a group changes neither keys nor identifiers. -/
theorem attach_same (e : JoinEngine) (key : Value) (n : Nat) :
    (e.attach key n).kind = e.kind ∧ (∀ s, (e.attach key n).keys s = e.keys s) ∧ (e.attach key n).ids = e.ids := by
  rw [attach]
  split
  · exact ⟨rfl, fun _ => rfl, rfl⟩
  · exact ⟨rfl, keys_setGroup e key _, rfl⟩

/-- A new pairing is listed in the group of its key, and in no other. -/
theorem Stored.attach (h : e.Stored t) (hgroup : e.group? key ≠ none) (hsame : e.SameGroups e') {n : Nat} {p : Match}
    (hkeeps : e'.Keeps (t ++ [(n, p)])) (hkey : p.key.canonical = key.canonical) :
    (e'.attach key n).Stored (t ++ [(n, p)]) ∧ (e'.attach key n).group? key ≠ none := by
  obtain ⟨g, hg⟩ := Option.ne_none_iff_exists'.1 hgroup
  have hgroups (k : Value) : e'.group? k = e.group? k := by rw [group?, group?, hsame.groups]
  have hlisted : e'.attach key n = e'.setGroup key { g with pairings := g.pairings ++ [n] } := by
    rw [JoinEngine.attach, hgroups, hg]
  have hunder (k : Value) : under [(n, p)] k = if k.canonical = key.canonical then [n] else [] := by
    have hiff : p.key.same k = true ↔ k.canonical = key.canonical := by rw [Value.same_iff, hkey, eq_comm]
    rw [under, List.filter_cons, List.filter_nil]
    simp only [hiff]
    split_ifs <;> rfl
  have hfind (k : Value) : (e'.attach key n).group? k = none ↔ e.group? k = none := by
    rw [hlisted, group?_setGroup, hgroups]
    split_ifs with hk
    · rw [group?_congr hk, hg]
      simp
    · rfl
  have hnow (k : Value) : (e'.attach key n).groupOf k =
      if k.canonical = key.canonical then { g with pairings := g.pairings ++ [n] } else e.groupOf k := by
    rw [hlisted, groupOf_setGroup, groupOf, hgroups, groupOf]
  have hkeys (s : Side) : (e'.attach key n).keys s = e.keys s := ((attach_same e' key n).2.1 s).trans (hsame.keys s)
  refine ⟨⟨hlisted ▸ hkeeps.setGroup key _, ?_, fun k hk => ?_⟩, mt (hfind key).1 hgroup⟩
  · refine h.indexes.of_groupOf ?_ hnow ?_ (fun s => ?_) fun k hk => ⟨?_, fun s => by rw [hkeys]⟩
    · rw [hlisted]
      exact nodup_classes_setGroup (hsame.groups ▸ h.indexes.classes) key _
    · rw [under_append, hunder, if_pos rfl, ← h.indexes.pairings, groupOf_eq_of_some hg]
    · rw [hkeys, ← h.indexes.rows, groupOf_eq_of_some hg]
      cases s <;> rfl
    · rw [under_append, hunder, if_neg hk, List.append_nil]
  · simp only [hkeys]
    exact h.populated k (mt (hfind k).2 hk)

/-- A row that is paired has the pairing listed in the group of its key. -/
theorem Stored.pairUp (h : e.Stored t) (hgroup : e.group? key ≠ none) (side : Side) (source : Nat)
    (other : Option Nat) (changes : List JoinChange) :
    let made := Matching.settle e.kind side (progress (e, changes)) (.ofSides key side (some source) other)
    let r := JoinEngine.pairUp side source key (e, changes) other
    r.1.Stored (t ++ [(e.nextPairing, made.2)]) ∧ progress r = made.1 ∧ r.1.kind = e.kind ∧
      (∀ s, r.1.keys s = e.keys s) ∧ r.1.group? key ≠ none := by
  intro made r
  have hmade := h.keeps.create side source other key changes
  have hkey : made.2.key.canonical = key.canonical := by rw [Matching.settle_key, Match.key_ofSides]
  obtain ⟨hkind, hkeys, hids⟩ :=
    attach_same (e.create side (some source) other changes).1 key e.nextPairing
  obtain ⟨hstored, hthere⟩ := h.attach hgroup hmade.same hmade.keeps hkey
  refine ⟨hstored, ?_, hkind.trans hmade.same.kind, fun s => (hkeys s).trans (hmade.same.keys s), hthere⟩
  have hids : r.1.ids = (e.create side (some source) other changes).1.ids := hids
  show Matching.Progress.mk r.1.ids r.2 = made.1
  rw [hids]
  exact hmade.progress

/-- A row that is paired with others has all its pairings listed, in order. -/
theorem Stored.foldl_pairUp (h : e.Stored t) (hgroup : e.group? key ≠ none) (side : Side) (source : Nat)
    (others : List (Option Nat)) (changes : List JoinChange) :
    let made := Matching.createAll e.kind side key source (progress (e, changes)) others
    let r := others.foldl (JoinEngine.pairUp side source key) (e, changes)
    (∃ t' : Numbered, r.1.Stored (t ++ t') ∧ t'.map (·.2) = made.2) ∧ progress r = made.1 ∧ r.1.kind = e.kind ∧
      (∀ s, r.1.keys s = e.keys s) ∧ r.1.group? key ≠ none := by
  induction others generalizing e t changes with
  | nil => exact ⟨⟨[], by rwa [List.append_nil], rfl⟩, rfl, rfl, fun _ => rfl, hgroup⟩
  | cons other others ih =>
    obtain ⟨hstored, hprogress, hkind, hkeys, hthere⟩ := h.pairUp hgroup side source other changes
    obtain ⟨⟨t', hstored', hmade⟩, hprogress', hkind', hkeys', hthere'⟩ :=
      ih hstored hthere (JoinEngine.pairUp side source key (e, changes) other).2
    rw [hkind, hprogress] at hmade hprogress'
    rw [List.append_assoc] at hstored'
    refine ⟨⟨_, hstored', ?_⟩, hprogress', hkind'.trans hkind, fun s => (hkeys' s).trans (hkeys s), hthere'⟩
    rw [List.map_append, hmade]
    rfl

end JoinEngine

end LiveTables
