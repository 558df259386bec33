import LiveTables.Proofs.Join.Sound

/-!
# Pairings under numbers

An engine keeps its pairings under numbers, and for every identifier a slot with the number of the pairing
that is the joined row. Beside it stands the list of the same pairings with their keys (`Numbered`): the engine
keeps such a list (`JoinEngine.Keeps`) if its pairings are those of the list, its slots say which of them are
joined rows, and it counts these.

Every operation on one pairing is followed in the list by the operation of a matching (`Keeps.refresh`,
`Keeps.destroy`, `Keeps.create`), and so are the loops over the numbers that one of them selects
(`Keeps.foldl_fill`, `Keeps.leave`): the list as a whole is revised, and what is not selected stays as it is.
-/

open scoped List

namespace LiveTables

/-- The pairing without its key. -/
def Match.pairing (p : Match) : Pairing := ⟨p.left, p.right, p.row⟩

@[simp] theorem Match.row_pairing (p : Match) : p.pairing.row = p.row := rfl

@[simp] theorem Match.on_pairing (p : Match) (side : Side) : p.pairing.on side = p.on side := by cases side <;> rfl

@[simp] theorem Match.pairing_set (p : Match) (side : Side) (r : Option Nat) :
    (p.set side r).pairing = p.pairing.set side r := by
  cases side <;> rfl

/-- Pairings with their numbers. -/
abbrev Numbered := List (Nat × Match)

namespace Numbered

/-- The numbers. -/
def numbers (t : Numbered) : List Nat := t.map (·.1)

/-- The identifiers of those that are joined rows, with their numbers. -/
def held (t : Numbered) : List (Nat × Nat) := t.filterMap fun x => x.2.row.map (·, x.1)

/-- The numbers of the pairings of a key. -/
def under (t : Numbered) (key : Value) : List Nat := numbers (t.filter (·.2.key.same key))

variable {t : Numbered} {before after : Numbered} {n : Nat} {p : Match}

@[simp] theorem numbers_append (t t' : Numbered) : numbers (t ++ t') = t.numbers ++ t'.numbers := List.map_append

@[simp] theorem numbers_cons (x : Nat × Match) (t : Numbered) : numbers (x :: t) = x.1 :: t.numbers := rfl

@[simp] theorem held_nil : held [] = [] := rfl

@[simp] theorem held_append (t t' : Numbered) : held (t ++ t') = t.held ++ t'.held := List.filterMap_append

theorem held_cons_of_some {id : Nat} (h : p.row = some id) : held ((n, p) :: t) = (id, n) :: t.held := by
  simp [held, h]

theorem held_cons_of_none (h : p.row = none) : held ((n, p) :: t) = t.held := by simp [held, h]

/-- What is held follows from the numbers and the identifiers. -/
theorem held_replace {p' : Match} (h : p'.row = p.row) :
    held (before ++ (n, p') :: after) = held (before ++ (n, p) :: after) := by
  rw [held_append, held_append]
  rcases hrow : p.row with - | id
  · rw [held_cons_of_none hrow, held_cons_of_none (h.trans hrow)]
  · rw [held_cons_of_some hrow, held_cons_of_some (h.trans hrow)]

theorem numbers_replace {p' : Match} : numbers (before ++ (n, p') :: after) = numbers (before ++ (n, p) :: after) := by
  rw [numbers_append, numbers_append, numbers_cons, numbers_cons]

theorem map_fst_held (t : Numbered) : t.held.map (·.1) = Match.rows (t.map (·.2)) := by
  rw [held, Match.rows, List.map_filterMap, List.filterMap_map]
  refine List.filterMap_congr fun x _ => ?_
  rw [Option.map_map]
  exact Option.map_id'

theorem mem_held {id : Nat} : (id, n) ∈ t.held ↔ ∃ p, (n, p) ∈ t ∧ p.row = some id := by
  simp only [held, List.mem_filterMap, Option.map_eq_some_iff, Prod.mk.injEq, Prod.exists]
  constructor
  · rintro ⟨n', p, hmem, id', hrow, rfl, rfl⟩
    exact ⟨p, hmem, hrow⟩
  · rintro ⟨p, hmem, hrow⟩
    exact ⟨n, p, hmem, id, hrow, rfl, rfl⟩

@[simp] theorem under_append (t t' : Numbered) (key : Value) : under (t ++ t') key = t.under key ++ t'.under key := by
  rw [under, List.filter_append, numbers_append, under, under]

/-- What an operation does to pairings, done to them with their numbers. -/
def lift (f : Matching.Progress → Match → Matching.Progress × Option Match) (s : Matching.Progress)
    (x : Nat × Match) : Matching.Progress × Option (Nat × Match) :=
  ((f s x.2).1, (f s x.2).2.map (x.1, ·))

/-- Without the numbers it is the same. -/
theorem revise_lift (f : Matching.Progress → Match → Matching.Progress × Option Match) (s : Matching.Progress)
    (t : Numbered) : Matching.revise f s (t.map (·.2)) =
      ((Matching.revise (lift f) s t).1, (Matching.revise (lift f) s t).2.map (·.2)) := by
  refine Matching.revise_map (fun s => s) (·.2) (fun s x => ?_) s t
  rw [lift, Option.map_map]
  simp [Function.comp_def]

/-- Of the numbers of some pairings, those that are chosen by what they belong to. -/
theorem filter_numbers {g : Nat → Bool} {f : Nat × Match → Bool} (f' : Nat × Match → Bool)
    (hg : ∀ x ∈ t, g x.1 = f' x) :
    (numbers (t.filter f)).filter g = numbers (t.filter fun x => f x && f' x) := by
  rw [numbers, List.filter_map, List.filter_filter, numbers]
  refine congrArg _ (List.filter_congr fun x hx => ?_)
  rw [Function.comp_apply, hg x hx, Bool.and_comm]

theorem mem_numbers_filter {f : Nat × Match → Bool} {x : Nat × Match} (h : t.numbers.Nodup) (hx : x ∈ t) :
    x.1 ∈ numbers (t.filter f) ↔ f x = true := by
  rw [numbers, List.mem_map]
  constructor
  · rintro ⟨y, hy, heq⟩
    obtain ⟨hy, hf⟩ := List.mem_filter.1 hy
    rwa [← List.inj_on_of_nodup_map h hy hx heq]
  · exact fun hf => ⟨x, List.mem_filter.2 ⟨hx, hf⟩, rfl⟩

/-- Nothing is taken away with a number that is not there. -/
theorem filter_pairings_of_not_mem (h : n ∉ t.numbers) :
    (t.map fun x => (x.1, x.2.pairing)).filter (·.1 ≠ n) = t.map fun x => (x.1, x.2.pairing) := by
  rw [List.filter_eq_self]
  intro x hx
  obtain ⟨y, hy, rfl⟩ := List.mem_map.1 hx
  have hne : y.1 ≠ n := fun heq => h (heq ▸ List.mem_map_of_mem hy)
  simpa using hne

theorem mem_under {key : Value} : n ∈ t.under key ↔ ∃ p, (n, p) ∈ t ∧ p.key.same key = true := by
  simp [under, numbers]

theorem under_ne_nil_iff {key : Value} : t.under key ≠ [] ↔ ∃ p ∈ t.map (·.2), p.key.same key = true := by
  rw [under, numbers, ne_eq, List.map_eq_nil_iff, List.filter_eq_nil_iff]
  simp only [not_forall, not_not, exists_prop, List.mem_map]
  exact ⟨fun ⟨x, hx, hkey⟩ => ⟨x.2, ⟨x, hx, rfl⟩, hkey⟩, fun ⟨_, ⟨x, hx, rfl⟩, hkey⟩ => ⟨x, hx, hkey⟩⟩

/-- The pairings of a key, after some went and the others kept their keys. -/
theorem under_revise {f : Matching.Progress → Match → Matching.Progress × Option Match} (stays : Match → Prop)
    [DecidablePred stays] (hf : ∀ s p, (f s p).2.map (·.key) = if stays p then some p.key else none)
    (s : Matching.Progress) (t : Numbered) (key : Value) :
    under (Matching.revise (lift f) s t).2 key =
      numbers (t.filter fun x => x.2.key.same key && decide (stays x.2)) := by
  induction t generalizing s with
  | nil => rfl
  | cons x t ih =>
    simp only [Matching.revise, under_append, ih, lift, List.filter_cons]
    have hx := hf s x.2
    split_ifs at hx with hstays
    · obtain ⟨p, hp, hkey⟩ := Option.map_eq_some_iff.1 hx
      rw [hp, decide_eq_true hstays, Bool.and_true, under, Option.map_some, Option.toList_some, List.filter_cons, hkey]
      split_ifs <;> rfl
    · rw [Option.map_eq_none_iff.1 hx, decide_eq_false hstays, Bool.and_false]
      rfl

end Numbered

open Numbered

namespace JoinEngine

variable {e : JoinEngine} {id n : Nat}

/-! ## Slots -/

/-- Of the identifiers exactly the given ones are in use, each for the pairing of its number, and they are counted. -/
structure Slots (e : JoinEngine) (held : List (Nat × Nat)) : Prop where
  ids : e.ids.Holds (held.map (·.1))
  slot : ∀ id n, e.pairingAt? id = some n ↔ (id, n) ∈ held
  count : e.rowCount = held.length

namespace Slots

variable {held held' : List (Nat × Nat)}

theorem perm (h : e.Slots held) (hp : held ~ held') : e.Slots held' where
  ids := h.ids.perm (hp.map _)
  slot id n := (h.slot id n).trans hp.mem_iff
  count := h.count.trans hp.length_eq

theorem pairingAt?_release (e : JoinEngine) (id id' : Nat) :
    (e.release id).pairingAt? id' = if id' = id then none else e.pairingAt? id' := by
  rw [pairingAt?, release, List.getElem?_set, pairingAt?]
  by_cases hid : id' = id
  · subst hid
    rw [if_pos rfl, if_pos rfl]
    split_ifs <;> rfl
  · rw [if_neg (Ne.symm hid), if_neg hid]

theorem pairingAt?_reveal (e : JoinEngine) (n id' : Nat) :
    (e.reveal n).1.pairingAt? id' = if id' = (e.reveal n).2 then some n else e.pairingAt? id' := by
  show ((e.slots ++ List.replicate (e.ids.allocate.2 + 1 - e.slots.length) none).set e.ids.allocate.2
    (some n))[id']?.join = if id' = e.ids.allocate.2 then some n else e.slots[id']?.join
  rw [List.getElem?_set]
  by_cases hid : id' = e.ids.allocate.2
  · subst hid
    rw [if_pos rfl, if_pos rfl, if_pos]
    · rfl
    · rw [List.length_append, List.length_replicate]
      omega
  · rw [if_neg (Ne.symm hid), if_neg hid]
    -- the slots that are added are empty
    by_cases hlt : id' < e.slots.length
    · rw [List.getElem?_append_left hlt]
    · rw [List.getElem?_append_right (Nat.le_of_not_lt hlt), List.getElem?_replicate,
        List.getElem?_eq_none (Nat.le_of_not_lt hlt)]
      split_ifs <;> rfl

/-- The identifier that is taken back is not in use any more. -/
theorem release (h : e.Slots ((id, n) :: held)) : (e.release id).Slots held where
  ids := h.ids.release
  slot id' n' := by
    have hfree : id ∉ held.map (·.1) := (List.nodup_cons.1 h.ids.nodup).1
    rw [pairingAt?_release]
    by_cases hid : id' = id
    · subst hid
      have hnot : (id', n') ∉ held := fun hmem => hfree (List.mem_map_of_mem hmem)
      simp [hnot]
    · rw [if_neg hid, h.slot]
      simp [hid]
  count := by
    show e.rowCount - 1 = held.length
    rw [h.count, List.length_cons, Nat.add_sub_cancel]

/-- A fresh identifier is in use from then on. -/
theorem reveal (h : e.Slots held) (n : Nat) : (e.reveal n).1.Slots (((e.reveal n).2, n) :: held) where
  ids := h.ids.allocate
  slot id' n' := by
    have hfresh : e.ids.allocate.2 ∉ held.map (·.1) := (List.nodup_cons.1 h.ids.allocate.nodup).1
    rw [pairingAt?_reveal]
    by_cases hid : id' = (e.reveal n).2
    · subst hid
      have hnot : ((e.reveal n).2, n') ∉ held := fun hmem => hfresh (List.mem_map_of_mem (f := (·.1)) hmem)
      simp [hnot, eq_comm]
    · rw [if_neg hid, h.slot]
      simp [hid]
  count := congrArg (· + 1) h.count

end Slots

/-! ## One pairing -/

/-- An engine keeps pairings under their numbers. -/
structure Keeps (e : JoinEngine) (t : Numbered) : Prop where
  pairings : e.pairings = t.map fun x => (x.1, x.2.pairing)
  distinct : t.numbers.Nodup
  fresh : ∀ n ∈ t.numbers, n < e.nextPairing
  slots : e.Slots t.held

/-- Two engines differ at most in their pairings and slots. -/
structure SameGroups (e e' : JoinEngine) : Prop where
  kind : e'.kind = e.kind
  groups : e'.groups = e.groups
  keys : ∀ side, e'.keys side = e.keys side

theorem SameGroups.refl (e : JoinEngine) : e.SameGroups e := ⟨rfl, rfl, fun _ => rfl⟩

theorem SameGroups.trans {e' e'' : JoinEngine} (h : e.SameGroups e') (h' : e'.SameGroups e'') : e.SameGroups e'' :=
  ⟨h'.kind.trans h.kind, h'.groups.trans h.groups, fun side => (h'.keys side).trans (h.keys side)⟩

/-- How far an operation came: the identifiers in use and the changes made so far. -/
def progress (s : JoinEngine × List JoinChange) : Matching.Progress := { ids := s.1.ids, changes := s.2 }

/-- An operation comes as far as one on a matching, and leaves the pairings of that one. -/
structure Reaches (e : JoinEngine) (r : JoinEngine × List JoinChange) (s : Matching.Progress) (t : Numbered) :
    Prop where
  keeps : r.1.Keeps t
  progress : progress r = s
  same : e.SameGroups r.1

variable {t before after : Numbered} {p p' : Match} {side : Side} {changes : List JoinChange}

theorem Keeps.pairing?_eq_some_iff (h : e.Keeps t) {q : Pairing} :
    e.pairing? n = some q ↔ ∃ p, (n, p) ∈ t ∧ p.pairing = q := by
  have hdistinct : (e.pairings.map (·.1)).Nodup := by
    rw [h.pairings, List.map_map]
    exact h.distinct
  rw [pairing?, lookup_eq_some_iff_mem hdistinct, h.pairings, List.mem_map]
  simp

theorem Keeps.pairing?_of_mem (h : e.Keeps t) (hmem : (n, p) ∈ t) : e.pairing? n = some p.pairing :=
  h.pairing?_eq_some_iff.2 ⟨p, hmem, rfl⟩

theorem Keeps.not_mem_before (h : e.Keeps (before ++ (n, p) :: after)) : n ∉ before.numbers ∧ n ∉ after.numbers := by
  have hdistinct := h.distinct
  rw [numbers_append, numbers_cons, List.nodup_append', List.nodup_cons] at hdistinct
  exact ⟨fun hmem => hdistinct.2.2 hmem List.mem_cons_self, hdistinct.2.1.1⟩

/-- To change the pairing of a number changes one pairing. -/
theorem Keeps.pairings_modify (h : e.Keeps (before ++ (n, p) :: after)) (f : Pairing → Pairing)
    (hf : p'.pairing = f p.pairing) :
    (e.modifyPairing n f).pairings = (before ++ (n, p') :: after).map fun x => (x.1, x.2.pairing) := by
  have hother {ps : Numbered} (hps : n ∉ ps.numbers) :
      ps.map ((fun x => (x.1, if x.1 = n then f x.2 else x.2)) ∘ fun x => (x.1, x.2.pairing)) =
        ps.map fun x => (x.1, x.2.pairing) := by
    refine List.map_congr_left fun x hx => ?_
    have hne : x.1 ≠ n := fun heq => hps (heq ▸ List.mem_map_of_mem hx)
    simp [hne]
  rw [modifyPairing, h.pairings, List.map_map, List.map_append, List.map_append, List.map_cons, List.map_cons,
    hother h.not_mem_before.1, hother h.not_mem_before.2, hf]
  simp

/-- Pairings are still kept when that of a number was changed, if the slots were brought in line with it. -/
theorem Keeps.replace {e' : JoinEngine} (h : e.Keeps (before ++ (n, p) :: after))
    (hpairings : e'.pairings = (before ++ (n, p') :: after).map fun x => (x.1, x.2.pairing))
    (hnext : e'.nextPairing = e.nextPairing) (hslots : e'.Slots (held (before ++ (n, p') :: after))) :
    e'.Keeps (before ++ (n, p') :: after) where
  pairings := hpairings
  distinct := by
    rw [numbers_replace]
    exact h.distinct
  fresh k hk := by
    rw [numbers_replace] at hk
    rw [hnext]
    exact h.fresh k hk
  slots := hslots

theorem Keeps.modify (h : e.Keeps (before ++ (n, p) :: after)) {f : Pairing → Pairing}
    (hf : p'.pairing = f p.pairing) (hrow : p'.row = p.row) :
    (e.modifyPairing n f).Keeps (before ++ (n, p') :: after) := by
  refine h.replace (h.pairings_modify f hf) rfl ?_
  rw [held_replace hrow]
  exact ⟨h.slots.ids, h.slots.slot, h.slots.count⟩

/-- The pairings that are held, with one of them in front. -/
theorem held_perm (before after : Numbered) (n id : Nat) (hrow : p.row = some id) :
    held (before ++ (n, p) :: after) ~ (id, n) :: held (before ++ after) := by
  rw [held_append, held_cons_of_some hrow, held_append]
  exact List.perm_middle

theorem Keeps.hide {id : Nat} (h : e.Keeps (before ++ (n, p) :: after)) (hrow : p.row = some id) :
    ((e.modifyPairing n ({ · with row := none })).release id).Keeps
      (before ++ (n, { p with row := none }) :: after) := by
  have hslots := (h.slots.perm (held_perm before after n id hrow)).release
  refine h.replace (h.pairings_modify ({ · with row := none }) rfl) rfl ?_
  rw [held_append, held_cons_of_none rfl, ← held_append]
  exact ⟨hslots.ids, hslots.slot, hslots.count⟩

theorem Keeps.reveal (h : e.Keeps (before ++ (n, p) :: after)) (hrow : p.row = none) :
    (e.reveal n).1.Keeps (before ++ (n, { p with row := some (e.reveal n).2 }) :: after) := by
  have hheld : held (before ++ (n, p) :: after) = held (before ++ after) := by
    rw [held_append, held_cons_of_none hrow, held_append]
  have hslots := (hheld ▸ h.slots).reveal n
  refine h.replace (h.pairings_modify ({ · with row := some (e.reveal n).2 }) rfl) rfl ?_
  exact hslots.perm (held_perm before after n _ rfl).symm

/-- To bring the identifier of a pairing in line with its visibility is to settle it. -/
theorem Keeps.refresh (h : e.Keeps (before ++ (n, p) :: after)) (side : Side) (changes : List JoinChange) :
    e.Reaches (e.refresh n side changes) (Matching.settle e.kind side (progress (e, changes)) p).1
      (before ++ (n, (Matching.settle e.kind side (progress (e, changes)) p).2) :: after) := by
  have hp : e.pairing? n = some p.pairing := h.pairing?_of_mem (by simp)
  rcases hrow : p.row with - | id <;>
    rcases hvisible : e.kind.isVisible p.left.isSome p.right.isSome with - | - <;>
    simp only [JoinEngine.refresh, hp, Match.pairing, Matching.settle, hrow, hvisible]
  · exact ⟨h, rfl, .refl e⟩
  · exact ⟨h.reveal hrow, rfl, ⟨rfl, rfl, fun s => by cases s <;> rfl⟩⟩
  · exact ⟨h.hide hrow, rfl, ⟨rfl, rfl, fun s => by cases s <;> rfl⟩⟩
  · exact ⟨h, rfl, .refl e⟩

/-- A pairing is made behind all others. -/
theorem Keeps.create (h : e.Keeps t) (side : Side) (source : Nat) (other : Option Nat) (key : Value)
    (changes : List JoinChange) :
    let made := Matching.settle e.kind side (progress (e, changes)) (.ofSides key side (some source) other)
    e.Reaches (e.create side (some source) other changes) made.1 (t ++ [(e.nextPairing, made.2)]) := by
  have hnew : e.nextPairing ∉ t.numbers := fun hmem => Nat.lt_irrefl _ (h.fresh _ hmem)
  have hother : e.pairings.filter (·.1 ≠ e.nextPairing) = e.pairings := by
    rw [h.pairings, filter_pairings_of_not_mem hnew]
  have hpairing : (Match.ofSides key side (some source) other).pairing =
      (Pairing.set {} side (some source)).set side.other other := by cases side <;> rfl
  have hmade : Keeps { e with
      nextPairing := e.nextPairing + 1
      pairings := insertEntry e.pairings e.nextPairing ((Pairing.set {} side (some source)).set side.other other) }
        (t ++ [(e.nextPairing, .ofSides key side (some source) other)]) :=
    { pairings := by rw [insertEntry, hother, h.pairings, List.map_append, ← hpairing]; rfl
      distinct := by
        rw [numbers_append, List.nodup_append']
        exact ⟨h.distinct, List.nodup_singleton _, by simpa [numbers] using hnew⟩
      fresh := by
        intro n hn
        rw [numbers_append, List.mem_append] at hn
        rcases hn with hn | hn
        · exact Nat.lt_succ_of_lt (h.fresh n hn)
        · obtain rfl : n = e.nextPairing := by simpa [numbers] using hn
          exact Nat.lt_succ_self _
      slots := by
        rw [held_append, held_cons_of_none Match.row_ofSides, held_nil, List.append_nil]
        exact ⟨h.slots.ids, h.slots.slot, h.slots.count⟩ }
  have hreaches := hmade.refresh side changes
  exact ⟨hreaches.keeps, hreaches.progress, hreaches.same.kind, hreaches.same.groups, fun s =>
    (hreaches.same.keys s).trans (by cases s <;> rfl)⟩

/-- A pairing goes. -/
theorem Keeps.destroy (h : e.Keeps (before ++ (n, p) :: after)) (changes : List JoinChange) :
    e.Reaches (e.destroy n changes) (Matching.discard (progress (e, changes)) p) (before ++ after) := by
  have hp : e.pairing? n = some p.pairing := h.pairing?_of_mem (by simp)
  have hpairings : e.pairings.filter (·.1 ≠ n) = (before ++ after).map fun x => (x.1, x.2.pairing) := by
    rw [h.pairings, List.map_append, List.map_cons, List.filter_append, List.filter_cons_of_neg (by simp),
      filter_pairings_of_not_mem h.not_mem_before.1, filter_pairings_of_not_mem h.not_mem_before.2, List.map_append]
  have hdistinct : (before ++ after).numbers.Nodup :=
    h.distinct.sublist (List.Sublist.map _ ((List.sublist_cons_self _ _).append_left _))
  have hfresh : ∀ k ∈ (before ++ after).numbers, k < e.nextPairing := fun k hk => h.fresh k <| by
    rw [numbers_append, numbers_cons, List.mem_append, List.mem_cons]
    rw [numbers_append, List.mem_append] at hk
    exact hk.imp_right .inr
  have hrest : e.SameGroups { e with pairings := e.pairings.filter (·.1 ≠ n) } :=
    ⟨rfl, rfl, fun s => by cases s <;> rfl⟩
  rcases hrow : p.row with - | id
  · simp only [JoinEngine.destroy, hp, Match.pairing, Option.bind_some, hrow, Matching.discard]
    refine ⟨⟨hpairings, hdistinct, hfresh, ?_⟩, rfl, hrest⟩
    have hheld : held (before ++ (n, p) :: after) = held (before ++ after) := by
      rw [held_append, held_cons_of_none hrow, held_append]
    rw [← hheld]
    exact ⟨h.slots.ids, h.slots.slot, h.slots.count⟩
  · simp only [JoinEngine.destroy, hp, Match.pairing, Option.bind_some, hrow, Matching.discard]
    have hslots := (h.slots.perm (held_perm before after n id hrow)).release
    exact ⟨⟨hpairings, hdistinct, hfresh, ⟨hslots.ids, hslots.slot, hslots.count⟩⟩, rfl,
      hrest.kind, hrest.groups, fun s => by cases s <;> rfl⟩

/-! ## Several pairings -/

theorem Reaches.trans {r r' : JoinEngine × List JoinChange} {s s' : Matching.Progress} {t' : Numbered}
    (h : e.Reaches r s t) (h' : r.1.Reaches r' s' t') : e.Reaches r' s' t' :=
  ⟨h'.keeps, h'.progress, h.same.trans h'.same⟩

/-- A loop over the numbers of some pairings revises all of them, if it does at each number what is done to its pairing,
and nothing is done to the others. The numbers of the pairings that go are noted. -/
theorem Keeps.foldl {σ : Type} (out : σ → JoinEngine × List JoinChange) (gone : σ → List Nat) (step : σ → Nat → σ)
    (kind : JoinKind) (f : Matching.Progress → Match → Matching.Progress × Option Match) (selected goes : Match → Bool)
    (hskip : ∀ s p, selected p = false → f s p = (s, some p))
    (hstep : ∀ st before after n p, (out st).1.kind = kind → (out st).1.Keeps (before ++ (n, p) :: after) →
      selected p = true →
      (out st).1.Reaches (out (step st n)) (f (JoinEngine.progress (out st)) p).1
          (before ++ (((f (JoinEngine.progress (out st)) p).2.map (n, ·)).toList ++ after)) ∧
        gone (step st n) = gone st ++ if goes p then [n] else [])
    (done todo : Numbered) (st : σ) (hkind : (out st).1.kind = kind) (h : (out st).1.Keeps (done ++ todo)) :
    let revised := Matching.revise (lift f) (JoinEngine.progress (out st)) todo
    let st' := (numbers (todo.filter (selected ·.2))).foldl step st
    (out st).1.Reaches (out st') revised.1 (done ++ revised.2) ∧
      gone st' = gone st ++ numbers (todo.filter fun x => selected x.2 && goes x.2) := by
  induction todo generalizing done st with
  | nil => exact ⟨⟨h, rfl, .refl _⟩, (List.append_nil _).symm⟩
  | cons x todo ih =>
    obtain ⟨n, p⟩ := x
    rcases hp : selected p with - | -
    · -- the pairing stays as it is
      have hassoc : done ++ (n, p) :: todo = (done ++ [(n, p)]) ++ todo := (List.append_cons ..)
      obtain ⟨hreaches, hgone⟩ := ih (done ++ [(n, p)]) st hkind (hassoc ▸ h)
      simp only [List.filter_cons, hp, Bool.false_and, Bool.false_eq_true, if_false, Matching.revise, lift,
        hskip _ p hp, Option.map_some, Option.toList_some]
      rw [List.append_assoc] at hreaches
      exact ⟨hreaches, hgone⟩
    · obtain ⟨hfirst, hnoted⟩ := hstep st done todo n p hkind h hp
      rw [← List.append_assoc] at hfirst
      obtain ⟨hrest, hgone⟩ := ih _ (step st n) (hfirst.same.kind.trans hkind) hfirst.keeps
      rw [List.append_assoc, hfirst.progress] at hrest
      simp only [List.filter_cons, hp, Bool.true_and, if_true, Matching.revise, lift, numbers_cons, List.foldl_cons]
      refine ⟨hfirst.trans hrest, hgone.trans ?_⟩
      rw [hnoted, List.append_assoc]
      split_ifs <;> rfl

theorem sameGroups_modify (e : JoinEngine) (n : Nat) (f : Pairing → Pairing) : e.SameGroups (e.modifyPairing n f) :=
  ⟨rfl, rfl, fun s => by cases s <;> rfl⟩

/-- A row is set on a side of a pairing, and the identifier of the pairing is brought in line with that. -/
theorem Keeps.set (h : e.Keeps (before ++ (n, p) :: after)) (side : Side) (r : Option Nat) (changes : List JoinChange) :
    let settled := Matching.settle e.kind side (JoinEngine.progress (e, changes)) (p.set side r)
    e.Reaches ((e.modifyPairing n (·.set side r)).refresh n side changes) settled.1
      (before ++ (n, settled.2) :: after) := by
  have hset : Keeps _ (before ++ (n, p.set side r) :: after) :=
    h.modify (f := (·.set side r)) (Match.pairing_set p side r) Match.row_set
  have hreaches := hset.refresh side changes
  exact ⟨hreaches.keeps, hreaches.progress, (sameGroups_modify e n _).trans hreaches.same⟩

/-- A row takes the open sides of the pairings that wait for it. -/
theorem Keeps.foldl_fill (h : e.Keeps t) (side : Side) (key : Value) (source : Nat) (changes : List JoinChange) :
    let filled := Matching.revise (lift (Matching.fill e.kind side key source)) (JoinEngine.progress (e, changes)) t
    e.Reaches ((numbers (t.filter fun x => x.2.key.same key ∧ x.2.on side = none)).foldl (JoinEngine.fill side source)
      (e, changes)) filled.1 filled.2 := by
  refine (Keeps.foldl (fun st => st) (fun _ => []) (JoinEngine.fill side source) e.kind
    (Matching.fill e.kind side key source) (fun p => p.key.same key ∧ p.on side = none) (fun _ => false)
    (fun s p hp => ?_) (fun st before after n p hkind h hp => ⟨?_, rfl⟩) [] t (e, changes) rfl h).1
  · rw [Matching.fill, if_neg (of_decide_eq_false hp)]
  · rw [Matching.fill, if_pos (of_decide_eq_true hp), ← hkind]
    exact h.set side (some source) st.2

/-- A row leaves the pairings in which it stands, one after the other. -/
def leave (e : JoinEngine) (t : Numbered) (side : Side) (source : Nat) (last : Bool) :
    (JoinEngine × List JoinChange) × List Nat :=
  (numbers (t.filter (·.2.on side = some source))).foldl (vacate side last) ((e, []), [])

/-- The pairings that go when a row leaves them: those that do not stay with the side left open. -/
def gone (t : Numbered) (side : Side) (source : Nat) (last : Bool) : List Nat :=
  numbers (t.filter fun x => x.2.on side = some source ∧ ((x.2.on side.other).isSome && last) = false)

/-- A group lists what is left when it strikes the pairings that go. -/
theorem under_vacate {kind : JoinKind} {last : Bool} {source : Nat} (h : t.numbers.Nodup) (s : Matching.Progress)
    (key : Value) :
    under (Matching.revise (lift (Matching.vacate kind side source last)) s t).2 key =
      (t.under key).filter (· ∉ gone t side source last) := by
  rw [under_revise _ (Matching.key_vacate last), under, filter_numbers fun x =>
    decide ¬ (x.2.on side = some source ∧ ((x.2.on side.other).isSome && last) = false)]
  intro x hx
  rw [gone, decide_eq_decide, mem_numbers_filter h hx, decide_eq_true_eq]

theorem Keeps.leave (h : e.Keeps t) (side : Side) (source : Nat) (last : Bool) :
    let left := Matching.revise (lift (Matching.vacate e.kind side source last)) (JoinEngine.progress (e, [])) t
    e.Reaches (e.leave t side source last).1 left.1 left.2 ∧
      (e.leave t side source last).2 = gone t side source last := by
  have hloop := Keeps.foldl (fun st : (JoinEngine × List JoinChange) × List Nat => st.1) (fun st => st.2)
    (JoinEngine.vacate side last) e.kind (Matching.vacate e.kind side source last) (fun p => p.on side = some source)
    (fun p => !((p.on side.other).isSome && last)) (fun s p hp => ?_) (fun st before after n p hkind h hp => ?_)
    [] t ((e, []), []) rfl h
  · refine ⟨hloop.1, hloop.2.trans ?_⟩
    simp [gone]
  · rw [Matching.vacate, if_neg (of_decide_eq_false hp)]
  · obtain ⟨⟨e, changes⟩, destroyed⟩ := st
    have hpaired : (e.pairing? n).any (fun p => (p.on side.other).isSome) = (p.on side.other).isSome := by
      rw [h.pairing?_of_mem (List.mem_append_right _ List.mem_cons_self), Option.any_some, Match.on_pairing]
    rw [JoinEngine.vacate, hpaired, Matching.vacate, if_pos (of_decide_eq_true hp), ← hkind]
    rcases (p.on side.other).isSome && last with - | -
    · exact ⟨h.destroy changes, rfl⟩
    · exact ⟨h.set side none changes, (List.append_nil _).symm⟩

end JoinEngine

end LiveTables
