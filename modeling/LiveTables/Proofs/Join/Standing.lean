import LiveTables.Proofs.Join.Matching
import LiveTables.Proofs.Value.Same
import Mathlib.Data.List.Basic
import Mathlib.Data.List.Nodup

/-!
# The pairings that stand

Rows are linked under classes of keys: `cls side row` is the canonical key under which a row of a side is
linked, if it is. A pairing stands (`Match.Stands`) if it is not empty, its rows are linked under its
key, and a side is left open only if no row of that side is linked under the key. The pairings of a join
are those that stand, each once (`Match.Exact`), and this module shows how that is kept when a row is
linked or unlinked.
-/

namespace LiveTables

theorem Side.eq_or_eq_other (s side : Side) : s = side ∨ s = side.other := by
  cases s <;> cases side <;> simp [Side.other]

theorem Side.other_ne (side : Side) : side.other ≠ side := by cases side <;> simp [Side.other]

theorem Side.ne_other (side : Side) : side ≠ side.other := side.other_ne.symm

namespace Match

variable {p q : Match} {side : Side} {key : Value} {r o : Option Nat} {source : Nat}

@[simp] theorem on_set_self : (p.set side r).on side = r := by cases side <;> rfl

@[simp] theorem on_set_other : (p.set side r).on side.other = p.on side.other := by cases side <;> rfl

@[simp] theorem key_set : (p.set side r).key = p.key := by cases side <;> rfl

/-- What stands on a side does not depend on the identifier. -/
theorem on_withRow {p : Match} (side : Side) (row : Option Nat) :
    ({ p with row } : Match).on side = p.on side := by
  cases side <;> rfl

@[simp] theorem row_set : (p.set side r).row = p.row := by cases side <;> rfl

@[simp] theorem on_ofSides_self : (ofSides key side r o).on side = r := by cases side <;> rfl

@[simp] theorem on_ofSides_other : (ofSides key side r o).on side.other = o := by cases side <;> rfl

@[simp] theorem key_ofSides : (ofSides key side r o).key = key := by cases side <;> rfl

@[simp] theorem row_ofSides : (ofSides key side r o).row = none := by cases side <;> rfl

/-- The rows that stand together. -/
def sides (p : Match) : Option Nat × Option Nat := (p.left, p.right)

theorem sides_eq_iff (side : Side) :
    p.sides = q.sides ↔ p.on side = q.on side ∧ p.on side.other = q.on side.other := by
  cases side <;> simp [sides, on, Side.other, and_comm]

/-- The pairing without its identifier. -/
def shape (p : Match) : Match := { p with row := none }

@[simp] theorem shape_key : p.shape.key = p.key := rfl

@[simp] theorem shape_on : p.shape.on side = p.on side := by cases side <;> rfl

@[simp] theorem shape_sides : p.shape.sides = p.sides := rfl

@[simp] theorem shape_set : (p.set side r).shape = p.shape.set side r := by cases side <;> rfl

/-! ## Standing -/

/-- A side of a pairing is as it has to be: the row there is linked under the key, and it is open only
if no row of the side is. -/
def Sits (cls : Side → Nat → Option Value) (p : Match) (side : Side) : Prop :=
  match p.on side with
  | some row => cls side row = some p.key.canonical
  | none => ∀ row, cls side row ≠ some p.key.canonical

/-- The rows of a pairing belong together, and a side is open only for want of a row. -/
structure Stands (cls : Side → Nat → Option Value) (p : Match) : Prop where
  sits : ∀ side, p.Sits cls side
  occupied : ∃ side, p.on side ≠ none

/-- The pairings that stand, each once. -/
structure Exact (cls : Side → Nat → Option Value) (ps : List Match) : Prop where
  stands : ∀ p ∈ ps, p.Stands cls
  complete : ∀ q : Match, q.Stands cls → q.sides ∈ ps.map sides
  nodup : (ps.map sides).Nodup

variable {cls : Side → Nat → Option Value} {ps : List Match}

theorem sits_of_some (h : p.on side = some source) :
    p.Sits cls side ↔ cls side source = some p.key.canonical := by
  simp [Sits, h]

theorem sits_of_none (h : p.on side = none) :
    p.Sits cls side ↔ ∀ row, cls side row ≠ some p.key.canonical := by
  simp [Sits, h]

theorem stands_iff (side : Side) : p.Stands cls ↔
    p.Sits cls side ∧ p.Sits cls side.other ∧ (p.on side = none → p.on side.other ≠ none) := by
  constructor
  · intro h
    obtain ⟨s, hs⟩ := h.occupied
    refine ⟨h.sits side, h.sits side.other, fun hnone => ?_⟩
    rcases Side.eq_or_eq_other s side with rfl | rfl
    · exact absurd hnone hs
    · exact hs
  · rintro ⟨hside, hother, hocc⟩
    refine ⟨fun s => ?_, ?_⟩
    · rcases Side.eq_or_eq_other s side with rfl | rfl
      · exact hside
      · exact hother
    · by_cases hnone : p.on side = none
      · exact ⟨side.other, hocc hnone⟩
      · exact ⟨side, hnone⟩

/-- Whether a pairing stands depends on its key and its rows alone. -/
theorem stands_shape : p.shape.Stands cls ↔ p.Stands cls := by
  simp [stands_iff Side.left, Sits]

theorem Exact.of_shapes {qs : List Match} (h : Exact cls ps) (hq : qs.map shape = ps.map shape) :
    Exact cls qs := by
  have hsides : qs.map sides = ps.map sides := by
    have hcongr := congrArg (List.map sides) hq
    simpa [Function.comp_def] using hcongr
  refine ⟨fun q hqs => ?_, hsides ▸ h.complete, hsides ▸ h.nodup⟩
  obtain ⟨p, hp, hshape⟩ := List.mem_map.1 (hq ▸ List.mem_map_of_mem (f := shape) hqs)
  rw [← stands_shape, ← hshape, stands_shape]
  exact h.stands p hp

/-- Standing pairings that share a row have keys of one class. -/
theorem Stands.canonical_eq_of_on (hp : p.Stands cls) (hq : q.Stands cls)
    (hpon : p.on side = some source) (hqon : q.on side = some source) :
    p.key.canonical = q.key.canonical := by
  have h₁ := (sits_of_some hpon).1 (hp.sits side)
  have h₂ := (sits_of_some hqon).1 (hq.sits side)
  exact Option.some.inj (h₁.symm.trans h₂)

/-- Standing pairings with the same rows have keys of one class. -/
theorem Stands.canonical_eq (hp : p.Stands cls) (hq : q.Stands cls) (h : p.sides = q.sides) :
    p.key.canonical = q.key.canonical := by
  obtain ⟨side, hocc⟩ := hp.occupied
  obtain ⟨source, hsource⟩ := Option.ne_none_iff_exists'.1 hocc
  exact hp.canonical_eq_of_on hq hsource (((sides_eq_iff side).1 h).1 ▸ hsource)

/-- What stands is there, with the same rows and a key of the same class. -/
theorem Exact.exists_of_stands (h : Exact cls ps) (hq : q.Stands cls) :
    ∃ p ∈ ps, p.sides = q.sides ∧ p.key.canonical = q.key.canonical := by
  obtain ⟨p, hp, hsides⟩ := List.mem_map.1 (h.complete q hq)
  exact ⟨p, hp, hsides, (h.stands p hp).canonical_eq hq hsides⟩

/-- A row does not stand with another one while that one is alone. -/
theorem Stands.on_other_ne (hp : p.Stands cls) (hq : q.Stands cls) (hpon : p.on side = some source)
    (hqon : q.on side = none) : p.on side.other ≠ q.on side.other := by
  intro heq
  obtain ⟨row, hrow⟩ := Option.ne_none_iff_exists'.1 (((stands_iff side).1 hq).2.2 hqon)
  have hkey := hp.canonical_eq_of_on hq (heq.trans hrow) hrow
  exact (sits_of_none hqon).1 (hq.sits side) source (hkey ▸ (sits_of_some hpon).1 (hp.sits side))

/-- A row that is not linked stands nowhere. -/
theorem Stands.on_ne (hp : p.Stands cls) (h : cls side source = none) : p.on side ≠ some source := by
  intro hon
  have hsits := (sits_of_some hon).1 (hp.sits side)
  simp [h] at hsits

/-! ## Linking and unlinking a row -/

/-- The key classes after those of one row changed. -/
def relabel (cls : Side → Nat → Option Value) (side : Side) (source : Nat) (g : Option Value) :
    Side → Nat → Option Value :=
  fun s row => if s = side ∧ row = source then g else cls s row

variable {g : Value}

@[simp] theorem relabel_self (g : Option Value) : relabel cls side source g side source = g := by
  simp [relabel]

@[simp] theorem relabel_other (g : Option Value) (row : Nat) :
    relabel cls side source g side.other row = cls side.other row := by
  simp [relabel, Side.other_ne]

theorem relabel_of_ne (g : Option Value) {row : Nat} (h : row ≠ source) :
    relabel cls side source g side row = cls side row := by
  simp [relabel, h]

theorem sits_relabel_other (g : Option Value) :
    p.Sits (relabel cls side source g) side.other ↔ p.Sits cls side.other := by
  simp [Sits]

theorem sits_relabel_of_ne (g : Option Value) {row : Nat} (hon : p.on side = some row)
    (h : row ≠ source) : p.Sits (relabel cls side source g) side ↔ p.Sits cls side := by
  rw [sits_of_some hon, sits_of_some hon, relabel_of_ne g h]

/-- What stands once a row is linked: the pairings of the row, and those from before that do not wait
for it. -/
theorem stands_link_iff (hfree : cls side source = none) :
    q.Stands (relabel cls side source (some g)) ↔
      (q.on side = some source ∧ q.key.canonical = g ∧ q.Sits cls side.other) ∨
      (q.Stands cls ∧ (q.on side = none → q.key.canonical ≠ g)) := by
  rw [stands_iff side, stands_iff side, sits_relabel_other]
  rcases hon : q.on side with - | row
  · have hside : q.Sits (relabel cls side source (some g)) side ↔
        q.Sits cls side ∧ q.key.canonical ≠ g := by
      rw [sits_of_none hon, sits_of_none hon]
      constructor
      · intro h
        refine ⟨fun row hrow => ?_, fun heq => h source (by simp [heq])⟩
        have hne : row ≠ source := fun heq => by simp [heq, hfree] at hrow
        exact h row (by rwa [relabel_of_ne _ hne])
      · rintro ⟨h, hne⟩ row hrow
        by_cases heq : row = source
        · subst heq
          exact hne (by simpa [eq_comm] using hrow)
        · exact h row (by rwa [relabel_of_ne _ heq] at hrow)
    rw [hside]
    simp
    tauto
  · by_cases heq : row = source
    · subst heq
      have hnot : ¬ q.Sits cls side := by simp [sits_of_some hon, hfree]
      rw [sits_of_some hon, relabel_self]
      simp [hnot, eq_comm]
    · rw [sits_relabel_of_ne _ hon heq]
      simp [heq]

/-- What stands once a row is unlinked: the pairings without it, and if it was the last of its class,
what stood with it. -/
theorem stands_unlink_iff (hlinked : cls side source = some g) :
    q.Stands (relabel cls side source none) ↔ q.on side ≠ some source ∧
      (q.Stands cls ∨ (q.on side = none ∧ q.key.canonical = g ∧ q.Sits cls side.other ∧
        q.on side.other ≠ none ∧ ∀ row, row ≠ source → cls side row ≠ some g)) := by
  rw [stands_iff side, stands_iff side, sits_relabel_other]
  rcases hon : q.on side with - | row
  · have hside : q.Sits (relabel cls side source none) side ↔
        ∀ row, row ≠ source → cls side row ≠ some q.key.canonical := by
      rw [sits_of_none hon]
      constructor
      · intro h row hne
        have hrow := h row
        rwa [relabel_of_ne _ hne] at hrow
      · intro h row
        by_cases heq : row = source
        · simp [heq]
        · rw [relabel_of_ne _ heq]
          exact h row heq
    rw [hside, sits_of_none hon]
    by_cases hkey : q.key.canonical = g
    · subst hkey
      have hnot : ¬ ∀ row, cls side row ≠ some q.key.canonical := fun h => h source hlinked
      simp [hnot]
      tauto
    · have hsource : cls side source ≠ some q.key.canonical := by
        rw [hlinked]
        exact fun h => hkey (Option.some.inj h).symm
      -- a row of another class makes no difference to this one
      have hall : (∀ row, row ≠ source → cls side row ≠ some q.key.canonical) ↔
          ∀ row, cls side row ≠ some q.key.canonical := by
        refine ⟨fun h row => ?_, fun h row _ => h row⟩
        by_cases heq : row = source
        · exact heq ▸ hsource
        · exact h row heq
      rw [hall]
      simp [hkey]
  · by_cases heq : row = source
    · subst heq
      rw [sits_of_some hon, relabel_self]
      simp
    · rw [sits_relabel_of_ne _ hon heq]
      simp [heq]

/-! ## Keeping the pairings exact -/

/-- A row takes the open side of a pairing that waits for it. -/
def taken (side : Side) (key : Value) (source : Nat) (p : Match) : Match :=
  if p.key.same key ∧ p.on side = none then p.set side (some source) else p

/-- A row leaves a pairing, which goes unless the row is the last of its class and another row
remains. -/
def vacated (side : Side) (source : Nat) (last : Bool) (p : Match) : Option Match :=
  if p.on side = some source then
    if (p.on side.other).isSome && last then some (p.set side none) else none
  else some p

theorem mem_vacated {last : Bool} {p' : Match} : p' ∈ vacated side source last p ↔
    (p.on side = some source ∧ p.on side.other ≠ none ∧ last = true ∧ p' = p.set side none) ∨
    (p.on side ≠ some source ∧ p' = p) := by
  rw [vacated]
  split_ifs with hon hstay
  · rw [Bool.and_eq_true, Option.isSome_iff_ne_none] at hstay
    constructor
    · rintro ⟨⟩
      exact .inl ⟨hon, hstay.1, hstay.2, rfl⟩
    · rintro (⟨-, -, -, rfl⟩ | ⟨hne, -⟩)
      · rfl
      · exact absurd hon hne
  · rw [Bool.and_eq_true, Option.isSome_iff_ne_none] at hstay
    constructor
    · rintro ⟨⟩
    · rintro (⟨-, hocc, hall, -⟩ | ⟨hne, -⟩)
      · exact absurd ⟨hocc, hall⟩ hstay
      · exact absurd hon hne
  · constructor
    · rintro ⟨⟩
      exact .inr ⟨hon, rfl⟩
    · rintro (⟨heq, -⟩ | ⟨-, rfl⟩)
      · exact absurd heq hon
      · rfl

/-- Pairings that came from different ones keep different rows. -/
theorem nodup_filterMap_sides {f : Match → Option Match} (h : (ps.map sides).Nodup)
    (hf : ∀ p ∈ ps, ∀ q ∈ ps, ∀ p' ∈ f p, ∀ q' ∈ f q, p'.sides = q'.sides → p.sides = q.sides) :
    ((ps.filterMap f).map sides).Nodup := by
  rw [List.Nodup, List.pairwise_map] at h
  rw [List.Nodup, List.pairwise_map, List.pairwise_filterMap]
  refine h.imp_of_mem fun {p q} hp hq hne p' hp' q' hq' heq => hne ?_
  exact hf p hp q hq p' hp' q' hq' heq

/-- A row is linked, and pairings are made of it with each of `others`. -/
theorem Exact.create {others : List (Option Nat)} {key : Value} (h : Exact cls ps)
    (hfree : cls side source = none) (hnodup : others.Nodup)
    (hothers : ∀ o, o ∈ others ↔ (ofSides key side (some source) o).Sits cls side.other)
    (hclosed : ∀ q : Match, q.Stands cls → q.on side = none → q.key.canonical ≠ key.canonical) :
    Exact (relabel cls side source (some key.canonical))
      (ps ++ others.map (ofSides key side (some source))) where
  stands p hp := by
    rw [stands_link_iff hfree]
    rcases List.mem_append.1 hp with hp | hp
    · exact .inr ⟨h.stands p hp, hclosed p (h.stands p hp)⟩
    · obtain ⟨o, ho, rfl⟩ := List.mem_map.1 hp
      exact .inl ⟨by simp, by simp, (hothers o).1 ho⟩
  complete q hq := by
    rw [List.map_append, List.mem_append]
    rcases (stands_link_iff hfree).1 hq with ⟨hon, hkey, hsits⟩ | ⟨hstands, -⟩
    · right
      have ho : q.on side.other ∈ others := by
        rw [hothers]
        simpa [Sits, hkey] using hsits
      refine List.mem_map.2 ⟨_, List.mem_map_of_mem ho, ?_⟩
      rw [sides_eq_iff side]
      simp [hon]
    · exact .inl (h.complete q hstands)
  nodup := by
    rw [List.map_append, List.nodup_append']
    refine ⟨h.nodup, ?_, ?_⟩
    · rw [List.map_map]
      refine hnodup.map fun o o' heq => ?_
      have hboth := (sides_eq_iff side).1 heq
      simpa using hboth.2
    · -- a row that is not linked stands nowhere yet
      intro lr hold hnew
      obtain ⟨p, hp, rfl⟩ := List.mem_map.1 hold
      obtain ⟨p', hmem, heq⟩ := List.mem_map.1 hnew
      obtain ⟨o, -, rfl⟩ := List.mem_map.1 hmem
      have hon : p.on side = some source := by simpa using (((sides_eq_iff side).1 heq).1).symm
      exact (h.stands p hp).on_ne hfree hon

/-- A row is linked where rows of the other side wait for it. -/
theorem Exact.fill {key : Value} (h : Exact cls ps) (hfree : cls side source = none)
    (hown : ∀ row, cls side row ≠ some key.canonical)
    (hother : ∃ row, cls side.other row = some key.canonical) :
    Exact (relabel cls side source (some key.canonical))
      (ps.filterMap fun p => some (taken side key source p)) where
  stands p hp := by
    obtain ⟨p₀, hp₀, htaken⟩ := List.mem_filterMap.1 hp
    obtain rfl := Option.some.inj htaken
    have hstands := h.stands p₀ hp₀
    rw [stands_link_iff hfree, taken]
    split
    · -- it waited, and stands now with the row
      rename_i hwait
      left
      refine ⟨by simp, ?_, ?_⟩
      · simpa using Value.same_iff.1 hwait.1
      · simpa [Sits] using hstands.sits side.other
    · rename_i hwait
      exact .inr ⟨hstands, fun hnone hkey => hwait ⟨Value.same_iff.2 hkey, hnone⟩⟩
  complete q hq := by
    rw [List.map_filterMap]
    rcases (stands_link_iff hfree).1 hq with ⟨hon, hkey, hsits⟩ | ⟨hstands, hkeep⟩
    · -- what stands with the new row waited for it before
      have hwaited : (q.set side none).Stands cls := by
        rw [stands_iff side]
        refine ⟨?_, by simpa [Sits] using hsits, fun _ hnone => ?_⟩
        · simpa [Sits, hkey] using hown
        · rw [on_set_other] at hnone
          obtain ⟨row, hrow⟩ := hother
          exact (sits_of_none hnone).1 hsits row (hkey ▸ hrow)
      obtain ⟨p, hp, hsides, hcanonical⟩ := h.exists_of_stands hwaited
      have hboth := (sides_eq_iff side).1 hsides
      rw [on_set_self, on_set_other] at hboth
      rw [key_set, hkey] at hcanonical
      refine List.mem_filterMap.2 ⟨p, hp, ?_⟩
      rw [taken, if_pos ⟨Value.same_iff.2 hcanonical, hboth.1⟩, Option.map_some, Option.some.injEq,
        sides_eq_iff side, on_set_self, on_set_other]
      exact ⟨hon.symm, hboth.2⟩
    · -- what stood and did not wait is left as it was
      obtain ⟨p, hp, hsides, hcanonical⟩ := h.exists_of_stands hstands
      refine List.mem_filterMap.2 ⟨p, hp, ?_⟩
      rw [taken, if_neg, Option.map_some, hsides]
      rintro ⟨hsame, hnone⟩
      rw [((sides_eq_iff side).1 hsides).1] at hnone
      exact hkeep hnone (hcanonical ▸ Value.same_iff.1 hsame)
  nodup := by
    refine nodup_filterMap_sides h.nodup fun p hp q hq p' hp' q' hq' heq => ?_
    obtain rfl := Option.some.inj hp'
    obtain rfl := Option.some.inj hq'
    have hne (p : Match) (hp : p ∈ ps) : p.on side ≠ some source := (h.stands p hp).on_ne hfree
    rw [taken, taken, sides_eq_iff side] at heq
    rw [sides_eq_iff side]
    split_ifs at heq with hpw hqw hqw
    · simp_all
    · exact absurd (by simpa using heq.1.symm) (hne q hq)
    · exact absurd (by simpa using heq.1) (hne p hp)
    · exact heq

/-- A row is unlinked. -/
theorem Exact.vacate {last : Bool} (h : Exact cls ps) (hlinked : cls side source = some g)
    (hlast : last = true ↔ ∀ row, row ≠ source → cls side row ≠ some g) :
    Exact (relabel cls side source none) (ps.filterMap (vacated side source last)) where
  stands p' hp' := by
    obtain ⟨p, hp, hvacated⟩ := List.mem_filterMap.1 hp'
    have hstands := h.stands p hp
    rw [stands_unlink_iff hlinked]
    rcases mem_vacated.1 hvacated with ⟨hon, hocc, hall, rfl⟩ | ⟨hon, rfl⟩
    · have hkey : p.key.canonical = g := by
        have hsits := (sits_of_some hon).1 (hstands.sits side)
        exact Option.some.inj (hsits.symm.trans hlinked)
      refine ⟨by simp, .inr ⟨by simp, by simpa using hkey, ?_, by simpa using hocc, hlast.1 hall⟩⟩
      simpa [Sits] using hstands.sits side.other
    · exact ⟨hon, .inl hstands⟩
  complete q hq := by
    rw [List.map_filterMap]
    obtain ⟨hon, hstands | ⟨hnone, hkey, hsits, hocc, hothers⟩⟩ := (stands_unlink_iff hlinked).1 hq
    · obtain ⟨p, hp, hsides, -⟩ := h.exists_of_stands hstands
      refine List.mem_filterMap.2 ⟨p, hp, ?_⟩
      rw [vacated, if_neg (((sides_eq_iff side).1 hsides).1 ▸ hon), Option.map_some, hsides]
    · -- what stands alone from now on stood with the row before
      have hbefore : (q.set side (some source)).Stands cls := by
        rw [stands_iff side]
        refine ⟨?_, by simpa [Sits] using hsits, by simp⟩
        rw [sits_of_some on_set_self, hlinked, key_set, hkey]
      obtain ⟨p, hp, hsides, -⟩ := h.exists_of_stands hbefore
      have hboth := (sides_eq_iff side).1 hsides
      rw [on_set_self, on_set_other] at hboth
      refine List.mem_filterMap.2 ⟨p, hp, ?_⟩
      have hstay : ((p.on side.other).isSome && last) = true := by
        rw [hboth.2, Bool.and_eq_true, Option.isSome_iff_ne_none]
        exact ⟨hocc, hlast.2 hothers⟩
      rw [vacated, if_pos hboth.1, if_pos hstay, Option.map_some, Option.some.injEq,
        sides_eq_iff side, on_set_self, on_set_other]
      exact ⟨hnone.symm, hboth.2⟩
  nodup := by
    refine nodup_filterMap_sides h.nodup fun p hp q hq p' hp' q' hq' heq => ?_
    have hclash {p q : Match} (hp : p ∈ ps) (hq : q ∈ ps) (hpon : p.on side = some source) :=
      (h.stands p hp).on_other_ne (h.stands q hq) hpon
    rw [sides_eq_iff side] at heq ⊢
    -- two pairings cannot become one: the other side of a vacated one is not alone elsewhere
    rcases mem_vacated.1 hp' with ⟨hpon, -, -, rfl⟩ | ⟨-, rfl⟩ <;>
      rcases mem_vacated.1 hq' with ⟨hqon, -, -, rfl⟩ | ⟨-, rfl⟩
    · exact ⟨hpon.trans hqon.symm, by simpa using heq.2⟩
    · rw [on_set_self, on_set_other] at heq
      exact absurd heq.2 (hclash hp hq hpon heq.1.symm)
    · rw [on_set_self, on_set_other] at heq
      exact absurd heq.2.symm (hclash hq hp hqon heq.1)
    · exact heq

end Match

end LiveTables
