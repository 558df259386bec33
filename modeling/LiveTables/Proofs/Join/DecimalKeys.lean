import LiveTables.Proofs.Join.Contents
import LiveTables.Proofs.Value.Reduced

/-!
# Joins by decimals

Rows are joined by the numbers that their keys denote: a row stands in the group of a decimal just if it is linked under
a decimal of the same number, whatever the scales are (`JoinEngine.Sound.stands_in_group_decimal`). So the groups of two
decimals are one in every run just when the decimals denote one number, which their reduced forms tell
(`Decimal.same_reduced`).
-/

namespace LiveTables

open Match

variable {a b : Decimal} {v : Value}

/-- One decimal stands for all values that are the same as a decimal. -/
theorem Value.canonical_eq_decimal_iff :
    v.canonical = (Value.decimal a).canonical ↔ ∃ d, v = .decimal d ∧ d.number = a.number := by
  cases v <;> simp [Value.canonical, Decimal.normalize_eq_iff]

namespace JoinEngine

variable {e : JoinEngine} {side : Side} {row : Nat} {key : Value}

/-- A row stands in the group of a key just if it is linked under a value that is the same. -/
theorem Sound.stands_in_group_iff (h : e.Sound) :
    (∃ p ∈ e.listed key, p.on side = some row) ↔ e.keyClass? side row = some key.canonical := by
  obtain ⟨m, hrepresents, hm⟩ := h
  rw [hrepresents.listed, hrepresents.keyClass?]
  constructor
  · rintro ⟨q, hq, hon⟩
    obtain ⟨p, hp, rfl⟩ := List.mem_map.1 hq
    obtain ⟨hp, hsame⟩ := List.mem_filter.1 hp
    rw [on_pairing] at hon
    rw [← Value.same_iff.1 hsame]
    exact (sits_of_some hon).1 ((hm.exact.stands p hp).sits side)
  · intro hlinked
    obtain ⟨other, hstands⟩ := exists_stands hlinked
    obtain ⟨p, hp, hsides, hkey⟩ := hm.exact.exists_of_stands hstands
    rw [key_ofSides] at hkey
    refine ⟨p.pairing, List.mem_map_of_mem (List.mem_filter.2 ⟨hp, Value.same_iff.2 hkey⟩), ?_⟩
    rw [on_pairing, ((sides_eq_iff side).1 hsides).1, on_ofSides_self]

/-- A row stands in the group of a decimal just if it is linked under a decimal of the same number. -/
theorem Sound.stands_in_group_decimal (h : e.Sound) :
    (∃ p ∈ e.listed (.decimal a), p.on side = some row) ↔
      ∃ d, e.key? side row = some (.decimal d) ∧ d.number = a.number := by
  rw [h.stands_in_group_iff, keyClass?_eq_some_iff]
  simp only [Value.canonical_eq_decimal_iff]
  constructor
  · rintro ⟨k, hk, d, rfl, hnumber⟩
    exact ⟨d, hk, hnumber⟩
  · rintro ⟨d, hk, hnumber⟩
    exact ⟨_, hk, d, rfl, hnumber⟩

/-- The groups of two decimals are one in every run just when the decimals denote one number. -/
theorem group_decimal_eq_iff :
    (∀ kind calls, (run kind calls).group? (.decimal a) = (run kind calls).group? (.decimal b)) ↔
      a.number = b.number := by
  constructor
  · intro h
    -- a row is linked under the first decimal, and is found in the group of the second one
    have hkey : (run .inner [.link .left 0 (.decimal a)]).key? .left 0 = some (.decimal a) :=
      (represents_run .inner [.link .left 0 (.decimal a)]).key? .left 0
    have hstands := (sound_run .inner [.link .left 0 (.decimal a)]).stands_in_group_decimal.2 ⟨a, hkey, rfl⟩
    rw [listed, groupOf, h, ← groupOf, ← listed, (sound_run _ _).stands_in_group_decimal] at hstands
    obtain ⟨d, hd, hnumber⟩ := hstands
    obtain rfl : a = d := Value.decimal.inj (Option.some.inj (hkey.symm.trans hd))
    exact hnumber
  · intro hnumber kind calls
    refine group?_congr ?_ _
    rw [Value.canonical, Value.canonical, Decimal.normalize_eq_iff.2 hnumber]

end JoinEngine

open JoinEngine

/-- Decimals are the same just when they denote one number, and just when mantissa and scale of their reduced forms are
equal; so this is an equivalence. The reduced form of a decimal denotes its number at the least scale, and is reduced.
Two decimals lead to one group just when they denote one number, and the rows of two sources that are linked under
decimals are in one group just if the decimals denote one number. -/
theorem Decimal.same_reduced (a b : Decimal) :
    (a.same b = true ↔ a.number = b.number) ∧
    (a.normalize.number = a.number ∧
      IsLeast {s | ∃ d : Decimal, d.number = a.number ∧ d.scale = s} a.normalize.scale ∧
      a.normalize.normalize = a.normalize) ∧
    (a.same b = true ↔ a.normalize.mantissa = b.normalize.mantissa ∧ a.normalize.scale = b.normalize.scale) ∧
    Equivalence (fun x y : Decimal => x.same y = true) ∧
    ((∀ kind calls, (run kind calls).group? (.decimal a) = (run kind calls).group? (.decimal b)) ↔
      a.number = b.number) ∧
    ∀ kind calls side row, (∃ p ∈ (run kind calls).listed (.decimal a), p.on side = some row) ↔
      ∃ d, (run kind calls).key? side row = some (.decimal d) ∧ d.number = a.number := by
  refine ⟨Decimal.same_iff_number, ⟨a.number_normalize, a.isLeast_scale_normalize, a.normalize_normalize⟩, ?_,
    Decimal.equivalence_same, group_decimal_eq_iff, fun kind calls side row => ?_⟩
  · rw [Decimal.same_iff_normalize, Decimal.eq_iff, Subtype.ext_iff]
  · exact (sound_run kind calls).stands_in_group_decimal

end LiveTables
