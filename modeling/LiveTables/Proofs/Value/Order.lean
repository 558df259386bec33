import LiveTables.Proofs.Value.Decimals
import LiveTables.Proofs.Value.Same
import LiveTables.Value.Order

/-!
# The order of values

A value has a kind, and in it a number or a text. Values are the same just when these are equal
(`Value.same_iff_compareKeys`), and they are compared by them, one after the other (`Value.cmp_eq_compareKeys`), but
for decimals that cannot be brought to one scale. So the comparison is a total order of the classes of values that are
the same, as long as the decimals among them can be brought to one scale (`Value.cmp_lawful`). Where they cannot, the
words nearest to them decide, which do not tell all numbers apart.
-/

namespace LiveTables

/-- Words of a format are told apart by their places in the total order. -/
theorem Ieee.Format.orderKey_injective {f : Ieee.Format} {v w : Nat} (hv : v < 2 * f.signBit) (hw : w < 2 * f.signBit)
    (h : f.orderKey v = f.orderKey w) : v = w := by
  have hsplit (n : Nat) (hn : n < 2 * f.signBit) : f.magnitude n = if f.signBit ≤ n then n - f.signBit else n := by
    unfold magnitude
    split_ifs with hle
    · rw [Nat.mod_eq_sub_mod hle, Nat.mod_eq_of_lt (by omega)]
    · exact Nat.mod_eq_of_lt (by omega)
  unfold orderKey isNegative at h
  rw [hsplit v hv, hsplit w hw] at h
  simp only [decide_eq_true_eq] at h
  split_ifs at h <;> omega

namespace Value

variable {a b c : Value}

/-- The number of a value; zero for a text. Decimals count the smallest units. -/
def units : Value → Int
  | boolean b => b.toNat
  | byte n => n.toNat
  | char c => c.toNat
  | int16 n => n.toInt
  | int32 n => n.toInt
  | int64 n | timestamp n | duration n => n.toInt
  | float32 w => Ieee.binary32.orderKey w.toNat
  | float64 w => Ieee.binary64.orderKey w.toNat
  | decimal d => d.units
  | string _ => 0
  | guid w => w.toNat

/-- The text of a value; none for a number. -/
def letters : Value → String
  | string s => s
  | _ => ""

/-- Compares kind, number and text, one after the other. -/
def compareKeys (a b : Value) : Ordering :=
  (compare a.kind.rank b.kind.rank).then ((compare a.units b.units).then (compare a.letters b.letters))

instance : Std.TransCmp compareKeys :=
  inferInstanceAs (Std.TransCmp (compareLex (compareOn fun v : Value => v.kind.rank)
    (compareLex (compareOn units) (compareOn letters))))

/-- Values of which the decimals can be brought to one scale. -/
def Comparable : Value → Value → Prop
  | decimal a, decimal b => a.Comparable b
  | _, _ => True

/-! ## Sameness -/

theorem compareKeys_eq_iff :
    compareKeys a b = .eq ↔ a.kind = b.kind ∧ a.units = b.units ∧ a.letters = b.letters := by
  unfold compareKeys
  rw [Ordering.then_eq_eq, Ordering.then_eq_eq, Std.compare_eq_iff_eq, Std.compare_eq_iff_eq, Std.compare_eq_iff_eq]
  exact and_congr_left fun _ => ⟨Kind.rank_injective, congrArg Kind.rank⟩

theorem toNat_bool_inj {a b : Bool} : a.toNat = b.toNat ↔ a = b := by
  cases a <;> cases b <;> simp

theorem orderKey_float32_inj {v w : UInt32} :
    Ieee.binary32.orderKey v.toNat = Ieee.binary32.orderKey w.toNat ↔ v = w := by
  have hlt (w : UInt32) : w.toNat < 2 * Ieee.binary32.signBit := w.toNat_lt
  exact ⟨fun h => UInt32.toNat_inj.mp (Ieee.Format.orderKey_injective (hlt v) (hlt w) h), fun h => h ▸ rfl⟩

theorem orderKey_float64_inj {v w : UInt64} :
    Ieee.binary64.orderKey v.toNat = Ieee.binary64.orderKey w.toNat ↔ v = w := by
  have hlt (w : UInt64) : w.toNat < 2 * Ieee.binary64.signBit := w.toNat_lt
  exact ⟨fun h => UInt64.toNat_inj.mp (Ieee.Format.orderKey_injective (hlt v) (hlt w) h), fun h => h ▸ rfl⟩

/-- Values are the same just when kind, number and text are equal. -/
theorem same_iff_compareKeys : a.same b = true ↔ compareKeys a b = .eq := by
  rw [compareKeys_eq_iff]
  by_cases hkind : a.kind = b.kind
  · cases a <;> cases b <;> first
      | cases hkind; done
      | simp only [same, units, letters, kind, decide_eq_true_eq, true_and, and_true, boolean.injEq, byte.injEq,
          char.injEq, int16.injEq, int32.injEq, int64.injEq, float32.injEq, float64.injEq, string.injEq,
          timestamp.injEq, duration.injEq, guid.injEq, Decimal.same_iff_units, Int.natCast_inj, toNat_bool_inj,
          ← UInt8.toNat_inj, Int16.toInt_inj, Int32.toInt_inj, Int64.toInt_inj, orderKey_float32_inj,
          orderKey_float64_inj, ← BitVec.toNat_inj, ← Char.toNat_inj]
  · exact ⟨fun h => absurd (kind_eq_of_same h) hkind, fun h => absurd h.1 hkind⟩

/-! ## Order -/

theorem compare_cast (m n : Nat) : compare (m : Int) (n : Int) = compare m n := by
  show compareOfLessAndEq _ _ = compareOfLessAndEq _ _
  unfold compareOfLessAndEq
  simp only [Int.ofNat_lt, Int.ofNat_inj]

theorem cmp_of_kind_ne (h : a.kind ≠ b.kind) : a.cmp b = compare a.kind.rank b.kind.rank := by
  cases a <;> cases b <;> first | rfl | exact absurd rfl h

/-- Values are compared by kind, number and text. -/
theorem cmp_eq_compareKeys (h : a.Comparable b) : a.cmp b = compareKeys a b := by
  unfold compareKeys
  by_cases hkind : a.kind = b.kind
  · cases a <;> cases b <;> first
      | cases hkind; done
      | simp [cmp, units, letters, kind, compare_cast]; done
      | simp [cmp, units, letters, kind, Decimal.cmp_of_comparable h]
  · have hne : compare a.kind.rank b.kind.rank ≠ .eq := fun heq =>
      hkind (Kind.rank_injective (Nat.compare_eq_eq.mp heq))
    rw [cmp_of_kind_ne hkind]
    cases hcompare : compare a.kind.rank b.kind.rank with
    | lt | gt => rfl
    | eq => exact absurd hcompare hne

theorem cmp_swap (a b : Value) : b.cmp a = (a.cmp b).swap := by
  by_cases hkind : a.kind = b.kind
  · cases a <;> cases b <;> first
      | cases hkind; done
      | exact Decimal.cmp_swap _ _
      | exact Std.OrientedOrd.eq_swap
  · rw [cmp_of_kind_ne hkind, cmp_of_kind_ne (Ne.symm hkind)]
    exact Std.OrientedOrd.eq_swap

/-- Values that are the same can be brought to one scale. -/
theorem comparable_of_same (h : a.same b = true) : a.Comparable b := by
  cases a <;> cases b <;> first
    | exact Decimal.comparable_of_units_eq (Decimal.same_iff_units.mp h)
    | trivial

/-- The comparison can be turned around. Values that are the same can be brought to one scale, and are equal in it.
Where values can be brought to one scale, only those that are the same are equal, decimals stand in the order of their
numbers, and what is at most another value, which is at most a third one, is at most this. -/
theorem cmp_lawful (a b c : Value) :
    b.cmp a = (a.cmp b).swap ∧
    (a.same b = true → a.Comparable b ∧ a.cmp b = .eq) ∧
    (a.Comparable b → a.cmp b = .eq → a.same b = true) ∧
    (a.Comparable b → b.Comparable c → a.Comparable c →
      (a.cmp b).isLE = true → (b.cmp c).isLE = true → (a.cmp c).isLE = true) ∧
    ∀ x y, a = decimal x → b = decimal y → a.Comparable b → a.cmp b = compareOfLessAndEq x.number y.number := by
  refine ⟨cmp_swap a b, fun hsame => ?_, fun hab heq => ?_, fun hab hbc hac hle hle' => ?_, ?_⟩
  · have hab := comparable_of_same hsame
    rw [cmp_eq_compareKeys hab]
    exact ⟨hab, same_iff_compareKeys.mp hsame⟩
  · rw [cmp_eq_compareKeys hab] at heq
    exact same_iff_compareKeys.mpr heq
  · rw [cmp_eq_compareKeys hab] at hle
    rw [cmp_eq_compareKeys hbc] at hle'
    rw [cmp_eq_compareKeys hac]
    exact Std.TransCmp.isLE_trans hle hle'
  · rintro x y rfl rfl hab
    exact (Decimal.cmp_of_comparable hab).trans (Decimal.compare_units x y)

/-- The decimal of a mantissa and a number of fractional digits. -/
def digits (m : Mantissa) (s : Fin 29) : Decimal := ⟨m, s.val, Nat.le_of_lt_succ s.isLt⟩

namespace Scales

/-- One and a half. -/
def short : Decimal := digits ⟨15, by decide⟩ 1

/-- The same number with one digit more. -/
def long : Decimal := digits ⟨150, by decide⟩ 2

/-- Two, without fractional digits. -/
def two : Decimal := digits ⟨2, by decide⟩ 0

theorem cmp_lawful_scales : short.Comparable long ∧ long.Comparable two ∧ short.Comparable two ∧
    ((decimal short).cmp (decimal long)).isLE = true ∧ ((decimal long).cmp (decimal two)).isLE = true ∧
    ((decimal short).cmp (decimal two)).isLE = true := by
  have hshort : short.Comparable long := by decide +kernel
  have hlong : long.Comparable two := by decide +kernel
  have htwo : short.Comparable two := by decide +kernel
  have hle : ((decimal short).cmp (decimal long)).isLE = true := by decide +kernel
  have hle' : ((decimal long).cmp (decimal two)).isLE = true := by decide +kernel
  have hlawful := cmp_lawful (decimal short) (decimal long) (decimal two)
  exact ⟨hshort, hlong, htwo, hle, hle', hlawful.2.2.2.1 hshort hlong htwo hle hle'⟩

end Scales

namespace Extreme

/-- The greatest mantissa. -/
def greatest : Mantissa := ⟨2 ^ 127 - 1, by decide⟩

/-- The greatest decimal with one fractional digit. -/
def tenth : Decimal := digits greatest 1

/-- The least integer that is greater. -/
def above : Decimal := digits ⟨17014118346046923173168730371588410573, by decide⟩ 0

/-- The next integer. -/
def next : Decimal := digits ⟨17014118346046923173168730371588410574, by decide⟩ 0

/-- The integer falls out of range at the scale of the other one, and both are near to one word: the integer compares
as equal to a smaller number, and by way of this, two integers as if they stood the other way. -/
theorem not_cmp_lawful_extreme : (decimal above).cmp (decimal tenth) = .eq ∧
    (decimal above).same (decimal tenth) = false ∧ tenth.number < above.number ∧
    (decimal next).cmp (decimal tenth) = .eq ∧ (decimal tenth).cmp (decimal above) = .eq ∧
    (decimal next).cmp (decimal above) = .gt := by
  refine ⟨by decide +kernel, by decide +kernel, ?_, by decide +kernel, by decide +kernel, by decide +kernel⟩
  decide +kernel

end Extreme

end Value

end LiveTables
