import LiveTables.Decimal.Text
import Mathlib.Data.List.TakeWhile
import Mathlib.Tactic.SplitIfs

/-!
# Decimal literals

The text of a decimal is a sign, the digits in front of the point, and exactly `scale` digits behind it. The digits
together denote the magnitude of the mantissa, so that the literal is read with the scale and the mantissa with which
it was written, if the magnitude is in the range of the positive mantissas (`Decimal.ofDigits?_literal`). It is so for
all mantissas but the least one, whose magnitude is one more than the greatest mantissa: the text of a decimal reads
back as itself unless its mantissa is the least (`Decimal.parse_text`).
-/

namespace LiveTables

namespace Decimal

variable {c : Char} {cs : List Char} {n k width : Nat}

/-! ## Digits -/

theorem digit?_of_isDigit (h : c.isDigit) : digit? c = some (c.toNat - '0'.toNat) := by
  have hrange : '0' ≤ c ∧ c ≤ '9' := by
    simpa [Char.isDigit, Char.le_def] using h
  rw [digit?, if_pos hrange]

/-- Digits denote the number that they denote in positional notation. -/
theorem digits?_of_isDigit (h : ∀ c ∈ cs, c.isDigit) : digits? n cs = some (Nat.ofDigitChars 10 cs n) := by
  induction cs generalizing n with
  | nil => rw [Nat.ofDigitChars_nil, digits?]
  | cons c cs ih =>
    obtain ⟨hc, hrest⟩ := List.forall_mem_cons.1 h
    rw [digits?, digit?_of_isDigit hc, Nat.ofDigitChars_cons]
    exact ih hrest

theorem isDigit_of_mem_toDigits (h : c ∈ Nat.toDigits 10 n) : c.isDigit :=
  Nat.isDigit_of_mem_toDigits (by decide) (by decide) h

theorem isDigit_of_mem_paddedDigits (h : c ∈ paddedDigits width n) : c.isDigit := by
  rcases List.mem_append.1 h with hzero | hdigit
  · obtain rfl := List.eq_of_mem_replicate hzero
    rfl
  · exact isDigit_of_mem_toDigits hdigit

/-- Digits are padded to the width exactly, if it has room for them. -/
theorem length_paddedDigits (hwidth : 0 < width) (h : n < 10 ^ width) : (paddedDigits width n).length = width := by
  have hle : (Nat.toDigits 10 n).length ≤ width := (Nat.length_toDigits_le_iff (by decide) hwidth).2 h
  rw [paddedDigits, List.length_append, List.length_replicate]
  omega

/-- Padding in front of digits changes nothing of what they denote. -/
theorem ofDigitChars_paddedDigits (width n : Nat) : Nat.ofDigitChars 10 (paddedDigits width n) 0 = n := by
  rw [paddedDigits, Nat.ofDigitChars_append, Nat.ofDigitChars_replicate_zero, Nat.mul_zero,
    Nat.ofDigitChars_ten_toDigits]

/-! ## The point -/

/-- Digits, and a point with what is behind it, if there is one. -/
def pointed (whole : List Char) : Option (List Char) → List Char
  | none => whole
  | some fraction => whole ++ '.' :: fraction

theorem ne_of_isDigit {c' : Char} (h : c.isDigit) (h' : c'.isDigit = false) : c ≠ c' := by
  rintro rfl
  exact absurd h (by simp [h'])

section Pointed

variable {whole : List Char} (h : ∀ c ∈ whole, c.isDigit) (fraction? : Option (List Char))

include h

/-- No digit is a point. -/
theorem ne_point_of_isDigit : ∀ c ∈ whole, decide (c ≠ '.') = true := fun c hc =>
  decide_eq_true (ne_of_isDigit (h c hc) rfl)

theorem takeWhile_pointed : (pointed whole fraction?).takeWhile (· ≠ '.') = whole := by
  cases fraction? with
  | none => exact List.takeWhile_eq_self_iff.2 (ne_point_of_isDigit h)
  | some fraction =>
    have hstop : ('.' :: fraction).takeWhile (· ≠ '.') = [] := List.takeWhile_cons_of_neg (by decide)
    rw [pointed, List.takeWhile_append_of_pos (ne_point_of_isDigit h), hstop, List.append_nil]

theorem drop_dropWhile_pointed : ((pointed whole fraction?).dropWhile (· ≠ '.')).drop 1 = fraction?.getD [] := by
  cases fraction? with
  | none =>
    rw [pointed, List.dropWhile_eq_nil_iff.2 (ne_point_of_isDigit h), List.drop_nil]
    rfl
  | some fraction =>
    have hstop : ('.' :: fraction).dropWhile (· ≠ '.') = '.' :: fraction := List.dropWhile_cons_of_neg (by decide)
    rw [pointed, List.dropWhile_append_of_pos (ne_point_of_isDigit h), hstop, List.drop_one, List.tail_cons]
    rfl

end Pointed

/-! ## The parts of a literal -/

/-- The digits of the mantissa as a number. -/
def magnitude (d : Decimal) : Nat := d.mantissa.val.natAbs

/-- The digits in front of the point. -/
def whole (d : Decimal) : List Char := Nat.toDigits 10 (d.magnitude / 10 ^ d.scale)

/-- The digits behind the point, if there is one. -/
def fraction (d : Decimal) : List Char :=
  if d.scale = 0 then [] else paddedDigits d.scale (d.magnitude % 10 ^ d.scale)

/-- The literal without its sign. -/
def unsigned (d : Decimal) : List Char := if d.scale = 0 then d.whole else d.whole ++ '.' :: d.fraction

variable (d : Decimal)

theorem toChars_eq : d.toChars = (if d.mantissa.val < 0 then ['-'] else []) ++ d.unsigned := by
  rw [toChars, unsigned, fraction, whole, magnitude]
  by_cases hscale : d.scale = 0
  · simp [hscale]
  · simp [hscale]

theorem isDigit_of_mem_whole (h : c ∈ d.whole) : c.isDigit := isDigit_of_mem_toDigits h

theorem isDigit_of_mem_fraction (h : c ∈ d.fraction) : c.isDigit := by
  rw [fraction] at h
  split_ifs at h
  · cases h
  · exact isDigit_of_mem_paddedDigits h

theorem length_fraction : d.fraction.length = d.scale := by
  rw [fraction]
  split_ifs with hscale
  · exact hscale.symm
  · exact length_paddedDigits (Nat.pos_of_ne_zero hscale) (Nat.mod_lt _ (Nat.pow_pos (by decide)))

theorem ofDigitChars_fraction : Nat.ofDigitChars 10 d.fraction 0 = d.magnitude % 10 ^ d.scale := by
  rw [fraction]
  split_ifs with hscale
  · rw [hscale, Nat.pow_zero, Nat.mod_one, Nat.ofDigitChars_nil]
  · exact ofDigitChars_paddedDigits _ _

/-- The digits on both sides of the point denote the magnitude. -/
theorem digits?_whole_fraction : digits? 0 (d.whole ++ d.fraction) = some d.magnitude := by
  have hdigits : ∀ c ∈ d.whole ++ d.fraction, c.isDigit := fun c hc =>
    (List.mem_append.1 hc).elim d.isDigit_of_mem_whole d.isDigit_of_mem_fraction
  rw [digits?_of_isDigit hdigits, Nat.ofDigitChars_append, Nat.ofDigitChars_eq_ofDigitChars_zero,
    d.ofDigitChars_fraction, d.length_fraction, whole, Nat.ofDigitChars_ten_toDigits, Nat.div_add_mod]

/-- A literal is read with its sign, its magnitude and its scale, if the magnitude is a mantissa. -/
theorem ofDigits?_literal (negative : Bool) : ofDigits? negative d.whole d.fraction =
    if h : d.magnitude < 2 ^ 127 then
      some ⟨⟨if negative then -d.magnitude else d.magnitude, by split <;> omega⟩, d.scale, d.scale_le⟩
    else none := by
  have hwhole : d.whole.isEmpty = false := by simp [whole]
  have hscale := d.scale_le
  simp only [ofDigits?, hwhole, d.digits?_whole_fraction, d.length_fraction]
  split_ifs <;> simp_all

/-! ## Reading back -/

theorem splitSign_of_isDigit (h : c.isDigit) : splitSign (c :: cs) = (false, c :: cs) := by
  have hminus : c ≠ '-' := ne_of_isDigit h rfl
  have hplus : c ≠ '+' := ne_of_isDigit h rfl
  rw [splitSign]
  · simpa using hminus
  · simpa using hplus

theorem splitSign_toChars : splitSign d.toChars = (decide (d.mantissa.val < 0), d.unsigned) := by
  obtain ⟨c, cs, hwhole⟩ : ∃ c cs, d.whole = c :: cs := List.exists_cons_of_ne_nil Nat.toDigits_ne_nil
  have hc : c.isDigit := d.isDigit_of_mem_whole (hwhole ▸ List.mem_cons_self)
  obtain ⟨cs', hunsigned⟩ : ∃ cs', d.unsigned = c :: cs' := by
    rw [unsigned, hwhole]
    split_ifs
    · exact ⟨cs, rfl⟩
    · exact ⟨_, List.cons_append⟩
  rw [toChars_eq, hunsigned]
  split_ifs with hneg
  · simp [splitSign, hneg]
  · simp [splitSign_of_isDigit hc, hneg]

theorem unsigned_eq : d.unsigned = pointed d.whole (if d.scale = 0 then none else some d.fraction) := by
  rw [unsigned]
  split_ifs <;> rfl

theorem takeWhile_unsigned : d.unsigned.takeWhile (· ≠ '.') = d.whole := by
  rw [unsigned_eq]
  exact takeWhile_pointed (fun _ => d.isDigit_of_mem_whole) _

theorem drop_dropWhile_unsigned : (d.unsigned.dropWhile (· ≠ '.')).drop 1 = d.fraction := by
  rw [unsigned_eq, drop_dropWhile_pointed fun _ => d.isDigit_of_mem_whole]
  split_ifs with hscale
  · rw [fraction, if_pos hscale]
    rfl
  · rfl

/-- The magnitude of every mantissa is one, the least one's apart. -/
theorem magnitude_lt_iff : d.magnitude < 2 ^ 127 ↔ d.mantissa.val ≠ -2 ^ 127 := by
  have hrange := d.mantissa.2
  rw [magnitude]
  omega

theorem ofChars?_toChars : ofChars? d.toChars = if d.mantissa.val = -2 ^ 127 then none else some d := by
  rw [ofChars?, splitSign_toChars]
  dsimp only
  rw [takeWhile_unsigned, drop_dropWhile_unsigned, ofDigits?_literal]
  by_cases hleast : d.mantissa.val = -2 ^ 127
  · rw [dif_neg fun h => d.magnitude_lt_iff.1 h hleast, if_pos hleast]
  · rw [dif_pos (d.magnitude_lt_iff.2 hleast), if_neg hleast]
    have hmantissa : (if decide (d.mantissa.val < 0) = true then -(d.magnitude : Int) else d.magnitude) =
        d.mantissa.val := by
      rw [magnitude]
      split_ifs with hneg
      · rw [decide_eq_true_eq] at hneg
        omega
      · rw [decide_eq_true_eq] at hneg
        omega
    obtain ⟨⟨m, hm⟩, s, hs⟩ := d
    simp only [Option.some.injEq, Decimal.mk.injEq, Subtype.mk.injEq, and_true]
    exact hmantissa

end Decimal

/-- The text of a decimal reads back as the decimal, mantissa and scale, unless the mantissa is the least one. That
one is not read back at any scale. -/
theorem Decimal.parse_text (d : Decimal) : Decimal.parse d.text =
    if d.mantissa.val = -2 ^ 127 then .error (.invalidOperation .malformedDecimal) else .ok d := by
  rw [Decimal.parse, Decimal.text, String.toList_ofList, Decimal.ofChars?_toChars]
  split_ifs <;> rfl

/-- The least mantissa. -/
def Mantissa.least : Mantissa := ⟨-2 ^ 127, by decide⟩

/-- Not every text of a decimal is read back: the digits of the least mantissa denote no mantissa without the sign. -/
theorem Decimal.not_parse_text_least : ¬ ∀ (m : Mantissa) (s : Nat) (d : Decimal),
    Decimal.ofMantissa m s = .ok d → Decimal.parse d.text = .ok d := by
  intro h
  have hread := h Mantissa.least 0 ⟨Mantissa.least, 0, by decide⟩ rfl
  have hrefused : Decimal.parse (Decimal.text ⟨Mantissa.least, 0, by decide⟩) =
      .error (.invalidOperation .malformedDecimal) := by decide +kernel
  rw [hrefused] at hread
  cases hread

end LiveTables
