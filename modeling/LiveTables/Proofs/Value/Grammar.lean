import LiveTables.Proofs.Value.Literals

/-!
# The texts that are read as decimals

A literal is a sign or none, digits, and a point or none with more digits behind it, with one digit at least on either
side of the point (`Decimal.Literal`). A text is read if it is a literal with at most 28 digits behind the point, whose
digits together denote the magnitude of a positive mantissa: it is read as that magnitude with its sign, at the scale
that is the number of digits behind the point. No other text is read (`Decimal.parse_iff_literal`).

Reading takes the sign off and cuts the rest at the first point, and does so for every text. The parts of a literal are
found again in this way (`splitSign_chars`, `takeWhile_pointed`), and the parts of any text are those of a literal as
soon as their characters are digits (`exists_literal`).
-/

namespace LiveTables

namespace Decimal

variable {c : Char} {cs front back : List Char} {n m : Nat} {negative : Bool} {d : Decimal}

/-! ## Literals -/

/-- What stands in front of the digits. -/
inductive Sign where
  | unsigned
  | plus
  | minus
  deriving DecidableEq

/-- The characters of a sign. -/
def Sign.chars : Sign → List Char
  | unsigned => []
  | plus => ['+']
  | minus => ['-']

/-- A literal: a sign, digits, and digits behind a point, if there is one. -/
structure Literal where
  sign : Sign
  whole : List Char
  fraction? : Option (List Char)
  isDigit : ∀ c ∈ whole ++ fraction?.getD [], c.isDigit
  ne_nil : whole ++ fraction?.getD [] ≠ []

namespace Literal

/-- The digits behind the point. -/
def fraction (l : Literal) : List Char := l.fraction?.getD []

/-- The digits without the point. -/
def digits (l : Literal) : List Char := l.whole ++ l.fraction

/-- The characters of a literal. -/
def chars (l : Literal) : List Char := l.sign.chars ++ pointed l.whole l.fraction?

/-- The number that the digits denote. -/
def magnitude (l : Literal) : Nat := Nat.ofDigitChars 10 l.digits 0

/-- The number that the digits denote with the sign. -/
def signed (l : Literal) : Int := if l.sign = .minus then -l.magnitude else l.magnitude

/-- A literal that is not too long behind the point, and of which the magnitude is a mantissa. -/
def Fits (l : Literal) : Prop := l.fraction.length ≤ 28 ∧ l.magnitude ≤ 2 ^ 127 - 1

instance (l : Literal) : Decidable l.Fits := inferInstanceAs (Decidable (_ ∧ _))

/-- The decimal that a literal stands for. -/
def decimal (l : Literal) (h : l.Fits) : Decimal where
  mantissa := ⟨l.signed, by
    have hmagnitude := h.2
    rw [signed]
    split <;> omega⟩
  scale := l.fraction.length
  scale_le := h.1

end Literal

/-! ## Digits -/

theorem digit?_of_not_isDigit (h : c.isDigit = false) : digit? c = none := by
  have hrange : ¬ ('0' ≤ c ∧ c ≤ '9') := by
    intro hrange
    have hdigit : c.isDigit = true := by simpa [Char.isDigit, Char.le_def] using hrange
    exact absurd (hdigit.symm.trans h) (by decide)
  rw [digit?, if_neg hrange]

/-- Characters denote a number only if they are digits. -/
theorem isDigit_of_digits? (h : digits? n cs = some m) : ∀ c ∈ cs, c.isDigit := by
  induction cs generalizing n with
  | nil => simp
  | cons c cs ih =>
    cases hc : c.isDigit with
    | false =>
      rw [digits?, digit?_of_not_isDigit hc] at h
      cases h
    | true =>
      rw [digits?, digit?_of_isDigit hc] at h
      exact List.forall_mem_cons.2 ⟨hc, ih h⟩

/-- What is read has digits on either side of the point, and no other characters. -/
theorem isDigit_of_ofDigits? (h : ofDigits? negative front back = some d) :
    (∀ c ∈ front ++ back, c.isDigit) ∧ front ++ back ≠ [] := by
  by_cases hempty : front ++ back = []
  · obtain ⟨rfl, rfl⟩ := List.append_eq_nil_iff.1 hempty
    cases h
  · refine ⟨?_, hempty⟩
    rcases hdigits : digits? 0 (front ++ back) with - | m
    · simp [ofDigits?, hdigits] at h
    · exact isDigit_of_digits? hdigits

/-! ## The parts of a text -/

/-- Every text is a sign and the rest. -/
theorem exists_sign (cs : List Char) :
    ∃ sign : Sign, cs = sign.chars ++ (splitSign cs).2 ∧ (splitSign cs).1 = decide (sign = .minus) := by
  rw [splitSign.eq_def]
  split
  · exact ⟨.minus, rfl, rfl⟩
  · exact ⟨.plus, rfl, rfl⟩
  · exact ⟨.unsigned, rfl, rfl⟩

/-- Every text is cut at its first point, if it has one. -/
theorem exists_pointed (body : List Char) :
    ∃ fraction?, body = pointed (body.takeWhile (· ≠ '.')) fraction? ∧
      (body.dropWhile (· ≠ '.')).drop 1 = fraction?.getD [] := by
  have hsplit := List.takeWhile_append_dropWhile (p := fun c => decide (c ≠ '.')) (l := body)
  rcases hrest : body.dropWhile (· ≠ '.') with - | ⟨c, fraction⟩
  · refine ⟨none, ?_, rfl⟩
    rw [hrest, List.append_nil] at hsplit
    exact hsplit.symm
  · have hpoint : c = '.' := by
      have hhead := List.head?_dropWhile_not (fun c => decide (c ≠ '.')) body
      rw [hrest] at hhead
      simpa using hhead
    refine ⟨some fraction, ?_, rfl⟩
    rw [hrest, hpoint] at hsplit
    exact hsplit.symm

/-- What is read is a literal. -/
theorem exists_literal (h : ofChars? cs = some d) : ∃ l : Literal, cs = l.chars := by
  obtain ⟨sign, hsign, -⟩ := exists_sign cs
  obtain ⟨fraction?, hbody, hfraction⟩ := exists_pointed (splitSign cs).2
  have hread : ofDigits? (splitSign cs).1 ((splitSign cs).2.takeWhile (· ≠ '.')) (fraction?.getD []) = some d := by
    rw [← hfraction]
    exact h
  obtain ⟨hdigits, hne⟩ := isDigit_of_ofDigits? hread
  refine ⟨⟨sign, _, fraction?, hdigits, hne⟩, ?_⟩
  rw [Literal.chars, ← hbody]
  exact hsign

/-! ## The parts of a literal -/

namespace Literal

variable (l : Literal)

theorem isDigit_of_mem_whole (h : c ∈ l.whole) : c.isDigit := l.isDigit c (List.mem_append_left _ h)

theorem splitSign_pointed : splitSign (pointed l.whole l.fraction?) = (false, pointed l.whole l.fraction?) := by
  obtain ⟨sign, whole, fraction?, hdigit, hne⟩ := l
  rcases whole with - | ⟨c, whole⟩
  · rcases fraction? with - | fraction
    · exact absurd rfl hne
    · rfl
  · have hc : c.isDigit := hdigit c (by simp)
    cases fraction? with
    | none => exact splitSign_of_isDigit hc
    | some fraction => exact splitSign_of_isDigit hc

theorem splitSign_chars : splitSign l.chars = (decide (l.sign = .minus), pointed l.whole l.fraction?) := by
  rw [chars]
  cases hsign : l.sign with
  | unsigned => exact l.splitSign_pointed
  | plus | minus => rfl

theorem digits?_digits : digits? 0 l.digits = some l.magnitude := digits?_of_isDigit l.isDigit

/-- A literal is read as the decimal that it stands for, if it fits. -/
theorem ofChars?_chars : ofChars? l.chars = if h : l.Fits then some (l.decimal h) else none := by
  have hdigits : digits? 0 (l.whole ++ l.fraction) = some l.magnitude := l.digits?_digits
  have hsome : (l.whole.isEmpty && l.fraction.isEmpty) = false := by
    have hne : ¬ (l.whole = [] ∧ l.fraction = []) := fun h => l.ne_nil (List.append_eq_nil_iff.2 h)
    simpa [List.isEmpty_iff] using hne
  rw [ofChars?, splitSign_chars]
  dsimp only
  rw [takeWhile_pointed fun _ => l.isDigit_of_mem_whole, drop_dropWhile_pointed fun _ => l.isDigit_of_mem_whole]
  show ofDigits? _ l.whole l.fraction = _
  by_cases hfits : l.Fits
  · have hrange : l.magnitude < 2 ^ 127 ∧ l.fraction.length ≤ 28 := ⟨by have := hfits.2; omega, hfits.1⟩
    simp [ofDigits?, hsome, hdigits, hrange, hfits, decimal, signed]
  · have hrange : ¬ (l.magnitude < 2 ^ 127 ∧ l.fraction.length ≤ 28) := fun h =>
      hfits ⟨h.2, by have := h.1; omega⟩
    simp only [ofDigits?, hsome, hdigits, dif_neg hfits]
    exact dif_neg hrange

end Literal

/-- Characters are read as a decimal just if they are a literal that fits and stands for it. -/
theorem ofChars?_eq_some_iff : ofChars? cs = some d ↔ ∃ (l : Literal) (h : l.Fits), cs = l.chars ∧ d = l.decimal h := by
  constructor
  · intro h
    obtain ⟨l, rfl⟩ := exists_literal h
    rw [l.ofChars?_chars] at h
    split_ifs at h with hfits
    exact ⟨l, hfits, rfl, (Option.some.inj h).symm⟩
  · rintro ⟨l, hfits, rfl, rfl⟩
    rw [l.ofChars?_chars, dif_pos hfits]

/-- A text is read just if it is a literal that fits: an optional sign, digits with at most one point among them, one
digit at least and at most 28 behind the point, which denote a mantissa without the sign. The decimal has the digits
behind the point as its scale, and the number of the digits with the sign as its mantissa. For every other text the
answer is that it is malformed. -/
theorem parse_iff_literal (s : String) :
    ((∃ d, parse s = .ok d) ↔ ∃ l : Literal, s.toList = l.chars ∧ l.Fits) ∧
    (∀ d, parse s = .ok d ↔ ∃ l : Literal, s.toList = l.chars ∧ l.Fits ∧
      d.scale = l.fraction.length ∧ d.mantissa.val = l.signed) ∧
    (parse s = .error (.invalidOperation .malformedDecimal) ↔ ¬ ∃ l : Literal, s.toList = l.chars ∧ l.Fits) := by
  have hok (d : Decimal) : parse s = .ok d ↔ ∃ (l : Literal) (h : l.Fits), s.toList = l.chars ∧ d = l.decimal h := by
    rw [← ofChars?_eq_some_iff, parse]
    rcases ofChars? s.toList with - | d' <;> simp
  have hread : (∃ d, parse s = .ok d) ↔ ∃ l : Literal, s.toList = l.chars ∧ l.Fits := by
    constructor
    · rintro ⟨d, hd⟩
      obtain ⟨l, hfits, hchars, -⟩ := (hok d).1 hd
      exact ⟨l, hchars, hfits⟩
    · rintro ⟨l, hchars, hfits⟩
      exact ⟨l.decimal hfits, (hok _).2 ⟨l, hfits, hchars, rfl⟩⟩
  refine ⟨hread, fun d => ?_, ?_⟩
  · rw [hok d]
    constructor
    · rintro ⟨l, hfits, hchars, rfl⟩
      exact ⟨l, hchars, hfits, rfl, rfl⟩
    · rintro ⟨l, hchars, hfits, hscale, hmantissa⟩
      exact ⟨l, hfits, hchars, eq_iff.2 ⟨hmantissa, hscale⟩⟩
  · rw [← hread, parse]
    rcases ofChars? s.toList with - | d <;> simp

end Decimal

end LiveTables
