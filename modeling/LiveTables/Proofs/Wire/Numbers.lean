import LiveTables.Proofs.Wire.RoundTrip
import Mathlib.Data.Nat.Digits.Defs

/-!
# The bytes of numbers

Bytes at whose front a number is expected begin with a number of 64 bits (`IsNumber`), end inside one, or begin with
ten bytes that are none (`Overflows`); there is nothing else (`number_cases`). A reader takes the number, waits for
the rest of it, or gives up.

A number has many spellings, because it may be followed by empty groups. They end with a byte that has no
continuation bit, and their groups are the digits of the number to the base 128 (`spells_iff`). The one that is written
is shorter than all others (`Spells.eq_or_length_lt`).
-/

namespace LiveTables.Wire

variable {α : Type} {xs ys more rest front : List UInt8} {b last : UInt8} {n places : Nat}

/-- All of the bytes have the continuation bit. -/
def Continue (bytes : List UInt8) : Prop := ∀ b ∈ bytes, 128 ≤ b.toNat

/-- Ten bytes that no number of 64 bits begins with: nine with the continuation bit, which hold 63 bits, and a tenth
that holds more than one bit or has the continuation bit too. -/
def Overflows (bytes : List UInt8) : Prop :=
  ∃ front last, bytes = front ++ [last] ∧ front.length = 9 ∧ Continue front ∧ 1 < last.toNat

theorem continue_nil : Continue [] := List.forall_mem_nil _

theorem continue_cons : Continue (b :: xs) ↔ 128 ≤ b.toNat ∧ Continue xs := List.forall_mem_cons

/-! ### Spellings -/

/-- The spellings of a number: its digits to the base 128 from the lowest on, all but the last with the continuation
bit. -/
theorem spells_iff : Spells xs n ↔ ∃ front last, xs = front ++ [last] ∧ Continue front ∧ last.toNat < 128 ∧
    n = Nat.ofDigits 128 (xs.map (·.toNat % 128)) := by
  constructor
  · intro h
    induction h with
    | last b hb => exact ⟨[], b, rfl, continue_nil, hb, by simp [Nat.ofDigits_singleton, Nat.mod_eq_of_lt hb]⟩
    | @more b xs n hb h ih =>
      obtain ⟨front, last, hxs, hfront, hlast, hn⟩ := ih
      refine ⟨b :: front, last, by rw [hxs, List.cons_append], continue_cons.2 ⟨hb, hfront⟩, hlast, ?_⟩
      have hbyte := b.toNat_lt
      have hdigit : b.toNat % 128 = b.toNat - 128 := by omega
      rw [List.map_cons, Nat.ofDigits_cons, ← hn, hdigit]
  · rintro ⟨front, last, rfl, hfront, hlast, rfl⟩
    induction front with
    | nil =>
      have hspells := Spells.last last hlast
      simpa [Nat.ofDigits_singleton, Nat.mod_eq_of_lt hlast] using hspells
    | cons b front ih =>
      obtain ⟨hb, hfront⟩ := continue_cons.1 hfront
      have hbyte := b.toNat_lt
      have hdigit : b.toNat % 128 = b.toNat - 128 := by omega
      rw [List.cons_append, List.map_cons, Nat.ofDigits_cons, hdigit]
      exact .more b hb (ih hfront)

/-- Of the spellings of a number the one that is written is the shortest. -/
theorem Spells.eq_or_length_lt (h : Spells xs n) : xs = varint n ∨ (varint n).length < xs.length := by
  induction h with
  | last b hb =>
    left
    rw [varint, if_pos hb, UInt8.ofNat_toNat]
  | @more b xs n hb h ih =>
    have hbyte := b.toNat_lt
    have hpos := h.length_pos
    rw [varint]
    split
    · right
      rw [List.length_singleton, List.length_cons]
      omega
    · have hlow : (b.toNat - 128 + 128 * n) % 128 + 128 = b.toNat := by omega
      have hhigh : (b.toNat - 128 + 128 * n) / 128 = n := by omega
      rw [hlow, hhigh, UInt8.ofNat_toNat]
      rcases ih with rfl | hlt
      · exact .inl rfl
      · right
        rw [List.length_cons, List.length_cons]
        omega

/-- Bytes with the continuation bit are the front of a number, as long as there is room for one byte more. -/
theorem exists_isNumber_append (h : Continue xs) (hlength : xs.length < 10) : ∃ n, IsNumber (xs ++ [0]) n := by
  obtain ⟨n, hspells, hn⟩ : ∃ n, Spells (xs ++ [0]) n ∧ n < 128 ^ xs.length := by
    clear hlength
    induction xs with
    | nil => exact ⟨0, .last 0 (by decide), by decide⟩
    | cons b xs ih =>
      obtain ⟨hb, hxs⟩ := continue_cons.1 h
      obtain ⟨n, hspells, hn⟩ := ih hxs
      have hbyte := b.toNat_lt
      refine ⟨_, .more b hb hspells, ?_⟩
      rw [List.length_cons, Nat.pow_succ]
      omega
  have hpow : 128 ^ xs.length ≤ 128 ^ 9 := Nat.pow_le_pow_right (by decide) (by omega)
  refine ⟨n, hspells, ?_, by omega⟩
  rw [List.length_append, List.length_singleton]
  omega

/-- What stands before the end of a number has the continuation bit. -/
theorem Spells.continue_of_append (h : Spells (xs ++ more) n) (hmore : more ≠ []) : Continue xs := by
  induction xs generalizing n with
  | nil => exact continue_nil
  | cons b xs ih =>
    cases hrest : xs ++ more with
    | nil => exact absurd (List.append_eq_nil_iff.1 hrest).2 hmore
    | cons c zs =>
      rw [List.cons_append, hrest] at h
      cases h with
      | more _ hb h =>
        rw [← hrest] at h
        exact continue_cons.2 ⟨hb, ih h⟩

/-! ### What there may be where a number is expected -/

/-- A number with room for `places + 1` groups, the front of one, or bytes of which the last is too large. -/
theorem spells_cases (places : Nat) (input : List UInt8) :
    (∃ xs n rest, input = xs ++ rest ∧ Spells xs n ∧ xs.length ≤ places + 1 ∧ n < 2 * 128 ^ places) ∨
      (input.length ≤ places ∧ Continue input) ∨
      ∃ front last rest, input = front ++ last :: rest ∧ front.length = places ∧ Continue front ∧ 1 < last.toNat := by
  induction places generalizing input with
  | zero =>
    cases input with
    | nil => exact .inr (.inl ⟨Nat.le_refl 0, continue_nil⟩)
    | cons b rest =>
      rcases Nat.lt_or_ge 1 b.toNat with hlarge | hbit
      · exact .inr (.inr ⟨[], b, rest, rfl, rfl, continue_nil, hlarge⟩)
      · exact .inl ⟨[b], _, rest, rfl, .last b (by omega), Nat.le_refl 1, by omega⟩
  | succ places ih =>
    cases input with
    | nil => exact .inr (.inl ⟨Nat.zero_le _, continue_nil⟩)
    | cons b input =>
      have hpos : 0 < 128 ^ places := Nat.pow_pos (by decide)
      rw [Nat.pow_succ]
      rcases Nat.lt_or_ge b.toNat 128 with hb | hb
      · exact .inl ⟨[b], _, input, rfl, .last b hb, by simp, by omega⟩
      · have hbyte := b.toNat_lt
        rcases ih input with ⟨xs, n, rest, rfl, hspells, hlength, hn⟩ | ⟨hlength, hcontinue⟩ |
          ⟨front, last, rest, rfl, rfl, hfront, hlast⟩
        · exact .inl ⟨b :: xs, _, rest, rfl, .more b hb hspells, Nat.succ_le_succ hlength, by omega⟩
        · exact .inr (.inl ⟨Nat.succ_le_succ hlength, continue_cons.2 ⟨hb, hcontinue⟩⟩)
        · exact .inr (.inr ⟨b :: front, last, rest, rfl, rfl, continue_cons.2 ⟨hb, hfront⟩, hlast⟩)

/-- Bytes begin with a number of 64 bits, end inside one, or begin with ten bytes that are none. -/
theorem number_cases (input : List UInt8) :
    (∃ xs rest n, input = xs ++ rest ∧ IsNumber xs n) ∨ (∃ more n, more ≠ [] ∧ IsNumber (input ++ more) n) ∨
      ∃ xs rest, input = xs ++ rest ∧ Overflows xs := by
  rcases spells_cases 9 input with ⟨xs, n, rest, hinput, hspells, hlength, hn⟩ | ⟨hlength, hcontinue⟩ |
    ⟨front, last, rest, rfl, hlength, hfront, hlast⟩
  · exact .inl ⟨xs, rest, n, hinput, hspells, hlength, by omega⟩
  · obtain ⟨n, hn⟩ := exists_isNumber_append hcontinue (by omega)
    exact .inr (.inl ⟨[0], n, List.cons_ne_nil _ _, hn⟩)
  · exact .inr (.inr ⟨front ++ [last], rest, by simp, front, last, rfl, hlength, hfront, hlast⟩)

/-- The fronts of numbers are the bytes with the continuation bit, up to nine of them. -/
theorem exists_isNumber_append_iff :
    (∃ more n, more ≠ [] ∧ IsNumber (xs ++ more) n) ↔ xs.length < 10 ∧ Continue xs := by
  constructor
  · rintro ⟨more, n, hmore, h⟩
    have hpos : 0 < more.length := List.length_pos_iff.2 hmore
    have hlength := h.length
    rw [List.length_append] at hlength
    exact ⟨by omega, h.spells.continue_of_append hmore⟩
  · rintro ⟨hlength, h⟩
    obtain ⟨n, hn⟩ := exists_isNumber_append h hlength
    exact ⟨[0], n, List.cons_ne_nil _ _, hn⟩

/-! ### What a reader answers -/

/-- A reading that takes certain bytes finds that a front of them ends too early. -/
theorem Takes.truncated {r : Reading α} {a : α} (h : Takes r (xs ++ more) a) (hr : Stable r) (hmore : more ≠ []) :
    ∃ rest, r xs = .error .truncated rest := by
  have hwhole : r (xs ++ more) = .ok a [] := by simpa using h []
  have hcontinues := hr more xs
  rw [hwhole] at hcontinues
  cases hanswer : r xs with
  | ok a' rest =>
    -- with an answer from the front alone, `more` would be left of the whole
    rw [hanswer] at hcontinues
    generalize hleft : ([] : List UInt8) = left at hcontinues
    cases hcontinues
    exact absurd (List.append_eq_nil_iff.1 hleft.symm).2 hmore
  | error e rest =>
    rw [hanswer] at hcontinues
    cases hcontinues
    exact ⟨rest, rfl⟩

/-- A byte with the continuation bit is read before the rest of a number. -/
theorem readVarintFrom_cons (hb : 128 ≤ b.toNat) (hplaces : places ≠ 0) :
    readVarintFrom (places + 1) (b :: xs) =
      (do return b.toNat - 128 + 128 * (← readVarintFrom places) : Reading Nat) xs := by
  rw [readVarintFrom, run_bind]
  show (if places = 0 ∧ 1 < b.toNat then _ else _ : Reading Nat) xs = _
  rw [if_neg (by omega), if_neg (by omega)]

theorem readVarintFrom_overflow (hfront : Continue front) (hlast : 1 < last.toNat) :
    readVarintFrom (front.length + 1) (front ++ last :: rest) = .error .varintOverflow rest := by
  induction front with
  | nil =>
    rw [List.length_nil, List.nil_append, readVarintFrom, run_bind]
    show (if _ then _ else _ : Reading Nat) rest = _
    rw [if_pos ⟨rfl, hlast⟩]
    rfl
  | cons b front ih =>
    obtain ⟨hb, hfront⟩ := continue_cons.1 hfront
    rw [List.length_cons, List.cons_append, readVarintFrom_cons hb (Nat.succ_ne_zero _), run_bind, ih hfront]

theorem Overflows.readVarint (h : Overflows xs) : readVarint (xs ++ rest) = .error .varintOverflow rest := by
  obtain ⟨front, last, rfl, hlength, hfront, hlast⟩ := h
  have hread := @readVarintFrom_overflow rest front last hfront hlast
  rw [hlength] at hread
  rwa [List.append_assoc]

/-- What is answered, and for which bytes. -/
theorem readVarint_cases (input : List UInt8) :
    (∃ n rest, readVarint input = .ok n rest ∧ ∃ xs, input = xs ++ rest ∧ IsNumber xs n) ∨
      (∃ rest, readVarint input = .error .truncated rest ∧ ∃ more n, more ≠ [] ∧ IsNumber (input ++ more) n) ∨
      ∃ rest, readVarint input = .error .varintOverflow rest ∧ ∃ xs, input = xs ++ rest ∧ Overflows xs := by
  rcases number_cases input with ⟨xs, rest, n, rfl, hnumber⟩ | ⟨more, n, hmore, hnumber⟩ | ⟨xs, rest, rfl, hover⟩
  · exact .inl ⟨n, rest, hnumber.takes rest, xs, rfl, hnumber⟩
  · obtain ⟨rest, hread⟩ := hnumber.takes.truncated stable_readVarint hmore
    exact .inr (.inl ⟨rest, hread, more, n, hmore, hnumber⟩)
  · exact .inr (.inr ⟨rest, hover.readVarint, xs, rfl, hover⟩)

theorem readVarint_eq_ok_iff {input : List UInt8} :
    readVarint input = .ok n rest ↔ ∃ xs, input = xs ++ rest ∧ IsNumber xs n := by
  constructor
  · intro h
    rcases readVarint_cases input with ⟨n', rest', hread, hnumber⟩ | ⟨rest', hread, -⟩ | ⟨rest', hread, -⟩
    · rw [hread] at h
      cases h
      exact hnumber
    all_goals rw [hread] at h; cases h
  · rintro ⟨xs, rfl, hnumber⟩
    exact hnumber.takes rest

theorem exists_readVarint_eq_truncated_iff {input : List UInt8} :
    (∃ rest, readVarint input = .error .truncated rest) ↔ input.length < 10 ∧ Continue input := by
  rw [← exists_isNumber_append_iff]
  constructor
  · rintro ⟨rest, h⟩
    rcases readVarint_cases input with ⟨n', rest', hread, -⟩ | ⟨rest', -, hcut⟩ | ⟨rest', hread, -⟩
    · rw [hread] at h
      cases h
    · exact hcut
    · rw [hread] at h
      cases h
  · rintro ⟨more, n, hmore, hnumber⟩
    exact hnumber.takes.truncated stable_readVarint hmore

/-- Where there is neither a number nor the front of one, the number is too large. -/
theorem exists_readVarint_eq_overflow_iff {input : List UInt8} :
    (∃ rest, readVarint input = .error .varintOverflow rest) ↔
      (¬ ∃ n rest, readVarint input = .ok n rest) ∧ ¬ (input.length < 10 ∧ Continue input) := by
  rw [← exists_readVarint_eq_truncated_iff]
  rcases readVarint_cases input with ⟨n, rest, hread, -⟩ | ⟨rest, hread, -⟩ | ⟨rest, hread, -⟩
  all_goals simp [hread]

/-- Of all bytes that a number is read from, those that are written for it are the shortest. -/
theorem eq_varint_or_length_lt {bytes : List UInt8} (h : readVarint bytes = .ok n rest) :
    bytes = varint n ∨ (varint n).length < bytes.length := by
  obtain ⟨xs, rfl, hnumber⟩ := readVarint_eq_ok_iff.1 h
  rw [List.length_append]
  rcases hnumber.spells.eq_or_length_lt with rfl | hlt
  · cases rest with
    | nil => exact .inl (List.append_nil _)
    | cons b rest => exact .inr (by rw [List.length_cons]; omega)
  · exact .inr (by omega)

/-- For any bytes, a number is read off their front just where they begin with at most ten bytes, of which all but the
last have the continuation bit, and whose groups denote a number of 64 bits; what is behind these bytes is left. The
input ends too early just where it is fewer than ten bytes that all have the continuation bit, and in all other cases
the number is too large. What is written for a number of 64 bits, at most ten bytes, is read back, and any other bytes
that the number is read from are longer. -/
theorem number_exact (input : List UInt8) (v : UInt64) :
    (∀ n rest, readVarint input = .ok n rest ↔
      ∃ front last, input = front ++ last :: rest ∧ front.length < 10 ∧ Continue front ∧ last.toNat < 128 ∧
        n = Nat.ofDigits 128 ((front ++ [last]).map (·.toNat % 128)) ∧ n < UInt64.size) ∧
      ((∃ rest, readVarint input = .error .truncated rest) ↔ input.length < 10 ∧ Continue input) ∧
      ((∃ rest, readVarint input = .error .varintOverflow rest) ↔
        (¬ ∃ n rest, readVarint input = .ok n rest) ∧ ¬ (input.length < 10 ∧ Continue input)) ∧
      readVarint (varint v.toNat) = .ok v.toNat [] ∧ (varint v.toNat).length ≤ 10 ∧
      ∀ bytes rest, readVarint bytes = .ok v.toNat rest →
        bytes = varint v.toNat ∨ (varint v.toNat).length < bytes.length := by
  have hwritten := isNumber_varint v.toNat_lt
  refine ⟨fun n rest => ?_, exists_readVarint_eq_truncated_iff, exists_readVarint_eq_overflow_iff, ?_,
    hwritten.length, fun bytes rest => eq_varint_or_length_lt⟩
  · rw [readVarint_eq_ok_iff]
    constructor
    · rintro ⟨xs, rfl, hspells, hlength, hn⟩
      obtain ⟨front, last, rfl, hfront, hlast, hdigits⟩ := spells_iff.1 hspells
      rw [List.length_append, List.length_singleton] at hlength
      exact ⟨front, last, by simp, by omega, hfront, hlast, hdigits, hn⟩
    · rintro ⟨front, last, rfl, hlength, hfront, hlast, hdigits, hn⟩
      refine ⟨front ++ [last], by simp, spells_iff.2 ⟨front, last, rfl, hfront, hlast, hdigits⟩, ?_, hn⟩
      rw [List.length_append, List.length_singleton]
      omega
  · simpa using hwritten.takes []

/-- An empty group at the end adds nothing to the number. -/
example : readVarint [0xac, 0x82, 0x00] = .ok 300 [] := rfl

end LiveTables.Wire
