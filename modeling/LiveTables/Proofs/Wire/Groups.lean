import LiveTables.Proofs.Wire.Fields
import LiveTables.Proofs.Wire.Numbers

/-!
# Stepping over groups

Where a group is stepped over, the bytes begin with the group (`IsGroup`), or there is a place behind complete fields
and markers of groups that have not ended (`Opens`) at which they run out (`RunsOut`) or are not of the format
(`Violates`); there is nothing else (`group_cases`). A tag is judged when its whole number is there: bytes that end
inside the number run out, whatever the number would have been.

A loop over fields that calls itself for the groups inside goes by these cases. It has one round for every byte and one
more, so that its bound is never met and it satisfies the equation of the loop without a bound (`skip_startGroup`). From
that equation it follows what is answered at each such place, and that complete fields and markers before the place
change nothing about the answer (`skip_of_fields`, `Opens.skip`).
-/

namespace LiveTables.Wire

variable {α β : Type} {input xs ys more rest bytes path tail : List UInt8} {field number inner last fuel fuel' : Nat}
  {type : WireType} {tag : Nat × WireType} {tags : List (Nat × WireType)} {e : WireError}

/-! ### The loop without its fuel -/

/-- Readings that agree go on to agree. -/
theorem run_bind_congr {r r' : Reading α} {f f' : α → Reading β} (hr : r xs = r' xs)
    (hf : ∀ a rest, r xs = .ok a rest → f a rest = f' a rest) : (r >>= f) xs = (r' >>= f') xs := by
  rw [run_bind, run_bind, ← hr]
  cases hx : r xs with
  | ok a rest => exact hf a rest hx
  | error e rest => rfl

/-- What follows a reading that takes certain bytes is done with its answer. -/
theorem Takes.run_bind {r : Reading α} {a : α} (h : Takes r xs a) (f : α → Reading β) (rest : List UInt8) :
    (r >>= f) (xs ++ rest) = f a rest := by
  rw [Wire.run_bind, h]

/-- With more fuel than bytes it does not matter how much there is. -/
theorem skipGroup_fuel (hfuel : input.length < fuel) (hfuel' : input.length < fuel') :
    skipGroup fuel field input = skipGroup fuel' field input := by
  induction fuel generalizing fuel' field input with
  | zero => omega
  | succ fuel ih =>
    obtain ⟨fuel', rfl⟩ : ∃ n, fuel' = n + 1 := ⟨fuel' - 1, by omega⟩
    refine run_bind_congr rfl fun ⟨inner, type⟩ rest htag => ?_
    have hshort := readTag_shortens htag
    have hpayload (type : WireType) : (readPayload type >>= fun _ => skipGroup fuel field) rest =
        (readPayload type >>= fun _ => skipGroup fuel' field) rest := by
      refine run_bind_congr rfl fun p left hleft => ih ?_ ?_
      all_goals have hle := shortens_readPayload type _ _ _ hleft; omega
    cases type with
    | endGroup => rfl
    | startGroup =>
      refine run_bind_congr (ih (by omega) (by omega)) fun _ left hleft => ih ?_ ?_
      all_goals have hle := shortens_skipGroup fuel inner _ _ _ hleft; omega
    | varint => exact hpayload .varint
    | fixed64 => exact hpayload .fixed64
    | bytes => exact hpayload .bytes
    | fixed32 => exact hpayload .fixed32

theorem skipGroup_eq_skip (hfuel : input.length < fuel) : skipGroup fuel field input = skip field .startGroup input :=
  skipGroup_fuel hfuel (Nat.lt_succ_self _)

/-- A group is stepped over by taking a tag: it is the end marker, or its field is stepped over and the rest of the
group after it. -/
theorem skip_startGroup (field : Nat) (input : List UInt8) :
    skip field .startGroup input =
      (do
        let (inner, type) ← readTag
        if type = .endGroup then
          if inner = field then pure () else throw (.unexpectedEndGroup inner)
        else
          skip inner type
          skip field .startGroup : Reading Unit) input := by
  show skipGroup (input.length + 1) field input = _
  refine run_bind_congr rfl fun ⟨inner, type⟩ rest htag => ?_
  have hshort := readTag_shortens htag
  have hpayload (type : WireType) : (readPayload type >>= fun _ => skipGroup input.length field) rest =
      ((readPayload type >>= fun _ => pure ()) >>= fun _ => skip field .startGroup) rest := by
    rw [bind_assoc]
    refine run_bind_congr rfl fun p left hleft => ?_
    have hle := shortens_readPayload type _ _ _ hleft
    exact skipGroup_eq_skip (by omega)
  cases type with
  | endGroup =>
    dsimp only
    rw [if_pos rfl]
    split_ifs <;> first | rfl | contradiction
  | startGroup =>
    refine run_bind_congr (skipGroup_eq_skip (by omega)) fun _ left hleft => ?_
    have hle := shortens_skipGroup input.length inner _ _ _ hleft
    exact skipGroup_eq_skip (by omega)
  | varint => exact hpayload .varint
  | fixed64 => exact hpayload .fixed64
  | bytes => exact hpayload .bytes
  | fixed32 => exact hpayload .fixed32

/-! ### Where a group may end, or may not -/

/-- The bytes of a group behind its start marker: complete fields, and an end marker of its own number. -/
inductive IsGroup (field : Nat) : List UInt8 → Prop
  | intro {tags : List (Nat × WireType)} {inside stop : List UInt8} (hinside : Fields tags inside)
    (hstop : IsTag stop (field, .endGroup)) : IsGroup field (inside ++ stop)

/-- Bytes behind the start marker of the group `field` up to a place where the next tag is expected and the group has
not ended: complete fields, then perhaps the start marker of a group inside it, and so on. The innermost group that has
not ended is `inner`. -/
inductive Opens : Nat → List UInt8 → Nat → Prop
  | here {field : Nat} {tags : List (Nat × WireType)} {bytes : List UInt8} (h : Fields tags bytes) :
    Opens field bytes field
  | inside {field number inner : Nat} {tags : List (Nat × WireType)} {before start bytes : List UInt8}
    (hbefore : Fields tags before) (hstart : IsTag start (number, .startGroup)) (h : Opens number bytes inner) :
    Opens field (before ++ (start ++ bytes)) inner

/-- Bytes that end inside the number of a tag, or inside the payload behind a tag. -/
inductive RunsOut : List UInt8 → Prop
  | tag {xs more : List UInt8} {n : Nat} (hmore : more ≠ []) (h : IsNumber (xs ++ more) n) : RunsOut xs
  | payload {xs ys more : List UInt8} {tag : Nat × WireType} (htag : IsTag xs tag) (hmore : more ≠ [])
    (h : IsPayload tag.2 (ys ++ more)) : RunsOut (xs ++ ys)

/-- Bytes at whose front there is neither a tag with its payload, nor the marker of a group inside `group`, nor the end
marker of `group`, however they go on; and what is wrong with them. -/
inductive Violates (group : Nat) : List UInt8 → WireError → Prop
  | tag {xs rest : List UInt8} (h : Overflows xs) : Violates group (xs ++ rest) .varintOverflow
  | form {xs rest : List UInt8} {n : Nat} (h : IsNumber xs n) (hform : 5 < n % 8) :
    Violates group (xs ++ rest) (.invalidWireType (n % 8))
  | number {xs rest : List UInt8} {n : Nat} (h : IsNumber xs n) (hform : n % 8 ≤ 5)
    (hrange : n / 8 = 0 ∨ maxField < n / 8) : Violates group (xs ++ rest) (.invalidField (n / 8))
  | payload {xs ys rest : List UInt8} {tag : Nat × WireType} (htag : IsTag xs tag)
    (htype : tag.2 = .varint ∨ tag.2 = .bytes) (h : Overflows ys) : Violates group (xs ++ (ys ++ rest)) .varintOverflow
  | stop {xs rest : List UInt8} {number : Nat} (h : IsTag xs (number, .endGroup)) (hne : number ≠ group) :
    Violates group (xs ++ rest) (.unexpectedEndGroup number)

theorem Fields.append {tags' : List (Nat × WireType)} (h : Fields tags xs) (h' : Fields tags' ys) :
    Fields (tags ++ tags') (xs ++ ys) := by
  induction h with
  | nil => exact h'
  | @plain xs payload zs tag tags htag hpayload hrest ih =>
    rw [List.append_assoc]
    exact .plain htag hpayload ih
  | @group xs inside stop zs number inner tags hstart hinner hstop hrest ihInner ih =>
    rw [List.append_assoc]
    exact .group hstart hinner hstop ih

theorem IsGroup.append_left (h : Fields tags xs) (hgroup : IsGroup field ys) : IsGroup field (xs ++ ys) := by
  obtain ⟨hinside, hstop⟩ := hgroup
  rw [← List.append_assoc]
  exact ⟨h.append hinside, hstop⟩

theorem Opens.append_left (h : Fields tags xs) (hopens : Opens field path inner) :
    Opens field (xs ++ path) inner := by
  cases hopens with
  | here hfields => exact .here (h.append hfields)
  | inside hbefore hstart hopens =>
    rw [← List.append_assoc]
    exact .inside (h.append hbefore) hstart hopens

/-! ### What there may be where a field is expected -/

/-- There are so many bytes, or more are wanted. -/
theorem length_cases (len : Nat) (input : List UInt8) :
    (∃ xs rest, input = xs ++ rest ∧ xs.length = len) ∨ ∃ more, more ≠ [] ∧ (input ++ more).length = len := by
  rcases Nat.lt_or_ge input.length len with hlt | hle
  · refine .inr ⟨List.replicate (len - input.length) 0, ?_, ?_⟩
    · rw [ne_eq, List.replicate_eq_nil_iff]
      omega
    · rw [List.length_append, List.length_replicate]
      omega
  · exact .inl ⟨input.take len, input.drop len, (List.take_append_drop _ _).symm, List.length_take_of_le hle⟩

/-- Behind a tag that is no marker there is a payload, the front of one, or a number that is too large. -/
theorem payload_cases (input : List UInt8) (hstart : type ≠ .startGroup) (hstop : type ≠ .endGroup) :
    (∃ xs rest, input = xs ++ rest ∧ IsPayload type xs) ∨ (∃ more, more ≠ [] ∧ IsPayload type (input ++ more)) ∨
      (type = .varint ∨ type = .bytes) ∧ ∃ xs rest, input = xs ++ rest ∧ Overflows xs := by
  cases type with
  | varint =>
    rcases number_cases input with ⟨xs, rest, n, rfl, hnumber⟩ | ⟨more, n, hmore, hnumber⟩ | hover
    · exact .inl ⟨xs, rest, rfl, .varint hnumber⟩
    · exact .inr (.inl ⟨more, hmore, .varint hnumber⟩)
    · exact .inr (.inr ⟨.inl rfl, hover⟩)
  | fixed64 =>
    rcases length_cases 8 input with ⟨xs, rest, rfl, hlength⟩ | ⟨more, hmore, hlength⟩
    · exact .inl ⟨xs, rest, rfl, .fixed64 hlength⟩
    · exact .inr (.inl ⟨more, hmore, .fixed64 hlength⟩)
  | fixed32 =>
    rcases length_cases 4 input with ⟨xs, rest, rfl, hlength⟩ | ⟨more, hmore, hlength⟩
    · exact .inl ⟨xs, rest, rfl, .fixed32 hlength⟩
    · exact .inr (.inl ⟨more, hmore, .fixed32 hlength⟩)
  | bytes =>
    rcases number_cases input with ⟨xs, rest, len, rfl, hnumber⟩ | ⟨more, len, hmore, hnumber⟩ | hover
    · rcases length_cases len rest with ⟨ys, rest, rfl, rfl⟩ | ⟨more, hmore, rfl⟩
      · exact .inl ⟨xs ++ ys, rest, (List.append_assoc _ _ _).symm, .bytes hnumber⟩
      · refine .inr (.inl ⟨more, hmore, ?_⟩)
        rw [List.append_assoc]
        exact .bytes hnumber
    · -- any bytes will do as the content, if there are as many as the number says
      have hall := @IsPayload.bytes (input ++ more) (List.replicate len 0) (by rwa [List.length_replicate])
      rw [List.append_assoc] at hall
      exact .inr (.inl ⟨_, fun h => hmore (List.append_eq_nil_iff.1 h).1, hall⟩)
    · exact .inr (.inr ⟨.inr rfl, hover⟩)
  | startGroup => contradiction
  | endGroup => contradiction

theorem WireType.exists_code : ∀ n ≤ 5, ∃ type : WireType, type.code = n
  | 0, _ => ⟨.varint, rfl⟩
  | 1, _ => ⟨.fixed64, rfl⟩
  | 2, _ => ⟨.bytes, rfl⟩
  | 3, _ => ⟨.startGroup, rfl⟩
  | 4, _ => ⟨.endGroup, rfl⟩
  | 5, _ => ⟨.fixed32, rfl⟩

/-- The next tag is there, or the bytes end inside it, or it is none. -/
theorem tag_cases (group : Nat) (input : List UInt8) :
    (∃ xs rest tag, input = xs ++ rest ∧ IsTag xs tag) ∨ RunsOut input ∨ ∃ e, Violates group input e := by
  rcases number_cases input with ⟨xs, rest, n, rfl, hnumber⟩ | ⟨more, n, hmore, hnumber⟩ | ⟨xs, rest, rfl, hover⟩
  · rcases Nat.lt_or_ge 5 (n % 8) with hform | hform
    · exact .inr (.inr ⟨_, .form hnumber hform⟩)
    · by_cases hrange : n / 8 = 0 ∨ maxField < n / 8
      · exact .inr (.inr ⟨_, .number hnumber hform hrange⟩)
      · obtain ⟨type, hcode⟩ := WireType.exists_code _ hform
        have hvalue : n / 8 * 8 + type.code = n := by omega
        exact .inl ⟨xs, rest, (n / 8, type), rfl, by rwa [hvalue], by dsimp only; omega, by dsimp only; omega⟩
  · exact .inr (.inl (.tag hmore hnumber))
  · exact .inr (.inr ⟨_, .tag hover⟩)

/-- Behind a start marker the bytes begin with the group, or there is a place where they end too early or violate the
format. -/
theorem group_cases (field : Nat) (input : List UInt8) :
    (∃ bytes rest, input = bytes ++ rest ∧ IsGroup field bytes) ∨
      ∃ path inner tail, input = path ++ tail ∧ Opens field path inner ∧
        (RunsOut tail ∨ ∃ e, Violates inner tail e) := by
  induction hlength : input.length using Nat.strongRecOn generalizing field input with
  | ind length ih =>
  subst hlength
  -- what follows a complete field is shorter, and begins with the rest of the group or leads to such a place
  have hfield {first rest : List UInt8} {tag : Nat × WireType} (hfirst : Fields [tag] first) (hpos : 0 < first.length)
      (hinput : input = first ++ rest) :
      (∃ bytes rest, input = bytes ++ rest ∧ IsGroup field bytes) ∨ ∃ path inner tail, input = path ++ tail ∧
        Opens field path inner ∧ (RunsOut tail ∨ ∃ e, Violates inner tail e) := by
    subst hinput
    rcases ih rest.length (by rw [List.length_append]; omega) field rest rfl with
      ⟨bytes, rest, rfl, hgroup⟩ | ⟨path, inner, tail, rfl, hopens, hplace⟩
    · exact .inl ⟨first ++ bytes, rest, (List.append_assoc _ _ _).symm, hgroup.append_left hfirst⟩
    · exact .inr ⟨first ++ path, inner, tail, (List.append_assoc _ _ _).symm, hopens.append_left hfirst, hplace⟩
  rcases tag_cases field input with ⟨xs, rest, ⟨number, type⟩, rfl, htag⟩ | hplace
  · have hpos := htag.length_pos
    by_cases hstop : type = .endGroup
    · subst hstop
      by_cases hnumber : number = field
      · subst hnumber
        exact .inl ⟨xs, rest, rfl, ⟨.nil, htag⟩⟩
      · exact .inr ⟨[], field, _, rfl, .here .nil, .inr ⟨_, .stop htag hnumber⟩⟩
    by_cases hstart : type = .startGroup
    · subst hstart
      rcases ih rest.length (by rw [List.length_append]; omega) number rest rfl with
        ⟨bytes, rest, rfl, ⟨hinside, hinsideStop⟩⟩ | ⟨path, inner, tail, rfl, hopens, hplace⟩
      · have hgroup := Fields.group htag hinside hinsideStop .nil
        rw [List.append_nil] at hgroup
        exact hfield hgroup (by rw [List.length_append]; omega) (List.append_assoc _ _ _).symm
      · refine .inr ⟨xs ++ path, inner, tail, (List.append_assoc _ _ _).symm, ?_, hplace⟩
        exact .inside .nil htag hopens
    · rcases payload_cases rest hstart hstop with
        ⟨ys, rest, rfl, hpayload⟩ | ⟨more, hmore, hpayload⟩ | ⟨htype, ys, rest, rfl, hover⟩
      · have hplain := Fields.plain htag hpayload .nil
        rw [List.append_nil] at hplain
        exact hfield hplain (by rw [List.length_append]; omega) (List.append_assoc _ _ _).symm
      · exact .inr ⟨[], field, _, rfl, .here .nil, .inl (.payload htag hmore hpayload)⟩
      · exact .inr ⟨[], field, _, rfl, .here .nil, .inr ⟨_, .payload htag htype hover⟩⟩
  · exact .inr ⟨[], field, input, rfl, .here .nil, hplace⟩

/-! ### What a reader answers -/

theorem readTag_of_error (h : readVarint input = .error e rest) : readTag input = .error e rest := by
  rw [readTag, run_bind, h]

/-- A number that is no tag is read before that is found out. -/
theorem IsNumber.readTag {n : Nat} (h : IsNumber xs n) :
    readTag (xs ++ rest) =
      (match WireType.ofCode? (n % 8) with
        | none => throw (.invalidWireType (n % 8))
        | some type => do
          if n / 8 = 0 ∨ maxField < n / 8 then throw (.invalidField (n / 8))
          return (n / 8, type) : Reading (Nat × WireType)) rest :=
  h.takes.run_bind _ rest

theorem WireType.ofCode?_eq_none {n : Nat} (h : 5 < n) : ofCode? n = none := by
  unfold ofCode?
  split <;> first | omega | rfl

theorem readTag_of_form {n : Nat} (h : IsNumber xs n) (hform : 5 < n % 8) :
    readTag (xs ++ rest) = .error (.invalidWireType (n % 8)) rest := by
  rw [h.readTag, WireType.ofCode?_eq_none hform]
  rfl

theorem readTag_of_range {n : Nat} (h : IsNumber xs n) (hform : n % 8 ≤ 5) (hrange : n / 8 = 0 ∨ maxField < n / 8) :
    readTag (xs ++ rest) = .error (.invalidField (n / 8)) rest := by
  obtain ⟨type, hcode⟩ := WireType.exists_code _ hform
  rw [h.readTag, ← hcode, WireType.ofCode?_code]
  dsimp only
  rw [if_pos hrange]
  rfl

theorem skip_of_tag_error (h : readTag input = .error e rest) : skip field .startGroup input = .error e rest := by
  rw [skip_startGroup, run_bind, h]

/-- Behind a tag that is no end marker the field is stepped over, and then the rest of the group. -/
theorem skip_of_tag (htag : IsTag xs tag) (hstop : tag.2 ≠ .endGroup) :
    skip field .startGroup (xs ++ ys) = (do skip tag.1 tag.2; skip field .startGroup : Reading Unit) ys := by
  rw [skip_startGroup, htag.takes.run_bind]
  exact congrFun (if_neg hstop) ys

theorem skip_of_field_error (htag : IsTag xs tag) (hstop : tag.2 ≠ .endGroup)
    (h : skip tag.1 tag.2 ys = .error e rest) : skip field .startGroup (xs ++ ys) = .error e rest := by
  rw [skip_of_tag htag hstop, run_bind, h]

theorem IsPayload.ne_startGroup (h : IsPayload type xs) : type ≠ .startGroup := by
  rintro rfl
  cases h

theorem IsPayload.ne_endGroup (h : IsPayload type xs) : type ≠ .endGroup := by
  rintro rfl
  cases h

/-- Behind a tag that is no marker, the payload is all that is stepped over. -/
theorem skip_of_plain (hstart : type ≠ .startGroup) (hstop : type ≠ .endGroup) :
    skip number type = (do let _ ← readPayload type) := by
  cases type with
  | startGroup => contradiction
  | endGroup => contradiction
  | _ => rfl

/-- Complete fields at the front of a group are stepped over. -/
theorem skip_of_fields (h : Fields tags xs) : skip field .startGroup (xs ++ ys) = skip field .startGroup ys := by
  induction tags generalizing xs with
  | nil =>
    cases h
    rfl
  | cons tag tags ih =>
    obtain ⟨first, rest, rfl, hfirst, hrest⟩ := h.uncons
    obtain ⟨xs, payload, rfl, htag, hskip⟩ := hfirst.takes_skip
    have hstop : tag.2 ≠ .endGroup := by
      rcases hfirst.single with ⟨_, _, _, hpayload, _⟩ | ⟨_, _, _, _, htype, _⟩
      · exact hpayload.ne_endGroup
      · simp [htype]
    rw [List.append_assoc, List.append_assoc, skip_of_tag htag hstop, hskip.run_bind]
    exact ih hrest

theorem IsGroup.takes_skip (h : IsGroup field bytes) : Takes (skip field .startGroup) bytes () := by
  obtain ⟨hinside, hstop⟩ := h
  intro rest
  refine hinside.takes_skipGroup hstop ?_ rest
  rw [List.append_assoc, List.length_append]
  omega

/-- What is wrong with a group that has not ended is wrong with all the groups that it is in. -/
theorem Opens.skip (h : Opens field path inner) (herror : skip inner .startGroup tail = .error e rest) :
    skip field .startGroup (path ++ tail) = .error e rest := by
  induction h with
  | here h => rwa [skip_of_fields h]
  | @inside field number inner tags before start bytes hbefore hstart h ih =>
    rw [List.append_assoc, List.append_assoc, skip_of_fields hbefore]
    exact skip_of_field_error hstart (by simp) (ih herror)

theorem RunsOut.skip (h : RunsOut input) (field : Nat) :
    ∃ rest, skip field .startGroup input = .error .truncated rest := by
  cases h with
  | tag hmore hnumber =>
    obtain ⟨rest, hread⟩ := hnumber.takes.truncated stable_readVarint hmore
    exact ⟨rest, skip_of_tag_error (readTag_of_error hread)⟩
  | @payload xs ys more tag htag hmore hpayload =>
    obtain ⟨p, hp⟩ := hpayload.takes
    obtain ⟨rest, hread⟩ := hp.truncated (stable_readPayload _) hmore
    refine ⟨rest, skip_of_field_error htag hpayload.ne_endGroup ?_⟩
    rw [skip_of_plain hpayload.ne_startGroup hpayload.ne_endGroup, run_bind, hread]

theorem Violates.skip (h : Violates field input e) : ∃ rest, skip field .startGroup input = .error e rest := by
  cases h with
  | tag hover => exact ⟨_, skip_of_tag_error (readTag_of_error hover.readVarint)⟩
  | form hnumber hform => exact ⟨_, skip_of_tag_error (readTag_of_form hnumber hform)⟩
  | number hnumber hform hrange => exact ⟨_, skip_of_tag_error (readTag_of_range hnumber hform hrange)⟩
  | @payload xs ys rest tag htag htype hover =>
    obtain ⟨number, type⟩ := tag
    refine ⟨rest, skip_of_field_error htag ?_ ?_⟩
    · rcases htype with rfl | rfl <;> exact fun h => WireType.noConfusion h
    · rcases htype with rfl | rfl
      all_goals
        show ((readVarint >>= _) >>= _ : Reading Unit) _ = _
        rw [run_bind, run_bind, hover.readVarint]
  | @stop xs rest number htag hne =>
    refine ⟨rest, ?_⟩
    rw [skip_startGroup, htag.takes.run_bind]
    dsimp only
    rw [if_pos rfl, if_neg hne]
    rfl

/-- What is answered, and for which bytes. -/
theorem skip_cases (field : Nat) (input : List UInt8) :
    (∃ rest, skip field .startGroup input = .ok () rest ∧ ∃ bytes, input = bytes ++ rest ∧ IsGroup field bytes) ∨
      ∃ e rest, skip field .startGroup input = .error e rest ∧ ∃ path inner tail, input = path ++ tail ∧
        Opens field path inner ∧ (e = .truncated ∧ RunsOut tail ∨ Violates inner tail e) := by
  rcases group_cases field input with
    ⟨bytes, rest, rfl, hgroup⟩ | ⟨path, inner, tail, rfl, hopens, hout | ⟨e, hviolates⟩⟩
  · exact .inl ⟨rest, hgroup.takes_skip rest, bytes, rfl, hgroup⟩
  · obtain ⟨rest, herror⟩ := hout.skip inner
    exact .inr ⟨_, rest, hopens.skip herror, path, inner, tail, rfl, hopens, .inl ⟨rfl, hout⟩⟩
  · obtain ⟨rest, herror⟩ := hviolates.skip
    exact .inr ⟨e, rest, hopens.skip herror, path, inner, tail, rfl, hopens, .inr hviolates⟩

theorem skip_eq_ok_iff :
    skip field .startGroup input = .ok () rest ↔ ∃ bytes, input = bytes ++ rest ∧ IsGroup field bytes := by
  constructor
  · intro h
    rcases skip_cases field input with ⟨rest', hanswer, hgroup⟩ | ⟨e, rest', hanswer, -⟩
    · rw [hanswer] at h
      cases h
      exact hgroup
    · rw [hanswer] at h
      cases h
  · rintro ⟨bytes, rfl, hgroup⟩
    exact hgroup.takes_skip rest

theorem exists_skip_eq_error_iff :
    (∃ rest, skip field .startGroup input = .error e rest) ↔ ∃ path inner tail, input = path ++ tail ∧
      Opens field path inner ∧ (e = .truncated ∧ RunsOut tail ∨ Violates inner tail e) := by
  constructor
  · rintro ⟨rest, h⟩
    rcases skip_cases field input with ⟨rest', hanswer, -⟩ | ⟨e', rest', hanswer, hplace⟩
    · rw [hanswer] at h
      cases h
    · rw [hanswer] at h
      cases h
      exact hplace
  · rintro ⟨path, inner, tail, rfl, hopens, ⟨rfl, hout⟩ | hviolates⟩
    · obtain ⟨rest, herror⟩ := hout.skip inner
      exact ⟨rest, hopens.skip herror⟩
    · obtain ⟨rest, herror⟩ := hviolates.skip
      exact ⟨rest, hopens.skip herror⟩

/-- A group is stepped over, for any bytes and any number of the group, just where they begin with the group, that is
with complete fields and an end marker of that number, and then just that is taken. In all other cases there is a place
where a tag or a payload is expected that cannot be had: up to there the bytes are complete fields and start markers of
groups that have not ended. If they run out there, the input ends too early; otherwise the error says how they violate
the format. The loop needs no more rounds than there are bytes, and one. -/
theorem group_exact (field : Nat) (input : List UInt8) :
    (∀ spare, skipGroup (input.length + 1 + spare) field input = skip field .startGroup input) ∧
      (∀ rest, skip field .startGroup input = .ok () rest ↔ ∃ bytes, input = bytes ++ rest ∧ IsGroup field bytes) ∧
      ∀ e, (∃ rest, skip field .startGroup input = .error e rest) ↔ ∃ path inner tail, input = path ++ tail ∧
        Opens field path inner ∧ (e = .truncated ∧ RunsOut tail ∨ Violates inner tail e) :=
  ⟨fun _ => skipGroup_eq_skip (by omega), fun _ => skip_eq_ok_iff, fun _ => exists_skip_eq_error_iff⟩

/-- Inside the group 5 the group 1 is open when the end marker of the group 2 comes. -/
example : skip 5 .startGroup [0x0b, 0x14, 0x0c, 0x2c] = .error (.unexpectedEndGroup 2) [0x0c, 0x2c] := rfl

end LiveTables.Wire
