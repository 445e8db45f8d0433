import LiveTemplate.Proofs.Rendering
import Mathlib.Data.List.Forall2

/-!
# What a text with references denotes

A text is written part by part, one part for each character of what it denotes: the character
itself, or a reference to it (`Stands`). Decoding accepts the texts that are written so and no
others, and gives the characters that the parts stand for (`decode_eq_ok_iff`); nothing that a
reference gives is looked at again.

The names by which it knows a character are those of `Refers` and one kind more: the digits of a
number may have a plus sign in front of them (`RefersSigned`). So what is accepted without such a
sign is just what can be written with the proper names (`decode_exact`).
-/

namespace LiveTemplate

namespace Decimal

variable {base bound n : Nat} {s : List Char}

/-- **A number without sign below a bound** is a numeral, with a plus sign in front of it or not. -/
theorem natural?_eq_some_iff (hlow : 1 < base) (hhigh : base ≤ 16) :
    natural? base bound s = some n ↔
      n < bound ∧ (Numeral base n s ∨ ∃ digits, s = '+' :: digits ∧ Numeral base n digits) := by
  have hdigits : ∀ t, (digits? base t).filter (· < bound) = some n ↔
      n < bound ∧ Numeral base n t := fun t ↦ by
    rw [Option.filter_eq_some_iff, and_comm, decide_eq_true_eq]
    exact and_congr_right fun _ ↦
      ⟨numeral_of_digits? hlow hhigh, fun h ↦ h.digits? hlow hhigh⟩
  have hplus : ∀ t, ¬Numeral base n ('+' :: t) := fun t h ↦
    ne_sign_of_digits? (h.digits? hlow hhigh) (by simp [digitValue?]) t rfl
  by_cases hsign : ∃ digits, s = '+' :: digits
  · obtain ⟨digits, rfl⟩ := hsign
    rw [natural?.eq_1, hdigits]
    simp [hplus]
  · rw [natural?.eq_2 base bound s fun digits heq ↦ hsign ⟨digits, heq⟩, hdigits]
    refine and_congr_right fun _ ↦ (or_iff_left ?_).symm
    rintro ⟨digits, heq, -⟩
    exact hsign ⟨digits, heq⟩

end Decimal

namespace Markup

/-! ### Names of references -/

/-- The names by which a reference stands for a character by its number with a plus sign. -/
inductive RefersSigned : Char → List Char → Prop
  | decimal {c : Char} {digits : List Char} (h : Decimal.Numeral 10 c.toNat digits) :
      RefersSigned c ('#' :: '+' :: digits)
  | hexadecimal {c : Char} {digits : List Char} (h : Decimal.Numeral 16 c.toNat digits) :
      RefersSigned c ('#' :: 'x' :: '+' :: digits)

/-- The names by which a reference is understood. -/
def Understands (c : Char) (name : List Char) : Prop := Refers c name ∨ RefersSigned c name

theorem toNat_ofNat {n : Nat} (h : n.isValidChar) : (Char.ofNat n).toNat = n := by
  rw [Char.ofNat, dif_pos h]
  rfl

theorem scalar?_eq_some_iff {n : Nat} {c : Char} : scalar? n = some c ↔ n = c.toNat := by
  constructor
  · intro h
    rw [scalar?] at h
    split at h
    · rename_i hvalid
      cases h
      exact (toNat_ofNat hvalid).symm
    · cases h
  · rintro rfl
    exact scalar?_toNat c

/-- The number of a character is read from its digits, with a plus sign or not. -/
theorem natural?_bind_scalar? {base : Nat} (hlow : 1 < base) (hhigh : base ≤ 16)
    {digits : List Char} {c : Char} :
    (Decimal.natural? base UInt32.size digits).bind scalar? = some c ↔
      Decimal.Numeral base c.toNat digits ∨
        ∃ more, digits = '+' :: more ∧ Decimal.Numeral base c.toNat more := by
  simp only [Option.bind_eq_some_iff, Decimal.natural?_eq_some_iff hlow hhigh, scalar?_eq_some_iff]
  constructor
  · rintro ⟨n, ⟨-, hn⟩, rfl⟩
    exact hn
  · intro h
    exact ⟨c.toNat, ⟨c.val.toNat_lt, h⟩, rfl⟩

/-- **The names by which a character is found** are those by which it is understood. -/
theorem referenced?_eq_some_iff {name : List Char} {c : Char} :
    referenced? name = some c ↔ Understands c name := by
  constructor
  · intro h
    unfold referenced? at h
    split at h
    case h_6 digits =>
      obtain hdigits | ⟨more, rfl, hmore⟩ := (natural?_bind_scalar? (by decide) (by decide)).1 h
      · exact .inl (.hexadecimal hdigits)
      · exact .inr (.hexadecimal hmore)
    case h_7 digits _ =>
      obtain hdigits | ⟨more, rfl, hmore⟩ := (natural?_bind_scalar? (by decide) (by decide)).1 h
      · exact .inl (.decimal hdigits)
      · exact .inr (.decimal hmore)
    case h_8 => cases h
    all_goals
      cases h
      exact .inl (by constructor)
  · rintro (h | ⟨h⟩ | ⟨h⟩)
    · exact referenced?_of_refers h
    · exact (natural?_bind_scalar? (by decide) (by decide)).2 (.inr ⟨_, rfl, h⟩)
    · exact (natural?_bind_scalar? (by decide) (by decide)).2 (.inr ⟨_, rfl, h⟩)

/-- A name is of letters, digits and two marks, so it has neither end of a reference in it. -/
theorem not_mem_of_understands {c : Char} {name : List Char} (h : Understands c name) {d : Char}
    (hd : d = '&' ∨ d = ';') : d ∉ name := by
  have hmark : ¬(d.isAlphanum = true ∨ d = '#') ∧ d ≠ '#' ∧ d ≠ 'x' ∧ d ≠ '+' := by
    rcases hd with rfl | rfl <;> decide
  have hnumeral : ∀ {base digits}, 1 < base → base ≤ 16 →
      Decimal.Numeral base c.toNat digits → d ∉ digits := fun hlow hhigh hdigits hmem ↦
    hmark.1 (.inl (Decimal.isAlphanum_of_digitValue?
      (Decimal.isSome_of_digits? (hdigits.digits? hlow hhigh) hmem)))
  rcases h with h | ⟨h⟩ | ⟨h⟩
  · exact fun hmem ↦ hmark.1 (isAlphanum_of_refers h d hmem)
  · simp only [List.mem_cons, not_or]
    exact ⟨hmark.2.1, hmark.2.2.2, hnumeral (by decide) (by decide) h⟩
  · simp only [List.mem_cons, not_or]
    exact ⟨hmark.2.1, hmark.2.2.1, hmark.2.2.2, hnumeral (by decide) (by decide) h⟩

/-! ### Parts of a text -/

/-- How a character may stand in a text: as itself, unless it is an ampersand, or as a reference by
one of its names. -/
inductive Stands (names : Char → List Char → Prop) : Char → List Char → Prop
  | itself {c : Char} (hc : c ≠ '&') : Stands names c [c]
  | reference {c : Char} {name : List Char} (hname : names c name) :
      Stands names c ('&' :: (name ++ [';']))

/-- The text is written part by part, one for each character of what it denotes. -/
def Denotes (names : Char → List Char → Prop) (raw s : List Char) : Prop :=
  ∃ parts, List.Forall₂ (Stands names) s parts ∧ raw = parts.flatten

theorem decode_itself {c : Char} (hc : c ≠ '&') (raw : List Char) :
    decode (c :: raw) = (decode raw).map (c :: ·) := by
  rw [decode, if_neg hc]

theorem decode_reference {c : Char} {name : List Char} (h : Understands c name) (raw : List Char) :
    decode ('&' :: (name ++ ';' :: raw)) = (decode raw).map (c :: ·) := by
  have hcut := Text.splitAt?_singleton (not_mem_of_understands h (.inr rfl)) raw
  rw [decode, if_pos rfl]
  split
  case h_1 heq => simp [hcut] at heq
  case h_2 heq =>
    rw [hcut] at heq
    cases heq
    simp only [referenced?_eq_some_iff.2 h]

theorem decode_of_stands {s : List Char} {parts : List (List Char)}
    (h : List.Forall₂ (Stands Understands) s parts) : decode parts.flatten = .ok s := by
  induction h with
  | nil => rw [List.flatten_nil, decode]
  | @cons c part s parts hpart h ih =>
    rw [List.flatten_cons]
    cases hpart with
    | itself hc =>
      rw [List.singleton_append, decode_itself hc, ih]
      rfl
    | reference hname =>
      rw [List.cons_append, List.append_assoc, List.singleton_append, decode_reference hname, ih]
      rfl

/-- **A text is decoded exactly if it is written so**, and to what it denotes. -/
theorem decode_eq_ok_iff {raw s : List Char} : decode raw = .ok s ↔ Denotes Understands raw s := by
  constructor
  · -- A text is read up to the semicolon of a reference, or past a character.
    intro h
    fun_induction decode raw generalizing s with
    | case1 =>
      cases h
      exact ⟨[], .nil, rfl⟩
    | case2 => cases h
    | case3 => cases h
    | case4 rest name after hcut d hd ih =>
      obtain ⟨t, ht, rfl⟩ : ∃ t, decode after = .ok t ∧ d :: t = s := by
        cases hafter : decode after with
        | error cause => rw [hafter] at h; cases h
        | ok t => rw [hafter] at h; exact ⟨t, rfl, Except.ok.inj h⟩
      obtain ⟨parts, hparts, rfl⟩ := ih ht
      obtain ⟨rfl, -⟩ := Text.splitAt?_singleton_eq_some_iff.1 hcut
      exact ⟨_ :: parts, .cons (.reference (referenced?_eq_some_iff.1 hd)) hparts, by simp⟩
    | case5 c rest hc ih =>
      obtain ⟨t, ht, rfl⟩ : ∃ t, decode rest = .ok t ∧ c :: t = s := by
        cases hrest : decode rest with
        | error cause => rw [hrest] at h; cases h
        | ok t => rw [hrest] at h; exact ⟨t, rfl, Except.ok.inj h⟩
      obtain ⟨parts, hparts, rfl⟩ := ih ht
      exact ⟨_ :: parts, .cons (.itself hc) hparts, by simp⟩
  · rintro ⟨parts, hparts, rfl⟩
    exact decode_of_stands hparts

/-! ### Signs in numbers -/

/-- The beginnings of a reference by a number with a plus sign. -/
def signedBeginnings : List (List Char) := [['&', '#', '+'], ['&', '#', 'x', '+']]

/-- No reference in the text has a plus sign in its number. -/
def Unsigned (raw : List Char) : Prop := ∀ beginning ∈ signedBeginnings, ¬beginning <:+: raw

/-- What begins with a mark that is not in a first part begins behind it. -/
theorem infix_of_infix_append {α : Type} {a : α} {more l m : List α} (ha : a ∉ l)
    (h : a :: more <:+: l ++ m) : a :: more <:+: m := by
  induction l with
  | nil => exact h
  | cons b l ih =>
    rw [List.mem_cons, not_or] at ha
    rcases List.infix_cons_iff.1 h with hfront | hwithin
    · exact absurd (List.cons_prefix_cons.1 hfront).1 ha.1
    · exact ih ha.2 hwithin

/-- A numeral begins with a digit. -/
theorem exists_of_numeral {base n : Nat} {digits : List Char} (hlow : 1 < base) (hhigh : base ≤ 16)
    (h : Decimal.Numeral base n digits) :
    ∃ d rest, digits = d :: rest ∧ (Decimal.digitValue? base d).isSome := by
  have hvalue := h.digits? hlow hhigh
  cases digits with
  | nil => cases hvalue
  | cons d rest => exact ⟨d, rest, rfl, Decimal.isSome_of_digits? hvalue List.mem_cons_self⟩

/-- No proper name goes on as a number with a plus sign does. -/
theorem not_prefix_of_refers {c : Char} {name more : List Char} (h : Refers c name)
    (hmore : '&' :: more ∈ signedBeginnings) (raw : List Char) : ¬more <+: name ++ ';' :: raw := by
  have hsign : ∀ {base : Nat} {d : Char}, (Decimal.digitValue? base d).isSome →
      Decimal.digitValue? base '+' = none → d ≠ '+' := by
    rintro base d hd hplus rfl
    simp [hplus] at hd
  have hmore : more = ['#', '+'] ∨ more = ['#', 'x', '+'] := by
    simpa [signedBeginnings] using hmore
  cases h with
  | lt | gt | amp | quot | apos => rcases hmore with rfl | rfl <;> simp
  | decimal hdigits =>
    obtain ⟨d, rest, rfl, hd⟩ := exists_of_numeral (by decide) (by decide) hdigits
    have hplus : d ≠ '+' := hsign hd (by decide)
    have hx : d ≠ 'x' := by
      rintro rfl
      exact absurd hd (by decide)
    rcases hmore with rfl | rfl <;> simp [hplus.symm, hx.symm]
  | hexadecimal hdigits =>
    obtain ⟨d, rest, rfl, hd⟩ := exists_of_numeral (by decide) (by decide) hdigits
    have hplus : d ≠ '+' := hsign hd (by decide)
    rcases hmore with rfl | rfl <;> simp [hplus.symm]

/-- What is written with proper names has no sign in a number. -/
theorem unsigned_of_stands {s : List Char} {parts : List (List Char)}
    (h : List.Forall₂ (Stands Refers) s parts) : Unsigned parts.flatten := by
  intro beginning hbeginning
  obtain ⟨more, rfl⟩ : ∃ more, beginning = '&' :: more := by
    simp only [signedBeginnings, List.mem_cons, List.not_mem_nil, or_false] at hbeginning
    rcases hbeginning with rfl | rfl <;> exact ⟨_, rfl⟩
  induction h with
  | nil => simp
  | @cons c part s parts hpart h ih =>
    rw [List.flatten_cons]
    intro hwithin
    cases hpart with
    | itself hc => exact ih (infix_of_infix_append (by simpa using hc.symm) hwithin)
    | @reference name hname =>
      rw [List.cons_append, List.append_assoc, List.singleton_append] at hwithin
      rcases List.infix_cons_iff.1 hwithin with hfront | hwithin
      · exact not_prefix_of_refers hname hbeginning _ (List.cons_prefix_cons.1 hfront).2
      · have hamp := not_mem_of_understands (.inl hname) (.inl rfl)
        refine ih (infix_of_infix_append (l := name ++ [';']) ?_ ?_)
        · simpa using hamp
        · rwa [List.append_assoc, List.singleton_append]

/-- What is written without a sign in a number is written with proper names. -/
theorem stands_of_unsigned {c : Char} {part : List Char} (h : Stands Understands c part)
    (hpart : Unsigned part) : Stands Refers c part := by
  cases h with
  | itself hc => exact .itself hc
  | reference hname =>
    rcases hname with hname | ⟨hdigits⟩ | ⟨hdigits⟩
    · exact .reference hname
    · refine absurd ⟨[], _, rfl⟩ (hpart ['&', '#', '+'] (by simp [signedBeginnings]))
    · refine absurd ⟨[], _, rfl⟩ (hpart ['&', '#', 'x', '+'] (by simp [signedBeginnings]))

/-- **Which texts are decoded, and to what.** A text denotes what its parts stand for, each of them
a character or a reference by a name that is understood. It can be written with proper names exactly
if it is decoded and no number in it has a sign; so whatever way the characters of a text are
written with proper names, decoding gives the text back. -/
theorem decode_exact (raw s : List Char) :
    (decode raw = .ok s ↔ Denotes Understands raw s) ∧
      (Denotes Refers raw s ↔ decode raw = .ok s ∧ Unsigned raw) ∧
      ∀ parts, List.Forall₂ (Stands Refers) s parts → decode parts.flatten = .ok s := by
  have hproper : ∀ {parts}, List.Forall₂ (Stands Refers) s parts →
      List.Forall₂ (Stands Understands) s parts := fun h ↦ by
    refine h.imp fun c part hpart ↦ ?_
    cases hpart with
    | itself hc => exact .itself hc
    | reference hname => exact .reference (.inl hname)
  refine ⟨decode_eq_ok_iff, ⟨?_, ?_⟩, fun parts h ↦ decode_of_stands (hproper h)⟩
  · rintro ⟨parts, hparts, rfl⟩
    exact ⟨decode_of_stands (hproper hparts), unsigned_of_stands hparts⟩
  · rintro ⟨hdecode, hraw⟩
    obtain ⟨parts, hparts, rfl⟩ := decode_eq_ok_iff.1 hdecode
    have hpart : ∀ part ∈ parts, Unsigned part := fun part hmem beginning hbeginning hwithin ↦
      hraw beginning hbeginning (hwithin.trans (List.infix_of_mem_flatten hmem))
    refine ⟨parts, ?_, rfl⟩
    clear hraw hdecode hproper
    induction hparts with
    | nil => exact .nil
    | cons hstands hparts ih =>
      rw [List.forall_mem_cons] at hpart
      exact .cons (stands_of_unsigned hstands hpart.1) (ih hpart.2)

/-- A letter by its number with a sign is decoded to the letter, though it has no such name; and a
reference whose text looks like one again is decoded once. -/
theorem decode_exact_signed :
    decode "&#+65;".toList = .ok ['A'] ∧ ¬Denotes Refers "&#+65;".toList ['A'] ∧
      decode "&amp;lt;".toList = .ok "&lt;".toList := by
  have hsixtyFive : Understands 'A' ['#', '+', '6', '5'] := .inr (.decimal ⟨0, by decide⟩)
  have hsigned : Denotes Understands "&#+65;".toList ['A'] :=
    ⟨[_], .cons (.reference hsixtyFive) .nil, rfl⟩
  have hparts : List.Forall₂ (Stands Refers) "&lt;".toList
      [['&', 'a', 'm', 'p', ';'], ['l'], ['t'], [';']] :=
    .cons (.reference Refers.amp) (.cons (.itself (by decide)) (.cons (.itself (by decide))
      (.cons (.itself (by decide)) .nil)))
  refine ⟨(decode_exact _ _).1.2 hsigned, fun h ↦ ?_, (decode_exact [] _).2.2 _ hparts⟩
  exact ((decode_exact _ _).2.1.1 h).2 ['&', '#', '+'] (by simp [signedBeginnings])
    ⟨[], ['6', '5', ';'], rfl⟩

end Markup

end LiveTemplate
