import LiveTemplate.Proofs.Doubles
import LiveTemplate.Proofs.Instants
import LiveTemplate.Proofs.Numerals
import Mathlib.Data.List.TakeWhile

/-!
# Numbers in figures

A number is written with a sign or without, in digits with a point or without (`Figures`), and
denotes a fraction (`Figures.value`). The reader of whole numbers takes it if it has no point and is
in range, and then exactly as it is (`Figures.int64?_chars`); the reader of doubles takes all of
them, each as the nearest double (`Figures.double?_chars`).
-/

namespace LiveTemplate.Decimal

/-! ### Runs of digits -/

theorem digitValue?_of_isDigit {c : Char} (h : c.isDigit = true) :
    digitValue? 10 c = some (c.toNat - '0'.toNat) := by
  have hlt : c.toNat - '0'.toNat < 10 := by
    simp only [Char.isDigit, Bool.and_eq_true, decide_eq_true_eq, ge_iff_le,
      UInt32.le_iff_toNat_le] at h
    show c.val.toNat - 48 < 10
    have : c.val.toNat ≤ 57 := h.2
    omega
  rw [digitValue?, if_pos h]
  exact (Option.filter_some).trans (if_pos (decide_eq_true hlt))

/-- Digits denote the number that they make. -/
theorem digits?_eq_ofDigitChars {s : List Char} (hne : s ≠ []) (h : ∀ c ∈ s, c.isDigit = true) :
    digits? 10 s = some (Nat.ofDigitChars 10 s 0) := by
  induction s using List.reverseRecOn with
  | nil => exact absurd rfl hne
  | append_singleton s d ih =>
    have hd : digitValue? 10 d = some (d.toNat - '0'.toNat) :=
      digitValue?_of_isDigit (h d (List.mem_append_right _ (List.mem_singleton_self d)))
    rcases eq_or_ne s [] with rfl | hs
    · rw [List.nil_append, digits?_singleton, hd, Nat.ofDigitChars_cons, Nat.ofDigitChars_nil]
      simp
    · rw [digits?_append_singleton hs, hd,
        ih hs fun c hc ↦ h c (List.mem_append_left _ hc), Nat.ofDigitChars_append,
        Nat.ofDigitChars_cons, Nat.ofDigitChars_nil, Nat.mul_comm 10]
      rfl

/-- Digits without a point are read as the double nearest to the number that they make. -/
theorem unsignedDouble?_of_isDigit {s : List Char} (hs : ∀ c ∈ s, c.isDigit = true) :
    unsignedDouble? s = (digits? 10 s).map (nearest · 0) := by
  unfold unsignedDouble?
  rw [List.takeWhile_eq_self_iff.2 hs, List.dropWhile_eq_nil_iff.2 hs]
  simp only [List.append_nil]
  rcases digits? 10 s with _ | m <;> rfl

/-- Each digit behind the point makes the number that is read ten times smaller. -/
theorem unsignedDouble?_point {s t : List Char} (hs : ∀ c ∈ s, c.isDigit = true)
    (ht : ∀ c ∈ t, c.isDigit = true) :
    unsignedDouble? (s ++ '.' :: t) =
      (digits? 10 (s ++ t)).map (nearest · (-(t.length : ℤ))) := by
  have hpoint : ¬ '.'.isDigit = true := by decide
  unfold unsignedDouble?
  rw [List.takeWhile_append_of_pos hs, List.dropWhile_append_of_pos hs,
    List.takeWhile_cons_of_neg hpoint, List.dropWhile_cons_of_neg hpoint, List.append_nil]
  simp only [List.takeWhile_eq_self_iff.2 ht, List.dropWhile_eq_nil_iff.2 ht]
  rcases digits? 10 (s ++ t) with _ | m
  · rfl
  · exact congrArg (some <| nearest m ·) (zero_sub _)

/-! ### Numbers in figures -/

/-- What stands in front of a number. -/
inductive Lead
  | bare
  | plus
  | minus
  deriving Repr, DecidableEq

/-- A lead as it is written. -/
def Lead.chars : Lead → List Char
  | .bare => []
  | .plus => ['+']
  | .minus => ['-']

/-- A number with the sign that a lead gives it. -/
def Lead.apply (lead : Lead) (v : ℚ) : ℚ := if lead = .minus then -v else v

/-- A number written in figures: perhaps a sign, and at least one digit, with a point before, among
or behind the digits, or without one. -/
structure Figures where
  lead : Lead
  whole : List Char
  part : Option (List Char)
  isDigit : ∀ c ∈ whole ++ part.getD [], c.isDigit = true
  nonempty : whole ++ part.getD [] ≠ []

namespace Figures

variable (a : Figures)

/-- The figures behind the sign. -/
def body : List Char := a.whole ++ (a.part.map ('.' :: ·)).getD []

/-- The number as it is written. -/
def chars : List Char := a.lead.chars ++ a.body

/-- The whole number that all digits make together. -/
def number : ℕ := Nat.ofDigitChars 10 (a.whole ++ a.part.getD []) 0

/-- How many digits stand behind the point. -/
def places : ℕ := (a.part.getD []).length

/-- The number that is denoted. -/
def value : ℚ := a.lead.apply (a.number / 10 ^ a.places)

/-- The fraction that is denoted, with its sign in the numerator. -/
theorem value_eq : a.value =
    ((if a.lead = .minus then -(a.number : ℤ) else a.number : ℤ) : ℚ) / 10 ^ a.places := by
  unfold value Lead.apply
  split
  · rw [Int.cast_neg, Int.cast_natCast, neg_div]
  · rw [Int.cast_natCast]

theorem digits?_digits : digits? 10 (a.whole ++ a.part.getD []) = some a.number :=
  digits?_eq_ofDigitChars a.nonempty a.isDigit

theorem digits?_body : digits? 10 a.body = if a.part = none then some a.number else none := by
  have hdigits := a.digits?_digits
  unfold body
  rcases hpart : a.part with _ | part <;> rw [hpart] at hdigits
  · rw [if_pos rfl]
    exact hdigits
  · rw [if_neg (Option.some_ne_none part)]
    refine Option.eq_none_iff_forall_not_mem.2 fun n hn ↦ ?_
    have hpoint : '.' ∈ a.whole ++ '.' :: part := List.mem_append_right _ List.mem_cons_self
    exact absurd (isSome_of_digits? hn hpoint) (by decide)

/-- The figures begin with a digit or the point. -/
theorem body_eq : ∃ c rest, a.body = c :: rest ∧ (c.isDigit = true ∨ c = '.') := by
  unfold body
  rcases hwhole : a.whole with _ | ⟨c, rest⟩
  · rcases hpart : a.part with _ | part
    · exact absurd (by rw [hwhole, hpart]; rfl) a.nonempty
    · exact ⟨'.', part, rfl, .inr rfl⟩
  · exact ⟨c, rest ++ _, rfl, .inl (a.isDigit c (by rw [hwhole]; exact List.mem_cons_self))⟩

theorem body_ne {d : Char} (hd : d.isDigit = false) (hpoint : d ≠ '.') (rest : List Char) :
    a.body ≠ d :: rest := by
  obtain ⟨c, more, hbody, hc⟩ := a.body_eq
  rw [hbody]
  rintro ⟨rfl, -⟩
  rcases hc with hc | hc
  · exact absurd hc (by rw [hd]; decide)
  · exact hpoint hc

/-! ### Reading figures -/

theorem int64?_chars_eq : int64? a.chars = (digits? 10 a.body).bind fun n ↦
    if FitsInt64 (if a.lead = .minus then -(n : ℤ) else n)
      then some (Int64.ofInt (if a.lead = .minus then -(n : ℤ) else n)) else none := by
  have hplus := a.body_ne (d := '+') (by decide) (by decide)
  have hminus := a.body_ne (d := '-') (by decide) (by decide)
  unfold chars
  generalize a.body = body at hplus hminus
  rcases a.lead with _ | _ | _
  · show int64? body = _
    rw [int64?.eq_3 body hminus hplus]
    rcases digits? 10 body with _ | n <;> rfl
  · show int64? ('+' :: body) = _
    rw [int64?.eq_2]
    rcases digits? 10 body with _ | n <;> rfl
  · show int64? ('-' :: body) = _
    rw [int64?.eq_1]
    rcases digits? 10 body with _ | n <;> rfl

theorem floor_value (h : a.part = none) :
    ⌊a.value⌋ = if a.lead = .minus then -(a.number : ℤ) else a.number := by
  have hplaces : a.places = 0 := by rw [places, h]; rfl
  rw [value_eq, hplaces, pow_zero, div_one, Int.floor_intCast]

/-- **Figures without a point are read as the number that they denote**, if it is in range. -/
theorem int64?_chars : int64? a.chars =
    if a.part = none ∧ FitsInt64 ⌊a.value⌋ then some (Int64.ofInt ⌊a.value⌋) else none := by
  rw [int64?_chars_eq, digits?_body]
  by_cases hpart : a.part = none
  · rw [if_pos hpart, a.floor_value hpart]
    simp only [hpart, true_and, Option.bind_some]
  · rw [if_neg hpart, if_neg fun h ↦ hpart h.1]
    rfl

/-- The figures are not one of the words that stand for a double. -/
theorem lower_body_ne {word : String} {d : Char} {more : List Char}
    (hword : word.toList = d :: more) (hd : d.isDigit = false) (hpoint : d ≠ '.') :
    (String.ofList (a.body.map Char.toLower) == word) = false := by
  refine beq_false_of_ne fun h ↦ ?_
  have hlist := congrArg String.toList h
  obtain ⟨c, rest, hbody, hc⟩ := a.body_eq
  rw [String.toList_ofList, hword, hbody, List.map_cons, List.cons.injEq] at hlist
  rcases hc with hc | rfl
  · rw [toLower_eq_self_of_isDigit hc] at hlist
    rw [hlist.1, hd] at hc
    cases hc
  · exact hpoint hlist.1.symm

theorem unsignedDouble?_body :
    unsignedDouble? a.body = some (nearest a.number (-(a.places : ℤ))) := by
  have hwhole : ∀ c ∈ a.whole, c.isDigit = true := fun c hc ↦
    a.isDigit c (List.mem_append_left _ hc)
  have hpart : ∀ c ∈ a.part.getD [], c.isDigit = true := fun c hc ↦
    a.isDigit c (List.mem_append_right _ hc)
  have hdigits := a.digits?_digits
  unfold body places
  rcases ha : a.part with _ | part <;> rw [ha] at hpart hdigits
  · rw [Option.getD_none, List.append_nil] at hdigits
    rw [Option.map_none, Option.getD_none, List.append_nil, unsignedDouble?_of_isDigit hwhole,
      hdigits]
    rfl
  · exact (unsignedDouble?_point hwhole hpart).trans (congrArg _ hdigits)

theorem double?_chars_eq : double? a.chars =
    some (if a.lead = .minus then -nearest a.number (-(a.places : ℤ))
      else nearest a.number (-(a.places : ℤ))) := by
  have hplus := a.body_ne (d := '+') (by decide) (by decide)
  have hminus := a.body_ne (d := '-') (by decide) (by decide)
  have hinf : (String.ofList (a.body.map Char.toLower) == "inf") = false :=
    a.lower_body_ne rfl (by decide) (by decide)
  have hinfinity : (String.ofList (a.body.map Char.toLower) == "infinity") = false :=
    a.lower_body_ne rfl (by decide) (by decide)
  have hnan : (String.ofList (a.body.map Char.toLower) == "nan") = false :=
    a.lower_body_ne rfl (by decide) (by decide)
  have hread := a.unsignedDouble?_body
  unfold chars double?
  generalize a.body = body at hplus hminus hinf hinfinity hnan hread ⊢
  rcases a.lead with _ | _ | _
  · simp only [Lead.chars, List.nil_append, hinf, hinfinity, hnan, hread]
    rfl
  · simp only [Lead.chars, List.cons_append, List.nil_append, hinf, hinfinity, hnan, hread]
    rfl
  · simp only [Lead.chars, List.cons_append, List.nil_append, hinf, hinfinity, hnan, hread]
    rfl

/-- **Figures are read as the nearest double.** -/
theorem double?_chars : ∃ x, double? a.chars = some x ∧ value? x = toDouble? a.value := by
  refine ⟨_, a.double?_chars_eq, ?_⟩
  have hten : (a.number : ℚ) * 10 ^ (-(a.places : ℤ)) = a.number / 10 ^ a.places := by
    rw [zpow_neg, zpow_natCast, div_eq_mul_inv]
  unfold value Lead.apply
  split
  · rw [value?_neg, value?_nearest, hten, toDouble?_neg]
  · rw [value?_nearest, hten]

end Figures

end LiveTemplate.Decimal
