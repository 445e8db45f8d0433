import LiveTemplate.Proofs.Numerals
import LiveTemplate.Value.Payload

/-!
# Payloads on one line

A payload as it is described has no line feed in it (`newline_not_mem_describe`): a text is quoted,
which escapes every line feed, and all else is made of names, digits and marks. Each way of writing
has its own lemma here, in terms of the same question about the digits of a number.
-/

namespace LiveTemplate

/-! ### Digits -/

namespace Decimal

variable {base n : Nat}

theorem newline_not_mem_toDigits (hlow : 1 < base) (hhigh : base ≤ 16) (n : Nat) :
    '\n' ∉ Nat.toDigits base n := fun h ↦ by
  have halphanum := isAlphanum_of_digitValue?
    (isSome_of_digits? (digits?_toDigits hlow hhigh n) h)
  exact absurd halphanum (by decide)

theorem newline_not_mem_toString (k : Int) : '\n' ∉ (toString k).toList := by
  rw [toList_toString_int]
  cases k with
  | ofNat m => exact newline_not_mem_toDigits (by decide) (by decide) m
  | negSucc m =>
    rw [List.mem_cons, not_or]
    exact ⟨by decide, newline_not_mem_toDigits (by decide) (by decide) _⟩

theorem newline_not_mem_pointed (keepsFraction : Bool) {digits : List Char} (point : Int)
    (h : '\n' ∉ digits) : '\n' ∉ pointed keepsFraction digits point := by
  have htake : ∀ k, '\n' ∉ digits.take k := fun k hmem ↦ h (List.mem_of_mem_take hmem)
  have hdrop : ∀ k, '\n' ∉ digits.drop k := fun k hmem ↦ h (List.mem_of_mem_drop hmem)
  have hend : '\n' ∉ (if keepsFraction then ['.', '0'] else []) := by
    cases keepsFraction <;> decide
  rw [pointed]
  by_cases hpoint : point ≤ 0
  · rw [if_pos hpoint]
    simp [h]
  · rw [if_neg hpoint]
    extract_lets whole rest padded
    have hpadded : '\n' ∉ padded := by simp [padded, whole, htake]
    by_cases hrest : rest.isEmpty = true
    · rw [if_pos hrest]
      exact List.not_mem_append hpadded hend
    · rw [if_neg hrest]
      simp [hpadded, rest, hdrop]

theorem newline_not_mem_withPower (signsPower : Bool) {digits : List Char} (power : Int)
    (h : '\n' ∉ digits) : '\n' ∉ withPower signsPower digits power := by
  have hpower := newline_not_mem_toString power
  have hsign : '\n' ∉ (if signsPower && decide (0 ≤ power) then ['+'] else []) := by
    split <;> decide
  have hbehind := List.not_mem_append hsign hpower
  unfold withPower
  match digits with
  | [] => simpa using hbehind
  | [d] => simp_all
  | d :: e :: rest => simp_all

theorem newline_not_mem_signed (negative : Bool) {digits : List Char} (h : '\n' ∉ digits) :
    '\n' ∉ (signed negative digits).toList := by
  cases negative <;> simpa [signed] using h

theorem newline_not_mem_write (layout : Layout) (x : Float) : '\n' ∉ (layout.write x).toList := by
  rw [Layout.write]
  split
  · decide
  · exact newline_not_mem_signed _ (by decide)
  · refine newline_not_mem_signed _ ?_
    unfold Layout.digits
    extract_lets digits power byPosition
    have hdigits : '\n' ∉ digits := newline_not_mem_toDigits (by decide) (by decide) _
    cases byPosition with
    | true => exact newline_not_mem_pointed _ _ hdigits
    | false => exact newline_not_mem_withPower _ _ hdigits

theorem newline_not_mem_fixed (places : Nat) (x : Float) : '\n' ∉ (fixed places x).toList := by
  have hdigits : ∀ n, '\n' ∉ Nat.toDigits 10 n :=
    newline_not_mem_toDigits (by decide) (by decide)
  rw [fixed]
  split
  · decide
  · exact newline_not_mem_signed _ (by decide)
  · exact newline_not_mem_signed _ (by simp [hdigits])

end Decimal

/-! ### Texts -/

namespace Text

theorem newline_not_mem_escapeChar (c : Char) : '\n' ∉ escapeChar c := by
  have hhex : '\n' ∉ hexDigits c.toNat := Decimal.newline_not_mem_toDigits (by decide) (by decide) _
  unfold escapeChar
  split_ifs with _ _ hnewline
  all_goals first | decide | skip
  · simp [hhex]
  · simpa [eq_comm] using hnewline

/-- **A quoted text is on one line**, whatever the text. -/
theorem newline_not_mem_quote (s : String) : '\n' ∉ (quote s).toList := by
  have hescape : '\n' ∉ escape s.toList := by
    simp [escape, newline_not_mem_escapeChar]
  simp [quote, hescape]

theorem newline_not_mem_commaSeparated {items : List String}
    (h : ∀ item ∈ items, '\n' ∉ item.toList) : '\n' ∉ (commaSeparated items).toList := by
  rw [commaSeparated, String.toList_intercalate]
  induction items with
  | nil => simp
  | cons item rest ih =>
    rw [List.forall_mem_cons] at h
    cases rest with
    | nil => simpa using h.1
    | cons next more =>
      rw [List.map_cons, List.map_cons, List.intercalate_cons_cons]
      exact List.not_mem_append (List.not_mem_append h.1 (by decide)) (ih h.2)

end Text

/-! ### Points in time and spans of time -/

theorem newline_not_mem_padded (width n : Nat) :
    '\n' ∉ (Timestamp.padded width n).toList := by
  have hdigits : '\n' ∉ Nat.toDigits 10 n :=
    Decimal.newline_not_mem_toDigits (by decide) (by decide) n
  simp [Timestamp.padded, hdigits]

theorem newline_not_mem_fraction (nanos : Nat) : '\n' ∉ (Timestamp.fraction nanos).toList := by
  have hpadded := newline_not_mem_padded 9 nanos
  unfold Timestamp.fraction
  split
  · decide
  · have hrest := fun h ↦ hpadded (List.mem_reverse.1 ((List.dropWhile_sublist (· == '0')).mem h))
    simpa using hrest

theorem newline_not_mem_display (t : Timestamp) : '\n' ∉ t.display.toList := by
  have hseconds := Decimal.newline_not_mem_toString t.seconds.toInt
  unfold Timestamp.display
  extract_lets seconds day time
  split
  · simp [newline_not_mem_padded, newline_not_mem_fraction]
  · simp only [String.toList_append]
    refine List.not_mem_append (List.not_mem_append (List.not_mem_append hseconds (by decide)) ?_)
      (by decide)
    exact newline_not_mem_padded _ _

theorem newline_not_mem_trimFraction {s : String} (h : '\n' ∉ s.toList) :
    '\n' ∉ (trimFraction s).toList := by
  have hrest := fun hmem ↦ h (List.mem_reverse.1 ((List.dropWhile_sublist (· == '0')).mem
    ((List.dropWhile_sublist (· == '.')).mem hmem)))
  simpa [trimFraction] using hrest

theorem newline_not_mem_showDuration (nanos : Int64) : '\n' ∉ (showDuration nanos).toList := by
  have hunit : '\n' ∉ (TimeUnit.filledBy nanos.toInt.natAbs).sign.toList := by
    unfold TimeUnit.filledBy
    split_ifs <;> decide
  have hnumber := newline_not_mem_trimFraction (Decimal.newline_not_mem_fixed 3
    (Float.ofInt nanos.toInt / Float.ofNat (TimeUnit.filledBy nanos.toInt.natAbs).nanos))
  simp [showDuration, hunit, hnumber]

/-! ### Payloads -/

namespace Payload

theorem newline_not_mem_showInt (n : Int64) : '\n' ∉ (showInt n).toList :=
  Decimal.newline_not_mem_toString _

/-- **A payload is described on one line.** -/
theorem newline_not_mem_describe (p : Payload) : '\n' ∉ p.describe.toList := by
  have hkind : '\n' ∉ p.kind.name.toList := by cases p.kind <;> decide
  have htyped : ∀ body : String, '\n' ∉ body.toList → '\n' ∉ (describe.typed p body).toList :=
    fun body hbody ↦ by simp [describe.typed, hkind, hbody]
  have hquoted : ∀ items : List String,
      '\n' ∉ (Text.commaSeparated (items.map Text.quote)).toList := fun items ↦
    Text.newline_not_mem_commaSeparated (by simp [Text.newline_not_mem_quote])
  have hshown : ∀ items : List Int64,
      '\n' ∉ (Text.commaSeparated (items.map showInt)).toList := fun items ↦
    Text.newline_not_mem_commaSeparated (by simp [newline_not_mem_showInt])
  cases p with
  | empty => decide
  | string s => exact htyped _ (Text.newline_not_mem_quote s)
  | stringList items => exact htyped _ (by simp [Text.listed, hquoted])
  | stringSet items => exact htyped _ (by simp [Text.braced, hquoted])
  | int n => exact htyped _ (newline_not_mem_showInt n)
  | intList items => exact htyped _ (by simp [Text.listed, hshown])
  | intSet items => exact htyped _ (by simp [Text.braced, hshown])
  | dbl x => exact htyped _ (Decimal.newline_not_mem_write _ x)
  | duration nanos => exact htyped _ (newline_not_mem_showDuration nanos)
  | timestamp t => exact htyped _ (newline_not_mem_display t)

end Payload

end LiveTemplate
