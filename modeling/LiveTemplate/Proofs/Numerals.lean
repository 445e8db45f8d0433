import LiveTemplate.Decimal.Numeral
import Mathlib.Data.List.Induction

/-!
# Numbers written in digits

A number is read back from its digits in any base up to sixteen, with zeros in front of them, and
with its letters in either case. The value of a run of digits is a fold from the left, so
`digits?_append_singleton`, which says what one more digit does, is what the inductions rest on.
-/

namespace LiveTemplate.Decimal

/-! ### Single digits -/

variable {base : Nat}

theorem digitValue?_eq_filter (hbase : base ≤ 16) (c : Char) :
    digitValue? base c = (digitValue? 16 c).filter (· < base) := by
  rw [digitValue?, digitValue?, Option.filter_filter]
  congr 1
  funext n
  simp only [← Bool.decide_and, decide_eq_decide]
  omega

theorem digitValue?_digitChar {n : Nat} (hn : n < base) (hbase : base ≤ 16) :
    digitValue? base (Nat.digitChar n) = some n := by
  have hvalue : ∀ m : Fin 16, digitValue? 16 (Nat.digitChar m) = some m.val := by decide
  rw [digitValue?_eq_filter hbase, hvalue ⟨n, by omega⟩]
  simp [hn]

theorem isAlphanum_iff {c : Char} : c.isAlphanum = true ↔
    (65 ≤ c.toNat ∧ c.toNat ≤ 90) ∨ (97 ≤ c.toNat ∧ c.toNat ≤ 122) ∨
      (48 ≤ c.toNat ∧ c.toNat ≤ 57) := by
  show ((decide (c.val ≥ 65 ∧ c.val ≤ 90) || (decide (c.val ≥ 97) && decide (c.val ≤ 122))) ||
    (decide (c.val ≥ 48) && decide (c.val ≤ 57))) = true ↔ _
  simp only [Bool.or_eq_true, Bool.and_eq_true, decide_eq_true_eq, UInt32.le_iff_toNat_le, ge_iff_le,
    or_assoc]
  rfl

/-- A digit is a letter or a decimal digit. -/
theorem isAlphanum_of_digitValue? {c : Char} (h : (digitValue? base c).isSome) :
    c.isAlphanum = true := by
  have hsome : c.isDigit = true ∨ ('a' ≤ c ∧ c ≤ 'f') ∨ ('A' ≤ c ∧ c ≤ 'F') := by
    simp only [digitValue?, Option.isSome_filter] at h
    split at h
    · exact .inl ‹_›
    · split at h
      · exact .inr (.inl ‹_›)
      · split at h
        · exact .inr (.inr ‹_›)
        · cases h
  rw [isAlphanum_iff]
  simp only [Char.isDigit, Char.le_def, UInt32.le_iff_toNat_le, Bool.and_eq_true,
    decide_eq_true_eq, ge_iff_le] at hsome
  simp at hsome
  omega

theorem toLower_eq_self {c : Char} (h : 128 ≤ c.toNat) : c.toLower = c := by
  refine dif_neg ?_
  rintro ⟨-, hle⟩
  have hle' : c.toNat ≤ 'Z'.toNat := hle
  exact absurd (Nat.le_trans h hle') (by decide)

/-- A letter is the same digit in either case. -/
theorem digitValue?_toLower (hbase : base ≤ 16) (c : Char) :
    digitValue? base c.toLower = digitValue? base c := by
  have hascii : ∀ n : Fin 128,
      digitValue? 16 (Char.ofNat n).toLower = digitValue? 16 (Char.ofNat n) := by decide
  by_cases h : c.toNat < 128
  · rw [digitValue?_eq_filter hbase, digitValue?_eq_filter hbase, ← Char.ofNat_toNat c,
      hascii ⟨c.toNat, h⟩]
  · rw [toLower_eq_self (by omega)]

/-! ### Runs of digits -/

theorem digits?_append_singleton {s : List Char} (hs : s ≠ []) (d : Char) :
    digits? base (s ++ [d]) = (do
      let n ← digits? base s
      let k ← digitValue? base d
      pure (n * base + k)) := by
  obtain ⟨c, rest, rfl⟩ := List.exists_cons_of_ne_nil hs
  rw [List.cons_append, digits?, ← List.cons_append, List.foldl_append]
  rfl

theorem digits?_singleton (d : Char) : digits? base [d] = digitValue? base d := by
  cases h : digitValue? base d <;> simp [digits?, h]

/-- **A number is read back from its digits.** -/
theorem digits?_toDigits (hlow : 1 < base) (hhigh : base ≤ 16) (n : Nat) :
    digits? base (Nat.toDigits base n) = some n := by
  induction n using Nat.strongRecOn with
  | _ n ih =>
    by_cases hn : n < base
    · rw [Nat.toDigits_of_lt_base hn, digits?_singleton, digitValue?_digitChar hn hhigh]
    · have hle : base ≤ n := Nat.le_of_not_lt hn
      have hdiv : n / base < n := Nat.div_lt_self (by omega) hlow
      have hmod : n % base < base := Nat.mod_lt _ (by omega)
      rw [Nat.toDigits_of_base_le hlow hle, digits?_append_singleton Nat.toDigits_ne_nil, ih _ hdiv,
        digitValue?_digitChar hmod hhigh]
      simp [Nat.div_add_mod']

theorem digits?_zero_cons (hlow : 1 < base) {s : List Char} (hs : s ≠ []) :
    digits? base ('0' :: s) = digits? base s := by
  have hzero : digitValue? base '0' = some 0 := by
    rw [digitValue?, Option.filter_eq_some_iff]
    exact ⟨by decide, by simp; omega⟩
  obtain ⟨c, rest, rfl⟩ := List.exists_cons_of_ne_nil hs
  rw [digits?, digits?, List.foldl_cons]
  simp only [hzero, Option.bind_eq_bind, Option.bind_some, Option.pure_def, Nat.zero_mul]

theorem digits?_replicate_append (hlow : 1 < base) (zeros : Nat) {s : List Char} (hs : s ≠ []) :
    digits? base (List.replicate zeros '0' ++ s) = digits? base s := by
  induction zeros with
  | zero => rfl
  | succ k ih =>
    rw [List.replicate_succ, List.cons_append,
      digits?_zero_cons hlow (List.append_ne_nil_of_right_ne_nil _ hs), ih]

theorem digits?_map_toLower (hbase : base ≤ 16) (s : List Char) :
    digits? base (s.map Char.toLower) = digits? base s := by
  cases s with
  | nil => rfl
  | cons c rest =>
    rw [List.map_cons, digits?, ← List.map_cons, List.foldl_map, digits?]
    simp only [digitValue?_toLower hbase]

/-- The digits of a number, with any zeros in front of them and letters in either case. -/
def Numeral (base n : Nat) (s : List Char) : Prop :=
  ∃ zeros, s.map Char.toLower = List.replicate zeros '0' ++ Nat.toDigits base n

theorem toLower_eq_self_of_isDigit {c : Char} (h : c.isDigit = true) : c.toLower = c := by
  simp only [Char.isDigit, Bool.and_eq_true, decide_eq_true_eq] at h
  refine dif_neg ?_
  rintro ⟨hge, -⟩
  exact absurd (UInt32.le_trans hge h.2) (by decide)

theorem numeral_toDigits (hlow : 0 < base) (hhigh : base ≤ 10) (n : Nat) :
    Numeral base n (Nat.toDigits base n) := by
  have hdigits : ∀ d ∈ Nat.toDigits base n, d.toLower = d := fun d hd ↦
    toLower_eq_self_of_isDigit (Nat.isDigit_of_mem_toDigits hlow hhigh hd)
  refine ⟨0, ?_⟩
  rw [List.replicate_zero, List.nil_append]
  exact (List.map_congr_left hdigits).trans (List.map_id _)

/-- **A numeral denotes its number.** -/
theorem Numeral.digits? {n : Nat} {s : List Char} (h : Numeral base n s) (hlow : 1 < base)
    (hhigh : base ≤ 16) : Decimal.digits? base s = some n := by
  obtain ⟨zeros, heq⟩ := h
  rw [← digits?_map_toLower hhigh, heq, digits?_replicate_append hlow zeros Nat.toDigits_ne_nil,
    digits?_toDigits hlow hhigh]

/-- A digit is written by the character of its value, in either case. -/
theorem toLower_of_digitValue? (hbase : base ≤ 16) {c : Char} {n : Nat}
    (h : digitValue? base c = some n) : c.toLower = Nat.digitChar n ∧ n < base := by
  rw [digitValue?_eq_filter hbase, Option.filter_eq_some_iff] at h
  obtain ⟨h, hn⟩ := h
  refine ⟨?_, by simpa using hn⟩
  have hascii : ∀ k : Fin 128, (digitValue? 16 (Char.ofNat k)).all fun m ↦
      (Char.ofNat k).toLower = Nat.digitChar m := by decide
  have hlt : c.toNat < 128 := by
    have halphanum := isAlphanum_iff.1 (isAlphanum_of_digitValue? (Option.isSome_of_eq_some h))
    omega
  have hdigit := hascii ⟨c.toNat, hlt⟩
  rw [Char.ofNat_toNat, h] at hdigit
  simpa using hdigit

/-- **A run that denotes a number is a numeral of it**: digits, and nothing else. -/
theorem numeral_of_digits? (hlow : 1 < base) (hhigh : base ≤ 16) {s : List Char} {n : Nat}
    (h : digits? base s = some n) : Numeral base n s := by
  -- The induction is on the run from its end, where the value grows.
  induction s using List.reverseRecOn generalizing n with
  | nil => cases h
  | append_singleton s d ih =>
    by_cases hs : s = []
    · subst hs
      rw [List.nil_append, digits?_singleton] at h
      obtain ⟨hd, hn⟩ := toLower_of_digitValue? hhigh h
      exact ⟨0, by simp [hd, Nat.toDigits_of_lt_base hn]⟩
    · rw [digits?_append_singleton hs] at h
      obtain ⟨m, hm, h⟩ := Option.bind_eq_some_iff.1 h
      obtain ⟨k, hk, h⟩ := Option.bind_eq_some_iff.1 h
      obtain rfl : m * base + k = n := Option.some.inj h
      obtain ⟨hd, hlt⟩ := toLower_of_digitValue? hhigh hk
      obtain ⟨zeros, hzeros⟩ := ih hm
      obtain rfl | hpos := Nat.eq_zero_or_pos m
      · -- All digits before were zeros, so the last is the first that counts.
        refine ⟨zeros + 1, ?_⟩
        rw [List.map_append, hzeros, Nat.zero_mul, Nat.zero_add, Nat.toDigits_zero,
          Nat.toDigits_of_lt_base hlt, List.replicate_succ']
        simp [hd]
      · have hle : base ≤ m * base + k := Nat.le_add_right_of_le (Nat.le_mul_of_pos_left base hpos)
        have hdiv : (m * base + k) / base = m := by
          rw [Nat.mul_comm, Nat.mul_add_div (by omega), Nat.div_eq_of_lt hlt, Nat.add_zero]
        have hmod : (m * base + k) % base = k := by
          rw [Nat.mul_comm, Nat.mul_add_mod, Nat.mod_eq_of_lt hlt]
        refine ⟨zeros, ?_⟩
        rw [List.map_append, hzeros, Nat.toDigits_of_base_le hlow hle, hdiv, hmod]
        simp [hd]

/-- Only digits stand in a run that denotes a number. -/
theorem isSome_of_digits? {n : Nat} {s : List Char} (h : digits? base s = some n) {c : Char}
    (hc : c ∈ s) : (digitValue? base c).isSome := by
  have hfold : ∀ (s : List Char) (acc : Option Nat) (n : Nat),
      s.foldl (fun acc d ↦ do
        let n ← acc
        let k ← digitValue? base d
        pure (n * base + k)) acc = some n →
      acc.isSome ∧ ∀ d ∈ s, (digitValue? base d).isSome := by
    intro s
    induction s with
    | nil => simp +contextual
    | cons d s ih =>
      intro acc n hn
      obtain ⟨hacc, hs⟩ := ih _ n hn
      cases acc <;> cases hd : digitValue? base d <;> simp_all
  cases s with
  | nil => cases h
  | cons d rest => exact (hfold _ _ _ h).2 c hc

/-- A run of digits that denotes a number has no sign in front of it. -/
theorem natural?_of_digits? {bound n : Nat} {s : List Char} (h : digits? base s = some n)
    (hn : n < bound) : natural? base bound s = some n := by
  have hsign : ∀ rest, s ≠ '+' :: rest := by
    rintro rest rfl
    exact absurd (isSome_of_digits? h List.mem_cons_self) (by simp [digitValue?])
  rw [natural?.eq_2 base bound s hsign, h, Option.filter_some, if_pos (by simpa using hn)]

/-! ### Numbers of 64 bits -/

theorem ne_sign_of_digits? {n : Nat} {s : List Char} (h : digits? base s = some n) {c : Char}
    (hc : digitValue? base c = none) (rest : List Char) : s ≠ c :: rest := by
  rintro rfl
  exact absurd (isSome_of_digits? h List.mem_cons_self) (by simp [hc])

/-- The decimal form of a number with a sign. -/
theorem toList_toString_int (k : Int) : (toString k).toList =
    match k with
    | .ofNat m => Nat.toDigits 10 m
    | .negSucc m => '-' :: Nat.toDigits 10 (m + 1) := by
  cases k with
  | ofNat m =>
    show (toString m).toList = _
    rw [Nat.toString_eq_ofList_toDigits, String.toList_ofList]
  | negSucc m =>
    show ("-" ++ toString (m + 1)).toList = _
    rw [Nat.toString_eq_ofList_toDigits, String.toList_append, String.toList_ofList,
      String.toList_ofList]
    rfl

/-- **A number with a sign is read back** from its decimal form. -/
theorem int64?_toString (n : Int64) : int64? (toString n.toInt).toList = some n := by
  have hmin : Int64.minValue.toInt = -9223372036854775808 := rfl
  have hmax : Int64.maxValue.toInt = 9223372036854775807 := rfl
  have hrange : Int64.minValue.toInt ≤ n.toInt ∧ n.toInt ≤ Int64.maxValue.toInt := by
    have hlow := n.le_toInt
    have hhigh := n.toInt_lt
    omega
  have hofInt := Int64.ofInt_toInt n
  have hdigits : ∀ m, digits? 10 (Nat.toDigits 10 m) = some m :=
    digits?_toDigits (by decide) (by decide)
  have hvalue : ∀ found : Option Int, found = some n.toInt →
      (found.bind fun k ↦ if Int64.minValue.toInt ≤ k ∧ k ≤ Int64.maxValue.toInt
        then some (Int64.ofInt k) else none) = some n := by
    rintro found rfl
    rw [Option.bind_some, if_pos hrange, hofInt]
  rw [toList_toString_int]
  generalize n.toInt = k at hvalue
  cases k with
  | ofNat m =>
    dsimp only
    rw [int64?.eq_3 (Nat.toDigits 10 m) (ne_sign_of_digits? (hdigits m) (by decide))
      (ne_sign_of_digits? (hdigits m) (by decide)), hdigits]
    exact hvalue _ rfl
  | negSucc m =>
    dsimp only
    rw [int64?.eq_1, hdigits]
    exact hvalue _ rfl

/-- **A number without sign is read back** from its decimal form. -/
theorem uint64?_toString (n : UInt64) : uint64? (toString n.toNat).toList = some n := by
  have hdigits : digits? 10 (Nat.toDigits 10 n.toNat) = some n.toNat :=
    digits?_toDigits (by decide) (by decide) _
  rw [uint64?, Nat.toString_eq_ofList_toDigits, String.toList_ofList,
    natural?_of_digits? hdigits n.toNat_lt_size]
  exact congrArg some UInt64.ofNat_toNat

end LiveTemplate.Decimal
