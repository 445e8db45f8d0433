/-!
# Blank characters

The characters that count as white space in a text, and trimming by them. The class is the
`White_Space` property: six controls, the ordinary space, and the space separators beyond ASCII
together with the line and paragraph separators.

Beside blanks there are marks, at the first of which a text is cut in two; `splitAt?_append` and
`eq_of_splitAt?` say where. What is read before a rest that can still fail is put in front of what the
rest gives; `map_append_map` puts two such pieces together.
-/

namespace LiveTemplate.Text

/-- The characters with the `White_Space` property. -/
def isBlank (c : Char) : Bool :=
  let n := c.toNat
  (0x9 ≤ n && n ≤ 0xD) || n == 0x20 || n == 0x85 || n == 0xA0 || n == 0x1680 ||
    (0x2000 ≤ n && n ≤ 0x200A) || n == 0x2028 || n == 0x2029 || n == 0x202F || n == 0x205F ||
    n == 0x3000

/-- Drops the blanks a text begins with. -/
def trimStart (s : List Char) : List Char := s.dropWhile isBlank

/-- Drops the blanks a text ends with. -/
def trimEnd (s : List Char) : List Char := (s.reverse.dropWhile isBlank).reverse

/-- Drops the blanks on both ends of a text. -/
def trim (s : List Char) : List Char := trimEnd (trimStart s)

/-- How many line feeds a text has. -/
def newlines (s : List Char) : Nat := s.count '\n'

@[simp] theorem newlines_append (s t : List Char) : newlines (s ++ t) = newlines s + newlines t :=
  List.count_append

/-! ### Cutting at a mark -/

/-- Splits a text before the first place where `mark` stands, and drops `mark`. -/
def splitAt? (mark : List Char) : List Char → Option (List Char × List Char)
  | [] => if mark.isEmpty then some ([], []) else none
  | c :: rest =>
    if mark.isPrefixOf (c :: rest) then some ([], (c :: rest).drop mark.length)
    else (splitAt? mark rest).map fun (before, after) => (c :: before, after)

/-- What follows the mark is no longer than the whole. -/
theorem length_of_splitAt? {mark s before after : List Char}
    (h : splitAt? mark s = some (before, after)) : after.length ≤ s.length := by
  induction s generalizing before after with
  | nil =>
    unfold splitAt? at h
    split at h
    · simp only [Option.some.injEq, Prod.mk.injEq] at h
      simp [← h.2]
    · exact nomatch h
  | cons c rest ih =>
    unfold splitAt? at h
    split at h
    · simp only [Option.some.injEq, Prod.mk.injEq] at h
      simp only [← h.2, List.length_drop, List.length_cons]
      omega
    · obtain ⟨⟨b, a⟩, hsome, heq⟩ := Option.map_eq_some_iff.1 h
      simp only [Prod.mk.injEq] at heq
      have := ih hsome
      simp only [← heq.2, List.length_cons]
      omega

/-- A text is cut at the mark behind it if the mark begins nowhere before. -/
theorem splitAt?_append {mark : List Char} (hmark : mark ≠ []) (rest : List Char) {body : List Char}
    (h : ∀ u v, body = u ++ v → v ≠ [] → ¬mark <+: v ++ mark ++ rest) :
    splitAt? mark (body ++ mark ++ rest) = some (body, rest) := by
  induction body with
  | nil =>
    obtain ⟨m, more, rfl⟩ := List.exists_cons_of_ne_nil hmark
    rw [List.nil_append, List.cons_append, splitAt?, ← List.cons_append, if_pos (by simp),
      List.drop_left]
  | cons c body ih =>
    have hfirst := h [] (c :: body) rfl (by simp)
    have hlater := ih fun u v huv hv => h (c :: u) v (by rw [huv, List.cons_append]) hv
    rw [List.append_assoc, List.cons_append, splitAt?, ← List.cons_append, ← List.append_assoc,
      if_neg (by simpa using hfirst), ← List.append_assoc, hlater]
    rfl

/-- A text without a character is cut at that character behind it. -/
theorem splitAt?_singleton {c : Char} {body : List Char} (h : c ∉ body) (rest : List Char) :
    splitAt? [c] (body ++ c :: rest) = some (body, rest) := by
  have hmark : [c] ≠ [] := by simp
  have happend : body ++ c :: rest = body ++ [c] ++ rest := by simp
  rw [happend]
  refine splitAt?_append hmark rest ?_
  rintro u v rfl hv hbegins
  obtain ⟨d, v, rfl⟩ := List.exists_cons_of_ne_nil hv
  simp only [List.append_assoc, List.cons_append, List.cons_prefix_cons] at hbegins
  exact h (by simp [hbegins.1])

/-- What a mark cuts a text into. The mark is not there before. -/
theorem eq_of_splitAt? {mark s before after : List Char} (hmark : mark ≠ [])
    (h : splitAt? mark s = some (before, after)) :
    s = before ++ (mark ++ after) ∧ ¬mark <:+: before := by
  induction s generalizing before with
  | nil =>
    rw [splitAt?, if_neg (by simpa using hmark)] at h
    cases h
  | cons c s ih =>
    rw [splitAt?] at h
    split at h
    · rename_i hbegins
      cases h
      refine ⟨?_, fun hinfix => hmark (List.infix_nil.1 hinfix)⟩
      exact (List.prefix_iff_eq_append.1 (List.isPrefixOf_iff_prefix.1 hbegins)).symm
    · rename_i hbegins
      obtain ⟨⟨before', after'⟩, hcut, heq⟩ := Option.map_eq_some_iff.1 h
      cases heq
      obtain ⟨rfl, hnone⟩ := ih hcut
      refine ⟨rfl, fun hinfix => ?_⟩
      rcases List.infix_cons_iff.1 hinfix with hhead | hinfix
      · refine hbegins (List.isPrefixOf_iff_prefix.2 (hhead.trans ?_))
        exact List.prefix_append (c :: before') _
      · exact hnone hinfix

theorem splitAt?_singleton_eq_some_iff {c : Char} {s before after : List Char} :
    splitAt? [c] s = some (before, after) ↔ s = before ++ c :: after ∧ c ∉ before := by
  constructor
  · intro h
    obtain ⟨hs, hnone⟩ := eq_of_splitAt? (by simp) h
    refine ⟨hs, fun hmem => hnone ?_⟩
    obtain ⟨u, v, rfl⟩ := List.append_of_mem hmem
    exact ⟨u, v, by simp⟩
  · rintro ⟨rfl, hnone⟩
    exact splitAt?_singleton hnone after

theorem splitAt?_singleton_eq_none_iff {c : Char} {s : List Char} :
    splitAt? [c] s = none ↔ c ∉ s := by
  constructor
  · intro h hmem
    obtain ⟨before, after, rfl, hnone⟩ := List.eq_append_cons_of_mem hmem
    rw [splitAt?_singleton hnone] at h
    exact nomatch h
  · intro hnone
    cases h : splitAt? [c] s with
    | none => rfl
    | some cut =>
      obtain ⟨rfl, -⟩ := splitAt?_singleton_eq_some_iff.1 h
      exact absurd (by simp) hnone

/-! ### In front of a rest -/

section InFront

variable {ε α : Type}

theorem map_nil_append (x : Except ε (List α)) : x.map ([] ++ ·) = x := by
  cases x <;> rfl

theorem map_append_map (l l' : List α) (x : Except ε (List α)) :
    (x.map (l' ++ ·)).map (l ++ ·) = x.map (l ++ l' ++ ·) := by
  cases x with
  | error e => rfl
  | ok rest => exact congrArg Except.ok (List.append_assoc l l' rest).symm

theorem map_cons_map (a : α) (l : List α) (x : Except ε (List α)) :
    (x.map (l ++ ·)).map (a :: ·) = x.map (a :: l ++ ·) := map_append_map [a] l x

end InFront

end LiveTemplate.Text
