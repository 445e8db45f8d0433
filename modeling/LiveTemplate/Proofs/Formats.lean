import LiveTemplate.Value.Maps

/-!
# Reading formats

A format is read from the left, one piece after the other (`Takes`): a character that stands for
itself, `$$`, a `$` in front of something else, or a key in `$(` and `)`. What it gives is what the
pieces show, in their order (`formatRest_of_takes`), so what is put in is never read. Reading goes on
to the end or comes to a place where a key is not closed or not in the map (`reads_to_end_or_fails`),
and a format fails in the latter case and no other.

Any text can be written so that it is read as itself, by doubling each `$`. This does not depend on
what is written behind it, since the two are taken together (`formatRest_written_append`).
-/

namespace LiveTemplate.OrderedMap

open Text (map_append_map map_nil_append)

variable {α : Type}

/-! ### Pieces -/

/-- What a format is made of: text that stands for itself, and keys for which values are put in. -/
inductive Piece
  | literal (s : String)
  | key (k : String)

/-- How a piece is written in a format: each `$` of a text twice, and a key in `$(` and `)`. -/
def Piece.written : Piece → List Char
  | .literal s => s.toList.flatMap fun c ↦ if c = '$' then ['$', '$'] else [c]
  | .key k => '$' :: '(' :: (k.toList ++ [')'])

/-- What a piece shows: a text itself, and a key what its value shows. -/
def Piece.shown (payload : α → Payload) (m : OrderedMap α) : Piece → List Char
  | .literal s => s.toList
  | .key k => ((m.get? k).map fun a ↦ (payload a).display.toList).getD []

/-- Whether a piece can be written for a map: a key has to be there and must not close itself. -/
def Piece.Fits (m : OrderedMap α) : Piece → Prop
  | .literal _ => True
  | .key k => m.has k = true ∧ ')' ∉ k.toList

instance (m : OrderedMap α) : DecidablePred (Piece.Fits m)
  | .literal _ => .isTrue trivial
  | .key k => inferInstanceAs (Decidable (m.has k = true ∧ ')' ∉ k.toList))

/-! ### Reading from the left -/

/-- The first piece of a format, and what is left to read behind it. -/
inductive Takes : List Char → Piece → List Char → Prop
  | plain {c : Char} {rest : List Char} (hc : c ≠ '$') :
      Takes (c :: rest) (.literal (String.singleton c)) rest
  | doubled {rest : List Char} : Takes ('$' :: '$' :: rest) (.literal "$") rest
  | single {rest : List Char} (hdouble : rest.head? ≠ some '$') (hopen : rest.head? ≠ some '(') :
      Takes ('$' :: rest) (.literal "$") rest
  | key {k : String} {rest : List Char} (hclose : ')' ∉ k.toList) :
      Takes ('$' :: '(' :: (k.toList ++ ')' :: rest)) (.key k) rest

/-- Reading a format takes some pieces and comes to a place, where so much is left. -/
inductive Reads : List Char → List Piece → List Char → Prop
  | here (s : List Char) : Reads s [] s
  | step {s s' rest : List Char} {piece : Piece} {ps : List Piece} (htakes : Takes s piece s')
      (hrest : Reads s' ps rest) : Reads s (piece :: ps) rest

/-- What is wrong at a place where a key begins: it is not closed behind, or it is not in the map. -/
inductive Fails (m : OrderedMap α) (whole : String) : List Char → Problem → Prop
  | unclosed {inner : List Char} (hclose : ')' ∉ inner) :
      Fails m whole ('$' :: '(' :: inner) (.unterminatedFormat whole)
  | unknown {k : String} {rest : List Char} (hclose : ')' ∉ k.toList) (hknown : m.has k = false) :
      Fails m whole ('$' :: '(' :: (k.toList ++ ')' :: rest)) (.missingKey .error k m.keys)

theorem Takes.length_lt {s rest : List Char} {piece : Piece} (h : Takes s piece rest) :
    rest.length < s.length := by
  cases h with
  | plain | single => exact Nat.lt_succ_self _
  | doubled => exact Nat.lt_add_of_pos_right Nat.two_pos
  | key =>
    simp only [List.length_cons, List.length_append]
    omega

theorem Fails.severity_eq {m : OrderedMap α} {whole : String} {s : List Char} {p : Problem}
    (h : Fails m whole s p) : p.severity = .error := by
  cases h <;> rfl

/-! ### What is read -/

variable {payload : α → Payload} {m : OrderedMap α} {whole : String} {s rest : List Char}
  {piece : Piece} {ps : List Piece} {p : Problem}

theorem formatRest_plain {c : Char} (hc : c ≠ '$') (rest : List Char) :
    formatRest payload m whole (c :: rest) = (formatRest payload m whole rest).map (c :: ·) := by
  rw [formatRest] <;> exact fun _ h ↦ absurd h hc

theorem formatRest_doubled (rest : List Char) : formatRest payload m whole ('$' :: '$' :: rest) =
    (formatRest payload m whole rest).map ('$' :: ·) := by
  rw [formatRest]

theorem formatRest_single (hdouble : rest.head? ≠ some '$') (hopen : rest.head? ≠ some '(') :
    formatRest payload m whole ('$' :: rest) = (formatRest payload m whole rest).map ('$' :: ·) := by
  rw [formatRest]
  · exact fun rest' _ hrest ↦ hdouble (by rw [hrest]; rfl)
  · exact fun inner _ hrest ↦ hopen (by rw [hrest]; rfl)

/-- A key is read together with what closes it. -/
theorem formatRest_key {k : String} (hclose : ')' ∉ k.toList) (rest : List Char) :
    formatRest payload m whole ('$' :: '(' :: (k.toList ++ ')' :: rest)) =
      (do
        let a ← m.expect k .error
        let after ← formatRest payload m whole rest
        pure ((payload a).display.toList ++ after)) := by
  have hcut := Text.splitAt?_singleton hclose rest
  rw [formatRest]
  split
  case h_1 heq => simp [hcut] at heq
  case h_2 heq =>
    rw [hcut] at heq
    cases heq
    rw [String.ofList_toList]

/-- **What a piece shows comes first**, and the rest of the format is read as if it stood alone. -/
theorem formatRest_of_takes (htakes : Takes s piece rest) (hfits : piece.Fits m) :
    formatRest payload m whole s =
      (formatRest payload m whole rest).map (piece.shown payload m ++ ·) := by
  cases htakes with
  | @plain c rest hc =>
    rw [formatRest_plain hc, Piece.shown, String.toList_singleton]
    rfl
  | doubled => exact formatRest_doubled _
  | single hdouble hopen => exact formatRest_single hdouble hopen
  | key hclose =>
    obtain ⟨a, ha⟩ := Option.isSome_iff_exists.1 hfits.1
    rw [formatRest_key hclose, expect, ha, Piece.shown, ha]
    cases formatRest payload m whole rest <;> rfl

theorem formatRest_of_fails (h : Fails m whole s p) :
    formatRest payload m whole s = .error p := by
  cases h with
  | unclosed hclose =>
    have hcut := Text.splitAt?_singleton_eq_none_iff.2 hclose
    rw [formatRest]
    split
    case h_1 => rfl
    case h_2 heq => rw [hcut] at heq; cases heq
  | unknown hclose hknown =>
    have hnone := Option.isNone_iff_eq_none.1 (Option.isSome_eq_false_iff.1 hknown)
    rw [formatRest_key hclose, expect, hnone]
    rfl

/-- What is left to read either begins with a piece that can be read, or it is where reading fails. -/
theorem takes_or_fails (m : OrderedMap α) (whole : String) (hs : s ≠ []) :
    (∃ piece rest, Takes s piece rest ∧ piece.Fits m) ∨ ∃ p, Fails m whole s p := by
  obtain ⟨c, s, rfl⟩ := List.exists_cons_of_ne_nil hs
  by_cases hc : c = '$'
  case neg => exact .inl ⟨_, _, .plain hc, trivial⟩
  subst hc
  by_cases hdouble : s.head? = some '$'
  · obtain ⟨rest, rfl⟩ := List.head?_eq_some_iff.1 hdouble
    exact .inl ⟨_, _, .doubled, trivial⟩
  by_cases hopen : s.head? = some '('
  case neg => exact .inl ⟨_, _, .single hdouble hopen, trivial⟩
  obtain ⟨inner, rfl⟩ := List.head?_eq_some_iff.1 hopen
  cases hcut : Text.splitAt? [')'] inner with
  | none => exact .inr ⟨_, .unclosed (Text.splitAt?_singleton_eq_none_iff.1 hcut)⟩
  | some cut =>
    obtain ⟨k, rest⟩ := cut
    obtain ⟨rfl, hclose⟩ := Text.splitAt?_singleton_eq_some_iff.1 hcut
    rw [← String.toList_ofList (l := k)] at hclose ⊢
    cases hknown : m.has (String.ofList k) with
    | true => exact .inl ⟨_, _, .key hclose, hknown, hclose⟩
    | false => exact .inr ⟨_, .unknown hclose hknown⟩

/-- A piece that can be read but does not fit is a key that is not in the map. -/
theorem exists_fails_of_takes (whole : String) (htakes : Takes s piece rest)
    (hfits : ¬piece.Fits m) : ∃ p, Fails m whole s p := by
  cases htakes with
  | plain | doubled | single => exact absurd trivial hfits
  | @key k _ hclose =>
    have hknown : m.has k = false := Bool.eq_false_iff.2 fun hknown ↦ hfits ⟨hknown, hclose⟩
    exact ⟨_, .unknown hclose hknown⟩

/-! ### Reading to the end -/

theorem formatRest_of_reads (hreads : Reads s ps rest) (hfits : ∀ piece ∈ ps, piece.Fits m) :
    formatRest payload m whole s =
      (formatRest payload m whole rest).map (ps.flatMap (Piece.shown payload m) ++ ·) := by
  induction hreads with
  | here s => exact (map_nil_append _).symm
  | @step s s' rest piece ps htakes hrest ih =>
    rw [List.forall_mem_cons] at hfits
    rw [formatRest_of_takes htakes hfits.1, ih hfits.2, map_append_map, List.flatMap_cons]

/-- **A format can be read** up to its end, or else up to the first place where reading fails. -/
theorem reads_to_end_or_fails (m : OrderedMap α) (whole : String) (s : List Char) :
    ∃ ps rest, Reads s ps rest ∧ (∀ piece ∈ ps, piece.Fits m) ∧
      (rest = [] ∨ ∃ p, Fails m whole rest p) := by
  induction hlength : s.length using Nat.strongRecOn generalizing s with
  | _ n ih =>
    by_cases hs : s = []
    · exact ⟨[], s, .here s, by simp, .inl hs⟩
    rcases takes_or_fails m whole hs with ⟨piece, s', htakes, hfits⟩ | hfails
    · obtain ⟨ps, rest, hreads, hothers, hends⟩ := ih _ (hlength ▸ htakes.length_lt) s' rfl
      exact ⟨piece :: ps, rest, .step htakes hreads, List.forall_mem_cons.2 ⟨hfits, hothers⟩, hends⟩
    · exact ⟨[], s, .here s, by simp, .inr hfails⟩

theorem formatRest_eq_error_iff : formatRest payload m whole s = .error p ↔
    ∃ ps rest, Reads s ps rest ∧ (∀ piece ∈ ps, piece.Fits m) ∧ Fails m whole rest p := by
  constructor
  · intro h
    obtain ⟨ps, rest, hreads, hfits, hends⟩ := reads_to_end_or_fails m whole s
    rw [formatRest_of_reads hreads hfits] at h
    rcases hends with rfl | ⟨p', hfails⟩
    · rw [formatRest] at h
      cases h
    · rw [formatRest_of_fails hfails] at h
      cases h
      exact ⟨ps, rest, hreads, hfits, hfails⟩
  · rintro ⟨ps, rest, hreads, hfits, hfails⟩
    rw [formatRest_of_reads hreads hfits, formatRest_of_fails hfails]
    rfl

theorem formatRest_eq_ok_iff {t : List Char} : formatRest payload m whole s = .ok t ↔
    ∃ ps, Reads s ps [] ∧ (∀ piece ∈ ps, piece.Fits m) ∧ t = ps.flatMap (Piece.shown payload m) := by
  constructor
  · intro h
    obtain ⟨ps, rest, hreads, hfits, hends⟩ := reads_to_end_or_fails m whole s
    rw [formatRest_of_reads hreads hfits] at h
    rcases hends with rfl | ⟨p', hfails⟩
    · rw [formatRest] at h
      cases h
      exact ⟨ps, hreads, hfits, List.append_nil _⟩
    · rw [formatRest_of_fails hfails] at h
      cases h
  · rintro ⟨ps, hreads, hfits, rfl⟩
    rw [formatRest_of_reads hreads hfits, formatRest]
    exact congrArg Except.ok (List.append_nil _)

/-- Where reading fails there is a first place where it does. -/
theorem exists_first_fails (whole : String) (hreads : Reads s ps rest)
    (hfails : ∃ p, Fails m whole rest p) :
    ∃ ps rest p, Reads s ps rest ∧ (∀ piece ∈ ps, piece.Fits m) ∧ Fails m whole rest p := by
  induction hreads with
  | here s =>
    obtain ⟨p, hfails⟩ := hfails
    exact ⟨[], s, p, .here s, by simp, hfails⟩
  | @step s s' rest piece ps htakes hrest ih =>
    by_cases hfits : piece.Fits m
    · obtain ⟨ps, rest, p, hreads, hothers, hfirst⟩ := ih hfails
      exact ⟨piece :: ps, rest, p, .step htakes hreads, List.forall_mem_cons.2 ⟨hfits, hothers⟩,
        hfirst⟩
    · obtain ⟨p, hfirst⟩ := exists_fails_of_takes whole htakes hfits
      exact ⟨[], s, p, .here s, by simp, hfirst⟩

/-! ### Writing -/

/-- A text with each `$` doubled is read as itself, whatever is behind. -/
theorem formatRest_doubling (l rest : List Char) :
    formatRest payload m whole ((l.flatMap fun c ↦ if c = '$' then ['$', '$'] else [c]) ++ rest) =
      (formatRest payload m whole rest).map (l ++ ·) := by
  induction l with
  | nil => exact (map_nil_append _).symm
  | cons c l ih =>
    have hfirst : ∀ rest, formatRest payload m whole ((if c = '$' then ['$', '$'] else [c]) ++ rest) =
        (formatRest payload m whole rest).map ([c] ++ ·) := by
      intro rest
      split
      · rename_i hc
        rw [hc]
        exact formatRest_doubled rest
      · rename_i hc
        exact formatRest_plain hc rest
    rw [List.flatMap_cons, List.append_assoc, hfirst, ih, map_append_map, List.singleton_append]

/-- **Pieces are read as they were written**, whatever is behind. -/
theorem formatRest_written_append (hfits : ∀ piece ∈ ps, piece.Fits m) (rest : List Char) :
    formatRest payload m whole (ps.flatMap Piece.written ++ rest) =
      (formatRest payload m whole rest).map (ps.flatMap (Piece.shown payload m) ++ ·) := by
  induction ps with
  | nil => exact (map_nil_append _).symm
  | cons piece ps ih =>
    rw [List.forall_mem_cons] at hfits
    have hfirst : ∀ rest, formatRest payload m whole (piece.written ++ rest) =
        (formatRest payload m whole rest).map (piece.shown payload m ++ ·) := by
      intro rest
      cases piece with
      | literal s => exact formatRest_doubling s.toList rest
      | key k =>
        have happend : (Piece.key k).written ++ rest = '$' :: '(' :: (k.toList ++ ')' :: rest) := by
          simp [Piece.written]
        rw [happend]
        exact formatRest_of_takes (.key hfits.1.2) hfits.1
    rw [List.flatMap_cons, List.append_assoc, hfirst, ih hfits.2, map_append_map,
      List.flatMap_cons]

/-! ### Whole formats -/

theorem format_eq_ok_iff {t : String} : format payload m whole = .ok t ↔
    formatRest payload m whole whole.toList = .ok t.toList := by
  rw [format]
  cases formatRest payload m whole whole.toList with
  | error p => simp [Except.map]
  | ok l => simp [Except.map, ← String.toList_inj]

theorem format_eq_error_iff : format payload m whole = .error p ↔
    formatRest payload m whole whole.toList = .error p := by
  rw [format]
  cases formatRest payload m whole whole.toList <;> simp [Except.map]

/-- **A format can express any text.** Texts, with each `$` twice, and keys of the map, written one
after the other, give the texts and what the values show, in that order; a value that looks like a
format is not read. What a format is read as is what it gives. And if it fails, which is an error and
no worse, then because reading it from the left comes to a key that is not closed or not in the map:
it fails if there is such a place, and it says what is wrong at the first. -/
theorem format_expresses (payload : α → Payload) (m : OrderedMap α) :
    (∀ ps : List Piece, (∀ piece ∈ ps, piece.Fits m) →
        format payload m (String.ofList (ps.flatMap Piece.written)) =
          .ok (String.ofList (ps.flatMap (Piece.shown payload m)))) ∧
      (∀ whole t, format payload m whole = .ok t ↔
        ∃ ps, Reads whole.toList ps [] ∧ (∀ piece ∈ ps, piece.Fits m) ∧
          t.toList = ps.flatMap (Piece.shown payload m)) ∧
      (∀ whole, (∃ p, format payload m whole = .error p) ↔
        ∃ ps rest p, Reads whole.toList ps rest ∧ Fails m whole rest p) ∧
      ∀ whole p, format payload m whole = .error p → p.severity = .error ∧
        ∃ ps rest, Reads whole.toList ps rest ∧ (∀ piece ∈ ps, piece.Fits m) ∧
          Fails m whole rest p := by
  refine ⟨fun ps hfits ↦ ?_, fun whole t ↦ format_eq_ok_iff.trans formatRest_eq_ok_iff,
    fun whole ↦ ⟨?_, ?_⟩, fun whole p h ↦ ?_⟩
  · rw [format_eq_ok_iff, String.toList_ofList, String.toList_ofList]
    rw [← List.append_nil (ps.flatMap Piece.written), formatRest_written_append hfits, formatRest]
    exact congrArg Except.ok (List.append_nil _)
  · rintro ⟨p, h⟩
    obtain ⟨ps, rest, hreads, -, hfails⟩ := formatRest_eq_error_iff.1 (format_eq_error_iff.1 h)
    exact ⟨ps, rest, p, hreads, hfails⟩
  · rintro ⟨ps, rest, p, hreads, hfails⟩
    obtain ⟨ps, rest, p, hfirst⟩ := exists_first_fails whole hreads ⟨p, hfails⟩
    exact ⟨p, format_eq_error_iff.2 (formatRest_eq_error_iff.2 ⟨ps, rest, hfirst⟩)⟩
  · obtain ⟨ps, rest, hreads, hfits, hfails⟩ :=
      formatRest_eq_error_iff.1 (format_eq_error_iff.1 h)
    exact ⟨hfails.severity_eq, ps, rest, hreads, hfits, hfails⟩

/-- A map in which one value looks like a format itself. -/
def priceTag : OrderedMap Payload := ofList [("name", .string "$(num) $"), ("num", .int 12)]

/-- A `$` that stands for itself in front of a key, and `$$(` which begins none: the former gives what
the key shows, and the latter is passed over until a key comes that is not closed. -/
theorem format_expresses_priceTag :
    format id priceTag "$(name) costs $$$(num)" = .ok "$(num) $ costs $12" ∧
      ∃ p, format id priceTag "$$(num) $(num" = .error p ∧ p.severity = .error := by
  obtain ⟨hwritten, -, hfails, herror⟩ := format_expresses id priceTag
  constructor
  · exact hwritten [.key "name", .literal " costs $", .key "num"] (by decide)
  · have hreads : Reads "$$(num) $(num".toList
        ("$(num) ".toList.map fun c ↦ .literal (String.singleton c)) "$(num".toList :=
      .step .doubled <| .step (.plain (by decide)) <| .step (.plain (by decide)) <|
        .step (.plain (by decide)) <| .step (.plain (by decide)) <| .step (.plain (by decide)) <|
          .step (.plain (by decide)) <| .here _
    obtain ⟨p, hp⟩ := (hfails _).2 ⟨_, _, _, hreads, .unclosed (by decide)⟩
    exact ⟨p, hp, (herror _ p hp).1⟩

end LiveTemplate.OrderedMap
