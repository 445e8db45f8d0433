import LiveTemplate.Proofs.Numerals
import LiveTemplate.Proofs.Serialization

/-!
# Laws of the scanner

What the scanner does with each piece of a source text, whatever follows. Blanks, comments and
instructions are passed over (`scanContent_blank`, `scanContent_aside`); a text, a tag and each part
of a tag give their tokens, and the rest is scanned from the line they end on. The pieces are as
they stand in a source, so that a rendering of an element can be scanned piece by piece.

The last section says what single tokens there can be: names are of name characters, and no text is
empty.
-/

namespace LiveTemplate.Markup

/-- The text does not begin with a character of a name, so that a name in front of it ends there. -/
def EndsName (t : List Char) : Prop := ∀ c ∈ t.head?, isNameChar c = false

/-- There are only blanks up to the next tag, so that a text in front of them ends there. -/
def EndsText (t : List Char) : Prop := ∀ c ∈ runOf t, Text.isBlank c = true

theorem not_isNameChar_of_isBlank {c : Char} (h : Text.isBlank c = true) :
    isNameChar c = false := by
  rw [Bool.eq_false_iff]
  intro hname
  simp only [isNameChar, Bool.or_eq_true, beq_iff_eq, Decimal.isAlphanum_iff, ← Char.toNat_inj]
    at hname
  simp only [Text.isBlank, Bool.or_eq_true, Bool.and_eq_true, decide_eq_true_eq, beq_iff_eq] at h
  simp at hname
  omega

/-! ### Single steps -/

section Steps

variable {line : Nat} {t : List Char}

theorem nameOf_append {name : List Char} (h : ∀ c ∈ name, isNameChar c = true) (ht : EndsName t) :
    nameOf (name ++ t) = name := by
  rw [nameOf, List.takeWhile_append_of_pos h]
  cases t with
  | nil => simp
  | cons c t => simp [ht c rfl]

theorem afterName_append {name : List Char} (h : ∀ c ∈ name, isNameChar c = true)
    (ht : EndsName t) : afterName (name ++ t) = t := by
  rw [afterName, List.dropWhile_append_of_pos h]
  cases t with
  | nil => rfl
  | cons c t => simp [ht c rfl]

theorem scanContent_nil : scanContent line [] = .ok [⟨.endOfInput, line⟩] := by
  rw [scanContent.eq_def]

theorem scanContent_run {c : Char} (hc : c ≠ '<') :
    scanContent line (c :: t) = (do
      let here ← textToken? line (c :: runOf t)
      let tokens ← scanContent (line + Text.newlines (c :: runOf t)) (afterRun t)
      pure (here ++ tokens)) := by
  rw [scanContent.eq_def]
  split <;> simp_all

theorem scanContent_comment {body rest : List Char}
    (h : Text.splitAt? ['-', '-', '>'] t = some (body, rest)) :
    scanContent line ('<' :: '!' :: '-' :: '-' :: t) =
      scanContent (line + Text.newlines body) rest := by
  rw [scanContent.eq_def]
  simp only []
  split <;> simp_all

theorem scanContent_instruction {body rest : List Char}
    (h : Text.splitAt? ['?', '>'] t = some (body, rest)) :
    scanContent line ('<' :: '?' :: t) = scanContent (line + Text.newlines body) rest := by
  rw [scanContent.eq_def]
  simp only []
  split <;> simp_all

/-- **A start tag begins** with its name. -/
theorem scanContent_openTag {name : List Char} (hne : name ≠ [])
    (h : ∀ c ∈ name, isNameChar c = true) (ht : EndsName t) :
    scanContent line ('<' :: (name ++ t)) =
      (scanTag line t).map (⟨.openTag (String.ofList name), line⟩ :: ·) := by
  have hnotag : ∀ c body, isNameChar c = false → name ++ t ≠ c :: body := by
    intro c body hc heq
    obtain ⟨d, more, rfl⟩ := List.exists_cons_of_ne_nil hne
    rw [List.cons_append, List.cons.injEq] at heq
    exact absurd (h d List.mem_cons_self) (by simp [heq.1, hc])
  rw [scanContent.eq_def]
  split
  case h_5 body _ _ _ heq =>
    obtain rfl : name ++ t = body := by simpa using heq
    simp only [nameOf_append h ht, afterName_append h ht]
    rw [if_neg (by simpa using hne)]
    rfl
  case h_1 heq => cases heq
  case h_2 body heq =>
    exact absurd (by simpa using heq) (hnotag '!' ('-' :: '-' :: body) (by decide))
  case h_3 body heq => exact absurd (by simpa using heq) (hnotag '?' body (by decide))
  case h_4 body heq => exact absurd (by simpa using heq) (hnotag '/' body (by decide))
  case h_6 hne heq =>
    cases heq
    exact absurd rfl hne

/-- **An end tag** is its name and blanks. -/
theorem scanContent_closeTag {name blanks : List Char} (hne : name ≠ [])
    (h : ∀ c ∈ name, isNameChar c = true) (hblanks : ∀ c ∈ blanks, Text.isBlank c = true) :
    scanContent line ('<' :: '/' :: (name ++ (blanks ++ '>' :: t))) =
      (scanContent (line + Text.newlines blanks) t).map
        (⟨.closeTag (String.ofList name), line⟩ :: ·) := by
  have hends : EndsName (blanks ++ '>' :: t) := by
    intro c hc
    cases blanks with
    | nil =>
      obtain rfl : '>' = c := by simpa using hc
      decide
    | cons d blanks =>
      obtain rfl : d = c := by simpa using hc
      exact not_isNameChar_of_isBlank (hblanks d List.mem_cons_self)
  have htake : (blanks ++ '>' :: t).takeWhile Text.isBlank = blanks := by
    rw [List.takeWhile_append_of_pos hblanks]
    simp [show Text.isBlank '>' = false by decide]
  have hdrop : (afterName (name ++ (blanks ++ '>' :: t))).dropWhile Text.isBlank = '>' :: t := by
    rw [afterName_append h hends, List.dropWhile_append_of_pos hblanks]
    simp [show Text.isBlank '>' = false by decide]
  rw [scanContent.eq_def]
  simp only [nameOf_append h hends]
  rw [if_neg (by simpa using hne)]
  split
  case h_1 rest heq =>
    rw [hdrop] at heq
    cases heq
    rw [afterName_append h hends, htake]
    rfl
  case h_2 hnone => exact absurd hdrop (hnone t)

theorem scanTag_end :
    scanTag line ('>' :: t) = (scanContent line t).map (⟨.tagEnd, line⟩ :: ·) := by
  rw [scanTag.eq_def]
  rfl

theorem scanTag_selfClose :
    scanTag line ('/' :: '>' :: t) = (scanContent line t).map (⟨.selfClose, line⟩ :: ·) := by
  rw [scanTag.eq_def]
  rfl

theorem scanTag_equals : scanTag line ('=' :: t) = (scanTag line t).map (⟨.equals, line⟩ :: ·) := by
  rw [scanTag.eq_def]
  rfl

theorem scanTag_name {name : List Char} (hne : name ≠ []) (h : ∀ c ∈ name, isNameChar c = true)
    (ht : EndsName t) :
    scanTag line (name ++ t) =
      (scanTag line t).map (⟨.attrName (String.ofList name), line⟩ :: ·) := by
  obtain ⟨c, more, rfl⟩ := List.exists_cons_of_ne_nil hne
  have hc := h c List.mem_cons_self
  have hmore : ∀ d ∈ more, isNameChar d = true := fun d hd ↦ h d (List.mem_cons_of_mem _ hd)
  have hblank : ¬Text.isBlank c = true := fun hb ↦ by simp [not_isNameChar_of_isBlank hb] at hc
  have hmark : ∀ d, isNameChar d = false → c ≠ d := fun d hd heq ↦ by simp [heq, hd] at hc
  rw [List.cons_append, scanTag.eq_def]
  simp only [nameOf_append hmore ht, afterName_append hmore ht, hblank, hc, if_true, if_false,
    hmark '>' (by decide), hmark '/' (by decide), hmark '=' (by decide), hmark '"' (by decide),
    hmark '\x27' (by decide), or_self]
  rfl

/-- **The value of an attribute** stands between two quotes of a kind. -/
theorem scanTag_value {quote : Char} (hquote : quote = '"' ∨ quote = '\x27')
    {raw value : List Char} (hraw : quote ∉ raw) (hvalue : decode raw = .ok value) :
    scanTag line (quote :: (raw ++ quote :: t)) =
      (scanTag (line + Text.newlines raw) t).map
        (⟨.attrValue (String.ofList value), line⟩ :: ·) := by
  have hcut := Text.splitAt?_singleton hraw t
  have hquoted : quotedValue line quote (raw ++ quote :: t) =
      .ok (String.ofList value, Text.newlines raw, ⟨t, Text.length_of_splitAt? hcut⟩) := by
    rw [quotedValue]
    split
    case h_1 heq => simp [hcut] at heq
    case h_2 before after heq =>
      rw [hcut] at heq
      cases heq
      rw [hvalue]
  rw [scanTag.eq_def]
  obtain rfl | rfl := hquote
  · show (quotedValue line _ _ >>= _) = _
    rw [hquoted]
    rfl
  · show (quotedValue line _ _ >>= _) = _
    rw [hquoted]
    rfl

theorem scanTag_blank {c : Char} (hc : Text.isBlank c = true) :
    scanTag line (c :: t) = scanTag (line + Text.newlines [c]) t := by
  rw [scanTag.eq_def]
  simp only [hc, if_true]
  congr 1
  by_cases h : c = '\n' <;> simp [h, Text.newlines]

end Steps

/-! ### What is passed over -/

/-- A comment or a processing instruction. -/
inductive Aside : List Char → Prop
  | comment (body : List Char) (h : ¬['-', '-', '>'] <:+: body) :
      Aside ('<' :: '!' :: '-' :: '-' :: (body ++ ['-', '-', '>']))
  | instruction (body : List Char) (h : ¬['?', '>'] <:+: body) :
      Aside ('<' :: '?' :: (body ++ ['?', '>']))

section PassedOver

variable {t : List Char}

theorem newlines_cons (c : Char) (s : List Char) :
    Text.newlines (c :: s) = Text.newlines [c] + Text.newlines s := by
  rw [← Text.newlines_append, List.singleton_append]

theorem newlines_comment (body : List Char) :
    Text.newlines ('<' :: '!' :: '-' :: '-' :: (body ++ ['-', '-', '>'])) = Text.newlines body := by
  simp [Text.newlines]

theorem newlines_instruction (body : List Char) :
    Text.newlines ('<' :: '?' :: (body ++ ['?', '>'])) = Text.newlines body := by
  simp [Text.newlines]

/-- **A comment or an instruction gives no token.** -/
theorem scanContent_aside (line : Nat) {m : List Char} (hm : Aside m) :
    scanContent line (m ++ t) = scanContent (line + Text.newlines m) t := by
  cases hm with
  | comment body h =>
    -- The mark cannot begin with the last characters of the body.
    have hcut : Text.splitAt? ['-', '-', '>'] (body ++ ['-', '-', '>'] ++ t) = some (body, t) := by
      refine Text.splitAt?_append (by simp) t ?_
      rintro u v rfl hv hbegins
      match v with
      | [_] | [_, _] => simp at hbegins
      | a :: b :: c :: v =>
        simp only [List.cons_append, List.cons_prefix_cons, List.nil_prefix, and_true] at hbegins
        obtain ⟨rfl, rfl, rfl⟩ := hbegins
        exact h ⟨u, v, by simp⟩
    rw [newlines_comment]
    exact scanContent_comment hcut
  | instruction body h =>
    have hcut : Text.splitAt? ['?', '>'] (body ++ ['?', '>'] ++ t) = some (body, t) := by
      refine Text.splitAt?_append (by simp) t ?_
      rintro u v rfl hv hbegins
      match v with
      | [_] => simp at hbegins
      | a :: b :: v =>
        simp only [List.cons_append, List.cons_prefix_cons, List.nil_prefix, and_true] at hbegins
        obtain ⟨rfl, rfl⟩ := hbegins
        exact h ⟨u, v, by simp⟩
    rw [newlines_instruction]
    exact scanContent_instruction hcut

theorem textToken?_blank (line : Nat) {c : Char} (hc : Text.isBlank c = true) (raw : List Char) :
    textToken? line (c :: raw) = textToken? (line + Text.newlines [c]) raw := by
  have htrim : Text.trim (c :: raw) = Text.trim raw := by
    rw [Text.trim, Text.trimStart, List.dropWhile_cons_of_pos hc]
    rfl
  have htake : (c :: raw).takeWhile Text.isBlank = c :: raw.takeWhile Text.isBlank :=
    List.takeWhile_cons_of_pos hc
  rw [textToken?, textToken?, htrim, htake, newlines_cons, Nat.add_assoc]

/-- What is scanned first is the text up to the next tag, whether there is any or not. -/
theorem scanContent_eq_run (line : Nat) (t : List Char) :
    scanContent line t = (do
      let here ← textToken? line (runOf t)
      let tokens ← scanContent (line + Text.newlines (runOf t)) (afterRun t)
      pure (here ++ tokens)) := by
  have hnone : ∀ x : Except Fault (List Located), x = x >>= fun tokens ↦ pure ([] ++ tokens) := by
    intro x
    cases x <;> rfl
  cases t with
  | nil => exact hnone _
  | cons c t =>
    by_cases hc : c = '<'
    · subst hc
      exact hnone _
    · have hrun : runOf (c :: t) = c :: runOf t := List.takeWhile_cons_of_pos (by simpa using hc)
      have hafter : afterRun (c :: t) = afterRun t := List.dropWhile_cons_of_pos (by simpa using hc)
      rw [scanContent_run hc, hrun, hafter]

/-- **A blank outside a tag gives no token**, whether a text follows or not. -/
theorem scanContent_blank (line : Nat) {c : Char} (hc : Text.isBlank c = true) :
    scanContent line (c :: t) = scanContent (line + Text.newlines [c]) t := by
  have hopen : c ≠ '<' := by
    rintro rfl
    exact absurd hc (by decide)
  rw [scanContent_run hopen, textToken?_blank line hc, newlines_cons c (runOf t), ← Nat.add_assoc]
  exact (scanContent_eq_run _ t).symm

theorem scanContent_blanks (line : Nat) {blanks : List Char}
    (h : ∀ c ∈ blanks, Text.isBlank c = true) :
    scanContent line (blanks ++ t) = scanContent (line + Text.newlines blanks) t := by
  induction blanks generalizing line with
  | nil => rfl
  | cons c blanks ih =>
    rw [List.cons_append, scanContent_blank line (h c List.mem_cons_self),
      ih _ fun d hd ↦ h d (List.mem_cons_of_mem _ hd), newlines_cons c blanks, Nat.add_assoc]

theorem scanTag_blanks (line : Nat) {blanks : List Char}
    (h : ∀ c ∈ blanks, Text.isBlank c = true) :
    scanTag line (blanks ++ t) = scanTag (line + Text.newlines blanks) t := by
  induction blanks generalizing line with
  | nil => rfl
  | cons c blanks ih =>
    rw [List.cons_append, scanTag_blank (h c List.mem_cons_self),
      ih _ fun d hd ↦ h d (List.mem_cons_of_mem _ hd), newlines_cons c blanks, Nat.add_assoc]

end PassedOver

/-! ### Texts -/

/-- The text neither begins nor ends with a blank. -/
structure Trimmed (raw : List Char) : Prop where
  head : ∀ c ∈ raw.head?, Text.isBlank c = false
  last : ∀ c ∈ raw.getLast?, Text.isBlank c = false

theorem dropWhile_eq_self {α : Type} {p : α → Bool} {l : List α}
    (h : ∀ a ∈ l.head?, p a = false) : l.dropWhile p = l := by
  cases l with
  | nil => rfl
  | cons a l => exact List.dropWhile_cons_of_neg (by simp [h a rfl])

theorem trim_append {raw blanks : List Char} (h : Trimmed raw) (hne : raw ≠ [])
    (hblanks : ∀ c ∈ blanks, Text.isBlank c = true) : Text.trim (raw ++ blanks) = raw := by
  obtain ⟨c, more, rfl⟩ := List.exists_cons_of_ne_nil hne
  have hlast : ∀ c' ∈ (c :: more).reverse.head?, Text.isBlank c' = false := by
    rw [List.head?_reverse]
    exact h.last
  have hstart : Text.trimStart (c :: more ++ blanks) = c :: more ++ blanks :=
    dropWhile_eq_self fun d hd ↦ h.head d (by simpa using hd)
  rw [Text.trim, hstart, Text.trimEnd, List.reverse_append,
    List.dropWhile_append_of_pos (by simpa using hblanks), dropWhile_eq_self hlast,
    List.reverse_reverse]

/-- **A text is one token**, up to blanks in front of the next tag. -/
theorem scanContent_text (line : Nat) {raw content t : List Char} (hne : raw ≠ [])
    (htrimmed : Trimmed raw) (hraw : '<' ∉ raw) (hcontent : decode raw = .ok content)
    (ht : EndsText t) :
    scanContent line (raw ++ t) =
      (scanContent (line + Text.newlines raw) t).map
        (⟨.text (String.ofList content), line⟩ :: ·) := by
  have hopen : ∀ c ∈ raw, (c != '<') = true := fun c hc ↦ by
    rw [bne_iff_ne]
    rintro rfl
    exact hraw hc
  have hrun : runOf (raw ++ t) = raw ++ runOf t := List.takeWhile_append_of_pos hopen
  have hafter : afterRun (raw ++ t) = afterRun t := List.dropWhile_append_of_pos hopen
  have hstart : (raw ++ runOf t).takeWhile Text.isBlank = [] := by
    obtain ⟨c, more, rfl⟩ := List.exists_cons_of_ne_nil hne
    exact List.takeWhile_cons_of_neg (by simp [htrimmed.head c rfl])
  have htoken : textToken? line (raw ++ runOf t) =
      .ok [⟨.text (String.ofList content), line⟩] := by
    rw [textToken?, trim_append htrimmed hne ht, hstart]
    simp [hne, hcontent, Text.newlines]
  have hblanks := scanContent_blanks (t := afterRun t) (line + Text.newlines raw) ht
  rw [runOf, afterRun, List.takeWhile_append_dropWhile, Nat.add_assoc, ← Text.newlines_append]
    at hblanks
  rw [scanContent_eq_run, hrun, hafter, htoken, hblanks]
  rfl

/-! ### What tokens there are -/

structure IsName (s : String) : Prop where
  ne : s ≠ ""
  chars : ∀ c ∈ s.toList, isNameChar c = true

theorem isName_ofList {name : List Char} (hne : name ≠ []) (h : ∀ c ∈ name, isNameChar c = true) :
    IsName (String.ofList name) where
  ne := by simpa using hne
  chars := by simpa using h

theorem isNameChar_of_mem_nameOf {c : Char} {s : List Char} (h : c ∈ nameOf s) :
    isNameChar c = true :=
  List.all_eq_true.1 List.all_takeWhile c h

theorem isName_nameOf {s : List Char} (hne : nameOf s ≠ []) : IsName (String.ofList (nameOf s)) :=
  isName_ofList hne fun _ hc ↦ isNameChar_of_mem_nameOf hc

/-- A token as the scanner gives it. -/
def Token.Proper : Token → Prop
  | .openTag name | .closeTag name | .attrName name => IsName name
  | .text content => content ≠ ""
  | _ => True

theorem decode_ne_nil {s content : List Char} (hs : s ≠ []) (h : decode s = .ok content) :
    content ≠ [] := by
  rintro rfl
  obtain ⟨c, rest, rfl⟩ := List.exists_cons_of_ne_nil hs
  have hnil : ∀ (x : Except Cause (List Char)) (d : Char), x.map (d :: ·) ≠ .ok [] := by
    intro x d
    cases x <;> simp [Except.map]
  rw [decode] at h
  split at h
  · split at h
    · cases h
    · split at h
      · cases h
      · exact hnil _ _ h
  · exact hnil _ _ h

/-- The text between two tags is one token or none. -/
theorem textToken?_eq_ok {line : Nat} {raw : List Char} {here : List Located}
    (h : textToken? line raw = .ok here) :
    here = [] ∨ ∃ t content, here = [t] ∧ t.token = .text content ∧ content ≠ "" := by
  rw [textToken?] at h
  split at h
  · exact .inl (Except.ok.inj h).symm
  next hne =>
    split at h
    next content hcontent =>
      cases h
      have hcontent' := decode_ne_nil (by simpa using hne) hcontent
      exact .inr ⟨_, _, rfl, rfl, by simpa using hcontent'⟩
    · cases h

/-- The value of an attribute is cut off at its closing quote. -/
theorem eq_of_quotedValue {line lines : Nat} {quote : Char} {s : List Char} {value : String}
    {rest : { rest : List Char // rest.length ≤ s.length }}
    (h : quotedValue line quote s = .ok (value, lines, rest)) :
    ∃ raw content, s = raw ++ ([quote] ++ rest.1) ∧ quote ∉ raw ∧ decode raw = .ok content ∧
      value = String.ofList content ∧ lines = Text.newlines raw := by
  rw [quotedValue] at h
  split at h
  · cases h
  next raw after hcut =>
    split at h
    next content hcontent =>
      cases h
      obtain ⟨hs, hnone⟩ := Text.splitAt?_singleton_eq_some_iff.1 hcut
      exact ⟨raw, content, hs, hnone, hcontent, rfl, rfl⟩
    · cases h

end LiveTemplate.Markup
