import LiveTemplate.Proofs.Rendering

/-!
# Where tokens start

A source text is cut into the tokens that are scanned from it, with blanks, comments and
instructions between them, and each token has the line on which it starts (`Placed`). The main
statement is that this is so for every text that is scanned, that the elements and texts that are
read have the lines of the tokens that they start with, and that a text that is refused is refused
at one of its lines (`parse_placed`).

The scanner hands on nothing but a line. What carries the proof is that this is the line of the
place behind all that it has passed, of which the last part belongs to no token yet (`Scanned`);
passing over something makes this part longer (`Scanned.skip`), and a token ends it
(`Scanned.cons`).
-/

namespace LiveTemplate.Markup

/-! ### Places -/

/-- The line of the place behind a text. -/
def lineBehind (before : List Char) : Nat := 1 + Text.newlines before

theorem lineBehind_append (s t : List Char) :
    lineBehind (s ++ t) = lineBehind s + Text.newlines t := by
  rw [lineBehind, lineBehind, Text.newlines_append, Nat.add_assoc]

/-- What may stand in front of a token and belongs to none. Inside a tag these are blanks. -/
def Token.Gap : Token → List Char → Prop
  | .attrName _ | .equals | .attrValue _ | .tagEnd | .selfClose => Blanks
  | _ => Filler

/-- How a token stands in a source text. -/
inductive Token.Lexeme : Token → List Char → Prop
  | openTag {name : List Char} (h : ∀ c ∈ name, isNameChar c = true) :
      Token.Lexeme (.openTag (String.ofList name)) ('<' :: name)
  | closeTag {name blanks : List Char} (h : ∀ c ∈ name, isNameChar c = true)
      (hblanks : Blanks blanks) :
      Token.Lexeme (.closeTag (String.ofList name)) ('<' :: '/' :: (name ++ (blanks ++ ['>'])))
  | attrName {name : List Char} (hne : name ≠ []) (h : ∀ c ∈ name, isNameChar c = true) :
      Token.Lexeme (.attrName (String.ofList name)) name
  | equals : Token.Lexeme .equals ['=']
  | attrValue {quote : Char} (hquote : quote = '"' ∨ quote = '\x27') {raw value : List Char}
      (hraw : quote ∉ raw) (hvalue : decode raw = .ok value) :
      Token.Lexeme (.attrValue (String.ofList value)) (quote :: (raw ++ [quote]))
  | tagEnd : Token.Lexeme .tagEnd ['>']
  | selfClose : Token.Lexeme .selfClose ['/', '>']
  | text {raw content : List Char} (hne : raw ≠ []) (htrimmed : Trimmed raw) (hraw : '<' ∉ raw)
      (hcontent : decode raw = .ok content) : Token.Lexeme (.text (String.ofList content)) raw

/-- A text is cut into tokens behind another text. The line of each is that of the place where it
starts, and the end of the input is the last. -/
inductive Placed : List Char → List Char → List Located → Prop
  | done (before : List Char) {gap : List Char} (hgap : Filler gap) :
      Placed before gap [⟨.endOfInput, lineBehind (before ++ gap)⟩]
  | token (before : List Char) {t : Token} {gap lexeme rest : List Char} {ts : List Located}
      (hgap : t.Gap gap) (hlexeme : t.Lexeme lexeme)
      (h : Placed (before ++ gap ++ lexeme) rest ts) :
      Placed before (gap ++ (lexeme ++ rest)) (⟨t, lineBehind (before ++ gap)⟩ :: ts)

/-- The lines of tokens are those of their text. -/
theorem Placed.line_le {before s : List Char} {ts : List Located} (h : Placed before s ts) :
    ∀ t ∈ ts, lineBehind before ≤ t.line ∧ t.line ≤ lineBehind (before ++ s) := by
  induction h with
  | done before hgap =>
    intro t ht
    rw [List.mem_singleton.1 ht]
    exact ⟨lineBehind_append before _ ▸ Nat.le_add_right _ _, Nat.le_refl _⟩
  | @token before _ gap lexeme rest ts hgap hlexeme h ih =>
    simp only [lineBehind_append, Text.newlines_append] at ih ⊢
    intro t ht
    rcases List.mem_cons.1 ht with rfl | ht
    · dsimp only
      omega
    · have hline := ih t ht
      omega

/-! ### Scanning -/

/-- What comes of scanning a text behind one that ends with a gap, where the line is that of the
place between them: the tokens of what follows that one, or a refusal at a line of the text. -/
structure Scanned (Gap : List Char → Prop) (line : Nat) (s : List Char)
    (x : Except Fault (List Located)) : Prop where
  placed : ∀ ts, x = .ok ts → ∀ before gap, Gap gap → line = lineBehind (before ++ gap) →
    Placed before (gap ++ s) ts
  refused : ∀ fault, x = .error fault → line ≤ fault.line ∧ fault.line ≤ line + Text.newlines s

section Scanned

variable {Gap Gap' : List Char → Prop} {line : Nat} {s skipped lexeme rest : List Char}
  {x : Except Fault (List Located)}

theorem scanned_error {fault : Fault} (hge : line ≤ fault.line)
    (hle : fault.line ≤ line + Text.newlines s) : Scanned Gap line s (.error fault) where
  placed := nofun
  refused := by
    rintro _ ⟨⟩
    exact ⟨hge, hle⟩

theorem scanned_refuse (cause : Cause) : Scanned Gap line s (.error ⟨line, cause⟩) :=
  scanned_error (Nat.le_refl _) (Nat.le_add_right _ _)

/-- Something is passed over. -/
theorem Scanned.skip (hgap : ∀ gap, Gap gap → Gap (gap ++ skipped))
    (h : Scanned Gap (line + Text.newlines skipped) rest x) :
    Scanned Gap line (skipped ++ rest) x where
  placed := by
    rintro ts hts before gap hg rfl
    rw [← List.append_assoc]
    refine h.placed ts hts before (gap ++ skipped) (hgap gap hg) ?_
    rw [← lineBehind_append, List.append_assoc]
  refused := by
    intro fault hfault
    have hline := h.refused fault hfault
    rw [Text.newlines_append]
    omega

/-- A token is cut off. -/
theorem Scanned.cons {t : Token} {lines : Nat} (hgap : ∀ gap, Gap gap → t.Gap gap)
    (hlexeme : t.Lexeme lexeme) (hlines : Text.newlines lexeme = lines) (hnone : Gap' [])
    (h : Scanned Gap' (line + lines) rest x) :
    Scanned Gap line (lexeme ++ rest) (do
      let tokens ← x
      pure (⟨t, line⟩ :: tokens)) where
  placed := by
    rintro ts hts before gap hg rfl
    subst hlines
    cases x with
    | error fault => cases hts
    | ok us =>
      cases hts
      refine .token before (hgap gap hg) hlexeme ?_
      refine h.placed us rfl (before ++ gap ++ lexeme) [] hnone ?_
      simp only [List.append_nil, lineBehind_append]
  refused := by
    intro fault hfault
    cases x with
    | ok us => cases hfault
    | error fault' =>
      cases hfault
      have hline := h.refused _ rfl
      rw [Text.newlines_append, hlines]
      omega

end Scanned

theorem Filler.append {u v : List Char} (hu : Filler u) (hv : Filler v) : Filler (u ++ v) := by
  induction hu with
  | nil => exact hv
  | blank hc _ ih => exact .blank hc ih
  | aside hm _ ih =>
    rw [List.append_assoc]
    exact .aside hm ih

/-- A comment or an instruction is passed over. -/
theorem Scanned.aside {line lines : Nat} {m rest : List Char} {x : Except Fault (List Located)}
    (hm : Aside m) (hlines : Text.newlines m = lines)
    (h : Scanned Filler (line + lines) rest x) : Scanned Filler line (m ++ rest) x := by
  subst hlines
  refine h.skip fun gap hgap ↦ hgap.append ?_
  rw [← List.append_nil m]
  exact .aside hm .nil

theorem newlines_of_name {name : List Char} (h : ∀ c ∈ name, isNameChar c = true) :
    Text.newlines name = 0 :=
  List.count_eq_zero.2 fun hmem ↦ absurd (h _ hmem) (by decide)

theorem filler_blanks {blanks : List Char} (h : Blanks blanks) : Filler blanks := by
  induction blanks with
  | nil => exact .nil
  | cons c blanks ih =>
    exact .blank (h c List.mem_cons_self) (ih fun d hd ↦ h d (List.mem_cons_of_mem _ hd))

theorem Blanks.append {u v : List Char} (hu : Blanks u) (hv : Blanks v) : Blanks (u ++ v) :=
  fun c hc ↦ (List.mem_append.1 hc).elim (hu c) (hv c)

theorem blanks_nil : Blanks [] := fun _ hc ↦ absurd hc List.not_mem_nil

theorem blanks_takeWhile (s : List Char) : Blanks (s.takeWhile Text.isBlank) :=
  List.all_eq_true.1 List.all_takeWhile

/-- A text between blanks. -/
theorem exists_eq_append_trim (raw : List Char) : ∃ behind, Blanks behind ∧
    raw = raw.takeWhile Text.isBlank ++ (Text.trim raw ++ behind) ∧ Trimmed (Text.trim raw) := by
  have hstart : ∀ (l : List Char), ∀ c ∈ (l.dropWhile Text.isBlank).head?,
      Text.isBlank c = false := by
    intro l c hc
    have hnot := List.head?_dropWhile_not Text.isBlank l
    rw [Option.mem_def.1 hc] at hnot
    simpa using hnot
  have hend : Text.trim raw ++ ((Text.trimStart raw).reverse.takeWhile Text.isBlank).reverse =
      Text.trimStart raw := by
    rw [Text.trim, Text.trimEnd, ← List.reverse_append, List.takeWhile_append_dropWhile,
      List.reverse_reverse]
  refine ⟨((Text.trimStart raw).reverse.takeWhile Text.isBlank).reverse, ?_, ?_, ?_, ?_⟩
  · intro c hc
    exact blanks_takeWhile _ c (List.mem_reverse.1 hc)
  · rw [hend]
    exact List.takeWhile_append_dropWhile.symm
  · intro c hc
    refine hstart raw c ?_
    show c ∈ (Text.trimStart raw).head?
    rw [← hend, List.head?_append, Option.mem_def.1 hc]
    rfl
  · intro c hc
    rw [Text.trim, Text.trimEnd, List.getLast?_reverse] at hc
    exact hstart _ c hc

theorem newlines_closeTag {name : List Char} (h : ∀ c ∈ name, isNameChar c = true)
    (blanks : List Char) :
    Text.newlines ('<' :: '/' :: (name ++ (blanks ++ ['>']))) = Text.newlines blanks := by
  have hname := newlines_of_name h
  simp_all [Text.newlines]

theorem not_mem_runOf (s : List Char) : '<' ∉ runOf s := by
  intro hmem
  have hne := List.all_eq_true.1 List.all_takeWhile _ hmem
  simp at hne

/-- A text is scanned, up to a tag or the end. -/
theorem scanned_text {line : Nat} {raw rest : List Char} {x : Except Fault (List Located)}
    (hopen : '<' ∉ raw) (h : Scanned Filler (line + Text.newlines raw) rest x) :
    Scanned Filler line (raw ++ rest) (do
      let here ← textToken? line raw
      let tokens ← x
      pure (here ++ tokens)) := by
  obtain ⟨behind, hbehind, hraw, htrimmed⟩ := exists_eq_append_trim raw
  have hfront := blanks_takeWhile raw
  rw [textToken?]
  split
  next hempty =>
    -- The text is blank.
    have hblank : Filler raw := by
      rw [hraw, List.isEmpty_iff.1 hempty]
      exact filler_blanks (hfront.append hbehind)
    have hnone : (do let tokens ← x; pure ([] ++ tokens)) = x := by cases x <;> rfl
    exact hnone.symm ▸ h.skip fun gap hgap ↦ hgap.append hblank
  next hne =>
    split
    next content hcontent =>
      have hlexeme := Token.Lexeme.text (by simpa using hne) htrimmed
        (fun hmem ↦ hopen (hraw ▸ by simp [hmem])) hcontent
      have hlines := congrArg Text.newlines hraw
      simp only [Text.newlines_append] at hlines
      rw [hlines, ← Nat.add_assoc, ← Nat.add_assoc] at h
      have hrest := h.skip fun gap hgap ↦ hgap.append (filler_blanks hbehind)
      have hgap : ∀ gap, Filler gap → (Token.text (String.ofList content)).Gap gap := fun _ ↦ id
      have htoken := Scanned.cons hgap hlexeme rfl .nil hrest
      have htext := htoken.skip fun gap hgap ↦ hgap.append (filler_blanks hfront)
      rwa [← List.append_assoc (Text.trim raw), ← List.append_assoc, ← hraw] at htext
    next cause hcause =>
      refine scanned_error (Nat.le_add_right _ _) ?_
      have hlines := congrArg Text.newlines hraw
      simp only [Text.newlines_append] at hlines ⊢
      omega

theorem line_of_quotedValue {line : Nat} {quote : Char} {s : List Char} {fault : Fault}
    (h : quotedValue line quote s = .error fault) : fault.line = line := by
  rw [quotedValue] at h
  split at h
  · cases h
    rfl
  · split at h
    · cases h
    · cases h
      rfl

section Shorter

variable {s : List Char}
  (hcontent : ∀ line rest, rest.length < s.length →
    Scanned Filler line rest (scanContent line rest))
  (htag : ∀ line rest, rest.length < s.length → Scanned Blanks line rest (scanTag line rest))

include hcontent htag

theorem scanned_scanContent (line : Nat) : Scanned Filler line s (scanContent line s) := by
  rw [scanContent.eq_def]
  split
  case h_1 =>
    refine ⟨?_, fun _ h ↦ by cases h⟩
    rintro ts ⟨⟩ before gap hgap rfl
    rw [List.append_nil]
    exact .done before hgap
  case h_2 body =>
    split
    case h_1 => exact scanned_refuse _
    case h_2 skipped rest hcut =>
      have hle := Text.length_of_splitAt? hcut
      obtain ⟨rfl, hnone⟩ := Text.eq_of_splitAt? (by simp) hcut
      have hpassed := hcontent (line + Text.newlines skipped) rest (by
        simp only [List.length_cons]
        omega)
      simpa using Scanned.aside (.comment skipped hnone) (newlines_comment skipped) hpassed
  case h_3 body =>
    split
    case h_1 => exact scanned_refuse _
    case h_2 skipped rest hcut =>
      have hle := Text.length_of_splitAt? hcut
      obtain ⟨rfl, hnone⟩ := Text.eq_of_splitAt? (by simp) hcut
      have hpassed := hcontent (line + Text.newlines skipped) rest (by
        simp only [List.length_cons]
        omega)
      simpa using Scanned.aside (.instruction skipped hnone) (newlines_instruction skipped) hpassed
  case h_4 body =>
    dsimp only
    split
    · exact scanned_refuse _
    next hne =>
      split
      case h_1 rest hdrop =>
        have hbody : nameOf body ++
            ((afterName body).takeWhile Text.isBlank ++ (['>'] ++ rest)) = body := by
          rw [List.singleton_append, ← hdrop, List.takeWhile_append_dropWhile, nameOf, afterName,
            List.takeWhile_append_dropWhile]
        have hblanks := length_dropWhile_le Text.isBlank (afterName body)
        have hname := length_dropWhile_le isNameChar body
        rw [hdrop] at hblanks
        have hrest := hcontent
          (line + Text.newlines ((afterName body).takeWhile Text.isBlank)) rest (by
            simp only [afterName, List.length_cons] at hblanks ⊢
            omega)
        have hlexeme := Token.Lexeme.closeTag
          (fun c (hc : c ∈ nameOf body) ↦ isNameChar_of_mem_nameOf hc)
          (blanks_takeWhile (afterName body))
        have hgap : ∀ gap, Filler gap → (Token.closeTag (String.ofList (nameOf body))).Gap gap :=
          fun _ ↦ id
        have htoken := Scanned.cons hgap hlexeme
          (newlines_closeTag (fun c ↦ isNameChar_of_mem_nameOf) _) .nil hrest
        rwa [List.cons_append, List.cons_append, List.append_assoc, List.append_assoc, hbody]
          at htoken
      case h_2 => exact scanned_refuse _
  case h_5 body _ _ _ =>
    dsimp only
    split
    · exact scanned_refuse _
    next hne =>
      have hname := length_dropWhile_le isNameChar body
      have hrest := htag line (afterName body) (by
        simp only [afterName, List.length_cons]
        omega)
      have hlexeme := Token.Lexeme.openTag fun c (hc : c ∈ nameOf body) ↦
        isNameChar_of_mem_nameOf hc
      have hlines : Text.newlines ('<' :: nameOf body) = 0 := by
        rw [newlines_cons, newlines_of_name fun c ↦ isNameChar_of_mem_nameOf]
        rfl
      have htoken : Scanned Filler line ('<' :: nameOf body ++ afterName body) _ :=
        .cons (fun _ ↦ id) hlexeme hlines blanks_nil hrest
      rwa [List.cons_append, nameOf, afterName, List.takeWhile_append_dropWhile] at htoken
  case h_6 c body _ _ _ hopen =>
    have hrun := length_dropWhile_le (· != '<') body
    have hrest := hcontent (line + Text.newlines (c :: runOf body)) (afterRun body) (by
      simp only [afterRun, List.length_cons]
      omega)
    have hraw : '<' ∉ c :: runOf body := by
      rw [List.mem_cons, not_or]
      exact ⟨fun heq ↦ hopen heq.symm, not_mem_runOf body⟩
    have htext := scanned_text hraw hrest
    rwa [List.cons_append, runOf, afterRun, List.takeWhile_append_dropWhile] at htext

theorem scanned_scanTag (line : Nat) : Scanned Blanks line s (scanTag line s) := by
  have hself : ∀ gap, Blanks gap → Blanks gap := fun _ ↦ id
  rw [scanTag.eq_def]
  split
  case h_1 => exact scanned_refuse _
  case h_2 c body =>
    have hbody : body.length < (c :: body).length := Nat.lt_succ_self _
    split
    next hblank =>
      have hlines : (if c = '\n' then line + 1 else line) = line + Text.newlines [c] := by
        by_cases h : c = '\n' <;> simp [h, Text.newlines]
      have hblanks : Blanks [c] := by simpa [Blanks] using hblank
      rw [hlines]
      exact (htag _ body hbody).skip fun gap hgap ↦ hgap.append hblanks
    split
    next hc =>
      subst hc
      exact .cons hself .tagEnd rfl .nil (hcontent _ _ hbody)
    split
    next hc =>
      subst hc
      split
      next rest =>
        exact .cons hself .selfClose rfl .nil
          (hcontent _ rest (by simp only [List.length_cons]; omega))
      · exact scanned_refuse _
    split
    next hc =>
      subst hc
      exact .cons hself .equals rfl blanks_nil (htag _ _ hbody)
    split
    next hquote =>
      cases hvalue : quotedValue line c body with
      | error fault =>
        have hline := line_of_quotedValue hvalue
        exact scanned_error (Nat.le_of_eq hline.symm) (by omega)
      | ok quoted =>
        obtain ⟨value, lines, rest⟩ := quoted
        obtain ⟨raw, content, hs, hraw, hdecode, rfl, rfl⟩ := eq_of_quotedValue hvalue
        have hlexeme := Token.Lexeme.attrValue hquote hraw hdecode
        have hlines : Text.newlines (c :: (raw ++ [c])) = Text.newlines raw := by
          rcases hquote with rfl | rfl <;> simp [Text.newlines]
        have hrest := htag (line + Text.newlines raw) rest.1 (Nat.lt_succ_of_le rest.2)
        have htoken := Scanned.cons hself hlexeme hlines blanks_nil hrest
        rwa [List.cons_append, List.append_assoc, ← hs] at htoken
    split
    next hc =>
      have hname : ∀ d ∈ c :: nameOf body, isNameChar d = true := fun d hd ↦
        (List.mem_cons.1 hd).elim (· ▸ hc) isNameChar_of_mem_nameOf
      have hle := length_dropWhile_le isNameChar body
      have hrest := htag line (afterName body) (by
        simp only [afterName, List.length_cons]
        omega)
      have htoken := Scanned.cons hself (.attrName (by simp) hname) (newlines_of_name hname)
        blanks_nil hrest
      rwa [List.cons_append, nameOf, afterName, List.takeWhile_append_dropWhile] at htoken
    · exact scanned_refuse _

end Shorter

/-- **What is scanned is placed**, and refused at one of its lines. -/
theorem scanned_scan (s : List Char) : (∀ line, Scanned Filler line s (scanContent line s)) ∧
    ∀ line, Scanned Blanks line s (scanTag line s) := by
  induction hn : s.length using Nat.strongRecOn generalizing s with
  | _ n ih =>
    subst hn
    have hcontent := fun line rest (hlt : rest.length < s.length) ↦ (ih _ hlt rest rfl).1 line
    have htag := fun line rest (hlt : rest.length < s.length) ↦ (ih _ hlt rest rfl).2 line
    exact ⟨scanned_scanContent hcontent htag, scanned_scanTag hcontent htag⟩

theorem placed_of_scan {source : String} {ts : List Located} (h : Token.scan source = .ok ts) :
    Placed [] source.toList ts :=
  ((scanned_scan source.toList).1 1).placed ts h [] [] .nil rfl

/-- The end of the input is the last token, and no other. -/
theorem Placed.exists_concat {before s : List Char} {ts : List Located} (h : Placed before s ts) :
    ∃ us last, ts = us ++ [⟨.endOfInput, last⟩] ∧ ∀ t ∈ us, t.token ≠ .endOfInput := by
  induction h with
  | done before hgap => exact ⟨[], _, rfl, fun _ ht ↦ absurd ht List.not_mem_nil⟩
  | @token before t gap _ _ _ hgap hlexeme h ih =>
    obtain ⟨us, last, rfl, hus⟩ := ih
    refine ⟨⟨t, lineBehind (before ++ gap)⟩ :: us, last, rfl, fun u hu ↦ ?_⟩
    rcases List.mem_cons.1 hu with rfl | hu
    · cases hlexeme <;> exact nofun
    · exact hus u hu

/-! ### Reading -/

/-- Whether an element or a text starts with a token. -/
def Located.starts (t : Located) : Bool :=
  match t.token with
  | .openTag _ | .text _ => true
  | _ => false

mutual

/-- The tokens that the elements and texts of an element start with, in the order of the source. -/
def Element.starts : Element → List Located
  | .mk name _ children line => ⟨.openTag name, line⟩ :: nodeStarts children

/-- The tokens that the elements and texts of some content start with. -/
def nodeStarts : List Node → List Located
  | [] => []
  | .element e :: rest => e.starts ++ nodeStarts rest
  | .text s line :: rest => ⟨.text s, line⟩ :: nodeStarts rest

end

theorem filter_starts_of_spellsAttrs {attrs : List Attribute} {ts : List Located}
    (h : SpellsAttrs attrs ts) : ts.filter Located.starts = [] := by
  induction h with
  | nil => rfl
  | cons a nameLine eqLine valueLine h ih => exact ih

mutual

/-- **An element has the lines of the tokens that spell it.** -/
theorem filter_starts_of_spells {e : Element} {ts : List Located} :
    e.Spells ts → ts.filter Located.starts = e.starts
  | .selfClosed name line endLine hattrs _ => by
    rw [List.filter_cons_of_pos rfl, List.filter_append, filter_starts_of_spellsAttrs hattrs]
    rfl
  | .closed name line endLine closeLine hattrs _ hchildren => by
    rw [List.filter_cons_of_pos rfl, List.filter_append, filter_starts_of_spellsAttrs hattrs,
      List.nil_append, List.filter_cons_of_neg (by exact Bool.false_ne_true), List.filter_append,
      filter_starts_of_spellsNodes hchildren]
    exact congrArg (_ :: ·) (List.append_nil _)

/-- **Content has the lines of the tokens that spell it.** -/
theorem filter_starts_of_spellsNodes {nodes : List Node} {ts : List Located} :
    SpellsNodes nodes ts → ts.filter Located.starts = nodeStarts nodes
  | .nil => rfl
  | .element he h => by
    rw [List.filter_append, filter_starts_of_spells he, filter_starts_of_spellsNodes h]
    rfl
  | .text s line h => by
    rw [List.filter_cons_of_pos rfl, filter_starts_of_spellsNodes h]
    rfl

end

/-- **Lines are exact.** Every token that is scanned has the line on which it starts, the elements
and texts that are read have the lines of the tokens that they start with, and what is refused is
refused at one of the lines of the source. -/
theorem parse_placed (file source : String) :
    (∀ ts, Token.scan source = .ok ts → Placed [] source.toList ts) ∧
      (∀ e, Element.parse file source = .ok e →
        ∃ ts, Token.scan source = .ok ts ∧ e.starts = ts.filter Located.starts) ∧
      ∀ err, Element.parse file source = .error err →
        1 ≤ err.line ∧ err.line ≤ 1 + Text.newlines source.toList := by
  refine ⟨fun ts ↦ placed_of_scan, fun e he ↦ ?_, fun err herr ↦ ?_⟩
  · rw [Element.parse] at he
    split at he
    · cases he
    next ts hscan =>
      obtain ⟨us, last, rfl, hus⟩ := (placed_of_scan hscan).exists_concat
      refine ⟨_, hscan, ?_⟩
      obtain ⟨fault, hfault, -⟩ | ⟨e', hspells, hread⟩ := refusedIn_or_spells last hus
      · rw [hfault] at he
        cases he
      · rw [hread] at he
        cases he
        rw [List.filter_append, filter_starts_of_spells hspells]
        exact (List.append_nil _).symm
  · rw [Element.parse] at herr
    split at herr
    next fault hscan =>
      cases herr
      exact ((scanned_scan source.toList).1 1).refused fault hscan
    next ts hscan =>
      have hplaced := placed_of_scan hscan
      obtain ⟨us, last, rfl, hus⟩ := hplaced.exists_concat
      obtain ⟨fault, hfault, t, ht, hline⟩ | ⟨e, -, hread⟩ := refusedIn_or_spells last hus
      · rw [hfault] at herr
        cases herr
        obtain ⟨hge, hle⟩ := hplaced.line_le t ht
        rw [hline] at hge hle
        exact ⟨hge, hle⟩
      · rw [hread] at herr
        cases herr

/-- A value with a line feed in it, between others in a tag and in front of a text; and a tag
without a name. -/
theorem parse_placed_lines :
    (∃ e, Element.parse "t" "<a\nk='v\nw'>\n t</a>" = .ok e ∧
      e.starts = [⟨.openTag "a", 1⟩, ⟨.text "t", 4⟩]) ∧
    ∃ err, Element.parse "t" "\n<\n" = .error err ∧ 1 ≤ err.line ∧ err.line ≤ 3 := by
  have hname : ∀ c, isNameChar c = true → ∀ d ∈ [c], isNameChar d = true := fun c hc d hd ↦ by
    rwa [List.mem_singleton.1 hd]
  have ha := hname 'a' (by decide)
  have hk := hname 'k' (by decide)
  have hvalue : decode ['v', '\n', 'w'] = .ok ['v', '\n', 'w'] := by simp [decode, Except.map]
  have htext : decode ['t'] = .ok ['t'] := by simp [decode, Except.map]
  have htrimmed : Trimmed ['t'] := ⟨by simp; decide, by simp; decide⟩
  have hscan : Token.scan "<a\nk='v\nw'>\n t</a>" = .ok [⟨.openTag "a", 1⟩, ⟨.attrName "k", 2⟩,
      ⟨.equals, 2⟩, ⟨.attrValue "v\nw", 2⟩, ⟨.tagEnd, 3⟩, ⟨.text "t", 4⟩, ⟨.closeTag "a", 4⟩,
      ⟨.endOfInput, 4⟩] := by
    show scanContent 1 ('<' :: (['a'] ++ '\n' :: (['k'] ++ '=' :: '\x27' :: (['v', '\n', 'w'] ++
      '\x27' :: '>' :: '\n' :: ' ' :: (['t'] ++ '<' :: '/' :: (['a'] ++ ([] ++ ['>']))))))) = _
    rw [scanContent_openTag (by simp) ha (endsName_cons (by decide) _), scanTag_blank (by decide),
      scanTag_name (by simp) hk (endsName_cons (by decide) _), scanTag_equals,
      scanTag_value (.inr rfl) (by decide) hvalue, scanTag_end, scanContent_blank _ (by decide),
      scanContent_blank _ (by decide), scanContent_text _ (by simp) htrimmed (by decide) htext
        (endsText_open _), scanContent_closeTag (by simp) ha (by simp), scanContent_nil]
    rfl
  have hspells : (Element.mk "a" [⟨"k", "v\nw"⟩] [.text "t" 4] 1).Spells _ :=
    .closed "a" 1 3 4 (.cons ⟨"k", "v\nw"⟩ 2 2 2 .nil) (List.pairwise_singleton _ _)
      (.text "t" 4 .nil)
  have hread : Element.parse "t" "<a\nk='v\nw'>\n t</a>" =
      .ok (.mk "a" [⟨"k", "v\nw"⟩] [.text "t" 4] 1) := by
    rw [Element.parse, hscan]
    exact congrArg (Except.mapError _) (ofTokens_of_spells hspells 4)
  have hrefused : Element.parse "t" "\n<\n" = .error ⟨"t", ⟨2, .missingOpenName⟩⟩ := by
    have hscan : Token.scan "\n<\n" = .error ⟨2, .missingOpenName⟩ := by
      show scanContent 1 ('\n' :: '<' :: ['\n']) = _
      rw [scanContent_blank _ (by decide), scanContent.eq_def]
      rfl
    rw [Element.parse, hscan]
  refine ⟨⟨_, hread, ?_⟩, _, hrefused, (parse_placed "t" "\n<\n").2.2 _ hrefused⟩
  obtain ⟨ts, hts, hstarts⟩ := (parse_placed "t" _).2.1 _ hread
  rw [hscan] at hts
  cases hts
  rw [hstarts]
  rfl

end LiveTemplate.Markup
