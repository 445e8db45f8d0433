import LiveTemplate.Proofs.Rounds

/-!
# Elements written as markup

What a source text must look like to be an element (`Element.Rendering`): names as they are, values
between quotes of either kind, characters as themselves or as references, an element without content
with or without an end tag, and blanks, comments and instructions wherever there is no tag or text.
The main statement is that such a text is read as that element, up to the lines, and that whatever
is read is an element that can be written (`parse_rendering`).

Reading goes through tokens. A rendering is scanned to tokens that spell the element
(`scan_of_written`), which are then read as that element; and whatever is scanned is proper, so what
it spells is well-formed (`wellFormed_of_spells`).
-/

namespace LiveTemplate.Markup

open Text (map_append_map map_cons_map map_nil_append)

/-! ### Well-formed elements -/

mutual

/-- An element that can be written: names are of name characters, no attribute is there twice, and
no text is empty. -/
def Element.WellFormed : Element → Prop
  | .mk name attrs children _ =>
    IsName name ∧ (∀ a ∈ attrs, IsName a.name) ∧ Distinct attrs ∧ NodesWellFormed children

/-- Content that can be written. -/
def NodesWellFormed : List Node → Prop
  | [] => True
  | .element e :: rest => e.WellFormed ∧ NodesWellFormed rest
  | .text s _ :: rest => s ≠ "" ∧ NodesWellFormed rest

end

mutual

/-- An element without its lines. -/
def Element.unlined : Element → Element
  | .mk name attrs children _ => .mk name attrs (unlinedNodes children) 0

/-- Content without its lines. -/
def unlinedNodes : List Node → List Node
  | [] => []
  | .element e :: rest => .element e.unlined :: unlinedNodes rest
  | .text s _ :: rest => .text s 0 :: unlinedNodes rest

end

/-! ### Renderings -/

/-- The names by which a reference stands for a character. -/
inductive Refers : Char → List Char → Prop
  | lt : Refers '<' ['l', 't']
  | gt : Refers '>' ['g', 't']
  | amp : Refers '&' ['a', 'm', 'p']
  | quot : Refers '"' ['q', 'u', 'o', 't']
  | apos : Refers '\x27' ['a', 'p', 'o', 's']
  | decimal {c : Char} {digits : List Char} (h : Decimal.Numeral 10 c.toNat digits) :
      Refers c ('#' :: digits)
  | hexadecimal {c : Char} {digits : List Char} (h : Decimal.Numeral 16 c.toNat digits) :
      Refers c ('#' :: 'x' :: digits)

/-- How some text may be written if each special character has to be a reference. -/
inductive Escaped (special : Char → Prop) : List Char → List Char → Prop
  | nil : Escaped special [] []
  | plain {c : Char} {s raw : List Char} (hc : ¬special c) (h : Escaped special s raw) :
      Escaped special (c :: s) (c :: raw)
  | reference {c : Char} {name s raw : List Char} (hname : Refers c name)
      (h : Escaped special s raw) : Escaped special (c :: s) ('&' :: (name ++ ';' :: raw))

/-- The text is all blank. -/
def Blanks (s : List Char) : Prop := ∀ c ∈ s, Text.isBlank c = true

/-- How attributes may be written inside a start tag. -/
inductive AttrsWritten : List Attribute → List Char → Prop
  | nil : AttrsWritten [] []
  | cons (a : Attribute) {attrs : List Attribute} {before behind between raw s : List Char}
      (quote : Char) (hquote : quote = '"' ∨ quote = '\x27') (hbefore : Blanks before)
      (hbehind : Blanks behind) (hbetween : Blanks between)
      (hraw : Escaped (fun c ↦ c = '&' ∨ c = quote) a.value.toList raw)
      (h : AttrsWritten attrs s) :
      AttrsWritten (a :: attrs) (before ++ (a.name.toList ++ (behind ++
        '=' :: (between ++ quote :: (raw ++ quote :: s)))))

/-- What may stand outside tags and texts: blanks, comments and instructions. -/
inductive Filler : List Char → Prop
  | nil : Filler []
  | blank {c : Char} {s : List Char} (hc : Text.isBlank c = true) (h : Filler s) : Filler (c :: s)
  | aside {m s : List Char} (hm : Aside m) (h : Filler s) : Filler (m ++ s)

/-- What may stand between two texts: there is a comment or an instruction in it. -/
def Separator (s : List Char) : Prop :=
  ∃ u m v, Filler u ∧ Aside m ∧ Filler v ∧ s = u ++ (m ++ v)

mutual

/-- How an element may be written. Its name stands apart from that of its first attribute. -/
inductive Element.Written : Element → List Char → Prop
  | selfClosed (name : String) (line : Nat) {attrs : List Attribute} {s blanks : List Char}
      (hattrs : AttrsWritten attrs s) (hapart : EndsName s) (hblanks : Blanks blanks) :
      Element.Written (.mk name attrs [] line)
        ('<' :: (name.toList ++ (s ++ (blanks ++ ['/', '>']))))
  | closed (name : String) (line : Nat) {attrs : List Attribute} {children : List Node}
      {s blanks u blanks' : List Char} (hattrs : AttrsWritten attrs s) (hapart : EndsName s)
      (hblanks : Blanks blanks) (hchildren : NodesWritten false children u)
      (hblanks' : Blanks blanks') :
      Element.Written (.mk name attrs children line)
        ('<' :: (name.toList ++ (s ++ (blanks ++ '>' ::
          (u ++ '<' :: '/' :: (name.toList ++ (blanks' ++ ['>'])))))))

/-- How content may be written, right behind a text or not. -/
inductive NodesWritten : Bool → List Node → List Char → Prop
  | nil (behindText : Bool) {filler : List Char} (hfiller : Filler filler) :
      NodesWritten behindText [] filler
  | element (behindText : Bool) {e : Element} {nodes : List Node} {filler s u : List Char}
      (hfiller : Filler filler) (he : e.Written s) (h : NodesWritten false nodes u) :
      NodesWritten behindText (.element e :: nodes) (filler ++ (s ++ u))
  | text (behindText : Bool) {content : String} (line : Nat) {nodes : List Node}
      {filler raw u : List Char} (hfiller : Filler filler)
      (hapart : behindText = true → Separator filler)
      (hraw : Escaped (fun c ↦ c = '<' ∨ c = '&') content.toList raw) (htrimmed : Trimmed raw)
      (h : NodesWritten true nodes u) :
      NodesWritten behindText (.text content line :: nodes) (filler ++ (raw ++ u))

end

/-- The source text is the element with nothing else around it than may stand there. -/
def Element.Rendering (e : Element) (source : String) : Prop :=
  ∃ before s behind, Filler before ∧ e.Written s ∧ Filler behind ∧
    source.toList = before ++ (s ++ behind)

/-! ### Characters -/

theorem scalar?_toNat (c : Char) : scalar? c.toNat = some c := by
  have hvalid : c.toNat.isValidChar := c.valid
  rw [scalar?, if_pos hvalid, Char.ofNat_toNat]

theorem referenced?_of_refers {c : Char} {name : List Char} (h : Refers c name) :
    referenced? name = some c := by
  have hsize : c.toNat < UInt32.size := c.val.toNat_lt
  cases h with
  | lt | gt | amp | quot | apos => rfl
  | @decimal _ digits hdigits =>
    have hvalue := hdigits.digits? (by decide) (by decide)
    have hx : ∀ rest, digits ≠ 'x' :: rest := by
      rintro rest rfl
      exact absurd (Decimal.isSome_of_digits? hvalue List.mem_cons_self) (by decide)
    rw [referenced?, Decimal.natural?_of_digits? hvalue hsize]
    · exact scalar?_toNat c
    · exact hx
  | @hexadecimal _ digits hdigits =>
    have hvalue := hdigits.digits? (by decide) (by decide)
    rw [referenced?, Decimal.natural?_of_digits? hvalue hsize]
    exact scalar?_toNat c

theorem isAlphanum_of_refers {c : Char} {name : List Char} (h : Refers c name) :
    ∀ d ∈ name, d.isAlphanum = true ∨ d = '#' := by
  cases h with
  | lt | gt | amp | quot | apos =>
    simp only [List.forall_mem_cons, List.not_mem_nil, false_implies, implies_true, and_true]
    decide
  | decimal hdigits =>
    have hvalue := hdigits.digits? (by decide) (by decide)
    intro d hd
    obtain rfl | hd := List.mem_cons.1 hd
    · exact .inr rfl
    · exact .inl (Decimal.isAlphanum_of_digitValue? (Decimal.isSome_of_digits? hvalue hd))
  | hexadecimal hdigits =>
    have hvalue := hdigits.digits? (by decide) (by decide)
    intro d hd
    obtain rfl | hd := List.mem_cons.1 hd
    · exact .inr rfl
    obtain rfl | hd := List.mem_cons.1 hd
    · exact .inl (by decide)
    · exact .inl (Decimal.isAlphanum_of_digitValue? (Decimal.isSome_of_digits? hvalue hd))

/-- **What is written is read back**, if every ampersand is. -/
theorem decode_of_escaped {special : Char → Prop} (hamp : special '&') {s raw : List Char}
    (h : Escaped special s raw) : decode raw = .ok s := by
  induction h with
  | nil => rw [decode]
  | @plain c s raw hc h ih =>
    have hne : c ≠ '&' := by
      rintro rfl
      exact hc hamp
    rw [decode, if_neg hne, ih]
    rfl
  | @reference c name s raw hname h ih =>
    have hname' : ';' ∉ name := fun hmem ↦ absurd (isAlphanum_of_refers hname _ hmem) (by decide)
    have hcut := Text.splitAt?_singleton hname' raw
    rw [decode, if_pos rfl]
    split
    case h_1 heq => simp [hcut] at heq
    case h_2 heq =>
      rw [hcut] at heq
      cases heq
      simp only [referenced?_of_refers hname, ih]
      rfl

/-- A special character is not there as itself. -/
theorem not_mem_of_escaped {special : Char → Prop} {d : Char} (hspecial : special d)
    (hd : d ∈ ['<', '"', '\x27']) {s raw : List Char} (h : Escaped special s raw) : d ∉ raw := by
  have hmark : ∀ d ∈ ['<', '"', '\x27'],
      d ≠ '&' ∧ d ≠ ';' ∧ ¬(d.isAlphanum = true ∨ d = '#') := by
    simp only [List.forall_mem_cons, List.not_mem_nil, false_implies, implies_true, and_true]
    decide
  obtain ⟨hamp, hsemicolon, hnot⟩ := hmark d hd
  induction h with
  | nil => simp
  | @plain c s raw hc h ih =>
    rw [List.mem_cons, not_or]
    refine ⟨?_, ih⟩
    rintro rfl
    exact hc hspecial
  | @reference c name s raw hname h ih =>
    simp only [List.mem_cons, List.mem_append, not_or]
    exact ⟨hamp, fun hmem ↦ hnot (isAlphanum_of_refers hname d hmem), hsemicolon, ih⟩

theorem ne_nil_of_escaped {special : Char → Prop} {s raw : List Char} (h : Escaped special s raw)
    (hs : s ≠ []) : raw ≠ [] := by
  cases h <;> simp at hs ⊢

/-! ### Renderings are scanned -/

/-- Blanks, comments and instructions are passed over. -/
theorem scanContent_filler {f : List Char} (h : Filler f) (line : Nat) (t : List Char) :
    scanContent line (f ++ t) = scanContent (line + Text.newlines f) t := by
  induction h generalizing line with
  | nil => rfl
  | @blank c s hc h ih =>
    rw [List.cons_append, scanContent_blank line hc, ih, newlines_cons c s, Nat.add_assoc]
  | @aside m s hm h ih =>
    rw [List.append_assoc, scanContent_aside line hm, ih, Text.newlines_append, Nat.add_assoc]

theorem endsText_open (t : List Char) : EndsText ('<' :: t) := by
  intro c hc
  rw [runOf, List.takeWhile_cons_of_neg (by decide)] at hc
  cases hc

theorem endsText_aside {m : List Char} (hm : Aside m) (t : List Char) : EndsText (m ++ t) := by
  cases hm <;> exact endsText_open _

theorem endsText_cons_blank {c : Char} (hc : Text.isBlank c = true) {t : List Char}
    (ht : EndsText t) : EndsText (c :: t) := by
  have hopen : (c != '<') = true := by
    rw [bne_iff_ne]
    rintro rfl
    exact absurd hc (by decide)
  have hrun : runOf (c :: t) = c :: runOf t := List.takeWhile_cons_of_pos hopen
  intro d hd
  rw [hrun] at hd
  exact (List.mem_cons.1 hd).elim (· ▸ hc) (ht d)

theorem endsText_filler {f t : List Char} (h : Filler f) (ht : EndsText t) : EndsText (f ++ t) := by
  induction h with
  | nil => exact ht
  | blank hc h ih => exact endsText_cons_blank hc ih
  | @aside m s hm h ih => exact List.append_assoc m s t ▸ endsText_aside hm _

theorem endsText_separator {f : List Char} (h : Separator f) (t : List Char) :
    EndsText (f ++ t) := by
  obtain ⟨u, m, v, hu, hm, -, rfl⟩ := h
  rw [List.append_assoc, List.append_assoc]
  exact endsText_filler hu (endsText_aside hm _)

theorem endsText_written {e : Element} {s : List Char} (h : e.Written s) (t : List Char) :
    EndsText (s ++ t) := by
  cases h <;> exact endsText_open _

theorem endsName_blanks {s t : List Char} (hs : Blanks s) (ht : EndsName t) :
    EndsName (s ++ t) := by
  cases s with
  | nil => exact ht
  | cons c s =>
    rintro d hd
    obtain rfl : c = d := by simpa using hd
    exact not_isNameChar_of_isBlank (hs c List.mem_cons_self)

theorem endsName_append {s t : List Char} (hs : EndsName s) (ht : EndsName t) :
    EndsName (s ++ t) := by
  cases s with
  | nil => exact ht
  | cons c s => exact hs

theorem endsName_cons {c : Char} (hc : isNameChar c = false) (t : List Char) :
    EndsName (c :: t) := by
  rintro d hd
  obtain rfl : c = d := by simpa using hd
  exact hc

/-- **Written attributes are scanned** to the tokens that spell them. -/
theorem scanTag_attrs {attrs : List Attribute} {s : List Char} (h : AttrsWritten attrs s)
    (hnames : ∀ a ∈ attrs, IsName a.name) (line : Nat) (t : List Char) :
    ∃ ts last, SpellsAttrs attrs ts ∧
      scanTag line (s ++ t) = (scanTag last t).map (ts ++ ·) := by
  induction h generalizing line with
  | nil => exact ⟨[], line, .nil, (map_nil_append _).symm⟩
  | @cons a attrs before behind between raw s quote hquote hbefore hbehind hbetween hraw h ih =>
    have hname := hnames a List.mem_cons_self
    have hne : a.name.toList ≠ [] := by simpa using hname.ne
    have hescaped : quote ∉ raw := not_mem_of_escaped (.inr rfl) (by simp [hquote]) hraw
    have hvalue : decode raw = .ok a.value.toList := decode_of_escaped (.inl rfl) hraw
    have hends : EndsName (behind ++ '=' :: (between ++ quote :: (raw ++ quote :: (s ++ t)))) :=
      endsName_blanks hbehind (endsName_cons (by decide) _)
    obtain ⟨ts, last, hts, hscan⟩ := ih (fun b hb ↦ hnames b (List.mem_cons_of_mem _ hb))
      (line + Text.newlines before + Text.newlines behind + Text.newlines between +
        Text.newlines raw)
    simp only [List.append_assoc, List.cons_append]
    rw [scanTag_blanks line hbefore, scanTag_name hne hname.chars hends, scanTag_blanks _ hbehind,
      scanTag_equals, scanTag_blanks _ hbetween, scanTag_value hquote hescaped hvalue, hscan,
      String.ofList_toList, String.ofList_toList, map_cons_map, map_cons_map, map_cons_map]
    exact ⟨_, last, .cons a _ _ _ hts, rfl⟩

/-- **A start tag is scanned** up to its end. -/
theorem scanContent_startTag {name : String} {attrs : List Attribute} {s blanks : List Char}
    (hname : IsName name) (hnames : ∀ a ∈ attrs, IsName a.name) (hattrs : AttrsWritten attrs s)
    (hapart : EndsName s) (hblanks : Blanks blanks) (line : Nat) {t : List Char}
    (ht : EndsName t) :
    ∃ ts last, SpellsAttrs attrs ts ∧
      scanContent line ('<' :: (name.toList ++ (s ++ (blanks ++ t)))) =
        (scanTag last t).map (⟨.openTag name, line⟩ :: ts ++ ·) := by
  have hne : name.toList ≠ [] := by simpa using hname.ne
  obtain ⟨ts, last, hts, hscan⟩ := scanTag_attrs hattrs hnames line (blanks ++ t)
  have hends : EndsName (s ++ (blanks ++ t)) := endsName_append hapart (endsName_blanks hblanks ht)
  rw [scanContent_openTag hne hname.chars hends, hscan, scanTag_blanks _ hblanks,
    String.ofList_toList, map_cons_map]
  exact ⟨ts, _, hts, rfl⟩

theorem endsText_nodes {nodes : List Node} {s t : List Char} (ht : EndsText t) :
    NodesWritten true nodes s → EndsText (s ++ t)
  | .nil _ hfiller => endsText_filler hfiller ht
  | .element _ hfiller he _ => by
    rw [List.append_assoc, List.append_assoc]
    exact endsText_filler hfiller (endsText_written he _)
  | .text _ _ _ hapart _ _ _ => by
    rw [List.append_assoc]
    exact endsText_separator (hapart rfl) _

mutual

/-- **A written element is scanned** to tokens that spell it up to its lines. -/
theorem scan_of_written {e : Element} {s : List Char} (hwf : e.WellFormed) (line : Nat)
    (t : List Char) : e.Written s → ∃ (e' : Element) (ts : List Located) (last : Nat),
      e'.unlined = e.unlined ∧ e'.Spells ts ∧
        scanContent line (s ++ t) = (scanContent last t).map (ts ++ ·)
  | .selfClosed name eline hattrs hapart hblanks => by
    obtain ⟨hname, hnames, hdistinct, -⟩ := hwf
    have hends : EndsName ('/' :: '>' :: t) := endsName_cons (by decide) _
    obtain ⟨ts, last, hts, hscan⟩ :=
      scanContent_startTag hname hnames hattrs hapart hblanks line hends
    simp only [List.append_assoc, List.cons_append, List.nil_append]
    rw [hscan, scanTag_selfClose]
    exact ⟨.mk name _ [] line, _, last, rfl, .selfClosed name line last hts hdistinct,
      map_append_map (_ :: ts) [_] _⟩
  | @Element.Written.closed name _ _ _ _ _ u blanks' hattrs hapart hblanks hchildren
      hblanks' => by
    obtain ⟨hname, hnames, hdistinct, hnodes⟩ := hwf
    have hne : name.toList ≠ [] := by simpa using hname.ne
    have hends : EndsName ('>' :: (u ++ '<' :: '/' :: (name.toList ++ (blanks' ++ '>' :: t)))) :=
      endsName_cons (by decide) _
    obtain ⟨ts, endLine, hts, hscan⟩ :=
      scanContent_startTag hname hnames hattrs hapart hblanks line hends
    obtain ⟨children', us, closeLine, hunlined, hus, hinner⟩ := scan_of_nodesWritten hnodes endLine
      (endsText_open ('/' :: (name.toList ++ (blanks' ++ '>' :: t)))) hchildren
    refine ⟨.mk name _ children' line, _, closeLine + Text.newlines blanks', ?_,
      .closed name line endLine closeLine hts hdistinct hus, ?_⟩
    · simp only [Element.unlined, hunlined]
    · simp only [List.append_assoc, List.cons_append, List.nil_append]
      rw [hscan, scanTag_end, hinner, scanContent_closeTag hne hname.chars hblanks',
        String.ofList_toList, map_cons_map]
      cases scanContent (closeLine + Text.newlines blanks') t with
      | error fault => rfl
      | ok rest => simp [Except.map]

/-- **Written content is scanned** to tokens that spell it up to its lines. -/
theorem scan_of_nodesWritten {behindText : Bool} {nodes : List Node} {s t : List Char}
    (hwf : NodesWellFormed nodes) (line : Nat) (ht : EndsText t) :
    NodesWritten behindText nodes s → ∃ (nodes' : List Node) (ts : List Located) (last : Nat),
      unlinedNodes nodes' = unlinedNodes nodes ∧ SpellsNodes nodes' ts ∧
        scanContent line (s ++ t) = (scanContent last t).map (ts ++ ·)
  | .nil _ hfiller =>
    ⟨[], [], _, rfl, .nil, (scanContent_filler hfiller line t).trans (map_nil_append _).symm⟩
  | .element _ hfiller he h => by
    obtain ⟨hwfe, hwf⟩ := hwf
    obtain ⟨e', ts, last, hunlined, hts, hscan⟩ := scan_of_written hwfe _ _ he
    obtain ⟨nodes', us, last', hunlined', hus, hscan'⟩ := scan_of_nodesWritten hwf last ht h
    refine ⟨.element e' :: nodes', _, last', ?_, .element hts hus, ?_⟩
    · simp only [unlinedNodes, hunlined, hunlined']
    · rw [List.append_assoc, List.append_assoc, scanContent_filler hfiller, hscan, hscan',
        map_append_map]
  | @NodesWritten.text _ content _ _ filler raw _ hfiller _ hraw htrimmed h => by
    obtain ⟨hne, hwf⟩ := hwf
    have hraw' : raw ≠ [] := ne_nil_of_escaped hraw (by simpa using hne)
    have hopen : '<' ∉ raw := not_mem_of_escaped (.inl rfl) (by simp) hraw
    have hcontent := decode_of_escaped (.inr rfl) hraw
    have hends := endsText_nodes ht h
    obtain ⟨nodes', us, last', hunlined', hus, hscan'⟩ :=
      scan_of_nodesWritten hwf (line + Text.newlines filler + Text.newlines raw) ht h
    refine ⟨.text content (line + Text.newlines filler) :: nodes', _, last', ?_,
      .text content _ hus, ?_⟩
    · simp only [unlinedNodes, hunlined']
    · rw [List.append_assoc, List.append_assoc, scanContent_filler hfiller,
        scanContent_text _ hraw' htrimmed hopen hcontent hends, hscan', String.ofList_toList,
        map_cons_map]

end

/-! ### What is read can be written -/

theorem wellFormed_of_spellsAttrs {attrs : List Attribute} {ts : List Located}
    (h : SpellsAttrs attrs ts) (hproper : ∀ t ∈ ts, t.token.Proper) :
    ∀ a ∈ attrs, IsName a.name := by
  induction h with
  | nil => simp
  | cons a nameLine eqLine valueLine h ih =>
    simp only [List.forall_mem_cons] at hproper ⊢
    exact ⟨hproper.1, ih hproper.2.2.2⟩

mutual

/-- **An element that proper tokens spell is well-formed.** -/
theorem wellFormed_of_spells {e : Element} {ts : List Located}
    (hproper : ∀ t ∈ ts, t.token.Proper) : e.Spells ts → e.WellFormed
  | .selfClosed name line endLine hattrs hdistinct => by
    simp only [List.forall_mem_cons, List.forall_mem_append] at hproper
    exact ⟨hproper.1, wellFormed_of_spellsAttrs hattrs hproper.2.1, hdistinct, trivial⟩
  | .closed name line endLine closeLine hattrs hdistinct hchildren => by
    simp only [List.forall_mem_cons, List.forall_mem_append] at hproper
    exact ⟨hproper.1, wellFormed_of_spellsAttrs hattrs hproper.2.1, hdistinct,
      nodesWellFormed_of_spells hproper.2.2.2.1 hchildren⟩

/-- **Content that proper tokens spell is well-formed.** -/
theorem nodesWellFormed_of_spells {nodes : List Node} {ts : List Located}
    (hproper : ∀ t ∈ ts, t.token.Proper) : SpellsNodes nodes ts → NodesWellFormed nodes
  | .nil => trivial
  | .element he h => by
    rw [List.forall_mem_append] at hproper
    exact ⟨wellFormed_of_spells hproper.1 he, nodesWellFormed_of_spells hproper.2 h⟩
  | .text s line h => by
    rw [List.forall_mem_cons] at hproper
    exact ⟨hproper.1, nodesWellFormed_of_spells hproper.2 h⟩

end

theorem wellFormed_of_ofTokens {ts : List Located} {e : Element} (hends : EndsInput ts)
    (hproper : ∀ t ∈ ts, t.token.Proper) (h : Element.ofTokens ts = .ok e) : e.WellFormed := by
  have hout := listOutcome_ofTokens hends
  rw [h] at hout
  cases hout with
  | refused hrefused =>
    obtain ⟨fault, hfault, -⟩ := hrefused
    cases hfault
  | read line he => exact wellFormed_of_spells (fun t ht ↦ hproper t (by simp [ht])) he

/-! ### Every well-formed element has a rendering -/

/-- Any text can be written with nothing but references. -/
theorem exists_escaped (special : Char → Prop) (s : List Char) :
    ∃ raw, Escaped special s raw ∧ Trimmed raw := by
  suffices h : ∃ raw, Escaped special s raw ∧ (∀ c ∈ raw.head?, c = '&') ∧
      ∀ c ∈ raw.getLast?, c = ';' by
    obtain ⟨raw, hraw, hhead, hlast⟩ := h
    refine ⟨raw, hraw, fun c hc ↦ ?_, fun c hc ↦ ?_⟩
    · rw [hhead c hc]
      decide
    · rw [hlast c hc]
      decide
  induction s with
  | nil => exact ⟨[], .nil, by simp, by simp⟩
  | cons c s ih =>
    obtain ⟨raw, hraw, -, hlast⟩ := ih
    have hname : Refers c _ := .decimal (Decimal.numeral_toDigits (by decide) (by decide) c.toNat)
    refine ⟨_, .reference hname hraw, by simp, ?_⟩
    rw [← List.cons_append, List.getLast?_append]
    cases raw with
    | nil => simp
    | cons d raw => simpa [List.getLast?_cons_cons] using hlast

theorem exists_attrsWritten (attrs : List Attribute) :
    ∃ s, AttrsWritten attrs s ∧ EndsName s := by
  have hnone : Blanks [] := by simp [Blanks]
  have hspace : Blanks [' '] := by simp [Blanks, show Text.isBlank ' ' = true by decide]
  induction attrs with
  | nil => exact ⟨[], .nil, by simp [EndsName]⟩
  | cons a attrs ih =>
    obtain ⟨s, hs, -⟩ := ih
    obtain ⟨raw, hraw, -⟩ := exists_escaped (fun c ↦ c = '&' ∨ c = '"') a.value.toList
    exact ⟨_, .cons a '"' (.inl rfl) hspace hnone hnone hraw hs, endsName_cons (by decide) _⟩

mutual

theorem exists_written : ∀ e : Element, ∃ s, e.Written s
  | .mk name attrs children line => by
    have hnone : Blanks [] := by simp [Blanks]
    obtain ⟨s, hs, hapart⟩ := exists_attrsWritten attrs
    obtain ⟨u, hu⟩ := exists_nodesWritten false children
    exact ⟨_, .closed name line hs hapart hnone hu hnone⟩

theorem exists_nodesWritten (behindText : Bool) : ∀ nodes : List Node,
    ∃ s, NodesWritten behindText nodes s
  | [] => ⟨[], .nil _ .nil⟩
  | .element e :: rest => by
    obtain ⟨s, hs⟩ := exists_written e
    obtain ⟨u, hu⟩ := exists_nodesWritten false rest
    exact ⟨_, .element _ .nil hs hu⟩
  | .text content line :: rest => by
    have haside : Aside ('<' :: '?' :: ([] ++ ['?', '>'])) := .instruction [] (by decide)
    obtain ⟨raw, hraw, htrimmed⟩ := exists_escaped (fun c ↦ c = '<' ∨ c = '&') content.toList
    obtain ⟨u, hu⟩ := exists_nodesWritten true rest
    exact ⟨_, .text _ line (.aside haside .nil)
      (fun _ ↦ ⟨[], _, [], .nil, haside, .nil, rfl⟩) hraw htrimmed hu⟩

end

/-- **Every element can be written** in some way. -/
theorem exists_rendering (e : Element) : ∃ source, e.Rendering source := by
  obtain ⟨s, hs⟩ := exists_written e
  exact ⟨String.ofList s, [], s, [], .nil, hs, .nil, by simp⟩

/-! ### Reading undoes writing -/

/-- **A rendering is read as its element**, and only elements that can be written are read. -/
theorem parse_rendering (file : String) :
    (∀ (e : Element) (source : String), e.WellFormed → e.Rendering source →
      ∃ e', Element.parse file source = .ok e' ∧ e'.unlined = e.unlined) ∧
    ∀ (source : String) (e : Element), Element.parse file source = .ok e → e.WellFormed := by
  constructor
  · rintro e source hwf ⟨before, s, behind, hbefore, hs, hbehind, hsource⟩
    obtain ⟨e', ts, last, hunlined, hts, hscan⟩ :=
      scan_of_written hwf (1 + Text.newlines before) behind hs
    have hend : scanContent last behind = .ok [⟨.endOfInput, last + Text.newlines behind⟩] := by
      have hskip := scanContent_filler hbehind last []
      rwa [List.append_nil, scanContent_nil] at hskip
    have htokens : Token.scan source =
        .ok (ts ++ [⟨.endOfInput, last + Text.newlines behind⟩]) := by
      rw [Token.scan, hsource, scanContent_filler hbefore, hscan, hend]
      rfl
    refine ⟨e', ?_, hunlined⟩
    rw [Element.parse, htokens]
    simp only [ofTokens_of_spells hts]
    rfl
  · intro source e h
    rw [Element.parse] at h
    split at h
    · cases h
    next tokens hscan =>
      obtain ⟨hends, hproper⟩ := proper_of_scan hscan
      cases hread : Element.ofTokens tokens with
      | error failure => rw [hread] at h; cases h
      | ok e' =>
        rw [hread] at h
        cases h
        exact wellFormed_of_ofTokens hends hproper hread

/-- A comment between two texts, blanks and references in a value and in a text, an end tag with a
blank and an empty tag. -/
theorem parse_rendering_commented :
    let e : Element := .mk "a" [⟨"k", "<'\""⟩]
      [.text " x&" 0, .text "y" 0, .element (.mk "b" [] [] 0)] 0
    let source := "<?v?>\n<a k= '<&#x27;\"' >&#032;x&amp;<!-- - -->y<b/></a >"
    e.WellFormed ∧ e.Rendering source ∧
      ∃ e', Element.parse "t" source = .ok e' ∧ e'.unlined = e.unlined := by
  intro e source
  have hname : ∀ c, isNameChar c = true → IsName (String.ofList [c]) := fun c hc ↦
    isName_ofList (by simp) (by simpa using hc)
  have hwf : e.WellFormed := by
    refine ⟨hname 'a' (by decide), ?_, List.pairwise_singleton _ _, by decide, by decide,
      ⟨hname 'b' (by decide), by simp, .nil, trivial⟩, trivial⟩
    simpa using hname 'k' (by decide)
  have hnone : Blanks [] := by simp [Blanks]
  have hspace : Blanks [' '] := by simp [Blanks, show Text.isBlank ' ' = true by decide]
  have hapos : Refers '\x27' ['#', 'x', '2', '7'] := .hexadecimal ⟨0, by decide⟩
  have hblank : Refers ' ' ['#', '0', '3', '2'] := .decimal ⟨1, by decide⟩
  have hvalue : Escaped (fun c ↦ c = '&' ∨ c = '\x27') "<'\"".toList "<&#x27;\"".toList :=
    .plain (by decide) (.reference hapos (.plain (by decide) .nil))
  have hattrs : AttrsWritten [⟨"k", "<'\""⟩] " k= '<&#x27;\"'".toList :=
    .cons ⟨"k", "<'\""⟩ '\x27' (.inr rfl) hspace hnone hspace hvalue .nil
  have hx : Escaped (fun c ↦ c = '<' ∨ c = '&') " x&".toList "&#032;x&amp;".toList :=
    .reference hblank (.plain (by decide) (.reference .amp .nil))
  have hy : Escaped (fun c ↦ c = '<' ∨ c = '&') "y".toList "y".toList := .plain (by decide) .nil
  have hcomment : Aside "<!-- - -->".toList := .comment [' ', '-', ' '] (by decide)
  have hfiller : Filler "<!-- - -->".toList := .aside hcomment .nil
  have hempty : (Element.mk "b" [] [] 0).Written "<b/>".toList :=
    .selfClosed "b" 0 .nil (by simp [EndsName]) hnone
  have htrimmed : Trimmed "&#032;x&amp;".toList :=
    ⟨by simp; decide, by simp; decide⟩
  have htrimmed' : Trimmed "y".toList := ⟨by simp; decide, by simp; decide⟩
  have hnodes : NodesWritten false [.text " x&" 0, .text "y" 0, .element (.mk "b" [] [] 0)]
      "&#032;x&amp;<!-- - -->y<b/>".toList :=
    .text false 0 .nil (by simp) hx htrimmed
      (.text true 0 hfiller (fun _ ↦ ⟨[], _, [], .nil, hcomment, .nil, rfl⟩) hy htrimmed'
        (.element true .nil hempty (.nil false .nil)))
  have hwritten : e.Written "<a k= '<&#x27;\"' >&#032;x&amp;<!-- - -->y<b/></a >".toList :=
    .closed "a" 0 hattrs (endsName_cons (by decide) _) hspace hnodes hspace
  have hfront : Filler "<?v?>\n".toList :=
    .aside (.instruction ['v'] (by decide)) (.blank (by decide) .nil)
  have hrendering : e.Rendering source :=
    ⟨_, _, [], hfront, hwritten, .nil, by decide⟩
  exact ⟨hwf, hrendering, (parse_rendering "t").1 e source hwf hrendering⟩

end LiveTemplate.Markup
