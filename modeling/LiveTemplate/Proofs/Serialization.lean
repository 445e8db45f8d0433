import LiveTemplate.Markup.Parser

/-!
# Serialized elements

What a token list must look like to be an element (`Element.Spells`): the opening token, a name, an
equals sign and a value for each attribute, no name twice, and then either the end of an empty tag,
or the end of the tag, the content, and a closing token of the same name. The main statement is that
the reader accepts these token lists, gives the element that each spells, and refuses all others at
the line of one of the tokens (`ofTokens_spelled`).

The reader carries bounds on what it leaves. They are dropped first (`readTag`, `readContent`), so
that every later statement is about plain equations. Each part of the reader then has one lemma for
what it accepts, whatever follows, and one for all that it can come to.
-/

namespace LiveTemplate.Markup

/-! ### Serializations -/

/-- The tokens of attributes: a name, an equals sign and a value for each, in order. -/
inductive SpellsAttrs : List Attribute → List Located → Prop
  | nil : SpellsAttrs [] []
  | cons (a : Attribute) (nameLine eqLine valueLine : Nat) {attrs : List Attribute}
      {ts : List Located} (h : SpellsAttrs attrs ts) :
      SpellsAttrs (a :: attrs)
        (⟨.attrName a.name, nameLine⟩ :: ⟨.equals, eqLine⟩ :: ⟨.attrValue a.value, valueLine⟩ :: ts)

/-- No attribute is there twice. -/
def Distinct (attrs : List Attribute) : Prop := (attrs.map Attribute.name).Nodup

mutual

/-- The tokens of an element. Its line is that of its opening token. -/
inductive Element.Spells : Element → List Located → Prop
  /-- An element without content may end with its tag. -/
  | selfClosed (name : String) (line endLine : Nat) {attrs : List Attribute} {ts : List Located}
      (hattrs : SpellsAttrs attrs ts) (hdistinct : Distinct attrs) :
      Element.Spells (.mk name attrs [] line)
        (⟨.openTag name, line⟩ :: (ts ++ [⟨.selfClose, endLine⟩]))
  | closed (name : String) (line endLine closeLine : Nat) {attrs : List Attribute}
      {children : List Node} {ts us : List Located} (hattrs : SpellsAttrs attrs ts)
      (hdistinct : Distinct attrs) (hchildren : SpellsNodes children us) :
      Element.Spells (.mk name attrs children line)
        (⟨.openTag name, line⟩ ::
          (ts ++ ⟨.tagEnd, endLine⟩ :: (us ++ [⟨.closeTag name, closeLine⟩])))

/-- The tokens of some content, node by node. -/
inductive SpellsNodes : List Node → List Located → Prop
  | nil : SpellsNodes [] []
  | element {e : Element} {nodes : List Node} {ts us : List Located} (he : e.Spells ts)
      (h : SpellsNodes nodes us) : SpellsNodes (.element e :: nodes) (ts ++ us)
  | text (s : String) (line : Nat) {nodes : List Node} {us : List Located}
      (h : SpellsNodes nodes us) : SpellsNodes (.text s line :: nodes) (⟨.text s, line⟩ :: us)

end

/-! ### The reader without its bounds -/

/-- Reads attributes up to the end of a start tag: the attributes, whether the element ends with the
tag, and what follows. -/
def readTag (element : String) (seen : List Attribute) (ts : List Located) :
    Except Failure (List Attribute × Bool × List Located) :=
  (startTag element seen ts).map fun tag ↦ (tag.attrs, tag.isEmpty, tag.rest)

/-- Reads the content of an element up to its end tag: the content, and what follows. -/
def readContent (element : String) (opened : Nat) (ts : List Located) :
    Except Failure (List Node × List Located) :=
  (content element opened ts).map fun c ↦ (c.nodes, c.rest)

section Equations

variable {element : String} {opened line : Nat} {seen : List Attribute} {rest : List Located}

theorem advance_cons (t : Located) (h : rest ≠ []) : advance (t :: rest) = rest := by
  cases rest with
  | nil => exact absurd rfl h
  | cons u rest => rfl

/-- To map what a computation gives, before it goes on. -/
theorem map_bind_map {ε α β γ δ : Type} (x : Except ε α) (g : α → β)
    (k : β → Except ε γ) (k' : α → Except ε δ) (f : δ → γ) (h : ∀ a, (k' a).map f = k (g a)) :
    (x >>= k').map f = x.map g >>= k := by
  cases x with
  | error e => rfl
  | ok a => exact h a

/-- A computation that gives something goes on with it. -/
theorem bind_of_eq_ok {ε α β : Type} {x : Except ε α} {a : α} (h : x = .ok a)
    (k : α → Except ε β) : x >>= k = k a := by
  rw [h]
  rfl

theorem readTag_selfClose (h : rest ≠ []) :
    readTag element seen (⟨.selfClose, line⟩ :: rest) = .ok (seen, true, rest) := by
  rw [readTag, startTag]
  simp only [Except.map, advance_cons _ h]

theorem readTag_tagEnd (h : rest ≠ []) :
    readTag element seen (⟨.tagEnd, line⟩ :: rest) = .ok (seen, false, rest) := by
  rw [readTag, startTag]
  simp only [Except.map, advance_cons _ h]

theorem readTag_attr {key value : String} {nameLine eqLine valueLine : Nat}
    (hnew : ∀ a ∈ seen, a.name ≠ key) (h : rest ≠ []) :
    readTag element seen (⟨.attrName key, nameLine⟩ :: ⟨.equals, eqLine⟩ ::
        ⟨.attrValue value, valueLine⟩ :: rest) =
      readTag element (seen ++ [⟨key, value⟩]) rest := by
  have hseen : seen.any (·.name == key) = false := by simpa using hnew
  obtain ⟨next, more, rfl⟩ := List.exists_cons_of_ne_nil h
  rw [readTag, startTag, readTag]
  simp only [hseen, Bool.false_eq_true, if_false]
  cases startTag element (seen ++ [⟨key, value⟩]) (next :: more) <;> rfl

theorem readContent_closeTag (h : rest ≠ []) :
    readContent element opened (⟨.closeTag element, line⟩ :: rest) = .ok ([], rest) := by
  rw [readContent, content]
  simp only [if_true, Except.map, advance_cons _ h]

theorem readContent_text {s : String} (h : rest ≠ []) :
    readContent element opened (⟨.text s, line⟩ :: rest) = (do
      let (nodes, after) ← readContent element opened rest
      pure (.text s line :: nodes, after)) := by
  obtain ⟨next, more, rfl⟩ := List.exists_cons_of_ne_nil h
  rw [readContent, content]
  exact map_bind_map _ _ _ _ _ fun _ ↦ rfl

theorem afterOpen_eq (name : String) (line : Nat) (ts : List Located) :
    Element.afterOpen name line ts = (do
      let (attrs, isEmpty, rest) ← readTag name [] ts
      if isEmpty then pure (.mk name attrs [] line, rest)
      else
        let (nodes, after) ← readContent name line rest
        pure (.mk name attrs nodes line, after)) := by
  rw [Element.afterOpen, readTag]
  cases startTag name [] ts with
  | error f => rfl
  | ok tag =>
    show (if tag.isEmpty then _ else _) = if tag.isEmpty then _ else _
    split
    · rfl
    · rw [readContent]
      cases content name line tag.rest <;> rfl

theorem readContent_openTag {name : String} (h : rest ≠ []) :
    readContent element opened (⟨.openTag name, line⟩ :: rest) = (do
      let (e, after) ← Element.afterOpen name line rest
      let (nodes, final) ← readContent element opened after
      pure (.element e :: nodes, final)) := by
  obtain ⟨next, more, rfl⟩ := List.exists_cons_of_ne_nil h
  rw [readContent, content, afterOpen_eq, readTag, bind_assoc]
  refine map_bind_map _ _ _ _ _ fun tag ↦ ?_
  dsimp only
  split
  · exact map_bind_map _ _ _ _ _ fun _ ↦ rfl
  · rw [bind_assoc]
    refine map_bind_map _ _ _ _ _ fun inner ↦ ?_
    exact map_bind_map _ _ _ _ _ fun _ ↦ rfl

end Equations

/-! ### Serializations are read -/

theorem distinct_append_cons {seen attrs : List Attribute} {a : Attribute}
    (h : Distinct (seen ++ a :: attrs)) : ∀ b ∈ seen, b.name ≠ a.name := by
  intro b hb
  rw [Distinct, List.map_append, List.map_cons, List.nodup_append] at h
  exact h.2.2 _ (List.mem_map_of_mem hb) _ List.mem_cons_self

/-- **Attributes are taken in** in front of whatever follows them. -/
theorem readTag_of_spells (element : String) (seen : List Attribute) {attrs : List Attribute}
    {ts rest : List Located} (h : SpellsAttrs attrs ts) (hdistinct : Distinct (seen ++ attrs))
    (hrest : rest ≠ []) :
    readTag element seen (ts ++ rest) = readTag element (seen ++ attrs) rest := by
  induction h generalizing seen with
  | nil => rw [List.append_nil, List.nil_append]
  | @cons a nameLine eqLine valueLine attrs ts h ih =>
    have hnew := distinct_append_cons hdistinct
    have hmore : ts ++ rest ≠ [] := List.append_ne_nil_of_right_ne_nil _ hrest
    have happend : seen ++ a :: attrs = seen ++ [a] ++ attrs := by simp
    rw [happend] at hdistinct ⊢
    exact (readTag_attr hnew hmore).trans (ih _ hdistinct)

mutual

/-- **The tokens of an element are read as that element**, whatever follows. -/
theorem afterOpen_of_spells {e : Element} {ts : List Located} (rest : List Located)
    (hrest : rest ≠ []) : e.Spells ts → ∃ us, ts = ⟨.openTag e.name, e.line⟩ :: us ∧
      Element.afterOpen e.name e.line (us ++ rest) = .ok (e, rest)
  | .selfClosed name line endLine hattrs hdistinct => by
    refine ⟨_, rfl, ?_⟩
    have htag := readTag_of_spells name [] hattrs hdistinct
      (List.cons_ne_nil ⟨.selfClose, endLine⟩ rest)
    rw [afterOpen_eq, List.append_assoc]
    exact bind_of_eq_ok (htag.trans (readTag_selfClose hrest)) _
  | .closed name line endLine closeLine hattrs hdistinct hchildren => by
    refine ⟨_, rfl, ?_⟩
    have hcontent := readContent_of_spells name line closeLine hrest hchildren
    rw [afterOpen_eq, List.append_assoc, List.cons_append, List.append_assoc]
    refine (bind_of_eq_ok ((readTag_of_spells name [] hattrs hdistinct (by simp)).trans
      (readTag_tagEnd (by simp))) _).trans ?_
    exact bind_of_eq_ok hcontent _

/-- **The tokens of some content are read as that content** in front of the closing token. -/
theorem readContent_of_spells (element : String) (opened closeLine : Nat) {nodes : List Node}
    {us rest : List Located} (hrest : rest ≠ []) :
    SpellsNodes nodes us →
      readContent element opened (us ++ ⟨.closeTag element, closeLine⟩ :: rest) = .ok (nodes, rest)
  | .nil => readContent_closeTag hrest
  | @SpellsNodes.element _ _ _ us he h => by
    obtain ⟨vs, rfl, hopen⟩ := afterOpen_of_spells (us ++ ⟨.closeTag element, closeLine⟩ :: rest)
      (by simp) he
    have hcontent := readContent_of_spells element opened closeLine hrest h
    rw [List.append_assoc, List.cons_append, readContent_openTag (by simp)]
    exact (bind_of_eq_ok hopen _).trans (bind_of_eq_ok hcontent _)
  | .text s line h => by
    have hcontent := readContent_of_spells element opened closeLine hrest h
    rw [List.cons_append, readContent_text (by simp)]
    exact bind_of_eq_ok hcontent _

end

/-! ### What a reading can come to -/

/-- The last token is the end of input. -/
def EndsInput (ts : List Located) : Prop := ∃ us line, ts = us ++ [⟨.endOfInput, line⟩]

theorem EndsInput.tail {t : Located} {ts : List Located} (h : EndsInput (t :: ts))
    (ht : t.token ≠ .endOfInput) : EndsInput ts := by
  obtain ⟨us, line, heq⟩ := h
  cases us with
  | nil =>
    rw [List.nil_append, List.cons.injEq] at heq
    exact absurd (congrArg Located.token heq.1) ht
  | cons u us =>
    rw [List.cons_append, List.cons.injEq] at heq
    exact ⟨us, line, heq.2⟩

theorem EndsInput.ne_nil {ts : List Located} (h : EndsInput ts) : ts ≠ [] := by
  obtain ⟨us, line, rfl⟩ := h
  simp

/-- A reading is refused at the line of one of the tokens. -/
def RefusedIn {α : Type} (ts : List Located) (x : Except Failure α) : Prop :=
  ∃ fault, x = .error (.refused fault) ∧ ∃ t ∈ ts, t.line = fault.line

section RefusedIn

variable {α β : Type} {ts us : List Located}

theorem refusedIn_refuse {t : Located} (ht : t ∈ ts) (cause : Cause) :
    RefusedIn (α := α) ts (refuse t.line cause) :=
  ⟨⟨t.line, cause⟩, rfl, t, ht, rfl⟩

theorem RefusedIn.mono {x : Except Failure α} (h : RefusedIn us x) (hsub : us ⊆ ts) :
    RefusedIn ts x := by
  obtain ⟨fault, hx, t, ht, hline⟩ := h
  exact ⟨fault, hx, t, hsub ht, hline⟩

theorem RefusedIn.bind {x : Except Failure α} (h : RefusedIn ts x) (k : α → Except Failure β) :
    RefusedIn ts (x >>= k) := by
  obtain ⟨fault, rfl, hline⟩ := h
  exact ⟨fault, rfl, hline⟩

end RefusedIn

/-- The token that ends a start tag, and the element with it if the element is empty. -/
def tagEnder (isEmpty : Bool) : Token := if isEmpty then .selfClose else .tagEnd

/-- What reading attributes can come to: a refusal, or the attributes spelled in front of the end of
the tag. -/
inductive TagOutcome (seen : List Attribute) :
    List Located → Except Failure (List Attribute × Bool × List Located) → Prop
  | refused {ts : List Located} {x : Except Failure (List Attribute × Bool × List Located)}
      (h : RefusedIn ts x) : TagOutcome seen ts x
  | read (isEmpty : Bool) (endLine : Nat) {attrs : List Attribute} {us rest : List Located}
      (hattrs : SpellsAttrs attrs us) (hdistinct : Distinct (seen ++ attrs))
      (hrest : EndsInput rest) :
      TagOutcome seen (us ++ ⟨tagEnder isEmpty, endLine⟩ :: rest)
        (.ok (seen ++ attrs, isEmpty, rest))

/-- What reading an element can come to, behind its opening token: a refusal, or the element spelled
by tokens at the front. -/
inductive ElementOutcome (name : String) (line : Nat) :
    List Located → Except Failure (Element × List Located) → Prop
  | refused {ts : List Located} {x : Except Failure (Element × List Located)}
      (h : RefusedIn ts x) : ElementOutcome name line ts x
  | read {e : Element} {us rest : List Located} (he : e.Spells (⟨.openTag name, line⟩ :: us))
      (hrest : EndsInput rest) : ElementOutcome name line (us ++ rest) (.ok (e, rest))

/-- What reading content can come to: a refusal, or the content spelled in front of the closing
token. -/
inductive ContentOutcome (element : String) :
    List Located → Except Failure (List Node × List Located) → Prop
  | refused {ts : List Located} {x : Except Failure (List Node × List Located)}
      (h : RefusedIn ts x) : ContentOutcome element ts x
  | read (closeLine : Nat) {nodes : List Node} {us rest : List Located}
      (hnodes : SpellsNodes nodes us) (hrest : EndsInput rest) :
      ContentOutcome element (us ++ ⟨.closeTag element, closeLine⟩ :: rest) (.ok (nodes, rest))

theorem distinct_append_singleton {seen : List Attribute} {key value : String}
    (h : Distinct seen) (hnew : ¬seen.any (·.name == key) = true) :
    Distinct (seen ++ [⟨key, value⟩]) := by
  simp only [List.any_eq_true, beq_iff_eq, not_exists, not_and] at hnew
  rw [Distinct, List.map_append, List.nodup_append]
  refine ⟨h, List.pairwise_singleton _ _, fun a ha b hb ↦ ?_⟩
  obtain ⟨x, hx, rfl⟩ := List.mem_map.1 ha
  rw [List.map_singleton, List.mem_singleton] at hb
  exact hb ▸ hnew x hx

/-- What comes of the attributes behind a first one. -/
theorem TagOutcome.attr {seen : List Attribute} {a : Attribute} {ts : List Located}
    {x : Except Failure (List Attribute × Bool × List Located)} (nameLine eqLine valueLine : Nat)
    (h : TagOutcome (seen ++ [a]) ts x) :
    TagOutcome seen (⟨.attrName a.name, nameLine⟩ :: ⟨.equals, eqLine⟩ ::
      ⟨.attrValue a.value, valueLine⟩ :: ts) x := by
  cases h with
  | refused h =>
    exact .refused (h.mono fun t ht ↦ List.mem_cons_of_mem _ (List.mem_cons_of_mem _
      (List.mem_cons_of_mem _ ht)))
  | read isEmpty endLine hattrs hdistinct hrest =>
    have happend : ∀ attrs : List Attribute, seen ++ [a] ++ attrs = seen ++ a :: attrs := by simp
    rw [happend] at hdistinct ⊢
    exact .read isEmpty endLine (.cons a nameLine eqLine valueLine hattrs) hdistinct hrest

/-- **What comes of reading attributes**: they are refused, or spelled. -/
theorem tagOutcome_readTag (element : String) {seen : List Attribute} (hseen : Distinct seen)
    {ts : List Located} (h : EndsInput ts) : TagOutcome seen ts (readTag element seen ts) := by
  have hended : ∀ {seen : List Attribute} {rest : List Located} (isEmpty : Bool) (line : Nat),
      Distinct seen → EndsInput rest →
      TagOutcome seen (⟨tagEnder isEmpty, line⟩ :: rest)
        (.ok (seen, isEmpty, advance (⟨tagEnder isEmpty, line⟩ :: rest))) := by
    intro seen rest isEmpty line hseen hrest
    rw [advance_cons _ hrest.ne_nil]
    simpa using TagOutcome.read isEmpty line .nil (by simpa using hseen) hrest
  rw [readTag]
  fun_induction startTag element seen ts with
  | case1 => exact absurd rfl h.ne_nil
  | case2 => exact absurd rfl (h.tail (by simp)).ne_nil
  | case3 => exact absurd rfl ((h.tail (by simp)).tail (by simp)).ne_nil
  | case4 seen key line eqLine value valueLine rest here =>
    -- The name is taken, which shows at the token behind the value.
    have hrest := ((h.tail (by simp)).tail (by simp)).tail (by simp)
    obtain ⟨next, more, rfl⟩ := List.exists_cons_of_ne_nil hrest.ne_nil
    exact .refused (refusedIn_refuse (t := next) (by simp) _)
  | case5 => exact absurd rfl (((h.tail (by simp)).tail (by simp)).tail (by simp)).ne_nil
  | case6 seen key line eqLine value valueLine hnew next more ih =>
    have hrest := ((h.tail (by simp)).tail (by simp)).tail (by simp)
    have hout := (ih (distinct_append_singleton hseen hnew) hrest).attr line eqLine valueLine
    cases hstart : startTag element (seen ++ [⟨key, value⟩]) (next :: more) <;>
      rw [hstart] at hout <;> exact hout
  | case7 seen key line eqLine other otherLine rest =>
    exact .refused (refusedIn_refuse (t := ⟨other, otherLine⟩) (by simp) _)
  | case8 seen key line other otherLine rest =>
    exact .refused (refusedIn_refuse (t := ⟨other, otherLine⟩) (by simp) _)
  | case9 seen line rest => exact hended true line hseen (h.tail (by simp))
  | case10 seen line rest => exact hended false line hseen (h.tail (by simp))
  | case11 seen other line rest =>
    exact .refused (refusedIn_refuse (t := ⟨other, line⟩) (by simp) _)

/-- What comes of reading an element, if shorter contents come to what they should. -/
theorem elementOutcome_afterOpen (name : String) (line : Nat) {ts : List Located}
    (hcontent : ∀ us, us.length < ts.length → EndsInput us →
      ContentOutcome name us (readContent name line us))
    (h : EndsInput ts) : ElementOutcome name line ts (Element.afterOpen name line ts) := by
  rw [afterOpen_eq]
  have hnone : Distinct [] := .nil
  have htag := tagOutcome_readTag name hnone h
  generalize readTag name [] ts = x at htag
  cases htag with
  | refused hrefused => exact .refused (hrefused.bind _)
  | @read isEmpty endLine attrs us rest hattrs hdistinct hrest =>
    cases isEmpty with
    | true =>
      have hout := ElementOutcome.read (.selfClosed name line endLine hattrs hdistinct) hrest
      rwa [List.append_assoc, List.singleton_append] at hout
    | false =>
      have hlt : rest.length < (us ++ ⟨tagEnder false, endLine⟩ :: rest).length := by
        rw [List.length_append, List.length_cons]
        omega
      have hinner := hcontent rest hlt hrest
      show ElementOutcome _ _ _ (readContent name line rest >>= _)
      generalize readContent name line rest = y at hinner
      cases hinner with
      | refused hrefused =>
        exact .refused ((hrefused.mono fun t ht ↦ by simp [ht]).bind _)
      | @read closeLine nodes vs rest' hnodes hrest' =>
        have hout := ElementOutcome.read
          (.closed name line endLine closeLine hattrs hdistinct hnodes) hrest'
        rw [List.append_assoc, List.cons_append, List.append_assoc, List.singleton_append] at hout
        exact hout

/-- **What comes of reading content**: it is refused, or spelled. -/
theorem contentOutcome_readContent (element : String) (opened : Nat) {ts : List Located}
    (h : EndsInput ts) : ContentOutcome element ts (readContent element opened ts) := by
  induction hn : ts.length using Nat.strongRecOn generalizing element opened ts with
  | _ n ih =>
    subst hn
    obtain ⟨⟨token, line⟩, rest, rfl⟩ := List.exists_cons_of_ne_nil h.ne_nil
    have hrefused : ∀ cause, content element opened (⟨token, line⟩ :: rest) = refuse line cause →
        ContentOutcome element (⟨token, line⟩ :: rest)
          (readContent element opened (⟨token, line⟩ :: rest)) := by
      intro cause heq
      rw [readContent, heq]
      exact .refused (refusedIn_refuse (t := ⟨token, line⟩) (by simp) cause)
    cases token with
    | openTag name =>
      have hrest := h.tail (by simp)
      have helement := elementOutcome_afterOpen name line (fun us hlt hus ↦
        ih us.length (Nat.lt_succ_of_lt hlt) name line hus rfl) hrest
      rw [readContent_openTag hrest.ne_nil]
      generalize Element.afterOpen name line rest = x at helement
      cases helement with
      | refused hx => exact .refused ((hx.mono (List.subset_cons_self _ _)).bind _)
      | @read e us after he hafter =>
        have hlt : after.length < (⟨.openTag name, line⟩ :: (us ++ after)).length := by
          rw [List.length_cons, List.length_append]
          omega
        have hothers := ih after.length hlt element opened hafter rfl
        show ContentOutcome _ _ (readContent element opened after >>= _)
        generalize readContent element opened after = y at hothers
        cases hothers with
        | refused hy => exact .refused ((hy.mono fun t ht ↦ by simp [ht]).bind _)
        | @read closeLine nodes vs final hnodes hfinal =>
          have hout : ContentOutcome element _ _ := .read closeLine (.element he hnodes) hfinal
          rwa [List.cons_append, List.cons_append, List.append_assoc] at hout
    | text s =>
      have hrest := h.tail (by simp)
      have hout := ih rest.length (by simp) element opened hrest rfl
      rw [readContent_text hrest.ne_nil]
      generalize readContent element opened rest = x at hout
      cases hout with
      | refused h => exact .refused ((h.mono (List.subset_cons_self _ _)).bind _)
      | read closeLine hnodes hrest' => exact .read closeLine (.text s line hnodes) hrest'
    | closeTag name =>
      by_cases hname : name = element
      · subst hname
        have hrest := h.tail (by simp)
        rw [readContent_closeTag hrest.ne_nil]
        exact .read line .nil hrest
      · exact hrefused (.mismatchedClose element opened name) (by rw [content]; exact if_neg hname)
    | endOfInput => exact hrefused (.unclosed element opened) (by rw [content])
    | attrName key => exact hrefused (.strayInContent (.attrName key) element) (by simp [content])
    | equals => exact hrefused (.strayInContent .equals element) (by simp [content])
    | attrValue value =>
      exact hrefused (.strayInContent (.attrValue value) element) (by simp [content])
    | tagEnd => exact hrefused (.strayInContent .tagEnd element) (by simp [content])
    | selfClose => exact hrefused (.strayInContent .selfClose element) (by simp [content])

/-! ### Token lists that are elements -/

/-- What reading a token list can come to: a refusal, or the element that is spelled in front of the
end of input. -/
inductive ListOutcome : List Located → Except Failure Element → Prop
  | refused {ts : List Located} {x : Except Failure Element} (h : RefusedIn ts x) : ListOutcome ts x
  | read (line : Nat) {e : Element} {us rest : List Located} (he : e.Spells us) :
      ListOutcome (us ++ ⟨.endOfInput, line⟩ :: rest) (.ok e)

/-- **What comes of reading a token list**: it is refused, or spelled. -/
theorem listOutcome_ofTokens {ts : List Located} (h : EndsInput ts) :
    ListOutcome ts (Element.ofTokens ts) := by
  obtain ⟨⟨token, line⟩, rest, rfl⟩ := List.exists_cons_of_ne_nil h.ne_nil
  have hrefused : ∀ cause, Element.ofTokens (⟨token, line⟩ :: rest) = refuse line cause →
      ListOutcome (⟨token, line⟩ :: rest) (Element.ofTokens (⟨token, line⟩ :: rest)) := by
    intro cause heq
    rw [heq]
    exact .refused (refusedIn_refuse (t := ⟨token, line⟩) (by simp) cause)
  cases token with
  | openTag name =>
    have hrest := h.tail (by simp)
    have helement := elementOutcome_afterOpen name line
      (fun us _ hus ↦ contentOutcome_readContent name line hus) hrest
    rw [Element.ofTokens, advance_cons _ hrest.ne_nil]
    generalize Element.afterOpen name line rest = x at helement
    cases helement with
    | refused hx => exact .refused ((hx.mono (List.subset_cons_self _ _)).bind _)
    | @read e us after he hafter =>
      obtain ⟨⟨other, otherLine⟩, final, rfl⟩ := List.exists_cons_of_ne_nil hafter.ne_nil
      by_cases hother : other = .endOfInput
      · subst hother
        exact .read otherLine he
      · have hstray : (⟨other, otherLine⟩ : Located) ∈
            ⟨.openTag name, line⟩ :: (us ++ ⟨other, otherLine⟩ :: final) := by simp
        have hout := refusedIn_refuse (α := Element) hstray (.afterRoot e.name other)
        cases other <;> first | exact absurd rfl hother | exact .refused hout
  | endOfInput => exact hrefused .emptyTemplate rfl
  | closeTag name => exact hrefused (.noRoot (.closeTag name)) rfl
  | attrName key => exact hrefused (.noRoot (.attrName key)) rfl
  | equals => exact hrefused (.noRoot .equals) rfl
  | attrValue value => exact hrefused (.noRoot (.attrValue value)) rfl
  | tagEnd => exact hrefused (.noRoot .tagEnd) rfl
  | selfClose => exact hrefused (.noRoot .selfClose) rfl
  | text s => exact hrefused (.noRoot (.text s)) rfl

/-- **The tokens of an element are read as that element** in front of the end of input. -/
theorem ofTokens_of_spells {e : Element} {ts : List Located} (h : e.Spells ts) (last : Nat) :
    Element.ofTokens (ts ++ [⟨.endOfInput, last⟩]) = .ok e := by
  obtain ⟨us, rfl, hopen⟩ := afterOpen_of_spells [⟨.endOfInput, last⟩] (by simp) h
  rw [List.cons_append, Element.ofTokens, advance_cons _ (by simp)]
  exact bind_of_eq_ok hopen _

/-- A list with its one end of input at its end is cut there in one way. -/
theorem eq_of_append_endOfInput {ts us rest : List Located} {last line : Nat}
    (hts : ∀ t ∈ ts, t.token ≠ .endOfInput)
    (h : ts ++ [⟨.endOfInput, last⟩] = us ++ ⟨.endOfInput, line⟩ :: rest) : ts = us := by
  obtain ⟨more, rfl, hrest⟩ | ⟨more, rfl, hrest⟩ := List.append_eq_append_iff.1 h
  · cases more with
    | nil => simp
    | cons t more => simp at hrest
  · cases more with
    | nil => simp
    | cons t more =>
      rw [List.cons_append, List.cons.injEq] at hrest
      exact absurd (by rw [← hrest.1]) (hts t (by simp))

/-- What comes of a token list with its one end of input at its end. -/
theorem refusedIn_or_spells {ts : List Located} (last : Nat)
    (hts : ∀ t ∈ ts, t.token ≠ .endOfInput) :
    let all := ts ++ [⟨.endOfInput, last⟩]
    RefusedIn all (Element.ofTokens all) ∨
      ∃ e : Element, e.Spells ts ∧ Element.ofTokens all = .ok e := by
  intro all
  have hout : ListOutcome all (Element.ofTokens all) := listOutcome_ofTokens ⟨ts, last, rfl⟩
  generalize hall : all = us at hout
  generalize Element.ofTokens us = x at hout ⊢
  cases hout with
  | refused h => exact .inl h
  | @read line e us rest he => exact .inr ⟨e, eq_of_append_endOfInput hts hall ▸ he, rfl⟩

/-- **Exactly the serialized elements are read.** In front of the one end of input, an element comes
of the tokens that spell it and of no others, and tokens that spell no element are refused at the
line of one of the tokens. -/
theorem ofTokens_spelled (ts : List Located) (last : Nat)
    (hts : ∀ t ∈ ts, t.token ≠ .endOfInput) :
    (∀ e, Element.ofTokens (ts ++ [⟨.endOfInput, last⟩]) = .ok e ↔ e.Spells ts) ∧
      ((¬∃ e : Element, e.Spells ts) → ∃ fault,
        Element.ofTokens (ts ++ [⟨.endOfInput, last⟩]) = .error (.refused fault) ∧
          ∃ t ∈ ts ++ [⟨.endOfInput, last⟩], t.line = fault.line) := by
  have hout := refusedIn_or_spells last hts
  refine ⟨fun e ↦ ⟨fun heq ↦ ?_, fun h ↦ ofTokens_of_spells h last⟩, fun hnone ↦ ?_⟩
  · obtain ⟨fault, hfault, -⟩ | ⟨e', he', heq'⟩ := hout
    · rw [heq] at hfault
      cases hfault
    · rw [heq, Except.ok.injEq] at heq'
      exact heq' ▸ he'
  · obtain hrefused | ⟨e, he, -⟩ := hout
    · exact hrefused
    · exact absurd ⟨e, he⟩ hnone

/-- An element with an attribute, a text and an empty element in it is read from its tokens; with a
text in front of it, it is refused. -/
theorem ofTokens_spelled_nested :
    let ts : List Located :=
      [⟨.openTag "a", 1⟩, ⟨.attrName "k", 1⟩, ⟨.equals, 2⟩, ⟨.attrValue "v", 2⟩, ⟨.tagEnd, 3⟩,
        ⟨.text "t", 3⟩, ⟨.openTag "b", 4⟩, ⟨.selfClose, 4⟩, ⟨.closeTag "a", 5⟩]
    Element.ofTokens (ts ++ [⟨.endOfInput, 6⟩]) =
        .ok (.mk "a" [⟨"k", "v"⟩] [.text "t" 3, .element (.mk "b" [] [] 4)] 1) ∧
      ∃ fault, Element.ofTokens (⟨.text "t", 7⟩ :: ts ++ [⟨.endOfInput, 6⟩]) =
        .error (.refused fault) := by
  intro ts
  have hdistinct : Distinct [⟨"k", "v"⟩] := List.pairwise_singleton _ _
  have hempty : Element.Spells (.mk "b" [] [] 4) [⟨.openTag "b", 4⟩, ⟨.selfClose, 4⟩] :=
    .selfClosed "b" 4 4 .nil .nil
  have hspells : Element.Spells
      (.mk "a" [⟨"k", "v"⟩] [.text "t" 3, .element (.mk "b" [] [] 4)] 1) ts :=
    .closed "a" 1 3 5 (.cons ⟨"k", "v"⟩ 1 2 2 .nil) hdistinct (.text "t" 3 (.element hempty .nil))
  have hstray : ¬∃ e : Element, e.Spells (⟨.text "t", 7⟩ :: ts) := by
    rintro ⟨e, he⟩
    cases he
  refine ⟨((ofTokens_spelled ts 6 (by decide)).1 _).2 hspells, ?_⟩
  obtain ⟨fault, hfault, -⟩ := (ofTokens_spelled (⟨.text "t", 7⟩ :: ts) 6 (by decide)).2 hstray
  exact ⟨fault, hfault⟩

end LiveTemplate.Markup
