import LiveTemplate.Proofs.Rounds
import LiveTemplate.Proofs.Stepping

/-!
# Which readings end

A token list `BreaksOff` if its last token is a text and more tokens could make it the tokens of an
element. Of these lists the reading never ends, and of all others it does
(`reading_ends_unless_broken_off`).

Three things are put together for this. The machine of `Stepping` comes to what the reader says,
part by part of the grammar: to an outcome where the reader has one, and to a text that it cannot
leave where the reader calls the reading endless (`comesTo_ofTokens`). The tokens of an element lead
the machine from anywhere an element may stand to behind it (`Phase.feed_of_spells`), so a list that
breaks off leads into the content of an element. Last, wherever the machine is in some content, it
can be fed closing tags until it is behind the root, and what it accepts is spelled
(`Phase.spells_of_feed`), so a list that leads into content, with a text at its end, breaks off.
-/

namespace LiveTemplate.Markup

/-! ### Serializations, step by step -/

namespace Phase

theorem feed_of_spellsAttrs (u : Unclosed) (outer : List Unclosed) {attrs : List Attribute}
    {ts : List Located} (h : SpellsAttrs attrs ts) (hdistinct : Distinct (u.attrs ++ attrs)) :
    (Phase.tag u outer).feed ts = .tag (u.addAttrs attrs) outer := by
  induction h generalizing u with
  | nil => simp
  | @cons a nameLine eqLine valueLine attrs ts h ih =>
    have hnew : u.attrs.any (·.name == a.name) = false := by
      simpa using distinct_append_cons hdistinct
    have happend : u.attrs ++ a :: attrs = (u.addAttrs [a]).attrs ++ attrs := by
      simp [Unclosed.addAttrs]
    rw [happend] at hdistinct
    simpa [step, hnew] using ih _ hdistinct

mutual

/-- **The tokens of an element lead behind it**, whatever is around it. -/
theorem feed_of_spells {e : Element} {ts : List Located} {p : Phase} (outer : List Unclosed)
    (hp : ∀ name line, p.step ⟨.openTag name, line⟩ = .tag (.opened name line) outer) :
    e.Spells ts → p.feed ts = closed e outer
  | .selfClosed name line endLine hattrs hdistinct => by
    have htag := feed_of_spellsAttrs (.opened name line) outer hattrs hdistinct
    rw [feed_cons, hp, feed_append, htag]
    rfl
  | @Element.Spells.closed name line endLine closeLine attrs children _ _ hattrs hdistinct
      hchildren => by
    have htag := feed_of_spellsAttrs (.opened name line) outer hattrs hdistinct
    have hcontent := feed_of_spellsNodes ((Unclosed.opened name line).addAttrs attrs) outer
      hchildren
    have hclosed : (Phase.content (((Unclosed.opened name line).addAttrs attrs).addNodes children)
        outer).step ⟨.closeTag name, closeLine⟩ = closed (.mk name attrs children line) outer :=
      if_pos rfl
    rw [feed_cons, hp, feed_append, htag, feed_cons, feed_append]
    exact (congrArg _ hcontent).trans hclosed

/-- **The tokens of some content are taken in as that content.** -/
theorem feed_of_spellsNodes {nodes : List Node} {ts : List Located} (u : Unclosed)
    (outer : List Unclosed) : SpellsNodes nodes ts →
      (Phase.content u outer).feed ts = .content (u.addNodes nodes) outer
  | .nil => by simp
  | @SpellsNodes.element e _ _ _ he h => by
    have hothers := feed_of_spellsNodes (u.addNodes [.element e]) outer h
    rw [feed_append, feed_of_spells (u :: outer) (fun _ _ ↦ rfl) he]
    simpa [closed] using hothers
  | .text s line h => by
    have hothers := feed_of_spellsNodes (u.addNodes [.text s line]) outer h
    simpa [step] using hothers

end

end Phase

/-! ### The reader and the machine -/

namespace Reader

variable {r r' : Reader} {α β : Type} {P : α → Reader → Prop} {Q : β → Reader → Prop}

/-- The reader is there some steps later. -/
def Reaches (r r' : Reader) : Prop := ∃ k, step^[k] r = r'

theorem Reaches.refl (r : Reader) : r.Reaches r := ⟨0, rfl⟩

theorem Reaches.trans {r'' : Reader} (h : r.Reaches r') (h' : r'.Reaches r'') : r.Reaches r'' := by
  obtain ⟨j, rfl⟩ := h
  obtain ⟨k, rfl⟩ := h'
  exact ⟨k + j, Function.iterate_add_apply _ _ _ _⟩

/-- No reader goes back. -/
theorem Reaches.length_le (h : r.Reaches r') :
    r'.cursor.tokens.length ≤ r.cursor.tokens.length := by
  obtain ⟨k, rfl⟩ := h
  induction k generalizing r with
  | zero => exact Nat.le_refl _
  | succ k ih => exact Nat.le_trans ih r.cursor.length_tokens_next_le

/-- The steps from `r` on come to what a reading says: to a reader as it should be behind what is
read, to a refusal, or to where nothing ends. -/
inductive ComesTo (r : Reader) (P : α → Reader → Prop) : Except Failure α → Prop
  | read {a : α} {r' : Reader} (h : r.Reaches r') (hp : P a r') : ComesTo r P (.ok a)
  | refused {fault : Fault} {r' : Reader} (h : r.Reaches r')
      (hended : r'.phase = .ended (.error fault)) : ComesTo r P (.error (.refused fault))
  | endless {r' : Reader} (h : r.Reaches r') (hstuck : r'.Stuck) : ComesTo r P (.error .endless)

theorem ComesTo.of_reaches {x : Except Failure α} (h : r.Reaches r') (hx : r'.ComesTo P x) :
    r.ComesTo P x := by
  cases hx with
  | read h' hp => exact .read (h.trans h') hp
  | refused h' hended => exact .refused (h.trans h') hended
  | endless h' hstuck => exact .endless (h.trans h') hstuck

theorem ComesTo.of_step {x : Except Failure α} (hx : r.step.ComesTo P x) : r.ComesTo P x :=
  .of_reaches ⟨1, rfl⟩ hx

/-- One reading after the other. -/
theorem ComesTo.bind {x : Except Failure α} {k : α → Except Failure β} (h : r.ComesTo P x)
    (hk : ∀ a r', r.Reaches r' → P a r' → r'.ComesTo Q (k a)) : r.ComesTo Q (x >>= k) := by
  cases h with
  | read h hp => exact .of_reaches h (hk _ _ h hp)
  | refused h hended => exact .refused h hended
  | endless h hstuck => exact .endless h hstuck

theorem ComesTo.of_ended {fault : Fault} (h : r.phase = .ended (.error fault)) :
    r.ComesTo P (.error (.refused fault)) := .refused (.refl r) h

end Reader

/-- Behind a start tag: in the content of the element, or behind the element if it is empty. -/
def Phase.tagged (u : Unclosed) (isEmpty : Bool) (outer : List Unclosed) : Phase :=
  if isEmpty then .closed u.element outer else .content u outer

/-- An attribute takes three steps. -/
theorem reaches_of_attr (key value : String) (line eqLine valueLine : Nat) (rest : List Located)
    (u : Unclosed) (outer : List Unclosed) :
    (Reader.mk ⟨⟨.attrName key, line⟩, ⟨.equals, eqLine⟩ :: ⟨.attrValue value, valueLine⟩ :: rest⟩
      (.tag u outer)).Reaches ⟨(Cursor.mk ⟨.attrValue value, valueLine⟩ rest).next,
        if u.attrs.any (·.name == key) then .repeated key u.name
        else .tag (u.addAttrs [⟨key, value⟩]) outer⟩ :=
  ⟨3, rfl⟩

/-- **A start tag is read step by step.** -/
theorem comesTo_readTag (u : Unclosed) (outer : List Unclosed) (c : Cursor) :
    (Reader.mk c (.tag u outer)).ComesTo (fun (attrs, isEmpty, rest) r ↦
      r.phase = .tagged { u with attrs := attrs } isEmpty outer ∧ r.cursor.tokens = rest)
      (readTag u.name u.attrs c.tokens) := by
  rw [readTag]
  generalize hseen : u.attrs = seen
  generalize hname : u.name = element
  generalize hts : c.tokens = ts
  obtain ⟨current, behind⟩ := c
  fun_induction startTag element seen ts generalizing u current behind with
  | case1 => cases hts
  -- At the last token the machine looks again at what it has just taken in, so the three lists that
  -- stop inside an attribute are refused for that token.
  | case2 =>
    cases hts
    exact .of_step (.of_step (.of_ended rfl))
  | case3 =>
    cases hts
    exact .of_step (.of_step (.of_step (.of_ended rfl)))
  | case4 seen key line eqLine value valueLine rest here htaken =>
    cases hts
    subst hseen hname
    refine .of_reaches (reaches_of_attr key value line eqLine valueLine rest u outer) ?_
    rw [if_pos htaken]
    -- The name is taken, which shows at the token behind the value, if there is one.
    cases rest with
    | nil => exact .of_step (.of_ended rfl)
    | cons next more => exact .of_step (.of_ended rfl)
  | case5 seen key line eqLine value valueLine hnew =>
    cases hts
    subst hseen hname
    refine .of_reaches (reaches_of_attr key value line eqLine valueLine [] u outer) ?_
    rw [if_neg hnew]
    exact .of_step (.of_ended rfl)
  | case6 seen key line eqLine value valueLine hnew next more ih =>
    cases hts
    subst hseen hname
    have htag := ih (u.addAttrs [⟨key, value⟩]) rfl rfl next more rfl
    refine .of_reaches (reaches_of_attr key value line eqLine valueLine (next :: more) u outer) ?_
    rw [if_neg hnew]
    cases hstart : startTag u.name (u.attrs ++ [⟨key, value⟩]) (next :: more) <;>
      rw [hstart] at htag <;> exact htag
  | case7 seen key line eqLine other otherLine rest hother =>
    cases hts
    refine .of_step (.of_step (.of_step (.of_ended ?_)))
    cases other with
    | attrValue value => exact absurd rfl (hother value)
    | _ => rfl
  | case8 seen key line other otherLine rest hother =>
    cases hts
    refine .of_step (.of_step (.of_ended ?_))
    cases other with
    | equals => exact absurd rfl hother
    | _ => rfl
  | case9 seen line rest =>
    cases hts
    subst hseen hname
    exact .of_step (.read (.refl _) ⟨rfl, Cursor.tokens_next _⟩)
  | case10 seen line rest =>
    cases hts
    subst hseen hname
    exact .of_step (.read (.refl _) ⟨rfl, Cursor.tokens_next _⟩)
  | case11 seen other line rest hname' hself hend =>
    cases hts
    subst hname
    refine .of_step (.of_ended ?_)
    cases other with
    | attrName key => exact absurd rfl (hname' key)
    | selfClose => exact absurd rfl hself
    | tagEnd => exact absurd rfl hend
    | _ => rfl

/-- From `c` on, the content of an element is read step by step. -/
def TakesContent (u : Unclosed) (outer : List Unclosed) (c : Cursor) : Prop :=
  (Reader.mk c (.content u outer)).ComesTo (fun (nodes, rest) r ↦
    r.phase = .closed (u.addNodes nodes).element outer ∧ r.cursor.tokens = rest)
    (readContent u.name u.line c.tokens)

/-- An element is read step by step behind its opening token, if contents no longer than it are. -/
theorem comesTo_afterOpen (name : String) (line : Nat) (outer : List Unclosed) (c : Cursor)
    (hcontent : ∀ (u : Unclosed) (c' : Cursor), c'.tokens.length ≤ c.tokens.length →
      TakesContent u outer c') :
    (Reader.mk c (.tag (.opened name line) outer)).ComesTo (fun (e, rest) r ↦
      r.phase = .closed e outer ∧ r.cursor.tokens = rest)
      (Element.afterOpen name line c.tokens) := by
  rw [afterOpen_eq]
  refine (comesTo_readTag (.opened name line) outer c).bind ?_
  rintro ⟨attrs, isEmpty, rest⟩ ⟨c', phase⟩ hreaches ⟨rfl, rfl⟩
  cases isEmpty with
  | true => exact .read (.refl _) ⟨rfl, rfl⟩
  | false =>
    refine (hcontent ⟨name, line, attrs, []⟩ c' hreaches.length_le).bind ?_
    rintro ⟨nodes, after⟩ r hreaches ⟨hphase, rfl⟩
    exact .read (.refl _) ⟨hphase, rfl⟩

/-- **Content is read step by step.** -/
theorem takesContent (u : Unclosed) (outer : List Unclosed) (c : Cursor) :
    TakesContent u outer c := by
  induction hn : c.tokens.length using Nat.strongRecOn generalizing u outer c with
  | _ n ih =>
    subst hn
    obtain ⟨⟨token, line⟩, behind⟩ := c
    cases token with
    | openTag name =>
      cases behind with
      | nil =>
        rw [TakesContent, Cursor.tokens, readContent, content]
        exact .of_step (.of_step (.of_ended rfl))
      | cons next more =>
        rw [TakesContent, Cursor.tokens, readContent_openTag (List.cons_ne_nil _ _)]
        have helement := comesTo_afterOpen name line (u :: outer) ⟨next, more⟩
          fun v c' hle ↦ ih c'.tokens.length (Nat.lt_succ_of_le hle) v (u :: outer) c' rfl
        refine .of_step (helement.bind ?_)
        rintro ⟨e, after⟩ ⟨c', phase⟩ hreaches ⟨rfl, rfl⟩
        have hothers := ih c'.tokens.length (Nat.lt_succ_of_le hreaches.length_le)
          (u.addNodes [.element e]) outer c' rfl
        refine hothers.bind ?_
        rintro ⟨nodes, final⟩ r hreaches ⟨hphase, rfl⟩
        exact .read (.refl _) ⟨by simpa using hphase, rfl⟩
    | text s =>
      cases behind with
      | nil =>
        rw [TakesContent, Cursor.tokens, readContent, content]
        exact .endless (.refl _) ⟨s, line, u, outer, rfl⟩
      | cons next more =>
        rw [TakesContent, Cursor.tokens, readContent_text (List.cons_ne_nil _ _)]
        have hothers := ih _ (Nat.lt_succ_self _) (u.addNodes [.text s line]) outer ⟨next, more⟩ rfl
        refine .of_step (hothers.bind ?_)
        rintro ⟨nodes, final⟩ r hreaches ⟨hphase, rfl⟩
        exact .read (.refl _) ⟨by simpa using hphase, rfl⟩
    | closeTag name =>
      rw [TakesContent, Cursor.tokens, readContent, content]
      by_cases hname : name = u.name
      · have hclosed : (Phase.content u outer).step ⟨.closeTag name, line⟩ =
            .closed (u.addNodes []).element outer := by
          rw [u.addNodes_nil]
          exact if_pos hname
        rw [if_pos hname]
        exact .of_step (.read (.refl _) ⟨hclosed, Cursor.tokens_next _⟩)
      · rw [if_neg hname]
        exact .of_step (.of_ended (if_neg hname))
    | _ =>
      rw [TakesContent, Cursor.tokens, readContent, content]
      · exact .of_step (.of_ended rfl)
      all_goals simp

/-- **The reader of a whole token list**, step by step. -/
theorem comesTo_ofTokens (c : Cursor) :
    (Reader.start c).ComesTo (fun e r ↦ r.phase = .ended (.ok e)) (Element.ofTokens c.tokens) := by
  obtain ⟨⟨token, line⟩, behind⟩ := c
  cases token with
  | openTag name =>
    rw [Cursor.tokens, Element.ofTokens]
    have helement := comesTo_afterOpen name line [] (Cursor.mk ⟨.openTag name, line⟩ behind).next
      fun u c' _ ↦ takesContent u [] c'
    rw [Cursor.tokens_next] at helement
    refine .of_step (helement.bind ?_)
    rintro ⟨root, after⟩ ⟨⟨⟨other, otherLine⟩, more⟩, phase⟩ - ⟨rfl, rfl⟩
    cases other with
    | endOfInput => exact .of_step (.read (.refl _) rfl)
    | _ => exact .of_step (.of_ended rfl)
  | _ => exact .of_step (.of_ended rfl)

/-- **A reading that is over has the outcome of the reader.** -/
theorem ofTokens_of_ended {c : Cursor} {k : Nat} {x : Except Fault Element}
    (h : (Reader.step^[k] (.start c)).phase = .ended x) :
    Element.ofTokens c.tokens = x.mapError .refused := by
  have hcomes := comesTo_ofTokens c
  generalize Element.ofTokens c.tokens = y at hcomes
  cases hcomes with
  | read hreaches hended =>
    obtain ⟨j, rfl⟩ := hreaches
    cases Reader.outcome_unique h hended
    rfl
  | refused hreaches hended =>
    obtain ⟨j, rfl⟩ := hreaches
    cases Reader.outcome_unique h hended
    rfl
  | endless hreaches hstuck =>
    obtain ⟨j, rfl⟩ := hreaches
    exact absurd h hstuck.not_ended

/-- **A reading that gets stuck is endless for the reader.** -/
theorem ofTokens_of_stuck {c : Cursor} {k : Nat} (h : (Reader.step^[k] (.start c)).Stuck) :
    Element.ofTokens c.tokens = .error .endless := by
  have hcomes := comesTo_ofTokens c
  generalize Element.ofTokens c.tokens = y at hcomes
  cases hcomes with
  | read hreaches hended =>
    obtain ⟨j, rfl⟩ := hreaches
    exact absurd hended h.not_ended
  | refused hreaches hended =>
    obtain ⟨j, rfl⟩ := hreaches
    exact absurd hended h.not_ended
  | endless => rfl

/-! ### Lists that break off -/

namespace Phase

/-- The end of input ends every reading. -/
theorem hasEnded_step_endOfInput (p : Phase) (line : Nat) :
    HasEnded (p.step ⟨.endOfInput, line⟩) := by
  cases p <;> exact hasEnded_ended _

theorem hasEnded_feed_of_mem {ts : List Located} {t : Located} (ht : t ∈ ts)
    (hend : t.token = .endOfInput) (p : Phase) : HasEnded (p.feed ts) := by
  obtain ⟨us, vs, rfl⟩ := List.append_of_mem ht
  obtain ⟨token, line⟩ := t
  cases hend
  obtain ⟨x, hx⟩ := hasEnded_step_endOfInput (p.feed us) line
  rw [feed_append, feed_cons, hx, feed_ended]
  exact hasEnded_ended x

/-- **What the machine accepts is spelled.** -/
theorem spells_of_feed {e : Element} {ts : List Located} (h : outside.feed ts = .rooted e) :
    e.Spells ts := by
  have hnone : ∀ t ∈ ts, t.token ≠ .endOfInput := by
    intro t ht hend
    obtain ⟨x, hx⟩ := hasEnded_feed_of_mem ht hend .outside
    rw [h] at hx
    cases hx
  obtain ⟨c, hc⟩ := Cursor.exists_tokens_eq (List.append_ne_nil_of_right_ne_nil ts
    (List.cons_ne_nil (⟨.endOfInput, 0⟩ : Located) []))
  have hended : (Reader.step^[ts.length + 1] (.start c)).phase = .ended (.ok e) := by
    rw [Reader.start, Reader.iterate_step hc, Function.iterate_one, h]
    rfl
  have hread := ofTokens_of_ended hended
  rw [hc] at hread
  exact ((ofTokens_spelled ts 0 hnone).1 e).1 hread

/-- Open elements can be closed, whatever has been read of them. -/
theorem exists_feed_eq_rooted (u : Unclosed) (outer : List Unclosed) :
    ∃ ts e, (Phase.content u outer).feed ts = .rooted e := by
  induction outer generalizing u with
  | nil => exact ⟨[⟨.closeTag u.name, 0⟩], u.element, if_pos rfl⟩
  | cons v outer ih =>
    obtain ⟨ts, e, hts⟩ := ih (v.addNodes [.element u.element])
    have hclosed : (Phase.content u (v :: outer)).step ⟨.closeTag u.name, 0⟩ =
      .content (v.addNodes [.element u.element]) outer := if_pos rfl
    exact ⟨⟨.closeTag u.name, 0⟩ :: ts, e, by rw [feed_cons, hclosed, hts]⟩

end Phase

/-- The tokens begin those of an element, and break off behind a text inside it. -/
def BreaksOff (ts : List Located) : Prop :=
  (∃ us s line, ts = us ++ [⟨.text s, line⟩]) ∧ ∃ more, ∃ e : Element, e.Spells (ts ++ more)

/-- A list that breaks off leads to a text inside an element, and no other list does. -/
theorem breaksOff_iff {us : List Located} {t : Located} :
    BreaksOff (us ++ [t]) ↔
      ∃ s u outer, t.token = .text s ∧ Phase.outside.feed us = .content u outer := by
  constructor
  · rintro ⟨⟨vs, s, line, heq⟩, more, e, hspells⟩
    obtain ⟨rfl, rfl⟩ := List.append_singleton_inj.1 heq
    have hrooted : Phase.outside.feed (us ++ [⟨.text s, line⟩] ++ more) = .rooted e :=
      Phase.feed_of_spells [] (fun _ _ ↦ rfl) hspells
    rw [Phase.feed_append, Phase.feed_append, Phase.feed_cons, Phase.feed_nil] at hrooted
    cases hphase : Phase.outside.feed us with
    | content u outer => exact ⟨s, u, outer, rfl, rfl⟩
    | _ =>
      rw [hphase] at hrooted
      simp [Phase.step, Phase.refused] at hrooted
  · rintro ⟨s, u, outer, htext, hphase⟩
    obtain ⟨token, line⟩ := t
    cases htext
    obtain ⟨more, e, hrooted⟩ :=
      Phase.exists_feed_eq_rooted (u.addNodes [.text s line]) outer
    refine ⟨⟨us, s, line, rfl⟩, more, e, Phase.spells_of_feed ?_⟩
    rw [Phase.feed_append, Phase.feed_append, hphase]
    exact hrooted

/-- What ends in the end of input does not break off. -/
theorem not_breaksOff_of_endsInput {ts : List Located} (h : EndsInput ts) : ¬BreaksOff ts := by
  rintro ⟨⟨us, s, line, hus⟩, -⟩
  obtain ⟨vs, last, hvs⟩ := h
  have hlast := (List.append_singleton_inj.1 (hvs.symm.trans hus)).2
  cases hlast

/-- The tokens of a text do not break off. -/
theorem not_breaksOff_of_scan {source : String} {ts : List Located}
    (h : Token.scan source = .ok ts) : ¬BreaksOff ts :=
  not_breaksOff_of_endsInput (proper_of_scan h).1

/-- **Which readings end.** Of whatever tokens, as long as there is one: unless they break off, the
reading is over after at most two steps for each of them, with the outcome of the reader. If they
break off, it is never over. It stays at the last token from there on, a text, and takes in that
text once more in each step. -/
theorem reading_ends_unless_broken_off (c : Cursor) :
    (¬BreaksOff c.tokens → ∃ x, (Reader.step^[2 * c.tokens.length] (.start c)).phase = .ended x ∧
      Element.ofTokens c.tokens = x.mapError .refused) ∧
    (BreaksOff c.tokens → Element.ofTokens c.tokens = .error .endless ∧
      (∀ k x, (Reader.step^[k] (.start c)).phase ≠ .ended x) ∧
      ∃ (s : String) (line : Nat) (u : Unclosed) (outer : List Unclosed), ∀ k,
        Reader.step^[c.behind.length + k] (.start c) = ⟨⟨⟨.text s, line⟩, []⟩,
          .content (u.addNodes (List.replicate k (.text s line))) outer⟩) := by
  obtain ⟨us, t, hc⟩ := c.exists_tokens_eq_append
  constructor
  · intro hnot
    obtain ⟨x, hended⟩ | ⟨s, line, u, outer, hstuck⟩ := Reader.ended_or_stuck hc
    · exact ⟨x, hended, ofTokens_of_ended hended⟩
    · rw [Reader.start, Reader.iterate_step_of_append hc, Reader.mk.injEq] at hstuck
      obtain ⟨hlast, hphase⟩ := hstuck
      cases hlast
      rw [hc] at hnot
      exact absurd (breaksOff_iff.2 ⟨s, u, outer, rfl, hphase⟩) hnot
  · intro hbreaks
    rw [hc] at hbreaks
    obtain ⟨s, u, outer, htext, hphase⟩ := breaksOff_iff.1 hbreaks
    obtain ⟨token, line⟩ := t
    cases htext
    have hstays : ∀ k, Reader.step^[us.length + k] (.start c) = ⟨⟨⟨.text s, line⟩, []⟩,
        .content (u.addNodes (List.replicate k (.text s line))) outer⟩ := by
      intro k
      rw [Reader.start, Reader.iterate_step hc, hphase, Phase.iterate_step_text]
    have hstuck : (Reader.step^[us.length + 0] (.start c)).Stuck := by
      rw [hstays]
      exact ⟨s, line, _, outer, rfl⟩
    have hlength : c.behind.length = us.length := by
      have := congrArg List.length hc
      simpa [Cursor.tokens] using this
    rw [hlength]
    exact ⟨ofTokens_of_stuck hstuck, fun _ _ ↦ hstuck.not_ended, s, line, u, outer, hstays⟩

/-- A start tag and a text, and nothing more, are read for ever. With the end of input behind them
the reading ends. -/
theorem reading_ends_unless_broken_off_text :
    let c : Cursor := ⟨⟨.openTag "a", 1⟩, [⟨.tagEnd, 1⟩, ⟨.text "x", 1⟩]⟩
    let ended : Cursor := ⟨c.current, c.behind ++ [⟨.endOfInput, 1⟩]⟩
    (Element.ofTokens c.tokens = .error .endless ∧
        ∀ k x, (Reader.step^[k] (.start c)).phase ≠ .ended x) ∧
      ∃ x, (Reader.step^[8] (.start ended)).phase = .ended x ∧
        Element.ofTokens ended.tokens = x.mapError .refused := by
  intro c ended
  have hspells : Element.Spells (.mk "a" [] [.text "x" 1] 1)
      (c.tokens ++ [⟨.closeTag "a", 1⟩]) :=
    .closed "a" 1 1 1 .nil .nil (.text "x" 1 .nil)
  have hbreaks : BreaksOff c.tokens :=
    ⟨⟨[⟨.openTag "a", 1⟩, ⟨.tagEnd, 1⟩], "x", 1, rfl⟩, _, _, hspells⟩
  obtain ⟨hendless, hnever, -⟩ := (reading_ends_unless_broken_off c).2 hbreaks
  exact ⟨⟨hendless, hnever⟩, (reading_ends_unless_broken_off ended).1
    (not_breaksOff_of_endsInput ⟨c.tokens, 1, rfl⟩)⟩

end LiveTemplate.Markup
