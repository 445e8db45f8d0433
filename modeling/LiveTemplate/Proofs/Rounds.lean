import LiveTemplate.Proofs.Scanning

/-!
# Scanning round by round

The scanner as a loop. Between two rounds it knows whether it is inside a start tag, on which line
it is and what is left of the source (`Scanner`). A round looks at what is left and passes a piece
of it (`Scanner.step`): it gives one token or none, and a token that begins or ends a start tag
turns the flag (`Turns`).

All that a round can do is in `passes_of_step`: the piece is not empty, so the loop always advances
and is over after at most as many rounds as there are characters (`scan_eq_rounds`); and each token
goes with the flag before and after it.
-/

namespace LiveTemplate.Markup

/-- A place in a source text that is scanned. -/
structure Scanner where
  /-- The place is in a start tag, behind its name. -/
  inTag : Bool
  line : Nat
  rest : List Char
  deriving Repr, DecidableEq

namespace Scanner

/-- The beginning of a source text. -/
def start (source : String) : Scanner := ⟨false, 1, source.toList⟩

/-- The tokens from a place on. -/
def scan (s : Scanner) : Except Fault (List Located) :=
  if s.inTag then scanTag s.line s.rest else scanContent s.line s.rest

/-! ### Rounds -/

/-- A round outside the start tags. -/
def contentRound (line : Nat) (s : List Char) : Except Fault (List Located × Scanner) :=
  match s with
  | [] => .ok ([], ⟨false, line, []⟩)
  | '<' :: '!' :: '-' :: '-' :: body =>
    match Text.splitAt? ['-', '-', '>'] body with
    | none => .error ⟨line, .unterminatedComment⟩
    | some (skipped, rest) => .ok ([], ⟨false, line + Text.newlines skipped, rest⟩)
  | '<' :: '?' :: body =>
    match Text.splitAt? ['?', '>'] body with
    | none => .error ⟨line, .unterminatedInstruction⟩
    | some (skipped, rest) => .ok ([], ⟨false, line + Text.newlines skipped, rest⟩)
  | '<' :: '/' :: body =>
    if (nameOf body).isEmpty then .error ⟨line, .missingCloseName⟩
    else
      match (afterName body).dropWhile Text.isBlank with
      | '>' :: rest => .ok ([⟨.closeTag (String.ofList (nameOf body)), line⟩],
          ⟨false, line + Text.newlines ((afterName body).takeWhile Text.isBlank), rest⟩)
      | _ => .error ⟨line, .unendedCloseTag (String.ofList (nameOf body))⟩
  | '<' :: body =>
    if (nameOf body).isEmpty then .error ⟨line, .missingOpenName⟩
    else .ok ([⟨.openTag (String.ofList (nameOf body)), line⟩], ⟨true, line, afterName body⟩)
  | c :: body =>
    (textToken? line (c :: runOf body)).map fun here ↦
      (here, ⟨false, line + Text.newlines (c :: runOf body), afterRun body⟩)

/-- A round in a start tag. -/
def tagRound (line : Nat) (s : List Char) : Except Fault (List Located × Scanner) :=
  match s with
  | [] => .ok ([], ⟨true, line, []⟩)
  | c :: body =>
    if Text.isBlank c then .ok ([], ⟨true, if c = '\n' then line + 1 else line, body⟩)
    else if c = '>' then .ok ([⟨.tagEnd, line⟩], ⟨false, line, body⟩)
    else if c = '/' then
      match body with
      | '>' :: rest => .ok ([⟨.selfClose, line⟩], ⟨false, line, rest⟩)
      | _ => .error ⟨line, .loneSlash⟩
    else if c = '=' then .ok ([⟨.equals, line⟩], ⟨true, line, body⟩)
    else if c = '"' ∨ c = '\x27' then
      (quotedValue line c body).map fun (value, lines, rest) ↦
        ([⟨.attrValue value, line⟩], ⟨true, line + lines, rest.1⟩)
    else if isNameChar c then
      .ok ([⟨.attrName (String.ofList (c :: nameOf body)), line⟩], ⟨true, line, afterName body⟩)
    else .error ⟨line, .strayCharacter c⟩

/-- A round of the loop: the tokens that it gives, and the place that it comes to. With nothing left
there is nothing to do. -/
def step (s : Scanner) : Except Fault (List Located × Scanner) :=
  if s.inTag then tagRound s.line s.rest else contentRound s.line s.rest

/-- Tokens in front of those from a place on. -/
def resume (x : List Located × Scanner) : Except Fault (List Located) :=
  x.2.scan.map (x.1 ++ ·)

@[simp]
theorem scan_outside (line : Nat) (rest : List Char) :
    (Scanner.mk false line rest).scan = scanContent line rest := rfl

@[simp]
theorem scan_inside (line : Nat) (rest : List Char) :
    (Scanner.mk true line rest).scan = scanTag line rest := rfl

theorem bind_resume_nil (s : Scanner) : (.ok ([], s) >>= resume) = s.scan := by
  show s.scan.map _ = _
  cases s.scan <;> rfl

theorem bind_resume (here : List Located) (s : Scanner) : (.ok (here, s) >>= resume) = (do
    let tokens ← s.scan
    pure (here ++ tokens)) := by
  show s.scan.map _ = _
  cases s.scan <;> rfl

theorem bind_resume_singleton (t : Located) (s : Scanner) : (.ok ([t], s) >>= resume) = (do
    let tokens ← s.scan
    pure (t :: tokens)) := bind_resume [t] s

theorem scanContent_eq_contentRound {line : Nat} {s : List Char} (hs : s ≠ []) :
    scanContent line s = contentRound line s >>= resume := by
  rw [scanContent.eq_def]
  split
  case h_1 => exact absurd rfl hs
  case h_2 body =>
    rw [contentRound.eq_def]
    simp only []
    split
    next hcut =>
      rw [hcut]
      rfl
    next skipped rest hcut => simp only [hcut, bind_resume_nil, scan_outside]
  case h_3 body =>
    rw [contentRound.eq_def]
    simp only []
    split
    next hcut =>
      rw [hcut]
      rfl
    next skipped rest hcut => simp only [hcut, bind_resume_nil, scan_outside]
  case h_4 body =>
    rw [contentRound.eq_def]
    simp only []
    split
    · rfl
    split
    next rest hdrop => simp only [hdrop, bind_resume_singleton, scan_outside]
    next hne =>
      split
      next rest hdrop => exact absurd hdrop (hne rest)
      next => rfl
  case h_5 body hcomment hinstruction hclose =>
    rw [contentRound.eq_def]
    split
    case h_5 body' _ _ _ heq =>
      cases heq
      dsimp only
      split
      · rfl
      · simp only [bind_resume_singleton, scan_inside]
    case h_1 heq => cases heq
    case h_2 heq => exact (hcomment _ (List.cons.inj heq).2).elim
    case h_3 heq => exact (hinstruction _ (List.cons.inj heq).2).elim
    case h_4 heq => exact (hclose _ (List.cons.inj heq).2).elim
    case h_6 hopen heq => exact (hopen (List.cons.inj heq).1.symm).elim
  case h_6 c body hcomment hinstruction hclose hopen =>
    rw [contentRound.eq_def]
    split
    case h_6 heq =>
      cases heq
      dsimp only
      cases textToken? line (c :: runOf body) with
      | error fault => rfl
      | ok here => exact (bind_resume here ⟨false, _, afterRun body⟩).symm
    case h_1 heq => cases heq
    case h_2 heq => exact (hcomment _ (List.cons.inj heq).1 (List.cons.inj heq).2).elim
    case h_3 heq => exact (hinstruction _ (List.cons.inj heq).1 (List.cons.inj heq).2).elim
    case h_4 heq => exact (hclose _ (List.cons.inj heq).1 (List.cons.inj heq).2).elim
    case h_5 heq => exact (hopen (List.cons.inj heq).1).elim

theorem scanTag_eq_tagRound {line : Nat} {s : List Char} (hs : s ≠ []) :
    scanTag line s = tagRound line s >>= resume := by
  rw [scanTag.eq_def, tagRound.eq_def]
  split
  case h_1 => exact absurd rfl hs
  case h_2 c body =>
    dsimp only
    split
    · rw [bind_resume_nil, scan_inside]
    split
    · rw [bind_resume_singleton, scan_outside]
    split
    · rcases body with _ | ⟨d, rest⟩
      · rfl
      by_cases hd : d = '>'
      · subst hd
        exact (bind_resume_singleton ⟨.selfClose, line⟩ ⟨false, line, rest⟩).symm
      · simp only [List.cons.injEq, hd, false_and, imp_self, implies_true]
        rfl
    split
    · rw [bind_resume_singleton, scan_inside]
    split
    · cases quotedValue line c body with
      | error fault => rfl
      | ok value =>
        obtain ⟨value, lines, rest⟩ := value
        exact (bind_resume_singleton ⟨.attrValue value, line⟩ ⟨true, line + lines, rest.1⟩).symm
    split
    · rw [bind_resume_singleton, scan_inside]
    · rfl

/-- **A scan is a round, and a scan of what the round leaves.** -/
theorem scan_eq_step {s : Scanner} (hs : s.rest ≠ []) : s.scan = s.step >>= resume := by
  unfold scan step
  split
  · exact scanTag_eq_tagRound hs
  · exact scanContent_eq_contentRound hs

theorem exists_of_scan {s : Scanner} (hs : s.rest ≠ []) {ts : List Located}
    (h : s.scan = .ok ts) : ∃ here next more, s.step = .ok (here, next) ∧ next.scan = .ok more ∧
      ts = here ++ more := by
  rw [scan_eq_step hs] at h
  cases hstep : s.step with
  | error fault =>
    rw [hstep] at h
    cases h
  | ok x =>
    obtain ⟨here, next⟩ := x
    rw [hstep, bind_resume] at h
    cases hnext : next.scan with
    | error fault =>
      rw [hnext] at h
      cases h
    | ok more =>
      rw [hnext] at h
      cases h
      exact ⟨here, next, more, rfl, hnext, rfl⟩

end Scanner

/-! ### What a round can do -/

/-- What the flag is before a token and behind it, for each token that there can be. -/
inductive Token.Turns : Bool → Token → Bool → Prop
  | text {content : String} (h : content ≠ "") : Turns false (.text content) false
  | closeTag {name : String} (h : IsName name) : Turns false (.closeTag name) false
  | openTag {name : String} (h : IsName name) : Turns false (.openTag name) true
  | attrName {name : String} (h : IsName name) : Turns true (.attrName name) true
  | equals : Turns true .equals true
  | attrValue (value : String) : Turns true (.attrValue value) true
  | tagEnd : Turns true .tagEnd false
  | selfClose : Turns true .selfClose false

namespace Scanner

/-- The second place is further on than the first, by a piece of the source that is not empty and
has at most one token. -/
structure Passes (s : Scanner) (here : List Located) (s' : Scanner) : Prop where
  piece : ∃ piece, piece ≠ [] ∧ s.rest = piece ++ s'.rest
  turns : here = [] ∧ s'.inTag = s.inTag ∨ ∃ t, here = [t] ∧ t.token.Turns s.inTag s'.inTag

variable {line : Nat} {s : List Char} {here : List Located} {s' : Scanner}

theorem passes_of_contentRound (hs : s ≠ []) (h : contentRound line s = .ok (here, s')) :
    Passes ⟨false, line, s⟩ here s' := by
  rw [contentRound.eq_def] at h
  split at h
  case h_1 => exact absurd rfl hs
  case h_2 body =>
    split at h
    · cases h
    next skipped rest hcut =>
      cases h
      obtain ⟨rfl, -⟩ := Text.eq_of_splitAt? (by decide) hcut
      exact ⟨⟨['<', '!', '-', '-'] ++ (skipped ++ ['-', '-', '>']), by simp, by simp⟩,
        .inl ⟨rfl, rfl⟩⟩
  case h_3 body =>
    split at h
    · cases h
    next skipped rest hcut =>
      cases h
      obtain ⟨rfl, -⟩ := Text.eq_of_splitAt? (by decide) hcut
      exact ⟨⟨['<', '?'] ++ (skipped ++ ['?', '>']), by simp, by simp⟩, .inl ⟨rfl, rfl⟩⟩
  case h_4 body =>
    split at h
    · cases h
    next hne =>
      split at h
      next rest hdrop =>
        cases h
        have hbody : body = nameOf body ++
            ((afterName body).takeWhile Text.isBlank ++ '>' :: rest) := by
          rw [← hdrop, List.takeWhile_append_dropWhile, nameOf, afterName,
            List.takeWhile_append_dropWhile]
        refine ⟨⟨['<', '/'] ++ (nameOf body ++ ((afterName body).takeWhile Text.isBlank ++ ['>'])),
          by simp, ?_⟩, .inr ⟨_, rfl, .closeTag (isName_nameOf (by simpa using hne))⟩⟩
        dsimp only
        conv_lhs => rw [hbody]
        simp
      · cases h
  case h_5 body _ _ _ =>
    split at h
    · cases h
    next hne =>
      cases h
      exact ⟨⟨'<' :: nameOf body, by simp, by simp [nameOf, afterName]⟩,
        .inr ⟨_, rfl, .openTag (isName_nameOf (by simpa using hne))⟩⟩
  case h_6 c body _ _ _ _ =>
    cases htext : textToken? line (c :: runOf body) with
    | error fault =>
      rw [htext] at h
      cases h
    | ok tokens =>
      rw [htext] at h
      cases h
      refine ⟨⟨c :: runOf body, by simp, by simp [runOf, afterRun]⟩, ?_⟩
      obtain rfl | ⟨t, content, rfl, ht, hne⟩ := textToken?_eq_ok htext
      · exact .inl ⟨rfl, rfl⟩
      · exact .inr ⟨t, rfl, ht ▸ .text hne⟩

theorem passes_of_tagRound (hs : s ≠ []) (h : tagRound line s = .ok (here, s')) :
    Passes ⟨true, line, s⟩ here s' := by
  rw [tagRound.eq_def] at h
  split at h
  case h_1 => exact absurd rfl hs
  case h_2 c body =>
    have hone : ∀ {line' : Nat} {b : Bool},
        (here = [] ∧ b = true ∨ ∃ t, here = [t] ∧ t.token.Turns true b) →
          Passes ⟨true, line, c :: body⟩ here ⟨b, line', body⟩ := fun hturns ↦
      ⟨⟨[c], by simp, rfl⟩, hturns⟩
    split at h
    · cases h
      exact hone (.inl ⟨rfl, rfl⟩)
    split at h
    · cases h
      exact hone (.inr ⟨_, rfl, .tagEnd⟩)
    split at h
    · split at h
      · cases h
        exact ⟨⟨[c, '>'], by simp, rfl⟩, .inr ⟨_, rfl, .selfClose⟩⟩
      · cases h
    split at h
    · cases h
      exact hone (.inr ⟨_, rfl, .equals⟩)
    split at h
    · cases hvalue : quotedValue line c body with
      | error fault =>
        rw [hvalue] at h
        cases h
      | ok value =>
        obtain ⟨value, lines, rest⟩ := value
        rw [hvalue] at h
        cases h
        obtain ⟨raw, content, hbody, -⟩ := eq_of_quotedValue hvalue
        refine ⟨⟨c :: (raw ++ [c]), by simp, ?_⟩, .inr ⟨_, rfl, .attrValue _⟩⟩
        simpa using hbody
    split at h
    next hc =>
      cases h
      refine ⟨⟨c :: nameOf body, by simp, by simp [nameOf, afterName]⟩, .inr ⟨_, rfl, .attrName ?_⟩⟩
      exact isName_ofList (by simp) fun d hd ↦
        (List.mem_cons.1 hd).elim (· ▸ hc) isNameChar_of_mem_nameOf
    · cases h

/-- **What a round can do.** It passes a piece of the source, and gives a token or none. -/
theorem passes_of_step {s s' : Scanner} (hs : s.rest ≠ []) (h : s.step = .ok (here, s')) :
    s.Passes here s' := by
  obtain ⟨inTag, line, rest⟩ := s
  rcases inTag with _ | _
  · exact passes_of_contentRound hs h
  · exact passes_of_tagRound hs h

/-- **Every round advances.** -/
theorem Passes.length_lt {s s' : Scanner} (h : s.Passes here s') :
    s'.rest.length < s.rest.length := by
  obtain ⟨piece, hne, hrest⟩ := h.piece
  have := List.length_pos_iff.2 hne
  rw [hrest, List.length_append]
  omega

/-! ### The loop -/

/-- So many rounds: all the tokens that they give, and the place that they come to. -/
def rounds : Nat → Scanner → Except Fault (List Located × Scanner)
  | 0, s => .ok ([], s)
  | k + 1, s => do
    let (here, next) ← s.step
    let (more, last) ← rounds k next
    pure (here ++ more, last)

/-- The end of the input behind the tokens, unless it is in a start tag. -/
def finish (x : List Located × Scanner) : Except Fault (List Located) :=
  if x.2.inTag then .error ⟨x.2.line, .unterminatedTag⟩
  else .ok (x.1 ++ [⟨.endOfInput, x.2.line⟩])

theorem step_of_rest_eq_nil {s : Scanner} (hs : s.rest = []) : s.step = .ok ([], s) := by
  obtain ⟨inTag, line, rest⟩ := s
  obtain rfl : rest = [] := hs
  rcases inTag with _ | _
  · rfl
  · rfl

theorem scan_of_rest_eq_nil {s : Scanner} (hs : s.rest = []) : s.scan = finish ([], s) := by
  obtain ⟨inTag, line, rest⟩ := s
  obtain rfl : rest = [] := hs
  rcases inTag with _ | _
  · exact scanContent_nil
  · rw [scan_inside, scanTag.eq_def]
    rfl

theorem finish_append (here more : List Located) (s : Scanner) :
    (finish (more, s)).map (here ++ ·) = finish (here ++ more, s) := by
  rw [finish, finish]
  split
  · rfl
  · rw [List.append_assoc]
    rfl

/-- **A scan is a loop of rounds**, which is over after at most as many as there are characters. -/
theorem scan_eq_rounds (k : Nat) {s : Scanner} (hk : s.rest.length ≤ k) :
    s.scan = s.rounds k >>= finish := by
  induction k generalizing s with
  | zero => exact scan_of_rest_eq_nil (List.length_eq_zero_iff.1 (Nat.le_zero.1 hk))
  | succ k ih =>
    rw [rounds]
    by_cases hs : s.rest = []
    · have hloop := ih (s := s) (by rw [hs]; exact Nat.zero_le k)
      rw [step_of_rest_eq_nil hs, hloop]
      show _ = (s.rounds k >>= fun x ↦ .ok (x.1, x.2)) >>= finish
      cases s.rounds k <;> rfl
    · rw [scan_eq_step hs]
      cases hstep : s.step with
      | error fault => rfl
      | ok x =>
        obtain ⟨here, next⟩ := x
        have hlt := (passes_of_step hs hstep).length_lt
        have hloop := ih (s := next) (by omega)
        show (next.scan.map (here ++ ·)) =
          (next.rounds k >>= fun x ↦ .ok (here ++ x.1, x.2)) >>= finish
        rw [hloop]
        cases next.rounds k with
        | error fault => rfl
        | ok y => exact finish_append here y.1 y.2

end Scanner

/-! ### Shape -/

/-- Tokens along which the flag is turned, from what it is at first, up to the end of input outside
the start tags. -/
inductive Shaped : Bool → List Token → Prop
  | endOfInput : Shaped false [.endOfInput]
  | cons {t : Token} {ts : List Token} {b b' : Bool} (h : t.Turns b b') (hrest : Shaped b' ts) :
      Shaped b (t :: ts)

theorem Shaped.of_cons {inTag : Bool} {t : Token} {ts : List Token} (h : Shaped inTag (t :: ts)) :
    inTag = false ∧ t = .endOfInput ∧ ts = [] ∨ ∃ b, t.Turns inTag b ∧ Shaped b ts := by
  cases h with
  | endOfInput => exact .inl ⟨rfl, rfl, rfl⟩
  | cons h hrest => exact .inr ⟨_, h, hrest⟩

theorem Shaped.ne_nil {inTag : Bool} {ts : List Token} (h : Shaped inTag ts) : ts ≠ [] := by
  cases h <;> exact List.cons_ne_nil _ _

/-- **What is scanned is shaped**, from any place of a source text on. -/
theorem Scanner.shaped_of_scan {s : Scanner} {ts : List Located} (h : s.scan = .ok ts) :
    Shaped s.inTag (ts.map (·.token)) := by
  induction hn : s.rest.length using Nat.strongRecOn generalizing s ts with
  | _ n ih =>
    by_cases hs : s.rest = []
    · rw [scan_of_rest_eq_nil hs, finish] at h
      split at h
      · cases h
      next hout =>
        cases h
        rw [Bool.not_eq_true] at hout
        exact hout ▸ .endOfInput
    · obtain ⟨here, next, more, hstep, hnext, rfl⟩ := exists_of_scan hs h
      have hpasses := passes_of_step hs hstep
      have hmore := ih _ (hn ▸ hpasses.length_lt) hnext rfl
      obtain ⟨rfl, hflag⟩ | ⟨t, rfl, hturns⟩ := hpasses.turns
      · exact hflag ▸ hmore
      · exact .cons hturns hmore

theorem Shaped.proper {inTag : Bool} {ts : List Token} (h : Shaped inTag ts) :
    ∀ t ∈ ts, t.Proper := by
  induction h with
  | endOfInput => exact List.forall_mem_cons.2 ⟨trivial, nofun⟩
  | cons h _ ih =>
    refine List.forall_mem_cons.2 ⟨?_, ih⟩
    cases h with
    | text hne => exact hne
    | closeTag hname => exact hname
    | openTag hname => exact hname
    | attrName hname => exact hname
    | _ => trivial

theorem Shaped.exists_concat {inTag : Bool} {ts : List Token} (h : Shaped inTag ts) :
    ∃ us, ts = us ++ [.endOfInput] := by
  induction h with
  | endOfInput => exact ⟨[], rfl⟩
  | @cons t _ _ _ _ _ ih =>
    obtain ⟨us, rfl⟩ := ih
    exact ⟨t :: us, rfl⟩

theorem shaped_of_scan {source : String} {ts : List Located} (h : Token.scan source = .ok ts) :
    Shaped false (ts.map (·.token)) :=
  Scanner.shaped_of_scan (s := .start source) h

/-- **Every token that is scanned is proper**, and the end of input is the last. -/
theorem proper_of_scan {source : String} {ts : List Located} (h : Token.scan source = .ok ts) :
    EndsInput ts ∧ ∀ t ∈ ts, t.token.Proper := by
  have hshaped := shaped_of_scan h
  refine ⟨?_, fun t ht ↦ hshaped.proper _ (List.mem_map_of_mem ht)⟩
  obtain ⟨us, hus⟩ := hshaped.exists_concat
  obtain ⟨vs, ws, rfl, -, hws⟩ := List.map_eq_append_iff.1 hus
  obtain ⟨⟨token, line⟩, rfl, hend⟩ := List.map_eq_singleton_iff.1 hws
  obtain rfl : token = .endOfInput := hend
  exact ⟨vs, line, rfl⟩

end LiveTemplate.Markup
