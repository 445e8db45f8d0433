import LiveTemplate.Proofs.Installation
import LiveTemplate.Proofs.Scoping

/-!
# Misuses and their places

A template either denotes a document, whose global state is published once it is in use, or there is
a problem with one of its elements, and the problem says where that element is
(`ofElement_published_or_located`).

Every reader of elements is given an element of the tree and goes on to elements inside it, so each
of them fails at an element of the tree only (`Locates`, with one lemma for each reader). Some of
what is refused is refused by those who put predicates, global states and interactions together;
what they say is passed on with the place in front of it (`Relays`).
-/

namespace LiveTemplate

namespace Markup

/-- The elements of a tree. -/
inductive Element.Inside (root : Element) : Element → Prop
  | itself : Inside root root
  | child {e c : Element} (h : Inside root e) (hc : .element c ∈ e.children) : Inside root c

theorem Element.Inside.elements {root e c : Element} (h : root.Inside e) (hc : c ∈ e.elements) :
    root.Inside c := by
  obtain ⟨n, hn, hnode⟩ := List.mem_filterMap.1 hc
  cases n with
  | element c' =>
    obtain rfl := Option.some.inj hnode
    exact h.child hn
  | text s line => cases hnode

end Markup

namespace Template

open Markup

/-! ### Located problems -/

/-- A problem with an element of a tree, which names the file and the line of the element. -/
inductive Located (file : String) (root : Element) : Problem → Prop
  | misused {e : Element} (h : root.Inside e) (misuse : Misuse) :
      Located file root (.misused file e.line e.name misuse)
  | repeated {e : Element} (h : root.Inside e) (what : Declaration) (name : String) :
      Located file root (.repeatedInTemplate file e.line what name)

/-- The file and the line of an element, as they stand in front of what is said of it. -/
def place (file : String) (e : Element) : String := file ++ ":" ++ toString e.line ++ ": "

variable {file : String} {root e : Element}

/-- The place and the name of an element, as they stand in front of how it is misused. -/
def front (file : String) (e : Element) : String := place file e ++ "<" ++ e.name ++ ">: "

theorem message_misused (file : String) (e : Element) (misuse : Misuse) :
    (Problem.misused file e.line e.name misuse).message = front file e ++ misuse.message := by
  have hmark : ": <" = ": " ++ "<" := by decide
  unfold Problem.message front place
  simp only [hmark, String.append_assoc]

theorem message_repeatedInTemplate (file : String) (e : Element) (what : Declaration)
    (name : String) :
    (Problem.repeatedInTemplate file e.line what name).message =
      place file e ++ (Problem.repeatedDeclaration what name).message := by
  unfold Problem.message place
  simp only [String.append_assoc]

/-- **A located problem is fatal, comes from the template, and begins with its place.** -/
theorem Located.says {p : Problem} (h : Located file root p) :
    p.severity = .fatal ∧ p.source = "template" ∧
      ∃ e text, root.Inside e ∧ p.message = place file e ++ text := by
  cases h with
  | @misused e h misuse =>
    refine ⟨rfl, rfl, e, "<" ++ e.name ++ ">: " ++ misuse.message, h, ?_⟩
    rw [message_misused, front]
    simp only [String.append_assoc]
  | repeated h what name => exact ⟨rfl, rfl, _, _, h, message_repeatedInTemplate _ _ _ _⟩

/-- Whether a reading fails with located problems only. -/
def Locates {α : Type} (file : String) (root : Element) (x : Except Problem α) : Prop :=
  ∀ p, x = .error p → Located file root p

namespace Locates

variable {α β : Type} {x : Except Problem α}

theorem ok (a : α) : Locates file root (.ok a) := fun _ h ↦ nomatch h

theorem bind {f : α → Except Problem β} (hx : Locates file root x)
    (hf : ∀ a, x = .ok a → Locates file root (f a)) : Locates file root (x >>= f) := by
  cases x with
  | error q => exact fun p h ↦ hx p (by cases h; rfl)
  | ok a => exact hf a rfl

theorem map (f : α → β) (hx : Locates file root x) : Locates file root (x.map f) := by
  cases x with
  | error q => exact fun p h ↦ hx p (by cases h; rfl)
  | ok a => exact ok (f a)

theorem mapM {items : List α} {f : α → Except Problem β}
    (h : ∀ item ∈ items, Locates file root (f item)) : Locates file root (items.mapM f) := by
  induction items with
  | nil => exact ok []
  | cons item items ih =>
    rw [List.forall_mem_cons] at h
    rw [List.mapM_cons]
    exact h.1.bind fun _ _ ↦ (ih h.2).bind fun _ _ ↦ ok _

theorem foldlM {items : List α} {f : β → α → Except Problem β}
    (h : ∀ item ∈ items, ∀ b, Locates file root (f b item)) (b : β) :
    Locates file root (items.foldlM f b) := by
  induction items generalizing b with
  | nil => exact ok b
  | cons item items ih =>
    rw [List.forall_mem_cons] at h
    rw [List.foldlM_cons]
    exact (h.1 b).bind fun b _ ↦ ih h.2 b

end Locates

/-- What each step of a fold keeps is so at its end. -/
theorem invariant_of_foldlM {α β : Type} {I : β → Prop} {items : List α}
    {f : β → α → Except Problem β} {b final : β} (hb : I b)
    (hstep : ∀ item ∈ items, ∀ before after, I before → f before item = .ok after → I after)
    (h : items.foldlM f b = .ok final) : I final := by
  induction items generalizing b with
  | nil =>
    cases h
    exact hb
  | cons item items ih =>
    rw [List.foldlM_cons] at h
    obtain ⟨next, hnext, h⟩ := Engine.World.exists_of_bind_eq_ok h
    rw [List.forall_mem_cons] at hstep
    exact ih (hstep.1 b next hb hnext) hstep.2 h

/-! ### Readers fail at the element they read -/

namespace Scope

variable {s : Scope} {α : Type}

theorem locates_refuse (h : root.Inside e) (misuse : Misuse) :
    Locates s.file root (s.refuse e misuse : Except Problem α) := by
  rintro p hp
  cases hp
  exact .misused h misuse

theorem locates_expect (h : root.Inside e) (misuse : Misuse) (found : Option α) :
    Locates s.file root (s.expect e misuse found) := by
  cases found with
  | some a => exact .ok a
  | none => exact locates_refuse h misuse

theorem locates_attr (h : root.Inside e) (key : String) : Locates s.file root (s.attr e key) :=
  locates_expect h _ _

theorem locates_elements (h : root.Inside e) : Locates s.file root (s.elements e) := by
  unfold elements
  split
  · exact locates_refuse h _
  · exact .ok _

theorem locates_wrongCount (h : root.Inside e) (expected : Nat) :
    Locates s.file root (s.wrongCount e expected : Except Problem α) := by
  unfold wrongCount
  split <;> exact locates_refuse h _

theorem locates_childless (h : root.Inside e) : Locates s.file root (s.childless e) := by
  unfold childless
  split
  · exact .ok ()
  · exact locates_wrongCount h 0

theorem eq_elements {items : List Element} (h : s.elements e = .ok items) : items = e.elements := by
  unfold elements at h
  split at h
  · cases h
  · exact (Except.ok.inj h).symm

/-! ### Literals, references and maps of values -/

theorem locates_scalar (h : root.Inside e) (read : String → Option Payload) :
    Locates s.file root (s.scalar e read) := by
  unfold scalar
  split
  · exact locates_expect h _ _
  · exact locates_refuse h _

theorem locates_strings (h : root.Inside e) : Locates s.file root (s.strings e) := by
  refine (locates_elements h).bind fun items hitems ↦ .mapM fun item hitem ↦ ?_
  have hinside := h.elements (eq_elements hitems ▸ hitem)
  split
  · exact .ok _
  · exact locates_refuse hinside _

theorem locates_integers (h : root.Inside e) : Locates s.file root (s.integers e) := by
  refine (locates_elements h).bind fun items hitems ↦ .mapM fun item hitem ↦ ?_
  have hinside := h.elements (eq_elements hitems ▸ hitem)
  split
  · exact locates_expect hinside _ _
  · exact locates_refuse hinside _

theorem locates_integerAttr (h : root.Inside e) (key : String) :
    Locates s.file root (s.integerAttr e key) :=
  (locates_attr h key).bind fun _ _ ↦ locates_expect h _ _

theorem locates_literal (h : root.Inside e) : Locates s.file root (s.literal e) := by
  unfold literal
  split
  · exact (locates_childless h).map _
  · exact locates_scalar h _
  · exact locates_scalar h _
  · exact locates_scalar h _
  · exact locates_scalar h _
  · refine (locates_childless h).bind fun _ _ ↦ (locates_integerAttr h _).bind fun _ _ ↦ ?_
    dsimp only
    split
    · exact (locates_integerAttr h _).bind fun _ _ ↦ .ok _
    · exact .ok _
  · exact (locates_strings h).map _
  · exact (locates_strings h).map _
  · exact (locates_integers h).map _
  · exact (locates_integers h).map _
  · exact locates_refuse h _

theorem locates_globalRef (h : root.Inside e) : Locates s.file root (s.globalRef e) := by
  refine (locates_childless h).bind fun _ _ ↦ (locates_attr h _).bind fun _ _ ↦ ?_
  split
  · exact .ok _
  · exact locates_refuse h _

theorem locates_reference (h : root.Inside e) : Locates s.file root (s.reference e) := by
  unfold reference
  split
  · exact (locates_globalRef h).map _
  · exact (locates_childless h).bind fun _ _ ↦ (locates_attr h _).bind fun _ _ ↦ .ok _
  · exact (locates_literal h).map _

theorem locates_entry {read : Element → Except Problem α}
    (hread : ∀ c, root.Inside c → Locates s.file root (read c)) (h : root.Inside e) :
    Locates s.file root (s.entry read e) := by
  unfold entry
  split
  · refine (locates_attr h _).bind fun key _ ↦ ?_
    split
    · rename_i inner hchildren
      exact (hread inner (h.child (by simp [hchildren]))).map _
    · exact locates_wrongCount h 1
  · exact locates_refuse h _

theorem locates_watched (h : root.Inside e) : Locates s.file root (s.watched e) := by
  unfold watched
  split
  · exact (locates_globalRef h).map _
  · exact (locates_literal h).map _

theorem locates_valueMap (h : root.Inside e) : Locates s.file root (s.valueMap e) := by
  unfold valueMap
  split
  · refine (locates_elements h).bind fun items hitems ↦ .foldlM (fun item hitem m ↦ ?_) _
    have hinside := h.elements (eq_elements hitems ▸ hitem)
    refine (locates_entry (fun _ ↦ locates_watched) hinside).bind fun _ _ ↦ ?_
    dsimp only
    split
    · exact locates_refuse hinside _
    · exact .ok _
  · exact locates_refuse h _

/-! ### Predicates and updates -/

theorem locates_window (h : root.Inside e) : Locates s.file root (s.window e) := by
  unfold window
  split
  · exact locates_expect h _ _
  · exact .ok _

theorem locates_operands (h : root.Inside e) : Locates s.file root (s.operands e) := by
  unfold operands
  split
  · rename_i left right hchildren
    have hleft : root.Inside left := h.child (by simp [hchildren])
    have hright : root.Inside right := h.child (by simp [hchildren])
    exact (locates_reference hleft).bind fun _ _ ↦ (locates_reference hright).bind fun _ _ ↦ .ok _
  · exact locates_wrongCount h 2

mutual

/-- **A predicate fails at an element of its tree.** -/
theorem locates_predicate : ∀ {e : Element}, root.Inside e → Locates s.file root (s.predicate e)
  | .mk name attrs children line, h => by
    have hinside : ∀ c, Node.element c ∈ children → root.Inside c := fun _ hc ↦ h.child hc
    unfold predicate
    split
    · exact (locates_operands h).map _
    · split
      · exact (locates_childless h).map _
      · exact (locates_childless h).map _
      · split
        · exact (locates_predicate (hinside _ List.mem_cons_self)).map _
        · exact locates_wrongCount h 1
      · refine (locates_elements h).bind fun _ _ ↦ (locates_predicates hinside).bind fun _ _ ↦ ?_
        split
        · exact locates_refuse h _
        · exact .ok _
      · refine (locates_elements h).bind fun _ _ ↦ (locates_predicates hinside).bind fun _ _ ↦ ?_
        split
        · exact locates_refuse h _
        · exact .ok _
      · split
        · refine (locates_window h).bind fun _ _ ↦ ?_
          exact (locates_reference (hinside _ List.mem_cons_self)).bind fun _ _ ↦ .ok _
        · exact locates_wrongCount h 1
      · exact locates_refuse h _

theorem locates_predicates : ∀ {children : List Node},
    (∀ c, .element c ∈ children → root.Inside c) → Locates s.file root (s.predicates children)
  | [], _ => .ok []
  | .element e :: rest, h => by
    rw [predicates]
    exact (locates_predicate (h e List.mem_cons_self)).bind fun _ _ ↦
      (locates_predicates fun c hc ↦ h c (List.mem_cons_of_mem _ hc)).bind fun _ _ ↦ .ok _
  | .text _ _ :: rest, h => by
    rw [predicates]
    exact locates_predicates fun c hc ↦ h c (List.mem_cons_of_mem _ hc)

end

mutual

/-- **An update fails at an element of its tree.** -/
theorem locates_update : ∀ {e : Element}, root.Inside e → Locates s.file root (s.update e)
  | .mk name attrs children line, h => by
    have hinside : ∀ c, Node.element c ∈ children → root.Inside c := fun _ hc ↦ h.child hc
    unfold update
    split
    · exact (locates_operands h).map _
    · split
      · refine (locates_elements h).bind fun items hitems ↦ ?_
        have htargets : Locates s.file root (items.mapM s.reference) := .mapM fun item hitem ↦
          locates_reference (h.elements (eq_elements hitems ▸ hitem))
        refine htargets.bind fun _ _ ↦ ?_
        split
        · exact locates_refuse h _
        · exact .ok _
      · exact (locates_elements h).bind fun _ _ ↦ (locates_updates hinside).bind fun _ _ ↦ .ok _
      · refine (locates_elements h).bind fun items _ ↦ ?_
        split
        -- An `if` with a `then` only, one with an `else`, and one of another shape.
        · rename_i condition thenName thenAttrs thenChildren thenLine _
          have hthen := hinside (.mk thenName thenAttrs thenChildren thenLine) (by simp)
          have hupdates : ∀ c, .element c ∈ thenChildren → root.Inside c := fun _ ↦ hthen.child
          refine (locates_predicate (hinside condition (by simp))).bind fun _ _ ↦ ?_
          split
          · refine (locates_elements hthen).bind fun _ _ ↦ ?_
            exact (locates_updates hupdates).bind fun _ _ ↦ .ok _
          · exact locates_refuse hthen _
        · rename_i condition thenName thenAttrs thenChildren thenLine elseName elseAttrs
            elseChildren elseLine _
          have hthen := hinside (.mk thenName thenAttrs thenChildren thenLine) (by simp)
          have helse := hinside (.mk elseName elseAttrs elseChildren elseLine) (by simp)
          have hupdates : ∀ c, .element c ∈ thenChildren → root.Inside c := fun _ ↦ hthen.child
          have hothers : ∀ c, .element c ∈ elseChildren → root.Inside c := fun _ ↦ helse.child
          refine (locates_predicate (hinside condition (by simp))).bind fun _ _ ↦ ?_
          split
          · refine (locates_elements hthen).bind fun _ _ ↦ ?_
            refine (locates_updates hupdates).bind fun _ _ ↦ ?_
            split
            · refine (locates_elements helse).bind fun _ _ ↦ ?_
              exact (locates_updates hothers).bind fun _ _ ↦ .ok _
            · exact locates_refuse helse _
          · exact locates_refuse hthen _
        · exact locates_refuse h _
      · refine (locates_elements h).bind fun _ _ ↦ (locates_cases hinside).bind fun _ _ ↦ ?_
        split
        · exact locates_refuse h _
        · exact .ok _
      · exact locates_refuse h _

theorem locates_updates : ∀ {children : List Node},
    (∀ c, .element c ∈ children → root.Inside c) → Locates s.file root (s.updates children)
  | [], _ => .ok []
  | .element e :: rest, h => by
    rw [updates]
    exact (locates_update (h e List.mem_cons_self)).bind fun _ _ ↦
      (locates_updates fun c hc ↦ h c (List.mem_cons_of_mem _ hc)).bind fun _ _ ↦ .ok _
  | .text _ _ :: rest, h => by
    rw [updates]
    exact locates_updates fun c hc ↦ h c (List.mem_cons_of_mem _ hc)

theorem locates_cases : ∀ {children : List Node},
    (∀ c, .element c ∈ children → root.Inside c) → Locates s.file root (s.cases children)
  | [], _ => .ok []
  | .element (.mk name attrs children line) :: rest, h => by
    have he := h _ List.mem_cons_self
    have hrest : ∀ c, Node.element c ∈ rest → root.Inside c :=
      fun c hc ↦ h c (List.mem_cons_of_mem _ hc)
    have hothers : ∀ c : Case Payload, Locates s.file root (do
        let cs ← s.cases rest
        pure (c :: cs)) := fun c ↦ (locates_cases hrest).bind fun _ _ ↦ .ok _
    unfold cases
    dsimp only
    split
    · refine (locates_elements he).bind fun _ _ ↦ ?_
      split
      · refine (locates_predicate (he.child List.mem_cons_self)).bind fun _ _ ↦ ?_
        refine (locates_updates fun c hc ↦ he.child (List.mem_cons_of_mem _ hc)).bind fun _ _ ↦ ?_
        exact hothers _
      · exact (locates_refuse he _).bind fun c _ ↦ hothers c
    · exact (locates_refuse he _).bind fun c _ ↦ hothers c
  | .text _ _ :: rest, h => by
    rw [cases]
    exact locates_cases fun c hc ↦ h c (List.mem_cons_of_mem _ hc)

end

/-! ### Declarations and sections -/

theorem locates_addGlobal (globals : OrderedMap Payload) (h : root.Inside e) :
    Locates s.file root (s.addGlobal globals e) := by
  refine (locates_entry (fun _ ↦ locates_literal) h).bind fun _ _ ↦ ?_
  dsimp only
  split
  · exact locates_refuse h _
  · exact .ok _

theorem locates_globalState (h : root.Inside e) : Locates s.file root (s.globalState e) := by
  refine (locates_elements h).bind fun items hitems ↦ .foldlM (fun item hitem globals ↦ ?_) _
  have hinside := h.elements (eq_elements hitems ▸ hitem)
  split
  · refine (locates_elements hinside).bind fun entries hentries ↦ .foldlM (fun c hc m ↦ ?_) _
    exact locates_addGlobal m (hinside.elements (eq_elements hentries ▸ hc))
  · exact locates_addGlobal globals hinside
  · exact locates_refuse hinside _

theorem locates_action (h : root.Inside e) : Locates s.file root (s.action e) := by
  refine (locates_attr h _).bind fun _ _ ↦ (locates_attr h _).bind fun _ _ ↦ ?_
  refine (locates_elements h).bind fun _ _ ↦ ?_
  exact (locates_updates fun _ ↦ h.child).bind fun _ _ ↦ .ok _

theorem locates_reaction (h : root.Inside e) : Locates s.file root (s.reaction e) := by
  refine (locates_attr h _).bind fun _ _ ↦ (locates_attr h _).bind fun _ _ ↦ ?_
  split
  · rename_i child hchildren
    exact (locates_predicate (h.child (by simp [hchildren]))).map _
  · exact locates_wrongCount h 1

theorem locates_watch (h : root.Inside e) : Locates s.file root (s.watch e) := by
  refine (locates_attr h _).bind fun _ _ ↦ ?_
  split
  · rename_i child hchildren
    exact (locates_valueMap (h.child (by simp [hchildren]))).map _
  · exact locates_wrongCount h 1

/-- All that an element declares, whether some of it is declared before or not. -/
def declared (s : Scope) (e : Element) : Except Problem (Interactions Payload Watched) := do
  let items ← s.elements e
  items.foldlM (fun (i : Interactions Payload Watched) item =>
    match item.name with
    | "action" => (s.action item).map fun a => { i with actions := i.actions ++ [a] }
    | "reaction" => (s.reaction item).map fun r => { i with reactions := i.reactions ++ [r] }
    | "watch" => (s.watch item).map fun w => { i with watches := i.watches ++ [w] }
    | _ => s.refuse item .notADeclaration) .empty

theorem interactions_eq (s : Scope) (e : Element) : s.interactions e = (do
    let i ← s.declared e
    match i.repeated? with
    | some (what, name) => .error (.repeatedInTemplate s.file e.line what name)
    | none => .ok i) := by
  rw [declared, bind_assoc]
  rfl

theorem locates_declared (h : root.Inside e) : Locates s.file root (s.declared e) := by
  refine (locates_elements h).bind fun items hitems ↦ .foldlM (fun item hitem i ↦ ?_) _
  have hinside := h.elements (eq_elements hitems ▸ hitem)
  split
  · exact (locates_action hinside).map _
  · exact (locates_reaction hinside).map _
  · exact (locates_watch hinside).map _
  · exact locates_refuse hinside _

theorem locates_interactions (h : root.Inside e) : Locates s.file root (s.interactions e) := by
  rw [interactions_eq]
  refine (locates_declared h).bind fun i _ ↦ ?_
  split
  · rintro p hp
    cases hp
    exact .repeated h _ _
  · exact .ok _

/-- The sections that are found are elements of the tree. -/
theorem inside_of_sections (h : root.Inside e) {found : Option Element × Option Element}
    (hfound : s.sections e = .ok found) :
    (∀ c ∈ found.1, root.Inside c) ∧ ∀ c ∈ found.2, root.Inside c := by
  obtain ⟨items, hitems, hfold⟩ := Engine.World.exists_of_bind_eq_ok hfound
  have hnone : ∀ c ∈ (none : Option Element), root.Inside c := fun c hc ↦ nomatch hc
  refine invariant_of_foldlM
    (I := fun found ↦ (∀ c ∈ found.1, root.Inside c) ∧ ∀ c ∈ found.2, root.Inside c)
    ⟨hnone, hnone⟩ ?_ hfold
  rintro item hitem before after ⟨hstate, hinteractions⟩ hafter
  have hinside : ∀ c ∈ some item, root.Inside c := fun c hc ↦ by
    obtain rfl := Option.some.inj hc
    exact h.elements (eq_elements hitems ▸ hitem)
  split at hafter
  · split at hafter
    · exact absurd hafter refuse_ne_ok
    · cases hafter
      exact ⟨hinside, hinteractions⟩
  · split at hafter
    · exact absurd hafter refuse_ne_ok
    · cases hafter
      exact ⟨hstate, hinside⟩
  · exact absurd hafter refuse_ne_ok

theorem locates_sections (h : root.Inside e) : Locates s.file root (s.sections e) := by
  refine (locates_elements h).bind fun items hitems ↦ .foldlM (fun item hitem found ↦ ?_) _
  have hinside := h.elements (eq_elements hitems ▸ hitem)
  split
  · split
    · exact locates_refuse hinside _
    · exact .ok _
  · split
    · exact locates_refuse hinside _
    · exact .ok _
  · exact locates_refuse hinside _

end Scope

/-- The sections of a template, or its interactions if there is nothing else. -/
def sectionsOf (file : String) (root : Element) :
    Except Problem (Option Element × Option Element) :=
  match root.name with
  | "interactions" => .ok (none, some root)
  | "traceviz" => Scope.sections ⟨file, []⟩ root
  | _ => Scope.refuse ⟨file, []⟩ root .notARoot

/-- The globals of a template, in its section for them. -/
def globalsOf (file : String) : Option Element → Except Problem (OrderedMap Payload)
  | some e => Scope.globalState ⟨file, []⟩ e
  | none => .ok .empty

/-- The document that the section of the interactions denotes over some globals. -/
def documentOver (file : String) (globals : OrderedMap Payload) :
    Option Element → Except Problem Document
  | some e => (Scope.interactions ⟨file, globals.keys⟩ e).map fun i ↦ ⟨globals, i⟩
  | none => .ok ⟨globals, .empty⟩

theorem ofElement_eq (file : String) (root : Element) :
    Document.ofElement file root = (do
      let (state, interactions) ← sectionsOf file root
      let globals ← globalsOf file state
      documentOver file globals interactions) := by
  unfold Document.ofElement
  split
  case h_1 hname =>
    rw [sectionsOf, hname]
    rfl
  case h_2 hname =>
    rw [sectionsOf, hname]
    exact bind_congr fun (state, interactions) ↦ by cases state <;> cases interactions <;> rfl
  case h_3 hinteractions htemplate =>
    have hsections : sectionsOf file root = Scope.refuse ⟨file, []⟩ root .notARoot := by
      unfold sectionsOf
      split
      · exact absurd ‹_› hinteractions
      · exact absurd ‹_› htemplate
      · rfl
    rw [hsections]
    rfl

/-- **What is no document is refused at one of its elements.** -/
theorem locates_ofElement (file : String) (root : Element) :
    Locates file root (Document.ofElement file root) := by
  have hroot : root.Inside root := .itself
  have hsections : Locates file root (sectionsOf file root) ∧
      ∀ found, sectionsOf file root = .ok found →
        (∀ c ∈ found.1, root.Inside c) ∧ ∀ c ∈ found.2, root.Inside c := by
    unfold sectionsOf
    split
    · refine ⟨.ok _, fun found h ↦ ?_⟩
      cases h
      exact ⟨fun c hc ↦ (nomatch hc), fun c hc ↦ Option.some.inj hc ▸ hroot⟩
    · exact ⟨Scope.locates_sections hroot, fun _ ↦ Scope.inside_of_sections hroot⟩
    · exact ⟨Scope.locates_refuse hroot _, fun _ h ↦ absurd h Scope.refuse_ne_ok⟩
  rw [ofElement_eq]
  refine hsections.1.bind fun (state, interactions) hfound ↦ ?_
  obtain ⟨hstate, hinteractions⟩ := hsections.2 _ hfound
  have hglobals : Locates file root (globalsOf file state) := by
    cases state with
    | none => exact .ok _
    | some e => exact Scope.locates_globalState (hstate e rfl)
  refine hglobals.bind fun globals _ ↦ ?_
  cases interactions with
  | none => exact .ok _
  | some e => exact (Scope.locates_interactions (hinteractions e rfl)).map _

/-! ### What others refuse is passed on -/

/-- Whether what one computation refuses is refused by another, with some words in front. -/
def Relays {α β : Type} (front : String) (inner : Except Problem α) (outer : Except Problem β) :
    Prop := ∀ p, inner = .error p → ∃ q, outer = .error q ∧ q.message = front ++ p.message

namespace Scope

variable {s : Scope}

theorem relays_refuse {α β : Type} {p : Problem} {misuse : Misuse}
    (hmessage : misuse.message = p.message) :
    Relays (front s.file e) (.error p : Except Problem α)
      (s.refuse e misuse : Except Problem β) := by
  rintro q hq
  cases hq
  exact ⟨_, rfl, hmessage ▸ message_misused _ _ _⟩

theorem relays_ok {α β : Type} {words : String} (a : α) {outer : Except Problem β} :
    Relays words (.ok a) outer := fun _ h ↦ nomatch h

/-- A connective of too few predicates. -/
theorem relays_connective {name : String} {children : List Node} {ps : List (Predicate Payload)}
    (connect : List (Predicate Payload) → Predicate Payload) (htext : e.hasText = false)
    (hps : s.predicates children = .ok ps) :
    Relays (front s.file e)
      (if ps.length < 2 then .error (.tooFewChildren name ps.length) else .ok (connect ps) :
        Except Problem (Predicate Payload))
      (do
        let _ ← s.elements e
        let parts ← s.predicates children
        if parts.length < 2 then s.refuse e (.tooFewChildren name parts.length)
        else pure (connect parts)) := by
  have hitems : s.elements e = .ok e.elements := if_neg (by simp [htext])
  rw [hitems, hps]
  show Relays _ _ (if ps.length < 2 then s.refuse e (.tooFewChildren name ps.length)
    else .ok (connect ps))
  split
  · exact relays_refuse rfl
  · exact relays_ok _

theorem relays_conjunction {ps : List (Predicate Payload)} (hname : e.name = "and")
    (htext : e.hasText = false) (hps : s.predicates e.children = .ok ps) :
    Relays (front s.file e) (Predicate.conjunction ps) (s.predicate e) := by
  obtain ⟨name, attrs, children, line⟩ := e
  obtain rfl : name = "and" := hname
  rw [predicate]
  exact relays_connective .and htext hps

theorem relays_disjunction {ps : List (Predicate Payload)} (hname : e.name = "or")
    (htext : e.hasText = false) (hps : s.predicates e.children = .ok ps) :
    Relays (front s.file e) (Predicate.disjunction ps) (s.predicate e) := by
  obtain ⟨name, attrs, children, line⟩ := e
  obtain rfl : name = "or" := hname
  rw [predicate]
  exact relays_connective .or htext hps

/-- A global that is there already. -/
theorem relays_addGlobal {η : Type} {globals : OrderedMap Payload} {key : String} {p : Payload}
    {w : Engine.World η} {c : Engine.CellId} (hentry : s.entry s.literal e = .ok (key, p))
    (hunpublished : w.published = false) (hkeys : w.globals.has key = globals.has key) :
    Relays (front s.file e) (w.addGlobal key c) (s.addGlobal globals e) := by
  unfold Engine.World.addGlobal addGlobal
  rw [hunpublished, if_neg (by decide), hkeys, hentry]
  show Relays _ _ (if globals.has key then s.refuse e (.repeatedGlobal key)
    else .ok (globals.insert key p))
  split
  · exact relays_refuse rfl
  · exact relays_ok _

/-- What is declared twice. -/
theorem relays_build {i : Interactions Payload Watched} (hdeclared : s.declared e = .ok i) :
    Relays (place s.file e) i.build (s.interactions e) := by
  rw [interactions_eq, hdeclared]
  show Relays _ _ (match i.repeated? with
    | some (what, name) => .error (.repeatedInTemplate s.file e.line what name)
    | none => .ok i)
  unfold Interactions.build
  cases i.repeated? with
  | none => exact relays_ok _
  | some found =>
    rintro p hp
    cases hp
    exact ⟨_, rfl, message_repeatedInTemplate _ _ _ _⟩

end Scope

/-- **A template is a document, or what is wrong with it has a place.** A template denotes a
document, whose global state is published once it is in use; or there is a problem, which is fatal,
comes from the template, and begins with the file and with the line of one of its elements. What is
refused further inside is among these problems: a conjunction or a disjunction of too few
predicates, a global that is there already, and a binding declared twice are each refused in the
same words, with the place in front. -/
theorem ofElement_published_or_located {η : Type} (file : String) (root : Element) :
    ((∃ d, Document.ofElement file root = .ok d ∧
        (Engine.World.ofDocument (η := η) d).2.published = true) ∨
      ∃ p, Document.ofElement file root = .error p ∧ Located file root p ∧
        p.severity = .fatal ∧ p.source = "template" ∧ ∃ e text, root.Inside e ∧
          p.message = file ++ ":" ++ toString e.line ++ ": " ++ text) ∧
      ∀ (s : Scope) (e : Element),
        (∀ ps, e.hasText = false → s.predicates e.children = .ok ps →
          (e.name = "and" →
            Relays (front s.file e) (Predicate.conjunction ps) (s.predicate e)) ∧
          (e.name = "or" →
            Relays (front s.file e) (Predicate.disjunction ps) (s.predicate e))) ∧
        (∀ globals key p (w : Engine.World η) c, s.entry s.literal e = .ok (key, p) →
          w.published = false → w.globals.has key = globals.has key →
            Relays (front s.file e) (w.addGlobal key c) (s.addGlobal globals e)) ∧
        ∀ i, s.declared e = .ok i → Relays (place s.file e) i.build (s.interactions e) := by
  refine ⟨?_, fun s e ↦ ⟨fun ps htext hps ↦ ⟨fun hname ↦ ?_, fun hname ↦ ?_⟩,
    fun globals key p w c hentry hunpublished hkeys ↦ ?_, fun i hdeclared ↦ ?_⟩⟩
  · have hlocates := locates_ofElement file root
    cases h : Document.ofElement file root with
    | ok d => exact .inl ⟨d, rfl, (Engine.World.installed_ofDocument d).published⟩
    | error p =>
      have hlocated := hlocates p h
      exact .inr ⟨p, rfl, hlocated, hlocated.says⟩
  · exact Scope.relays_conjunction hname htext hps
  · exact Scope.relays_disjunction hname htext hps
  · exact Scope.relays_addGlobal hentry hunpublished hkeys
  · exact Scope.relays_build hdeclared

/-- A conjunction of one predicate is refused in the words of those who put conjunctions together,
behind its place. -/
theorem ofElement_published_or_located_alone :
    let s : Scope := ⟨"t.tvz", []⟩
    let e : Element := .mk "and" [] [.element (.mk "true" [] [] 4)] 3
    e.hasText = false ∧ s.predicates e.children = .ok [.const true] ∧
      ∃ q, s.predicate e = .error q ∧
        q.message = "t.tvz:3: <and>: <and> needs at least two children, got 1" := by
  intro s e
  have htext : e.hasText = false := rfl
  have hps : s.predicates e.children = .ok [.const true] := rfl
  have hrelays := ((ofElement_published_or_located (η := Unit) s.file e).2 s e).1 _ htext hps
  obtain ⟨q, hq, hmessage⟩ := hrelays.1 rfl (.tooFewChildren "and" 1) rfl
  have hwords : front s.file e ++ (Problem.tooFewChildren "and" 1).message =
      "t.tvz:3: <and>: <and> needs at least two children, got 1" := by decide
  exact ⟨htext, hps, q, hq, hmessage.trans hwords⟩

end Template

end LiveTemplate
