import LiveTemplate.Proofs.Rendering
import LiveTemplate.Proofs.Scoping

/-!
# The vocabulary of predicates and updates

How a predicate and an update are written as elements (`predicateElement`, `updateElement`), and
that a template is read back from this: a well-formed tree without doubles is what its own element
denotes, and whatever an element denotes is well-formed (`read_of_element`).

Lines carry no meaning, so the statements are about every element that is the written one apart from
its lines. An element of a known shape is first taken apart (`exists_of_unlined`,
`unlinedNodes_eq_cons`); the reader is then run on its parts, one case for each constructor.
-/

namespace LiveTemplate.Template

open Markup
open Engine.World (exists_of_bind_eq_ok)

/-! ### Elements of the vocabulary -/

/-- An element without content. -/
def leaf (name : String) (attrs : List Attribute) : Element := .mk name attrs [] 0

/-- An element around a text, without content if the text is empty. -/
def around (name text : String) : Element :=
  .mk name [] (if text = "" then [] else [.text text 0]) 0

/-- An element around elements. -/
def holder (name : String) (items : List Element) : Element := .mk name [] (items.map .element) 0

/-- How a payload is written. -/
def payloadElement : Payload → Element
  | .empty => leaf "empty" []
  | .string s => around "string" s
  | .stringList items => holder "string-list" (items.map (around "string"))
  | .stringSet items => holder "string-set" (items.items.map (around "string"))
  | .int n => around "int" (Payload.showInt n)
  | .intList items => holder "int-list" (items.map fun n ↦ around "int" (Payload.showInt n))
  | .intSet items => holder "int-set" (items.items.map fun n ↦ around "int" (Payload.showInt n))
  | .dbl x => around "dbl" (Decimal.Layout.plain.write x)
  | .duration nanos => around "duration" (Payload.showInt nanos)
  | .timestamp t => leaf "timestamp"
    [⟨"seconds", Payload.showInt t.seconds⟩, ⟨"nanos", toString t.nanos.val⟩]

/-- How a reference is written. -/
def referenceElement : Reference Payload → Element
  | .literal p => payloadElement p
  | .fromLocal key => leaf "local-ref" [⟨"key", key⟩]
  | .fromGlobal key => leaf "global-ref" [⟨"key", key⟩]

/-- How a term is written. -/
def termElement : Term (Reference Payload) → Element
  | .relation r a b => holder r.name [referenceElement a, referenceElement b]
  | .changed a window =>
    .mk "changed" [⟨"since-ms", toString window.toNat⟩] [.element (referenceElement a)] 0

mutual

/-- How a predicate is written. -/
def predicateElement : Predicate Payload → Element
  | .const true => leaf "true" []
  | .const false => leaf "false" []
  | .not p => .mk "not" [] [.element (predicateElement p)] 0
  | .and ps => .mk "and" [] (predicateNodes ps) 0
  | .or ps => .mk "or" [] (predicateNodes ps) 0
  | .term t => termElement t

/-- How predicates are written one after the other. -/
def predicateNodes : List (Predicate Payload) → List Node
  | [] => []
  | p :: ps => .element (predicateElement p) :: predicateNodes ps

end

mutual

/-- How an update is written. -/
def updateElement : Update Payload → Element
  | .assign a target source => holder a.name [referenceElement target, referenceElement source]
  | .clear targets => holder "clear" (targets.map referenceElement)
  | .sequence us => .mk "do" [] (updateNodes us) 0
  | .when p us =>
    .mk "if" [] [.element (predicateElement p), .element (.mk "then" [] (updateNodes us) 0)] 0
  | .choose p us vs =>
    .mk "if" [] [.element (predicateElement p), .element (.mk "then" [] (updateNodes us) 0),
      .element (.mk "else" [] (updateNodes vs) 0)] 0
  | .switch cs => .mk "switch" [] (caseNodes cs) 0

/-- How updates are written one after the other. -/
def updateNodes : List (Update Payload) → List Node
  | [] => []
  | u :: us => .element (updateElement u) :: updateNodes us

/-- How cases are written one after the other: a predicate, then updates. -/
def caseNodes : List (Case Payload) → List Node
  | [] => []
  | .mk p us :: cs =>
    .element (.mk "case" [] (.element (predicateElement p) :: updateNodes us) 0) :: caseNodes cs

end

/-! ### Elements apart from their lines -/

theorem exists_of_unlined {e : Element} {name : String} {attrs : List Attribute}
    {nodes : List Node} {line : Nat} (h : e.unlined = .mk name attrs nodes line) :
    ∃ children line', e = .mk name attrs children line' ∧ unlinedNodes children = nodes := by
  obtain ⟨name', attrs', children, line'⟩ := e
  rw [Element.unlined, Element.mk.injEq] at h
  obtain ⟨rfl, rfl, hnodes, -⟩ := h
  exact ⟨children, line', rfl, hnodes⟩

theorem unlinedNodes_eq_nil {nodes : List Node} (h : unlinedNodes nodes = []) : nodes = [] := by
  cases nodes with
  | nil => rfl
  | cons n nodes => cases n <;> simp [unlinedNodes] at h

theorem unlinedNodes_eq_cons {nodes rest : List Node} {e : Element}
    (h : unlinedNodes nodes = .element e :: rest) :
    ∃ e' rest', nodes = .element e' :: rest' ∧ e'.unlined = e ∧ unlinedNodes rest' = rest := by
  cases nodes with
  | nil => cases h
  | cons n nodes =>
    cases n with
    | element e' =>
      rw [unlinedNodes, List.cons.injEq, Node.element.injEq] at h
      exact ⟨e', nodes, rfl, h⟩
    | text s line => simp [unlinedNodes] at h

theorem unlinedNodes_eq_text {nodes : List Node} {s : String}
    (h : unlinedNodes nodes = [.text s 0]) : ∃ line, nodes = [.text s line] := by
  cases nodes with
  | nil => cases h
  | cons n nodes =>
    cases n with
    | element e => simp [unlinedNodes] at h
    | text s' line =>
      simp only [unlinedNodes, List.cons.injEq, Node.text.injEq, and_true] at h
      obtain ⟨rfl, hnodes⟩ := h
      exact ⟨line, by rw [unlinedNodes_eq_nil hnodes]⟩

theorem unlinedNodes_eq_map {nodes : List Node} {items : List Element}
    (h : unlinedNodes nodes = items.map .element) :
    ∃ items' : List Element, nodes = items'.map .element ∧ items'.map Element.unlined = items := by
  induction items generalizing nodes with
  | nil => exact ⟨[], unlinedNodes_eq_nil h, rfl⟩
  | cons e items ih =>
    obtain ⟨e', rest, rfl, rfl, hrest⟩ := unlinedNodes_eq_cons h
    obtain ⟨items', rfl, rfl⟩ := ih hrest
    exact ⟨e' :: items', rfl, rfl⟩

theorem name_unlined (e : Element) : e.unlined.name = e.name := by
  cases e
  rfl

theorem hasText_of_unlined {nodes written : List Node} (h : unlinedNodes nodes = written)
    (hwritten : ∀ n ∈ written, n.text? = none) (name : String) (attrs : List Attribute)
    (line : Nat) : (Element.mk name attrs nodes line).hasText = false := by
  subst h
  have hnone : ∀ n ∈ nodes, n.text? = none := by
    induction nodes with
    | nil => simp
    | cons n nodes ih =>
      cases n with
      | element e => simpa [unlinedNodes, Node.text?] using ih (by simp_all [unlinedNodes])
      | text s line => simp [unlinedNodes, Node.text?] at hwritten
  rw [Element.hasText, List.any_eq_false]
  intro n hn
  simp [hnone n hn]

theorem exists_of_leaf {e : Element} {name : String} {attrs : List Attribute}
    (h : e.unlined = leaf name attrs) : ∃ line, e = .mk name attrs [] line := by
  obtain ⟨children, line, rfl, hnodes⟩ := exists_of_unlined h
  exact ⟨line, by rw [unlinedNodes_eq_nil hnodes]⟩

theorem exists_of_around {e : Element} {name text : String} (h : e.unlined = around name text) :
    e.name = name ∧ e.elements = [] ∧ e.text = text := by
  obtain ⟨children, line, rfl, hnodes⟩ := exists_of_unlined h
  split at hnodes
  next hempty =>
    rw [unlinedNodes_eq_nil hnodes, hempty]
    exact ⟨rfl, rfl, rfl⟩
  next =>
    obtain ⟨line', rfl⟩ := unlinedNodes_eq_text hnodes
    exact ⟨rfl, rfl, rfl⟩

theorem exists_of_holder {e : Element} {name : String} {items : List Element}
    (h : e.unlined = holder name items) :
    ∃ (items' : List Element) (line : Nat), e = .mk name [] (items'.map .element) line ∧
      items'.map Element.unlined = items := by
  obtain ⟨children, line, rfl, hnodes⟩ := exists_of_unlined h
  obtain ⟨items', rfl, hitems⟩ := unlinedNodes_eq_map hnodes
  exact ⟨items', line, rfl, hitems⟩

/-! ### Literals and references -/

namespace Scope

variable {s : Scope} {e : Element}

theorem elements_eq_ok (h : e.hasText = false) : s.elements e = .ok e.elements := by
  rw [elements, if_neg (by simp [h])]

theorem elements_map_element (name : String) (attrs : List Attribute) (items : List Element)
    (line : Nat) : s.elements (.mk name attrs (items.map .element) line) = .ok items := by
  have hno : (Element.mk name attrs (items.map .element) line).hasText = false := by
    simp [Element.hasText, Element.children, Node.text?]
  have hitems : (Element.mk name attrs (items.map .element) line).elements = items := by
    simp [Element.elements, Element.children, List.filterMap_map, Function.comp_def, Node.element?]
  rw [elements_eq_ok hno, hitems]

/-- What is written item by item is read item by item. -/
theorem mapM_of_written {α : Type} {read : Element → Except Problem α} {written : α → Element}
    {xs : List α} {items : List Element} (h : items.map Element.unlined = xs.map written)
    (hread : ∀ x ∈ xs, ∀ e : Element, e.unlined = written x → read e = .ok x) :
    items.mapM read = .ok xs := by
  induction xs generalizing items with
  | nil =>
    rw [List.map_nil, List.map_eq_nil_iff] at h
    subst h
    rfl
  | cons x xs ih =>
    obtain ⟨e, items, rfl, he, hitems⟩ := List.map_eq_cons_iff.1 h
    have hhere := hread x List.mem_cons_self e he
    have hthere := ih hitems fun y hy ↦ hread y (List.mem_cons_of_mem _ hy)
    rw [List.mapM_cons, hhere, hthere]
    rfl

/-- A set is that of its items. -/
theorem ofList_items {α : Type} [Ord α] [Std.TransOrd α] [Std.LawfulEqOrd α] (t : SortedSet α) :
    SortedSet.ofList t.items = t := SortedSet.ext_of_mem fun _ ↦ SortedSet.mem_ofList

theorem scalar_of_around {name text : String} {read : String → Option Payload} {p : Payload}
    (h : e.unlined = around name text) (hread : read text = some p) :
    s.scalar e read = .ok p := by
  obtain ⟨-, helements, htext⟩ := exists_of_around h
  rw [scalar, helements, htext, hread]
  rfl

theorem strings_of_holder {name : String} {items : List String}
    (h : e.unlined = holder name (items.map (around "string"))) : s.strings e = .ok items := by
  obtain ⟨items', line, rfl, hitems⟩ := exists_of_holder h
  rw [strings, elements_map_element]
  refine mapM_of_written hitems fun x _ item hitem ↦ ?_
  obtain ⟨hname, -, htext⟩ := exists_of_around hitem
  rw [if_pos hname, htext]

theorem trim_eq_self {raw : List Char} (hne : raw ≠ []) (h : ∀ c ∈ raw, isNameChar c = true) :
    Text.trim raw = raw := by
  have hblank : ∀ c ∈ raw, Text.isBlank c = false := by
    intro c hc
    rw [Bool.eq_false_iff]
    intro hblank
    exact absurd (h c hc) (by simp [not_isNameChar_of_isBlank hblank])
  have hnone : ∀ c ∈ ([] : List Char), Text.isBlank c = true := by simp
  have htrimmed : Trimmed raw := ⟨fun c hc ↦ hblank c (List.mem_of_mem_head? hc),
    fun c hc ↦ hblank c (List.mem_of_mem_getLast? hc)⟩
  have htrim := trim_append htrimmed hne hnone
  rwa [List.append_nil] at htrim

theorem isNameChar_of_mem_toDigits {n : Nat} {c : Char} (h : c ∈ Nat.toDigits 10 n) :
    isNameChar c = true := by
  have hdigit := Nat.isDigit_of_mem_toDigits (by decide) (by decide) h
  have halphanum : c.isAlphanum = true := by simp [Char.isAlphanum, hdigit]
  simp [isNameChar, halphanum]

/-- There is nothing to trim from a number. -/
theorem trim_toString (k : Int) : Text.trim (toString k).toList = (toString k).toList := by
  rw [Decimal.toList_toString_int]
  cases k with
  | ofNat m => exact trim_eq_self Nat.toDigits_ne_nil fun c hc ↦ isNameChar_of_mem_toDigits hc
  | negSucc m =>
    refine trim_eq_self (by simp) (List.forall_mem_cons.2 ⟨by decide, fun c hc ↦ ?_⟩)
    exact isNameChar_of_mem_toDigits hc

theorem integer?_showInt (n : Int64) : integer? (Payload.showInt n) = some n := by
  rw [integer?, Payload.showInt, trim_toString, Decimal.int64?_toString]
  rfl

theorem integers_of_holder {name : String} {items : List Int64}
    (h : e.unlined = holder name (items.map fun n ↦ around "int" (Payload.showInt n))) :
    s.integers e = .ok items := by
  obtain ⟨items', line, rfl, hitems⟩ := exists_of_holder h
  rw [integers, elements_map_element]
  refine mapM_of_written hitems fun n _ item hitem ↦ ?_
  obtain ⟨hname, -, htext⟩ := exists_of_around hitem
  rw [if_pos hname, htext, integer?_showInt]
  rfl

theorem integerAttr_eq_ok {key raw : String} {n : Int64} (hattr : e.attr? key = some raw)
    (hraw : integer? raw = some n) : s.integerAttr e key = .ok n := by
  rw [integerAttr, attr, hattr]
  show s.expect e (.unreadableNumber key) (integer? raw) = _
  rw [hraw]
  rfl

/-- The nanoseconds of a point in time as a number. -/
theorem toInt_nanos (t : Timestamp) : (Int64.ofNat t.nanos.val).toInt = t.nanos.val := by
  have hlt := t.nanos.isLt
  rw [Int64.toInt_ofNat_of_lt (by omega)]

theorem ofParts_nanos (t : Timestamp) :
    Timestamp.ofParts t.seconds (Int64.ofNat t.nanos.val) = t := by
  have hlt := t.nanos.isLt
  have hrange := toInt_nearestInt64 (n := t.seconds.toInt)
    ⟨t.seconds.le_toInt, Int.le_of_lt_add_one t.seconds.toInt_lt⟩
  have hdiv : (t.nanos.val : Int) / 1000000000 = 0 := by omega
  have hmod : ((t.nanos.val : Int) % 1000000000).toNat = t.nanos.val := by omega
  rw [Timestamp.ofParts, toInt_nanos, hdiv, hmod, Int.add_zero, Int64.toInt_inj.1 hrange,
    Fin.ofNat_val_eq_self]

/-- **A payload is read back from its element**, unless it is a double. -/
theorem literal_of_element {p : Payload} (hp : p.kind ≠ .dbl) (h : e.unlined = payloadElement p) :
    s.literal e = .ok p := by
  have hname : e.name = (payloadElement p).name := by rw [← name_unlined, h]
  rw [literal, hname]
  cases p with
  | empty =>
    obtain ⟨line, rfl⟩ := exists_of_leaf h
    rfl
  | string text => exact scalar_of_around h rfl
  | stringList items =>
    show (s.strings e).map _ = _
    rw [strings_of_holder h]
    rfl
  | stringSet items =>
    show (s.strings e).map _ = _
    rw [strings_of_holder h]
    exact congrArg (Except.ok ∘ Payload.stringSet) (ofList_items items)
  | int n => exact scalar_of_around h (by rw [integer?_showInt]; rfl)
  | intList items =>
    show (s.integers e).map _ = _
    rw [integers_of_holder h]
    rfl
  | intSet items =>
    show (s.integers e).map _ = _
    rw [integers_of_holder h]
    exact congrArg (Except.ok ∘ Payload.intSet) (ofList_items items)
  | dbl x => exact absurd rfl hp
  | duration n => exact scalar_of_around h (by rw [integer?_showInt]; rfl)
  | timestamp t =>
    obtain ⟨line, rfl⟩ := exists_of_leaf h
    have hnanos : integer? (toString t.nanos.val) = some (Int64.ofNat t.nanos.val) := by
      have hshow := integer?_showInt (Int64.ofNat t.nanos.val)
      rwa [Payload.showInt, toInt_nanos] at hshow
    have hseconds := integer?_showInt t.seconds
    show (do
      let seconds ← s.integerAttr _ "seconds"
      let nanos ← s.integerAttr _ "nanos"
      pure (Payload.timestamp (.ofParts seconds nanos))) = _
    rw [integerAttr_eq_ok rfl hseconds, integerAttr_eq_ok rfl hnanos]
    exact congrArg (Except.ok ∘ Payload.timestamp) (ofParts_nanos t)

/-- A reference that is read back: its global is known, and its literal is no double. -/
structure Readable (globals : List String) (r : Reference Payload) : Prop where
  known : r.Known globals
  kind : ∀ p ∈ r.literals, p.kind ≠ .dbl

/-- **A reference is read back from its element.** -/
theorem reference_of_element {r : Reference Payload} (hr : Readable s.globals r)
    (h : e.unlined = referenceElement r) : s.reference e = .ok r := by
  cases r with
  | literal p =>
    have hname : e.name = (payloadElement p).name := by
      rw [← name_unlined, h]
      rfl
    have hliteral := literal_of_element (s := s) (hr.kind p List.mem_cons_self) h
    rw [reference, hname, hliteral]
    cases p <;> rfl
  | fromLocal key =>
    obtain ⟨line, rfl⟩ := exists_of_leaf h
    rfl
  | fromGlobal key =>
    obtain ⟨line, rfl⟩ := exists_of_leaf h
    have hknown : s.globals.contains key = true := List.contains_iff_mem.2 hr.known
    have hkey : s.globalRef (.mk "global-ref" [⟨"key", key⟩] [] line) = .ok key := if_pos hknown
    exact congrArg (Except.map Reference.fromGlobal) hkey

theorem operands_of_holder {name : String} {a b : Reference Payload}
    (ha : Readable s.globals a) (hb : Readable s.globals b)
    (h : e.unlined = holder name [referenceElement a, referenceElement b]) :
    s.operands e = .ok (a, b) := by
  obtain ⟨items, line, rfl, hitems⟩ := exists_of_holder h
  obtain ⟨left, others, rfl, hleft, hothers⟩ := List.map_eq_cons_iff.1 hitems
  obtain ⟨right, rest, rfl, hright, hrest⟩ := List.map_eq_cons_iff.1 hothers
  rw [List.map_eq_nil_iff] at hrest
  subst hrest
  rw [operands]
  show (do
    let x ← s.reference left
    let y ← s.reference right
    pure (x, y)) = _
  rw [reference_of_element ha hleft, reference_of_element hb hright]
  rfl

/-! ### Predicates -/

/-- **A term is read back from its element.** -/
theorem predicate_of_termElement {t : Term (Reference Payload)}
    (ht : ∀ r ∈ t.operands, Readable s.globals r) (h : e.unlined = termElement t) :
    s.predicate e = .ok (.term t) := by
  cases t with
  | relation r a b =>
    have hoperands := operands_of_holder (ht a (by simp [Term.operands]))
      (ht b (by simp [Term.operands])) h
    obtain ⟨items, line, rfl, -⟩ := exists_of_holder h
    unfold predicate
    rw [Relation.ofName?_name]
    exact congrArg (Except.map _) hoperands
  | changed a window =>
    obtain ⟨children, line, rfl, hnodes⟩ := exists_of_unlined h
    obtain ⟨child, rest, rfl, hchild, hrest⟩ := unlinedNodes_eq_cons hnodes
    rw [unlinedNodes_eq_nil hrest]
    have hread := reference_of_element (ht a List.mem_cons_self) hchild
    have hwindow : Decimal.uint64? (Text.trim (toString window.toNat).toList) = some window := by
      have htrim := trim_toString (window.toNat : Int)
      rw [show toString (window.toNat : Int) = toString window.toNat from rfl] at htrim
      rw [htrim, Decimal.uint64?_toString]
    rw [predicate]
    show (do
      let w ← s.expect _ (.unreadableDelay _)
        (Decimal.uint64? (Text.trim (toString window.toNat).toList))
      let operand ← s.reference child
      pure (Formula.term (Term.changed operand w))) = _
    rw [hwindow, hread]
    rfl

theorem textless_predicateNodes (ps : List (Predicate Payload)) :
    ∀ n ∈ predicateNodes ps, n.text? = none := by
  induction ps with
  | nil => simp [predicateNodes]
  | cons p ps ih => simpa [predicateNodes, Node.text?] using ih

/-- A connective of enough predicates. -/
theorem connective_eq_ok {e : Element} {children : List Node} {ps : List (Predicate Payload)}
    {build : List (Predicate Payload) → Predicate Payload} {misuse : Nat → Misuse}
    (helements : e.hasText = false) (hps : s.predicates children = .ok ps)
    (hlength : 2 ≤ ps.length) : (do
      let _ ← s.elements e
      let parts ← s.predicates children
      if parts.length < 2 then s.refuse e (misuse parts.length) else pure (build parts)) =
        .ok (build ps) := by
  rw [elements_eq_ok helements, hps]
  exact if_neg (Nat.not_lt.2 hlength)

mutual

/-- **A predicate is read back from its element.** -/
theorem predicate_of_element : ∀ {p : Predicate Payload} {e : Element}, Ample p →
    (∀ r ∈ p.references, Readable s.globals r) → e.unlined = predicateElement p →
      s.predicate e = .ok p
  | .const true, e, _, _, h => by
    obtain ⟨line, rfl⟩ := exists_of_leaf h
    rw [predicate]
    rfl
  | .const false, e, _, _, h => by
    obtain ⟨line, rfl⟩ := exists_of_leaf h
    rw [predicate]
    rfl
  | .not p, e, hample, hr, h => by
    obtain ⟨children, line, rfl, hnodes⟩ := exists_of_unlined h
    obtain ⟨child, rest, rfl, hchild, hrest⟩ := unlinedNodes_eq_cons hnodes
    have hp := predicate_of_element (p := p) hample hr hchild
    rw [unlinedNodes_eq_nil hrest, predicate]
    show (s.predicate child).map _ = _
    rw [hp]
    rfl
  | .and ps, e, hample, hr, h => by
    obtain ⟨children, line, rfl, hnodes⟩ := exists_of_unlined h
    have hps := predicates_of_nodes hample.2 hr hnodes
    rw [predicate]
    have htext := hasText_of_unlined hnodes (textless_predicateNodes ps) "and" [] line
    exact connective_eq_ok htext hps hample.1
  | .or ps, e, hample, hr, h => by
    obtain ⟨children, line, rfl, hnodes⟩ := exists_of_unlined h
    have hps := predicates_of_nodes hample.2 hr hnodes
    rw [predicate]
    have htext := hasText_of_unlined hnodes (textless_predicateNodes ps) "or" [] line
    exact connective_eq_ok htext hps hample.1
  | .term t, e, _, hr, h =>
    predicate_of_termElement (by simpa [Predicate.references, Formula.terms] using hr) h

/-- **Predicates are read back from their elements.** -/
theorem predicates_of_nodes : ∀ {ps : List (Predicate Payload)} {nodes : List Node}, AllAmple ps →
    (∀ r ∈ (Formula.allTerms ps).flatMap Term.operands, Readable s.globals r) →
      unlinedNodes nodes = predicateNodes ps → s.predicates nodes = .ok ps
  | [], nodes, _, _, h => by
    rw [unlinedNodes_eq_nil h, predicates]
  | p :: ps, nodes, hample, hr, h => by
    obtain ⟨e, rest, rfl, he, hrest⟩ := unlinedNodes_eq_cons h
    rw [Formula.allTerms, List.flatMap_append, List.forall_mem_append] at hr
    rw [predicates, predicate_of_element hample.1 hr.1 he, predicates_of_nodes hample.2 hr.2 hrest]
    rfl

end

/-! ### Updates -/

theorem textless_updateNodes (us : List (Update Payload)) :
    ∀ n ∈ updateNodes us, n.text? = none := by
  induction us with
  | nil => simp [updateNodes]
  | cons u us ih => simpa [updateNodes, Node.text?] using ih

theorem textless_caseNodes (cs : List (Case Payload)) : ∀ n ∈ caseNodes cs, n.text? = none := by
  induction cs with
  | nil => simp [caseNodes]
  | cons c cs ih =>
    cases c
    simpa [caseNodes, Node.text?] using ih

mutual

/-- **An update is read back from its element.** -/
theorem update_of_element : ∀ {u : Update Payload} {e : Element}, AmpleUpdate u →
    (∀ r ∈ u.references, Readable s.globals r) → e.unlined = updateElement u →
      s.update e = .ok u
  | .assign a target source, e, _, hr, h => by
    have hoperands := operands_of_holder (hr target (by simp [Update.references]))
      (hr source (by simp [Update.references])) h
    obtain ⟨items, line, rfl, -⟩ := exists_of_holder h
    unfold update
    rw [Assignment.ofName?_name]
    exact congrArg (Except.map _) hoperands
  | .clear targets, e, hample, hr, h => by
    obtain ⟨items, line, rfl, hitems⟩ := exists_of_holder h
    have hne : targets ≠ [] := hample
    have htargets : items.mapM s.reference = .ok targets :=
      mapM_of_written hitems fun r hmem e' he' ↦ reference_of_element (hr r hmem) he'
    rw [update]
    show (do
      let items' ← s.elements _
      let targets' ← items'.mapM s.reference
      if targets'.isEmpty then s.refuse _ .noTarget else pure (Update.clear targets')) = _
    rw [elements_map_element]
    show (items.mapM s.reference >>= _) = _
    rw [htargets]
    exact if_neg (by simpa using hne)
  | .sequence us, e, hample, hr, h => by
    obtain ⟨children, line, rfl, hnodes⟩ := exists_of_unlined h
    have hus := updates_of_nodes hample hr hnodes
    have helements := elements_eq_ok (s := s)
      (hasText_of_unlined hnodes (textless_updateNodes us) "do" [] line)
    rw [update]
    show (do
      let _ ← s.elements _
      let us' ← s.updates children
      pure (Update.sequence us')) = _
    rw [helements, hus]
    rfl
  | .when p us, e, hample, hr, h => by
    obtain ⟨children, line, rfl, hnodes⟩ := exists_of_unlined h
    obtain ⟨condition, others, rfl, hcondition, hothers⟩ := unlinedNodes_eq_cons hnodes
    obtain ⟨thenPart, rest, rfl, hthen, hrest⟩ := unlinedNodes_eq_cons hothers
    obtain ⟨thenNodes, thenLine, rfl, hthenNodes⟩ := exists_of_unlined hthen
    rw [Update.references, List.forall_mem_append] at hr
    have hp := predicate_of_element hample.1 hr.1 hcondition
    have hus := updates_of_nodes hample.2 hr.2 hthenNodes
    have helements := elements_eq_ok (s := s)
      (hasText_of_unlined hthenNodes (textless_updateNodes us) "then" [] thenLine)
    obtain rfl := unlinedNodes_eq_nil hrest
    rw [update]
    show (do
      let p' ← s.predicate condition
      let _ ← s.elements (.mk "then" [] thenNodes thenLine)
      let us' ← s.updates thenNodes
      pure (Update.when p' us')) = _
    rw [hp, helements, hus]
    rfl
  | .choose p us vs, e, hample, hr, h => by
    obtain ⟨children, line, rfl, hnodes⟩ := exists_of_unlined h
    obtain ⟨condition, parts, rfl, hcondition, hparts⟩ := unlinedNodes_eq_cons hnodes
    obtain ⟨thenPart, others, rfl, hthen, hothers⟩ := unlinedNodes_eq_cons hparts
    obtain ⟨elsePart, rest, rfl, helse, hrest⟩ := unlinedNodes_eq_cons hothers
    obtain ⟨thenNodes, thenLine, rfl, hthenNodes⟩ := exists_of_unlined hthen
    obtain ⟨elseNodes, elseLine, rfl, helseNodes⟩ := exists_of_unlined helse
    rw [Update.references, List.forall_mem_append, List.forall_mem_append] at hr
    have hp := predicate_of_element hample.1 hr.1.1 hcondition
    have hus := updates_of_nodes hample.2.1 hr.1.2 hthenNodes
    have hvs := updates_of_nodes hample.2.2 hr.2 helseNodes
    have hthenElements := elements_eq_ok (s := s)
      (hasText_of_unlined hthenNodes (textless_updateNodes us) "then" [] thenLine)
    have helseElements := elements_eq_ok (s := s)
      (hasText_of_unlined helseNodes (textless_updateNodes vs) "else" [] elseLine)
    obtain rfl := unlinedNodes_eq_nil hrest
    rw [update]
    show (do
      let p' ← s.predicate condition
      let _ ← s.elements (.mk "then" [] thenNodes thenLine)
      let us' ← s.updates thenNodes
      let _ ← s.elements (.mk "else" [] elseNodes elseLine)
      let vs' ← s.updates elseNodes
      pure (Update.choose p' us' vs')) = _
    rw [hp, hthenElements, hus]
    show (s.elements (.mk "else" [] elseNodes elseLine) >>= _) = _
    rw [helseElements, hvs]
    rfl
  | .switch cs, e, hample, hr, h => by
    obtain ⟨children, line, rfl, hnodes⟩ := exists_of_unlined h
    have hcs := cases_of_nodes hample.2 hr hnodes
    have helements := elements_eq_ok (s := s)
      (hasText_of_unlined hnodes (textless_caseNodes cs) "switch" [] line)
    rw [update]
    show (do
      let _ ← s.elements _
      let cs' ← s.cases children
      if cs'.isEmpty then s.refuse _ .noCase else pure (Update.switch cs')) = _
    rw [helements, hcs]
    exact if_neg (by simpa using hample.1)

/-- **Updates are read back from their elements.** -/
theorem updates_of_nodes : ∀ {us : List (Update Payload)} {nodes : List Node},
    AllAmpleUpdates us → (∀ r ∈ Update.allReferences us, Readable s.globals r) →
      unlinedNodes nodes = updateNodes us → s.updates nodes = .ok us
  | [], nodes, _, _, h => by rw [unlinedNodes_eq_nil h, updates]
  | u :: us, nodes, hample, hr, h => by
    obtain ⟨e, rest, rfl, he, hrest⟩ := unlinedNodes_eq_cons h
    rw [Update.allReferences, List.forall_mem_append] at hr
    rw [updates, update_of_element hample.1 hr.1 he, updates_of_nodes hample.2 hr.2 hrest]
    rfl

/-- **Cases are read back from their elements.** -/
theorem cases_of_nodes : ∀ {cs : List (Case Payload)} {nodes : List Node}, AmpleCases cs →
    (∀ r ∈ Update.caseReferences cs, Readable s.globals r) →
      unlinedNodes nodes = caseNodes cs → s.cases nodes = .ok cs
  | [], nodes, _, _, h => by rw [unlinedNodes_eq_nil h, cases]
  | .mk p us :: cs, nodes, hample, hr, h => by
    obtain ⟨e, rest, rfl, he, hrest⟩ := unlinedNodes_eq_cons h
    obtain ⟨children, line, rfl, hnodes⟩ := exists_of_unlined he
    obtain ⟨condition, others, rfl, hcondition, hothers⟩ := unlinedNodes_eq_cons hnodes
    rw [Update.caseReferences, List.forall_mem_append, List.forall_mem_append] at hr
    have hp := predicate_of_element hample.1 hr.1.1 hcondition
    have hus := updates_of_nodes hample.2.1 hr.1.2 hothers
    have hcs := cases_of_nodes hample.2.2 hr.2 hrest
    have htextless : ∀ n ∈ Node.element (predicateElement p) :: updateNodes us, n.text? = none :=
      List.forall_mem_cons.2 ⟨rfl, textless_updateNodes us⟩
    have helements := elements_eq_ok (s := s) (hasText_of_unlined hnodes htextless "case" [] line)
    rw [cases]
    show (do
      let _ ← s.elements (.mk "case" [] (.element condition :: others) line)
      let p' ← s.predicate condition
      let us' ← s.updates others
      let cs' ← s.cases rest
      pure (Case.mk p' us' :: cs')) = _
    rw [helements, hp, hus, hcs]
    rfl

end

/-! ### Both ways -/

/-- What is referred to is readable if it is known and no literal is a double. -/
theorem readable_of_literals {globals : List String} {references : List (Reference Payload)}
    (hknown : ∀ r ∈ references, r.Known globals)
    (hkind : ∀ p ∈ references.flatMap Reference.literals, p.kind ≠ .dbl) :
    ∀ r ∈ references, Readable globals r := fun r hr ↦
  ⟨hknown r hr, fun p hp ↦ hkind p (List.mem_flatMap.2 ⟨r, hr, hp⟩)⟩

/-- **Reading undoes writing.** A predicate or an update that can be written where the globals are
known, without a double, is what its own element denotes, whatever the lines of the element; and
whatever an element denotes can be written. -/
theorem read_of_element (s : Scope) :
    (∀ p : Predicate Payload, WellFormedPredicate s.globals p →
      (∀ a ∈ p.literals, a.kind ≠ .dbl) →
        ∀ e : Element, e.unlined = predicateElement p → s.predicate e = .ok p) ∧
    (∀ u : Update Payload, WellFormedUpdate s.globals u →
      (∀ a ∈ u.literals, a.kind ≠ .dbl) →
        ∀ e : Element, e.unlined = updateElement u → s.update e = .ok u) ∧
    (∀ (e : Element) (p : Predicate Payload), s.predicate e = .ok p →
      WellFormedPredicate s.globals p) ∧
    ∀ (e : Element) (u : Update Payload), s.update e = .ok u →
      WellFormedUpdate s.globals u := by
  refine ⟨fun p hp hkind e he ↦ ?_, fun u hu hkind e he ↦ ?_, fun e p h ↦ ?_, fun e u h ↦ ?_⟩
  · rw [Predicate.literals_eq] at hkind
    exact predicate_of_element hp.ample (readable_of_literals hp.known hkind) he
  · rw [Update.literals_eq] at hkind
    exact update_of_element hu.ample (readable_of_literals hu.known hkind) he
  · exact wellFormed_of_predicate h
  · exact wellFormed_of_update h

/-- A condition on a global and a local, and a choice that depends on it. -/
theorem read_of_element_choice :
    let s : Scope := ⟨"menu.xml", ["color"]⟩
    let p : Predicate Payload := .and
      [.term (.relation .equals (.fromGlobal "color") (.literal (.string ""))),
        .term (.changed (.fromLocal "row") 250)]
    let u : Update Payload := .choose p
      [.assign .set (.fromGlobal "color") (.literal (.stringList ["red"]))]
      [.clear [.fromLocal "row"]]
    (s.predicate (predicateElement p) = .ok p ∧ s.update (updateElement u) = .ok u) ∧
      WellFormedPredicate s.globals p ∧ WellFormedUpdate s.globals u := by
  intro s p u
  obtain ⟨hpredicate, hupdate, hofPredicate, hofUpdate⟩ := read_of_element s
  have hp : WellFormedPredicate s.globals p :=
    ⟨⟨by decide, trivial, trivial, trivial⟩, by
      simp [p, s, Predicate.references, Formula.terms, Formula.allTerms, Term.operands,
        Reference.Known]⟩
  have hu : WellFormedUpdate s.globals u := by
    refine ⟨⟨hp.ample, ⟨trivial, trivial⟩, List.cons_ne_nil _ _, trivial⟩, ?_⟩
    simp [u, p, s, Update.references, Update.allReferences, Predicate.references, Formula.terms,
      Formula.allTerms, Term.operands, Reference.Known]
  have hliterals : p.literals = [.string ""] := rfl
  have hupdateLiterals : u.literals = [.string "", .stringList ["red"]] := rfl
  have hreadPredicate := hpredicate p hp (by simp [hliterals, Payload.kind])
    (predicateElement p) rfl
  have hreadUpdate := hupdate u hu (by simp [hupdateLiterals, Payload.kind])
    (updateElement u) rfl
  exact ⟨⟨hreadPredicate, hreadUpdate⟩, hofPredicate _ _ hreadPredicate,
    hofUpdate _ _ hreadUpdate⟩

end Scope

end LiveTemplate.Template
