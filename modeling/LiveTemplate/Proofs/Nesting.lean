import LiveTemplate.Proofs.Scoping
import Mathlib.Data.List.Forall2

/-!
# What stands inside literals

A literal that stands for a single payload has no element inside. A collection has items, one
element for each; an item contributes what it would denote by itself if the elements inside it were
left out (`Contributes`), and a collection is read just so, item by item (`Gathers`,
`literal_eq_ok_iff_gathers`). By itself an item is refused for any element inside it
(`literal_item_eq_ok_iff`), so this is where the two ways of reading it part.

A template that denotes a document has been read down to its literals (`understood_of_ofElement`),
so each of them denotes a payload (`Scope.Understood.denotes`). What has been passed over in it is
what stands inside the items of its collections: a literal denotes what it denotes with all of that
left out (`Element.pared`), and after that the items are all the elements inside it
(`literals_read`).
-/

namespace LiveTemplate

namespace Markup

/-- The names of the elements that stand for payloads. -/
def literalNames : List String :=
  ["empty", "string", "int", "dbl", "duration", "timestamp", "string-list", "string-set",
    "int-list", "int-set"]

/-- The names of those that stand for collections. -/
def collectionNames : List String := ["string-list", "string-set", "int-list", "int-set"]

namespace Element

mutual

/-- The literals of a tree, the outermost of those inside one another. -/
def literals : Element → List Element
  | .mk name attrs children line =>
    if name ∈ literalNames then [.mk name attrs children line] else literalsAmong children

/-- The literals in some content. -/
def literalsAmong : List Node → List Element
  | [] => []
  | .element e :: rest => e.literals ++ literalsAmong rest
  | .text .. :: rest => literalsAmong rest

end

/-- An element without the elements inside it. -/
def textOnly (e : Element) : Element :=
  .mk e.name e.attrs (e.children.filter fun n ↦ n.element?.isNone) e.line

/-- An element without the elements inside those inside it. -/
def pared (e : Element) : Element :=
  .mk e.name e.attrs
    (e.children.map fun
      | .element item => .element item.textOnly
      | .text content line => .text content line) e.line

variable {e : Element}

/-- To prove something of all elements, prove it of an element if it holds of those inside it. -/
theorem inductionOn {P : Element → Prop} (h : ∀ e, (∀ item ∈ e.elements, P item) → P e)
    (e : Element) : P e :=
  @Element.rec P (fun n ↦ ∀ item, n.element? = some item → P item)
    (fun nodes ↦ ∀ item ∈ nodes.filterMap Node.element?, P item)
    (fun _ _ _ _ hchildren ↦ h _ hchildren) (fun _ he _ hsome ↦ Option.some.inj hsome ▸ he)
    (fun _ _ _ hnone ↦ nomatch hnone) (fun _ hmem ↦ absurd hmem List.not_mem_nil)
    (fun n nodes hn hnodes item hmem ↦ by
      cases n with
      | element e => exact List.forall_mem_cons.2 ⟨hn e rfl, hnodes⟩ item hmem
      | text content line => exact hnodes item hmem) e

/-! ### Leaving elements out -/

theorem elements_textOnly (e : Element) : e.textOnly.elements = [] := by
  refine List.filterMap_eq_nil_iff.2 fun n hn ↦ ?_
  exact Option.isNone_iff_eq_none.1 (List.mem_filter.1 hn).2

theorem text_textOnly (e : Element) : e.textOnly.text = e.text := by
  have hkept : ∀ nodes : List Node, (nodes.filter fun n ↦ n.element?.isNone).filterMap Node.text? =
      nodes.filterMap Node.text? := by
    intro nodes
    rw [List.filterMap_filter]
    refine List.filterMap_congr fun n _ ↦ ?_
    cases n <;> rfl
  rw [text, text]
  exact congrArg _ (hkept e.children)

theorem textOnly_eq_self (h : e.elements = []) : e.textOnly = e := by
  obtain ⟨name, attrs, children, line⟩ := e
  have hall : (children.filter fun n ↦ n.element?.isNone) = children :=
    List.filter_eq_self.2 fun n hn ↦
      Option.isNone_iff_eq_none.2 (List.filterMap_eq_nil_iff.1 h n hn)
  exact congrArg (fun nodes ↦ Element.mk name attrs nodes line) hall

theorem elements_pared (e : Element) : e.pared.elements = e.elements.map textOnly := by
  rw [elements, elements, pared, children, List.filterMap_map, List.map_filterMap]
  refine List.filterMap_congr fun n _ ↦ ?_
  cases n <;> rfl

theorem hasText_pared (e : Element) : e.pared.hasText = e.hasText := by
  rw [hasText, hasText, pared, children, List.any_map]
  refine List.any_congr rfl fun n ↦ ?_
  cases n <;> rfl

/-- **An element is as it was** if there was nothing to leave out. -/
theorem pared_eq_self_iff : e.pared = e ↔ ∀ item ∈ e.elements, item.elements = [] := by
  constructor
  · intro h item hitem
    rw [← h, elements_pared] at hitem
    obtain ⟨item', -, rfl⟩ := List.mem_map.1 hitem
    exact elements_textOnly item'
  · intro h
    obtain ⟨name, attrs, children, line⟩ := e
    refine congrArg (fun nodes ↦ Element.mk name attrs nodes line) ?_
    refine (List.map_congr_left fun n hn ↦ ?_).trans (List.map_id children)
    cases n with
    | element item =>
      exact congrArg Node.element (textOnly_eq_self (h item (List.mem_filterMap.2 ⟨_, hn, rfl⟩)))
    | text content line => rfl

theorem countAll_eq_zero {nodes : List Node} (h : nodes.filterMap Node.element? = []) :
    countAll nodes = 0 := by
  induction nodes with
  | nil => rfl
  | cons n nodes ih =>
    cases n with
    | element item => cases h
    | text content line => exact ih h

theorem countAll_eq_length {nodes : List Node}
    (h : ∀ item ∈ nodes.filterMap Node.element?, item.elements = []) :
    countAll nodes = (nodes.filterMap Node.element?).length := by
  induction nodes with
  | nil => rfl
  | cons n nodes ih =>
    cases n with
    | text content line => exact ih h
    | element item =>
      obtain ⟨hitem, hrest⟩ := List.forall_mem_cons.1 h
      obtain ⟨name, attrs, children, line⟩ := item
      show 1 + countAll children + countAll nodes = (nodes.filterMap Node.element?).length + 1
      rw [countAll_eq_zero (show children.filterMap Node.element? = [] from hitem), ih hrest,
        Nat.add_comm]

/-- With all inside the items left out, the items are all the elements inside an element. -/
theorem count_pared (e : Element) : e.pared.count = 1 + e.elements.length := by
  have hitems : ∀ item ∈ e.pared.elements, item.elements = [] := fun item hitem ↦ by
    rw [elements_pared] at hitem
    obtain ⟨item', -, rfl⟩ := List.mem_map.1 hitem
    exact elements_textOnly item'
  rw [← List.length_map (f := textOnly), ← elements_pared]
  exact congrArg (1 + ·) (countAll_eq_length hitems)

/-! ### The literals of a tree -/

theorem mem_literalsAmong {nodes : List Node} {l : Element} :
    l ∈ literalsAmong nodes ↔ ∃ item ∈ nodes.filterMap Node.element?, l ∈ item.literals := by
  induction nodes with
  | nil => simp [literalsAmong]
  | cons n nodes ih =>
    cases n with
    | element item =>
      show _ ↔ ∃ item' ∈ item :: nodes.filterMap Node.element?, l ∈ item'.literals
      rw [literalsAmong, List.mem_append, ih]
      simp
    | text content line => exact ih

theorem literals_of_mem (h : e.name ∈ literalNames) : e.literals = [e] := by
  obtain ⟨name, attrs, children, line⟩ := e
  exact if_pos h

/-- The literals of an element that is none are those of the elements inside it. -/
theorem forall_mem_literals {P : Element → Prop} (hname : e.name ∉ literalNames)
    (h : ∀ item ∈ e.elements, ∀ l ∈ item.literals, P l) : ∀ l ∈ e.literals, P l := by
  obtain ⟨name, attrs, children, line⟩ := e
  intro l hl
  rw [literals, if_neg (show name ∉ literalNames from hname)] at hl
  obtain ⟨item, hitem, hl⟩ := mem_literalsAmong.1 hl
  exact h item hitem l hl

end Element

end Markup

namespace Template

open Markup
open Engine.World (exists_of_bind_eq_ok)

namespace Scope

variable {s : Scope} {e : Element}

/-! ### Items -/

/-- What an item of a collection contributes: what it denotes by itself if the elements inside it
are left out. -/
def Contributes (s : Scope) (name : String) (item : Element) (p : Payload) : Prop :=
  item.name = name ∧ s.literal item.textOnly = .ok p

/-- What the items of an element come to as a collection. -/
inductive Gathers (s : Scope) (e : Element) : Payload → Prop
  | stringList {texts : List String} (hname : e.name = "string-list")
      (h : List.Forall₂ (fun item text ↦ s.Contributes "string" item (.string text)) e.elements
        texts) : Gathers s e (.stringList texts)
  | stringSet {texts : List String} (hname : e.name = "string-set")
      (h : List.Forall₂ (fun item text ↦ s.Contributes "string" item (.string text)) e.elements
        texts) : Gathers s e (.stringSet (.ofList texts))
  | intList {ns : List Int64} (hname : e.name = "int-list")
      (h : List.Forall₂ (fun item n ↦ s.Contributes "int" item (.int n)) e.elements ns) :
      Gathers s e (.intList ns)
  | intSet {ns : List Int64} (hname : e.name = "int-set")
      (h : List.Forall₂ (fun item n ↦ s.Contributes "int" item (.int n)) e.elements ns) :
      Gathers s e (.intSet (.ofList ns))

theorem children_eq_nil_of_childless {u : Unit} (h : s.childless e = .ok u) : e.children = [] := by
  unfold childless at h
  split at h
  · assumption
  · exact absurd h wrongCount_ne_ok

theorem scalar_eq_ok_iff {read : String → Option Payload} {p : Payload} :
    s.scalar e read = .ok p ↔ e.elements = [] ∧ read e.text = some p := by
  unfold scalar expect refuse
  cases hread : read e.text <;> by_cases h : e.elements = [] <;> simp [h]

theorem literal_string (h : e.name = "string") :
    s.literal e = s.scalar e fun text ↦ some (.string text) := by
  rw [literal, h]
  rfl

theorem literal_int (h : e.name = "int") :
    s.literal e = s.scalar e fun text ↦ (integer? text).map .int := by
  rw [literal, h]
  rfl

theorem contributes_string_iff {item : Element} {text : String} :
    s.Contributes "string" item (.string text) ↔ item.name = "string" ∧ item.text = text := by
  refine and_congr_right fun hname ↦ ?_
  rw [literal_string (e := item.textOnly) hname, scalar_eq_ok_iff, Element.elements_textOnly,
    Element.text_textOnly]
  simp

theorem contributes_int_iff {item : Element} {n : Int64} :
    s.Contributes "int" item (.int n) ↔ item.name = "int" ∧ integer? item.text = some n := by
  refine and_congr_right fun hname ↦ ?_
  rw [literal_int (e := item.textOnly) hname, scalar_eq_ok_iff, Element.elements_textOnly,
    Element.text_textOnly]
  simp

/-- **By itself an item is read as in a collection** if there is no element inside it, and refused
otherwise. -/
theorem literal_item_eq_ok_iff {p : Payload} (h : e.name ∈ ["string", "int"]) :
    s.literal e = .ok p ↔ e.elements = [] ∧ s.Contributes e.name e p := by
  have hsame : ∀ read : String → Option Payload,
      s.scalar e read = .ok p ↔ e.elements = [] ∧ s.scalar e.textOnly read = .ok p := fun read ↦ by
    simp only [scalar_eq_ok_iff, Element.elements_textOnly, Element.text_textOnly, true_and]
  simp only [List.mem_cons, List.not_mem_nil, or_false] at h
  rw [Contributes, and_iff_right rfl]
  rcases h with h | h
  · rw [literal_string h, literal_string (e := e.textOnly) h]
    exact hsame _
  · rw [literal_int h, literal_int (e := e.textOnly) h]
    exact hsame _

/-! ### Collections -/

theorem elements_eq_ok_iff {items : List Element} :
    s.elements e = .ok items ↔ e.hasText = false ∧ e.elements = items := by
  unfold elements refuse
  cases e.hasText <;> simp

theorem mapM_eq_ok_iff {α β : Type} {f : α → Except Problem β} {as : List α} {bs : List β} :
    as.mapM f = .ok bs ↔ List.Forall₂ (fun a b ↦ f a = .ok b) as bs := by
  induction as generalizing bs with
  | nil => cases bs <;> simp [pure, Except.pure]
  | cons a as ih =>
    rw [List.mapM_cons]
    constructor
    · intro h
      obtain ⟨b, hb, h⟩ := exists_of_bind_eq_ok h
      obtain ⟨bs', hbs, h⟩ := exists_of_bind_eq_ok h
      cases h
      exact .cons hb (ih.1 hbs)
    · rintro (_ | ⟨hb, hbs⟩)
      rw [hb, ih.2 hbs]
      rfl

theorem strings_eq_ok_iff {texts : List String} :
    s.strings e = .ok texts ↔ e.hasText = false ∧
      List.Forall₂ (fun item text ↦ s.Contributes "string" item (.string text)) e.elements
        texts := by
  have hitem : ∀ (item : Element) (text : String),
      (if item.name = "string" then .ok item.text else s.refuse item .notAString) = .ok text ↔
        s.Contributes "string" item (.string text) := fun item text ↦ by
    rw [contributes_string_iff]
    by_cases hname : item.name = "string" <;> simp [hname, refuse]
  constructor
  · intro h
    obtain ⟨items, hitems, h⟩ := exists_of_bind_eq_ok h
    obtain ⟨htext, rfl⟩ := elements_eq_ok_iff.1 hitems
    exact ⟨htext, (mapM_eq_ok_iff.1 h).imp fun item text ↦ (hitem item text).1⟩
  · rintro ⟨htext, h⟩
    rw [strings, elements_eq_ok_iff.2 ⟨htext, rfl⟩]
    exact mapM_eq_ok_iff.2 (h.imp fun item text ↦ (hitem item text).2)

theorem integers_eq_ok_iff {ns : List Int64} :
    s.integers e = .ok ns ↔ e.hasText = false ∧
      List.Forall₂ (fun item n ↦ s.Contributes "int" item (.int n)) e.elements ns := by
  have hitem : ∀ (item : Element) (n : Int64),
      (if item.name = "int" then s.expect item (.unreadableText item.text) (integer? item.text)
        else s.refuse item .notAnInt) = .ok n ↔ s.Contributes "int" item (.int n) := fun item n ↦ by
    rw [contributes_int_iff]
    by_cases hname : item.name = "int" <;>
      cases hread : integer? item.text <;> simp [hname, refuse, expect]
  constructor
  · intro h
    obtain ⟨items, hitems, h⟩ := exists_of_bind_eq_ok h
    obtain ⟨htext, rfl⟩ := elements_eq_ok_iff.1 hitems
    exact ⟨htext, (mapM_eq_ok_iff.1 h).imp fun item n ↦ (hitem item n).1⟩
  · rintro ⟨htext, h⟩
    rw [integers, elements_eq_ok_iff.2 ⟨htext, rfl⟩]
    exact mapM_eq_ok_iff.2 (h.imp fun item n ↦ (hitem item n).2)

theorem literal_stringList (h : e.name = "string-list") :
    s.literal e = (s.strings e).map .stringList := by
  rw [literal, h]
  rfl

theorem literal_stringSet (h : e.name = "string-set") :
    s.literal e = (s.strings e).map fun items ↦ .stringSet (.ofList items) := by
  rw [literal, h]
  rfl

theorem literal_intList (h : e.name = "int-list") :
    s.literal e = (s.integers e).map .intList := by
  rw [literal, h]
  rfl

theorem literal_intSet (h : e.name = "int-set") :
    s.literal e = (s.integers e).map fun items ↦ .intSet (.ofList items) := by
  rw [literal, h]
  rfl

/-- **A collection is what its items come to.** -/
theorem literal_eq_ok_iff_gathers {p : Payload} (h : e.name ∈ collectionNames) :
    s.literal e = .ok p ↔ e.hasText = false ∧ s.Gathers e p := by
  constructor
  · intro hread
    simp only [collectionNames, List.mem_cons, List.not_mem_nil, or_false] at h
    rcases h with hname | hname | hname | hname
    · rw [literal_stringList hname] at hread
      obtain ⟨texts, htexts, rfl⟩ := exists_of_map_eq_ok hread
      exact (strings_eq_ok_iff.1 htexts).imp_right (.stringList hname)
    · rw [literal_stringSet hname] at hread
      obtain ⟨texts, htexts, rfl⟩ := exists_of_map_eq_ok hread
      exact (strings_eq_ok_iff.1 htexts).imp_right (.stringSet hname)
    · rw [literal_intList hname] at hread
      obtain ⟨ns, hns, rfl⟩ := exists_of_map_eq_ok hread
      exact (integers_eq_ok_iff.1 hns).imp_right (.intList hname)
    · rw [literal_intSet hname] at hread
      obtain ⟨ns, hns, rfl⟩ := exists_of_map_eq_ok hread
      exact (integers_eq_ok_iff.1 hns).imp_right (.intSet hname)
  · rintro ⟨htext, hgathers⟩
    cases hgathers with
    | stringList hname hitems =>
      rw [literal_stringList hname, strings_eq_ok_iff.2 ⟨htext, hitems⟩]
      rfl
    | stringSet hname hitems =>
      rw [literal_stringSet hname, strings_eq_ok_iff.2 ⟨htext, hitems⟩]
      rfl
    | intList hname hitems =>
      rw [literal_intList hname, integers_eq_ok_iff.2 ⟨htext, hitems⟩]
      rfl
    | intSet hname hitems =>
      rw [literal_intSet hname, integers_eq_ok_iff.2 ⟨htext, hitems⟩]
      rfl

/-- **A literal that is no collection has no element inside.** -/
theorem elements_eq_nil_of_literal {p : Payload} (hname : e.name ∉ collectionNames)
    (h : s.literal e = .ok p) : e.elements = [] := by
  have hchildless : ∀ {u : Unit}, s.childless e = .ok u → e.elements = [] := fun h ↦ by
    rw [Element.elements, children_eq_nil_of_childless h]
    rfl
  unfold literal at h
  split at h
  case h_1 =>
    obtain ⟨_, hchild, -⟩ := exists_of_map_eq_ok h
    exact hchildless hchild
  case h_6 =>
    obtain ⟨_, hchild, -⟩ := exists_of_bind_eq_ok h
    exact hchildless hchild
  case h_7 hcollection | h_8 hcollection | h_9 hcollection | h_10 hcollection =>
    exact absurd (by rw [hcollection]; decide) hname
  case h_11 => exact absurd h refuse_ne_ok
  all_goals exact (scalar_eq_ok_iff.1 h).1

/-- **A literal is read as if nothing stood inside its items.** -/
theorem literal_pared {p : Payload} (h : s.literal e = .ok p) : s.literal e.pared = .ok p := by
  by_cases hname : e.name ∈ collectionNames
  · obtain ⟨htext, hgathers⟩ := (literal_eq_ok_iff_gathers hname).1 h
    refine (literal_eq_ok_iff_gathers (e := e.pared) hname).2 ⟨?_, ?_⟩
    · rw [Element.hasText_pared, htext]
    have hitems : ∀ {α : Type} {name : String} {bs : List α} {part : α → Payload},
        List.Forall₂ (fun item b ↦ s.Contributes name item (part b)) e.elements bs →
        List.Forall₂ (fun item b ↦ s.Contributes name item (part b)) e.pared.elements bs := by
      intro α name bs part h
      rw [Element.elements_pared, List.forall₂_map_left_iff]
      refine h.imp fun item b ⟨hitem, hpart⟩ ↦ ⟨hitem, ?_⟩
      rwa [Element.textOnly_eq_self (Element.elements_textOnly item)]
    cases hgathers with
    | stringList hname hparts => exact .stringList hname (hitems hparts)
    | stringSet hname hparts => exact .stringSet hname (hitems hparts)
    | intList hname hparts => exact .intList hname (hitems hparts)
    | intSet hname hparts => exact .intSet hname (hitems hparts)
  · have hself : e.pared = e := by
      rw [Element.pared_eq_self_iff, elements_eq_nil_of_literal hname h]
      exact fun _ hmem ↦ absurd hmem List.not_mem_nil
    rwa [hself]

/-! ### What is read of a template -/

/-- An element of which all has been read, down to its literals. -/
inductive Understood (s : Scope) : Element → Prop
  | literal {e : Element} {p : Payload} (h : s.literal e = .ok p) : Understood s e
  | around {e : Element} (hname : e.name ∉ literalNames)
      (h : ∀ item ∈ e.elements, Understood s item) : Understood s e

theorem collectionNames_subset : collectionNames ⊆ literalNames := by decide

theorem not_mem_literalNames_of_relation {name : String} {r : Relation}
    (h : Relation.ofName? name = some r) : name ∉ literalNames := by
  have hfound := List.find?_some (p := fun r : Relation ↦ r.name == name) h
  have hname : r.name = name := beq_iff_eq.1 hfound
  subst hname
  cases r <;> decide

theorem not_mem_literalNames_of_assignment {name : String} {a : Assignment}
    (h : Assignment.ofName? name = some a) : name ∉ literalNames := by
  have hfound := List.find?_some (p := fun a : Assignment ↦ a.name == name) h
  have hname : a.name = name := beq_iff_eq.1 hfound
  subst hname
  cases a <;> decide

/-- **Whatever has been read down to its literals**, all its literals denote something. -/
theorem Understood.denotes (h : s.Understood e) : ∀ l ∈ e.literals, ∃ p, s.literal l = .ok p := by
  induction h with
  | @literal e p h =>
    by_cases hname : e.name ∈ literalNames
    · rw [Element.literals_of_mem hname]
      exact List.forall_mem_singleton.2 ⟨p, h⟩
    · refine Element.forall_mem_literals hname fun item hitem ↦ ?_
      have hcollection : e.name ∉ collectionNames := fun hmem ↦
        hname (collectionNames_subset hmem)
      rw [elements_eq_nil_of_literal hcollection h] at hitem
      exact absurd hitem List.not_mem_nil
  | around hname _ ih => exact Element.forall_mem_literals hname ih

/-- What has been read where some globals are known can be read where others are. -/
theorem Understood.globals (h : s.Understood e) (keys : List String) :
    (⟨s.file, keys⟩ : Scope).Understood e := by
  induction h with
  | literal h => exact .literal (s := ⟨s.file, keys⟩) h
  | around hname _ ih => exact .around hname ih

theorem understood_of_nil (hname : e.name ∉ literalNames) (h : e.children = []) :
    s.Understood e :=
  .around hname fun item hitem ↦ by
    rw [Element.elements, h] at hitem
    exact absurd hitem List.not_mem_nil

/-- An element around one other that has been read. -/
theorem understood_of_child {child : Element} (hname : e.name ∉ literalNames)
    (hchildren : e.children = [.element child]) (h : s.Understood child) : s.Understood e :=
  .around hname fun item hitem ↦ by
    rw [Element.elements, hchildren] at hitem
    rwa [List.mem_singleton.1 hitem]

theorem understood_of_globalRef {key : String} (hname : e.name ∉ literalNames)
    (h : s.globalRef e = .ok key) : s.Understood e := by
  obtain ⟨_, hchild, -⟩ := exists_of_bind_eq_ok h
  exact understood_of_nil hname (children_eq_nil_of_childless hchild)

theorem understood_of_reference {r : Reference Payload} (h : s.reference e = .ok r) :
    s.Understood e := by
  unfold reference at h
  split at h
  case h_1 hname =>
    obtain ⟨key, hkey, -⟩ := exists_of_map_eq_ok h
    exact understood_of_globalRef (by rw [hname]; decide) hkey
  case h_2 hname =>
    obtain ⟨_, hchild, -⟩ := exists_of_bind_eq_ok h
    exact understood_of_nil (by rw [hname]; decide) (children_eq_nil_of_childless hchild)
  case h_3 =>
    obtain ⟨p, hp, -⟩ := exists_of_map_eq_ok h
    exact .literal hp

theorem understood_of_operands {a b : Reference Payload} (hname : e.name ∉ literalNames)
    (h : s.operands e = .ok (a, b)) : s.Understood e := by
  unfold operands at h
  split at h
  · rename_i left right hchildren
    obtain ⟨_, hleft, h⟩ := exists_of_bind_eq_ok h
    obtain ⟨_, hright, -⟩ := exists_of_bind_eq_ok h
    refine .around hname ?_
    rw [Element.elements, hchildren]
    exact List.forall_mem_cons.2
      ⟨understood_of_reference hleft, List.forall_mem_singleton.2 (understood_of_reference hright)⟩
  · exact absurd h wrongCount_ne_ok

/-! ### Predicates and updates -/

theorem exists_of_predicates {nodes : List Node} {ps : List (Predicate Payload)}
    (h : s.predicates nodes = .ok ps) :
    ∀ item ∈ nodes.filterMap Node.element?, ∃ p, s.predicate item = .ok p := by
  induction nodes generalizing ps with
  | nil => exact fun _ hitem ↦ absurd hitem List.not_mem_nil
  | cons n nodes ih =>
    rw [predicates.eq_def] at h
    cases n with
    | element e =>
      obtain ⟨p, hp, h⟩ := exists_of_bind_eq_ok h
      obtain ⟨ps, hps, -⟩ := exists_of_bind_eq_ok h
      exact List.forall_mem_cons.2 ⟨⟨p, hp⟩, ih hps⟩
    | text content line => exact ih h

theorem exists_of_updates {nodes : List Node} {us : List (Update Payload)}
    (h : s.updates nodes = .ok us) :
    ∀ item ∈ nodes.filterMap Node.element?, ∃ u, s.update item = .ok u := by
  induction nodes generalizing us with
  | nil => exact fun _ hitem ↦ absurd hitem List.not_mem_nil
  | cons n nodes ih =>
    rw [updates.eq_def] at h
    cases n with
    | element e =>
      obtain ⟨u, hu, h⟩ := exists_of_bind_eq_ok h
      obtain ⟨us, hus, -⟩ := exists_of_bind_eq_ok h
      exact List.forall_mem_cons.2 ⟨⟨u, hu⟩, ih hus⟩
    | text content line => exact ih h

/-- What the cases of a `<switch>` are: each a predicate and then updates. -/
theorem exists_of_cases {nodes : List Node} {cs : List (Case Payload)}
    (h : s.cases nodes = .ok cs) :
    ∀ item ∈ nodes.filterMap Node.element?, item.name = "case" ∧
      ∃ condition others p us, item.children = .element condition :: others ∧
        s.predicate condition = .ok p ∧ s.updates others = .ok us := by
  induction nodes generalizing cs with
  | nil => exact fun _ hitem ↦ absurd hitem List.not_mem_nil
  | cons n nodes ih =>
    rw [cases.eq_def] at h
    cases n with
    | text content line => exact ih h
    | element e =>
      obtain ⟨name, attrs, children, line⟩ := e
      dsimp only at h
      split at h
      · rename_i hname
        obtain ⟨-, -, h⟩ := exists_of_bind_eq_ok h
        split at h
        · rename_i condition others _
          obtain ⟨p, hp, h⟩ := exists_of_bind_eq_ok h
          obtain ⟨us, hus, h⟩ := exists_of_bind_eq_ok h
          obtain ⟨c, -, h⟩ := exists_of_bind_eq_ok h
          obtain ⟨cs, hcs, -⟩ := exists_of_bind_eq_ok h
          exact List.forall_mem_cons.2 ⟨⟨hname, condition, others, p, us, rfl, hp, hus⟩, ih hcs⟩
        · cases h
      · cases h

/-- **A predicate is read down to its literals.** -/
theorem understood_of_predicate {p : Predicate Payload} (h : s.predicate e = .ok p) :
    s.Understood e := by
  induction e using Element.inductionOn generalizing p with | _ e ih
  obtain ⟨name, attrs, children, line⟩ := e
  unfold predicate at h
  split at h
  · rename_i r hr
    obtain ⟨⟨a, b⟩, hab, -⟩ := exists_of_map_eq_ok h
    exact understood_of_operands (not_mem_literalNames_of_relation hr) hab
  have hparts : ∀ {ps : List (Predicate Payload)}, name ∉ literalNames →
      s.predicates children = .ok ps → s.Understood (.mk name attrs children line) :=
    fun hname hps ↦ .around hname fun item hitem ↦ by
      obtain ⟨q, hq⟩ := exists_of_predicates hps item hitem
      exact ih item hitem hq
  split at h
  · obtain ⟨_, hchild, -⟩ := exists_of_map_eq_ok h
    exact understood_of_nil (show "true" ∉ literalNames by decide)
      (children_eq_nil_of_childless hchild)
  · obtain ⟨_, hchild, -⟩ := exists_of_map_eq_ok h
    exact understood_of_nil (show "false" ∉ literalNames by decide)
      (children_eq_nil_of_childless hchild)
  · split at h
    · obtain ⟨q, hq, -⟩ := exists_of_map_eq_ok h
      exact understood_of_child (show "not" ∉ literalNames by decide) rfl
        (ih _ List.mem_cons_self hq)
    · exact absurd h wrongCount_ne_ok
  · obtain ⟨-, -, h⟩ := exists_of_bind_eq_ok h
    obtain ⟨ps, hps, -⟩ := exists_of_bind_eq_ok h
    exact hparts (by decide) hps
  · obtain ⟨-, -, h⟩ := exists_of_bind_eq_ok h
    obtain ⟨ps, hps, -⟩ := exists_of_bind_eq_ok h
    exact hparts (by decide) hps
  · split at h
    · obtain ⟨window, -, h⟩ := exists_of_bind_eq_ok h
      obtain ⟨a, ha, -⟩ := exists_of_bind_eq_ok h
      exact understood_of_child (show "changed" ∉ literalNames by decide) rfl
        (understood_of_reference ha)
    · exact absurd h wrongCount_ne_ok
  · exact absurd h refuse_ne_ok

/-- Each of a list of references is read. -/
theorem understood_of_references {items : List Element} {rs : List (Reference Payload)}
    (h : items.mapM s.reference = .ok rs) : ∀ item ∈ items, s.Understood item := by
  have hall := mapM_eq_ok_iff.1 h
  clear h
  induction hall with
  | nil => exact fun _ hitem ↦ absurd hitem List.not_mem_nil
  | cons hhere _ ih => exact List.forall_mem_cons.2 ⟨understood_of_reference hhere, ih⟩

theorem not_literal_of_name {name name' : String} (h : name = name')
    (hname : name' ∉ literalNames) : name ∉ literalNames := by rwa [h]

/-- An update is read down to its literals, and so are the updates inside an element. -/
theorem understood_of_update_and (e : Element) :
    (∀ u, s.update e = .ok u → s.Understood e) ∧
      ∀ item ∈ e.elements, ∀ u, s.update item = .ok u → s.Understood item := by
  induction e using Element.inductionOn with | _ e ih
  refine ⟨fun u h ↦ ?_, fun item hitem ↦ (ih item hitem).1⟩
  obtain ⟨name, attrs, children, line⟩ := e
  unfold update at h
  split at h
  · rename_i a ha
    obtain ⟨⟨target, source⟩, hoperands, -⟩ := exists_of_map_eq_ok h
    exact understood_of_operands (not_mem_literalNames_of_assignment ha) hoperands
  -- The parts of an `if` and the cases of a `switch` hold updates that are two levels below.
  have hupdates : ∀ (part : Element) {us : List (Update Payload)}, part.name ∉ literalNames →
      (∀ item ∈ part.elements, ∀ u, s.update item = .ok u → s.Understood item) →
      s.updates part.children = .ok us → s.Understood part := fun _ _ hname hitems hus ↦
    .around hname fun item hitem ↦ by
      obtain ⟨u, hu⟩ := exists_of_updates hus item hitem
      exact hitems item hitem u hu
  split at h
  · obtain ⟨items, hitems, h⟩ := exists_of_bind_eq_ok h
    obtain ⟨targets, htargets, -⟩ := exists_of_bind_eq_ok h
    obtain ⟨-, rfl⟩ := elements_eq_ok_iff.1 hitems
    exact .around (show "clear" ∉ literalNames by decide) (understood_of_references htargets)
  · obtain ⟨-, -, h⟩ := exists_of_bind_eq_ok h
    obtain ⟨us, hus, -⟩ := exists_of_bind_eq_ok h
    exact hupdates _ (show "do" ∉ literalNames by decide) (fun item hitem ↦ (ih item hitem).1) hus
  · obtain ⟨items, -, h⟩ := exists_of_bind_eq_ok h
    split at h
    -- An `if` with a `then` only, one with an `else`, and one of another shape.
    · obtain ⟨p, hp, h⟩ := exists_of_bind_eq_ok h
      split at h
      · rename_i hthen
        obtain ⟨-, -, h⟩ := exists_of_bind_eq_ok h
        obtain ⟨us, hus, -⟩ := exists_of_bind_eq_ok h
        obtain ⟨-, hrest⟩ := List.forall_mem_cons.1 ih
        obtain ⟨-, hitems⟩ := List.forall_mem_singleton.1 hrest
        have hpart := hupdates (.mk _ _ _ _) (not_literal_of_name hthen (by decide)) hitems hus
        exact .around (show "if" ∉ literalNames by decide) (List.forall_mem_cons.2
          ⟨understood_of_predicate hp, List.forall_mem_singleton.2 hpart⟩)
      · exact absurd h refuse_ne_ok
    · obtain ⟨p, hp, h⟩ := exists_of_bind_eq_ok h
      split at h
      · rename_i hthen
        obtain ⟨-, -, h⟩ := exists_of_bind_eq_ok h
        obtain ⟨us, hus, h⟩ := exists_of_bind_eq_ok h
        split at h
        · rename_i helse
          obtain ⟨-, -, h⟩ := exists_of_bind_eq_ok h
          obtain ⟨vs, hvs, -⟩ := exists_of_bind_eq_ok h
          obtain ⟨-, hrest⟩ := List.forall_mem_cons.1 ih
          obtain ⟨⟨-, hthens⟩, hlast⟩ := List.forall_mem_cons.1 hrest
          obtain ⟨-, helses⟩ := List.forall_mem_singleton.1 hlast
          have hthenPart :=
            hupdates (.mk _ _ _ _) (not_literal_of_name hthen (by decide)) hthens hus
          have helsePart :=
            hupdates (.mk _ _ _ _) (not_literal_of_name helse (by decide)) helses hvs
          exact .around (show "if" ∉ literalNames by decide) (List.forall_mem_cons.2
            ⟨understood_of_predicate hp,
              List.forall_mem_cons.2 ⟨hthenPart, List.forall_mem_singleton.2 helsePart⟩⟩)
        · exact absurd h refuse_ne_ok
      · exact absurd h refuse_ne_ok
    · exact absurd h refuse_ne_ok
  · obtain ⟨-, -, h⟩ := exists_of_bind_eq_ok h
    obtain ⟨cs, hcs, -⟩ := exists_of_bind_eq_ok h
    refine .around (show "switch" ∉ literalNames by decide) fun item hitem ↦ ?_
    obtain ⟨hname, condition, others, p, us, hchildren, hp, hus⟩ := exists_of_cases hcs item hitem
    have helements : item.elements = condition :: others.filterMap Node.element? := by
      rw [Element.elements, hchildren]
      rfl
    have hbelow := (ih item hitem).2
    refine .around (not_literal_of_name hname (by decide)) ?_
    rw [helements] at hbelow ⊢
    refine List.forall_mem_cons.2 ⟨understood_of_predicate hp, fun part hpart ↦ ?_⟩
    obtain ⟨u, hu⟩ := exists_of_updates hus part hpart
    exact hbelow part (List.mem_cons_of_mem _ hpart) u hu
  · exact absurd h refuse_ne_ok

/-- **An update is read down to its literals.** -/
theorem understood_of_update {u : Update Payload} (h : s.update e = .ok u) : s.Understood e :=
  (understood_of_update_and e).1 u h

/-! ### Documents -/

theorem understood_of_action {a : Action Payload} (hname : e.name = "action")
    (h : s.action e = .ok a) : s.Understood e := by
  unfold action at h
  obtain ⟨target, -, h⟩ := exists_of_bind_eq_ok h
  obtain ⟨kind, -, h⟩ := exists_of_bind_eq_ok h
  obtain ⟨-, -, h⟩ := exists_of_bind_eq_ok h
  obtain ⟨us, hus, -⟩ := exists_of_bind_eq_ok h
  refine .around (not_literal_of_name hname (by decide)) fun item hitem ↦ ?_
  obtain ⟨u, hu⟩ := exists_of_updates hus item hitem
  exact understood_of_update hu

theorem understood_of_reaction {r : Reaction Payload} (hname : e.name = "reaction")
    (h : s.reaction e = .ok r) : s.Understood e := by
  unfold reaction at h
  obtain ⟨target, -, h⟩ := exists_of_bind_eq_ok h
  obtain ⟨kind, -, h⟩ := exists_of_bind_eq_ok h
  split at h
  · rename_i child hchildren
    obtain ⟨p, hp, -⟩ := exists_of_map_eq_ok h
    exact understood_of_child (not_literal_of_name hname (by decide)) hchildren
      (understood_of_predicate hp)
  · exact absurd h wrongCount_ne_ok

/-- An entry of a map whose value is read down to its literals. -/
theorem understood_of_entry {α : Type} {read : Element → Except Problem α} {entry : String × α}
    (hread : ∀ {item a}, read item = .ok a → s.Understood item) (h : s.entry read e = .ok entry) :
    s.Understood e := by
  unfold Scope.entry at h
  split at h
  · rename_i hname
    obtain ⟨key, -, h⟩ := exists_of_bind_eq_ok h
    split at h
    · rename_i inner hchildren
      obtain ⟨a, ha, -⟩ := exists_of_map_eq_ok h
      exact understood_of_child (not_literal_of_name hname (by decide)) hchildren (hread ha)
    · exact absurd h wrongCount_ne_ok
  · exact absurd h refuse_ne_ok

theorem understood_of_watched {value : Watched} (h : s.watched e = .ok value) :
    s.Understood e := by
  unfold watched at h
  split at h
  · rename_i hname
    obtain ⟨key, hkey, -⟩ := exists_of_map_eq_ok h
    exact understood_of_globalRef (not_literal_of_name hname (by decide)) hkey
  · obtain ⟨p, hp, -⟩ := exists_of_map_eq_ok h
    exact .literal hp

/-- What is gathered from items one after the other is gathered from each of them. -/
theorem exists_of_foldlM {α σ : Type} {step : σ → α → Except Problem σ} {items : List α} {a b : σ}
    (h : items.foldlM step a = .ok b) : ∀ x ∈ items, ∃ before after, step before x = .ok after := by
  induction items generalizing a with
  | nil => exact fun _ hx ↦ absurd hx List.not_mem_nil
  | cons x items ih =>
    rw [List.foldlM_cons] at h
    obtain ⟨after, hafter, h⟩ := exists_of_bind_eq_ok h
    exact List.forall_mem_cons.2 ⟨⟨a, after, hafter⟩, ih h⟩

theorem understood_of_valueMap {m : OrderedMap Watched} (h : s.valueMap e = .ok m) :
    s.Understood e := by
  unfold valueMap at h
  split at h
  · rename_i hname
    obtain ⟨items, hitems, h⟩ := exists_of_bind_eq_ok h
    obtain ⟨-, rfl⟩ := elements_eq_ok_iff.1 hitems
    refine .around (not_literal_of_name hname (by decide)) fun item hitem ↦ ?_
    obtain ⟨before, after, hstep⟩ := exists_of_foldlM h item hitem
    obtain ⟨entry, hentry, -⟩ := exists_of_bind_eq_ok hstep
    exact understood_of_entry understood_of_watched hentry
  · exact absurd h refuse_ne_ok

theorem understood_of_watch {w : Watch Watched} (hname : e.name = "watch")
    (h : s.watch e = .ok w) : s.Understood e := by
  unfold watch at h
  obtain ⟨kind, -, h⟩ := exists_of_bind_eq_ok h
  split at h
  · rename_i child hchildren
    obtain ⟨m, hm, -⟩ := exists_of_map_eq_ok h
    exact understood_of_child (not_literal_of_name hname (by decide)) hchildren
      (understood_of_valueMap hm)
  · exact absurd h wrongCount_ne_ok

theorem understood_of_interactions {i : Interactions Payload Watched}
    (hname : e.name = "interactions") (h : s.interactions e = .ok i) : s.Understood e := by
  unfold interactions at h
  obtain ⟨items, hitems, h⟩ := exists_of_bind_eq_ok h
  obtain ⟨declared, hdeclared, -⟩ := exists_of_bind_eq_ok h
  obtain ⟨-, rfl⟩ := elements_eq_ok_iff.1 hitems
  refine .around (not_literal_of_name hname (by decide)) fun item hitem ↦ ?_
  obtain ⟨before, after, hstep⟩ := exists_of_foldlM hdeclared item hitem
  split at hstep
  · rename_i hitem
    obtain ⟨a, ha, -⟩ := exists_of_map_eq_ok hstep
    exact understood_of_action hitem ha
  · rename_i hitem
    obtain ⟨r, hr, -⟩ := exists_of_map_eq_ok hstep
    exact understood_of_reaction hitem hr
  · rename_i hitem
    obtain ⟨w, hw, -⟩ := exists_of_map_eq_ok hstep
    exact understood_of_watch hitem hw
  · exact absurd hstep refuse_ne_ok

theorem understood_of_addGlobal {before after : OrderedMap Payload}
    (h : s.addGlobal before e = .ok after) : s.Understood e := by
  obtain ⟨entry, hentry, -⟩ := exists_of_bind_eq_ok h
  exact understood_of_entry .literal hentry

theorem understood_of_globalState {globals : OrderedMap Payload}
    (hname : e.name = "global-state") (h : s.globalState e = .ok globals) : s.Understood e := by
  unfold globalState at h
  obtain ⟨items, hitems, h⟩ := exists_of_bind_eq_ok h
  obtain ⟨-, rfl⟩ := elements_eq_ok_iff.1 hitems
  refine .around (not_literal_of_name hname (by decide)) fun item hitem ↦ ?_
  obtain ⟨before, after, hstep⟩ := exists_of_foldlM h item hitem
  split at hstep
  · rename_i hitem
    obtain ⟨entries, hentries, hstep⟩ := exists_of_bind_eq_ok hstep
    obtain ⟨-, rfl⟩ := elements_eq_ok_iff.1 hentries
    refine .around (not_literal_of_name hitem (by decide)) fun part hpart ↦ ?_
    obtain ⟨before, after, hadd⟩ := exists_of_foldlM hstep part hpart
    exact understood_of_addGlobal hadd
  · exact understood_of_addGlobal hstep
  · exact absurd hstep refuse_ne_ok

/-- A section that has been found stays the one, and every item is one of those found. -/
theorem found_of_sections {items : List Element} {found final : Option Element × Option Element}
    (h : items.foldlM (fun (found : Option Element × Option Element) item ↦
      match item.name with
      | "global-state" =>
        if found.1.isSome then s.refuse item .repeatedSection else pure (some item, found.2)
      | "interactions" =>
        if found.2.isSome then s.refuse item .repeatedSection else pure (found.1, some item)
      | _ => s.refuse item .notASection) found = .ok final) :
    (∀ x, found.1 = some x → final.1 = some x) ∧ (∀ x, found.2 = some x → final.2 = some x) ∧
      ∀ item ∈ items, item.name = "global-state" ∧ final.1 = some item ∨
        item.name = "interactions" ∧ final.2 = some item := by
  induction items generalizing found with
  | nil =>
    cases h
    exact ⟨fun _ hx ↦ hx, fun _ hx ↦ hx, fun _ hitem ↦ absurd hitem List.not_mem_nil⟩
  | cons item items ih =>
    rw [List.foldlM_cons] at h
    obtain ⟨next, hnext, h⟩ := exists_of_bind_eq_ok h
    obtain ⟨hstate, hinteractions, hitems⟩ := ih h
    split at hnext
    · rename_i hname
      split at hnext
      · exact absurd hnext refuse_ne_ok
      · rename_i hnone
        cases hnext
        refine ⟨fun x hx ↦ ?_, hinteractions,
          List.forall_mem_cons.2 ⟨.inl ⟨hname, hstate item rfl⟩, hitems⟩⟩
        rw [hx] at hnone
        exact absurd rfl hnone
    · rename_i hname
      split at hnext
      · exact absurd hnext refuse_ne_ok
      · rename_i hnone
        cases hnext
        refine ⟨hstate, fun x hx ↦ ?_,
          List.forall_mem_cons.2 ⟨.inr ⟨hname, hinteractions item rfl⟩, hitems⟩⟩
        rw [hx] at hnone
        exact absurd rfl hnone
    · exact absurd hnext refuse_ne_ok

end Scope

/-- **A template that denotes a document has been read down to its literals.** -/
theorem understood_of_ofElement {file : String} {root : Element} {d : Document}
    (h : Document.ofElement file root = .ok d) :
    (⟨file, d.globals.keys⟩ : Scope).Understood root := by
  unfold Document.ofElement at h
  split at h
  · rename_i hname
    obtain ⟨⟨state, interactions⟩, hsections, h⟩ := exists_of_bind_eq_ok h
    cases hsections
    obtain ⟨globals, hglobals, h⟩ := exists_of_bind_eq_ok h
    cases hglobals
    obtain ⟨i, hi, rfl⟩ := exists_of_map_eq_ok h
    exact Scope.understood_of_interactions hname hi
  · rename_i hname
    obtain ⟨⟨state, interactions⟩, hsections, h⟩ := exists_of_bind_eq_ok h
    obtain ⟨items, hitems, hfound⟩ := exists_of_bind_eq_ok hsections
    obtain ⟨-, rfl⟩ := Scope.elements_eq_ok_iff.1 hitems
    obtain ⟨-, -, hfound⟩ := Scope.found_of_sections hfound
    refine .around (Scope.not_literal_of_name hname (by decide)) fun item hitem ↦ ?_
    rcases hfound item hitem with ⟨hitemName, rfl⟩ | ⟨hitemName, rfl⟩
    · obtain ⟨globals, hglobals, -⟩ := exists_of_bind_eq_ok h
      exact (Scope.understood_of_globalState hitemName hglobals).globals d.globals.keys
    · cases state <;>
      · obtain ⟨globals, -, h⟩ := exists_of_bind_eq_ok h
        obtain ⟨i, hi, rfl⟩ := exists_of_map_eq_ok h
        exact Scope.understood_of_interactions hitemName hi
  · obtain ⟨_, hsections, -⟩ := exists_of_bind_eq_ok h
    exact absurd hsections Scope.refuse_ne_ok

/-! ### What is passed over in literals -/

/-- What a literal of a template comes to, and what of it does not count. -/
structure ReadAs (s : Scope) (l : Element) (p : Payload) : Prop where
  read : s.literal l = .ok p
  /-- A collection comes of what its items contribute. -/
  items : l.name ∈ collectionNames → s.Gathers l p
  /-- There is no element in any other literal. -/
  single : l.name ∉ collectionNames → l.elements = []
  /-- What stands inside items does not count. -/
  passed : s.literal l.pared = .ok p
  /-- Apart from that there are no elements in a literal but its items. -/
  counted : l.pared.count = 1 + l.elements.length
  /-- Nothing is passed over if, and only if, no item has an element inside. -/
  nothing : l.pared = l ↔ ∀ item ∈ l.elements, item.elements = []

/-- **Items are read like literals of their own, but for the elements inside them.** In any element
tree, a collection denotes just what its items contribute, each of them what it would denote by
itself without the elements inside it; and by itself it denotes that too, unless there are such
elements, and then nothing. So in a template that denotes a document each literal denotes a payload,
and what has been passed over is just what stands inside the items of its collections. -/
theorem literals_read (file : String) (root : Element) :
    (∀ (s : Scope) (e : Element) (p : Payload), e.name ∈ collectionNames →
      (s.literal e = .ok p ↔ e.hasText = false ∧ s.Gathers e p)) ∧
    (∀ (s : Scope) (item : Element) (p : Payload), item.name ∈ ["string", "int"] →
      (s.literal item = .ok p ↔ item.elements = [] ∧ s.Contributes item.name item p)) ∧
    ∀ d, Document.ofElement file root = .ok d →
      ∀ l ∈ root.literals, ∃ p, ReadAs ⟨file, d.globals.keys⟩ l p := by
  refine ⟨fun s e p ↦ Scope.literal_eq_ok_iff_gathers, fun s item p ↦ Scope.literal_item_eq_ok_iff,
    fun d h l hl ↦ ?_⟩
  obtain ⟨p, hp⟩ := (understood_of_ofElement h).denotes l hl
  exact ⟨p, {
    read := hp
    items := fun hname ↦ ((Scope.literal_eq_ok_iff_gathers hname).1 hp).2
    single := fun hname ↦ Scope.elements_eq_nil_of_literal hname hp
    passed := Scope.literal_pared hp
    counted := l.count_pared
    nothing := Element.pared_eq_self_iff }⟩

/-- A text with an element inside it that is nowhere known. -/
def stained : Element :=
  .mk "string" [] [.text "a" 1, .element (.mk "bogus" [] [] 1)] 1

/-- A list of it. -/
def stainedList : Element := .mk "string-list" [] [.element stained] 1

/-- A template that declares the list. -/
def stainedTemplate : Element :=
  .mk "traceviz" [] [.element (.mk "global-state" []
    [.element (.mk "value" [⟨"key", "v"⟩] [.element stainedList] 1)] 1)] 1

/-- The template denotes a document with the list of that text; the element inside it has been
passed over, for which the text is refused by itself. -/
theorem literals_read_stained :
    (∃ d, Document.ofElement "t" stainedTemplate = .ok d) ∧
      (⟨"t", ["v"]⟩ : Scope).literal stainedList = .ok (.stringList ["a"]) ∧
      stainedList.pared ≠ stainedList ∧ ∀ p, (⟨"t", ["v"]⟩ : Scope).literal stained ≠ .ok p := by
  have hdocument : Document.ofElement "t" stainedTemplate =
      .ok ⟨.ofList [("v", .stringList ["a"])], .empty⟩ := rfl
  obtain ⟨-, halone, hread⟩ := literals_read "t" stainedTemplate
  obtain ⟨p, hp⟩ := hread _ hdocument stainedList List.mem_cons_self
  have hlist : p = .stringList ["a"] := Except.ok.inj (hp.read.symm.trans rfl)
  subst hlist
  refine ⟨⟨_, hdocument⟩, hp.read, fun hsame ↦ ?_, fun p hp ↦ ?_⟩
  · exact absurd (hp.nothing.1 hsame stained List.mem_cons_self) (List.cons_ne_nil _ _)
  · exact absurd ((halone _ stained p (by decide)).1 hp).1 (List.cons_ne_nil _ _)

end Template

end LiveTemplate
