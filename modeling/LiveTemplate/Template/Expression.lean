import LiveTemplate.Template.Literal

/-!
# Predicates and updates

How a template writes predicates and updates: each constructor as an element of its name, its parts
as the elements inside it. A predicate in an update comes first; the updates of an `<if>` stand in
`<then>` and `<else>`, those of a `<switch>` in its cases.
-/

namespace LiveTemplate.Template.Scope

open Markup

/-- The window of a `<changed>`, in milliseconds; zero if it gives none. -/
def window (s : Scope) (e : Element) : Except Problem UInt64 :=
  match (e.attr? "since-ms").or (e.attr? "sinceMs") with
  | some raw => s.expect e (.unreadableDelay raw) (Decimal.uint64? (Text.trim raw.toList))
  | none => .ok 0

/-- The two operands of an element. -/
def operands (s : Scope) (e : Element) :
    Except Problem (Reference Payload × Reference Payload) :=
  match e.children with
  | [.element left, .element right] => do
    let a ← s.reference left
    let b ← s.reference right
    pure (a, b)
  | _ => s.wrongCount e 2

mutual

/-- A predicate. -/
def predicate (s : Scope) : Element → Except Problem (Predicate Payload)
  | .mk name attrs children line =>
    let e := Element.mk name attrs children line
    match Relation.ofName? name with
    | some r => (s.operands e).map fun (a, b) => .term (.relation r a b)
    | none =>
      match name with
      | "true" => (s.childless e).map fun _ => .const true
      | "false" => (s.childless e).map fun _ => .const false
      | "not" =>
        match children with
        | [.element child] => (predicate s child).map .not
        | _ => s.wrongCount e 1
      | "and" => do
        let _ ← s.elements e
        let parts ← predicates s children
        if parts.length < 2 then s.refuse e (.tooFewChildren "and" parts.length)
        else pure (.and parts)
      | "or" => do
        let _ ← s.elements e
        let parts ← predicates s children
        if parts.length < 2 then s.refuse e (.tooFewChildren "or" parts.length)
        else pure (.or parts)
      | "changed" =>
        match children with
        | [.element child] => do
          let window ← s.window e
          let operand ← s.reference child
          pure (.term (.changed operand window))
        | _ => s.wrongCount e 1
      | _ => s.refuse e .notAPredicate

/-- The predicates among some content. -/
def predicates (s : Scope) : List Node → Except Problem (List (Predicate Payload))
  | [] => .ok []
  | .element e :: rest => do
    let p ← predicate s e
    let ps ← predicates s rest
    pure (p :: ps)
  | .text _ _ :: rest => predicates s rest

end

mutual

/-- An update. -/
def update (s : Scope) : Element → Except Problem (Update Payload)
  | .mk name attrs children line =>
    let e := Element.mk name attrs children line
    match Assignment.ofName? name with
    | some a => (s.operands e).map fun (target, source) => .assign a target source
    | none =>
      match name with
      | "clear" => do
        let items ← s.elements e
        let targets ← items.mapM s.reference
        if targets.isEmpty then s.refuse e .noTarget else pure (.clear targets)
      | "do" => do
        let _ ← s.elements e
        let us ← updates s children
        pure (.sequence us)
      | "if" => do
        let items ← s.elements e
        match children with
        | [.element condition, .element (.mk thenName thenAttrs thenChildren thenLine)] => do
          let p ← s.predicate condition
          let thenPart := Element.mk thenName thenAttrs thenChildren thenLine
          if thenName = "then" then
            let _ ← s.elements thenPart
            let us ← updates s thenChildren
            pure (.when p us)
          else s.refuse thenPart .notThen
        | [.element condition, .element (.mk thenName thenAttrs thenChildren thenLine),
            .element (.mk elseName elseAttrs elseChildren elseLine)] => do
          let p ← s.predicate condition
          let thenPart := Element.mk thenName thenAttrs thenChildren thenLine
          let elsePart := Element.mk elseName elseAttrs elseChildren elseLine
          if thenName = "then" then
            let _ ← s.elements thenPart
            let us ← updates s thenChildren
            if elseName = "else" then
              let _ ← s.elements elsePart
              let vs ← updates s elseChildren
              pure (.choose p us vs)
            else s.refuse elsePart .notElse
          else s.refuse thenPart .notThen
        | _ => s.refuse e (.ifShape items.length)
      | "switch" => do
        let _ ← s.elements e
        let cs ← cases s children
        if cs.isEmpty then s.refuse e .noCase else pure (.switch cs)
      | _ => s.refuse e .notAnUpdate

/-- The updates among some content. -/
def updates (s : Scope) : List Node → Except Problem (List (Update Payload))
  | [] => .ok []
  | .element e :: rest => do
    let u ← update s e
    let us ← updates s rest
    pure (u :: us)
  | .text _ _ :: rest => updates s rest

/-- The cases among some content. -/
def cases (s : Scope) : List Node → Except Problem (List (Case Payload))
  | [] => .ok []
  | .element (.mk name attrs children line) :: rest => do
    let e := Element.mk name attrs children line
    let c ←
      if name = "case" then do
        let _ ← s.elements e
        match children with
        | .element condition :: others => do
          let p ← s.predicate condition
          let us ← updates s others
          pure (Case.mk p us)
        | _ => s.refuse e .notAPredicate
      else s.refuse e .notCase
    let cs ← cases s rest
    pure (c :: cs)
  | .text _ _ :: rest => cases s rest

end

end LiveTemplate.Template.Scope
