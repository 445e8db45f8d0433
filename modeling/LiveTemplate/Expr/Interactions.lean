import LiveTemplate.Expr.Update
import LiveTemplate.OrderedMap

/-!
# Interactions

What a template declares beside its state: actions, which run updates when something happens to a
target; reactions, which say by a predicate how a target looks; and watches, which hand a map of
values to whoever asks for them. An action or reaction is bound to a target and a kind, a watch to a
kind, and no binding is declared twice.
-/

namespace LiveTemplate

/-- Updates bound to a target and a kind of event. -/
structure Action (α : Type) where
  target : String
  kind : String
  updates : List (Update α)

/-- A predicate bound to a target and a kind of appearance. -/
structure Reaction (α : Type) where
  target : String
  kind : String
  predicate : Predicate α

/-- A map of values bound to a kind. -/
structure Watch (β : Type) where
  kind : String
  args : OrderedMap β

/-- The first item of a list that occurs in it before. -/
def firstRepeat {α : Type} [BEq α] (seen : List α) : List α → Option α
  | [] => none
  | a :: rest => if seen.contains a then some a else firstRepeat (a :: seen) rest

/-- A target and a kind as one name. -/
def bindingName (binding : String × String) : String := binding.1 ++ "/" ++ binding.2

/-- The interactions of a template, over literals and watched values of given types. -/
structure Interactions (α β : Type) where
  actions : List (Action α)
  reactions : List (Reaction α)
  watches : List (Watch β)

namespace Interactions

variable {α β : Type}

/-- No interactions. -/
def empty : Interactions α β := ⟨[], [], []⟩

/-- The targets and kinds of the actions. -/
def actionBindings (i : Interactions α β) : List (String × String) :=
  i.actions.map fun a => (a.target, a.kind)

/-- The targets and kinds of the reactions. -/
def reactionBindings (i : Interactions α β) : List (String × String) :=
  i.reactions.map fun r => (r.target, r.kind)

/-- The kinds of the watches. -/
def watchKinds (i : Interactions α β) : List String := i.watches.map (·.kind)

/-- The first declaration that repeats an earlier one of its sort, actions before reactions before
watches. -/
def repeated? (i : Interactions α β) : Option (Declaration × String) :=
  match firstRepeat [] i.actionBindings with
  | some binding => some (.action, bindingName binding)
  | none =>
    match firstRepeat [] i.reactionBindings with
    | some binding => some (.reaction, bindingName binding)
    | none => (firstRepeat [] i.watchKinds).map fun kind => (.watch, kind)

/-- The interactions, unless they declare something twice. -/
def build (i : Interactions α β) : Except Problem (Interactions α β) :=
  match i.repeated? with
  | some (what, name) => .error (.repeatedDeclaration what name)
  | none => .ok i

/-- The action bound to a target and a kind. -/
def action? (i : Interactions α β) (target kind : String) : Option (Action α) :=
  i.actions.find? fun a => a.target == target && a.kind == kind

/-- The reaction bound to a target and a kind. -/
def reaction? (i : Interactions α β) (target kind : String) : Option (Reaction α) :=
  i.reactions.find? fun r => r.target == target && r.kind == kind

/-- The watch bound to a kind. -/
def watch? (i : Interactions α β) (kind : String) : Option (Watch β) :=
  i.watches.find? (·.kind == kind)

/-- Refuses the declared bindings that are not supported, naming all of them. -/
def checkBindings (what : Declaration) (declared supported : List (String × String)) :
    Except Problem Unit :=
  let offenders := declared.filter fun binding => !supported.contains binding
  if offenders.isEmpty then .ok ()
  else .error (.unsupported what (offenders.map bindingName) (supported.map bindingName))

/-- Refuses the actions whose bindings are not supported. -/
def checkActions (i : Interactions α β) (supported : List (String × String)) :
    Except Problem Unit :=
  checkBindings .action i.actionBindings supported

/-- Refuses the reactions whose bindings are not supported. -/
def checkReactions (i : Interactions α β) (supported : List (String × String)) :
    Except Problem Unit :=
  checkBindings .reaction i.reactionBindings supported

/-- Refuses the watches whose kinds are not supported. -/
def checkWatches (i : Interactions α β) (supported : List String) : Except Problem Unit :=
  let offenders := i.watchKinds.filter fun kind => !supported.contains kind
  if offenders.isEmpty then .ok () else .error (.unsupported .watch offenders supported)

/-- The values that the interactions hold: their literals and what they watch. -/
def values (i : Interactions α α) : List α :=
  i.actions.flatMap (fun a => Update.allLiterals a.updates) ++
    i.reactions.flatMap (fun r => r.predicate.literals) ++ i.watches.flatMap (·.args.values)

end Interactions

end LiveTemplate
