/-!
# Boolean formulas over terms

Formulas are built from constants and terms by negation, conjunction and disjunction. What a term is
is left open: a formula can be mapped, traversed and evaluated term by term.
-/

namespace LiveTemplate

/-- A boolean formula. -/
inductive Formula (τ : Type)
  | const (truth : Bool)
  | not (f : Formula τ)
  | and (fs : List (Formula τ))
  | or (fs : List (Formula τ))
  | term (t : τ)

namespace Formula

variable {τ υ : Type}

mutual

/-- The truth of a formula, given that of its terms. -/
def eval (truth : τ → Bool) : Formula τ → Bool
  | const b => b
  | not f => !f.eval truth
  | and fs => evalAll truth fs
  | or fs => evalAny truth fs
  | term t => truth t

/-- Whether every formula of a list is true. -/
def evalAll (truth : τ → Bool) : List (Formula τ) → Bool
  | [] => true
  | f :: rest => f.eval truth && evalAll truth rest

/-- Whether some formula of a list is true. -/
def evalAny (truth : τ → Bool) : List (Formula τ) → Bool
  | [] => false
  | f :: rest => f.eval truth || evalAny truth rest

end

mutual

/-- The terms of a formula, from left to right. -/
def terms : Formula τ → List τ
  | const _ => []
  | not f => f.terms
  | and fs => allTerms fs
  | or fs => allTerms fs
  | term t => [t]

/-- The terms of a list of formulas, from left to right. -/
def allTerms : List (Formula τ) → List τ
  | [] => []
  | f :: rest => f.terms ++ allTerms rest

end

mutual

/-- Applies a function to every term. -/
def map (g : τ → υ) : Formula τ → Formula υ
  | const b => const b
  | not f => not (f.map g)
  | and fs => and (mapAll g fs)
  | or fs => or (mapAll g fs)
  | term t => term (g t)

/-- Applies a function to every term of a list of formulas. -/
def mapAll (g : τ → υ) : List (Formula τ) → List (Formula υ)
  | [] => []
  | f :: rest => f.map g :: mapAll g rest

end

mutual

/-- Replaces every term, from left to right, by a computation that may have effects. -/
def traverse {m : Type → Type} [Monad m] (g : τ → m υ) : Formula τ → m (Formula υ)
  | const b => pure (const b)
  | not f => do
    let f' ← f.traverse g
    pure (not f')
  | and fs => do
    let fs' ← traverseAll g fs
    pure (and fs')
  | or fs => do
    let fs' ← traverseAll g fs
    pure (or fs')
  | term t => do
    let t' ← g t
    pure (term t')

/-- Replaces every term of a list of formulas, from left to right. -/
def traverseAll {m : Type → Type} [Monad m] (g : τ → m υ) :
    List (Formula τ) → m (List (Formula υ))
  | [] => pure []
  | f :: rest => do
    let f' ← f.traverse g
    let rest' ← traverseAll g rest
    pure (f' :: rest')

end

end Formula

end LiveTemplate
