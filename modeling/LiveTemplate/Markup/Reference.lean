import LiveTemplate.Decimal.Numeral
import LiveTemplate.Markup.Fault

/-!
# References in text

A reference stands for one character: `&lt;`, `&gt;`, `&amp;`, `&quot;`, `&apos;`, or the number of
the character in decimal (`&#65;`) or hexadecimal (`&#x41;`). `decode` resolves the references of a
text once, from left to right; what a reference stands for is not looked at again.
-/

namespace LiveTemplate.Markup

/-- The character with a given number, if there is one. -/
def scalar? (n : Nat) : Option Char := if n.isValidChar then some (Char.ofNat n) else none

/-- The character that the name of a reference stands for. -/
def referenced? (name : List Char) : Option Char :=
  match name with
  | ['l', 't'] => some '<'
  | ['g', 't'] => some '>'
  | ['a', 'm', 'p'] => some '&'
  | ['q', 'u', 'o', 't'] => some '"'
  | ['a', 'p', 'o', 's'] => some '\x27'
  | '#' :: 'x' :: digits => (Decimal.natural? 16 UInt32.size digits).bind scalar?
  | '#' :: digits => (Decimal.natural? 10 UInt32.size digits).bind scalar?
  | _ => none

/-- Resolves the references of a text. -/
def decode (s : List Char) : Except Cause (List Char) :=
  match s with
  | [] => .ok []
  | c :: rest =>
    if c = '&' then
      match _h : Text.splitAt? [';'] rest with
      | none => .error .unterminatedReference
      | some (name, after) =>
        match referenced? name with
        | none => .error (.unknownReference (String.ofList name))
        | some d => (decode after).map (d :: ·)
    else (decode rest).map (c :: ·)
termination_by s.length
decreasing_by
  · have := Text.length_of_splitAt? _h
    simp only [List.length_cons]
    omega
  · simp

end LiveTemplate.Markup
