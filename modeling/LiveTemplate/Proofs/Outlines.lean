import LiveTemplate.Proofs.Lines
import LiveTemplate.Proofs.References
import Mathlib.Data.List.Basic

/-!
# Outlines and their texts

There are no brackets in the text of an outline, only headings and how far each of them is indented.
The main statement is that nothing more is needed: the text determines the outline if no heading has
a line feed in it or begins with a blank (`Outline.render_inj`).

A writer comes back to the level at which it began, so what it writes is a list of lines, a heading
and its level each (`Outline.wrote_write`). These can be told from the text
(`Outline.lines_of_text`), and they make one outline at most, as a level that falls ends all that
was deeper (`Outline.lines_inj`).
-/

namespace LiveTemplate

/-! ### Lines -/

namespace Outline

mutual

/-- The headings of an outline from top to bottom, each with its level. -/
def lines (level : Nat) : Outline → List (Nat × String)
  | node heading parts => (level, heading) :: allLines (level + 1) parts

/-- The headings of several outlines, one below the other. -/
def allLines (level : Nat) : List Outline → List (Nat × String)
  | [] => []
  | o :: rest => o.lines level ++ allLines level rest

end

/-- A heading as it is written at its level. -/
def written (line : Nat × String) : List Char :=
  List.replicate (2 * line.1) ' ' ++ line.2.toList ++ ['\n']

end Outline

namespace Writer

/-- A writer behind some lines more. -/
def Wrote (w : Writer) (lines : List (Nat × String)) (w' : Writer) : Prop :=
  w'.depth = w.depth ∧ w'.text.toList = w.text.toList ++ lines.flatMap Outline.written

variable {w w₁ w₂ : Writer} {ls ms : List (Nat × String)}

theorem Wrote.trans (h₁ : w.Wrote ls w₁) (h₂ : w₁.Wrote ms w₂) : w.Wrote (ls ++ ms) w₂ :=
  ⟨h₂.1.trans h₁.1, by rw [h₂.2, h₁.2, List.flatMap_append, List.append_assoc]⟩

/-- **A heading and what is below it** are written, and the writer is at its level again. -/
theorem wrote_nested (heading : String) {body : Writer → Writer}
    (hbody : ∀ w' : Writer, w'.depth = w.depth + 1 → w'.Wrote ls (body w')) :
    w.Wrote ((w.depth, heading) :: ls) (w.nested heading body) := by
  obtain ⟨hdepth, htext⟩ := hbody { w.line heading with depth := (w.line heading).depth + 1 } rfl
  refine ⟨?_, ?_⟩
  · show (body _).depth - 1 = w.depth
    rw [hdepth]
    rfl
  · show (body _).text.toList = _
    rw [htext]
    simp [line, Outline.written]

end Writer

namespace Outline

mutual

/-- **An outline is written as its lines**, and the writer comes back to the level it was at. -/
theorem wrote_write : ∀ (o : Outline) (w : Writer), w.Wrote (o.lines w.depth) (o.write w)
  | node heading parts, w => by
    rw [lines, write]
    refine Writer.wrote_nested heading fun w' hdepth ↦ ?_
    rw [← hdepth]
    exact wrote_writeAll parts w'

theorem wrote_writeAll : ∀ (os : List Outline) (w : Writer),
    w.Wrote (allLines w.depth os) (writeAll os w)
  | [], w => ⟨rfl, by simp [writeAll, allLines]⟩
  | o :: os, w => by
    rw [allLines, writeAll]
    have hfirst := wrote_write o w
    have hrest := wrote_writeAll os (o.write w)
    rw [hfirst.1] at hrest
    exact hfirst.trans hrest

end

theorem toList_render (o : Outline) : o.render.toList = (o.lines 0).flatMap written :=
  (wrote_write o .start).2

/-! ### From the text to its lines -/

/-- Whether a heading can be told from its indentation and from the next line. -/
structure Legible (heading : String) : Prop where
  oneLine : '\n' ∉ heading.toList
  unindented : heading.toList.head? ≠ some ' '

/-- Whether all headings of some lines are legible. -/
def AllLegible (ls : List (Nat × String)) : Prop := ∀ l ∈ ls, Legible l.2

/-- Blanks in front of a text that begins with none are counted in one way. -/
theorem replicate_append_inj {m n : Nat} {s t : List Char} (hs : s.head? ≠ some ' ')
    (ht : t.head? ≠ some ' ') (h : List.replicate m ' ' ++ s = List.replicate n ' ' ++ t) :
    m = n ∧ s = t := by
  induction m generalizing n with
  | zero =>
    cases n with
    | zero => exact ⟨rfl, h⟩
    | succ n =>
      have hhead : s.head? = some ' ' := congrArg List.head? h
      exact absurd hhead hs
  | succ m ih =>
    cases n with
    | zero =>
      have hhead : t.head? = some ' ' := congrArg List.head? h.symm
      exact absurd hhead ht
    | succ n =>
      obtain ⟨hmn, hst⟩ := ih (List.cons.inj h).2
      exact ⟨congrArg (· + 1) hmn, hst⟩

/-- **The first line of a text** is what stands in front of its first line feed. -/
theorem written_append_inj {l m : Nat × String} {s t : List Char} (hl : Legible l.2)
    (hm : Legible m.2) (h : written l ++ s = written m ++ t) : l = m ∧ s = t := by
  have hfree : ∀ k : Nat × String, Legible k.2 →
      '\n' ∉ List.replicate (2 * k.1) ' ' ++ k.2.toList := fun k hk ↦ by simp [hk.oneLine]
  have hcut := congrArg (Text.splitAt? ['\n']) h
  rw [written, written, List.append_assoc, List.singleton_append, List.append_assoc (_ ++ _),
    List.singleton_append, Text.splitAt?_singleton (hfree l hl),
    Text.splitAt?_singleton (hfree m hm), Option.some.injEq, Prod.mk.injEq] at hcut
  obtain ⟨hlevel, hheading⟩ := replicate_append_inj hl.unindented hm.unindented hcut.1
  exact ⟨Prod.ext (by omega) (String.toList_inj.1 hheading), hcut.2⟩

/-- **Lines can be told from the text** that they make. -/
theorem lines_of_text {ls ms : List (Nat × String)} (hls : AllLegible ls) (hms : AllLegible ms)
    (h : ls.flatMap written = ms.flatMap written) : ls = ms := by
  have hne : ∀ (k : Nat × String) (s : List Char), written k ++ s ≠ [] := fun k s ↦ by
    simp [written]
  induction ls generalizing ms with
  | nil =>
    cases ms with
    | nil => rfl
    | cons m ms => exact absurd h.symm (hne _ _)
  | cons l ls ih =>
    cases ms with
    | nil => exact absurd h (hne _ _)
    | cons m ms =>
      obtain ⟨hl, hls'⟩ := List.forall_mem_cons.1 hls
      obtain ⟨hm, hms'⟩ := List.forall_mem_cons.1 hms
      obtain ⟨rfl, hrest⟩ := written_append_inj hl hm h
      rw [ih hls' hms' hrest]

/-! ### From the lines to the outline -/

/-- Whether what follows is no part of what stands at a level: it ends, or it begins further up. -/
def Above (level : Nat) (rest : List (Nat × String)) : Prop := ∀ l ∈ rest.head?, l.1 < level

theorem above_allLines {level : Nat} {rest : List (Nat × String)} (h : Above level rest)
    (os : List Outline) : Above (level + 1) (allLines level os ++ rest) := by
  cases os with
  | nil => exact fun l hl ↦ Nat.lt_succ_of_lt (h l hl)
  | cons o os =>
    obtain ⟨heading, parts⟩ := o
    intro l hl
    obtain rfl := Option.some.inj hl
    exact Nat.lt_succ_self level

mutual

/-- **An outline ends where the level falls** to its own or further up. -/
theorem lines_inj : ∀ (o o' : Outline) {level : Nat} {rest rest' : List (Nat × String)},
    Above (level + 1) rest → Above (level + 1) rest' →
      o.lines level ++ rest = o'.lines level ++ rest' → o = o' ∧ rest = rest'
  | node heading parts, node heading' parts', level, rest, rest', habove, habove', h => by
    rw [lines, lines, List.cons_append, List.cons_append, List.cons.injEq, Prod.mk.injEq] at h
    obtain ⟨⟨-, rfl⟩, h⟩ := h
    obtain ⟨rfl, hrest⟩ := allLines_inj parts parts' habove habove' h
    exact ⟨rfl, hrest⟩

theorem allLines_inj : ∀ (os os' : List Outline) {level : Nat} {rest rest' : List (Nat × String)},
    Above level rest → Above level rest' →
      allLines level os ++ rest = allLines level os' ++ rest' → os = os' ∧ rest = rest'
  | [], [], _, _, _, _, _, h => ⟨rfl, h⟩
  | [], node heading parts :: os', level, rest, rest', habove, _, h => by
    have hhead : rest.head? = some (level, heading) := congrArg List.head? h
    exact absurd (habove _ hhead) (Nat.lt_irrefl _)
  | node heading parts :: os, [], level, rest, rest', _, habove', h => by
    have hhead : rest'.head? = some (level, heading) := congrArg List.head? h.symm
    exact absurd (habove' _ hhead) (Nat.lt_irrefl _)
  | o :: os, o' :: os', level, rest, rest', habove, habove', h => by
    rw [allLines, allLines, List.append_assoc, List.append_assoc] at h
    obtain ⟨rfl, hmore⟩ :=
      lines_inj o o' (above_allLines habove os) (above_allLines habove' os') h
    obtain ⟨rfl, hrest⟩ := allLines_inj os os' habove habove' hmore
    exact ⟨rfl, hrest⟩

end

/-- **An outline is determined by its text**, if its headings are legible. -/
theorem render_inj {o o' : Outline} (ho : AllLegible (o.lines 0)) (ho' : AllLegible (o'.lines 0))
    (h : o.render = o'.render) : o = o' := by
  have hnone : Above 1 [] := fun l hl ↦ nomatch hl
  have htext := congrArg String.toList h
  rw [toList_render, toList_render] at htext
  have hlines := lines_of_text ho ho' htext
  exact (lines_inj o o' hnone hnone (by rw [hlines])).1

end Outline

end LiveTemplate
