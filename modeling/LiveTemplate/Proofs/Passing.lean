import LiveTemplate.Proofs.Step

/-!
# How time passes

If handlers do not move the clock, time passes only at the bottom of the stack, while nothing else
is being done, and never goes back (`Run.paced`). Whatever has changed, has changed by now.
-/

namespace LiveTemplate.Engine

variable {η : Type}

open World

/-- Whether a piece of work moves the clock. -/
def Work.ticks : Work η → Prop
  | .advance _ => True
  | _ => False

theorem Work.drives_of_ticks {x : Work η} (h : x.ticks) : x.drives := by
  cases x <;> trivial

theorem Grounded.replace {P : Work η → Prop} {x y : Work η} {stack : List (Work η)}
    (h : Grounded P (x :: stack)) (hy : P x → P y) : Grounded P (y :: stack) :=
  ⟨h.1.imp_left hy, h.2⟩

/-- Of the work that a change of a leaf leaves only what was there before drives anything. -/
theorem World.Amendment.eq_of_drives {w : World η} {s : SignalId} {place : Nat} {live : LiveTerm}
    {begun left : List (Work η)} {g : LiveTerm → LiveTerm} {k : Clock (Task η)}
    {news : List Happening} (how : Amendment w s place live begun g k left news) :
    (∀ x ∈ left, ¬x.drives) ∨ ∃ target, begun = [.advance target] ∧ left = [.advance target] := by
  cases how with
  | look =>
    refine .inl fun x hx ↦ ?_
    rw [List.mem_singleton.1 hx]
    exact id
  | restart held _ _ hheld =>
    refine .inl fun x hx ↦ ?_
    rcases List.mem_cons.1 hx with rfl | hx
    · exact id
    · rcases List.mem_append.1 hx with hx | hx
      · rw [hheld x hx]
        exact id
      · rw [List.mem_singleton.1 hx]
        exact id
  | flash => exact .inl fun _ hx ↦ absurd hx List.not_mem_nil
  | arm => exact .inl fun _ hx ↦ absurd hx List.not_mem_nil
  | expire => exact .inr ⟨_, rfl, rfl⟩

theorem World.not_drives_of_tidings {s : SignalId} {sig : Signal η} {circuit : Circuit} :
    ∀ x ∈ tidings s sig circuit, ¬x.drives := by
  intro x hx
  unfold tidings at hx
  split at hx
  · cases hx
  · simp only [List.mem_cons, List.not_mem_nil, or_false] at hx
    rcases hx with rfl | rfl <;> exact id

namespace Activity

variable {may : Activity η → Deed η → Prop} {a b : Activity η} {es es' : List Happening}

/-- Handlers do not move the clock. -/
def outwardly : Activity η → Deed η → Prop := fun a d ↦ d.passes → a.stack = []

/-- **What nobody sets out to do in the middle of other work stays at the bottom** of the stack. -/
theorem grounded_change {P : Work η → Prop} (hP : ∀ x, ¬x.drives → P x)
    (hperform : ∀ us us' locals, P (.perform us locals) → P (.perform us' locals))
    (hupdates : ∀ w stack us locals, may ⟨w, stack⟩ (.perform us locals) →
      P (.perform us locals) ∨ stack = [])
    (hclock : ∀ w stack ms, may ⟨w, stack⟩ (.advance ms) → stack = [])
    (hg : Grounded P a.stack) (h : Change may a es b) : Grounded P b.stack := by
  cases h with
  | spare begun left hspares hbegun hleft =>
    rcases hleft with hleft | ⟨us, us', locals, rfl, rfl⟩
    · exact hg.of_append.append fun x hx ↦ hP x (hleft x hx).2
    · exact hg.replace (hperform us us' locals)
  | perform hmay => exact ⟨hupdates _ _ _ _ hmay, hg⟩
  | advance hmay => exact ⟨.inr (hclock _ _ _ hmay), hg⟩
  | put begun left hne hby =>
    refine ⟨.inl (hP _ id), ?_⟩
    rcases hby with ⟨rfl, rfl, -⟩ | ⟨us, us', locals, rfl, rfl⟩
    · exact hg
    · exact hg.replace (hperform us us' locals)
  | openSignal => exact hg
  | subscribe => exact hg
  | pass => exact hg.replace fun _ ↦ hP _ id
  | tell => exact hg.replace fun _ ↦ hP _ id
  | amend hsig hlive how =>
    refine Grounded.append ?_ fun x hx ↦ hP x (not_drives_of_tidings x hx)
    rcases how.eq_of_drives with hleft | ⟨target, rfl, rfl⟩
    · exact hg.of_append.append fun x hx ↦ hP x (hleft x hx)
    · exact hg
  | lapse => exact hg.2
  | ring => exact hg
  | arrive => exact hg.2

/-- A cell changes at the present time, to another payload, by a deed or by updates, and then its
observers are told. -/
theorem put_of_changed {c : CellId} {m : UInt64} (h : Change may a es b)
    (hmem : .changed c m ∈ es) :
    m = a.world.clock.now ∧ ∃ p stack, (a.world.payload c == p) = false ∧
      (may a (.write c p) ∨ ∃ us locals below, a.stack = .perform us locals :: below) ∧
      b = ⟨a.world.put c p, .tellCell c none (a.world.observers c) :: stack⟩ := by
  cases h with
  | put _ _ hne hby =>
    cases List.mem_singleton.1 hmem
    refine ⟨rfl, _, _, hne, ?_, rfl⟩
    rcases hby with ⟨rfl, -, hmay⟩ | ⟨us, us', locals, rfl, -⟩
    · exact .inl hmay
    · exact .inr ⟨us, locals, _, rfl⟩
  | subscribe => cases List.mem_singleton.1 hmem
  | tell =>
    split at hmem
    · cases List.mem_singleton.1 hmem
    · cases hmem
  | amend _ _ how =>
    rcases List.mem_append.1 hmem with hnews | hturning
    · cases how with
      | arm => cases List.mem_singleton.1 hnews
      | _ => cases hnews
    · unfold turning at hturning
      split at hturning
      · cases hturning
      · cases List.mem_singleton.1 hturning
  | _ => cases hmem

/-- The clock is moved only while nothing else is being done, not back, and what has changed has
changed by now. -/
structure Paced (es : List Happening) (a : Activity η) : Prop where
  grounded : Grounded (fun x ↦ ¬x.ticks) a.stack
  target : ∀ t, .advance t ∈ a.stack → a.world.clock.now ≤ t
  past : ∀ c m, .changed c m ∈ es → m ≤ a.world.clock.now

theorem paced_start {w : World η} : Paced [] ⟨w, []⟩ :=
  ⟨trivial, fun _ h ↦ absurd h List.not_mem_nil, fun _ _ h ↦ absurd h List.not_mem_nil⟩

/-- Only who moves the clock changes the time, and not beyond where he moves it. -/
theorem now_of_change (ho : a.world.Orderly) (h : Change may a es b) :
    b.world.clock.now = a.world.clock.now ∨ ∃ target stack, a.stack = .advance target :: stack ∧
      b.world.clock.now ≤ target ∧
        (a.world.clock.now ≤ b.world.clock.now ∨ b.world.clock.now = target) := by
  cases h with
  | spare _ _ hspares => exact .inl hspares.now
  | openSignal => exact .inl (congrArg Clock.now (attaches_openSignal _ _).clock)
  | amend _ _ how hamends =>
    rw [hamends.clock]
    cases how with
    | restart =>
      rw [Clock.foldl_cancel]
      exact .inl rfl
    | expire _ hdue =>
      obtain ⟨hge, hle⟩ := ho.clock.now_le_takeDue? hdue
      exact .inr ⟨_, _, rfl, hle, .inl hge⟩
    | _ => exact .inl rfl
  | ring hdue =>
    obtain ⟨hge, hle⟩ := ho.clock.now_le_takeDue? hdue
    exact .inr ⟨_, _, rfl, hle, .inl hge⟩
  | arrive => exact .inr ⟨_, _, rfl, UInt64.le_refl _, .inr rfl⟩
  | _ => exact .inl rfl

/-- Who moves the clock has been at it, or has just set out. -/
theorem advance_of_change (h : Change may a es b) {t : UInt64} (ht : .advance t ∈ b.stack) :
    .advance t ∈ a.stack ∨ b.world = a.world ∧ ∃ ms, t = addUpTo a.world.clock.now ms := by
  cases arises_of_change h ht with
  | kept hmem => exact .inl hmem
  | idle _ hdrives => exact absurd trivial hdrives
  | advance ms hworld => exact .inr ⟨hworld, ms, rfl⟩

/-- **Time does not go back.** -/
theorem Paced.now_le (ha : Paced es a) (ho : a.world.Orderly) (h : Change may a es' b) :
    a.world.clock.now ≤ b.world.clock.now := by
  rcases now_of_change ho h with heq | ⟨target, stack, hstack, -, hle | heq⟩
  · exact UInt64.le_of_eq heq.symm
  · exact hle
  · rw [heq]
    exact ha.target target (hstack ▸ List.mem_cons_self)

/-- **Time goes on passing so.** -/
theorem paced_change (hmay : ∀ w stack ms, may ⟨w, stack⟩ (.advance ms) → stack = [])
    (ho : a.world.Orderly) (ha : Paced es a) (h : Change may a es' b) : Paced (es ++ es') b where
  grounded := grounded_change (fun x hx hticks ↦ hx (Work.drives_of_ticks hticks))
    (fun _ _ _ _ ↦ id) (fun _ _ _ _ _ ↦ .inl id) hmay ha.grounded h
  target := fun t ht ↦ by
    rcases now_of_change ho h with heq | ⟨target, stack, hstack, hle, -⟩
    · rw [heq]
      rcases advance_of_change h ht with ht | ⟨-, ms, rfl⟩
      · exact ha.target t ht
      · exact le_addUpTo _ _
    · -- Who moves the clock is the last.
      have hgrounded := ha.grounded
      rw [hstack] at hgrounded
      have hnil := hgrounded.eq_nil fun h ↦ h trivial
      rcases advance_of_change h ht with ht | ⟨hworld, ms, rfl⟩
      · rw [hstack, hnil, List.mem_singleton] at ht
        cases ht
        exact hle
      · rw [hworld]
        exact le_addUpTo _ _
  past := fun c m hmem ↦ by
    have hle := ha.now_le ho h
    rcases List.mem_append.1 hmem with hmem | hmem
    · exact UInt64.le_trans (ha.past c m hmem) hle
    · rw [(put_of_changed h hmem).1]
      exact hle

theorem Run.paced {w : World η} (h : Run outwardly ⟨w, []⟩ es a) (ho : w.Orderly) : Paced es a :=
  h.keepsLog (fun ho ha hchange ↦ paced_change (fun _ _ _ hmay ↦ hmay trivial) ho ha hchange) ho
    paced_start

end Activity

end LiveTemplate.Engine
