/-!
# Numbered entries

A registry hands out numbers and keeps something under each. A number is used once, so an entry that
was removed never comes back under it.
-/

namespace LiveTemplate.Engine

/-- Entries under numbers below `next`, the latest first. -/
structure Registry (α : Type) where
  next : Nat
  entries : List (Nat × α)

namespace Registry

variable {α : Type}

/-- The registry without entries. -/
def empty : Registry α := ⟨0, []⟩

/-- The entry under a number in a list of entries. -/
def find (i : Nat) : List (Nat × α) → Option α
  | [] => none
  | (k, a) :: rest => if k = i then some a else find i rest

/-- The entry under a number. -/
def get? (r : Registry α) (i : Nat) : Option α := find i r.entries

/-- Adds an entry under a new number. -/
def add (r : Registry α) (a : α) : Nat × Registry α :=
  (r.next, ⟨r.next + 1, (r.next, a) :: r.entries⟩)

/-- Changes the entry under a number, if there is one. -/
def modify (r : Registry α) (i : Nat) (f : α → α) : Registry α :=
  ⟨r.next, r.entries.map fun e => (e.1, if e.1 = i then f e.2 else e.2)⟩

/-- Removes the entry under a number. -/
def remove (r : Registry α) (i : Nat) : Registry α :=
  ⟨r.next, r.entries.filter fun e => e.1 != i⟩

@[simp] theorem get?_empty (i : Nat) : (empty : Registry α).get? i = none := rfl

theorem get?_add (r : Registry α) (a : α) (i : Nat) :
    (r.add a).2.get? i = if r.next = i then some a else r.get? i := rfl

theorem find_map (i j : Nat) (f : α → α) (l : List (Nat × α)) :
    find j (l.map fun e => (e.1, if e.1 = i then f e.2 else e.2)) =
      if j = i then (find j l).map f else find j l := by
  induction l with
  | nil => simp [find]
  | cons e rest ih =>
    obtain ⟨k, a⟩ := e
    simp only [List.map_cons, find, ih]
    by_cases hk : k = j
    · subst hk
      by_cases hi : k = i <;> simp [hi]
    · simp [hk]

theorem get?_modify (r : Registry α) (i j : Nat) (f : α → α) :
    (r.modify i f).get? j = if j = i then (r.get? j).map f else r.get? j :=
  find_map i j f r.entries

theorem find_filter (i j : Nat) (l : List (Nat × α)) :
    find j (l.filter fun e => e.1 != i) = if j = i then none else find j l := by
  induction l with
  | nil => simp [find]
  | cons e rest ih =>
    obtain ⟨k, a⟩ := e
    by_cases hk : k = i
    · subst hk
      rw [List.filter_cons_of_neg (by simp), ih]
      by_cases hj : j = k
      · simp [hj]
      · have : ¬k = j := fun h => hj h.symm
        simp [hj, find, this]
    · rw [List.filter_cons_of_pos (by simpa using hk), find, find, ih]
      by_cases hj : k = j
      · subst hj
        simp [hk]
      · simp [hj]

theorem get?_remove (r : Registry α) (i j : Nat) :
    (r.remove i).get? j = if j = i then none else r.get? j :=
  find_filter i j r.entries

end Registry

end LiveTemplate.Engine
