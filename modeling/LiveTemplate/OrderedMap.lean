/-!
# Maps that remember the order of their keys

A map from text to values as the list of its entries in the order in which the keys came. Setting a
key that is there replaces its value and leaves its place.
-/

namespace LiveTemplate

/-- Entries in order, no key twice. -/
structure OrderedMap (α : Type) where
  entries : List (String × α)
  nodup : (entries.map Prod.fst).Nodup

namespace OrderedMap

variable {α β : Type}

/-- The map without entries. -/
def empty : OrderedMap α := ⟨[], List.nodup_nil⟩

instance : Inhabited (OrderedMap α) := ⟨empty⟩

/-- The keys, in order. -/
def keys (m : OrderedMap α) : List String := m.entries.map Prod.fst

/-- The values, in the order of their keys. -/
def values (m : OrderedMap α) : List α := m.entries.map Prod.snd

/-- How many entries there are. -/
def size (m : OrderedMap α) : Nat := m.entries.length

/-- The value under a key. -/
def get? (m : OrderedMap α) (key : String) : Option α := m.entries.lookup key

/-- Whether there is an entry under a key. -/
def has (m : OrderedMap α) (key : String) : Bool := (m.get? key).isSome

/-- Sets the value under a key in a list of entries, at the end if the key is new. -/
def setEntry (key : String) (value : α) : List (String × α) → List (String × α)
  | [] => [(key, value)]
  | (k, v) :: rest => if k = key then (k, value) :: rest else (k, v) :: setEntry key value rest

theorem keys_setEntry (key : String) (value : α) (l : List (String × α)) :
    (setEntry key value l).map Prod.fst =
      if key ∈ l.map Prod.fst then l.map Prod.fst else l.map Prod.fst ++ [key] := by
  induction l with
  | nil => rfl
  | cons e rest ih =>
    obtain ⟨k, v⟩ := e
    unfold setEntry
    by_cases h : k = key
    · simp [h]
    · have h' : ¬key = k := fun e => h e.symm
      simp only [h, if_false, List.map_cons, ih, List.mem_cons, h', false_or]
      split <;> rfl

theorem nodup_setEntry {key : String} {value : α} {l : List (String × α)}
    (h : (l.map Prod.fst).Nodup) : ((setEntry key value l).map Prod.fst).Nodup := by
  rw [keys_setEntry]
  split
  · exact h
  · rename_i hnot
    refine List.nodup_append.2 ⟨h, by simp, fun a ha b hb => ?_⟩
    rw [List.mem_singleton] at hb
    subst hb
    exact fun e => hnot (e ▸ ha)

/-- Sets the value under a key: in its place if the key is there, at the end otherwise. -/
def insert (m : OrderedMap α) (key : String) (value : α) : OrderedMap α :=
  ⟨setEntry key value m.entries, nodup_setEntry m.nodup⟩

/-- The map of a list of entries; the last value of a key wins and keeps the first place. -/
def ofList (l : List (String × α)) : OrderedMap α := l.foldl (fun m e => m.insert e.1 e.2) empty

/-- The entries whose keys are not among those given. -/
def without (m : OrderedMap α) (dropped : List String) : OrderedMap α :=
  ⟨m.entries.filter fun e => !dropped.contains e.1,
    List.Nodup.sublist (List.Sublist.map Prod.fst List.filter_sublist) m.nodup⟩

/-- Applies a function to every value. -/
def map (f : α → β) (m : OrderedMap α) : OrderedMap β :=
  ⟨m.entries.map fun e => (e.1, f e.2), by simpa [List.map_map, Function.comp_def] using m.nodup⟩

/-! ### What is found -/

theorem get?_eq_some_iff {m : OrderedMap α} {key : String} {a : α} :
    m.get? key = some a ↔ (key, a) ∈ m.entries := by
  obtain ⟨l, hnodup⟩ := m
  show l.lookup key = some a ↔ (key, a) ∈ l
  induction l with
  | nil => simp
  | cons e rest ih =>
    obtain ⟨k, b⟩ := e
    rw [List.map_cons, List.nodup_cons] at hnodup
    rw [List.lookup_cons, List.mem_cons, ← ih hnodup.2]
    by_cases hk : key = k
    · -- The key does not occur again.
      subst hk
      have hnone : rest.lookup key ≠ some a := fun h =>
        hnodup.1 (List.mem_map.2 ⟨(key, a), (ih hnodup.2).1 h, rfl⟩)
      simp [hnone, eq_comm]
    · simp [hk, beq_false_of_ne hk]

theorem mem_keys_iff {m : OrderedMap α} {key : String} :
    key ∈ m.keys ↔ (m.get? key).isSome = true := by
  rw [Option.isSome_iff_exists, keys, List.mem_map]
  constructor
  · rintro ⟨⟨k, a⟩, hmem, rfl⟩
    exact ⟨a, get?_eq_some_iff.2 hmem⟩
  · rintro ⟨a, ha⟩
    exact ⟨(key, a), get?_eq_some_iff.1 ha, rfl⟩

theorem mem_values_of_get? {m : OrderedMap α} {key : String} {a : α} (h : m.get? key = some a) :
    a ∈ m.values := List.mem_map_of_mem (get?_eq_some_iff.1 h)

theorem get?_map (f : α → β) (m : OrderedMap α) (key : String) :
    (m.map f).get? key = (m.get? key).map f := by
  show (m.entries.map fun e => (e.1, f e.2)).lookup key = (m.entries.lookup key).map f
  induction m.entries with
  | nil => rfl
  | cons e rest ih =>
    rw [List.map_cons, List.lookup_cons, List.lookup_cons, ih]
    cases key == e.1 <;> rfl

theorem map_map {γ : Type} (g : β → γ) (f : α → β) (m : OrderedMap α) :
    (m.map f).map g = m.map (g ∘ f) := by
  rw [map, map, map, mk.injEq, List.map_map]
  rfl

theorem map_congr {f g : α → β} {m : OrderedMap α} (h : ∀ a ∈ m.values, f a = g a) :
    m.map f = m.map g := by
  rw [map, map, mk.injEq]
  exact List.map_congr_left fun e he => by rw [h e.2 (List.mem_map_of_mem he)]

theorem setEntry_of_not_mem {key : String} (value : α) {l : List (String × α)}
    (h : key ∉ l.map Prod.fst) : setEntry key value l = l ++ [(key, value)] := by
  induction l with
  | nil => rfl
  | cons e rest ih =>
    rw [List.map_cons, List.mem_cons, not_or] at h
    rw [setEntry, if_neg (Ne.symm h.1), ih h.2]
    rfl

/-- Entries with distinct keys are those of a map. -/
theorem entries_ofList {l : List (String × α)} (h : (l.map Prod.fst).Nodup) :
    (ofList l).entries = l := by
  have hfold : ∀ (l : List (String × α)) (m : OrderedMap α),
      ((m.entries ++ l).map Prod.fst).Nodup →
        (l.foldl (fun m e => m.insert e.1 e.2) m).entries = m.entries ++ l := by
    intro l
    induction l with
    | nil => exact fun m _ => (List.append_nil _).symm
    | cons e rest ih =>
      intro m hm
      rw [List.map_append, List.map_cons] at hm
      have hnew : e.1 ∉ m.entries.map Prod.fst := fun hmem =>
        (List.nodup_append.1 hm).2.2 _ hmem _ List.mem_cons_self rfl
      have hinsert : (m.insert e.1 e.2).entries = m.entries ++ [e] := setEntry_of_not_mem e.2 hnew
      rw [List.foldl_cons, ih, hinsert, List.append_assoc]
      · rfl
      · rw [hinsert, List.map_append, List.map_append]
        simpa using hm
  exact hfold l empty h

theorem lookup_setEntry (key : String) (value : α) (l : List (String × α)) (key' : String) :
    (setEntry key value l).lookup key' = if key' = key then some value else l.lookup key' := by
  induction l with
  | nil =>
    rw [setEntry, List.lookup_cons, List.lookup_nil]
    by_cases h : key' = key <;> simp [h, beq_false_of_ne]
  | cons e rest ih =>
    obtain ⟨k, v⟩ := e
    unfold setEntry
    by_cases hk : k = key
    · subst hk
      by_cases h : key' = k <;> simp [List.lookup_cons, h, beq_false_of_ne]
    · rw [if_neg hk, List.lookup_cons, List.lookup_cons, ih]
      by_cases h : key' = k
      · simp [h, hk]
      · simp [beq_false_of_ne h]

theorem get?_insert (m : OrderedMap α) (key : String) (value : α) (key' : String) :
    (m.insert key value).get? key' = if key' = key then some value else m.get? key' :=
  lookup_setEntry key value m.entries key'

theorem setEntry_map (f : α → β) (key : String) (value : α) (l : List (String × α)) :
    setEntry key (f value) (l.map fun e => (e.1, f e.2)) =
      (setEntry key value l).map fun e => (e.1, f e.2) := by
  induction l with
  | nil => rfl
  | cons e rest ih =>
    simp only [List.map_cons, setEntry, ih]
    split <;> rfl

/-- To apply a function to the values of a list of entries applies it to those of their map. -/
theorem map_ofList (f : α → β) (l : List (String × α)) :
    (ofList l).map f = ofList (l.map fun e => (e.1, f e.2)) := by
  have hfold : ∀ (l : List (String × α)) (m : OrderedMap α),
      (l.foldl (fun m e => m.insert e.1 e.2) m).map f =
        (l.map fun e => (e.1, f e.2)).foldl (fun m e => m.insert e.1 e.2) (m.map f) := by
    intro l
    induction l with
    | nil => exact fun m => rfl
    | cons e rest ih =>
      intro m
      have hinsert : (m.insert e.1 e.2).map f = (m.map f).insert e.1 (f e.2) := by
        rw [map, insert, insert, mk.injEq]
        exact (setEntry_map f e.1 e.2 m.entries).symm
      rw [List.foldl_cons, ih, hinsert]
      rfl
  exact hfold l empty

theorem mem_setEntry {key : String} {value : α} {l : List (String × α)} {e : String × α}
    (h : e ∈ setEntry key value l) : e = (key, value) ∨ e ∈ l := by
  induction l with
  | nil => exact .inl (List.mem_singleton.1 h)
  | cons e' rest ih =>
    unfold setEntry at h
    split at h
    · rename_i hk
      rcases List.mem_cons.1 h with rfl | h
      · exact .inl (by rw [← hk])
      · exact .inr (List.mem_cons_of_mem _ h)
    · rcases List.mem_cons.1 h with rfl | h
      · exact .inr List.mem_cons_self
      · exact (ih h).imp id (List.mem_cons_of_mem _)

/-- The values of the map of a list of entries are among those of the list. -/
theorem mem_of_mem_ofList {l : List (String × α)} {e : String × α} (h : e ∈ (ofList l).entries) :
    e ∈ l := by
  have hfold : ∀ (l : List (String × α)) (m : OrderedMap α),
      e ∈ (l.foldl (fun m e => m.insert e.1 e.2) m).entries → e ∈ m.entries ∨ e ∈ l := by
    intro l
    induction l with
    | nil => exact fun m h => .inl h
    | cons e' rest ih =>
      intro m h
      rcases ih _ h with h | h
      · rcases mem_setEntry h with rfl | h
        · exact .inr List.mem_cons_self
        · exact .inl h
      · exact .inr (List.mem_cons_of_mem _ h)
  exact (hfold l empty h).resolve_left List.not_mem_nil

end OrderedMap

end LiveTemplate
