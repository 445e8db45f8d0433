import Mathlib.Data.List.Basic
import Mathlib.Data.List.Induction
import Mathlib.Data.List.Pairwise
import LiveTemplate.Engine.Completion
import LiveTemplate.Proofs.Finding
import LiveTemplate.Session.Run

/-!
# Maps that are put together

To put maps together is to set all their entries, one after the other (`union_eq_ok_iff`): as long as no
two of the maps disagree about the kind of what is under a key, it does not matter what was set
before, since a value that is replaced has the kind of the one that replaces it. What is found under a
key is then what the last map has there (`get?_ofList_entries`), in the place where the key first
appeared (`keys_ofList`).

A map that was put together can stand for the maps that it is made of (`insertAll_entries_ofList`),
and this is why it does not matter how maps are grouped.
-/

namespace LiveTemplate.OrderedMap

variable {α : Type}

/-! ### Setting many entries -/

theorem eraseDups_concat (l : List String) (a : String) :
    (l ++ [a]).eraseDups = if a ∈ l then l.eraseDups else l.eraseDups ++ [a] := by
  rw [List.eraseDups_append]
  by_cases h : a ∈ l <;> simp [List.removeAll, h, List.eraseDups_cons]

/-- To drop repetitions from the end of a list first makes no difference. -/
theorem eraseDups_append_eraseDups (ks l : List String) :
    (ks ++ l.eraseDups).eraseDups = (ks ++ l).eraseDups := by
  induction l using List.reverseRecOn with
  | nil => rfl
  | append_singleton l a ih =>
    rw [← List.append_assoc, eraseDups_concat (ks ++ l), eraseDups_concat l]
    by_cases ha : a ∈ l
    · rw [if_pos ha, if_pos (List.mem_append_right _ ha), ih]
    · rw [if_neg ha, ← List.append_assoc, eraseDups_concat, ih]
      simp only [List.mem_append, List.mem_eraseDups]

theorem eq_of_entries {m m' : OrderedMap α} (h : m.entries = m'.entries) : m = m' := by
  cases m
  cases m'
  cases h
  rfl

theorem entries_eq_filterMap (m : OrderedMap α) :
    m.entries = m.keys.filterMap fun key ↦ (m.get? key).map (Prod.mk key) := by
  rw [keys, List.filterMap_map]
  calc m.entries
      = m.entries.filterMap some := List.filterMap_some.symm
    _ = _ := List.filterMap_congr fun e he ↦ by rw [Function.comp, get?_eq_some_iff.2 he]; rfl

/-- Maps with the same keys in the same order and the same values under them are the same. -/
theorem ext_of_get? {m m' : OrderedMap α} (hkeys : m.keys = m'.keys)
    (hget : ∀ key, m.get? key = m'.get? key) : m = m' := by
  refine eq_of_entries ?_
  rw [entries_eq_filterMap m, entries_eq_filterMap m', hkeys, funext hget]

/-- Sets the entries of a list, one after the other. -/
def insertAll (m : OrderedMap α) (l : List (String × α)) : OrderedMap α :=
  l.foldl (fun m e ↦ m.insert e.1 e.2) m

theorem insertAll_append (m : OrderedMap α) (l l' : List (String × α)) :
    m.insertAll (l ++ l') = (m.insertAll l).insertAll l' := List.foldl_append

theorem ofList_append (l l' : List (String × α)) :
    ofList (l ++ l') = (ofList l).insertAll l' := insertAll_append _ _ _

theorem ofList_entries (m : OrderedMap α) : ofList m.entries = m :=
  eq_of_entries (entries_ofList m.nodup)

theorem keys_ofList (l : List (String × α)) :
    (ofList l).keys = (l.map Prod.fst).eraseDups := by
  induction l using List.reverseRecOn with
  | nil => rfl
  | append_singleton l e ih =>
    rw [ofList_append, List.map_append]
    show (setEntry e.1 e.2 (ofList l).entries).map Prod.fst = (l.map Prod.fst ++ [e.1]).eraseDups
    rw [keys_setEntry, eraseDups_concat]
    show (if e.1 ∈ (ofList l).keys then (ofList l).keys else (ofList l).keys ++ [e.1]) = _
    simp only [ih, List.mem_eraseDups]

theorem keys_insertAll (m : OrderedMap α) (l : List (String × α)) :
    (m.insertAll l).keys = (m.keys ++ l.map Prod.fst).eraseDups := by
  rw [← ofList_entries m, ← ofList_append, keys_ofList, List.map_append, ofList_entries]
  rfl

theorem get?_insertAll (m : OrderedMap α) (l : List (String × α)) (key : String) :
    (m.insertAll l).get? key = ((ofList l).get? key).or (m.get? key) := by
  induction l using List.reverseRecOn with
  | nil => rfl
  | append_singleton l e ih =>
    rw [insertAll_append, ofList_append]
    show ((m.insertAll l).insert e.1 e.2).get? key =
      (((ofList l).insert e.1 e.2).get? key).or (m.get? key)
    rw [get?_insert, get?_insert, ih]
    split <;> rfl

/-- **The map of a list can stand for the list.** -/
theorem insertAll_entries_ofList (m : OrderedMap α) (l : List (String × α)) :
    m.insertAll (ofList l).entries = m.insertAll l := by
  refine ext_of_get? ?_ fun key ↦ ?_
  · rw [keys_insertAll, keys_insertAll, ← eraseDups_append_eraseDups _ (l.map Prod.fst),
      ← keys_ofList]
    rfl
  · rw [get?_insertAll, get?_insertAll, ofList_entries]

/-- **What is set last stays.** -/
theorem get?_ofList_entries (maps : List (OrderedMap α)) (key : String) :
    (ofList (maps.flatMap entries)).get? key = (maps.filterMap (·.get? key)).getLast? := by
  induction maps using List.reverseRecOn with
  | nil => rfl
  | append_singleton maps m ih =>
    rw [List.flatMap_append, List.flatMap_singleton, ofList_append, get?_insertAll, ofList_entries,
      ih, List.filterMap_append, List.getLast?_append]
    cases h : m.get? key <;> simp [h]

/-! ### Kinds -/

variable {payload : α → Payload}

/-- No key stands for values of different kinds in two maps. -/
def Agrees (payload : α → Payload) (m m' : OrderedMap α) : Prop :=
  ∀ key a b, m.get? key = some a → m'.get? key = some b → (payload a).kind = (payload b).kind

/-- Two entries have values of one kind, unless their keys differ. -/
def SameKind (payload : α → Payload) (e e' : String × α) : Prop :=
  e.1 = e'.1 → (payload e.2).kind = (payload e'.2).kind

instance : Std.Symm (SameKind payload) := ⟨fun _ _ h hkey ↦ (h hkey.symm).symm⟩

/-- Sets an entry, unless a value of another kind is there. -/
def put (payload : α → Payload) (m : OrderedMap α) (e : String × α) :
    Except Problem (OrderedMap α) :=
  match m.get? e.1 with
  | some previous =>
    if (payload previous).kind = (payload e.2).kind then .ok (m.insert e.1 e.2)
    else .error (.kindClash e.1 (payload previous).kind (payload e.2).kind)
  | none => .ok (m.insert e.1 e.2)

theorem put_eq_ok_iff {m u : OrderedMap α} {e : String × α} : put payload m e = .ok u ↔
    (∀ a, m.get? e.1 = some a → (payload a).kind = (payload e.2).kind) ∧ u = m.insert e.1 e.2 := by
  unfold put
  cases hget : m.get? e.1 with
  | none => simp [eq_comm]
  | some previous =>
    by_cases hkind : (payload previous).kind = (payload e.2).kind <;> simp [hkind, eq_comm]

/-- **Entries can be set one after the other** if none has another kind than what is there before, nor
than one that is set before it. -/
theorem foldlM_put_eq_ok_iff {l : List (String × α)} {m u : OrderedMap α} :
    l.foldlM (put payload) m = .ok u ↔
      ((∀ e ∈ l, ∀ a, m.get? e.1 = some a → (payload a).kind = (payload e.2).kind) ∧
        l.Pairwise (SameKind payload)) ∧ u = m.insertAll l := by
  induction l generalizing m with
  | nil =>
    show Except.ok m = Except.ok u ↔ _
    simp [insertAll, eq_comm]
  | cons e l ih =>
    have hset : ∀ key, (m.insert e.1 e.2).get? key = if key = e.1 then some e.2 else m.get? key :=
      get?_insert m e.1 e.2
    rw [List.foldlM_cons, List.forall_mem_cons, List.pairwise_cons]
    constructor
    · intro h
      obtain ⟨m', hput, hrest⟩ := Engine.World.exists_of_bind_eq_ok h
      obtain ⟨hfirst, rfl⟩ := put_eq_ok_iff.1 hput
      obtain ⟨⟨hothers, hpairs⟩, rfl⟩ := ih.1 hrest
      refine ⟨⟨⟨hfirst, fun e' he' a ha ↦ ?_⟩, fun e' he' hkey ↦ ?_, hpairs⟩, rfl⟩
      · by_cases hkey : e'.1 = e.1
        · rw [hkey] at ha
          rw [hfirst a ha]
          exact hothers e' he' e.2 (by rw [hset, if_pos hkey])
        · exact hothers e' he' a (by rw [hset, if_neg hkey, ha])
      · exact hothers e' he' e.2 (by rw [hset, if_pos hkey.symm])
    · rintro ⟨⟨⟨hfirst, hothers⟩, hsame, hpairs⟩, rfl⟩
      rw [put_eq_ok_iff.2 ⟨hfirst, rfl⟩]
      refine ih.2 ⟨⟨fun e' he' a ha ↦ ?_, hpairs⟩, rfl⟩
      rw [hset] at ha
      split at ha
      · cases ha
        exact hsame e' he' (Eq.symm ‹_›)
      · exact hothers e' he' a ha

theorem foldlM_merge_eq (maps : List (OrderedMap α)) (m : OrderedMap α) :
    maps.foldlM (merge payload) m = (maps.flatMap entries).foldlM (put payload) m := by
  induction maps generalizing m with
  | nil => rfl
  | cons m' maps ih =>
    rw [List.foldlM_cons, List.flatMap_cons, List.foldlM_append]
    exact congrArg _ (funext ih)

theorem pairwise_sameKind_iff {maps : List (OrderedMap α)} :
    (maps.flatMap entries).Pairwise (SameKind payload) ↔ maps.Pairwise (Agrees payload) := by
  have hwithin : ∀ m ∈ maps, m.entries.Pairwise (SameKind payload) := fun m _ ↦
    (List.pairwise_map.1 m.nodup).imp fun hne hkey ↦ absurd hkey hne
  rw [List.pairwise_flatMap, and_iff_right hwithin]
  refine iff_of_eq (congrArg (List.Pairwise · maps) (funext fun m ↦ funext fun m' ↦ propext ?_))
  constructor
  · intro h key a b ha hb
    exact h (key, a) (get?_eq_some_iff.1 ha) (key, b) (get?_eq_some_iff.1 hb) rfl
  · rintro h ⟨key, a⟩ ha ⟨_, b⟩ hb rfl
    exact h key a b (get?_eq_some_iff.2 ha) (get?_eq_some_iff.2 hb)

/-- **Maps can be put together** exactly if no two of them disagree, and this sets all their entries
one after the other. -/
theorem union_eq_ok_iff {maps : List (OrderedMap α)} {u : OrderedMap α} :
    union payload maps = .ok u ↔
      maps.Pairwise (Agrees payload) ∧ u = ofList (maps.flatMap entries) := by
  have hempty : ∀ e ∈ maps.flatMap entries, ∀ a, (empty : OrderedMap α).get? e.1 = some a →
      (payload a).kind = (payload e.2).kind := fun _ _ _ h ↦ nomatch h
  rw [union, foldlM_merge_eq, foldlM_put_eq_ok_iff, pairwise_sameKind_iff, and_iff_right hempty]
  rfl

/-! ### Groups -/

/-- Setting the entries of the map of a list goes through where setting those of the list does. -/
theorem foldlM_entries_ofList_iff {l : List (String × α)} (hl : l.Pairwise (SameKind payload))
    {m u : OrderedMap α} : (ofList l).entries.foldlM (put payload) m = .ok u ↔
      l.foldlM (put payload) m = .ok u := by
  have hentries : (ofList l).entries.Pairwise (SameKind payload) :=
    (List.pairwise_map.1 (ofList l).nodup).imp fun hne hkey ↦ absurd hkey hne
  rw [foldlM_put_eq_ok_iff, foldlM_put_eq_ok_iff, insertAll_entries_ofList,
    and_iff_left hentries, and_iff_left hl]
  refine and_congr_left' ⟨fun h e he a ha ↦ ?_, fun h e he ↦ h e (mem_of_mem_ofList he)⟩
  -- What is set last under the key of an entry has the kind of that entry.
  have hkey : e.1 ∈ (ofList l).keys := by
    rw [keys_ofList, List.mem_eraseDups]
    exact List.mem_map_of_mem he
  obtain ⟨b, hb⟩ := Option.isSome_iff_exists.1 (mem_keys_iff.1 hkey)
  have hmem := get?_eq_some_iff.1 hb
  rw [h _ hmem a ha]
  exact hl.forall_of_forall (fun _ _ _ ↦ rfl) (mem_of_mem_ofList hmem) he rfl

/-- Maps can be put together first and then with what is there. -/
theorem exists_union_iff {maps : List (OrderedMap α)} {m u : OrderedMap α} :
    (∃ v, union payload maps = .ok v ∧ merge payload m v = .ok u) ↔
      maps.foldlM (merge payload) m = .ok u := by
  rw [foldlM_merge_eq]
  constructor
  · rintro ⟨v, hv, hu⟩
    obtain ⟨hagrees, rfl⟩ := union_eq_ok_iff.1 hv
    exact (foldlM_entries_ofList_iff (pairwise_sameKind_iff.2 hagrees)).1 hu
  · intro hu
    have hsame := (foldlM_put_eq_ok_iff.1 hu).1.2
    exact ⟨_, union_eq_ok_iff.2 ⟨pairwise_sameKind_iff.1 hsame, rfl⟩,
      (foldlM_entries_ofList_iff hsame).2 hu⟩

theorem exists_mapM_union_iff {groups : List (List (OrderedMap α))} {m u : OrderedMap α} :
    (∃ vs, groups.mapM (union payload) = .ok vs ∧ vs.foldlM (merge payload) m = .ok u) ↔
      groups.flatten.foldlM (merge payload) m = .ok u := by
  induction groups generalizing m with
  | nil =>
    constructor
    · rintro ⟨_, ⟨⟩, h⟩
      exact h
    · exact fun h ↦ ⟨[], rfl, h⟩
  | cons g groups ih =>
    rw [List.mapM_cons, List.flatten_cons, List.foldlM_append]
    constructor
    · rintro ⟨vs, hvs, hu⟩
      obtain ⟨v, hv, hvs⟩ := Engine.World.exists_of_bind_eq_ok hvs
      obtain ⟨vs', hvs', ⟨⟩⟩ := Engine.World.exists_of_bind_eq_ok hvs
      rw [List.foldlM_cons] at hu
      obtain ⟨m', hm', hu⟩ := Engine.World.exists_of_bind_eq_ok hu
      rw [exists_union_iff.1 ⟨v, hv, hm'⟩]
      exact ih.1 ⟨vs', hvs', hu⟩
    · intro hu
      obtain ⟨m', hm', hu⟩ := Engine.World.exists_of_bind_eq_ok hu
      obtain ⟨v, hv, hm'⟩ := exists_union_iff.2 hm'
      obtain ⟨vs, hvs, hu⟩ := ih.2 hu
      refine ⟨v :: vs, ?_, ?_⟩
      · rw [hv, hvs]
        rfl
      · rw [List.foldlM_cons, hm']
        exact hu

theorem toOption_congr {β : Type} {x y : Except Problem β} (h : ∀ b, x = .ok b ↔ y = .ok b) :
    x.toOption = y.toOption := by
  cases x with
  | ok b => rw [(h b).1 rfl]
  | error p =>
    cases y with
    | ok b => exact nomatch (h b).2 rfl
    | error p' => rfl

/-- **It does not matter how maps are grouped.** -/
theorem toOption_union_flatten (groups : List (List (OrderedMap α))) :
    (groups.mapM (union payload) >>= union payload).toOption =
      (union payload groups.flatten).toOption := by
  refine toOption_congr fun u ↦ ?_
  rw [union, ← exists_mapM_union_iff]
  constructor
  · exact Engine.World.exists_of_bind_eq_ok
  · rintro ⟨vs, hvs, hu⟩
    rw [hvs]
    exact hu

theorem toOption_union_append (xs ys : List (OrderedMap α)) :
    (do
      let u ← union payload xs
      let v ← union payload ys
      union payload [u, v]).toOption = (union payload (xs ++ ys)).toOption := by
  have hpair : [xs, ys].flatten = xs ++ ys := by
    rw [List.flatten_cons, List.flatten_cons, List.flatten_nil, List.append_nil]
  rw [← hpair, ← toOption_union_flatten, List.mapM_cons, List.mapM_cons, List.mapM_nil]
  simp only [bind_assoc, pure_bind]

end LiveTemplate.OrderedMap

namespace LiveTemplate.Session

open Engine

variable {s : Session}

/-! ### Sessions that put maps together -/

/-- **A session that puts maps together** makes new cells at most as it looks for them. Once they
are found it either stays as it is, or keeps what comes of it under a name. -/
theorem session_of_keepUnion {name : String} {of : List MapOperand} {r : Run} {label : Option String}
    {maps : List ValueMap} (h : of.mapM mapOperand r.session = (.ok maps, s)) :
    r.session.Extends s ∧
      (∀ p, OrderedMap.union s.world.payload maps = .error p →
        (r.enter label (.map (.keepUnion name of))).session = s) ∧
      ∀ u, OrderedMap.union s.world.payload maps = .ok u →
        (r.enter label (.map (.keepUnion name of))).session =
          { s with maps := s.maps.insert name u } := by
  have hextends := extends_mapM extends_mapOperand of r.session
  rw [h] at hextends
  have hrun : ∀ inHand, (Command.map (.keepUnion name of)).run inHand r.session =
      ((sound (OrderedMap.union s.world.payload maps) : Act ValueMap) >>= keepAndShow name) s :=
    fun _ ↦ (Act.bind_of_ok h).trans (Act.bind_of_ok (Act.get_eq s))
  refine ⟨hextends, fun p hp ↦ ?_, fun u hu ↦ ?_⟩
  · rw [Run.enter, hrun, hp]
    rfl
  · rw [Run.enter, hrun, hu]
    rfl

end LiveTemplate.Session

namespace LiveTemplate.OrderedMap

open Session

variable {α : Type}

/-- **Maps are put together key by key**, the last value winning and the first place staying. They can
be unless two of them disagree about the kind of what is under a key. What comes of it has all their
keys, in the order in which these first appear, and under each the very value that the last map has
there. It does not matter how the maps are grouped, neither for what comes of it nor for whether
anything does. And a session that does this changes none of the maps: to find them it makes new
cells at most, and then it stays as it is if it cannot be done, and otherwise keeps the result. -/
theorem union_last_wins (payload : α → Payload) :
    (∀ maps, (∃ u, union payload maps = .ok u) ↔ maps.Pairwise (Agrees payload)) ∧
      (∀ maps u, union payload maps = .ok u → u.keys = (maps.flatMap keys).eraseDups ∧
        ∀ key, u.get? key = (maps.filterMap (·.get? key)).getLast?) ∧
      (∀ xs ys,
        (do
          let u ← union payload xs
          let v ← union payload ys
          union payload [u, v]).toOption = (union payload (xs ++ ys)).toOption) ∧
      (∀ groups : List (List (OrderedMap α)), (groups.mapM (union payload) >>= union payload).toOption =
        (union payload groups.flatten).toOption) ∧
      ∀ (name : String) (of : List MapOperand) (r : Run) (label : Option String)
        (maps : List Engine.ValueMap) (s : Session), of.mapM mapOperand r.session = (.ok maps, s) →
          r.session.Extends s ∧
          (∀ p, union s.world.payload maps = .error p →
            (r.enter label (.map (.keepUnion name of))).session = s) ∧
          ∀ u, union s.world.payload maps = .ok u →
            (r.enter label (.map (.keepUnion name of))).session =
              { s with maps := s.maps.insert name u } := by
  refine ⟨fun maps ↦ ?_, fun maps u hu ↦ ?_, toOption_union_append, toOption_union_flatten,
    fun _ _ _ _ _ _ ↦ session_of_keepUnion⟩
  · constructor
    · rintro ⟨u, hu⟩
      exact (union_eq_ok_iff.1 hu).1
    · exact fun h ↦ ⟨_, union_eq_ok_iff.2 ⟨h, rfl⟩⟩
  · obtain ⟨-, rfl⟩ := union_eq_ok_iff.1 hu
    refine ⟨?_, get?_ofList_entries maps⟩
    rw [keys_ofList, List.map_flatMap]
    rfl

/-! ### Three maps -/

/-- Two maps that share a key, and one that disagrees with the first. -/
def drawers : List MapOperand :=
  [.entries [("x", .fresh (.int 1)), ("y", .fresh (.int 2))],
    .entries [("z", .fresh (.duration 5)), ("y", .fresh (.int 3))],
    .entries [("x", .fresh (.string "1"))]]

/-- The cells that are in them. -/
def drawn : List Engine.ValueMap :=
  [ofList [("x", 0), ("y", 1)], ofList [("z", 2), ("y", 3)], ofList [("x", 4)]]

/-- A run in which nothing is begun. -/
def idle : Run := ⟨ofGlobals [] false, [], none⟩

/-- The session in which the maps have been found. -/
def opened : Session :=
  { idle.session with
    world := [.int 1, .int 2, .duration 5, .int 3, .string "1"].foldl (fun w p ↦ (w.create p).2)
      idle.session.world }

/-- The first two come to one map, with the later value in the earlier place. With the third they come
to nothing, even if it is put together with the second first, and the session only has new cells. -/
theorem union_last_wins_drawers :
    (∃ u, union opened.world.payload (drawn.take 2) = .ok u ∧ u.keys = ["x", "y", "z"] ∧
        u.get? "y" = some 3) ∧
      ([drawn.take 1, drawn.drop 1].mapM (union opened.world.payload) >>=
        union opened.world.payload).toOption = none ∧
      (idle.enter none (.map (.keepUnion "all" drawers))).session = opened := by
  obtain ⟨-, hlast, -, hgroups, hsession⟩ := union_last_wins opened.world.payload
  have hfails : (union opened.world.payload drawn).toOption.isNone = true := by decide
  refine ⟨?_, ?_, ?_⟩
  · have hgoes : (union opened.world.payload (drawn.take 2)).toOption.isSome = true := by decide
    cases hu : union opened.world.payload (drawn.take 2) with
    | error p => rw [hu] at hgoes; cases hgoes
    | ok u =>
      obtain ⟨hkeys, hget⟩ := hlast _ u hu
      exact ⟨u, rfl, hkeys.trans (by decide), (hget "y").trans (by decide)⟩
  · exact (hgroups [drawn.take 1, drawn.drop 1]).trans (Option.isNone_iff_eq_none.1 hfails)
  · have hfound : drawers.mapM mapOperand idle.session = (.ok drawn, opened) := by
      simp only [drawers, List.mapM_cons, List.mapM_nil]
      rfl
    obtain ⟨-, hclash, -⟩ := hsession "all" drawers idle none drawn opened hfound
    cases hp : union opened.world.payload drawn with
    | error p => exact hclash p hp
    | ok u => rw [hp] at hfails; cases hfails

end LiveTemplate.OrderedMap
