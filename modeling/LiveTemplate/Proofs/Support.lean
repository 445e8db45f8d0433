import Mathlib.Data.List.Forall2
import Mathlib.Data.List.TakeWhile
import LiveTemplate.Cli.Run

/-!
# What a host supports

A list of what is supported is an array of texts in a configuration, or one text with commas between
its items (`Itemizes`). An item of a list of actions or reactions names a target and a kind with a
colon between them (`Writes`); that of a list of watches is a kind. The command line and the
configuration each give a list or none, for each sort of declaration, and what they give counts
together (`Supports`). That there is no list is not that there is an empty one: without a list
nothing is asked for, and with an empty one nothing is supported.

A check finds, for each sort, all the declarations that are not supported, if it is asked for them
(`offences`), and comes to one problem for each sort in which there are any
(`check_decides_inclusion`). What it finds depends on nothing but on whether there is a list, and on
what is in one.
-/

namespace LiveTemplate.Cli

/-! ### Items with commas between them -/

theorem splitCommas_eq_splitOn (s : List Char) : splitCommas s = s.splitOn ',' := by
  induction s with
  | nil => rfl
  | cons c s ih =>
    obtain ⟨piece, rest, hpieces⟩ := List.exists_cons_of_ne_nil (List.splitOn_ne_nil ',' s)
    rw [hpieces] at ih
    rw [List.splitOn_cons_eq_if_modifyHead, hpieces, splitCommas, List.foldr_cons, ← splitCommas,
      ih]
    simp only [beq_iff_eq, List.modifyHead_cons]

/-- No piece of a text that is cut at every comma has one. -/
theorem not_mem_of_mem_splitOn {s piece : List Char} (h : piece ∈ s.splitOn ',') : ',' ∉ piece := by
  induction s generalizing piece with
  | nil =>
    rw [List.splitOn_nil, List.mem_singleton] at h
    exact h ▸ List.not_mem_nil
  | cons c s ih =>
    obtain ⟨first, rest, hpieces⟩ := List.exists_cons_of_ne_nil (List.splitOn_ne_nil ',' s)
    rw [List.splitOn_cons_eq_if_modifyHead] at h
    split at h
    · rcases List.mem_cons.1 h with rfl | h
      · exact List.not_mem_nil
      · exact ih h
    · rename_i hc
      rw [hpieces, List.modifyHead_cons] at h
      rw [hpieces] at ih
      rcases List.mem_cons.1 h with rfl | h
      · intro hmem
        rcases List.mem_cons.1 hmem with rfl | hmem
        · exact hc (beq_self_eq_true _)
        · exact ih List.mem_cons_self hmem
      · exact ih (List.mem_cons_of_mem _ h)

/-- The text has the items, with commas between them. Blanks around an item do not count, nor does
an item that is all blank. -/
def Itemizes (text : String) (items : List String) : Prop :=
  ∃ pieces : List (List Char), pieces ≠ [] ∧ (∀ piece ∈ pieces, ',' ∉ piece) ∧
    text.toList = [','].intercalate pieces ∧
    items = ((pieces.map Text.trim).filter (· ≠ [])).map String.ofList

theorem itemsOf_eq (text : String) :
    itemsOf text =
      (((text.toList.splitOn ',').map Text.trim).filter (· ≠ [])).map String.ofList := by
  rw [itemsOf, splitCommas_eq_splitOn]
  induction text.toList.splitOn ',' with
  | nil => rfl
  | cons piece rest ih =>
    rw [List.filterMap_cons, ih, List.map_cons]
    by_cases hempty : Text.trim piece = [] <;> simp [hempty]

/-- **The items of a text** are what it itemizes. -/
theorem itemsOf_eq_iff {text : String} {items : List String} :
    itemsOf text = items ↔ Itemizes text items := by
  rw [itemsOf_eq]
  constructor
  · rintro rfl
    exact ⟨_, List.splitOn_ne_nil _ _, fun _ ↦ not_mem_of_mem_splitOn,
      (List.intercalate_splitOn _).symm, rfl⟩
  · rintro ⟨pieces, hne, hcommas, htext, rfl⟩
    rw [htext, List.splitOn_intercalate _ hcommas hne]

/-! ### Pairs -/

/-- The item names a target and a kind: there is a colon between them, and none in the target. -/
structure Writes (item : String) (binding : String × String) : Prop where
  item : item = binding.1 ++ ":" ++ binding.2
  target : binding.1 ≠ ""
  colon : ':' ∉ binding.1.toList
  kind : binding.2 ≠ ""

instance (item : String) (binding : String × String) : Decidable (Writes item binding) :=
  decidable_of_iff (item = binding.1 ++ ":" ++ binding.2 ∧ binding.1 ≠ "" ∧
      ':' ∉ binding.1.toList ∧ binding.2 ≠ "")
    ⟨fun ⟨hitem, htarget, hcolon, hkind⟩ ↦ ⟨hitem, htarget, hcolon, hkind⟩,
      fun h ↦ ⟨h.item, h.target, h.colon, h.kind⟩⟩

/-- **An item denotes the pair that it names.** -/
theorem pairOf_eq_ok_iff {item : String} {binding : String × String} :
    pairOf item = .ok binding ↔ Writes item binding := by
  have hcut := List.takeWhile_append_dropWhile (p := (· != ':')) (l := item.toList)
  have hbefore : ':' ∉ item.toList.takeWhile (· != ':') := fun hmem ↦ by
    have hne := List.mem_takeWhile_imp hmem
    exact absurd rfl (bne_iff_ne.1 hne)
  have hcolon := List.head?_dropWhile_not (· != ':') item.toList
  constructor
  · intro h
    unfold pairOf at h
    dsimp only at h
    split at h
    · rename_i c kind hdrop
      rw [hdrop] at hcut hcolon
      obtain rfl : c = ':' := by simpa using hcolon
      split at h
      · cases h
      · rename_i hne
        rw [Bool.or_eq_true, not_or, List.isEmpty_iff, List.isEmpty_iff] at hne
        cases h
        have hnonempty : ∀ {s : List Char}, s ≠ [] → String.ofList s ≠ "" := fun hs heq ↦ by
          rw [← String.toList_inj, String.toList_ofList] at heq
          exact hs heq
        refine ⟨?_, hnonempty hne.1, ?_, hnonempty hne.2⟩
        · rw [← String.toList_inj]
          simp only [String.toList_append, String.toList_ofList]
          rw [List.append_assoc]
          exact hcut.symm
        · rw [String.toList_ofList]
          exact hbefore
    · cases h
  · rintro ⟨hitem, htarget, hcolon, hkind⟩
    have hchars : item.toList = binding.1.toList ++ ':' :: binding.2.toList := by simp [hitem]
    have hother : ∀ c ∈ binding.1.toList, (c != ':') = true := fun c hc ↦
      bne_iff_ne.2 fun heq ↦ hcolon (heq ▸ hc)
    rw [pairOf, hchars, List.takeWhile_append_of_pos hother, List.dropWhile_append_of_pos hother]
    simp [htarget, hkind]

theorem Writes.unique {item : String} {binding binding' : String × String}
    (h : Writes item binding) (h' : Writes item binding') : binding' = binding :=
  Except.ok.inj ((pairOf_eq_ok_iff.2 h').symm.trans (pairOf_eq_ok_iff.2 h))

/-- Items that denote pairs each are read, and the pairs are those that they denote. -/
theorem exists_pairsOf {items : List String}
    (h : ∀ item ∈ items, ∃ binding, Writes item binding) :
    ∃ bindings, pairsOf items = .ok bindings ∧
      ∀ binding, binding ∈ bindings ↔ ∃ item ∈ items, Writes item binding := by
  induction items with
  | nil => exact ⟨[], rfl, fun _ ↦ by simp⟩
  | cons item items ih =>
    obtain ⟨⟨first, hfirst⟩, hrest⟩ := List.forall_mem_cons.1 h
    obtain ⟨rest, hpairs, hmem⟩ := ih hrest
    have hpairs : items.mapM pairOf = .ok rest := hpairs
    refine ⟨first :: rest, ?_, fun binding ↦ ?_⟩
    · rw [pairsOf, List.mapM_cons, pairOf_eq_ok_iff.2 hfirst, hpairs]
      rfl
    · simp only [List.mem_cons, hmem, exists_eq_or_imp]
      exact or_congr_left ⟨fun heq ↦ heq ▸ hfirst, hfirst.unique⟩

/-! ### Sources -/

namespace AllowLists

/-- The list of a source for a sort of declarations. -/
def Raw.list (r : Raw) : Declaration → Option (List String)
  | .action => r.actions
  | .reaction => r.reactions
  | .watch => r.watches

/-- In the lists for actions and reactions each item denotes a pair. -/
def Raw.WellFormed (r : Raw) : Prop :=
  ∀ what ≠ .watch, ∀ items ∈ r.list what, ∀ item ∈ items, ∃ binding, Writes item binding

theorem wellFormed_of_isOk {r : Raw}
    (h : ∀ item ∈ r.actions.getD [] ++ r.reactions.getD [], (pairOf item).isOk = true) :
    r.WellFormed := by
  intro what hwhat items hitems item hitem
  have hok : (pairOf item).isOk = true := by
    refine h item (List.mem_append.2 ?_)
    cases what with
    | action =>
      have hactions : r.actions = some items := hitems
      exact .inl (by rwa [hactions])
    | reaction =>
      have hreactions : r.reactions = some items := hitems
      exact .inr (by rwa [hreactions])
    | watch => exact absurd rfl hwhat
  cases hpair : pairOf item with
  | error e => rw [hpair] at hok; cases hok
  | ok binding => exact ⟨binding, pairOf_eq_ok_iff.1 hpair⟩

/-- The lists of a command line. -/
structure Flagged (actions reactions watches : Option String) (r : Raw) : Prop where
  actions : Option.Rel Itemizes actions r.actions
  reactions : Option.Rel Itemizes reactions r.reactions
  watches : Option.Rel Itemizes watches r.watches

/-- What the sources of lists are: the command line, and a configuration if one is named that can be
read. -/
inductive Sources (files : Files) (actions reactions watches : Option String) :
    Option String → List Raw → Prop
  | alone {flags : Raw} (h : Flagged actions reactions watches flags) :
      Sources files actions reactions watches none [flags]
  | configured {flags config : Raw} {path source : String}
      (h : Flagged actions reactions watches flags) (hread : files path = .ok source)
      (hconfig : (Toml.parse? source).bind raw? = some config) :
      Sources files actions reactions watches (some path) [flags, config]

/-- Some source has a list for a sort of declarations. -/
def Asked (sources : List Raw) (what : Declaration) : Prop :=
  ∃ r ∈ sources, (r.list what).isSome

/-- Some source has an item that names a target and a kind, in its list for a sort of
declarations. -/
def Supports (sources : List Raw) (what : Declaration) (binding : String × String) : Prop :=
  ∃ r ∈ sources, ∃ items ∈ r.list what, ∃ item ∈ items, Writes item binding

/-- Some source has a kind in its list for watches. -/
def SupportsKind (sources : List Raw) (kind : String) : Prop :=
  ∃ r ∈ sources, ∃ items ∈ r.watches, kind ∈ items

instance (sources : List Raw) (what : Declaration) : Decidable (Asked sources what) :=
  inferInstanceAs (Decidable (∃ r ∈ sources, (r.list what).isSome))

instance (sources : List Raw) (what : Declaration) : DecidablePred (Supports sources what) :=
  fun binding ↦ inferInstanceAs (Decidable (∃ r ∈ sources, ∃ items ∈ r.list what,
    ∃ item ∈ items, Writes item binding))

instance (sources : List Raw) : DecidablePred (SupportsKind sources) :=
  fun kind ↦ inferInstanceAs (Decidable (∃ r ∈ sources, ∃ items ∈ r.watches, kind ∈ items))

/-- A list that may be left out says whether there is one and what is in it. -/
structure Gathers {α : Type} (given : Option (List α)) (asked : Prop) (supported : α → Prop) :
    Prop where
  asked : given.isSome ↔ asked
  supported : ∀ a, (∃ l ∈ given, a ∈ l) ↔ supported a

section Gathers

variable {α : Type} {given given' : Option (List α)} {asked asked' : Prop}
  {supported supported' : α → Prop}

theorem Gathers.congr (h : Gathers given asked supported) (hasked : asked ↔ asked')
    (hsupported : ∀ a, supported a ↔ supported' a) : Gathers given asked' supported' :=
  ⟨h.asked.trans hasked, fun a ↦ (h.supported a).trans (hsupported a)⟩

/-- **Two lists that are put together** are one if either is, with what is in either. -/
theorem Gathers.join (h : Gathers given asked supported) (h' : Gathers given' asked' supported') :
    Gathers (join given given') (asked ∨ asked') fun a ↦ supported a ∨ supported' a where
  asked := by
    rw [← h.asked, ← h'.asked]
    cases given <;> cases given' <;> simp [AllowLists.join]
  supported := fun a ↦ by
    rw [← h.supported, ← h'.supported]
    cases given <;> cases given' <;> simp [AllowLists.join]

theorem gathers_pairs {items : Option (List String)}
    (h : ∀ l ∈ items, ∀ item ∈ l, ∃ binding, Writes item binding) :
    ∃ given, items.mapM pairsOf = .ok given ∧ Gathers given items.isSome
      fun binding ↦ ∃ l ∈ items, ∃ item ∈ l, Writes item binding := by
  cases items with
  | none => exact ⟨none, rfl, Iff.rfl, fun _ ↦ by simp⟩
  | some l =>
    obtain ⟨bindings, hpairs, hmem⟩ := exists_pairsOf (h l rfl)
    refine ⟨some bindings, ?_, Iff.rfl, fun binding ↦ ?_⟩
    · rw [Option.mapM_some, hpairs]
      rfl
    · simpa using hmem binding

theorem gathers_kinds (items : Option (List String)) :
    Gathers items items.isSome fun kind ↦ ∃ l ∈ items, kind ∈ l := ⟨Iff.rfl, fun _ ↦ Iff.rfl⟩

end Gathers

/-- The lists are those of the sources together. -/
structure Unites (sources : List Raw) (lists : AllowLists) : Prop where
  actions : Gathers lists.actions (Asked sources .action) (Supports sources .action)
  reactions : Gathers lists.reactions (Asked sources .reaction) (Supports sources .reaction)
  watches : Gathers lists.watches (Asked sources .watch) (SupportsKind sources)

theorem asked_singleton (r : Raw) (what : Declaration) :
    Asked [r] what ↔ (r.list what).isSome := by simp [Asked]

theorem asked_append (sources sources' : List Raw) (what : Declaration) :
    Asked (sources ++ sources') what ↔ Asked sources what ∨ Asked sources' what := by
  simp [Asked, or_and_right, exists_or]

theorem supports_append (sources sources' : List Raw) (what : Declaration)
    (binding : String × String) : Supports (sources ++ sources') what binding ↔
      Supports sources what binding ∨ Supports sources' what binding := by
  simp only [Supports, List.mem_append, or_and_right, exists_or]

theorem supportsKind_append (sources sources' : List Raw) (kind : String) :
    SupportsKind (sources ++ sources') kind ↔
      SupportsKind sources kind ∨ SupportsKind sources' kind := by
  simp only [SupportsKind, List.mem_append, or_and_right, exists_or]

/-- The lists of one source are found if they are well-formed. -/
theorem exists_ofRaw {r : Raw} (h : r.WellFormed) :
    ∃ lists, ofRaw r = .ok lists ∧ Unites [r] lists := by
  have hpairs : ∀ what ≠ .watch, ∃ given, (r.list what).mapM pairsOf = .ok given ∧
      Gathers given (Asked [r] what) (Supports [r] what) := fun what hwhat ↦ by
    obtain ⟨given, hgiven, hgathers⟩ := gathers_pairs (h what hwhat)
    exact ⟨given, hgiven, hgathers.congr (asked_singleton r what).symm fun _ ↦ by simp [Supports]⟩
  obtain ⟨actions, hactions, hgathersActions⟩ := hpairs .action nofun
  obtain ⟨reactions, hreactions, hgathersReactions⟩ := hpairs .reaction nofun
  refine ⟨⟨actions, reactions, r.watches⟩, ?_, hgathersActions, hgathersReactions,
    (gathers_kinds r.watches).congr (asked_singleton r .watch).symm fun _ ↦ by simp [SupportsKind]⟩
  show (r.list .action).mapM pairsOf >>= _ = _
  rw [hactions]
  show (r.list .reaction).mapM pairsOf >>= _ = _
  rw [hreactions]
  rfl

/-- **What is merged is what the sources have together.** -/
theorem Unites.merge {sources sources' : List Raw} {lists lists' : AllowLists}
    (h : Unites sources lists) (h' : Unites sources' lists') :
    Unites (sources ++ sources') (lists.merge lists') where
  actions := (h.actions.join h'.actions).congr (asked_append ..).symm
    fun _ ↦ (supports_append ..).symm
  reactions := (h.reactions.join h'.reactions).congr (asked_append ..).symm
    fun _ ↦ (supports_append ..).symm
  watches := (h.watches.join h'.watches).congr (asked_append ..).symm
    fun _ ↦ (supportsKind_append ..).symm

theorem ofFlags_eq {actions reactions watches : Option String} {r : Raw}
    (h : Flagged actions reactions watches r) : ofFlags actions reactions watches = ofRaw r := by
  have hitems : ∀ {text : Option String} {items : Option (List String)},
      Option.Rel Itemizes text items → text.map itemsOf = items := fun h ↦ by
    cases h with
    | some h => exact congrArg some (itemsOf_eq_iff.2 h)
    | none => rfl
  rw [ofFlags, hitems h.actions, hitems h.reactions, hitems h.watches]

theorem ofConfig_eq {files : Files} {path source : String} {r : Raw}
    (hread : files path = .ok source) (hconfig : (Toml.parse? source).bind raw? = some r) :
    ofConfig files path = ofRaw r := by
  have hsource : readInput files .config path = .ok source := by
    rw [readInput, hread]
    rfl
  simp only [ofConfig, hsource, bind, Except.bind, hconfig]

/-- **The lists of well-formed sources are found**, and are what these have together. -/
theorem exists_allowLists {files : Files} {actions reactions watches config : Option String}
    {sources : List Raw} (h : Sources files actions reactions watches config sources)
    (hwell : ∀ r ∈ sources, r.WellFormed) :
    ∃ lists, Invocation.allowLists files actions reactions watches config = .ok lists ∧
      Unites sources lists := by
  cases h with
  | alone hflags =>
    obtain ⟨lists, hlists, hunites⟩ := exists_ofRaw (hwell _ List.mem_cons_self)
    refine ⟨lists, ?_, hunites⟩
    rw [Invocation.allowLists, ofFlags_eq hflags, hlists]
    rfl
  | configured hflags hread hconfig =>
    obtain ⟨lists, hlists, hunites⟩ := exists_ofRaw (hwell _ List.mem_cons_self)
    obtain ⟨lists', hlists', hunites'⟩ :=
      exists_ofRaw (hwell _ (List.mem_cons_of_mem _ List.mem_cons_self))
    refine ⟨lists.merge lists', ?_, hunites.merge hunites'⟩
    rw [Invocation.allowLists, ofFlags_eq hflags, hlists]
    show ofConfig files _ >>= _ = _
    rw [ofConfig_eq hread hconfig, hlists']
    rfl

end AllowLists

/-! ### Offences -/

section Offences

variable {α : Type}

/-- What is found wrong with the declarations of one sort, if there is anything: the names of all
that are not supported, if they are asked for. -/
def offence (what : Declaration) (name : α → String) (declared : List α) (asked : Prop)
    [Decidable asked] (supported : α → Prop) [DecidablePred supported] :
    List (Declaration × List String) :=
  let offenders := declared.filter fun a ↦ ¬supported a
  if asked ∧ offenders ≠ [] then [(what, offenders.map name)] else []

variable {what : Declaration} {name : α → String} {declared : List α} {asked : Prop}
  [Decidable asked] {supported : α → Prop} [DecidablePred supported]

theorem offence_eq_nil_iff :
    offence what name declared asked supported = [] ↔ (asked → ∀ a ∈ declared, supported a) := by
  rw [offence]
  split
  · rename_i h
    obtain ⟨hasked, hne⟩ := h
    refine ⟨nofun, fun hall ↦ absurd ?_ hne⟩
    refine List.filter_eq_nil_iff.2 fun a ha ↦ ?_
    simpa using hall hasked a ha
  · rename_i h
    refine ⟨fun _ hasked a ha ↦ ?_, fun _ ↦ rfl⟩
    have hnil := not_not.1 fun hne ↦ h ⟨hasked, hne⟩
    simpa using List.filter_eq_nil_iff.1 hnil a ha

/-- It depends only on whether they are asked for, and which are supported. -/
theorem offence_congr {asked' : Prop} [Decidable asked'] {supported' : α → Prop}
    [DecidablePred supported'] (hasked : asked ↔ asked')
    (hsupported : ∀ a, supported a ↔ supported' a) :
    offence what name declared asked supported = offence what name declared asked' supported' := by
  simp only [offence, hasked, hsupported]

/-- The problem is that all these are not supported. -/
def Reports (p : Problem) (offence : Declaration × List String) : Prop :=
  ∃ supported, p = .unsupported offence.1 offence.2 supported

/-- **A check of one sort of declarations** comes to a problem if it finds an offence. -/
theorem forall₂_reports [BEq α] [LawfulBEq α] {given : Option (List α)}
    (h : AllowLists.Gathers given asked supported) {check : List α → Except Problem Unit}
    (hcheck : ∀ l, check l =
      if (declared.filter fun a ↦ !l.contains a).isEmpty then .ok ()
      else .error (.unsupported what ((declared.filter fun a ↦ !l.contains a).map name)
        (l.map name))) :
    List.Forall₂ Reports (AllowLists.verdict check given)
      (offence what name declared asked supported) := by
  cases given with
  | none =>
    have hasked : ¬asked := fun hasked ↦ nomatch h.asked.2 hasked
    rw [offence, if_neg fun hand ↦ hasked hand.1]
    exact .nil
  | some l =>
    have hasked : asked := h.asked.1 rfl
    have hoffenders : (declared.filter fun a ↦ !l.contains a) =
        declared.filter fun a ↦ ¬supported a := by
      refine List.filter_congr fun a _ ↦ ?_
      have hmem : a ∈ l ↔ supported a := by simpa using h.supported a
      simp [← hmem]
    by_cases hnil : (declared.filter fun a ↦ ¬supported a) = []
    · rw [AllowLists.verdict, hcheck, hoffenders, if_pos (List.isEmpty_iff.2 hnil), offence,
        if_neg fun hand ↦ hand.2 hnil]
      exact .nil
    · rw [AllowLists.verdict, hcheck, hoffenders,
        if_neg fun hempty ↦ hnil (List.isEmpty_iff.1 hempty), offence, if_pos ⟨hasked, hnil⟩]
      exact .cons ⟨_, rfl⟩ .nil

end Offences

open AllowLists

variable {α β : Type}

/-- All that is found wrong with interactions: for each sort of declarations in which some are not
supported and are asked for, the names of these, in the order in which they are declared. -/
def offences (sources : List Raw) (i : Interactions α β) : List (Declaration × List String) :=
  offence .action bindingName i.actionBindings (Asked sources .action)
      (Supports sources .action) ++
    offence .reaction bindingName i.reactionBindings (Asked sources .reaction)
      (Supports sources .reaction) ++
    offence .watch id i.watchKinds (Asked sources .watch) (SupportsKind sources)

/-- For each sort there is no list, or all that is declared is in one. -/
structure Includes (sources : List Raw) (i : Interactions α β) : Prop where
  actions : Asked sources .action → ∀ b ∈ i.actionBindings, Supports sources .action b
  reactions : Asked sources .reaction → ∀ b ∈ i.reactionBindings, Supports sources .reaction b
  watches : Asked sources .watch → ∀ kind ∈ i.watchKinds, SupportsKind sources kind

theorem offences_eq_nil_iff {sources : List Raw} {i : Interactions α β} :
    offences sources i = [] ↔ Includes sources i := by
  rw [offences, List.append_eq_nil_iff, List.append_eq_nil_iff, offence_eq_nil_iff,
    offence_eq_nil_iff, offence_eq_nil_iff]
  exact ⟨fun ⟨⟨hactions, hreactions⟩, hwatches⟩ ↦ ⟨hactions, hreactions, hwatches⟩,
    fun h ↦ ⟨⟨h.actions, h.reactions⟩, h.watches⟩⟩

/-- The same is asked for, and the same is supported. -/
structure SameSupport (sources sources' : List Raw) : Prop where
  asked : ∀ what, Asked sources what ↔ Asked sources' what
  supports : ∀ what ≠ .watch, ∀ b, Supports sources what b ↔ Supports sources' what b
  kinds : ∀ kind, SupportsKind sources kind ↔ SupportsKind sources' kind

theorem offences_congr {sources sources' : List Raw} (h : SameSupport sources sources')
    (i : Interactions α β) : offences sources i = offences sources' i := by
  rw [offences, offence_congr (h.asked .action) (h.supports .action nofun),
    offence_congr (h.asked .reaction) (h.supports .reaction nofun),
    offence_congr (h.asked .watch) h.kinds]
  rfl

/-- **The problems of a check** are one for each offence. -/
theorem AllowLists.Unites.forall₂_reports {sources : List Raw} {lists : AllowLists}
    (h : Unites sources lists) (i : Interactions α β) :
    List.Forall₂ Reports (lists.problems i) (offences sources i) := by
  rw [problems, offences]
  refine List.rel_append (List.rel_append ?_ ?_) ?_
  · exact Cli.forall₂_reports h.actions fun _ ↦ rfl
  · exact Cli.forall₂_reports h.reactions fun _ ↦ rfl
  · refine Cli.forall₂_reports h.watches fun l ↦ ?_
    rw [List.map_id, List.map_id]
    rfl

/-! ### Checks -/

/-- A check that can be made: of a template that denotes a document, against the lists of sources
that are well-formed. -/
structure Check where
  file : String
  actions : Option String
  reactions : Option String
  watches : Option String
  config : Option String
  style : Style
  quiet : Bool
  files : Files
  document : Template.Document
  sources : List Raw
  loaded : Invocation.load files file = .ok document
  given : Sources files actions reactions watches config sources
  wellFormed : ∀ r ∈ sources, r.WellFormed

namespace Check

/-- The command line of a check. -/
def invocation (c : Check) : Invocation :=
  ⟨.check c.file c.actions c.reactions c.watches c.config, c.style, c.quiet⟩

/-- What comes of a check. -/
def outcome (c : Check) : Outcome := c.invocation.run c.files

/-- The lists, and what a check against them finds. -/
structure Judged (c : Check) (lists : AllowLists) : Prop where
  found : Invocation.allowLists c.files c.actions c.reactions c.watches c.config = .ok lists
  outcome : c.outcome = c.invocation.checkAgainst c.files c.file lists
  code : c.outcome.code = if offences c.sources c.document.interactions = [] then 0 else 1
  /-- There is no problem if, for each sort, no source has a list or all that is declared is in
  one. -/
  passes : lists.problems c.document.interactions = [] ↔ Includes c.sources c.document.interactions
  /-- Otherwise there is one for each sort in which something is not supported, with all of that. -/
  reports : List.Forall₂ Reports (lists.problems c.document.interactions)
    (offences c.sources c.document.interactions)

theorem exists_judged (c : Check) : ∃ lists, c.Judged lists := by
  obtain ⟨lists, hfound, hunites⟩ := exists_allowLists c.given c.wellFormed
  have hreports := hunites.forall₂_reports c.document.interactions
  have houtcome : c.outcome = c.invocation.checkAgainst c.files c.file lists := by
    simp only [Check.outcome, Invocation.run, invocation, hfound]
  have hnil : lists.problems c.document.interactions = [] ↔
      offences c.sources c.document.interactions = [] := by
    rw [← List.length_eq_zero_iff, ← List.length_eq_zero_iff, hreports.length_eq]
  refine ⟨lists, hfound, houtcome, ?_, hnil.trans offences_eq_nil_iff, hreports⟩
  have hcode : c.outcome.code =
      if (lists.problems c.document.interactions).isEmpty then 0 else 1 := by
    rw [houtcome, Invocation.checkAgainst, c.loaded]
    cases c.invocation.style with
    | text => rfl
    | json => rfl
  rw [hcode]
  exact if_congr (List.isEmpty_iff.trans hnil) rfl rfl

/-- **A check decides inclusion.** There is a problem for each sort of declarations of which some
source has a list and something declared is in none, and for no other sort; it names all that is in
none, in the order in which it is declared. A check that asks for the same, and finds the same
supported, wherever it stands and however often, finds the same wrong. -/
theorem check_decides_inclusion (c : Check) : ∃ lists, c.Judged lists ∧
    ∀ (c' : Check) (lists' : AllowLists), c'.document = c.document →
      SameSupport c.sources c'.sources → c'.Judged lists' →
        c'.outcome.code = c.outcome.code ∧
          List.Forall₂ Reports (lists'.problems c.document.interactions)
            (offences c.sources c.document.interactions) := by
  obtain ⟨lists, hjudged⟩ := c.exists_judged
  refine ⟨lists, hjudged, fun c' lists' hdocument hsame hjudged' ↦ ?_⟩
  have hreports := hjudged'.reports
  rw [hdocument, ← offences_congr hsame] at hreports
  refine ⟨?_, hreports⟩
  rw [hjudged'.code, hjudged.code, hdocument, offences_congr hsame]

/-! ### A template with an action and a watch -/

/-- The template, and a configuration. -/
def drawer : Files := fun path ↦
  if path = "t" then .ok ("<interactions><action target='a' type='b'><clear><local-ref key='x'/>" ++
    "</clear></action><watch type='k'><value-map/></watch></interactions>")
  else if path = "c" then .ok "[supported]\nactions = ['a:b']\nwatches = ['k']\n"
  else .error .missing

theorem load_drawer : ∃ d, Invocation.load drawer "t" = .ok d ∧
    d.interactions.actionBindings = [("a", "b")] ∧
    d.interactions.reactionBindings = [] ∧ d.interactions.watchKinds = ["k"] := by
  have hloads : (Invocation.load drawer "t").toOption.map (fun d ↦
      (d.interactions.actionBindings, d.interactions.reactionBindings,
        d.interactions.watchKinds)) = some ([("a", "b")], [], ["k"]) := by
    decide +kernel
  cases hload : Invocation.load drawer "t" with
  | error e => rw [hload] at hloads; cases hloads
  | ok d =>
    rw [hload] at hloads
    obtain ⟨hactions, hrest⟩ := Prod.mk.inj (Option.some.inj hloads)
    obtain ⟨hreactions, hwatches⟩ := Prod.mk.inj hrest
    exact ⟨d, rfl, hactions, hreactions, hwatches⟩

/-- A check of that template, with no list for reactions on the command line. -/
def ofDrawer {d : Template.Document} (hload : Invocation.load drawer "t" = .ok d)
    {actions watches config : Option String} {sources : List Raw}
    (given : Sources drawer actions none watches config sources)
    (wellFormed : ∀ r ∈ sources, r.WellFormed) : Check :=
  ⟨"t", actions, none, watches, config, .text, false, drawer, d, sources, hload, given, wellFormed⟩

/-- The action and the watch are in the configuration, and another action on the command line. -/
def apart : List Raw := [⟨some ["c:d"], none, none⟩, ⟨some ["a:b"], none, some ["k"]⟩]

/-- All are on the command line, and one action twice. -/
def together : List Raw := [⟨some ["a:b", "c:d", "a:b"], none, some ["k"]⟩]

/-- The action is in no list, and the list for watches is empty. -/
def lacking : List Raw := [⟨some ["c:d"], none, some []⟩]

theorem sources_apart : Sources drawer (some "c:d") none none (some "c") apart := by
  obtain ⟨config, hconfig, heq⟩ := Option.map_eq_some_iff.1 (show
    ((Toml.parse? "[supported]\nactions = ['a:b']\nwatches = ['k']\n").bind raw?).map
      (fun r ↦ (r.actions, r.reactions, r.watches)) = some (some ["a:b"], none, some ["k"]) by
    decide +kernel)
  obtain ⟨configActions, configReactions, configWatches⟩ := config
  obtain ⟨rfl, rfl, rfl⟩ : configActions = some ["a:b"] ∧ configReactions = none ∧
      configWatches = some ["k"] := by simpa using heq
  exact .configured ⟨.some (itemsOf_eq_iff.1 (by decide)), .none, .none⟩ rfl hconfig

theorem sources_together :
    Sources drawer (some "a:b, ,c:d,a:b") none (some "k") none together :=
  .alone ⟨.some (itemsOf_eq_iff.1 (by decide)), .none, .some (itemsOf_eq_iff.1 (by decide))⟩

theorem sources_lacking : Sources drawer (some "c:d") none (some "") none lacking :=
  .alone ⟨.some (itemsOf_eq_iff.1 (by decide)), .none, .some (itemsOf_eq_iff.1 (by decide))⟩

theorem sameSupport_together : SameSupport apart together where
  asked := fun what ↦ by cases what <;> decide
  supports := fun what hwhat b ↦ by
    cases what with
    | action =>
      simp only [Supports, apart, together, List.mem_cons, List.not_mem_nil, or_false,
        exists_eq_or_imp, exists_eq_left, Raw.list, Option.mem_some_iff, exists_eq_left']
      tauto
    | reaction => simp [Supports, apart, together, Raw.list]
    | watch => exact absurd rfl hwhat
  kinds := fun kind ↦ by simp [SupportsKind, apart, together]

/-- It passes if the action is in one of the lists for actions, and the watch in one as well,
wherever they are. It fails for both if the action is in no list, and the list for watches is
empty. -/
theorem check_decides_inclusion_drawer :
    (Invocation.run ⟨.check "t" (some "c:d") none none (some "c"), .text, false⟩ drawer).code = 0 ∧
      (Invocation.run ⟨.check "t" (some "a:b, ,c:d,a:b") none (some "k") none, .text, false⟩
        drawer).code = 0 ∧
      (Invocation.run ⟨.check "t" (some "c:d") none (some "") none, .text, false⟩ drawer).code = 1 ∧
      ∃ lists d, Invocation.allowLists drawer (some "c:d") none (some "") none = .ok lists ∧
        Invocation.load drawer "t" = .ok d ∧ List.Forall₂ Reports (lists.problems d.interactions)
          [(.action, ["a/b"]), (.watch, ["k"])] := by
  obtain ⟨d, hload, hactions, hreactions, hwatches⟩ := load_drawer
  have hwell : ∀ r ∈ apart ++ together ++ lacking, r.WellFormed := by
    have hok : ∀ r ∈ apart ++ together ++ lacking,
        ∀ item ∈ r.actions.getD [] ++ r.reactions.getD [], (pairOf item).isOk = true := by decide
    exact fun r hr ↦ wellFormed_of_isOk (hok r hr)
  have hnone : offences apart d.interactions = [] := by
    rw [offences, hactions, hreactions, hwatches]
    decide +kernel
  have htwo : offences lacking d.interactions = [(.action, ["a/b"]), (.watch, ["k"])] := by
    rw [offences, hactions, hreactions, hwatches]
    decide +kernel
  have hapart : ∀ r ∈ apart, r.WellFormed := fun r hr ↦ hwell r (by simp [hr])
  have htogether : ∀ r ∈ together, r.WellFormed := fun r hr ↦ hwell r (by simp [hr])
  have hlacking : ∀ r ∈ lacking, r.WellFormed := fun r hr ↦ hwell r (by simp [hr])
  obtain ⟨lists, hjudged, hothers⟩ :=
    check_decides_inclusion (ofDrawer hload sources_apart hapart)
  obtain ⟨lists', hjudged', -⟩ :=
    check_decides_inclusion (ofDrawer hload sources_together htogether)
  obtain ⟨lists'', hjudged'', -⟩ :=
    check_decides_inclusion (ofDrawer hload sources_lacking hlacking)
  have hpasses : (ofDrawer hload sources_apart hapart).outcome.code = 0 := by
    rw [hjudged.code]
    exact if_pos hnone
  have hsame := hothers (ofDrawer hload sources_together htogether) lists' rfl
    sameSupport_together hjudged'
  have hfails : (ofDrawer hload sources_lacking hlacking).outcome.code = 1 := by
    rw [hjudged''.code]
    refine if_neg fun hnil ↦ ?_
    exact List.cons_ne_nil _ _ (htwo.symm.trans hnil)
  have hreports : List.Forall₂ Reports (lists''.problems d.interactions)
      (offences lacking d.interactions) := hjudged''.reports
  rw [htwo] at hreports
  exact ⟨hpasses, hsame.1.trans hpasses, hfails, lists'', d, hjudged''.found, hload, hreports⟩

end Check

end LiveTemplate.Cli
