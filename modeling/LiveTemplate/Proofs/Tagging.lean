import LiveTemplate.Proofs.Vocabulary
import LiveTemplate.Wire.StringTable
import Mathlib.Data.List.Forall2

/-!
# Payloads written and read back

A payload is written with its texts in place, or with their indices in a table that grows as more is
written. Reading undoes both, with one exception: an infinity, and what is not a number, is written
as `null`, which no reader of a double accepts.

What is said about tables rests on two facts about one text. It is found at its index in every table
that begins with the one it was put into (`getElem?_intern`), and a table that holds the texts of a
list once each, in the order of first use, goes on doing so (`intern_eraseDups`).
-/

namespace LiveTemplate

/-! ### Numbers in a document -/

namespace Json

theorem int64?_ofInt64 (n : Int64) : (ofInt64 n).int64? = some n := by
  show (Number.ofInt64 n).int64? = some n
  unfold Number.ofInt64
  split
  · rfl
  · rename_i hneg
    have hnat : n.toUInt64.toNat = n.toInt.toNat :=
      Int64.toNat_toUInt64_of_le (Int64.not_lt.1 hneg)
    have hlt := n.toInt_lt
    have hmax : Int64.maxValue.toInt = 9223372036854775807 := rfl
    rw [Number.int64?, if_pos (by omega), Int64.toInt64_toUInt64]

theorem int64?_ofNat {n : Nat} (h : n < 1000000000) : (ofNat n).int64? = some (Int64.ofNat n) := by
  have hlt : n < UInt64.size := Nat.lt_trans h (by decide)
  have hmax : Int64.maxValue.toInt = 9223372036854775807 := rfl
  show (Number.natural (UInt64.ofNat n)).int64? = _
  rw [Number.int64?, UInt64.toNat_ofNat_of_lt' hlt, if_pos (by omega)]
  rfl

/-- A finite double keeps its value, and any other loses it. -/
theorem double?_ofDouble (x : Float) :
    (ofDouble x).double? = if x.isFinite then some x else none := by
  unfold ofDouble
  split <;> rfl

end Json

namespace Wire

/-! ### Readers

Each reader gives back what was written, whatever the tag that it was written with. -/

/-- Items that are read one by one are read all together. -/
theorem mapM_eq_ok {α β ε : Type} {read : β → Except ε α} {written : List β} {items : List α}
    (h : List.Forall₂ (fun b a ↦ read b = .ok a) written items) : written.mapM read = .ok items := by
  induction h with
  | nil => rfl
  | cons hhere _ ih =>
    rw [List.mapM_cons, hhere, ih]
    rfl

theorem mapM_map_eq_ok {α β ε : Type} {read : β → Except ε α} (written : α → β)
    (h : ∀ a, read (written a) = .ok a) (items : List α) :
    (items.map written).mapM read = .ok items :=
  mapM_eq_ok (List.forall₂_map_left_iff.2 (List.forall₂_same.2 fun a _ ↦ h a))

namespace Tagged

variable {tag : Tag}

theorem readStrings_in_place (htag : tag = .stringList ∨ tag = .stringSet)
    (table items : List String) :
    readStrings table ⟨tag, .array (items.map .string)⟩ = .ok items := by
  rcases htag with rfl | rfl
  all_goals exact mapM_map_eq_ok Json.string (fun _ ↦ rfl) items

theorem readStrings_at_indices (htag : tag = .stringListIndices ∨ tag = .stringSetIndices)
    {table items : List String} {indices : List Nat}
    (h : List.Forall₂ (fun i s ↦ lookUp table (.ofNat i) = .ok s) indices items) :
    readStrings table ⟨tag, .array (indices.map .ofNat)⟩ = .ok items := by
  rcases htag with rfl | rfl
  all_goals exact mapM_eq_ok (List.forall₂_map_left_iff.2 h)

theorem readInt_ofInt64 (n : Int64) : readInt ⟨tag, .ofInt64 n⟩ = .ok n := by
  rw [readInt, wholeNumber?, Json.int64?_ofInt64]
  rfl

theorem readInts_ofInt64 (items : List Int64) :
    readInts ⟨tag, .array (items.map .ofInt64)⟩ = .ok items := by
  refine mapM_map_eq_ok Json.ofInt64 (fun n ↦ ?_) items
  rw [wholeNumber?, Json.int64?_ofInt64]
  rfl

theorem readTimestamp_of_parts (t : Timestamp) :
    readTimestamp ⟨tag, .array [.ofInt64 t.seconds, .ofNat t.nanos.val]⟩
      = .ok (t.seconds, Int64.ofNat t.nanos.val) := by
  simp only [readTimestamp, Json.int64?_ofInt64, Json.int64?_ofNat t.nanos.isLt]
  rfl

theorem readDouble_ofDouble (x : Float) :
    readDouble ⟨tag, .ofDouble x⟩
      = if x.isFinite then .ok x else .error (.badContent tag .aNumber) := by
  rw [readDouble, Json.double?_ofDouble]
  split <;> rfl

end Tagged

end Wire

open Wire

/-! ### Payloads with their texts in place -/

namespace Payload

/-- Whether a payload is no double, or a finite one. -/
def isFinite : Payload → Bool
  | .dbl x => x.isFinite
  | _ => true

/-- **A payload with its texts in place is read back, whatever the table**, if it is finite. If it is
not, it is refused. -/
theorem payload_toTagged (p : Payload) (table : List String) :
    p.toTagged.payload table
      = if p.isFinite then .ok p else .error (.badContent .dbl .aNumber) := by
  cases p with
  | empty => rfl
  | string s => rfl
  | stringList items =>
    exact congrArg (Except.map stringList) (Tagged.readStrings_in_place (.inl rfl) table items)
  | stringSet items =>
    show (Tagged.readStrings table _).map _ = .ok _
    rw [toTagged, Tagged.readStrings_in_place (.inr rfl)]
    exact congrArg (Except.ok ∘ stringSet) (Template.Scope.ofList_items items)
  | int n => exact congrArg (Except.map int) (Tagged.readInt_ofInt64 n)
  | intList items => exact congrArg (Except.map intList) (Tagged.readInts_ofInt64 items)
  | intSet items =>
    show (Tagged.readInts _).map _ = .ok _
    rw [toTagged, Tagged.readInts_ofInt64]
    exact congrArg (Except.ok ∘ intSet) (Template.Scope.ofList_items items)
  | dbl x =>
    show (Tagged.readDouble _).map dbl = if x.isFinite then _ else _
    rw [toTagged, Tagged.readDouble_ofDouble]
    split <;> rfl
  | duration nanos => exact congrArg (Except.map duration) (Tagged.readInt_ofInt64 nanos)
  | timestamp t =>
    show (Tagged.readTimestamp _).map _ = .ok _
    rw [toTagged, Tagged.readTimestamp_of_parts]
    exact congrArg (Except.ok ∘ timestamp) (Template.Scope.ofParts_nanos t)

/-- **A reader accepts what is written of a payload, and with the same kind, exactly if the payload is
finite**: then it is the payload itself, and otherwise it is refused for want of a number. A template
can write both infinities and what is not a number, so such payloads occur. -/
theorem accepts_toTagged_iff (p : Payload) (table : List String) :
    ((∃ q, p.toTagged.payload table = .ok q ∧ q.kind = p.kind) ↔ p.isFinite) ∧
      (∀ q, p.toTagged.payload table = .ok q → q = p) ∧
      (∀ misfit, p.toTagged.payload table = .error misfit → misfit = .badContent .dbl .aNumber) ∧
      ∀ word ∈ ["inf", "-inf", "nan"], ∀ s : Template.Scope, ∃ x,
        s.literal (Template.around "dbl" word) = .ok (.dbl x) ∧ ¬(Payload.dbl x).isFinite := by
  have hread := payload_toTagged p table
  refine ⟨⟨?_, fun hp ↦ ⟨p, hread.trans (if_pos hp), rfl⟩⟩, ?_, ?_, ?_⟩
  · rintro ⟨q, hq, -⟩
    by_contra hp
    rw [hread, if_neg hp] at hq
    cases hq
  · intro q hq
    rw [hread] at hq
    split at hq
    · exact (Except.ok.inj hq).symm
    · cases hq
  · intro misfit hmisfit
    rw [hread] at hmisfit
    split at hmisfit
    · cases hmisfit
    · exact (Except.error.inj hmisfit).symm
  · intro word hword s
    simp only [List.mem_cons, List.not_mem_nil, or_false] at hword
    rcases hword with rfl | rfl | rfl
    all_goals exact ⟨_, rfl, by decide⟩

end Payload

/-! ### Tables -/

namespace Wire.StringTable

variable {t : StringTable} {s : String} {items final : List String}

theorem strings_intern (t : StringTable) (s : String) :
    (t.intern s).2.strings = t.strings ++ if s ∈ t.strings then [] else [s] := by
  unfold intern
  split
  · rename_i i hfound
    obtain ⟨hi, hs, -⟩ := List.idxOf?_eq_some_iff.1 hfound
    rw [if_pos (hs ▸ List.getElem_mem hi), List.append_nil]
  · rename_i hnew
    rw [if_neg (List.idxOf?_eq_none_iff.1 hnew)]

/-- A text is found at the index that it is given, in the table and in every one that begins with
it. -/
theorem getElem?_intern (hfinal : (t.intern s).2.strings <+: final) :
    final[(t.intern s).1]? = some s := by
  suffices h : (t.intern s).2.strings[(t.intern s).1]? = some s by
    obtain ⟨hi, hs⟩ := List.getElem?_eq_some_iff.1 h
    rw [List.prefix_iff_getElem?.1 hfinal _ hi, hs]
  unfold intern
  split
  · rename_i i hfound
    obtain ⟨hi, hs, -⟩ := List.idxOf?_eq_some_iff.1 hfound
    exact List.getElem?_eq_some_iff.2 ⟨hi, hs⟩
  · exact List.getElem?_concat_length

/-- What is read at an index that was given out, in a table with no more texts than there are
indices. -/
theorem lookUp_intern (hsize : (t.intern s).2.size ≤ UInt64.size)
    (hfinal : (t.intern s).2.strings <+: final) :
    Tagged.lookUp final (.ofNat (t.intern s).1) = .ok s := by
  obtain ⟨hi, -⟩ := List.getElem?_eq_some_iff.1 (getElem?_intern (List.prefix_refl _))
  rw [Tagged.lookUp, UInt64.toNat_ofNat_of_lt' (Nat.lt_of_lt_of_le hi hsize), getElem?_intern hfinal]

theorem internAll_append (t : StringTable) (items others : List String) :
    (t.internAll (items ++ others)).2 = ((t.internAll items).2.internAll others).2 := by
  induction items generalizing t with
  | nil => rfl
  | cons s rest ih => exact ih (t.intern s).2

theorem prefix_internAll (t : StringTable) (items : List String) :
    t.strings <+: (t.internAll items).2.strings := by
  induction items generalizing t with
  | nil => exact List.prefix_refl _
  | cons s rest ih =>
    have hhere : t.strings <+: (t.intern s).2.strings := by
      rw [strings_intern]
      exact List.prefix_append _ _
    exact hhere.trans (ih (t.intern s).2)

theorem lookUp_internAll (hsize : (t.internAll items).2.size ≤ UInt64.size)
    (hfinal : (t.internAll items).2.strings <+: final) :
    List.Forall₂ (fun i s ↦ Tagged.lookUp final (.ofNat i) = .ok s) (t.internAll items).1 items := by
  induction items generalizing t with
  | nil => exact .nil
  | cons s rest ih =>
    have hgrows := prefix_internAll (t.intern s).2 rest
    exact .cons (lookUp_intern (Nat.le_trans hgrows.length_le hsize) (hgrows.trans hfinal))
      (ih hsize hfinal)

theorem nodup_intern (h : t.strings.Nodup) (s : String) : (t.intern s).2.strings.Nodup := by
  rw [strings_intern]
  split
  · rwa [List.append_nil]
  · rename_i hnew
    exact List.nodup_append.2 ⟨h, List.pairwise_singleton _ s, fun a ha b hb ↦
      List.mem_singleton.1 hb ▸ ne_of_mem_of_not_mem ha hnew⟩

theorem nodup_internAll (h : t.strings.Nodup) (items : List String) :
    (t.internAll items).2.strings.Nodup := by
  induction items generalizing t with
  | nil => exact h
  | cons s rest ih => exact ih (nodup_intern h s)

/-- **The texts of a list once each, in the order of first use**, stay that when more are put in. -/
theorem intern_eraseDups {used : List String} (h : t.strings = used.eraseDups) (s : String) :
    (t.intern s).2.strings = (used ++ [s]).eraseDups := by
  have hnew : ([s].removeAll used).eraseDups = if s ∈ t.strings then [] else [s] := by
    by_cases hs : s ∈ used <;> simp [List.removeAll, h, hs, List.eraseDups_cons]
  rw [strings_intern, List.eraseDups_append, hnew, h]

theorem internAll_eraseDups {used : List String} (h : t.strings = used.eraseDups)
    (items : List String) : (t.internAll items).2.strings = (used ++ items).eraseDups := by
  induction items generalizing t used with
  | nil => rw [List.append_nil]; exact h
  | cons s rest ih =>
    rw [List.append_cons]
    exact ih (intern_eraseDups h s)

end Wire.StringTable

/-! ### Payloads with their texts in a table -/

namespace Payload

/-- The texts in a payload. -/
def texts : Payload → List String
  | .string s => [s]
  | .stringList items => items
  | .stringSet items => items.items
  | _ => []

variable {p : Payload} {t : StringTable} {final : List String}

theorem toIndexed_snd (p : Payload) (t : StringTable) :
    (p.toIndexed t).2 = (t.internAll p.texts).2 := by
  cases p <;> rfl

theorem payload_toIndexed (hp : p.isFinite) (hsize : (p.toIndexed t).2.size ≤ UInt64.size)
    (hfinal : (p.toIndexed t).2.strings <+: final) : (p.toIndexed t).1.payload final = .ok p := by
  have hplain : p.toTagged.payload final = .ok p := by rw [payload_toTagged, if_pos hp]
  rw [toIndexed_snd] at hsize hfinal
  cases p with
  | string s => exact congrArg (Except.map string) (StringTable.lookUp_intern hsize hfinal)
  | stringList items =>
    exact congrArg (Except.map stringList)
      (Tagged.readStrings_at_indices (.inl rfl) (StringTable.lookUp_internAll hsize hfinal))
  | stringSet items =>
    have hread := Tagged.readStrings_at_indices (Or.inr (Eq.refl Tag.stringSetIndices))
      (StringTable.lookUp_internAll hsize hfinal)
    refine (congrArg (Except.map fun items ↦ stringSet (.ofList items)) hread).trans ?_
    exact congrArg (Except.ok ∘ stringSet) (Template.Scope.ofList_items items)
  | _ => exact hplain

end Payload

/-! ### One table for many payloads -/

namespace Wire

/-- How a payload is written: with its texts in place, or with their indices. -/
inductive Form
  | inPlace
  | indexed
  deriving Repr, DecidableEq

/-- A payload, the form in which it is to be written. -/
structure Parcel where
  form : Form
  payload : Payload

namespace Parcel

/-- What is written, and the table after it. -/
def write (t : StringTable) (parcel : Parcel) : Tagged × StringTable :=
  match parcel.form with
  | .inPlace => (parcel.payload.toTagged, t)
  | .indexed => parcel.payload.toIndexed t

/-- The texts that go through the table. -/
def texts (parcel : Parcel) : List String :=
  match parcel.form with
  | .inPlace => []
  | .indexed => parcel.payload.texts

/-- Writes parcels one after the other. -/
def writeAll (t : StringTable) : List Parcel → List Tagged × StringTable
  | [] => ([], t)
  | parcel :: rest =>
    let (w, grown) := parcel.write t
    let (others, final) := writeAll grown rest
    (w :: others, final)

variable {parcel : Parcel} {parcels : List Parcel} {t : StringTable} {final : List String}

theorem write_snd (t : StringTable) (parcel : Parcel) :
    (parcel.write t).2 = (t.internAll parcel.texts).2 := by
  obtain ⟨form, p⟩ := parcel
  cases form with
  | inPlace => rfl
  | indexed => exact p.toIndexed_snd t

theorem writeAll_snd (t : StringTable) (parcels : List Parcel) :
    (writeAll t parcels).2 = (t.internAll (parcels.flatMap texts)).2 := by
  induction parcels generalizing t with
  | nil => rfl
  | cons parcel rest ih =>
    show (writeAll (parcel.write t).2 rest).2 = _
    rw [ih, write_snd, List.flatMap_cons, StringTable.internAll_append]

theorem payload_write (hfinite : parcel.payload.isFinite)
    (hsize : (parcel.write t).2.size ≤ UInt64.size)
    (hfinal : (parcel.write t).2.strings <+: final) :
    (parcel.write t).1.payload final = .ok parcel.payload := by
  obtain ⟨form, p⟩ := parcel
  cases form with
  | inPlace => exact (p.payload_toTagged final).trans (if_pos hfinite)
  | indexed => exact p.payload_toIndexed hfinite hsize hfinal

/-- **What was written is read back** in every table that begins with the one at the end. -/
theorem payload_writeAll (hfinite : ∀ parcel ∈ parcels, parcel.payload.isFinite)
    (hsize : (writeAll t parcels).2.size ≤ UInt64.size)
    (hfinal : (writeAll t parcels).2.strings <+: final) :
    List.Forall₂ (fun w p ↦ w.payload final = .ok p) (writeAll t parcels).1
      (parcels.map payload) := by
  induction parcels generalizing t with
  | nil => exact .nil
  | cons parcel rest ih =>
    have hgrows : (parcel.write t).2.strings <+: (writeAll (parcel.write t).2 rest).2.strings := by
      rw [writeAll_snd]
      exact StringTable.prefix_internAll _ _
    exact .cons (payload_write (hfinite _ List.mem_cons_self) (Nat.le_trans hgrows.length_le hsize)
        (hgrows.trans hfinal))
      (ih (fun p hp ↦ hfinite p (List.mem_cons_of_mem _ hp)) hsize hfinal)

/-- **Parcels that go through one table come back as they were.** From an empty table, what is written
is read with the final table, and with any that begins with it, as the payloads it was written of.
The final table holds every text that went through it once, in the order of first use; and it begins
with the table there was after the first few parcels, so an index means the same ever after.

An index has 64 bits, so the table is to hold no more texts than that. -/
theorem payloads_of_writeAll {parcels : List Parcel}
    (hfinite : ∀ parcel ∈ parcels, parcel.payload.isFinite)
    (hsize : (writeAll .empty parcels).2.size ≤ UInt64.size) :
    (∀ more, (writeAll .empty parcels).1.mapM
        (Tagged.payload ((writeAll .empty parcels).2.strings ++ more))
          = .ok (parcels.map payload)) ∧
      (writeAll .empty parcels).2.strings = (parcels.flatMap texts).eraseDups ∧
      (writeAll .empty parcels).2.strings.Nodup ∧
      ∀ earlier later, parcels = earlier ++ later →
        (writeAll .empty earlier).2.strings <+: (writeAll .empty parcels).2.strings := by
  refine ⟨fun more ↦ ?_, ?_, ?_, ?_⟩
  · exact mapM_eq_ok (payload_writeAll hfinite hsize (List.prefix_append _ more))
  · rw [writeAll_snd]
    exact StringTable.internAll_eraseDups List.eraseDups_nil.symm _
  · rw [writeAll_snd]
    exact StringTable.nodup_internAll List.nodup_nil _
  · rintro earlier later rfl
    simp only [writeAll_snd, List.flatMap_append, StringTable.internAll_append]
    exact StringTable.prefix_internAll _ _

/-- A list and a set that share a text, and between them a text in place and a negative zero. -/
def sharing : List Parcel :=
  [⟨.indexed, .stringList ["b", "a", "b"]⟩, ⟨.inPlace, .string "c"⟩, ⟨.indexed, .dbl (-0.0)⟩,
    ⟨.indexed, .stringSet (.ofList ["z", "b"])⟩]

theorem payloads_of_writeAll_sharing :
    (∀ parcel ∈ sharing, parcel.payload.isFinite) ∧
      (writeAll .empty sharing).2.size ≤ UInt64.size ∧
      (writeAll .empty sharing).2.strings = ["b", "a", "z"] ∧
      (writeAll .empty sharing).1.mapM (Tagged.payload ["b", "a", "z", "y"])
        = .ok (sharing.map payload) := by
  have hfinite : ∀ parcel ∈ sharing, parcel.payload.isFinite := by decide
  have hsize : (writeAll .empty sharing).2.size ≤ UInt64.size := by decide
  exact ⟨hfinite, hsize, by decide, (payloads_of_writeAll hfinite hsize).1 ["y"]⟩

end Parcel

end Wire

end LiveTemplate
