import LiveTemplate.Proofs.Ordering

/-!
# The instants that timestamps denote

Whole seconds are carried over from the nanoseconds, so a timestamp denotes the instant it is made for
(`instant_ofParts_iff`) and timestamps are in the order of their instants, as long as the seconds are
in range. Beyond the range the seconds stay at its end while the nanoseconds go on, and there the
order of two timestamps can be the wrong way round. It is exactly if both have come to the same end
and the later one is at an earlier part of its second (`order_ofParts`).
-/

namespace LiveTemplate

/-- Whether a whole number can be written in 64 bits. -/
def FitsInt64 (n : Int) : Prop := Int64.minValue.toInt ≤ n ∧ n ≤ Int64.maxValue.toInt

instance (n : Int) : Decidable (FitsInt64 n) := inferInstanceAs (Decidable (_ ∧ _))

theorem fitsInt64_iff {n : Int} :
    FitsInt64 n ↔ -9223372036854775808 ≤ n ∧ n ≤ 9223372036854775807 := Iff.rfl

theorem toInt_nearestInt64_eq_clamp (n : Int) :
    (nearestInt64 n).toInt = max (-9223372036854775808) (min n 9223372036854775807) := by
  have hmin : Int64.minValue.toInt = -9223372036854775808 := rfl
  have hmax : Int64.maxValue.toInt = 9223372036854775807 := rfl
  by_cases hfits : FitsInt64 n
  · rw [toInt_nearestInt64 hfits]
    rw [fitsInt64_iff] at hfits
    omega
  · rw [fitsInt64_iff] at hfits
    unfold nearestInt64
    split
    · omega
    · rw [if_pos (by omega), hmax]
      omega

namespace Timestamp

/-- The instant that a timestamp denotes, in nanoseconds since the beginning of 1970. -/
def instant (t : Timestamp) : Int := t.seconds.toInt * 1000000000 + t.nanos.val

/-- The instant so many seconds and nanoseconds after the beginning of 1970, in nanoseconds. -/
def instantAfter (seconds nanos : Int64) : Int := seconds.toInt * 1000000000 + nanos.toInt

/-- The second in which an instant is. -/
def secondOf (instant : Int) : Int := instant / 1000000000

/-- The part of its second at which an instant is, in nanoseconds. -/
def partOf (instant : Int) : Int := instant % 1000000000

/-- Of two instants the first is in an earlier second, but neither of these seconds is short of an end
of the range; and the second instant is at an earlier part of its second. -/
def Jammed (i j : Int) : Prop :=
  secondOf i < secondOf j ∧ partOf j < partOf i ∧
    (Int64.maxValue.toInt ≤ secondOf i ∨ secondOf j ≤ Int64.minValue.toInt)

instance (i j : Int) : Decidable (Jammed i j) := inferInstanceAs (Decidable (_ ∧ _ ∧ _))

theorem jammed_iff {i j : Int} : Jammed i j ↔ secondOf i < secondOf j ∧ partOf j < partOf i ∧
    (9223372036854775807 ≤ secondOf i ∨ secondOf j ≤ -9223372036854775808) := Iff.rfl

/-! ### What is denoted -/

variable {t u : Timestamp} {s n s' n' : Int64}

theorem toInt_seconds_ofParts (s n : Int64) : (ofParts s n).seconds.toInt =
    max (-9223372036854775808) (min (secondOf (instantAfter s n)) 9223372036854775807) := by
  have hcarry : secondOf (instantAfter s n) = s.toInt + n.toInt / 1000000000 := by
    unfold secondOf instantAfter
    omega
  rw [hcarry]
  exact toInt_nearestInt64_eq_clamp _

theorem nanos_ofParts (s n : Int64) :
    ((ofParts s n).nanos.val : Int) = partOf (instantAfter s n) := by
  have hpart : partOf (instantAfter s n) = n.toInt % 1000000000 := by
    unfold partOf instantAfter
    omega
  rw [hpart]
  show (((n.toInt % 1000000000).toNat % 1000000000 : Nat) : Int) = n.toInt % 1000000000
  omega

/-- **A timestamp denotes the instant it is made for** exactly if the seconds of the instant are in
range. -/
theorem instant_ofParts_iff :
    (ofParts s n).instant = instantAfter s n ↔ FitsInt64 (secondOf (instantAfter s n)) := by
  unfold instant
  rw [toInt_seconds_ofParts, nanos_ofParts, fitsInt64_iff]
  unfold secondOf partOf
  omega

/-! ### The order -/

theorem compare_of_instant_lt (h : t.instant < u.instant) : compare t u = .lt := by
  rw [Payload.compare_timestamp_eq_lt_iff, ← Int64.toInt_inj, Fin.lt_def]
  have ht := t.nanos.isLt
  have hu := u.nanos.isLt
  unfold instant at h
  omega

theorem eq_of_instant_eq (h : t.instant = u.instant) : t = u := by
  have ht := t.nanos.isLt
  have hu := u.nanos.isLt
  unfold instant at h
  have hseconds : t.seconds = u.seconds := Int64.toInt_inj.1 (by omega)
  have hnanos : t.nanos = u.nanos := Fin.ext (by omega)
  cases t
  cases u
  exact congrArg₂ mk hseconds hnanos

/-- **Timestamps are in the order of the instants that they denote.** -/
theorem order_eq_compare_instant (t u : Timestamp) :
    (Payload.timestamp t).order (.timestamp u) = compare t.instant u.instant := by
  show compare t u = compare t.instant u.instant
  rcases Int.lt_trichotomy t.instant u.instant with h | h | h
  · rw [compare_of_instant_lt h, Int.compare_eq_lt.2 h]
  · rw [eq_of_instant_eq h, Std.compare_self, Std.compare_self]
  · rw [Std.OrientedCmp.gt_of_lt (compare_of_instant_lt h), Int.compare_eq_gt.2 h]

/-- The later of two instants comes out as the earlier one only where the seconds have come to an
end. -/
theorem instant_ofParts_lt_iff (h : instantAfter s n ≤ instantAfter s' n') :
    (ofParts s' n').instant < (ofParts s n).instant ↔
      Jammed (instantAfter s n) (instantAfter s' n') := by
  unfold instant
  rw [toInt_seconds_ofParts, toInt_seconds_ofParts, nanos_ofParts, nanos_ofParts, jammed_iff]
  unfold secondOf partOf
  omega

/-- **Where timestamps are in the order of their instants.** What is left of the nanoseconds is the part
of a second at which the instant is, and if the seconds are in range the timestamp denotes it, so that
two of these compare as their instants do. Of any two instants the later one never comes out as the
lower timestamp, unless both have come to the same end of the range, where the seconds stay and the
parts of a second do not. -/
theorem order_ofParts (s n s' n' : Int64) :
    (((ofParts s n).nanos.val : Int) = partOf (instantAfter s n) ∧
        (ofParts s n).nanos.val < 1000000000 ∧
        ((ofParts s n).instant = instantAfter s n ↔ FitsInt64 (secondOf (instantAfter s n)))) ∧
      (FitsInt64 (secondOf (instantAfter s n)) → FitsInt64 (secondOf (instantAfter s' n')) →
        (Payload.timestamp (ofParts s n)).order (.timestamp (ofParts s' n')) =
          compare (instantAfter s n) (instantAfter s' n')) ∧
      (instantAfter s n ≤ instantAfter s' n' →
        ((Payload.timestamp (ofParts s n)).order (.timestamp (ofParts s' n')) = .gt ↔
          Jammed (instantAfter s n) (instantAfter s' n'))) := by
  refine ⟨⟨nanos_ofParts s n, (ofParts s n).nanos.isLt, instant_ofParts_iff⟩,
    fun hfits hfits' ↦ ?_, fun hle ↦ ?_⟩
  · rw [order_eq_compare_instant, instant_ofParts_iff.2 hfits, instant_ofParts_iff.2 hfits']
  · rw [order_eq_compare_instant, Int.compare_eq_gt]
    exact instant_ofParts_lt_iff hle

/-- The last instant in range comes out above the one that follows it. In range, a nanosecond that is
taken from one second and a second that is made of nanoseconds are carried over, and the order is
kept. -/
theorem order_ofParts_at_end :
    instantAfter Int64.maxValue 999999999 < instantAfter Int64.maxValue 1000000000 ∧
      (Payload.timestamp (ofParts Int64.maxValue 999999999)).order
        (.timestamp (ofParts Int64.maxValue 1000000000)) = .gt ∧
      (Payload.timestamp (ofParts 10 (-1))).order (.timestamp (ofParts 9 1000000000)) = .lt := by
  obtain ⟨-, -, hend⟩ := order_ofParts Int64.maxValue 999999999 Int64.maxValue 1000000000
  obtain ⟨-, hcarried, -⟩ := order_ofParts 10 (-1) 9 1000000000
  have hlt : instantAfter Int64.maxValue 999999999 < instantAfter Int64.maxValue 1000000000 := by
    decide
  refine ⟨hlt, (hend (Int.le_of_lt hlt)).2 (by decide), ?_⟩
  rw [hcarried (by decide) (by decide)]
  decide

end Timestamp

end LiveTemplate
