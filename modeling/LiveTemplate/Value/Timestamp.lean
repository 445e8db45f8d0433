import LiveTemplate.Bounds
import LiveTemplate.Decimal.Layout

/-!
# Points in time and spans of time

A timestamp is a count of seconds since the beginning of 1970 and a part of a second in nanoseconds;
`Timestamp.ofParts` carries whole seconds over. A timestamp in the years 0 to 9999 is shown as a date
and a time of day. A span of time is a signed count of nanoseconds, shown in the largest unit that
it fills.
-/

namespace LiveTemplate

/-- The nanoseconds of a second. -/
def nanosPerSecond : Nat := 1000000000

/-- A point in time. -/
structure Timestamp where
  seconds : Int64
  nanos : Fin 1000000000
  deriving Repr, DecidableEq

namespace Timestamp

/-- The beginning of 1970. -/
def epoch : Timestamp := ⟨0, 0⟩

/-- The point in time so many seconds and nanoseconds after the beginning of 1970. Seconds beyond
the range stay at its end. -/
def ofParts (seconds nanos : Int64) : Timestamp :=
  ⟨nearestInt64 (seconds.toInt + nanos.toInt / 1000000000),
    Fin.ofNat 1000000000 (nanos.toInt % 1000000000).toNat⟩

/-- Earlier timestamps are smaller. -/
instance : Ord Timestamp where
  compare a b := (compare a.seconds b.seconds).then (compare a.nanos b.nanos)

/-- A day of the calendar. -/
structure Day where
  year : Int
  month : Nat
  day : Nat
  deriving Repr, DecidableEq

/-- The day so many days after the first of January 1970. Years are counted from March, so that the
leap day comes last, in eras of 400 years. -/
def Day.ofCount (count : Int) : Day :=
  let shifted := count + 719468
  let era := shifted / 146097
  let dayOfEra := (shifted % 146097).toNat
  let yearOfEra := (dayOfEra - dayOfEra / 1460 + dayOfEra / 36524 - dayOfEra / 146096) / 365
  let dayOfYear := dayOfEra - (365 * yearOfEra + yearOfEra / 4 - yearOfEra / 100)
  let fromMarch := (5 * dayOfYear + 2) / 153
  let day := dayOfYear - (153 * fromMarch + 2) / 5 + 1
  let month := if fromMarch < 10 then fromMarch + 3 else fromMarch - 9
  let year := (yearOfEra : Int) + era * 400 + (if month ≤ 2 then 1 else 0)
  ⟨year, month, day⟩

/-- A number with zeros in front, up to a width. -/
def padded (width n : Nat) : String :=
  let digits := Nat.toDigits 10 n
  String.ofList (List.replicate (width - digits.length) '0' ++ digits)

/-- The part of a second behind a point, without final zeros; nothing for a whole second. -/
def fraction (nanos : Nat) : String :=
  if nanos = 0 then ""
  else
    let digits := (padded 9 nanos).toList.reverse.dropWhile (· == '0')
    "." ++ String.ofList digits.reverse

/-- A timestamp as it is shown. -/
def display (t : Timestamp) : String :=
  let seconds := t.seconds.toInt
  let day := Day.ofCount (seconds / 86400)
  let time := (seconds % 86400).toNat
  if 0 ≤ day.year ∧ day.year ≤ 9999 then
    padded 4 day.year.toNat ++ "-" ++ padded 2 day.month ++ "-" ++ padded 2 day.day ++ "T" ++
      padded 2 (time / 3600) ++ ":" ++ padded 2 (time / 60 % 60) ++ ":" ++ padded 2 (time % 60) ++
      fraction t.nanos.val ++ "Z"
  else toString seconds ++ "." ++ padded 9 t.nanos.val ++ "s"

end Timestamp

/-! ### Spans of time -/

/-- A unit of time: its sign and its length in nanoseconds. -/
structure TimeUnit where
  sign : String
  nanos : Nat
  deriving Repr, DecidableEq

/-- The largest unit that a number of nanoseconds fills; the smallest if it fills none. -/
def TimeUnit.filledBy (nanos : Nat) : TimeUnit :=
  if 1000000000 ≤ nanos then ⟨"s", 1000000000⟩
  else if 1000000 ≤ nanos then ⟨"ms", 1000000⟩
  else if 1000 ≤ nanos then ⟨"us", 1000⟩
  else ⟨"ns", 1⟩

/-- Drops the zeros a numeral ends with, and then a final point. -/
def trimFraction (s : String) : String :=
  let bare := s.toList.reverse.dropWhile (· == '0')
  String.ofList (bare.dropWhile (· == '.')).reverse

/-- A span of time as it is shown: in the largest unit that it fills, with at most three digits
behind the point. The division is that of doubles. -/
def showDuration (nanos : Int64) : String :=
  let unit := TimeUnit.filledBy nanos.toInt.natAbs
  trimFraction (Decimal.fixed 3 (Float.ofInt nanos.toInt / Float.ofNat unit.nanos)) ++ unit.sign

end LiveTemplate
