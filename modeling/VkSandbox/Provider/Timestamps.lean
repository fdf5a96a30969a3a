import Mathlib.Data.List.TakeWhile
import VkSandbox.Provider.Status

/-!
# Provider/Timestamps — RFC 3339 read back

The state file keeps its times as RFC 3339 text, written by `metav1.Time.MarshalJSON` and read by
`metav1.Time.UnmarshalJSON`, that is by `time.Format` and `time.Parse`.  `parseRFC3339_rfc3339` says
that reading gives back what was written, in whole seconds, up to the end of year 9999, where RFC
3339 ends:

    t ──rfc3339──▸ "2006-01-02T15:04:05Z" ──parseRFC3339──▸ wholeSeconds t

The argument has two halves: the calendar counts days both ways, and a padded field is read by its
width.  Reading takes more than writing makes: an hour of one digit, a fraction after a comma, an
offset of 24 hours.
-/

namespace VkSandbox

/-! ## The calendar, from a date to a day -/

/-- The days before a year, counted from `0001-01-01`. -/
def daysBefore (year : ℕ) : ℕ :=
  let y := year - 1
  365 * y + y / 4 - y / 100 + y / 400

/-- `daysIn`. -/
def daysIn (month year : ℕ) : ℕ := (monthLengths year).getD (month - 1) 0

theorem daysIn_le (month year : ℕ) : daysIn month year ≤ 31 := by
  have h : ∀ len ∈ monthLengths year, len ≤ 31 := by
    simp only [monthLengths]
    split <;> decide
  rw [daysIn, List.getD_eq_getElem?_getD]
  cases hi : (monthLengths year)[month - 1]? with
  | none => exact Nat.zero_le _
  | some len => exact h len (List.mem_of_getElem? hi)

/-- The days of the first months. -/
def daysOf : List ℕ → ℕ → ℕ
  | len :: rest, n + 1 => len + daysOf rest n
  | _, _ => 0

/-- The day of a date, counted from `0001-01-01`. -/
def civilDay (year month day : ℕ) : ℕ :=
  daysBefore year + daysOf (monthLengths year) (month - 1) + (day - 1)

/-- A date the calendar has. -/
structure IsDate (y m d : ℕ) : Prop where
  year : 1 ≤ y
  month : 1 ≤ m ∧ m ≤ 12
  day : 1 ≤ d ∧ d ≤ daysIn m y

/-- A day in cycles of 400, 100, 4 and 1 years; the 366th day of a year is the last of its cycle,
and the last of a century only in its fourth. -/
theorem yearDay_cycles (day : ℕ) :
    ∃ q c f n r, yearDay day = (400 * q + 100 * c + 4 * f + n + 1, r) ∧
    day = 146097 * q + 36524 * c + 1461 * f + 365 * n + r ∧ c ≤ 3 ∧ f ≤ 24 ∧ n ≤ 3 ∧
    (r < 365 ∨ r = 365 ∧ n = 3 ∧ (f = 24 → c = 3)) := by
  obtain ⟨d, hd⟩ : ∃ d, d = day % 146097 := ⟨_, rfl⟩
  obtain ⟨c, hc⟩ : ∃ c, c = min (d / 36524) 3 := ⟨_, rfl⟩
  obtain ⟨e, he⟩ : ∃ e, e = d - c * 36524 := ⟨_, rfl⟩
  obtain ⟨n, hn⟩ : ∃ n, n = min (e % 1461 / 365) 3 := ⟨_, rfl⟩
  have hd' : d < 146097 := by omega
  -- the fourth century of a cycle has one day more
  have he' : e < 36524 ∨ e = 36524 ∧ c = 3 := by omega
  refine ⟨day / 146097, c, e / 1461, n, e % 1461 - n * 365, ?_, ?_, ?_, ?_, ?_, ?_⟩
  · simp only [yearDay, ← hd, ← hc, ← he, ← hn]
    rw [Nat.mul_comm _ 400, Nat.mul_comm _ 100, Nat.mul_comm _ 4]
  all_goals omega

theorem daysBefore_cycles {q c f n : ℕ} (hc : c ≤ 3) (hf : f ≤ 24) (hn : n ≤ 3) :
    daysBefore (400 * q + 100 * c + 4 * f + n + 1)
      = 146097 * q + 36524 * c + 1461 * f + 365 * n := by
  simp only [daysBefore]
  omega

/-- **The days of a year follow those before it.** -/
theorem daysBefore_yearDay (day : ℕ) : daysBefore (yearDay day).1 + (yearDay day).2 = day := by
  obtain ⟨q, c, f, n, r, he, hday, hc, hf, hn, -⟩ := yearDay_cycles day
  rw [he, daysBefore_cycles hc hf hn]
  exact hday.symm

theorem daysOf_year (year : ℕ) : daysOf (monthLengths year) 12 =
    if year % 4 = 0 ∧ (year % 100 ≠ 0 ∨ year % 400 = 0) then 366 else 365 := by
  simp only [monthLengths]
  split <;> rfl

/-- The day of the year lies in the year. -/
theorem yearDay_lt (day : ℕ) : (yearDay day).2 < daysOf (monthLengths (yearDay day).1) 12 := by
  obtain ⟨q, c, f, n, r, he, -, hc, hf, hn, hr⟩ := yearDay_cycles day
  rw [he, daysOf_year]
  split
  · omega
  · next hleap =>
    simp only at hleap ⊢
    omega

/-- The months of a year, one after the other. -/
theorem monthDay_spec (lens : List ℕ) (month d : ℕ) (h : d < daysOf lens lens.length) :
    ∃ i, (monthDay lens month d).1 = month + i ∧ i < lens.length ∧
      1 ≤ (monthDay lens month d).2 ∧ (monthDay lens month d).2 ≤ lens.getD i 0 ∧
      daysOf lens i + ((monthDay lens month d).2 - 1) = d := by
  induction lens generalizing month d with
  | nil => exact absurd h (Nat.not_lt_zero d)
  | cons len rest ih =>
    simp only [monthDay]
    split
    · next hd =>
      exact ⟨0, by simp, by simp, by simp, by simpa using Nat.succ_le_of_lt hd, by simp [daysOf]⟩
    · next hd =>
      simp only [List.length_cons, daysOf] at h
      obtain ⟨i, hm, hi, hone, hle, hsum⟩ := ih (month + 1) (d - len) (by omega)
      refine ⟨i + 1, by omega, by simpa using hi, hone, by simpa using hle, ?_⟩
      simp only [daysOf]
      omega

/-- **A day is the day of its date.** -/
theorem civilDay_of_day {day year yday month mday : ℕ} (hy : yearDay day = (year, yday))
    (hm : monthDay (monthLengths year) 1 yday = (month, mday)) :
    IsDate year month mday ∧ civilDay year month mday = day := by
  have hlt := yearDay_lt day
  have hdays := daysBefore_yearDay day
  rw [hy] at hlt hdays
  dsimp only at hlt hdays
  obtain ⟨i, hmonth, hi, hone, hle, hsum⟩ := monthDay_spec (monthLengths year) 1 yday hlt
  rw [hm] at hmonth hone hle hsum
  obtain rfl : month = 1 + i := hmonth
  have hlen : (monthLengths year).length = 12 := rfl
  have hyear : 1 ≤ year := by
    obtain ⟨q, c, f, n, r, he, -⟩ := yearDay_cycles day
    rw [hy] at he
    cases he
    omega
  refine ⟨⟨hyear, by omega, hone, by simpa [daysIn] using hle⟩, ?_⟩
  simp only [civilDay, Nat.add_sub_cancel_left]
  omega

/-- The calendar repeats itself after 400 years. -/
theorem civilDay_add_cycle {year : ℕ} (hy : 1 ≤ year) (month day : ℕ) :
    civilDay (year + 400) month day = civilDay year month day + 146097 := by
  have hleap : (year + 400) % 4 = 0 ∧ ((year + 400) % 100 ≠ 0 ∨ (year + 400) % 400 = 0) ↔
      year % 4 = 0 ∧ (year % 100 ≠ 0 ∨ year % 400 = 0) := by omega
  have hlens : monthLengths (year + 400) = monthLengths year := by
    simp only [monthLengths, hleap]
  have hdays : daysBefore (year + 400) = daysBefore year + 146097 := by
    simp only [daysBefore]
    omega
  rw [civilDay, civilDay, hlens, hdays]
  omega

/-! ## Fields -/

theorem toList_padded (width n : ℕ) : (padded width n).toList =
    List.replicate (width - (Nat.toDigits 10 n).length) '0' ++ Nat.toDigits 10 n :=
  String.toList_ofList

theorem length_padded (width n : ℕ) (hw : 0 < width) (h : n < 10 ^ width) :
    (padded width n).toList.length = width := by
  have hle := (Nat.length_toDigits_le_iff (by decide) hw).mpr h
  rw [toList_padded, List.length_append, List.length_replicate]
  omega

theorem isDigit_of_mem_padded {width n : ℕ} {c : Char} (hc : c ∈ (padded width n).toList) :
    c.isDigit := by
  rw [toList_padded, List.mem_append] at hc
  obtain hc | hc := hc
  · rw [(List.mem_replicate.mp hc).2]
    decide
  · exact Nat.isDigit_of_mem_toDigits (by decide) (by decide) hc

/-- **A padded number reads as itself.** -/
theorem ofDigitChars_padded (width n : ℕ) : Nat.ofDigitChars 10 (padded width n).toList 0 = n := by
  rw [toList_padded, Nat.ofDigitChars_append, Nat.ofDigitChars_replicate_zero, Nat.mul_zero]
  exact Nat.ofDigitChars_toDigits (by decide) (by decide)

/-- The digits at the front of a text, at most so many of them. -/
def leadingDigits (width : ℕ) (cs : List Char) : List Char := (cs.take width).takeWhile Char.isDigit

theorem leadingDigits_padded (width n : ℕ) (hw : 0 < width) (h : n < 10 ^ width)
    (rest : List Char) :
    leadingDigits width ((padded width n).toList ++ rest) = (padded width n).toList := by
  rw [leadingDigits, List.take_left' (length_padded width n hw h), List.takeWhile_eq_self_iff]
  exact fun c hc => isDigit_of_mem_padded hc

/-! ## `time.Parse` -/

/-- `skip`: the text after a separator of the layout. -/
def skip (sep : Char) : List Char → Option (List Char)
  | c :: cs => if c = sep then some cs else none
  | [] => none

@[simp] theorem skip_self (sep : Char) (cs : List Char) : skip sep (sep :: cs) = some cs :=
  if_pos rfl

/-- `getnum`: a number of two digits, or of one where the width is not fixed, and what follows
it. -/
def getnum (cs : List Char) (fixed : Bool) : Option (ℕ × List Char) :=
  let digits := leadingDigits 2 cs
  if digits.length = 2 ∨ digits.length = 1 ∧ fixed = false then
    some (Nat.ofDigitChars 10 digits 0, cs.drop digits.length)
  else none

/-- The case `stdLongYear` of `parse`: four digits. -/
def getLongYear (cs : List Char) : Option (ℕ × List Char) :=
  let digits := leadingDigits 4 cs
  if digits.length = 4 then some (Nat.ofDigitChars 10 digits 0, cs.drop 4) else none

/-- The fraction of a second, in nanoseconds, and what follows it: the layout has none, the text
may. -/
def splitFraction (cs : List Char) : ℕ × List Char :=
  match cs with
  | sep :: c :: rest =>
    if (sep = '.' ∨ sep = ',') ∧ c.isDigit then
      -- `parseNanoseconds` drops the digits after the ninth
      let digits := leadingDigits 9 (c :: rest)
      (Nat.ofDigitChars 10 digits 0 * 10 ^ (9 - digits.length), (c :: rest).dropWhile Char.isDigit)
    else (0, cs)
  | _ => (0, cs)

/-- The case `stdISO8601ColonTZ`, at the end of the text: the offset in seconds east of UTC, which
may be of 24 hours and of 60 minutes. -/
def zoneOffset : List Char → Option ℤ
  | ['Z'] => some 0
  | [sign, h₁, h₂, ':', m₁, m₂] => do
    let (hr, _) ← getnum [h₁, h₂] true
    let (mm, _) ← getnum [m₁, m₂] true
    let off : ℤ := (hr * 60 + mm) * 60
    if 24 < hr ∨ 60 < mm then none
    else if sign = '+' then some off
    else if sign = '-' then some (-off)
    else none
  | _ => none

/-- The checks of `parse` on the fields, and the `Date` they make; what lies before the zero time
has no instant here. -/
def instantOf (year month day hour min sec nsec : ℕ) (off : ℤ) : Option Time :=
  if (1 ≤ month ∧ month ≤ 12) ∧ hour < 24 ∧ min < 60 ∧ sec < 60 ∧
      1 ≤ day ∧ day ≤ daysIn month year then
    -- counted from one cycle of the calendar earlier: there is a year 0
    let secs : ℕ := civilDay (year + 400) month day * 86400 + hour * 3600 + min * 60 + sec
    let secs : ℤ := secs - 146097 * 86400 - off
    if 0 ≤ secs then some (secs.toNat * second + nsec) else none
  else none

/-- `time.Parse(time.RFC3339, s)`. -/
def parseRFC3339 (s : String) : Option Time := do
  let (year, cs) ← getLongYear s.toList
  let (month, cs) ← getnum (← skip '-' cs) true
  let (day, cs) ← getnum (← skip '-' cs) true
  let (hour, cs) ← getnum (← skip 'T' cs) false
  let (min, cs) ← getnum (← skip ':' cs) true
  let (sec, cs) ← getnum (← skip ':' cs) true
  let (nsec, cs) := splitFraction cs
  let off ← zoneOffset cs
  instantOf year month day hour min sec nsec off

theorem instantOf_utc {year month day hour min sec : ℕ} (hd : IsDate year month day)
    (hhour : hour < 24) (hmin : min < 60) (hsec : sec < 60) :
    instantOf year month day hour min sec 0 0 =
      some ((civilDay year month day * 86400 + hour * 3600 + min * 60 + sec) * second) := by
  obtain ⟨hyear, hmonth, hday⟩ := hd
  have hsecs : ((civilDay (year + 400) month day * 86400 + hour * 3600 + min * 60 + sec : ℕ) : ℤ)
      - 146097 * 86400 - 0
      = (civilDay year month day * 86400 + hour * 3600 + min * 60 + sec : ℕ) := by
    rw [civilDay_add_cycle hyear]
    omega
  simp only [instantOf, hsecs]
  rw [if_pos ⟨hmonth, hhour, hmin, hsec, hday⟩, if_pos (Int.natCast_nonneg _), Int.toNat_natCast,
    Nat.add_zero]

theorem getnum_padded {n : ℕ} (h : n < 100) (rest : List Char) (fixed : Bool) :
    getnum ((padded 2 n).toList ++ rest) fixed = some (n, rest) := by
  have hlen := length_padded 2 n (by decide) h
  simp only [getnum, leadingDigits_padded 2 n (by decide) h, hlen, ofDigitChars_padded,
    List.drop_left' hlen, true_or, if_true]

theorem getLongYear_padded {n : ℕ} (h : n < 10000) (rest : List Char) :
    getLongYear ((padded 4 n).toList ++ rest) = some (n, rest) := by
  have hlen := length_padded 4 n (by decide) h
  simp only [getLongYear, leadingDigits_padded 4 n (by decide) h, hlen, ofDigitChars_padded,
    List.drop_left' hlen, if_true]

/-- A separator and a field of two digits. -/
theorem field_padded {n : ℕ} (h : n < 100) {sep : Char} {rest : List Char} {fixed : Bool}
    {f : ℕ × List Char → Option Time} {t : Option Time} (hf : f (n, rest) = t) :
    (do f (← getnum (← skip sep (sep :: ((padded 2 n).toList ++ rest))) fixed)) = t := by
  rw [skip_self, Option.bind_eq_bind, Option.bind_some, getnum_padded h, Option.bind_eq_bind,
    Option.bind_some, hf]

/-- **A date and a time of day, formatted and read back.** -/
theorem parseRFC3339_padded {year month day hour min sec : ℕ} (hd : IsDate year month day)
    (hy : year ≤ 9999) (hhour : hour < 24) (hmin : min < 60) (hsec : sec < 60) :
    parseRFC3339 (padded 4 year ++ "-" ++ padded 2 month ++ "-" ++ padded 2 day ++ "T"
        ++ padded 2 hour ++ ":" ++ padded 2 min ++ ":" ++ padded 2 sec ++ "Z")
      = some ((civilDay year month day * 86400 + hour * 3600 + min * 60 + sec) * second) := by
  have hdays := daysIn_le month year
  have hmonth := hd.month
  have hday := hd.day
  have htext :
      (padded 4 year ++ "-" ++ padded 2 month ++ "-" ++ padded 2 day ++ "T"
        ++ padded 2 hour ++ ":" ++ padded 2 min ++ ":" ++ padded 2 sec ++ "Z").toList =
      (padded 4 year).toList ++ '-' :: ((padded 2 month).toList ++ '-' :: ((padded 2 day).toList ++
        'T' :: ((padded 2 hour).toList ++ ':' :: ((padded 2 min).toList ++
          ':' :: ((padded 2 sec).toList ++ ['Z']))))) := by
    simp
  rw [parseRFC3339, htext, getLongYear_padded (by omega), Option.bind_eq_bind, Option.bind_some]
  -- one separator and one field after the other
  refine field_padded (by omega) (field_padded (by omega) (field_padded (by omega)
    (field_padded (by omega) (field_padded (by omega) ?_))))
  exact instantOf_utc hd hhour hmin hsec

/-- The end of year 9999, and of RFC 3339. -/
def endOfRFC3339 : Time := 3652059 * 86400 * second

theorem year_le_of_lt {day year yday : ℕ} (hy : yearDay day = (year, yday)) (h : day < 3652059) :
    year ≤ 9999 := by
  obtain ⟨q, c, f, n, r, he, hday, hc, hf, hn, -⟩ := yearDay_cycles day
  rw [hy] at he
  cases he
  omega

/-- **Read back, a timestamp is the instant in whole seconds.** -/
theorem parseRFC3339_rfc3339 {t : Time} (ht : t < endOfRFC3339) :
    parseRFC3339 (rfc3339 t) = some (wholeSeconds t) := by
  obtain ⟨⟨year, yday⟩, hy⟩ : ∃ p, yearDay (t / second / 86400) = p := ⟨_, rfl⟩
  obtain ⟨⟨month, mday⟩, hm⟩ : ∃ p, monthDay (monthLengths year) 1 yday = p := ⟨_, rfl⟩
  obtain ⟨hdate, hday⟩ := civilDay_of_day hy hm
  have hlt : t / second / 86400 < 3652059 := by
    refine Nat.div_lt_of_lt_mul (Nat.div_lt_of_lt_mul ?_)
    rwa [Nat.mul_comm 86400, Nat.mul_comm second]
  simp only [rfc3339, hy, hm]
  rw [parseRFC3339_padded hdate (year_le_of_lt hy hlt) (by omega) (by omega) (by omega), hday,
    wholeSeconds]
  congr 2
  omega

/-- Reading is laxer than writing. -/
example : parseRFC3339 "0001-01-02T3:00:00,5+24:00" = some (3 * 3600 * second + 500000000) := by
  simp only [parseRFC3339, String.reduceToList]
  decide +kernel

end VkSandbox
