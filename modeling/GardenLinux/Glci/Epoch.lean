import GardenLinux.Lib.Calendar
import GardenLinux.Lib.Text
import GardenLinux.Glci.Steps

/-!
# Epochs and dates

`gardenlinux_epoch` and `snapshot_date` of `ci/glci/model.py`, and `bin/garden-version`.  The
former count the days from April 1st 2020, beginning with 1; the latter counts those from
March 31st in seconds, and tells dates from versions by their size.

What is proved here:

* `gardenlinuxEpoch_eq` and `snapshotDate_eq` — both as arithmetic of ordinals;
* `gardenVersion_major` and `gardenVersion_date` — what `garden-version` prints for the text of a
  date and for the text of an epoch;
* `epochs_agree` — the two conversions are inverse to each other, and Python and bash agree.
-/

namespace Glci

open Calendar

/-! ## Dates in Python -/

/-- The microseconds of a day. -/
def dayLength : ℕ := 86400000000

/-- A `datetime` without a time zone: years up to `MAXYEAR`. -/
structure DateTime where
  date : Date
  time : ℕ
  year_le : date.year ≤ 9999
  time_lt : time < dayLength

inductive EpochError
  | valueError
  | overflowError
  deriving DecidableEq, Repr

def DateTime.micros (d : DateTime) : ℤ := d.date.ordinal * dayLength + d.time

def epochDate : DateTime :=
  ⟨⟨2020, 4, 1, by decide, by decide, by decide, by decide, by decide⟩, 0, by decide, by decide⟩

/-- The days of a `timedelta`: its other parts are not negative. -/
def timedeltaDays (micros : ℤ) : ℤ := micros / dayLength

/-- `gardenlinux_epoch`; `isoparse` reads a date that is given as a text. -/
def gardenlinuxEpoch (today : DateTime) (isoparse : String → Except EpochError DateTime)
    (date : Option (String ⊕ DateTime)) : Except EpochError ℤ := do
  let date ← match date with
    | none => pure today
    | some (.inl text) => isoparse text
    | some (.inr date) => pure date
  let gardenlinuxEpoch := timedeltaDays (date.micros - epochDate.micros) + 1
  if gardenlinuxEpoch < 1 then .error .valueError else .ok gardenlinuxEpoch

/-- `strftime('%Y%m%d')`. -/
def formatYmd (d : Date) : String :=
  String.ofList (Text.zeroPad 4 d.year ++ (Text.zeroPad 2 d.month ++ Text.zeroPad 2 d.day))

/-- The ordinal of the last day of `MAXYEAR`. -/
def maxOrdinal : ℕ := 3652059

/-- A date and a `timedelta` of some days. -/
def addTimedelta (d : Date) (days : ℤ) : Except EpochError Date :=
  if 999999999 < days then .error .overflowError
  else if d.ordinal + days < 1 then .error .overflowError
  else if maxOrdinal < d.ordinal + days then .error .overflowError
  else .ok (d.addDays days.toNat)

/-- `snapshot_date`. -/
def snapshotDate (today : DateTime) (isoparse : String → Except EpochError DateTime)
    (epoch : Option ℤ) : Except EpochError String := do
  let epoch ← match epoch with
    | none => gardenlinuxEpoch today isoparse none
    | some epoch => pure epoch
  if epoch < 1 then .error .valueError
  else do
    let date ← addTimedelta epochDate.date (epoch - 1)
    pure (formatYmd date)

/-! ## Dates in bash -/

/-- What `garden-version` asks for: the contents of `VERSION` without comments and empty lines,
the current time, what `date` makes of other texts than those of a date, and the commit. -/
structure VersionEnv where
  versionFile : String
  now : ℤ
  dateOther : String → Option ℤ
  gitHead : String

inductive Typeout
  | default
  | major
  | minor
  | date
  | datefull
  | epoch
  | git
  deriving DecidableEq, Repr

inductive VersionError
  | usage (text : String)
  | unboundVariable (name : String)
  | dateFailed
  deriving DecidableEq, Repr

def startdate : Date := ⟨2020, 3, 31, by decide, by decide, by decide, by decide, by decide⟩

/-- The seconds of `date +%s` at midnight in UTC. -/
def secondsOf (ordinal : ℤ) : ℤ := (ordinal - 719163) * 86400

/-- The date that eight digits stand for. -/
def parseYmd (text : String) : Option Date :=
  let digits := text.toList
  let number := Nat.ofDigitChars 10 digits 0
  let year := number / 10000
  let month := number / 100 % 100
  let day := number % 100
  if h : digits.length = 8 ∧ digits.all Char.isDigit ∧ 0 < year ∧ (0 < month ∧ month ≤ 12) ∧
      0 < day ∧ day ≤ daysInMonth year month then
    some ⟨year, month, day, h.2.2.1, h.2.2.2.1.1, h.2.2.2.1.2, h.2.2.2.2.1, h.2.2.2.2.2⟩
  else none

/-- `date --date "${input}" +%s`. -/
def dateSeconds (env : VersionEnv) (input : String) : Option ℤ :=
  match parseYmd input with
  | some d => some (secondsOf d.ordinal)
  | none => env.dateOther input

/-- A number in 64 bits. -/
def wrap64 (n : ℕ) : ℤ := (n : ℤ).bmod 18446744073709551616

/-- A number in an arithmetic comparison of bash: nothing is zero, and a leading zero makes it
octal. -/
def bashNumber : List Char → Option ℤ
  | [] => some 0
  | '0' :: digits =>
    if digits.all fun c => '0' ≤ c ∧ c ≤ '7' then some (wrap64 (Nat.ofDigitChars 8 digits 0))
    else none
  | digits => some (wrap64 (Nat.ofDigitChars 10 digits 0))

/-- `(indate - startdate) / (60*60*24)`, which bash truncates. -/
def daysSinceStart (indate : ℤ) : ℤ := (indate - secondsOf startdate.ordinal).tdiv 86400

/-- What becomes of the input: the major version with the days that it stands for, the minor
version, and the version if it is set. -/
structure GardenVersion where
  major : String
  days : Option ℤ
  minor : String
  version : Option String

/-- The version of the input of `garden-version`. -/
def versionOf (env : VersionEnv) (input : String) : Except VersionError GardenVersion :=
  let fields := input.toList.splitOn '.'
  let first := fields.headD []
  if input.toList.all (fun c => c.isDigit || c = '.') ∧ (bashNumber first).any (· < 10000000) then
    if fields.getD 2 [] ≠ [] then
      .error (.usage ("invalid version format " ++ input ++ ". should be <major>[.<minor>]"))
    else
      let second := fields.getD 1 []
      .ok ⟨String.ofList first, if first = [] then none else some (Nat.ofDigitChars 10 first 0),
        if second = [] then "0" else String.ofList second, none⟩
  else if input = "dev" then
    let days := daysSinceStart env.now
    .ok ⟨toString days, some days, "0", some "dev"⟩
  else
    match dateSeconds env input with
    | none => .error (.usage ("invalid date " ++ input))
    | some indate =>
      let days := daysSinceStart indate
      .ok ⟨toString days, some days, "0", some (toString days ++ "." ++ "0")⟩

/-- `date --date "${startdate} + ${major} days"`; `days` without a number is one day. -/
def dateAfter (major : Option ℤ) : Except VersionError Date :=
  let days := major.getD 1
  if h : 0 < startdate.ordinal + days then .ok (Date.ofOrdinal (startdate.ordinal + days).toNat
    (by omega))
  else .error .dateFailed

/-- `garden-version`, with a text that has no blanks at its ends. -/
def gardenVersion (env : VersionEnv) (typeout : Typeout) (arg : String) :
    Except VersionError String := do
  let input := if arg = "" then env.versionFile else arg
  let v ← versionOf env (if input = "" then "dev" else input)
  match typeout with
  | .major => pure v.major
  | .minor => pure v.minor
  | .date => do
    let d ← dateAfter v.days
    pure (formatYmd d)
  | .datefull => do
    let d ← dateAfter v.days
    pure (formatYmd d ++ "T000000Z")
  | .epoch => do
    let d ← dateAfter v.days
    pure (toString (secondsOf d.ordinal))
  | .git =>
    match v.version with
    | some version => pure (version ++ "-" ++ env.gitHead)
    | none => .error (.unboundVariable "version")
  | .default =>
    match v.version with
    | some version => pure version
    | none => .error (.unboundVariable "version")

/-! ## Python as arithmetic of ordinals -/

/-- The last epoch of which `MAXYEAR` has a date. -/
def maxEpoch : ℤ := 2914544

theorem ordinal_epochDate : epochDate.date.ordinal = 737516 := by decide +kernel

theorem ordinal_startdate : startdate.ordinal = 737515 := by decide +kernel

section Python

variable {today : DateTime} {isoparse : String → Except EpochError DateTime}

/-- The time of day does not count. -/
theorem timedeltaDays_sub (d d' : DateTime) (h : d'.time = 0) :
    timedeltaDays (d.micros - d'.micros) = (d.date.ordinal : ℤ) - d'.date.ordinal := by
  have hlt := d.time_lt
  unfold timedeltaDays DateTime.micros
  rw [h]
  unfold dayLength at hlt ⊢
  omega

/-- The epoch of a date counts the days from the first one. -/
theorem gardenlinuxEpoch_eq {d : DateTime} (h : epochDate.date.ordinal ≤ d.date.ordinal) :
    gardenlinuxEpoch today isoparse (some (.inr d)) =
      .ok ((d.date.ordinal : ℤ) - epochDate.date.ordinal + 1) := by
  unfold gardenlinuxEpoch
  simp only [pure_bind, timedeltaDays_sub d epochDate rfl]
  rw [if_neg (by omega)]

/-- The date of an epoch, up to the last one. -/
theorem snapshotDate_eq {epoch : ℤ} (hpos : 1 ≤ epoch) (hmax : epoch ≤ maxEpoch) :
    snapshotDate today isoparse (some epoch) =
      .ok (formatYmd (epochDate.date.addDays (epoch - 1).toNat)) := by
  have hordinal := ordinal_epochDate
  unfold maxEpoch at hmax
  show (if epoch < 1 then _ else addTimedelta epochDate.date (epoch - 1) >>= _ :
    Except EpochError String) = _
  unfold addTimedelta maxOrdinal
  rw [if_neg (by omega), if_neg (by omega), if_neg (by omega), if_neg (by omega)]
  rfl

/-- Beyond `MAXYEAR` there is no date. -/
theorem snapshotDate_overflow {epoch : ℤ} (hmax : maxEpoch < epoch) :
    snapshotDate today isoparse (some epoch) = .error .overflowError := by
  have hordinal := ordinal_epochDate
  unfold maxEpoch at hmax
  show (if epoch < 1 then _ else addTimedelta epochDate.date (epoch - 1) >>= _ :
    Except EpochError String) = _
  unfold addTimedelta maxOrdinal
  rw [if_neg (by omega)]
  by_cases hdelta : 999999999 < epoch - 1
  · rw [if_pos hdelta]
    rfl
  · rw [if_neg hdelta, if_neg (by omega), if_pos (by omega)]
    rfl

end Python

/-! ## The text of a date -/

theorem day_lt (d : Date) : d.day < 100 := by
  have hle := d.day_le
  unfold daysInMonth at hle
  have := leapDay_le d.year
  split at hle <;> omega

theorem toList_formatYmd (d : Date) : (formatYmd d).toList =
    Text.zeroPad 4 d.year ++ (Text.zeroPad 2 d.month ++ Text.zeroPad 2 d.day) :=
  String.toList_ofList

section FourDigits

variable {d : Date} (h : d.year ≤ 9999)

include h in
theorem length_formatYmd : (formatYmd d).toList.length = 8 := by
  have hmonth := d.month_le
  have hday := day_lt d
  rw [toList_formatYmd, List.length_append, List.length_append,
    Text.length_zeroPad (by decide) (by omega), Text.length_zeroPad (by decide) (by omega),
    Text.length_zeroPad (by decide) (by omega)]

theorem isDigit_formatYmd {c : Char} (hc : c ∈ (formatYmd d).toList) : c.isDigit := by
  rw [toList_formatYmd] at hc
  rcases List.mem_append.1 hc with hyear | hrest
  · exact Text.isDigit_of_mem_zeroPad hyear
  · rcases List.mem_append.1 hrest with hmonth | hday
    · exact Text.isDigit_of_mem_zeroPad hmonth
    · exact Text.isDigit_of_mem_zeroPad hday

/-- The digits of a date as a number. -/
theorem ofDigitChars_formatYmd :
    Nat.ofDigitChars 10 (formatYmd d).toList 0 = d.year * 10000 + d.month * 100 + d.day := by
  have hmonth := d.month_le
  have hday := day_lt d
  rw [toList_formatYmd, Nat.ofDigitChars_append, Nat.ofDigitChars_append, Text.ofDigitChars_zeroPad,
    Nat.ofDigitChars_eq_ofDigitChars_zero (l := Text.zeroPad 2 d.month),
    Nat.ofDigitChars_eq_ofDigitChars_zero (l := Text.zeroPad 2 d.day), Text.ofDigitChars_zeroPad,
    Text.ofDigitChars_zeroPad, Text.length_zeroPad (by decide) (by omega),
    Text.length_zeroPad (by decide) (by omega)]
  omega

include h in
/-- A date is read from its text. -/
theorem parseYmd_formatYmd : parseYmd (formatYmd d) = some d := by
  have hmonth := d.month_le
  have hday := day_lt d
  have hyear : (d.year * 10000 + d.month * 100 + d.day) / 10000 = d.year := by omega
  have hmonths : (d.year * 10000 + d.month * 100 + d.day) / 100 % 100 = d.month := by omega
  have hdays : (d.year * 10000 + d.month * 100 + d.day) % 100 = d.day := by omega
  unfold parseYmd
  simp only [ofDigitChars_formatYmd, hyear, hmonths, hdays]
  rw [dif_pos ⟨length_formatYmd h, List.all_eq_true.2 fun c hc => isDigit_formatYmd hc, d.year_pos,
    ⟨d.month_pos, d.month_le⟩, d.day_pos, d.day_le⟩]

end FourDigits

/-! ## What `garden-version` prints -/

section Bash

variable {env : VersionEnv}

/-- Small numbers fit into 64 bits. -/
theorem wrap64_of_lt {n : ℕ} (h : n < 9223372036854775808) : wrap64 n = n :=
  Int.bmod_eq_of_le (by omega) (by omega)

/-- A numeral without a leading zero is decimal. -/
theorem bashNumber_of_head {s : List Char} (hne : s ≠ []) (hhead : s.head? ≠ some '0') :
    bashNumber s = some (wrap64 (Nat.ofDigitChars 10 s 0)) := by
  unfold bashNumber
  split
  · exact absurd rfl hne
  · exact absurd rfl hhead
  · rfl

/-- A numeral is its number if that fits into 64 bits. -/
theorem bashNumber_toDigits {n : ℕ} (h : n < 9223372036854775808) :
    bashNumber (Nat.toDigits 10 n) = some (n : ℤ) := by
  rcases Nat.eq_zero_or_pos n with rfl | hpos
  · decide
  · rw [bashNumber_of_head Nat.toDigits_ne_nil (Text.head?_toDigits_ne hpos),
      Nat.ofDigitChars_ten_toDigits, wrap64_of_lt h]

/-- What `garden-version` asks of the first field, before it takes it for a major version. -/
theorem bashNumber_toDigits_lt {n : ℕ} (h : n < 10000000) :
    (bashNumber (Nat.toDigits 10 n)).any (· < 10000000) := by
  rw [bashNumber_toDigits (by omega), Option.any_some]
  exact decide_eq_true (by omega)

theorem splitOn_of_isDigit {s : List Char} (h : ∀ c ∈ s, c.isDigit) : s.splitOn '.' = [s] :=
  List.splitOn_eq_singleton fun hdot => absurd (h '.' hdot) (by decide)

/-- The numeral of a number below the limit is a version. -/
theorem versionOf_numeral {n : ℕ} (hlt : n < 10000000) :
    versionOf env (toString n) = .ok ⟨toString n, some n, "0", none⟩ := by
  have hlist : (toString n).toList = Nat.toDigits 10 n := Nat.toList_repr
  have hdigits := Text.isDigit_toDigits n
  have hall : (Nat.toDigits 10 n).all (fun c => c.isDigit || c = '.') :=
    List.all_eq_true.2 fun c hc => by rw [hdigits c hc, Bool.true_or]
  unfold versionOf
  simp only [hlist, splitOn_of_isDigit hdigits, List.headD_cons]
  rw [if_pos ⟨hall, bashNumber_toDigits_lt hlt⟩, if_neg (by simp), if_neg Nat.toDigits_ne_nil,
    Nat.ofDigitChars_toDigits (by decide) (by decide)]
  rfl

theorem wrap64_formatYmd {d : Date} (hmax : d.year ≤ 9999) :
    wrap64 (d.year * 10000 + d.month * 100 + d.day) =
      (d.year * 10000 + d.month * 100 + d.day : ℕ) := by
  have hmonth := d.month_le
  have hday := day_lt d
  exact wrap64_of_lt (by omega)

/-- The text of a date since the year 1000 is not a version. -/
theorem versionOf_formatYmd {d : Date} (hyear : 1000 ≤ d.year) (hmax : d.year ≤ 9999) :
    versionOf env (formatYmd d) =
      .ok ⟨toString (daysSinceStart (secondsOf d.ordinal)),
        some (daysSinceStart (secondsOf d.ordinal)), "0",
        some (toString (daysSinceStart (secondsOf d.ordinal)) ++ "." ++ "0")⟩ := by
  have hdigits : ∀ c ∈ (formatYmd d).toList, c.isDigit := fun c hc => isDigit_formatYmd hc
  have hhead : (formatYmd d).toList.head? ≠ some '0' := by
    rw [toList_formatYmd, Text.zeroPad_eq_toDigits (by omega),
      List.head?_append_of_ne_nil _ Nat.toDigits_ne_nil]
    exact Text.head?_toDigits_ne d.year_pos
  have hne : (formatYmd d).toList ≠ [] := by
    intro hnil
    have hlength := length_formatYmd hmax
    rw [hnil] at hlength
    exact absurd hlength (by decide)
  have hlarge : ¬ (bashNumber (formatYmd d).toList).any (· < 10000000) := by
    rw [bashNumber_of_head hne hhead, ofDigitChars_formatYmd, wrap64_formatYmd hmax, Option.any_some]
    intro hsmall
    have hlt := of_decide_eq_true hsmall
    omega
  have hdev : formatYmd d ≠ "dev" := by
    intro heq
    have hlength := length_formatYmd hmax
    rw [heq] at hlength
    exact absurd hlength (by decide)
  unfold versionOf dateSeconds
  simp only [splitOn_of_isDigit hdigits, List.headD_cons, parseYmd_formatYmd hmax]
  rw [if_neg fun hand => hlarge hand.2, if_neg hdev]

/-- From the start on, seconds are counted in whole days. -/
theorem daysSinceStart_secondsOf {ordinal : ℕ} (h : startdate.ordinal ≤ ordinal) :
    daysSinceStart (secondsOf ordinal) = (ordinal : ℤ) - startdate.ordinal := by
  unfold daysSinceStart secondsOf
  rw [Int.tdiv_eq_ediv_of_nonneg (by omega)]
  omega

theorem ne_empty_of_length {s : String} (h : s.toList ≠ []) : s ≠ "" :=
  fun heq => h (heq ▸ rfl)

/-- `garden-version --major` of the text of a date. -/
theorem gardenVersion_major {d : Date} (hstart : startdate.ordinal ≤ d.ordinal)
    (hyear : 1000 ≤ d.year) (hmax : d.year ≤ 9999) :
    gardenVersion env .major (formatYmd d) =
      .ok (toString ((d.ordinal : ℤ) - startdate.ordinal)) := by
  have hne : formatYmd d ≠ "" := by
    refine ne_empty_of_length fun hnil => ?_
    have hlength := length_formatYmd hmax
    rw [hnil] at hlength
    exact absurd hlength (by decide)
  unfold gardenVersion
  simp only [if_neg hne, versionOf_formatYmd hyear hmax, daysSinceStart_secondsOf hstart]
  rfl

/-- `garden-version --date` of the numeral of a version. -/
theorem gardenVersion_date {n : ℕ} (hpos : 0 < n) (hlt : n < 10000000) :
    gardenVersion env .date (toString n) = .ok (formatYmd (startdate.addDays n)) := by
  have hne : toString n ≠ "" := Nat.repr_ne_empty
  unfold gardenVersion
  simp only [if_neg hne, versionOf_numeral hlt]
  have hday : 0 < (startdate.ordinal : ℤ) + n := by
    have := startdate.ordinal_pos
    omega
  have hafter : dateAfter (some (n : ℤ)) = .ok (startdate.addDays n) := by
    unfold dateAfter
    simp only [Option.getD_some]
    rw [dif_pos hday]
    rfl
  show (dateAfter (some (n : ℤ)) >>= fun d => pure (formatYmd d)) = _
  rw [hafter]
  rfl

end Bash

/-! ## Agreement -/

theorem daysBeforeYear_lt (d : Date) : daysBeforeYear d.year < d.ordinal := by
  have := d.day_pos
  unfold Date.ordinal
  omega

theorem ordinal_le_maxOrdinal {d : Date} (h : d.year ≤ 9999) : d.ordinal ≤ maxOrdinal :=
  d.ordinal_le.trans (monotone_daysBeforeYear (Nat.succ_le_succ h))

theorem year_le_of_ordinal_le {d : Date} (h : d.ordinal ≤ maxOrdinal) : d.year ≤ 9999 := by
  by_contra hlt
  have hyear : daysBeforeYear 10000 ≤ daysBeforeYear d.year := monotone_daysBeforeYear (by omega)
  have hday := daysBeforeYear_lt d
  exact absurd (hyear.trans_lt (hday.trans_le h)) (by decide)

theorem le_year_of_le_ordinal {d : Date} (h : epochDate.date.ordinal ≤ d.ordinal) :
    1000 ≤ d.year := by
  by_contra hlt
  have hyear : daysBeforeYear (d.year + 1) ≤ daysBeforeYear 1000 :=
    monotone_daysBeforeYear (by omega)
  have hle := h.trans (d.ordinal_le.trans hyear)
  rw [ordinal_epochDate] at hle
  exact absurd hle (by decide)

/-- A date comes back from its epoch, an epoch from its date unless it is beyond `MAXYEAR`, and
`garden-version` prints the same for both. -/
structure EpochsAgree (today : DateTime) (isoparse : String → Except EpochError DateTime)
    (env : VersionEnv) (d : DateTime) (e : ℤ) : Prop where
  ofDate : ∃ epoch, gardenlinuxEpoch today isoparse (some (.inr d)) = .ok epoch ∧
    snapshotDate today isoparse (some epoch) = .ok (formatYmd d.date) ∧
    gardenVersion env .major (formatYmd d.date) = .ok (toString epoch)
  ofEpoch : e ≤ maxEpoch → ∃ date : Date,
    snapshotDate today isoparse (some e) = .ok (formatYmd date) ∧
    parseYmd (formatYmd date) = some date ∧
    (∀ d : DateTime, d.date = date → gardenlinuxEpoch today isoparse (some (.inr d)) = .ok e) ∧
    (e < 10000000 → gardenVersion env .date (toString e) = .ok (formatYmd date))
  overflow : maxEpoch < e → snapshotDate today isoparse (some e) = .error .overflowError

/-- Epochs and dates determine each other, in Python and in bash. -/
theorem epochs_agree (today : DateTime) (isoparse : String → Except EpochError DateTime)
    (env : VersionEnv) {d : DateTime} (hd : epochDate.date.ordinal ≤ d.date.ordinal) {e : ℤ}
    (he : 1 ≤ e) : EpochsAgree today isoparse env d e := by
  have hepoch := ordinal_epochDate
  have hstart := ordinal_startdate
  refine ⟨⟨_, gardenlinuxEpoch_eq hd, ?_, ?_⟩, fun hmax => ⟨epochDate.date.addDays (e - 1).toNat,
    snapshotDate_eq he hmax, ?_, fun d hdate => ?_, fun hlt => ?_⟩, snapshotDate_overflow⟩
  · have hlast := ordinal_le_maxOrdinal d.year_le
    unfold maxOrdinal at hlast
    have hdays : ((d.date.ordinal : ℤ) - epochDate.date.ordinal + 1 - 1).toNat =
        d.date.ordinal - epochDate.date.ordinal := by
      omega
    rw [snapshotDate_eq (by omega) (by unfold maxEpoch; omega), hdays, Date.addDays_of_le hd]
  · rw [gardenVersion_major (by omega) (le_year_of_le_ordinal hd) d.year_le]
    congr 2
    omega
  · refine parseYmd_formatYmd (year_le_of_ordinal_le ?_)
    unfold maxEpoch at hmax
    rw [Date.ordinal_addDays, maxOrdinal]
    omega
  · have hordinal : d.date.ordinal = epochDate.date.ordinal + (e - 1).toNat := by
      rw [hdate, Date.ordinal_addDays]
    rw [gardenlinuxEpoch_eq (by omega), hordinal]
    congr 1
    omega
  · have htext : toString e = toString e.toNat := by
      conv_lhs => rw [← Int.toNat_of_nonneg (show 0 ≤ e by omega)]
      rfl
    rw [htext, gardenVersion_date (by omega) (by omega)]
    refine congrArg (fun date => Except.ok (formatYmd date)) (Date.ordinal_injective ?_)
    rw [Date.ordinal_addDays, Date.ordinal_addDays]
    omega

/-- The release of April 27th 2020. -/
theorem epochs_agree_27 :
    EpochsAgree epochDate (fun _ => .error .valueError) ⟨"dev", 0, fun _ => none, "5b1e9f0"⟩
      ⟨⟨2020, 4, 27, by decide, by decide, by decide, by decide, by decide⟩, 45000000000,
        by decide, by decide⟩ 27 :=
  epochs_agree _ _ _ (by decide +kernel) (by decide)

/-- The day after the last one of `MAXYEAR`: `snapshot_date` has no date for it, and
`garden-version --date` prints one. -/
theorem epochs_agree_fails :
    ¬ (∀ (today : DateTime) (isoparse : String → Except EpochError DateTime) (env : VersionEnv)
      (e : ℤ), 1 ≤ e → ∃ text, snapshotDate today isoparse (some e) = .ok text ∧
        (e < 10000000 → gardenVersion env .date (toString e) = .ok text)) ∧
    snapshotDate epochDate (fun _ => .error .valueError) (some 2914545) = .error .overflowError ∧
    gardenVersion ⟨"dev", 0, fun _ => none, "5b1e9f0"⟩ .date "2914545" = .ok "100000101" := by
  have hoverflow : snapshotDate epochDate (fun _ => .error .valueError) (some 2914545) =
      .error .overflowError := snapshotDate_overflow (by decide)
  refine ⟨fun h => ?_, hoverflow, ?_⟩
  · obtain ⟨text, htext, -⟩ := h epochDate (fun _ => .error .valueError)
      ⟨"dev", 0, fun _ => none, "5b1e9f0"⟩ 2914545 (by decide)
    rw [hoverflow] at htext
    cases htext
  · have hdate : gardenVersion ⟨"dev", 0, fun _ => none, "5b1e9f0"⟩ .date (toString 2914545) =
        .ok (formatYmd (startdate.addDays 2914545)) := gardenVersion_date (by decide) (by decide)
    have htext : formatYmd (startdate.addDays 2914545) = "100000101" := by decide +kernel
    rw [← htext, ← hdate]
    rfl

example : snapshotDate epochDate (fun _ => .error .valueError) (some 27) = .ok "20200427" := by
  decide +kernel

end Glci
