import Mathlib.Algebra.Group.Nat.Defs
import Mathlib.Data.List.DropRight
import TrustFramework.Proofs.Time.Calendar
import TrustFramework.Proofs.Xml.Characters
import TrustFramework.Time.Timestamp

/-!
# Timestamps as texts

A moment is written in universal time, with six digits for a fraction of a second or none at all.
Each number fills the digits it is written with, so that it is read back from them whatever
follows.  The offset is written as a letter, which is read as no offset; and the fraction is the
first one of the text and of six digits, so that it is neither cut nor filled.

## Main definitions

* `writtenDate`, `writtenTime` — a date and a time of day as they are written.
* `Clock.IsTime`, `clockOf` — times of day, and that of a moment.
* `HasDate` — a timestamp that has a date of the calendar in universal time.

## Main results

* `takeDigits?_padded` — **a number is read back from its digits.**
* `readDate?_writtenDate`, `readClock?_writtenTime` — so are a date and a time of day.
* `readIso?_written` — and both of them in universal time.
* `read?_renderInstant` — **a moment is read as it was written.**
* `text_of_moment` — **the text of a timestamp stands for its moment.**
-/

namespace TrustFramework

/-! ### Characters -/

namespace Text

theorem char_isDigit_iff {c : Char} : c.isDigit = true ↔ 48 ≤ c.toNat ∧ c.toNat ≤ 57 := by
  rw [Char.isDigit, Bool.and_eq_true, decide_eq_true_eq, decide_eq_true_eq]
  exact Iff.rfl

theorem isDigit_of_char_isDigit {c : Char} (h : c.isDigit = true) : isDigit c = true := by
  have hrange := char_isDigit_iff.mp h
  have hnear : c.toNat < 0x660 := by omega
  rw [isDigit, digit?, if_pos hnear, if_pos hrange, Option.isSome_some]

theorem isBlank_of_char_isDigit {c : Char} (h : c.isDigit = true) : isBlank c = false := by
  obtain ⟨hleast, hmost⟩ := char_isDigit_iff.mp h
  have hbounds : ¬ c.toNat ≤ 13 ∧ ¬ c.toNat ≤ 32 ∧ ¬ 128 ≤ c.toNat := by omega
  simp [isBlank, hbounds]

/-- A text that neither begins nor ends with a blank has nothing to trim. -/
theorem trimmed_eq_self {cs : List Char} (hfirst : ∀ c ∈ cs.head?, isBlank c = false)
    (hlast : ∀ c ∈ cs.getLast?, isBlank c = false) : trimmed cs = cs := by
  have hfront : cs.dropWhile isBlank = cs := by
    cases cs with
    | nil => rfl
    | cons c cs => exact List.dropWhile_cons_of_neg (by rw [hfirst c rfl]; decide)
  rw [trimmed_eq_rdropWhile, hfront, List.rdropWhile_eq_self_iff]
  intro hne
  rw [hlast _ (List.getLast?_eq_some_getLast hne)]
  decide

end Text

namespace Timestamp

open Time

/-! ### Digits -/

theorem isDigit_of_mem_padded {width n : Nat} {c : Char} (h : c ∈ padded width n) :
    c.isDigit = true := by
  rcases List.mem_append.mp h with h | h
  · rw [List.eq_of_mem_replicate h]
    rfl
  · exact Nat.isDigit_of_mem_toDigits (by decide) (by decide) h

theorem length_padded {width n : Nat} (hwidth : 0 < width) (h : n < 10 ^ width) :
    (padded width n).length = width := by
  have hdigits : (Nat.toDigits 10 n).length ≤ width :=
    (Nat.length_toDigits_le_iff (by decide) hwidth).mpr h
  rw [padded, List.length_append, List.length_replicate]
  omega

/-- The number that digits stand for is the one they were written for. -/
theorem ofDigitChars_padded (width n : Nat) : Nat.ofDigitChars 10 (padded width n) 0 = n := by
  rw [padded, Nat.ofDigitChars_append, Nat.ofDigitChars_replicate_zero, Nat.mul_zero,
    Nat.ofDigitChars_ten_toDigits]

theorem takeDigits?_append {digits : List Char} (h : ∀ c ∈ digits, c.isDigit = true)
    (rest : List Char) (acc : Nat) :
    takeDigits? digits.length (digits ++ rest) acc =
      some (Nat.ofDigitChars 10 digits acc, rest) := by
  induction digits generalizing acc with
  | nil => rfl
  | cons c digits ih =>
    obtain ⟨hc, hdigits⟩ := List.forall_mem_cons.mp h
    rw [List.length_cons, List.cons_append, takeDigits?, if_pos hc, ih hdigits,
      Nat.ofDigitChars_cons, Nat.mul_comm]
    rfl

/-- **A number is read back from its digits**, whatever follows them. -/
theorem takeDigits?_padded {width n : Nat} (hwidth : 0 < width) (h : n < 10 ^ width)
    (rest : List Char) : takeDigits? width (padded width n ++ rest) 0 = some (n, rest) := by
  have hdigits : ∀ c ∈ padded width n, c.isDigit = true := fun c => isDigit_of_mem_padded
  have htake := takeDigits?_append hdigits rest 0
  rwa [length_padded hwidth h, ofDigitChars_padded] at htake

theorem exists_padded_eq_cons {width n : Nat} (hwidth : 0 < width) (h : n < 10 ^ width) :
    ∃ c cs, padded width n = c :: cs ∧ c.isDigit = true := by
  cases hdigits : padded width n with
  | nil =>
    have hlength := length_padded hwidth h
    rw [hdigits] at hlength
    exact absurd hlength.symm (Nat.ne_of_gt hwidth)
  | cons c cs => exact ⟨c, cs, rfl, isDigit_of_mem_padded (hdigits ▸ List.mem_cons_self)⟩

/-! ### Dates -/

/-- A date as it is written. -/
def writtenDate (d : Date) : List Char :=
  padded 4 d.year ++ '-' :: (padded 2 d.month ++ '-' :: padded 2 d.day)

section

variable {d : Date} (h : d.isValid = true)
include h

theorem digits_of_isValid : d.year < 10 ^ 4 ∧ d.month < 10 ^ 2 ∧ d.day < 10 ^ 2 := by
  obtain ⟨⟨-, ⟨-, hmonth⟩, -, hday⟩, hyear⟩ := Date.isValid_iff.mp h
  have hlong : daysInMonth d.year d.month ≤ 31 := by
    unfold daysInMonth
    split
    · split <;> decide
    all_goals decide
  rw [maxYear] at hyear
  omega

theorem length_writtenDate : (writtenDate d).length = 10 := by
  obtain ⟨hyear, hmonth, hday⟩ := digits_of_isValid h
  rw [writtenDate, List.length_append, List.length_cons, List.length_append, List.length_cons,
    length_padded (by decide) hyear, length_padded (by decide) hmonth,
    length_padded (by decide) hday]

/-- **A date is read as it was written.** -/
theorem readDate?_writtenDate : readDate? (writtenDate d) = some d := by
  obtain ⟨hyear, hmonth, hday⟩ := digits_of_isValid h
  obtain ⟨c, cs, hcons, hdigit⟩ := exists_padded_eq_cons (by decide) hmonth
  unfold readDate? writtenDate
  rw [takeDigits?_padded (by decide) hyear]
  simp only [Option.bind_eq_bind, Option.bind_some, List.head?_cons, if_true, List.drop_succ_cons,
    List.drop_zero]
  split
  · next rest hweek =>
    -- the months begin with a digit
    rw [hcons, List.cons_append, List.cons.injEq] at hweek
    rw [hweek.1] at hdigit
    exact absurd hdigit (by decide)
  · rw [takeDigits?_padded (by decide) hmonth, Option.bind_some, expect?, if_pos rfl,
      Option.bind_some, ← List.append_nil (padded 2 d.day), takeDigits?_padded (by decide) hday,
      Option.bind_some]

/-- The date of a text ends where it was written to. -/
theorem dateEnd?_writtenDate_append (rest : List Char) :
    dateEnd? (writtenDate d ++ 'T' :: rest) = some 10 := by
  obtain ⟨hyear, hmonth, hday⟩ := digits_of_isValid h
  obtain ⟨c, cs, hcons, hdigit⟩ := exists_padded_eq_cons (by decide) hmonth
  have hlength : (writtenDate d ++ 'T' :: rest).length ≠ 7 := by
    rw [List.length_append, length_writtenDate h]
    omega
  have htext : writtenDate d ++ 'T' :: rest =
      padded 4 d.year ++ '-' :: c :: (cs ++ '-' :: (padded 2 d.day ++ 'T' :: rest)) := by
    simp [writtenDate, hcons]
  have hmark : (writtenDate d ++ 'T' :: rest)[4]? = some '-' := by
    rw [htext, List.getElem?_append_right (by rw [length_padded (by decide) hyear]),
      length_padded (by decide) hyear]
    rfl
  have hdigits : (writtenDate d ++ 'T' :: rest)[5]? = some c := by
    rw [htext, List.getElem?_append_right (by rw [length_padded (by decide) hyear]; omega),
      length_padded (by decide) hyear]
    rfl
  have hmonths : c ≠ 'W' := by
    rintro rfl
    exact absurd hdigit (by decide)
  unfold dateEnd?
  simp only [hmark, hdigits, Option.getD_some]
  rw [if_neg hlength, if_pos trivial, if_neg hmonths]

end

/-! ### Times of day -/

/-- A time of day as it is written. -/
def writtenTime (c : Clock) : List Char :=
  padded 2 c.hour ++ ':' :: (padded 2 c.minute ++ ':' :: (padded 2 c.second ++ fraction c.micro))

/-- A time of day with a fraction of a second. -/
structure Clock.IsTime (c : Clock) : Prop where
  hours : c.hour < 24
  minutes : c.minute < 60
  seconds : c.second < 60
  micros : c.micro < Timestamp.second

theorem readFraction?_padded (c : Clock) {micro : Nat} (h : micro < second) (more : Bool) :
    readFraction? c (padded 6 micro) more = some { c with micro, leftover := more } := by
  have hlength : (padded 6 micro).length = 6 := length_padded (by decide) h
  unfold readFraction?
  rw [hlength, ← List.append_nil (padded 6 micro)]
  simp only [Nat.min_self]
  rw [takeDigits?_padded (by decide) h]
  simp

/-- A part of a time in front of a colon and another part. -/
theorem readParts?_padded_colon {fuel part n : Nat} {colons : Bool} {c : Clock} {next : Char}
    {after : List Char} {more : Bool} (h : n < 10 ^ 2) (hcolons : part = 0 ∨ colons = true) :
    readParts? (fuel + 1) part colons c (padded 2 n ++ ':' :: next :: after) more =
      readParts? fuel (part + 1) true (c.setPart part n) (next :: after) more := by
  rw [readParts?, takeDigits?_padded (by decide) h]
  obtain rfl | rfl := hcolons <;> simp

/-- The last part of a time, with or without a fraction. -/
theorem readParts?_padded_fraction {fuel part n micro : Nat} {c : Clock} {more : Bool}
    (h : n < 10 ^ 2) (hmicro : micro < second) (hpart : part ≠ 0) :
    readParts? (fuel + 1) part true c (padded 2 n ++ fraction micro) more =
      some { c.setPart part n with
        micro := if micro = 0 then (c.setPart part n).micro else micro, leftover := more } := by
  rw [readParts?, takeDigits?_padded (by decide) h, fraction]
  by_cases hzero : micro = 0
  · simp [hzero]
  · have hsix : micro < 10 ^ 6 := hmicro
    obtain ⟨first, digits, hcons, -⟩ := exists_padded_eq_cons (by decide) hsix
    have hfraction := readFraction?_padded (c.setPart part n) hmicro more
    rw [hcons] at hfraction
    rw [if_neg hzero, if_neg hzero, hcons]
    simp [hpart, hfraction]

/-- **A time of day is read as it was written.** -/
theorem readClock?_writtenTime {c : Clock} (h : c.IsTime) (more : Bool) :
    readClock? (writtenTime c) more = some { c with leftover := more } := by
  obtain ⟨hhours, hminutes, hseconds, hmicros⟩ := h
  have hminute : c.minute < 10 ^ 2 := by omega
  have hsecond : c.second < 10 ^ 2 := by omega
  obtain ⟨m, ms, hms, -⟩ := exists_padded_eq_cons (by decide) hminute
  obtain ⟨s, ss, hss, -⟩ := exists_padded_eq_cons (by decide) hsecond
  -- behind each colon stands the first digit of another part
  unfold readClock? writtenTime
  rw [hms, List.cons_append, readParts?_padded_colon (by omega) (Or.inl rfl), ← List.cons_append,
    ← hms, hss, List.cons_append, readParts?_padded_colon hminute (Or.inr rfl), ← List.cons_append,
    ← hss, readParts?_padded_fraction hsecond hmicros (by decide)]
  obtain ⟨hour, minute, second, micro, leftover⟩ := c
  by_cases hzero : micro = 0 <;> simp [Clock.setPart, hzero]

/-! ### Offsets -/

/-- The offset of universal time as it is read. -/
def zeroOffset : List Char := ['+', '0', '0', ':', '0', '0']

theorem eq_of_mem_head?_zeroOffset {x : Char} (h : x ∈ zeroOffset.head?) : x = '+' :=
  (Option.some.inj h).symm

/-- What a time of day is written with. -/
theorem of_mem_writtenTime {c : Clock} {x : Char} (h : x ∈ writtenTime c) :
    x.isDigit = true ∨ x = ':' ∨ x = '.' := by
  have hfraction : x ∈ fraction c.micro → x.isDigit = true ∨ x = '.' := by
    unfold fraction
    split
    · simp
    · intro h
      exact (List.mem_cons.mp h).symm.imp_left isDigit_of_mem_padded
  simp only [writtenTime, List.mem_append, List.mem_cons] at h
  obtain h | rfl | h | rfl | h | h := h
  · exact Or.inl (isDigit_of_mem_padded h)
  · exact Or.inr (Or.inl rfl)
  · exact Or.inl (isDigit_of_mem_padded h)
  · exact Or.inr (Or.inl rfl)
  · exact Or.inl (isDigit_of_mem_padded h)
  · exact (hfraction h).imp_right Or.inr

theorem not_beginsOffset_of_mem_writtenTime {c : Clock} {x : Char} (h : x ∈ writtenTime c) :
    beginsOffset x = false := by
  obtain h | rfl | rfl := of_mem_writtenTime h
  · simp only [beginsOffset, Bool.or_eq_false_iff, decide_eq_false_iff_not]
    refine ⟨⟨?_, ?_⟩, ?_⟩ <;> rintro rfl <;> exact absurd h (by decide)
  · rfl
  · rfl

/-- **A time of day with the offset of universal time is read as it was written.** -/
theorem readTime?_writtenTime_append {c : Clock} (h : c.IsTime) :
    readTime? (writtenTime c ++ zeroOffset) = some ({ c with leftover := true }, 0) := by
  have hspan : (writtenTime c ++ zeroOffset).span (fun x => !beginsOffset x) =
      (writtenTime c, zeroOffset) :=
    Xml.span_append (fun x hx => by rw [not_beginsOffset_of_mem_writtenTime hx]; rfl)
      fun x hx => by rw [eq_of_mem_head?_zeroOffset hx]; rfl
  have hoffset : readOffset? (decide ('+' = '-')) zeroOffset.tail = some 0 := by
    decide
  unfold readTime?
  rw [hspan]
  show ((readClock? (writtenTime c) true).bind fun c => if '+' = 'Z' then _ else
    (readOffset? (decide ('+' = '-')) zeroOffset.tail).bind fun offset => some (c, offset)) = _
  rw [readClock?_writtenTime h, Option.bind_some, if_neg (by decide), hoffset, Option.bind_some]

/-! ### Texts of telemetry -/

/-- A text of the first half of ASCII is what it is, one place for each character. -/
theorem widen_eq_self {cs : List Char} (h : ∀ c ∈ cs, c.toNat < 0x80) : widen cs = cs := by
  induction cs with
  | nil => rfl
  | cons c cs ih =>
    obtain ⟨hc, hcs⟩ := List.forall_mem_cons.mp h
    rw [widen, List.flatMap_cons, if_pos hc]
    exact congrArg (c :: ·) (ih hcs)

theorem universal_append (cs : List Char) : universal (cs ++ ['Z']) = cs ++ zeroOffset := by
  simp [universal, zeroOffset]

theorem sixDigits_append {front : List Char} (h : '.' ∉ front) (rest : List Char) :
    sixDigits (front ++ rest) = front ++ sixDigits rest := by
  induction front with
  | nil => rfl
  | cons c front ih =>
    rw [List.mem_cons, not_or] at h
    rw [List.cons_append, sixDigits, ih h.2, List.cons_append]
    exact fun hpoint => h.1 hpoint.symm

/-- Six digits behind a point are neither cut nor filled. -/
theorem sixDigits_point {digits rest : List Char} (hlength : digits.length = 6)
    (hdigits : ∀ c ∈ digits, Text.isDigit c = true)
    (hrest : ∀ c ∈ rest.head?, Text.isDigit c = false) :
    sixDigits ('.' :: (digits ++ rest)) = '.' :: (digits ++ rest) := by
  rw [sixDigits, Xml.span_append hdigits hrest]
  match digits, hlength with
  | c :: digits, hlength =>
    have hcut : (c :: digits).take 6 = c :: digits := List.take_of_length_le (Nat.le_of_eq hlength)
    show '.' :: ((c :: digits).take 6 ++
      List.replicate (6 - (c :: digits).length) '0' ++ rest) = _
    rw [hcut, hlength, Nat.sub_self, List.replicate_zero, List.append_nil]

theorem sixDigits_fraction {micro : Nat} (h : micro < second) :
    sixDigits (fraction micro ++ zeroOffset) = fraction micro ++ zeroOffset := by
  unfold fraction
  split
  · decide
  · exact sixDigits_point (length_padded (by decide) h)
      (fun c hc => Text.isDigit_of_char_isDigit (isDigit_of_mem_padded hc))
      fun c hc => by rw [eq_of_mem_head?_zeroOffset hc]; rfl

theorem point_not_mem_padded (width n : Nat) : '.' ∉ padded width n := fun h =>
  absurd (isDigit_of_mem_padded h) (by decide)

/-- The point of a fraction is the only one in the text of a moment. -/
theorem sixDigits_written (d : Date) {c : Clock} (h : c.IsTime) :
    sixDigits (writtenDate d ++ 'T' :: (writtenTime c ++ zeroOffset)) =
      writtenDate d ++ 'T' :: (writtenTime c ++ zeroOffset) := by
  have htext : writtenDate d ++ 'T' :: (writtenTime c ++ zeroOffset) =
      (writtenDate d ++ 'T' :: (padded 2 c.hour ++ ':' :: (padded 2 c.minute ++
        ':' :: padded 2 c.second))) ++ (fraction c.micro ++ zeroOffset) := by
    simp [writtenTime]
  rw [htext, sixDigits_append (by simp [writtenDate, point_not_mem_padded]),
    sixDigits_fraction h.micros]

/-- **A text of a date and a time in universal time is read as it was written.** -/
theorem readIso?_written {d : Date} {c : Clock} (hd : d.isValid = true) (hc : c.IsTime) :
    readIso? (writtenDate d ++ 'T' :: (writtenTime c ++ zeroOffset)) =
      some ⟨(d.toDays * day + c.micros : Nat), 0⟩ := by
  have hascii : ∀ x ∈ writtenTime c ++ zeroOffset, x.toNat < 0x80 := by
    intro x hx
    rcases List.mem_append.mp hx with hx | hx
    · obtain hx | rfl | rfl := of_mem_writtenTime hx
      · have hrange := Text.char_isDigit_iff.mp hx
        omega
      · decide
      · decide
    · exact (by simp [zeroOffset] : ∀ x ∈ zeroOffset, x.toNat < 0x80) x hx
  have hvalid : ({ c with leftover := true } : Clock).isValid = true := by
    obtain ⟨hhours, hminutes, hseconds, -⟩ := hc
    simp only [Clock.isValid, Bool.and_eq_true, decide_eq_true_eq]
    omega
  have htime : readTime? (widen (writtenTime c ++ zeroOffset)) =
      some ({ c with leftover := true }, 0) := by
    rw [widen_eq_self hascii, readTime?_writtenTime_append hc]
  unfold readIso?
  simp only [Option.bind_eq_bind]
  rw [dateEnd?_writtenDate_append hd, Option.bind_some, List.take_left' (length_writtenDate hd),
    List.drop_left' (length_writtenDate hd), readDate?_writtenDate hd, Option.bind_some]
  simp only [htime, Option.bind_some, hd, hvalid, Bool.and_self, if_true]
  rfl

/-! ### Moments -/

/-- The time of day of a moment. -/
def clockOf (micros : Nat) : Clock :=
  let seconds := micros % day / second
  { hour := seconds / 3600, minute := seconds / 60 % 60, second := seconds % 60,
    micro := micros % second }

theorem isTime_clockOf (micros : Nat) : (clockOf micros).IsTime := by
  have hday : micros % day / second < 86400 := by
    rw [Nat.div_lt_iff_lt_mul (by decide)]
    exact Nat.mod_lt _ (by decide)
  refine ⟨?_, Nat.mod_lt _ (by decide), Nat.mod_lt _ (by decide), Nat.mod_lt _ (by decide)⟩
  show micros % day / second / 3600 < 24
  omega

/-- **A moment is made up of the days of its date and the time of day.** -/
theorem day_add_micros (micros : Nat) :
    (Date.ofDays (micros / day)).toDays * day + (clockOf micros).micros = micros := by
  rw [Date.toDays_ofDays]
  have hsecond : micros % day % second = micros % second :=
    Nat.mod_mod_of_dvd _ ⟨86400, Nat.mul_comm _ _⟩
  have hseconds : (clockOf micros).seconds = micros % day / second := by
    simp only [Clock.seconds, clockOf]
    omega
  have hmicros : (clockOf micros).micros = micros % day := by
    rw [Clock.micros, hseconds]
    show micros % day / second * second + micros % second = micros % day
    rw [← hsecond, Nat.div_add_mod']
  rw [hmicros, Nat.div_add_mod']

theorem renderInstant_eq (micros : Nat) :
    renderInstant micros = String.ofList ((writtenDate (Date.ofDays (micros / day)) ++
      'T' :: writtenTime (clockOf micros)) ++ ['Z']) := by
  rw [renderInstant]
  refine congrArg String.ofList ?_
  simp [writtenDate, writtenTime, clockOf]

/-- **A moment is read as it was written.** -/
theorem read?_renderInstant {micros : Nat} (h : micros < moments) :
    read? (renderInstant micros) = some ⟨micros, 0⟩ := by
  have hdate : (Date.ofDays (micros / day)).isValid = true :=
    (Date.isValid_ofDays_iff _).mpr (Nat.div_lt_of_lt_mul (Nat.mul_comm _ _ ▸ h))
  have htime : (clockOf micros).IsTime := isTime_clockOf micros
  obtain ⟨c, cs, hcons, hdigit⟩ := exists_padded_eq_cons (by decide) (digits_of_isValid hdate).1
  have htrimmed (rest : List Char) :
      Text.trimmed ((writtenDate (Date.ofDays (micros / day)) ++ rest) ++ ['Z']) =
        (writtenDate (Date.ofDays (micros / day)) ++ rest) ++ ['Z'] := by
    refine Text.trimmed_eq_self (fun x hx => ?_) (fun x hx => ?_)
    · have hhead : x = c := by simpa [writtenDate, hcons, eq_comm] using hx
      exact hhead ▸ Text.isBlank_of_char_isDigit hdigit
    · rw [List.getLast?_concat, Option.mem_some] at hx
      exact hx ▸ rfl
  rw [read?, renderInstant_eq, String.toList_ofList, htrimmed, universal_append, List.append_assoc,
    List.cons_append, sixDigits_written _ htime, readIso?_written hdate htime, day_add_micros]

/-! ### Timestamps -/

/-- The date of a timestamp in universal time is one of the calendar, in the years one to 9999. -/
def HasDate (t : Timestamp) : Prop :=
  ∃ d : Date, d.isValid = true ∧ t.instant / day = d.toDays

theorem moments_eq : (moments : Int) = 3652059 * day := by
  rw [moments, Date.daysBeforeYear_maxYear_succ, Int.natCast_mul]
  rfl

/-- A timestamp has a date in universal time if its moment is one of the calendar. -/
theorem hasDate_iff {t : Timestamp} : t.HasDate ↔ 0 ≤ t.instant ∧ t.instant < moments := by
  have hday : (day : Int) = 86400000000 := rfl
  rw [moments_eq, hday]
  constructor
  · rintro ⟨d, hvalid, hd⟩
    have hcount := (Date.isValid_iff.mp hvalid).1.isValid_iff_toDays_lt.mp hvalid
    rw [Date.daysBeforeYear_maxYear_succ] at hcount
    rw [hday] at hd
    omega
  · rintro ⟨hstart, hend⟩
    have hcount : t.instant.toNat / day < daysBeforeYear (maxYear + 1) := by
      rw [Date.daysBeforeYear_maxYear_succ, show day = 86400000000 from rfl]
      omega
    refine ⟨Date.ofDays (t.instant.toNat / day), (Date.isValid_ofDays_iff _).mpr hcount, ?_⟩
    rw [Date.toDays_ofDays, Int.natCast_ediv, Int.toNat_of_nonneg hstart]

theorem render?_eq_some_iff {t : Timestamp} {text : String} :
    t.render? = some text ↔ t.HasDate ∧ renderInstant t.instant.toNat = text := by
  rw [render?, hasDate_iff]
  split <;> simp [*]

theorem HasDate.read?_renderInstant {t : Timestamp} (h : t.HasDate) :
    read? (renderInstant t.instant.toNat) = some ⟨t.instant, 0⟩ := by
  obtain ⟨hstart, hend⟩ := hasDate_iff.mp h
  rw [Timestamp.read?_renderInstant (by omega), Int.toNat_of_nonneg hstart]

/-- **The text of a timestamp stands for its moment.**  A timestamp whose date in universal time is
one of the calendar has a text.  The text is read as a timestamp of the same moment, in universal
time, which has the same text again; and it is the text of all timestamps of this moment and of no
others. -/
theorem text_of_moment {t : Timestamp} (h : t.HasDate) :
    ∃ text, t.render? = some text ∧
      (∃ u, read? text = some u ∧ u.instant = t.instant ∧ u.render? = some text) ∧
      ∀ other : Timestamp, other.render? = some text ↔ other.instant = t.instant := by
  have hsame {u : Timestamp} (hu : u.instant = t.instant) :
      u.render? = some (renderInstant t.instant.toNat) := by
    rw [render?_eq_some_iff, hasDate_iff, hu]
    exact ⟨hasDate_iff.mp h, rfl⟩
  have hinstant : (⟨t.instant, 0⟩ : Timestamp).instant = t.instant := Int.sub_zero t.instant
  refine ⟨_, hsame rfl, ⟨_, h.read?_renderInstant, hinstant, hsame hinstant⟩, fun other =>
    ⟨fun hother => ?_, hsame⟩⟩
  -- a text is read as one moment only
  obtain ⟨hdate, htext⟩ := render?_eq_some_iff.mp hother
  have hread := hdate.read?_renderInstant
  rw [htext, h.read?_renderInstant] at hread
  exact (congrArg Timestamp.clock (Option.some.inj hread)).symm

/-- Half past eleven in the night of a leap day, two hours behind universal time. -/
def leapNight : Timestamp :=
  ⟨((⟨2024, 2, 29⟩ : Date).toDays * day + (23 * 3600 + 30 * 60) * second + 500000 : Nat),
    -(2 * 3600 * second : Nat)⟩

/-- In universal time it is the first of March already. -/
theorem text_of_leapNight :
    leapNight.HasDate ∧ leapNight.render? = some "2024-03-01T01:30:00.500000Z" ∧
      ∃ text, leapNight.render? = some text ∧
        (∃ u, read? text = some u ∧ u.instant = leapNight.instant ∧ u.render? = some text) ∧
        ∀ other : Timestamp, other.render? = some text ↔ other.instant = leapNight.instant := by
  have hdate : leapNight.HasDate := ⟨⟨2024, 3, 1⟩, by decide, by decide⟩
  exact ⟨hdate, by decide, text_of_moment hdate⟩

end Timestamp
end TrustFramework
