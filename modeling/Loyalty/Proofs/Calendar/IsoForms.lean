import Loyalty.Calendar.Iso
import Loyalty.Proofs.Calendar.Days
import Loyalty.Proofs.Text.Digits

/-!
# ISO forms read back

A date is written `YYYY-MM-DD`, and a moment as its date, a `T`, its time of day and its distance
from UTC: `hh:mm:ss` with six digits of a second or, on a whole second, without them, and `+hh:mm`,
`-hh:mm` or `Z`. Such a text is read as what was written, whatever the numbers are.
-/

namespace Loyalty

/-- ASCII digits of some width spell a number. -/
structure Spells (width n : Nat) (cs : List Char) : Prop where
  length_eq : cs.length = width
  isDigit : ∀ c ∈ cs, c.isDigit = true
  ofDigits_eq : ofDigits (digitValues cs) = n

/-! ## The forms -/

/-- The form of a date. -/
inductive Date.IsIso (d : Date) : List Char → Prop
  | parts {year month day : List Char} (hyear : Spells 4 d.year year)
    (hmonth : Spells 2 d.month month) (hday : Spells 2 d.day day) :
    IsIso d (year ++ '-' :: (month ++ '-' :: day))

/-- The forms of a time of day. -/
inductive TimeOfDay.IsIso (t : TimeOfDay) : List Char → Prop
  | whole {hour minute second : List Char} (hhour : Spells 2 t.hour hour)
    (hminute : Spells 2 t.minute minute) (hsecond : Spells 2 t.second second)
    (hmicro : t.micro = 0) : IsIso t (hour ++ ':' :: (minute ++ ':' :: second))
  | fraction {hour minute second micro : List Char} (hhour : Spells 2 t.hour hour)
    (hminute : Spells 2 t.minute minute) (hsecond : Spells 2 t.second second)
    (hmicro : Spells 6 t.micro micro) :
    IsIso t (hour ++ ':' :: (minute ++ ':' :: (second ++ '.' :: micro)))

/-- The form of a distance from UTC in whole minutes, behind its sign. -/
inductive UtcOffset.IsSigned (o : UtcOffset) : List Char → Prop
  | parts {negative : Bool} {hours minutes : Nat} {hour minute : List Char}
    (hmicros : o.micros = (if negative then -1 else 1) * ((hours * 60 + minutes) * 60000000))
    (hlt : minutes < 60) (hhour : Spells 2 hours hour) (hminute : Spells 2 minutes minute) :
    IsSigned o ((if negative then '-' else '+') :: (hour ++ ':' :: minute))

/-- The forms of a distance from UTC in whole minutes. -/
inductive UtcOffset.IsIso (o : UtcOffset) : List Char → Prop
  | withSign {cs : List Char} (h : o.IsSigned cs) : IsIso o cs
  | zulu {z : Char} (h : o = .utc) (hz : z = 'Z' ∨ z = 'z') : IsIso o [z]

/-- The forms of a moment whose distance from UTC is known. -/
inductive Moment.IsIso : Moment → List Char → Prop
  | parts {d : Date} {t : TimeOfDay} {o : UtcOffset} {date time offset : List Char}
    (hdate : d.IsIso date) (htime : t.IsIso time) (hoffset : o.IsIso offset) :
    IsIso ⟨d, t, some o⟩ (date ++ 'T' :: (time ++ offset))

/-! ## Digits -/

namespace Spells

variable {width n : Nat} {cs ds rest : List Char}

/-- A text of digits is taken off as a whole. -/
theorem takeDigits_eq (h : Spells width n cs) :
    takeDigits asciiDigit? cs = (digitValues cs, []) := by
  have htake := @takeDigits_append cs [] h.isDigit (fun c hc => by cases hc)
  rwa [List.append_nil] at htake

/-- A number is taken off a text as the digits that spell it. -/
theorem readDigits?_append (h : Spells width n ds) (rest : List Char) :
    readDigits? width (ds ++ rest) = some (n, rest) := by
  have htake := h.takeDigits_eq
  obtain ⟨rfl, -, rfl⟩ := h
  simp only [readDigits?, List.take_left, List.drop_left, htake, length_digitValues, and_self,
    if_true]

/-- Two digits. -/
theorem eq_pair (h : Spells 2 n cs) :
    ∃ a b, cs = [a, b] ∧ a.isDigit = true ∧ b.isDigit = true := by
  obtain ⟨hlength, hdigits, -⟩ := h
  match cs, hlength with
  | [a, b], _ => exact ⟨a, b, rfl, hdigits a (by simp), hdigits b (by simp)⟩

/-- Four digits. -/
theorem eq_quad (h : Spells 4 n cs) : ∃ a b c d, cs = [a, b, c, d] := by
  obtain ⟨hlength, -, -⟩ := h
  match cs, hlength with
  | [a, b, c, d], _ => exact ⟨a, b, c, d, rfl⟩

end Spells

/-- A number is spelled by its digits behind zeros. -/
theorem spells_paddedDigits {width n : Nat} (h : n < 10 ^ width) (hwidth : 0 < width) :
    Spells width n (paddedDigits 10 width n) := by
  have hlength : (Nat.toDigits 10 n).length ≤ width :=
    (Nat.length_toDigits_le_iff (by decide) hwidth).mpr h
  constructor
  · rw [paddedDigits, List.length_append, List.length_replicate]
    omega
  · intro c hc
    rcases List.mem_append.mp hc with hzero | hdigit
    · exact isDigit_of_mem_zeros hzero
    · exact isDigit_of_mem_toDigits hdigit
  · rw [paddedDigits, digitValues_append, digitValues_zeros, ofDigits_replicate_zero_append,
      ofDigits_toDigits]

/-! ## Reading a date -/

namespace Date

variable {d : Date} {cs : List Char}

/-- The form of a date is as long as a date is taken to be where it stands. -/
theorem IsIso.dateLength_append (h : d.IsIso cs) (rest : List Char) :
    dateLength (cs ++ rest) = cs.length := by
  obtain ⟨hyear, hmonth, hday⟩ := h
  obtain ⟨a, b, c, d, rfl⟩ := hyear.eq_quad
  obtain ⟨m, m', rfl, hm, -⟩ := hmonth.eq_pair
  obtain ⟨e, e', rfl, -, -⟩ := hday.eq_pair
  have hweek : m ≠ 'W' := by
    rintro rfl
    cases hm
  simp [dateLength, hweek]

/-- The form of a date is not empty. -/
theorem IsIso.ne_nil (h : d.IsIso cs) : cs ≠ [] := by
  obtain ⟨hyear, hmonth, hday⟩ := h
  simp

/-- The numbers of a date are the date. -/
theorem of?_parts (d : Date) : of? d.year d.month d.day = some d := dif_pos d.valid

/-- The form of a date is read as that date. -/
theorem IsIso.readDate?_eq (h : d.IsIso cs) : readDate? cs = some d := by
  obtain ⟨hyear, hmonth, hday⟩ := h
  rename_i year month day
  have hafterYear := hyear.readDigits?_append
  have hafterMonth := hmonth.readDigits?_append
  have hafterDay := hday.readDigits?_append []
  rw [List.append_nil] at hafterDay
  obtain ⟨m, m', rfl, hm, -⟩ := hmonth.eq_pair
  have hweek : m ≠ 'W' := by
    rintro rfl
    cases hm
  have hbranch : readDate? (year ++ '-' :: ([m, m'] ++ '-' :: day)) =
      readMonthDay? d.year true ([m, m'] ++ '-' :: day) := by
    simp [readDate?, hafterYear, hweek]
  rw [hbranch, readMonthDay?, hafterMonth]
  simp [hafterDay, of?_parts]

end Date

/-! ## Reading a time of day and a distance from UTC -/

section Parts

variable {n : Nat} {cs ds : List Char}

/-- Six digits after a point are a fraction of a second in microseconds. -/
theorem Spells.readFraction?_eq (h : Spells 6 n cs) : readFraction? cs = some ⟨[], n, true⟩ := by
  have hread := h.readDigits?_append []
  rw [List.append_nil] at hread
  have hcount : min 6 cs.length = 6 := by simp [h.length_eq]
  simp [readFraction?, hcount, hread, isOver]

/-- Two digits can be all that is left of a time. -/
theorem Spells.readParts?_last (h : Spells 2 n cs) (colons : Bool) (left : Nat) :
    readParts? colons (left + 1) cs = some ⟨[n], 0, true⟩ := by
  have hread := h.readDigits?_append []
  rw [List.append_nil] at hread
  simp [readParts?, hread, afterPart?, ReadParts.push]

/-- Another part follows two digits behind a colon. -/
theorem Spells.readParts?_colon (h : Spells 2 n ds) (hcs : cs ≠ []) (left : Nat) :
    readParts? true (left + 1) (ds ++ ':' :: cs) = (readParts? true left cs).map (.push n) := by
  obtain ⟨c, cs, rfl⟩ := List.exists_cons_of_ne_nil hcs
  simp [readParts?, h.readDigits?_append, afterPart?, Option.map_eq_bind]

/-- A fraction follows two digits behind a point. -/
theorem Spells.readParts?_point (h : Spells 2 n ds) (hcs : cs ≠ []) (colons : Bool) (left : Nat) :
    readParts? colons (left + 1) (ds ++ '.' :: cs) = (readFraction? cs).map (.push n) := by
  obtain ⟨c, cs, rfl⟩ := List.exists_cons_of_ne_nil hcs
  simp [readParts?, h.readDigits?_append, afterPart?, Option.map_eq_bind]

/-- What spells a number of at least one digit is not empty. -/
theorem Spells.ne_nil {width : Nat} (h : Spells (width + 1) n cs) : cs ≠ [] :=
  List.ne_nil_of_length_eq_add_one h.length_eq

/-- A colon behind the first two digits stands between all parts. -/
theorem Spells.readTimeParts?_colon (h : Spells 2 n ds) (cs : List Char) :
    readTimeParts? (ds ++ ':' :: cs) = (readParts? true 3 (ds ++ ':' :: cs)).map fun read =>
      (.of read.numbers read.micro, read.ended) := by
  obtain ⟨a, b, rfl, -, -⟩ := h.eq_pair
  rfl

end Parts

namespace TimeOfDay

variable {t : TimeOfDay} {cs : List Char}

/-- The parts of a time of day, one beside the other. -/
def parts (t : TimeOfDay) : TimeParts := ⟨t.hour, t.minute, t.second, t.micro⟩

/-- The parts of a time of day make it up. -/
theorem micros_parts (t : TimeOfDay) : t.parts.micros = t.micros := by
  simp only [TimeParts.micros, TimeParts.seconds, parts, hour, minute, second, micro]
  omega

/-- A clock shows the parts of a time of day. -/
theorem parts_lt (t : TimeOfDay) :
    t.hour < 24 ∧ t.minute < 60 ∧ t.second < 60 ∧ t.micro < 1000000 := by
  have hlt := t.lt
  unfold microsPerDay at hlt
  refine ⟨?_, Nat.mod_lt _ (by decide), Nat.mod_lt _ (by decide), Nat.mod_lt _ (by decide)⟩
  unfold hour
  omega

/-- The parts of a time of day are that time. -/
theorem timeOfDay?_parts (t : TimeOfDay) : t.parts.timeOfDay? = some t := by
  have hmicros : ((t.hour * 60 + t.minute) * 60 + t.second) * 1000000 + t.micro = t.micros :=
    t.micros_parts
  rw [TimeParts.timeOfDay?, of?]
  exact (dif_pos t.parts_lt).trans (by simp only [parts, hmicros])

/-- The form of a time of day is read as its parts, and the text is over then. -/
theorem IsIso.readTimeParts?_eq (h : t.IsIso cs) : readTimeParts? cs = some (t.parts, true) := by
  cases h with
  | whole hhour hminute hsecond hmicro =>
    rw [hhour.readTimeParts?_colon, hhour.readParts?_colon (by simp),
      hminute.readParts?_colon hsecond.ne_nil, hsecond.readParts?_last]
    simp [TimeParts.of, ReadParts.push, parts, hmicro]
  | fraction hhour hminute hsecond hmicro =>
    rw [hhour.readTimeParts?_colon, hhour.readParts?_colon (by simp),
      hminute.readParts?_colon (by simp), hsecond.readParts?_point hmicro.ne_nil,
      hmicro.readFraction?_eq]
    simp [TimeParts.of, ReadParts.push, parts]

end TimeOfDay

/-! ## Characters of the forms -/

/-- A digit begins no offset, and is no blank and no letter for UTC. -/
theorem marks_of_isDigit {c : Char} (hc : c.isDigit = true) :
    beginsOffset c = false ∧ isBlank c = false ∧ c ≠ 'Z' ∧ c ≠ 'z' := by
  have hrange : 48 ≤ c.toNat ∧ c.toNat ≤ 57 := by
    simp only [Char.isDigit, Bool.and_eq_true, decide_eq_true_eq] at hc
    exact hc
  have hne : ∀ mark : Char, mark.isDigit = false → c ≠ mark := by
    rintro mark hmark rfl
    rw [hmark] at hc
    cases hc
  refine ⟨?_, ?_, hne 'Z' rfl, hne 'z' rfl⟩
  · simp [beginsOffset, hne '+' rfl, hne '-' rfl, hne 'Z' rfl]
  · have hblanks : ∀ range ∈ blankRanges, range.2 < 48 ∨ 57 < range.1 := by decide
    refine List.any_eq_false.mpr fun range hmem => ?_
    have houtside := hblanks range hmem
    simp only [Bool.and_eq_true, decide_eq_true_eq]
    omega

section Characters

variable {p : Char → Prop} {d : Date} {t : TimeOfDay} {o : UtcOffset} {cs : List Char}

/-- What is true of digits is true of all that spell a number. -/
theorem Spells.forall_mem {width n : Nat} (h : Spells width n cs)
    (hdigit : ∀ c, c.isDigit = true → p c) : ∀ c ∈ cs, p c :=
  fun c hc => hdigit c (h.isDigit c hc)

/-- The form of a date has digits and hyphens in it. -/
theorem Date.IsIso.forall_mem (h : d.IsIso cs) (hdigit : ∀ c, c.isDigit = true → p c)
    (hhyphen : p '-') : ∀ c ∈ cs, p c := by
  obtain ⟨hyear, hmonth, hday⟩ := h
  simp only [List.forall_mem_append, List.forall_mem_cons]
  exact ⟨hyear.forall_mem hdigit, hhyphen, hmonth.forall_mem hdigit, hhyphen,
    hday.forall_mem hdigit⟩

/-- The form of a time of day has digits, colons and a point in it. -/
theorem TimeOfDay.IsIso.forall_mem (h : t.IsIso cs) (hdigit : ∀ c, c.isDigit = true → p c)
    (hcolon : p ':') (hpoint : p '.') : ∀ c ∈ cs, p c := by
  cases h with
  | whole hhour hminute hsecond hmicro =>
    simp only [List.forall_mem_append, List.forall_mem_cons]
    exact ⟨hhour.forall_mem hdigit, hcolon, hminute.forall_mem hdigit, hcolon,
      hsecond.forall_mem hdigit⟩
  | fraction hhour hminute hsecond hmicro =>
    simp only [List.forall_mem_append, List.forall_mem_cons]
    exact ⟨hhour.forall_mem hdigit, hcolon, hminute.forall_mem hdigit, hcolon,
      hsecond.forall_mem hdigit, hpoint, hmicro.forall_mem hdigit⟩

/-- No blank stands in the form of a distance from UTC. -/
theorem UtcOffset.IsIso.isBlank_eq_false (h : o.IsIso cs) : ∀ c ∈ cs, isBlank c = false := by
  have hdigit : ∀ c : Char, c.isDigit = true → isBlank c = false :=
    fun c hc => (marks_of_isDigit hc).2.1
  cases h with
  | withSign h =>
    obtain @⟨negative, _, _, _, _, -, -, hhour, hminute⟩ := h
    simp only [List.forall_mem_cons, List.forall_mem_append]
    refine ⟨?_, hhour.forall_mem hdigit, by decide, hminute.forall_mem hdigit⟩
    cases negative with
    | false => decide
    | true => decide
  | zulu _ hz =>
    rw [List.forall_mem_singleton]
    rcases hz with rfl | rfl
    · decide
    · decide

end Characters

/-- A text without blanks is not trimmed. -/
theorem strip_eq_self {cs : List Char} (h : ∀ c ∈ cs, isBlank c = false) : strip cs = cs := by
  have hdrop : ∀ {ds : List Char}, (∀ c ∈ ds, isBlank c = false) → ds.dropWhile isBlank = ds := by
    intro ds hds
    cases ds with
    | nil => rfl
    | cons d ds => exact List.dropWhile_cons_of_neg (by simp [hds d])
  rw [strip, trimBoth, hdrop h, hdrop fun c hc => h c (List.mem_reverse.mp hc),
    List.reverse_reverse]

/-- A final letter for UTC is its distance. -/
theorem expandZulu_append_zulu {z : Char} (hz : z = 'Z' ∨ z = 'z') (cs : List Char) :
    expandZulu (cs ++ [z]) = cs ++ ['+', '0', '0', ':', '0', '0'] := by
  rcases hz with rfl | rfl
  · simp [expandZulu]
  · simp [expandZulu]

/-- A text that ends in a digit has no such letter. -/
theorem expandZulu_append_digit {c : Char} (hc : c.isDigit = true) (cs : List Char) :
    expandZulu (cs ++ [c]) = cs ++ [c] := by
  obtain ⟨-, -, hupper, hlower⟩ := marks_of_isDigit hc
  simp [expandZulu, hupper, hlower]

/-! ## Reading a moment -/

namespace UtcOffset

/-- A distance from UTC has its microseconds. -/
theorem of?_micros (o : UtcOffset) : of? o.micros = some o := dif_pos o.lt

/-- The distance that a letter for UTC stands for is a form of its own. -/
theorem isSigned_utc : utc.IsSigned ['+', '0', '0', ':', '0', '0'] := by
  have hzero : Spells 2 0 ['0', '0'] := ⟨rfl, fun c hc => @isDigit_of_mem_zeros 2 c hc, rfl⟩
  exact @IsSigned.parts utc false 0 0 _ _ rfl (by decide) hzero hzero

/-- A distance of no microseconds is none. -/
theorem eq_utc {o : UtcOffset} (h : o.micros = 0) : o = utc := by
  obtain ⟨micros, hlt⟩ := o
  subst h
  rfl

/-- The parts of whole hours and minutes are the distance of so many, either way. -/
theorem readOffset?_parts {o : UtcOffset} {negative : Bool} {hours minutes : Nat} {cs : List Char}
    (hmicros : o.micros = (if negative then -1 else 1) * ((hours * 60 + minutes) * 60000000))
    (hread : readTimeParts? cs = some (⟨hours, minutes, 0, 0⟩, true)) :
    readOffset? negative cs = some o := by
  have hseconds : TimeParts.seconds ⟨hours, minutes, 0, 0⟩ = (hours * 60 + minutes) * 60 := rfl
  have hlength : (if negative then -(TimeParts.micros ⟨hours, minutes, 0, 0⟩ : Int)
      else TimeParts.micros ⟨hours, minutes, 0, 0⟩) = o.micros := by
    rw [hmicros, TimeParts.micros, hseconds]
    cases negative with
    | false =>
      simp only [Bool.false_eq_true, if_false]
      omega
    | true =>
      simp only [if_true]
      omega
  simp only [readOffset?, hread, hlength, of?_micros, ite_eq_right_iff, Option.some.injEq]
  intro hzero
  refine (eq_utc ?_).symm
  rw [← hlength, TimeParts.micros, hzero]
  cases negative <;> rfl

/-- The form of a distance is read behind its sign. -/
theorem IsSigned.exists_sign {o : UtcOffset} {cs : List Char} (h : o.IsSigned cs) :
    ∃ sign rest, cs = sign :: rest ∧ beginsOffset sign = true ∧
      ∀ ended, readOffsetAfter? ended cs = some (some o) := by
  obtain @⟨negative, hours, minutes, hour, minute, hmicros, -, hhour, hminute⟩ := h
  have hparts : readTimeParts? (hour ++ ':' :: minute) = some (⟨hours, minutes, 0, 0⟩, true) := by
    rw [hhour.readTimeParts?_colon, hhour.readParts?_colon hminute.ne_nil,
      hminute.readParts?_last]
    simp [TimeParts.of, ReadParts.push]
  have hoffset := readOffset?_parts hmicros hparts
  refine ⟨_, _, rfl, ?_, fun ended => ?_⟩
  · cases negative with
    | false => rfl
    | true => rfl
  · cases negative with
    | false => simpa [readOffsetAfter?] using hoffset
    | true => simpa [readOffsetAfter?] using hoffset

/-- A form of a distance from UTC, once a letter for UTC is expanded, has a sign and reads behind
whatever stands before it. -/
theorem IsIso.exists_isSigned {o : UtcOffset} {cs : List Char} (h : o.IsIso cs)
    (before : List Char) :
    ∃ form, o.IsSigned form ∧ expandZulu (before ++ cs) = before ++ form := by
  cases h with
  | withSign h =>
    refine ⟨cs, h, ?_⟩
    obtain @⟨negative, _, _, hour, _, -, -, -, hminute⟩ := h
    obtain ⟨e, e', rfl, -, he⟩ := hminute.eq_pair
    have hlast := expandZulu_append_digit he
      (before ++ (if negative then '-' else '+') :: (hour ++ [':', e]))
    simpa using hlast
  | zulu h hz =>
    subst h
    exact ⟨_, isSigned_utc, expandZulu_append_zulu hz before⟩

end UtcOffset

namespace Moment

variable {d : Date} {t : TimeOfDay} {o : UtcOffset} {m : Moment}

/-- The forms of a time and of a distance behind its sign are read as both. -/
theorem readTime?_append {time offset : List Char} (ht : t.IsIso time) (ho : o.IsSigned offset) :
    readTime? (time ++ offset) = some (t, some o) := by
  obtain ⟨sign, rest, rfl, hsign, hoffset⟩ := ho.exists_sign
  have hplain : ∀ c ∈ time, (!beginsOffset c) = true := by
    refine ht.forall_mem (fun c hc => ?_) (by decide) (by decide)
    rw [(marks_of_isDigit hc).1]
    rfl
  rw [readTime?, List.takeWhile_append_of_pos hplain, List.dropWhile_append_of_pos hplain,
    List.takeWhile_cons_of_neg (by simp [hsign]), List.dropWhile_cons_of_neg (by simp [hsign]),
    List.append_nil, ht.readTimeParts?_eq]
  simp [hoffset, t.timeOfDay?_parts]

/-- A text that begins with the form of a date is read as the date and what follows it. -/
theorem read?_append {date : List Char} (h : d.IsIso date) (rest : List Char) :
    read? (date ++ rest) = match rest with
      | [] => some (.ofDate d)
      | _ :: cs => (readTime? cs).map fun (time, offset) => ⟨d, time, offset⟩ := by
  rw [read?, h.dateLength_append, List.take_left, List.drop_left, h.readDate?_eq]
  rfl

/-- The form of a date alone is read as its midnight. -/
theorem ofText?_of_date {s : String} (h : d.IsIso s.toList) : ofText? s = some (.ofDate d) := by
  have hblank : ∀ c ∈ s.toList, isBlank c = false :=
    h.forall_mem (fun c hc => (marks_of_isDigit hc).2.1) (by decide)
  have hread := read?_append h []
  rw [List.append_nil] at hread
  have hend : expandZulu s.toList = s.toList := by
    generalize s.toList = cs at h
    obtain ⟨hyear, hmonth, hday⟩ := h
    rename_i year month day
    obtain ⟨e, e', rfl, -, he⟩ := hday.eq_pair
    have hlast := expandZulu_append_digit he (year ++ '-' :: (month ++ ['-', e]))
    simpa using hlast
  rw [ofText?, strip_eq_self hblank, hend, hread]

/-- The form of a moment is read as that moment. -/
theorem IsIso.ofText?_eq {s : String} (h : m.IsIso s.toList) : ofText? s = some m := by
  generalize hs : s.toList = cs at h
  obtain @⟨d, t, o, date, time, offset, hdate, htime, hoffset⟩ := h
  have hdigit : ∀ c : Char, c.isDigit = true → isBlank c = false :=
    fun c hc => (marks_of_isDigit hc).2.1
  have hblank : ∀ c ∈ date ++ 'T' :: (time ++ offset), isBlank c = false := by
    simp only [List.forall_mem_append, List.forall_mem_cons]
    exact ⟨hdate.forall_mem hdigit (by decide), by decide,
      htime.forall_mem hdigit (by decide) (by decide), hoffset.isBlank_eq_false⟩
  obtain ⟨form, hsigned, hform⟩ := hoffset.exists_isSigned (date ++ 'T' :: time)
  have htext : date ++ 'T' :: (time ++ offset) = date ++ 'T' :: time ++ offset := by simp
  have hread := readTime?_append htime hsigned
  rw [ofText?, hs, strip_eq_self hblank, htext, hform, List.append_assoc, read?_append hdate]
  cases htail : time ++ form with
  | nil =>
    rw [htail] at hread
    cases hread
  | cons c rest =>
    rw [htail] at hread
    simp only [List.cons_append, htail, hread, Option.map_some]

end Moment

/-! ## Every moment has a form -/

/-- The text of a date is its form. -/
theorem Date.isIso_iso (d : Date) : d.IsIso d.iso := by
  obtain ⟨⟨-, hyear⟩, -, hday⟩ := d.valid
  have hmonth := d.month_spec.2.1
  have hlength := monthLength_le d.year d.month
  exact .parts (spells_paddedDigits (by omega) (by decide))
    (spells_paddedDigits (by omega) (by decide)) (spells_paddedDigits (by omega) (by decide))

/-- The text of a time of day is a form of it. -/
theorem TimeOfDay.isIso_iso (t : TimeOfDay) : t.IsIso t.iso := by
  obtain ⟨hhour, hminute, hsecond, hmicro⟩ := t.parts_lt
  have hhour := @spells_paddedDigits 2 t.hour (by omega) (by decide)
  have hminute := @spells_paddedDigits 2 t.minute (by omega) (by decide)
  have hsecond := @spells_paddedDigits 2 t.second (by omega) (by decide)
  rw [iso]
  split
  · rename_i hwhole
    rw [List.append_nil]
    exact .whole hhour hminute hsecond hwhole
  · exact .fraction hhour hminute hsecond (spells_paddedDigits (by omega) (by decide))

/-- The text of a distance in whole minutes is a form of it. -/
theorem UtcOffset.isIso_iso {o : UtcOffset} (h : 60000000 ∣ o.micros) : o.IsIso o.iso := by
  have hlt := o.lt
  unfold microsPerDay at hlt
  have hsecond : o.micros.natAbs / 1000000 % 60 = 0 := by omega
  have hfraction : o.micros.natAbs % 1000000 = 0 := by omega
  have hmicros : o.micros = (if decide (o.micros < 0) = true then -1 else 1) *
      (((o.micros.natAbs / 3600000000 : Nat) * 60 + (o.micros.natAbs / 60000000 % 60 : Nat)) *
        60000000) := by
    simp only [decide_eq_true_eq]
    split
    · omega
    · omega
  have hform := IsSigned.parts hmicros (Nat.mod_lt _ (by decide))
    (spells_paddedDigits (by omega) (by decide)) (spells_paddedDigits (by omega) (by decide))
  simp only [iso, hsecond, hfraction, and_self, if_true, List.append_nil]
  simpa using IsIso.withSign hform

/-- The text of a moment with a `T` in it is a form of it, if its distance from UTC is known and
in whole minutes. -/
theorem Moment.isIso_iso {m : Moment} {o : UtcOffset} (ho : m.offset = some o)
    (h : 60000000 ∣ o.micros) : m.IsIso (m.iso 'T') := by
  obtain ⟨d, t, offset⟩ := m
  cases ho
  exact .parts d.isIso_iso t.isIso_iso (UtcOffset.isIso_iso h)

end Loyalty
