import Loyalty.Text.CharClass
import Mathlib.Tactic.Ring

/-!
# Digits written and read

The decimal digits of a natural are taken off a text whole, up to the first
character that is no digit, and spell that natural again.
-/

namespace Loyalty

/-- The value of a character as a decimal digit. -/
def digitValue (c : Char) : Nat := c.toNat - 48

/-- The values of some digits. -/
def digitValues (cs : List Char) : List Nat := cs.map digitValue

/-- Digits put together have their values put together. -/
theorem digitValues_append (cs ds : List Char) :
    digitValues (cs ++ ds) = digitValues cs ++ digitValues ds := List.map_append

/-- Every digit has one value. -/
theorem length_digitValues (cs : List Char) : (digitValues cs).length = cs.length :=
  List.length_map _

/-- Zeros have the value of zero. -/
theorem digitValues_zeros (k : Nat) :
    digitValues (List.replicate k '0') = List.replicate k 0 := List.map_replicate

/-- Zeros are digits. -/
theorem isDigit_of_mem_zeros {k : Nat} {c : Char} (hc : c ∈ List.replicate k '0') :
    c.isDigit = true := by
  rw [List.eq_of_mem_replicate hc]
  rfl

/-- A text that begins with no digit. -/
def NoDigitFirst (cs : List Char) : Prop := ∀ c, cs.head? = some c → c.isDigit = false

/-- A character that is no digit comes first. -/
theorem noDigitFirst_cons {c : Char} (hc : c.isDigit = false) (cs : List Char) :
    NoDigitFirst (c :: cs) := by
  intro d hd
  cases hd
  exact hc

/-- An ASCII digit has its value. -/
theorem asciiDigit?_of_isDigit {c : Char} (hc : c.isDigit = true) :
    asciiDigit? c = some (digitValue c) := by
  simp only [Char.isDigit, Bool.and_eq_true, decide_eq_true_eq] at hc
  exact if_pos hc

/-- No other character has one. -/
theorem asciiDigit?_of_not_isDigit {c : Char} (hc : c.isDigit = false) :
    asciiDigit? c = none := by
  refine if_neg ?_
  rintro ⟨hlow, hhigh⟩
  simp only [Char.isDigit, Bool.and_eq_false_iff, decide_eq_false_iff_not] at hc
  rcases hc with hc | hc
  · exact hc hlow
  · exact hc hhigh

/-- What a reading takes for digits is taken off up to the first character that is none. -/
theorem takeDigits_append_of {digit? : Char → Option Nat} {ds rest : List Char}
    {values : List Nat} (hds : ds.map digit? = values.map some)
    (hrest : ∀ c, rest.head? = some c → digit? c = none) :
    takeDigits digit? (ds ++ rest) = (values, rest) := by
  induction ds generalizing values with
  | nil =>
    rw [List.map_nil, eq_comm, List.map_eq_nil_iff] at hds
    subst hds
    cases rest with
    | nil => rfl
    | cons c cs =>
      have hc := hrest c rfl
      simp only [List.nil_append, takeDigits, hc]
  | cons d ds ih =>
    cases values with
    | nil => cases hds
    | cons value values =>
      obtain ⟨hd, htail⟩ := List.cons.inj hds
      simp only [List.cons_append, takeDigits, hd, ih htail]

/-- What is taken off a text are digits, and what follows them does not begin with one. -/
theorem exists_of_takeDigits {digit? : Char → Option Nat} {cs rest : List Char}
    {values : List Nat} (h : takeDigits digit? cs = (values, rest)) :
    ∃ ds, cs = ds ++ rest ∧ ds.map digit? = values.map some ∧
      ∀ c, rest.head? = some c → digit? c = none := by
  induction cs generalizing values with
  | nil =>
    cases h
    exact ⟨[], rfl, rfl, fun c hc => by cases hc⟩
  | cons c cs ih =>
    rw [takeDigits] at h
    split at h
    · rename_i d hd
      obtain ⟨hvalues, hrest⟩ := Prod.mk.inj h
      obtain ⟨ds, hcs, hds, hend⟩ := ih (Prod.ext rfl hrest)
      refine ⟨c :: ds, by rw [hcs, List.cons_append], ?_, hend⟩
      rw [← hvalues, List.map_cons, List.map_cons, hd, hds]
    · rename_i hnone
      cases h
      refine ⟨[], rfl, rfl, ?_⟩
      intro first hfirst
      cases hfirst
      exact hnone

/-- Digits of ASCII have their values. -/
theorem map_asciiDigit? {ds : List Char} (hds : ∀ c ∈ ds, c.isDigit = true) :
    ds.map asciiDigit? = (digitValues ds).map some := by
  rw [digitValues, List.map_map]
  exact List.map_congr_left fun c hc => asciiDigit?_of_isDigit (hds c hc)

/-- They have the same values among the digits of any script. -/
theorem map_decimalDigit? {ds : List Char} (hds : ∀ c ∈ ds, c.isDigit = true) :
    ds.map decimalDigit? = (digitValues ds).map some := by
  rw [digitValues, List.map_map]
  exact List.map_congr_left fun c hc =>
    decimalDigit?_of_asciiDigit? (asciiDigit?_of_isDigit (hds c hc))

/-- Digits are taken off up to the first character that is none. -/
theorem takeDigits_append {ds rest : List Char} (hds : ∀ c ∈ ds, c.isDigit = true)
    (hrest : NoDigitFirst rest) :
    takeDigits asciiDigit? (ds ++ rest) = (digitValues ds, rest) :=
  takeDigits_append_of (map_asciiDigit? hds) fun c hc => asciiDigit?_of_not_isDigit (hrest c hc)

/-- A text of digits is taken off as a whole where digits of any script are. -/
theorem takeDigits_decimal {ds : List Char} (hds : ∀ c ∈ ds, c.isDigit = true) :
    takeDigits decimalDigit? ds = (digitValues ds, []) := by
  have h := @takeDigits_append_of decimalDigit? ds [] _ (map_decimalDigit? hds)
    (fun c hc => by cases hc)
  rwa [List.append_nil] at h

private theorem foldl_digits (n : Nat) (ds : List Nat) :
    ds.foldl (fun n d => 10 * n + d) n = n * 10 ^ ds.length + ofDigits ds := by
  unfold ofDigits
  induction ds generalizing n with
  | nil => simp
  | cons d ds ih =>
    rw [List.foldl_cons, List.foldl_cons, ih, ih (10 * 0 + d), List.length_cons, Nat.pow_succ]
    ring

/-- Digits in front count for as many places as digits follow them. -/
theorem ofDigits_append (ds es : List Nat) :
    ofDigits (ds ++ es) = ofDigits ds * 10 ^ es.length + ofDigits es := by
  rw [ofDigits, List.foldl_append, foldl_digits]
  rfl

/-- Zeros in front count for nothing. -/
theorem ofDigits_replicate_zero_append (k : Nat) (ds : List Nat) :
    ofDigits (List.replicate k 0 ++ ds) = ofDigits ds := by
  induction k with
  | zero => rfl
  | succ k ih =>
    rw [List.replicate_succ, List.cons_append, ← ih]
    rfl

/-- Zeros at the end multiply by ten. -/
theorem ofDigits_append_replicate_zero (ds : List Nat) (k : Nat) :
    ofDigits (ds ++ List.replicate k 0) = ofDigits ds * 10 ^ k := by
  have hzero := ofDigits_replicate_zero_append k []
  rw [List.append_nil] at hzero
  rw [ofDigits_append, hzero, List.length_replicate]
  rfl

/-- Digits spell a number with no more places than there are digits. -/
theorem ofDigits_lt_pow {ds : List Nat} (hds : ∀ d ∈ ds, d < 10) :
    ofDigits ds < 10 ^ ds.length := by
  induction ds with
  | nil => decide
  | cons d ds ih =>
    obtain ⟨hd, hrest⟩ := List.forall_mem_cons.mp hds
    have hfirst : ofDigits [d] = d := by simp [ofDigits]
    have hsplit : ofDigits (d :: ds) = d * 10 ^ ds.length + ofDigits ds := by
      rw [← hfirst, ← ofDigits_append, hfirst, List.singleton_append]
    have hle : d * 10 ^ ds.length ≤ 9 * 10 ^ ds.length := Nat.mul_le_mul_right _ (by omega)
    have htail := ih hrest
    rw [hsplit, List.length_cons, Nat.pow_succ]
    omega

/-- The digits that are taken off a text are below ten. -/
theorem lt_of_mem_takeDigits {cs : List Char} {d : Nat} (h : d ∈ (takeDigits asciiDigit? cs).1) :
    d < 10 := by
  induction cs with
  | nil => cases h
  | cons c cs ih =>
    rw [takeDigits] at h
    split at h
    · rename_i first hfirst
      rcases List.mem_cons.mp h with rfl | hrest
      · unfold asciiDigit? at hfirst
        split at hfirst
        · rename_i hc
          cases hfirst
          have hnine : c.toNat ≤ 57 := hc.2
          omega
        · cases hfirst
      · exact ih hrest
    · cases h

/-- The digits of a natural spell it. -/
theorem ofDigits_toDigits (n : Nat) : ofDigits (digitValues (Nat.toDigits 10 n)) = n := by
  have hchars := @Nat.ofDigitChars_ten_toDigits n
  rw [Nat.ofDigitChars_eq_foldl] at hchars
  rw [ofDigits, digitValues, List.foldl_map]
  exact hchars

/-- The digits of a natural are digits. -/
theorem isDigit_of_mem_toDigits {n : Nat} {c : Char} (hc : c ∈ Nat.toDigits 10 n) :
    c.isDigit = true :=
  Nat.isDigit_of_mem_toDigits (by decide) (by decide) hc

/-- The digits of a positive natural do not begin with a zero. -/
theorem head?_toDigits_ne_zero {n : Nat} (hn : 0 < n) :
    (Nat.toDigits 10 n).head? ≠ some '0' := by
  induction n using Nat.strongRecOn with
  | ind n ih =>
    rw [Nat.toDigits_eq_if (by decide)]
    split
    · intro hhead
      have hzero : n.digitChar = '0' := Option.some.inj hhead
      rw [Nat.digitChar_eq_zero] at hzero
      omega
    · obtain ⟨c, cs, hcons⟩ := List.exists_cons_of_ne_nil (@Nat.toDigits_ne_nil (n / 10) 10)
      have hhead := ih (n / 10) (by omega) (by omega)
      rw [hcons] at hhead ⊢
      exact hhead

end Loyalty
