import Correlation.Json.Printer
import Correlation.Json.Reader

/-!
# Printed strings and numbers

A printed string or number is read back, wherever it stands.  `run` is the machine without the
places of faults: what it ends with after a text.  Printed texts are followed part by part, each
with whatever stands after it: a part takes the machine on to the rest of the text.

A string and a key are read in the same way but for their end, and `InString` says so.  The end of
a number is only seen by what follows it (`Delimited`).
-/

namespace Correlation

namespace Json

/-! ## Runs -/

/-- What the machine ends with after a text, without the place of a fault. -/
def run (limit : Nat) (r : Reader ε) (text : List Char) : Except (Refusal ε) Json :=
  (steps limit r text).bind finish

@[simp] theorem run_nil (limit : Nat) (r : Reader ε) : run limit r [] = finish r := rfl

theorem run_cons (limit : Nat) (r : Reader ε) (c : Char) (text : List Char) :
    run limit r (c :: text) = (step limit r c).bind fun s => run limit s text := by
  rw [run, steps_cons]
  cases step limit r c <;> rfl

theorem run_cons_of_step {limit : Nat} {r s : Reader ε} {c : Char} (h : step limit r c = .ok s)
    (text : List Char) : run limit r (c :: text) = run limit s text := by
  rw [run_cons, h]
  rfl

/-- A text that the machine reads to its end is read. -/
theorem read_eq_of_run {limit : Nat} {form : Form ε} {text : List Char} {value : Json}
    (h : run limit (.start form) text = .ok value) : read limit form text = .ok value := by
  rw [run] at h
  cases hs : steps limit (.start form) text with
  | error refusal => rw [hs] at h; cases h
  | ok r =>
    rw [hs] at h
    exact read_eq_of_steps hs h

/-- A text that is read, is read by the machine to its end. -/
theorem run_eq_of_scan {limit offset : Nat} {r : Reader ε} {text : List Char} {value : Json}
    (h : scan limit offset r text = .ok value) : run limit r text = .ok value := by
  induction text generalizing r offset with
  | nil =>
    rw [scan] at h
    cases hfinish : finish r with
    | error refusal => rw [hfinish] at h; cases h
    | ok found =>
      rw [hfinish] at h
      cases h
      rw [run_nil, hfinish]
  | cons c text ih =>
    rw [scan] at h
    cases hstep : step limit r c with
    | error refusal => rw [hstep] at h; cases h
    | ok next =>
      rw [hstep] at h
      rw [run_cons_of_step hstep]
      exact ih h

/-! ## Blanks -/

/-- Whether the machine stands between two parts of a text. -/
def Reading.isBetween : Reading ε → Bool
  | .value _ | .firstItem _ | .nextItem _ _ | .firstKey _ | .nextKey _ _ | .colon _ _ _
  | .after _ => true
  | .key _ _ _ | .string _ _ | .numeral _ _ | .word _ _ _ _ => false

/-- White space between tokens is skipped. -/
theorem step_of_isSpace {limit : Nat} {stack : List (Container ε)} {reading : Reading ε} {c : Char}
    (h : reading.isBetween = true) (hc : isSpace c = true) :
    step limit ⟨stack, reading⟩ c = .ok ⟨stack, reading⟩ := by
  cases reading <;> simp_all [Reading.isBetween, step, afterValue]

/-- Blanks between two parts make no difference. -/
theorem run_blanks {limit : Nat} {stack : List (Container ε)} {reading : Reading ε}
    (h : reading.isBetween = true) {blanks : List Char} (hb : ∀ c ∈ blanks, isSpace c = true)
    (text : List Char) :
    run limit ⟨stack, reading⟩ (blanks ++ text) = run limit ⟨stack, reading⟩ text := by
  induction blanks with
  | nil => rfl
  | cons c blanks ih =>
    rw [List.cons_append, run_cons_of_step (step_of_isSpace h (hb c List.mem_cons_self))]
    exact ih fun d hd => hb d (List.mem_cons_of_mem c hd)

/-! ## Complete values -/

/-- A form asks for a value and has nothing against it. -/
structure Form.Accepts (form : Form ε) (value : Json) : Prop where
  isSkipped : form.isSkipped = false
  objection? : form.objection? value = none

/-- A value that the form accepts is settled as it is. -/
theorem settle_of_accepts {form : Form ε} {value : Json} (h : form.Accepts value) :
    settle form value = .ok value := by
  obtain ⟨hkept, hfit⟩ := h
  cases form with
  | skipped => cases hkept
  | judged shape judge => simp [settle, heed, hfit, Form.kept]

theorem complete_of_accepts {form : Form ε} {value : Json} (h : form.Accepts value)
    (stack : List (Container ε)) : complete stack form value = .ok ⟨stack, .after value⟩ := by
  rw [complete, settle_of_accepts h]
  rfl

/-! ## Strings -/

/-- The machine is inside a string.  Each character goes into the part that is kept, and the closing
quote makes a text of it. -/
def InString (limit : Nat) (stack : List (Container ε)) (reading : StringPart → Reading ε)
    (done : String → Except (Refusal ε) (Reader ε)) : Prop :=
  ∀ part c, step limit ⟨stack, reading part⟩ c = (part.push? true c).bind fun
    | some part => .ok ⟨stack, reading part⟩
    | none => done part.text

/-- A text is taken in character by character, up to its end. -/
theorem inString_string {limit : Nat} {stack : List (Container ε)} {form : Form ε}
    (h : form.isSkipped = false) :
    InString limit stack (.string form) fun text => complete stack form (.string text) := by
  intro part c
  rw [step, h]
  rfl

theorem inString_key {limit : Nat} {stack : List (Container ε)} {form : Form ε}
    {fields : List (String × Json)} (h : form.isSkipped = false) :
    InString limit stack (.key form fields) (endKey stack form fields) := by
  intro part c
  rw [step, h]
  rfl

/-- The digits of a numbered escape. -/
theorem hexNumber?_numberedEscape {n : Nat} (h : n < 0x20) :
    hexNumber? ['0', '0', Nat.digitChar (n / 16), Nat.digitChar (n % 16)] = some n := by
  have all : ∀ n < 0x20,
      hexNumber? ['0', '0', Nat.digitChar (n / 16), Nat.digitChar (n % 16)] = some n := by
    decide
  exact all n h

theorem utf8Size_digitChar {n : Nat} (h : n < 16) : (Nat.digitChar n).utf8Size = 1 := by
  have all : ∀ n < 16, (Nat.digitChar n).utf8Size = 1 := by decide
  exact all n h

namespace InString

variable {limit : Nat} {stack : List (Container ε)} {reading : StringPart → Reading ε}
  {done : String → Except (Refusal ε) (Reader ε)}

/-- A character that is written by its number is read back. -/
theorem run_numberedEscape (h : InString limit stack reading done) {c : Char}
    (hc : c.toNat < 0x20) (taken text : List Char) :
    run limit ⟨stack, reading ⟨taken, .plain⟩⟩ (numberedEscape c ++ text)
      = run limit ⟨stack, reading ⟨c :: taken, .plain⟩⟩ text := by
  have hhex := hexNumber?_numberedEscape hc
  have hhigh : (Nat.digitChar (c.toNat / 16)).utf8Size = 1 := utf8Size_digitChar (by omega)
  have hlow : (Nat.digitChar (c.toNat % 16)).utf8Size = 1 := utf8Size_digitChar (by omega)
  have hzero : ('0').utf8Size = 1 := rfl
  have hhalves : isLowHalf c.toNat = false ∧ isHighHalf c.toNat = false := by
    simp only [isLowHalf, isHighHalf, Bool.and_eq_false_iff, decide_eq_false_iff_not]
    omega
  simp [numberedEscape, run_cons, h _ _, StringPart.push?, StringPart.number, Except.bind,
    Except.map, hhex, hhigh, hlow, hzero, hhalves]

/-- A character of a printed string is read back. -/
theorem run_escaped (h : InString limit stack reading done) (c : Char) (taken text : List Char) :
    run limit ⟨stack, reading ⟨taken, .plain⟩⟩ (escaped c ++ text)
      = run limit ⟨stack, reading ⟨c :: taken, .plain⟩⟩ text := by
  rw [escaped.eq_def]
  split
  case h_8 hq hb _ _ _ _ _ =>
    split
    case isTrue hc => exact h.run_numberedEscape hc taken text
    case isFalse hc =>
      have hquote : c ≠ '"' := hq
      have hbackslash : c ≠ '\\' := hb
      simp [run_cons, h _ _, StringPart.push?, Except.bind, hquote, hbackslash, hc]
  all_goals simp [run_cons, h _ _, StringPart.push?, simpleEscape?, Except.bind]

/-- A printed string is read back up to its end. -/
theorem run_quoted (h : InString limit stack reading done) (text : String) (rest : List Char) :
    run limit ⟨stack, reading .start⟩ (text.toList.flatMap escaped ++ '"' :: rest)
      = (done text).bind fun r => run limit r rest := by
  have go : ∀ chars taken : List Char,
      run limit ⟨stack, reading ⟨taken, .plain⟩⟩ (chars.flatMap escaped ++ '"' :: rest)
        = (done (String.ofList (taken.reverse ++ chars))).bind fun r => run limit r rest := by
    intro chars
    induction chars with
    | nil =>
      intro taken
      simp [run_cons, h _ _, StringPart.push?, StringPart.text, Except.bind]
    | cons c chars ih =>
      intro taken
      rw [List.flatMap_cons, List.append_assoc, h.run_escaped, ih]
      simp
  simpa [StringPart.start] using go text.toList []

end InString

/-! ## Numbers -/

/-- Whether a character can not be a part of a number. -/
def endsNumber (c : Char) : Bool := isSpace c || decide (c ∈ [',', ']', '}'])

/-- A text that does not go on with a number. -/
def Delimited (text : List Char) : Prop := ∀ c ∈ text.head?, endsNumber c = true

theorem delimited_nil : Delimited [] := by simp [Delimited]

theorem delimited_cons {c : Char} (h : endsNumber c = true) (text : List Char) :
    Delimited (c :: text) := by simpa [Delimited] using h

theorem ne_of_endsNumber {c : Char} (h : endsNumber c = true) :
    c.isDigit = false ∧ c ≠ '.' ∧ c ≠ 'e' ∧ c ≠ 'E' := by
  simp only [endsNumber, isSpace, Bool.or_eq_true, decide_eq_true_eq, List.mem_cons,
    List.not_mem_nil, or_false] at h
  rcases h with (((rfl | rfl) | rfl) | rfl) | rfl | rfl | rfl <;> decide

/-- Digits go into a number that has begun. -/
theorem run_digits {limit : Nat} {stack : List (Container ε)} {form : Form ε} {part : Numeral}
    (h : part.phase = .whole) {digits : List Char} (hd : ∀ c ∈ digits, c.isDigit = true)
    (text : List Char) :
    run limit ⟨stack, .numeral form part⟩ (digits ++ text)
      = run limit ⟨stack, .numeral form { part with whole := digits.reverse ++ part.whole }⟩
          text := by
  induction digits generalizing part with
  | nil => rfl
  | cons c digits ih =>
    have hstep : step limit ⟨stack, .numeral form part⟩ c
        = .ok ⟨stack, .numeral form { part with whole := c :: part.whole }⟩ := by
      simp [step, Numeral.push?, h, hd c List.mem_cons_self]
    have hphase : ({ part with whole := c :: part.whole } : Numeral).phase = .whole := h
    rw [List.cons_append, run_cons_of_step hstep,
      ih hphase fun d hd' => hd d (List.mem_cons_of_mem c hd')]
    simp

/-- A complete number without fraction and exponent ends before what is no part of it. -/
theorem run_numeral {limit : Nat} {stack : List (Container ε)} {form : Form ε} {part : Numeral}
    (hphase : part.phase = .zero ∨ part.phase = .whole) {text : List Char} (ht : Delimited text) :
    run limit ⟨stack, .numeral form part⟩ text
      = (settleNumeral form part).bind fun value => run limit ⟨stack, .after value⟩ text := by
  cases text with
  | nil =>
    have hcomplete : part.isComplete = true := by
      rcases hphase with h | h <;> simp [Numeral.isComplete, h]
    simp [finish, hcomplete]
  | cons c text =>
    obtain ⟨hdigit, hpoint, he, hE⟩ := ne_of_endsNumber (ht c rfl)
    have hend : part.push? (!form.isSkipped) c = .ok none := by
      rcases hphase with h | h <;> simp [Numeral.push?, Numeral.extend?, h, hdigit, hpoint, he, hE]
    simp only [run_cons, step, hend]
    cases settleNumeral form part <;> rfl

/-- Only zero begins with a zero. -/
theorem head?_toDigits_ne {n : Nat} (h : n ≠ 0) : (Nat.toDigits 10 n).head? ≠ some '0' := by
  induction n using Nat.strongRecOn with
  | ind n ih =>
    rcases Nat.lt_or_ge n 10 with hn | hn
    · rw [Nat.toDigits_of_lt_base hn]
      have all : ∀ n < 10, n ≠ 0 → [Nat.digitChar n].head? ≠ some '0' := by decide
      exact all n hn h
    · have hrest : (Nat.toDigits 10 (n / 10)).head? ≠ some '0' := ih (n / 10) (by omega) (by omega)
      cases hd : Nat.toDigits 10 (n / 10) with
      | nil => exact absurd hd Nat.toDigits_ne_nil
      | cons c digits =>
        rw [hd] at hrest
        rw [Nat.toDigits_of_base_le (by omega) hn, hd]
        simpa using hrest

end Json

/-- The number with these digits and nothing else. -/
def Numeral.ofDigits (negative : Bool) (digits : List Char) : Numeral :=
  ⟨if digits = ['0'] then .zero else .whole, negative, digits.reverse, [], false, [], false⟩

namespace Json

/-- The digits of a natural number are read back. -/
theorem run_toDigits {limit : Nat} {stack : List (Container ε)} {form : Form ε}
    {reading : Reading ε} {negative : Bool}
    (hstart : ∀ c : Char, c.isDigit = true →
      step limit ⟨stack, reading⟩ c = .ok ⟨stack, .numeral form (.ofDigit negative c)⟩)
    (n : Nat) (text : List Char) :
    run limit ⟨stack, reading⟩ (Nat.toDigits 10 n ++ text)
      = run limit ⟨stack, .numeral form (.ofDigits negative (Nat.toDigits 10 n))⟩ text := by
  have hdigits : ∀ c ∈ Nat.toDigits 10 n, c.isDigit = true := fun c hc =>
    Nat.isDigit_of_mem_toDigits (by decide) (by decide) hc
  cases hd : Nat.toDigits 10 n with
  | nil => exact absurd hd Nat.toDigits_ne_nil
  | cons c digits =>
    rw [hd] at hdigits
    rw [List.cons_append, run_cons_of_step (hstart c (hdigits c List.mem_cons_self))]
    by_cases hn : n = 0
    · rw [hn, Nat.toDigits_zero] at hd
      cases hd
      rfl
    · have hc : c ≠ '0' := fun hc => head?_toDigits_ne hn (by rw [hd, hc]; rfl)
      have hphase : (Numeral.ofDigit negative c).phase = .whole := by simp [Numeral.ofDigit, hc]
      rw [run_digits hphase fun d hd' => hdigits d (List.mem_cons_of_mem c hd')]
      simp [Numeral.ofDigit, Numeral.ofDigits, hc]

/-- The values of numbers without fraction and exponent: what a signed or an unsigned word holds. -/
def IsWord (n : Int) : Prop := -9223372036854775808 ≤ n ∧ n < 18446744073709551616

/-- The digits of an integer have its value. -/
theorem value_ofDigits_natAbs {n : Int} (h : IsWord n) :
    (Numeral.ofDigits (decide (n < 0)) (Nat.toDigits 10 n.natAbs)).value = .ok (.integer n) := by
  obtain ⟨hlow, hhigh⟩ := h
  have hwhole : Nat.ofDigitChars 10 (Nat.toDigits 10 n.natAbs).reverse.reverse 0 = n.natAbs := by
    rw [List.reverse_reverse, Nat.ofDigitChars_ten_toDigits]
  simp only [Numeral.value, Numeral.ofDigits, hwhole]
  rcases Int.lt_or_le n 0 with hn | hn
  · have hne : n.natAbs ≠ 0 := by omega
    have hle : n.natAbs ≤ Nat.pow 2 63 := by show n.natAbs ≤ 9223372036854775808; omega
    have habs : -(n.natAbs : Int) = n := by omega
    rw [habs]
    simp [hn, hne, hle]
  · have hlt : n.natAbs < Numeral.wordBound := by show n.natAbs < 18446744073709551616; omega
    have habs : (n.natAbs : Int) = n := by omega
    rw [habs]
    simp [Int.not_lt.mpr hn, hlt]

theorem ne_of_isDigit {c : Char} (h : c.isDigit = true) :
    isSpace c = false ∧ c ≠ '"' ∧ c ≠ '{' ∧ c ≠ '[' ∧ c ≠ '-' := by
  refine ⟨?_, ?_, ?_, ?_, ?_⟩
  · cases hc : isSpace c with
    | false => rfl
    | true => simp_all [(ne_of_endsNumber (c := c) (by simp [endsNumber, hc])).1]
  all_goals
    rintro rfl
    simp at h

/-- A printed integer is a complete number, if what follows does not go on with it. -/
theorem run_integerChars {limit : Nat} {stack : List (Container ε)} {form : Form ε} {n : Int}
    (hn : IsWord n) (hname : form.isName = false) (hkept : form.isSkipped = false)
    {text : List Char} (ht : Delimited text) :
    run limit ⟨stack, .value form⟩ (integerChars n ++ text)
      = (settle form (.integer n)).bind fun value => run limit ⟨stack, .after value⟩ text := by
  have hphase : ∀ negative digits, (Numeral.ofDigits negative digits).phase = .zero
      ∨ (Numeral.ofDigits negative digits).phase = .whole := fun negative digits => by
    by_cases hd : digits = ['0'] <;> simp [Numeral.ofDigits, hd]
  have hsettle : settleNumeral form (.ofDigits (decide (n < 0)) (Nat.toDigits 10 n.natAbs))
      = settle form (.integer n) := by
    rw [settleNumeral, hkept, value_ofDigits_natAbs hn]
    rfl
  rw [← hsettle]
  rcases Int.lt_or_le n 0 with hneg | hpos
  · have hminus : step limit ⟨stack, .value form⟩ '-' = .ok ⟨stack, .numeral form .minus⟩ := by
      simp [step, startValue, isSpace, hname]
    have hdigit : ∀ c : Char, c.isDigit = true →
        step limit ⟨stack, .numeral form .minus⟩ c
          = .ok ⟨stack, .numeral form (.ofDigit true c)⟩ := fun c hc => by
      simp [step, Numeral.push?, Numeral.minus, hc]
    rw [integerChars, if_pos hneg, List.cons_append, run_cons_of_step hminus, run_toDigits hdigit,
      decide_eq_true hneg]
    exact run_numeral (hphase _ _) ht
  · have hdigit : ∀ c : Char, c.isDigit = true →
        step limit ⟨stack, .value form⟩ c
          = .ok ⟨stack, .numeral form (.ofDigit false c)⟩ := fun c hc => by
      obtain ⟨hspace, hquote, hbrace, hbracket, hminus⟩ := ne_of_isDigit hc
      simp [step, startValue, hname, hc, hspace, hquote, hbrace, hbracket, hminus]
    rw [integerChars, if_neg (Int.not_lt.mpr hpos), run_toDigits hdigit,
      decide_eq_false (Int.not_lt.mpr hpos)]
    exact run_numeral (hphase _ _) ht

/-- The text of an integer begins with its sign or a digit. -/
theorem exists_integerChars_eq_cons (n : Int) :
    ∃ c rest, integerChars n = c :: rest ∧ (c = '-' ∨ c.isDigit = true) := by
  rw [integerChars]
  split
  case isTrue => exact ⟨_, _, rfl, .inl rfl⟩
  case isFalse =>
    cases hd : Nat.toDigits 10 n.natAbs with
    | nil => exact absurd hd Nat.toDigits_ne_nil
    | cons c rest =>
      have hc : c ∈ Nat.toDigits 10 n.natAbs := by rw [hd]; exact List.mem_cons_self
      exact ⟨c, rest, rfl, .inr (Nat.isDigit_of_mem_toDigits (by decide) (by decide) hc)⟩

end Json

end Correlation
