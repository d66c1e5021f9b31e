import Correlation.Path.Grammar

/-!
# Spellings of paths

`SpelledBy` is the grammar of paths as a relation: a text spells a name, an index, a segment,
several segments with points between them, or a location.  The machine reads a text exactly if the
text spells something, and then it yields what is spelled (`Path.parse_eq_ok_iff`).

The grammar leaves two things open that the machine decides.  It says nothing of how long a word is.
But after a word comes a bracket, a point or the end, and none of them can stand in a word.  And a
text that begins with the word for global locations and a point spells a local location too, whose
first segment is that word.  It is read as global, and both spell or neither does.

* What is spelled is read.  After the text of a name, an index or a segment the machine is where it
  should be (`Scanner.Names`, `Scanner.Ends`), whatever it has read before.
* What is read is spelled.  The machine knows the text of the segment at hand (`Reading.Holds`).
  Each character goes on with it or, if it is a point, ends it (`holds_of_moves`).
-/

namespace Correlation

/-! ## The grammar -/

/-- A text spells a name: a word, or an expression between parentheses, which is trimmed. -/
inductive SegmentName.SpelledBy : SegmentName → List Char → Prop where
  | word {text : List Char} (hne : text ≠ []) (hword : ∀ c ∈ text, isWordChar c = true) :
    SpelledBy (.literal (String.ofList text)) text
  | expression {text : List Char} (hne : text ≠ []) (hclose : ')' ∉ text) :
    SpelledBy (.dynamic (String.ofList (trim text))) ('(' :: text ++ [')'])

/-- A text spells an index.  What is left of the text between the brackets is a position if it
consists of digits, and an expression otherwise.  A missing index is zero. -/
inductive SegmentIndex.SpelledBy : SegmentIndex → List Char → Prop where
  | absent : SpelledBy (.literal 0) []
  | position {text : List Char} (hclose : ']' ∉ text) (hne : trim text ≠ [])
      (hdigits : ∀ c ∈ trim text, c.isDigit = true)
      (hsize : Nat.ofDigitChars 10 (trim text) 0 < UInt32.size) :
    SpelledBy (.literal (UInt32.ofNat (Nat.ofDigitChars 10 (trim text) 0)))
      ('[' :: text ++ [']'])
  | expression {text : List Char} (hclose : ']' ∉ text)
      (hdigits : ∃ c ∈ trim text, c.isDigit = false) :
    SpelledBy (.dynamic (String.ofList (trim text))) ('[' :: text ++ [']'])

/-- A text spells a segment: its name, and its index right after it. -/
inductive Segment.SpelledBy : Segment → List Char → Prop where
  | mk {name : SegmentName} {index : SegmentIndex} {nameText indexText : List Char}
      (hname : name.SpelledBy nameText) (hindex : index.SpelledBy indexText) :
    SpelledBy ⟨name, index⟩ (nameText ++ indexText)

/-- A text spells one or more segments, with points between them. -/
inductive Segment.AllSpelledBy : List Segment → List Char → Prop where
  | single {s : Segment} {text : List Char} (h : s.SpelledBy text) : AllSpelledBy [s] text
  | cons {s : Segment} {rest : List Segment} {text more : List Char} (h : s.SpelledBy text)
      (hrest : AllSpelledBy rest more) : AllSpelledBy (s :: rest) (text ++ '.' :: more)

/-- A text spells a location: its segments, after the word for global locations and a point if the
location is global. -/
inductive Location.SpelledBy : Location → List Char → Prop where
  | plain {segments : List Segment} {text : List Char} (h : Segment.AllSpelledBy segments text) :
    SpelledBy ⟨false, segments⟩ text
  | global {segments : List Segment} {text : List Char} (h : Segment.AllSpelledBy segments text) :
    SpelledBy ⟨true, segments⟩ (globalWord.toList ++ '.' :: text)

/-! ## Indices -/

/-- What stands between brackets is read as the index that it spells. -/
theorem spelledBy_of_readIndex {text : List Char} (hclose : ']' ∉ text) {index : SegmentIndex}
    (h : readIndex text = .ok index) : index.SpelledBy ('[' :: text ++ [']']) := by
  simp only [readIndex] at h
  split at h
  case isTrue => cases h
  case isFalse =>
    split at h
    case isTrue hdigits =>
      split at h
      case isTrue => cases h
      case isFalse hne =>
        split at h
        case isTrue hsize =>
          cases h
          exact .position hclose (by simpa using hne) (List.all_eq_true.mp hdigits) hsize
        case isFalse => cases h
    case isFalse hdigits =>
      cases h
      exact .expression hclose (by simpa using hdigits)

theorem ne_nil_of_trim_ne_nil {text : List Char} (h : trim text ≠ []) : text ≠ [] := by
  rintro rfl
  exact h rfl

/-- An index is not spelled at all, or by what stands between brackets. -/
theorem SegmentIndex.SpelledBy.cases_readIndex {index : SegmentIndex} {text : List Char}
    (h : index.SpelledBy text) :
    index = .literal 0 ∧ text = []
      ∨ ∃ inner, text = '[' :: inner ++ [']'] ∧ ']' ∉ inner ∧ readIndex inner = .ok index := by
  cases h with
  | absent => exact .inl ⟨rfl, rfl⟩
  | @position inner hclose hne hdigits hsize =>
    have hall : (trim inner).all Char.isDigit = true := List.all_eq_true.mpr hdigits
    exact .inr ⟨inner, rfl, hclose, by
      simp [readIndex, ne_nil_of_trim_ne_nil hne, hall, hne, hsize]⟩
  | @expression inner hclose hdigits =>
    obtain ⟨c, hc, hdigit⟩ := hdigits
    have hne : inner ≠ [] := ne_nil_of_trim_ne_nil (List.ne_nil_of_mem hc)
    have hall : (trim inner).all Char.isDigit = false :=
      List.all_eq_false.mpr ⟨c, hc, by simp [hdigit]⟩
    exact .inr ⟨inner, rfl, hclose, by simp [readIndex, hne, hall]⟩

namespace Path

/-! ## What is spelled is read -/

/-- A text is scanned part by part. -/
theorem steps_append (t : Scanner) (left right : List Char) :
    steps t (left ++ right) = (steps t left).bind fun u => steps u right := by
  simp only [steps, List.foldlM_append]
  rfl

theorem steps_cons_of_step {t u : Scanner} {c : Char} (h : step t c = .ok u) (text : List Char) :
    steps t (c :: text) = steps u text := by
  rw [steps_cons, h]
  rfl

/-- The machine has read a name, and waits for an index or a point. -/
structure Scanner.Names (t : Scanner) (done : List Segment) (name : SegmentName) : Prop where
  finish : finish t = .ok (⟨name, .literal 0⟩ :: done)
  step : ∀ c, isWordChar c = false → step t c = afterName done name c

/-- The machine has read some segments, and waits for a point. -/
structure Scanner.Ends (t : Scanner) (segments : List Segment) : Prop where
  finish : finish t = .ok segments
  point : step t '.' = .ok ⟨segments, .next⟩

/-- The marks of a path stand in no word. -/
theorem isWordChar_of_mem_marks {c : Char} (h : c ∈ ['(', ')', '[', ']', '.']) :
    isWordChar c = false := by
  have all : ['(', ')', '[', ']', '.'].all (fun c => !isWordChar c) = true := by decide
  simpa using List.all_eq_true.mp all c h

theorem Scanner.Names.ends {t : Scanner} {done : List Segment} {name : SegmentName}
    (h : t.Names done name) : t.Ends (⟨name, .literal 0⟩ :: done) where
  finish := h.finish
  point := h.step '.' (isWordChar_of_mem_marks (by simp))

/-- Characters that are all taken one by one are taken together. -/
theorem steps_taken {done : List Segment} {reading : List Char → Reading} {text : List Char}
    (h : ∀ taken, ∀ c ∈ text, step ⟨done, reading taken⟩ c = .ok ⟨done, reading (c :: taken)⟩)
    (taken : List Char) :
    steps ⟨done, reading taken⟩ text = .ok ⟨done, reading (text.reverse ++ taken)⟩ := by
  induction text generalizing taken with
  | nil => rfl
  | cons c rest ih =>
    rw [steps_cons_of_step (h taken c List.mem_cons_self),
      ih fun taken d hd => h taken d (List.mem_cons_of_mem c hd)]
    simp

/-- The characters of a word are taken in one after the other. -/
theorem steps_word {done : List Segment} {text : List Char}
    (h : ∀ c ∈ text, isWordChar c = true) (taken : List Char) :
    steps ⟨done, .word taken⟩ text = .ok ⟨done, .word (text.reverse ++ taken)⟩ :=
  steps_taken (fun _ c hc => by simp [step, h c hc]) taken

theorem steps_dynamic {done : List Segment} {text : List Char} (h : ')' ∉ text)
    (taken : List Char) :
    steps ⟨done, .dynamic taken⟩ text = .ok ⟨done, .dynamic (text.reverse ++ taken)⟩ := by
  refine steps_taken (fun _ c hc => ?_) taken
  have hne : c ≠ ')' := fun heq => h (heq ▸ hc)
  simp [step, hne]

theorem steps_index {done : List Segment} {name : SegmentName} {text : List Char} (h : ']' ∉ text)
    (taken : List Char) :
    steps ⟨done, .index name taken⟩ text = .ok ⟨done, .index name (text.reverse ++ taken)⟩ := by
  refine steps_taken (fun _ c hc => ?_) taken
  have hne : c ≠ ']' := fun heq => h (heq ▸ hc)
  simp [step, hne]

/-- The end of an index. -/
theorem step_closeIndex (done : List Segment) (name : SegmentName) {taken : List Char}
    {index : SegmentIndex} (h : readIndex taken.reverse = .ok index) :
    step ⟨done, .index name taken⟩ ']' = .ok ⟨done, .closed ⟨name, index⟩⟩ := by
  rw [step, if_pos rfl, indexOf, h]
  rfl

/-- The start of a segment: the start of a path, or a point. -/
def Reading.isStart : Reading → Bool
  | .first | .next => true
  | _ => false

theorem step_parenthesis (done : List Segment) {reading : Reading}
    (hstart : reading.isStart = true) :
    step ⟨done, reading⟩ '(' = .ok ⟨done, .dynamic []⟩ := by
  cases reading <;> simp_all [Reading.isStart, step, open?]

theorem step_wordChar (done : List Segment) {reading : Reading} (hstart : reading.isStart = true)
    {c : Char} (hc : isWordChar c = true) :
    step ⟨done, reading⟩ c = .ok ⟨done, .word [c]⟩ := by
  have hparen : c ≠ '(' := by
    rintro rfl
    rw [isWordChar_of_mem_marks (by simp)] at hc
    cases hc
  cases reading <;> simp_all [Reading.isStart, step, open?]

/-- A name is read from a text that spells it. -/
theorem steps_name {name : SegmentName} {text : List Char} (h : name.SpelledBy text)
    (done : List Segment) {reading : Reading} (hstart : reading.isStart = true) :
    ∃ t, steps ⟨done, reading⟩ text = .ok t ∧ t.Names done name := by
  cases h with
  | word hne hword =>
    cases text with
    | nil => exact absurd rfl hne
    | cons c rest =>
      obtain ⟨hc, hrest⟩ := List.forall_mem_cons.mp hword
      have hwordOf : wordOf (rest.reverse ++ [c]) = .literal (String.ofList (c :: rest)) := by
        simp [wordOf]
      refine ⟨⟨done, .word (rest.reverse ++ [c])⟩, ?_, ?_, fun d hd => ?_⟩
      · rw [steps_cons_of_step (step_wordChar done hstart hc), steps_word hrest]
      · rw [finish, hwordOf]
      · simp [step, hd, hwordOf]
  | @expression inner hne hclose =>
    have hstep : step ⟨done, .dynamic (inner.reverse ++ [])⟩ ')'
        = .ok ⟨done, .named (.dynamic (String.ofList (trim inner)))⟩ := by
      simp [step, hne]
    refine ⟨⟨done, .named (.dynamic (String.ofList (trim inner)))⟩, ?_, rfl, fun _ _ => rfl⟩
    rw [List.cons_append, steps_cons_of_step (step_parenthesis done hstart), steps_append,
      steps_dynamic hclose]
    exact steps_cons_of_step hstep []

/-- A segment is read from a text that spells it. -/
theorem steps_segment {s : Segment} {text : List Char} (h : s.SpelledBy text)
    (done : List Segment) {reading : Reading} (hstart : reading.isStart = true) :
    ∃ t, steps ⟨done, reading⟩ text = .ok t ∧ t.Ends (s :: done) := by
  cases h with
  | @mk name index nameText indexText hname hindex =>
    obtain ⟨t, ht, hnames⟩ := steps_name hname done hstart
    rcases hindex.cases_readIndex with ⟨rfl, rfl⟩ | ⟨inner, rfl, hclose, hread⟩
    · exact ⟨t, by rw [List.append_nil, ht], hnames.ends⟩
    · have hopen : step t '[' = .ok ⟨done, .index name []⟩ :=
        hnames.step '[' (isWordChar_of_mem_marks (by simp))
      have hstep : step ⟨done, .index name (inner.reverse ++ [])⟩ ']'
          = .ok ⟨done, .closed ⟨name, index⟩⟩ :=
        step_closeIndex done name (by simpa using hread)
      refine ⟨⟨done, .closed ⟨name, index⟩⟩, ?_, rfl, rfl⟩
      rw [steps_append, ht]
      show steps t ('[' :: (inner ++ [']'])) = _
      rw [steps_cons_of_step hopen, steps_append, steps_index hclose]
      exact steps_cons_of_step hstep []

/-- Segments are read from a text that spells them. -/
theorem steps_segments {segments : List Segment} {text : List Char}
    (h : Segment.AllSpelledBy segments text) (done : List Segment) {reading : Reading}
    (hstart : reading.isStart = true) :
    ∃ t, steps ⟨done, reading⟩ text = .ok t ∧ t.Ends (segments.reverse ++ done) := by
  induction h generalizing done reading with
  | single h => exact steps_segment h done hstart
  | @cons s rest text more h hrest ih =>
    obtain ⟨t, ht, hends⟩ := steps_segment h done hstart
    obtain ⟨u, hu, hu'⟩ := ih (s :: done) (show Reading.next.isStart from rfl)
    refine ⟨u, ?_, by simpa using hu'⟩
    rw [steps_append, ht]
    exact (steps_cons_of_step hends.point more).trans hu

/-! ## What is read is spelled -/

/-- The machine has read a text of the segment at hand. -/
def Reading.Holds : Reading → List Char → Prop
  | .first, text | .next, text => text = []
  | .dynamic taken, text => text = '(' :: taken.reverse ∧ ')' ∉ taken
  | .word taken, text => text = taken.reverse ∧ taken ≠ [] ∧ ∀ c ∈ taken, isWordChar c = true
  | .named name, text => name.SpelledBy text
  | .index name taken, text =>
    ∃ nameText, name.SpelledBy nameText ∧ text = nameText ++ '[' :: taken.reverse ∧ ']' ∉ taken
  | .closed segment, text => segment.SpelledBy text

theorem Reading.holds_first : Reading.first.Holds [] := rfl

theorem Reading.holds_next : Reading.next.Holds [] := rfl

theorem Reading.eq_nil_of_isStart {reading : Reading} (hstart : reading.isStart = true)
    {text : List Char} (h : reading.Holds text) : text = [] := by
  cases reading with
  | first | next => exact h
  | dynamic _ | word _ | named _ | index _ _ | closed _ => cases hstart

theorem spelledBy_wordOf {taken text : List Char} (h : (Reading.word taken).Holds text) :
    (wordOf taken).SpelledBy text := by
  obtain ⟨rfl, hne, hword⟩ := h
  exact .word (by simpa using hne) fun c hc => hword c (List.mem_reverse.mp hc)

theorem spelledBy_of_name {name : SegmentName} {text : List Char} (h : name.SpelledBy text) :
    Segment.SpelledBy ⟨name, .literal 0⟩ text := by
  simpa using Segment.SpelledBy.mk h .absent

/-- An index that is accepted is read as such. -/
theorem readIndex_of_indexOf {taken : List Char} {index : SegmentIndex}
    (h : indexOf taken = .ok index) : readIndex taken.reverse = .ok index := by
  rw [indexOf] at h
  cases hread : readIndex taken.reverse with
  | error fault => rw [hread] at h; cases h
  | ok i => rw [hread] at h; cases h; rfl

/-- The end of a text that is read. -/
theorem exists_of_finish {t : Scanner} {text : List Char} {found : List Segment}
    (h : t.reading.Holds text) (hfinish : finish t = .ok found) :
    ∃ s : Segment, s.SpelledBy text ∧ found = s :: t.done := by
  obtain ⟨done, reading⟩ := t
  cases reading with
  | first | next | dynamic _ => cases hfinish
  | word taken => cases hfinish; exact ⟨_, spelledBy_of_name (spelledBy_wordOf h), rfl⟩
  | named name => cases hfinish; exact ⟨_, spelledBy_of_name h, rfl⟩
  | index name taken =>
    simp only [finish] at hfinish
    cases hindex : indexOf taken with
    | error halt => rw [hindex] at hfinish; cases hfinish
    | ok index => rw [hindex] at hfinish; cases hfinish
  | closed segment => cases hfinish; exact ⟨segment, h, rfl⟩

/-- What the machine does with a character that it takes. -/
inductive Scanner.Moves : Scanner → Char → Scanner → Prop where
  | beginDynamic {done : List Segment} {reading : Reading} (hstart : reading.isStart = true) :
    Moves ⟨done, reading⟩ '(' ⟨done, .dynamic []⟩
  | beginWord {done : List Segment} {reading : Reading} {c : Char}
      (hstart : reading.isStart = true) (hc : isWordChar c = true) :
    Moves ⟨done, reading⟩ c ⟨done, .word [c]⟩
  | dynamic {done : List Segment} {taken : List Char} {c : Char} (hc : c ≠ ')') :
    Moves ⟨done, .dynamic taken⟩ c ⟨done, .dynamic (c :: taken)⟩
  | closeDynamic {done : List Segment} {taken : List Char} (hne : taken ≠ []) :
    Moves ⟨done, .dynamic taken⟩ ')'
      ⟨done, .named (.dynamic (String.ofList (trim taken.reverse)))⟩
  | word {done : List Segment} {taken : List Char} {c : Char} (hc : isWordChar c = true) :
    Moves ⟨done, .word taken⟩ c ⟨done, .word (c :: taken)⟩
  | openAfterWord {done : List Segment} {taken : List Char} :
    Moves ⟨done, .word taken⟩ '[' ⟨done, .index (wordOf taken) []⟩
  | openAfterNamed {done : List Segment} {name : SegmentName} :
    Moves ⟨done, .named name⟩ '[' ⟨done, .index name []⟩
  | index {done : List Segment} {name : SegmentName} {taken : List Char} {c : Char}
      (hc : c ≠ ']') :
    Moves ⟨done, .index name taken⟩ c ⟨done, .index name (c :: taken)⟩
  | closeIndex {done : List Segment} {name : SegmentName} {taken : List Char}
      {index : SegmentIndex} (hread : readIndex taken.reverse = .ok index) :
    Moves ⟨done, .index name taken⟩ ']' ⟨done, .closed ⟨name, index⟩⟩
  /-- A point ends the segment at hand. -/
  | point {t : Scanner} {found : List Segment} (hfinish : finish t = .ok found) :
    Moves t '.' ⟨found, .next⟩

/-- What begins a segment is a move. -/
theorem moves_of_open? {done : List Segment} {reading : Reading} {c : Char} {otherwise : Halt}
    {u : Scanner} (hstart : reading.isStart = true) (h : open? done c otherwise = .ok u) :
    Scanner.Moves ⟨done, reading⟩ c u := by
  rw [open?] at h
  split at h
  case isTrue hc => cases h; exact hc ▸ .beginDynamic hstart
  case isFalse =>
    split at h
    case isTrue hc => cases h; exact .beginWord hstart hc
    case isFalse => cases h

theorem moves_of_afterName {done : List Segment} {reading : Reading} {name : SegmentName}
    {c : Char} {u : Scanner} (hopen : Scanner.Moves ⟨done, reading⟩ '[' ⟨done, .index name []⟩)
    (hfinish : finish ⟨done, reading⟩ = .ok (⟨name, .literal 0⟩ :: done))
    (h : afterName done name c = .ok u) : Scanner.Moves ⟨done, reading⟩ c u := by
  rw [afterName] at h
  split at h
  case isTrue hc => cases h; exact hc ▸ hopen
  case isFalse =>
    split at h
    case isTrue hc => cases h; exact hc ▸ .point hfinish
    case isFalse => cases h

/-- Every step of the scanner is a move. -/
theorem moves_of_step {t u : Scanner} {c : Char} (h : step t c = .ok u) : t.Moves c u := by
  obtain ⟨done, reading⟩ := t
  cases reading with
  | first | next => exact moves_of_open? rfl h
  | dynamic taken =>
    simp only [step] at h
    split at h
    case isTrue hc =>
      split at h
      case isTrue => cases h
      case isFalse hne => cases h; exact hc ▸ .closeDynamic (by simpa using hne)
    case isFalse hc => cases h; exact .dynamic hc
  | word taken =>
    simp only [step] at h
    split at h
    case isTrue hc => cases h; exact .word hc
    case isFalse => exact moves_of_afterName .openAfterWord rfl h
  | named name => exact moves_of_afterName .openAfterNamed rfl h
  | index name taken =>
    simp only [step] at h
    split at h
    case isTrue hc =>
      cases hindex : indexOf taken with
      | error halt => rw [hindex] at h; cases h
      | ok index =>
        rw [hindex] at h
        cases h
        exact hc ▸ .closeIndex (readIndex_of_indexOf hindex)
    case isFalse hc => cases h; exact .index hc
  | closed segment =>
    simp only [step] at h
    split at h
    case isTrue hc => cases h; exact hc ▸ .point rfl
    case isFalse => cases h

/-- A character goes on with the segment at hand, or it is a point and ends the segment. -/
theorem holds_of_moves {t u : Scanner} {c : Char} {text : List Char} (h : t.reading.Holds text)
    (hmoves : t.Moves c u) :
    (u.done = t.done ∧ u.reading.Holds (text ++ [c]))
      ∨ c = '.' ∧ ∃ s : Segment, s.SpelledBy text ∧ u = ⟨s :: t.done, .next⟩ := by
  cases hmoves with
  | beginDynamic hstart =>
    obtain rfl := Reading.eq_nil_of_isStart hstart h
    exact .inl ⟨rfl, rfl, List.not_mem_nil⟩
  | beginWord hstart hc =>
    obtain rfl := Reading.eq_nil_of_isStart hstart h
    exact .inl ⟨rfl, rfl, by simp, by simpa using hc⟩
  | dynamic hc =>
    obtain ⟨rfl, hclose⟩ := h
    exact .inl ⟨rfl, by simp, by simpa [Ne.symm hc] using hclose⟩
  | @closeDynamic done taken hne =>
    obtain ⟨rfl, hclose⟩ := h
    exact .inl ⟨rfl, .expression (by simpa using hne) (by simpa using hclose)⟩
  | word hc =>
    obtain ⟨rfl, -, hword⟩ := h
    exact .inl ⟨rfl, by simp, by simp, List.forall_mem_cons.mpr ⟨hc, hword⟩⟩
  | openAfterWord => exact .inl ⟨rfl, text, spelledBy_wordOf h, rfl, List.not_mem_nil⟩
  | openAfterNamed => exact .inl ⟨rfl, text, h, rfl, List.not_mem_nil⟩
  | index hc =>
    obtain ⟨nameText, hname, rfl, hclose⟩ := h
    exact .inl ⟨rfl, nameText, hname, by simp, by simpa [Ne.symm hc] using hclose⟩
  | @closeIndex done name taken index hread =>
    obtain ⟨nameText, hname, rfl, hclose⟩ := h
    have hindex := spelledBy_of_readIndex (by simpa using hclose) hread
    exact .inl ⟨rfl, by simpa [Reading.Holds] using Segment.SpelledBy.mk hname hindex⟩
  | point hfinish =>
    obtain ⟨s, hs, rfl⟩ := exists_of_finish h hfinish
    exact .inr ⟨rfl, s, hs, rfl⟩

/-- The segments that are still to come are spelled by the text of the segment at hand and the rest
of the text. -/
theorem exists_of_scan {t : Scanner} {text rest : List Char} (h : t.reading.Holds text)
    {offset : Nat} {segments : List Segment} (hscan : scan offset t rest = .ok segments) :
    ∃ more, segments = t.done.reverse ++ more ∧ Segment.AllSpelledBy more (text ++ rest) := by
  induction rest generalizing t text offset with
  | nil =>
    rw [scan] at hscan
    cases hfinish : finish t with
    | error halt => rw [hfinish] at hscan; cases hscan
    | ok found =>
      rw [hfinish] at hscan
      cases hscan
      obtain ⟨s, hs, rfl⟩ := exists_of_finish h hfinish
      exact ⟨[s], by simp, by simpa using .single hs⟩
  | cons c rest ih =>
    rw [scan] at hscan
    cases hstep : step t c with
    | error halt => rw [hstep] at hscan; cases hscan
    | ok u =>
      rw [hstep] at hscan
      rcases holds_of_moves h (moves_of_step hstep) with ⟨hdone, hu⟩ | ⟨rfl, s, hs, rfl⟩
      · obtain ⟨more, hmore, hspelled⟩ := ih hu hscan
        exact ⟨more, by rw [hmore, hdone], by simpa using hspelled⟩
      · obtain ⟨more, rfl, hspelled⟩ := ih Reading.holds_next hscan
        exact ⟨s :: more, by simp, .cons hs hspelled⟩

/-- The machine reads the texts that spell segments, wherever they stand. -/
theorem scan_eq_ok_iff (offset : Nat) {text : List Char} {segments : List Segment} :
    scan offset .start text = .ok segments ↔ Segment.AllSpelledBy segments text := by
  constructor
  · intro h
    obtain ⟨more, hmore, hspelled⟩ := exists_of_scan (t := .start) Reading.holds_first h
    simpa [Scanner.start, hmore] using hspelled
  · intro h
    obtain ⟨t, ht, hends⟩ := steps_segments h [] (show Reading.first.isStart from rfl)
    have hscan := scan_append ht offset []
    simpa [scan, hends.finish, Scanner.start] using hscan

/-! ## Locations -/

/-- The mark of a global path is split off. -/
theorem splitGlobal_globalWord (text : List Char) :
    splitGlobal (globalWord.toList ++ '.' :: text) = (true, text) := rfl

/-- A text without the mark of a global path stays whole. -/
theorem splitGlobal_eq_self {text : List Char}
    (h : ∀ rest, text ≠ globalWord.toList ++ '.' :: rest) : splitGlobal text = (false, text) := by
  rw [splitGlobal.eq_def]
  split
  case h_1 rest => exact absurd rfl (h rest)
  case h_2 => rfl

/-- A text begins with the word for global locations and a point. -/
def BeginsGlobal (text : List Char) : Prop := globalWord.toList ++ ['.'] <+: text

theorem beginsGlobal_iff {text : List Char} :
    BeginsGlobal text ↔ ∃ rest, text = globalWord.toList ++ '.' :: rest := by
  constructor
  · rintro ⟨rest, rfl⟩
    exact ⟨rest, by simp⟩
  · rintro ⟨rest, rfl⟩
    exact ⟨rest, by simp⟩

theorem splitGlobal_eq_self_of_not {text : List Char} (h : ¬ BeginsGlobal text) :
    splitGlobal text = (false, text) :=
  splitGlobal_eq_self fun rest htext => h (beginsGlobal_iff.mpr ⟨rest, htext⟩)

/-- The text of a location, apart from the word for global ones, is read as its segments. -/
theorem location?_of_splitGlobal {text rest : List Char} {isGlobal : Bool} {l : Location}
    (h : splitGlobal text = (isGlobal, rest)) :
    location? text = .ok l ↔ isGlobal = l.isGlobal
      ∧ scan (if isGlobal then 7 else 0) .start rest = .ok l.segments := by
  simp only [location?, h]
  cases hscan : scan (if isGlobal then 7 else 0) .start rest with
  | error e => simp [Except.map]
  | ok segments =>
    obtain ⟨g, s⟩ := l
    simp [Except.map]

/-- The location that a text names is spelled by it.  It is global if the text says so. -/
theorem location?_eq_ok_iff {text : List Char} {l : Location} :
    location? text = .ok l
      ↔ l.SpelledBy text ∧ (l.isGlobal = true ↔ BeginsGlobal text) := by
  obtain ⟨isGlobal, segments⟩ := l
  by_cases hbegins : BeginsGlobal text
  · obtain ⟨rest, rfl⟩ := beginsGlobal_iff.mp hbegins
    rw [location?_of_splitGlobal (splitGlobal_globalWord rest), scan_eq_ok_iff]
    constructor
    · rintro ⟨rfl, h⟩
      exact ⟨.global h, by simp [hbegins]⟩
    · rintro ⟨hspelled, hglobal⟩
      obtain rfl : isGlobal = true := hglobal.mpr hbegins
      generalize htext : globalWord.toList ++ '.' :: rest = text at hspelled
      cases hspelled with
      | global h =>
        have hrest := List.append_cancel_left htext
        cases hrest
        exact ⟨rfl, h⟩
  · rw [location?_of_splitGlobal (splitGlobal_eq_self_of_not hbegins), scan_eq_ok_iff]
    constructor
    · rintro ⟨rfl, h⟩
      exact ⟨.plain h, by simp [hbegins]⟩
    · rintro ⟨hspelled, hglobal⟩
      cases hspelled with
      | plain h => exact ⟨rfl, h⟩
      | global h => exact absurd (hglobal.mp rfl) hbegins

/-- After the word for global locations and a point there stand segments, if the whole spells
segments. -/
theorem exists_allSpelledBy_of_globalWord {segments : List Segment} {rest : List Char}
    (h : Segment.AllSpelledBy segments (globalWord.toList ++ '.' :: rest)) :
    ∃ more, Segment.AllSpelledBy more rest := by
  have hword : steps .start (globalWord.toList ++ ['.'])
      = .ok ⟨[.named globalWord], .next⟩ := rfl
  have hscan := (scan_eq_ok_iff 0).mpr h
  rw [← List.singleton_append, ← List.append_assoc, scan_append hword] at hscan
  obtain ⟨more, -, hmore⟩ := exists_of_scan Reading.holds_next hscan
  exact ⟨more, hmore⟩

/-- A text names a location if it spells one, global or local. -/
theorem exists_location?_iff {text : List Char} :
    (∃ l, location? text = .ok l) ↔ ∃ l : Location, l.SpelledBy text := by
  constructor
  · rintro ⟨l, h⟩
    exact ⟨l, (location?_eq_ok_iff.mp h).1⟩
  · rintro ⟨l, h⟩
    by_cases hbegins : BeginsGlobal text
    · cases h with
      | global h => exact ⟨_, location?_eq_ok_iff.mpr ⟨.global h, by simp [hbegins]⟩⟩
      | plain h =>
        obtain ⟨rest, rfl⟩ := beginsGlobal_iff.mp hbegins
        obtain ⟨more, hmore⟩ := exists_allSpelledBy_of_globalWord h
        exact ⟨_, location?_eq_ok_iff.mpr ⟨.global hmore, by simp [hbegins]⟩⟩
    · cases h with
      | plain h => exact ⟨_, location?_eq_ok_iff.mpr ⟨.plain h, by simp [hbegins]⟩⟩
      | global h => exact absurd (beginsGlobal_iff.mpr ⟨_, rfl⟩) hbegins

/-! ## Paths -/

theorem parse_eq_ok {span : Span} {text : String} {p : Path} :
    parse span text = .ok p ↔ p.span = span ∧ location? text.toList = .ok p.location := by
  obtain ⟨location, place⟩ := p
  rw [parse]
  cases location? text.toList with
  | error e => simp
  | ok l => simp [and_comm, eq_comm]

/-- A text is a path if the grammar says so, and the path that it is. -/
theorem parse_eq_ok_iff (span : Span) (text : String) :
    ((∃ p, parse span text = .ok p) ↔ ∃ l : Location, l.SpelledBy text.toList)
      ∧ ∀ p, parse span text = .ok p ↔ p.span = span ∧ p.location.SpelledBy text.toList
          ∧ (p.location.isGlobal = true ↔ BeginsGlobal text.toList) := by
  have hiff : ∀ p, parse span text = .ok p ↔ p.span = span ∧ p.location.SpelledBy text.toList
      ∧ (p.location.isGlobal = true ↔ BeginsGlobal text.toList) := fun p => by
    rw [parse_eq_ok, location?_eq_ok_iff]
  refine ⟨?_, hiff⟩
  rw [← exists_location?_iff]
  constructor
  · rintro ⟨p, hp⟩
    exact ⟨p.location, (parse_eq_ok.mp hp).2⟩
  · rintro ⟨l, hl⟩
    exact ⟨⟨l, span⟩, parse_eq_ok.mpr ⟨rfl, hl⟩⟩

end Path

end Correlation
