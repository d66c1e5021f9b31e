import Correlation.Proofs.Spellings
import Mathlib.Data.List.DropRight

/-!
# Texts of paths

A path is shown by the text of its location.  Read again, the text may name another location or
none.  `reparses_iff_isTold` says when, for paths that were read from a text themselves.  There are
two exceptions.

* A dynamic name may have been blank.  What is left of it is nothing, and it is shown as `()`, which
  is no name.
* The position zero is not shown.  A local path that begins with the word for global locations, with
  that position, is shown as a global path.

What a text can name at all follows from how it is spelled (`Location.SpelledBy.isRead`).  Whatever
the text of a location names is shown by the same text again (`chars_of_location?_chars`).
-/

namespace Correlation

/-! ## Trimmed texts -/

theorem trimStart_eq_self {text : List Char} (h : ∀ c ∈ text.head?, isBlank c = false) :
    trimStart text = text := by
  cases text with
  | nil => rfl
  | cons c rest => simp [trimStart, h c rfl]

theorem head?_trimStart (text : List Char) : ∀ c ∈ (trimStart text).head?, isBlank c = false := by
  have h := List.head?_dropWhile_not isBlank text
  intro c hc
  rw [trimStart] at hc
  rw [Option.mem_def] at hc
  rw [hc] at h
  exact h

theorem trim_isPrefix (text : List Char) : trim text <+: trimStart text := by
  have h : trimStart (trimStart text).reverse <:+ (trimStart text).reverse :=
    List.dropWhile_suffix isBlank
  rw [← List.reverse_prefix, List.reverse_reverse] at h
  exact h

theorem mem_of_mem_trim {text : List Char} {c : Char} (h : c ∈ trim text) : c ∈ text :=
  (List.dropWhile_sublist isBlank).subset ((trim_isPrefix text).subset h)

/-- A trimmed text has nothing left to trim. -/
@[simp] theorem trim_trim (text : List Char) : trim (trim text) = trim text := by
  have hhead : ∀ c ∈ (trim text).head?, isBlank c = false := fun c hc => by
    obtain ⟨rest, hrest⟩ := trim_isPrefix text
    refine head?_trimStart text c ?_
    rw [← hrest, List.head?_append, hc]
    rfl
  rw [trim, trimStart_eq_self hhead]
  rw [trim, List.reverse_reverse, trimStart, trimStart, List.dropWhile_idempotent]

theorem trim_eq_self {text : List Char} (h : ∀ c ∈ text, isBlank c = false) : trim text = text := by
  have hreverse : trimStart text.reverse = text.reverse :=
    trimStart_eq_self fun c hc => h c (List.mem_reverse.mp (List.mem_of_mem_head? hc))
  rw [trim, trimStart_eq_self fun c hc => h c (List.mem_of_mem_head? hc), hreverse,
    List.reverse_reverse]

theorem isBlank_of_isDigit {c : Char} (h : c.isDigit = true) : isBlank c = false := by
  have all : ∀ n < 58, 48 ≤ n → inRanges blankRanges n = false := by decide
  obtain ⟨hlow, hhigh⟩ := Char.isDigit_iff_toNat.mp h
  exact all c.toNat (Nat.lt_succ_of_le hhigh) hlow

/-! ## What a text can name -/

/-- A name that was read. -/
def SegmentName.IsRead : SegmentName → Prop
  | .literal name => name.toList ≠ [] ∧ ∀ c ∈ name.toList, isWordChar c = true
  | .dynamic expression => trim expression.toList = expression.toList ∧ ')' ∉ expression.toList

/-- An index that was read. -/
def SegmentIndex.IsRead : SegmentIndex → Prop
  | .literal _ => True
  | .dynamic expression =>
    trim expression.toList = expression.toList ∧ ']' ∉ expression.toList
      ∧ expression.toList.all Char.isDigit = false

/-- A segment that was read. -/
structure Segment.IsRead (s : Segment) : Prop where
  name : s.name.IsRead
  index : s.index.IsRead

/-- A location that was read. -/
structure Location.IsRead (l : Location) : Prop where
  segments_ne : l.segments ≠ []
  segments : ∀ s ∈ l.segments, s.IsRead

/-- A name that is spelled by a text can be read. -/
theorem SegmentName.SpelledBy.isRead {name : SegmentName} {text : List Char}
    (h : name.SpelledBy text) : name.IsRead := by
  cases h with
  | word hne hword => exact ⟨by simpa using hne, by simpa using hword⟩
  | expression _ hclose =>
    simp only [SegmentName.IsRead, String.toList_ofList, trim_trim, true_and]
    exact fun hmem => hclose (mem_of_mem_trim hmem)

theorem SegmentIndex.SpelledBy.isRead {index : SegmentIndex} {text : List Char}
    (h : index.SpelledBy text) : index.IsRead := by
  cases h with
  | absent | position _ _ _ _ => trivial
  | expression hclose hdigits =>
    obtain ⟨c, hc, hdigit⟩ := hdigits
    simp only [SegmentIndex.IsRead, String.toList_ofList, trim_trim, true_and]
    exact ⟨fun hmem => hclose (mem_of_mem_trim hmem),
      List.all_eq_false.mpr ⟨c, hc, by simp [hdigit]⟩⟩

theorem Segment.SpelledBy.isRead {s : Segment} {text : List Char} (h : s.SpelledBy text) :
    s.IsRead := by
  cases h with
  | mk hname hindex => exact ⟨hname.isRead, hindex.isRead⟩

/-- Segments that are spelled by a text can be read, and there is one. -/
theorem Segment.AllSpelledBy.isRead {segments : List Segment} {text : List Char}
    (h : AllSpelledBy segments text) : segments ≠ [] ∧ ∀ s ∈ segments, s.IsRead := by
  induction h with
  | single h => exact ⟨by simp, by simpa using h.isRead⟩
  | cons h _ ih => exact ⟨by simp, List.forall_mem_cons.mpr ⟨h.isRead, ih.2⟩⟩

theorem Location.SpelledBy.isRead {l : Location} {text : List Char} (h : l.SpelledBy text) :
    l.IsRead := by
  cases h with
  | plain h | global h => exact ⟨h.isRead.1, h.isRead.2⟩

/-- What a text names can be named. -/
theorem Path.isRead_of_location? {text : List Char} {l : Location} (h : location? text = .ok l) :
    l.IsRead :=
  (location?_eq_ok_iff.mp h).1.isRead

/-! ## Spelling what is shown -/

/-- A name is spelled by what is shown of it, if there is anything to show. -/
theorem SegmentName.spelledBy_chars {name : SegmentName} (h : name.IsRead)
    (hne : name ≠ .dynamic "") : name.SpelledBy name.chars := by
  cases name with
  | literal name => simpa [chars] using SpelledBy.word h.1 h.2
  | dynamic expression =>
    have hchars : expression.toList ≠ [] := fun hnil => hne (by simpa using hnil)
    simpa [chars, h.1] using SpelledBy.expression hchars h.2

/-- An index is spelled by what is shown of it. -/
theorem SegmentIndex.spelledBy_chars {index : SegmentIndex} (h : index.IsRead) :
    index.SpelledBy index.chars := by
  cases index with
  | literal position =>
    by_cases hzero : position = 0
    · subst hzero
      exact .absent
    · have hdigits : ∀ c ∈ Nat.toDigits 10 position.toNat, c.isDigit = true := fun c hc =>
        Nat.isDigit_of_mem_toDigits (by decide) (by decide) hc
      have htrim : trim (Nat.toDigits 10 position.toNat) = Nat.toDigits 10 position.toNat :=
        trim_eq_self fun c hc => isBlank_of_isDigit (hdigits c hc)
      have hclose : ']' ∉ Nat.toDigits 10 position.toNat := fun hmem =>
        absurd (hdigits _ hmem) (by decide)
      have hsize : position.toNat < UInt32.size := position.toNat_lt_size
      have hspelled := SpelledBy.position hclose (by simp [htrim, Nat.toDigits_ne_nil])
        (by simpa [htrim] using hdigits)
        (by simpa [htrim, Nat.ofDigitChars_ten_toDigits] using hsize)
      simpa [htrim, Nat.ofDigitChars_ten_toDigits, chars, hzero] using hspelled
  | dynamic expression =>
    obtain ⟨htrim, hclose, hdigits⟩ := h
    have hexists : ∃ c ∈ trim expression.toList, c.isDigit = false := by
      simpa [htrim] using hdigits
    simpa [chars, htrim] using SpelledBy.expression hclose hexists

/-- A segment is spelled by what is shown of it, if its name is. -/
theorem Segment.spelledBy_chars {s : Segment} (h : s.IsRead) (hne : s.name ≠ .dynamic "") :
    s.SpelledBy s.chars :=
  .mk (SegmentName.spelledBy_chars h.name hne) (SegmentIndex.spelledBy_chars h.index)

namespace Segment

theorem joined_cons_of_ne (s : Segment) {rest : List Segment} (h : rest ≠ []) :
    joined (s :: rest) = s.chars ++ '.' :: joined rest := by
  cases rest with
  | nil => exact absurd rfl h
  | cons next rest => rw [joined]; exact nofun

/-- What follows the first segment is nothing, or a point and the others. -/
theorem joined_cons (s : Segment) (rest : List Segment) :
    joined (s :: rest) = s.chars ++ if rest = [] then [] else '.' :: joined rest := by
  by_cases h : rest = []
  · simp [h, joined]
  · rw [joined_cons_of_ne s h, if_neg h]

/-- Segments are spelled by what is shown of them, if their names are. -/
theorem allSpelledBy_joined {segments : List Segment} (hne : segments ≠ [])
    (h : ∀ s ∈ segments, s.IsRead) (hnames : ∀ s ∈ segments, s.name ≠ .dynamic "") :
    AllSpelledBy segments (joined segments) := by
  induction segments with
  | nil => exact absurd rfl hne
  | cons s rest ih =>
    obtain ⟨hs, hrest⟩ := List.forall_mem_cons.mp h
    obtain ⟨hname, hnames⟩ := List.forall_mem_cons.mp hnames
    by_cases hlast : rest = []
    · subst hlast
      exact .single (spelledBy_chars hs hname)
    · rw [joined_cons_of_ne s hlast]
      exact .cons (spelledBy_chars hs hname) (ih hlast hrest hnames)

end Segment

namespace Path

/-- Segments are not read as they are shown, if one of them has a dynamic name without a text. -/
theorem scan_joined_ne_ok {segments : List Segment} (h : ∀ s ∈ segments, s.IsRead)
    (hempty : ∃ s ∈ segments, s.name = .dynamic "") (done : List Segment) {reading : Reading}
    (hstart : reading.isStart = true) (offset : Nat) (found : List Segment) :
    scan offset ⟨done, reading⟩ (Segment.joined segments) ≠ .ok found := by
  induction segments generalizing done reading offset with
  | nil =>
    obtain ⟨s, hs, -⟩ := hempty
    cases hs
  | cons s rest ih =>
    obtain ⟨hs, hrest⟩ := List.forall_mem_cons.mp h
    by_cases hname : s.name = .dynamic ""
    · have hopen : steps ⟨done, reading⟩ ['('] = .ok ⟨done, .dynamic []⟩ :=
        steps_cons_of_step (step_parenthesis done hstart) []
      have hchars : s.chars = ['('] ++ ')' :: s.index.chars := by
        rw [Segment.chars, hname]
        rfl
      rw [Segment.joined_cons, hchars, List.append_assoc, scan_append hopen]
      nofun
    · obtain ⟨t, ht, hends⟩ := steps_segment (Segment.spelledBy_chars hs hname) done hstart
      have hlater : ∃ s ∈ rest, s.name = .dynamic "" := by
        obtain ⟨next, hnext, hnextName⟩ := hempty
        rcases List.mem_cons.mp hnext with rfl | hnext
        · exact absurd hnextName hname
        · exact ⟨next, hnext, hnextName⟩
      have hmore : rest ≠ [] := by
        rintro rfl
        obtain ⟨next, hnext, -⟩ := hlater
        cases hnext
      rw [Segment.joined_cons_of_ne s hmore, scan_append ht, scan, hends.point]
      exact ih hrest hlater (s :: done) rfl _

end Path

/-! ## Global locations -/

/-- Whether the first of several segments is the word for global locations. -/
def Segment.startGlobal : List Segment → Bool
  | s :: _ :: _ => decide (s = .named globalWord)
  | _ => false

/-- Segments that start like a global path are shown like one. -/
theorem Segment.joined_of_startGlobal {segments : List Segment}
    (h : startGlobal segments = true) :
    joined segments = globalWord.toList ++ '.' :: joined segments.tail := by
  match segments, h with
  | s :: next :: rest, h =>
    have hs : s = .named globalWord := of_decide_eq_true h
    rw [joined_cons_of_ne s (List.cons_ne_nil next rest), hs]
    simp [chars, named, SegmentName.chars, SegmentIndex.chars]

/-- Two texts with a word in front have the same word, if neither goes on with it. -/
theorem word_of_append_eq {left right s t : List Char} (hleft : ∀ c ∈ left, isWordChar c = true)
    (hright : ∀ c ∈ right, isWordChar c = true) (hs : ∀ c ∈ s.head?, isWordChar c = false)
    (ht : ∀ c ∈ t.head?, isWordChar c = false) (h : left ++ s = right ++ t) :
    left = right ∧ s = t := by
  have hnil : ∀ {u : List Char}, (∀ c ∈ u.head?, isWordChar c = false) →
      u.takeWhile isWordChar = [] := fun {u} hu => by
    cases u with
    | nil => rfl
    | cons c u => simp [hu c rfl]
  have hwords := congrArg (List.takeWhile isWordChar) h
  rw [List.takeWhile_append_of_pos hleft, List.takeWhile_append_of_pos hright, hnil hs, hnil ht,
    List.append_nil, List.append_nil] at hwords
  subst hwords
  exact ⟨rfl, List.append_cancel_left h⟩

/-- An index is not shown, or in brackets. -/
theorem SegmentIndex.chars_cases (index : SegmentIndex) :
    index = .literal 0 ∧ index.chars = [] ∨ ∃ text, index.chars = '[' :: text := by
  cases index with
  | literal position =>
    by_cases h : position = 0
    · exact .inl ⟨by rw [h], by simp [chars, h]⟩
    · exact .inr ⟨_, by rw [chars, if_neg h]; rfl⟩
  | dynamic expression => exact .inr ⟨_, rfl⟩

theorem Segment.startGlobal_of_joined {segments : List Segment} (h : ∀ s ∈ segments, s.IsRead)
    {text : List Char} (htext : joined segments = globalWord.toList ++ '.' :: text) :
    startGlobal segments = true := by
  match segments with
  | [] => cases htext
  | ⟨.dynamic expression, index⟩ :: rest =>
    rw [joined_cons] at htext
    cases htext
  | ⟨.literal name, index⟩ :: rest =>
    obtain ⟨⟨-, hword⟩, -⟩ := h _ List.mem_cons_self
    have hpoint : ∀ c ∈ ('.' :: text).head?, isWordChar c = false := by
      rintro c ⟨⟩
      exact Path.isWordChar_of_mem_marks (by simp)
    have hall : globalWord.toList.all isWordChar = true := by decide
    have hglobal : ∀ c ∈ globalWord.toList, isWordChar c = true := List.all_eq_true.mp hall
    have hrest : ∀ c ∈ (index.chars ++ if rest = [] then [] else '.' :: joined rest).head?,
        isWordChar c = false := by
      intro c hc
      refine Path.isWordChar_of_mem_marks ?_
      rcases index.chars_cases with ⟨-, hindex⟩ | ⟨shown, hindex⟩ <;> rw [hindex] at hc
      · by_cases hlast : rest = [] <;> simp [hlast] at hc
        simp [← hc]
      · simp at hc
        simp [← hc]
    rw [joined_cons, chars, List.append_assoc] at htext
    obtain ⟨hname, htail⟩ := word_of_append_eq hword hglobal hrest hpoint htext
    rcases index.chars_cases with ⟨hzero, hindex⟩ | ⟨shown, hindex⟩
    · rw [hindex] at htail
      match rest, htail with
      | next :: rest, _ =>
        rw [hzero, String.toList_inj.mp hname]
        rfl
    · rw [hindex] at htail
      cases htail

/-! ## Reading what is shown -/

namespace Location

/-- Whether a location is named by its own text: it is no local one that seems to be global, and
every dynamic name has a text. -/
def isTold (l : Location) : Bool :=
  (l.isGlobal || !Segment.startGlobal l.segments)
    && l.segments.all fun s => decide (s.name ≠ .dynamic "")

/-- The location that the text of a location seems to name. -/
def shown (l : Location) : Location :=
  if l.isGlobal || !Segment.startGlobal l.segments then l else ⟨true, l.segments.tail⟩

/-- A location is shown like the one that its text names. -/
theorem chars_shown (l : Location) : l.shown.chars = l.chars := by
  rw [shown]
  split
  case isTrue => rfl
  case isFalse h =>
    obtain ⟨hlocal, hstart⟩ : l.isGlobal = false ∧ Segment.startGlobal l.segments = true := by
      simpa using h
    simp [chars, hlocal, Segment.joined_of_startGlobal hstart]

/-- The location that a text names can be read if the one that is shown can. -/
theorem isRead_shown {l : Location} (h : l.IsRead) : l.shown.IsRead := by
  rw [shown]
  split
  case isTrue => exact h
  case isFalse hstart =>
    obtain ⟨isGlobal, segments⟩ := l
    match segments, hstart with
    | [], hstart | [_], hstart => simp [Segment.startGlobal] at hstart
    | s :: next :: rest, _ =>
      exact ⟨List.cons_ne_nil next rest, (List.forall_mem_cons.mp h.segments).2⟩

end Location

namespace Path

/-- The text of a location splits as the location that it names says. -/
theorem splitGlobal_chars {l : Location} (h : l.IsRead) :
    splitGlobal l.chars = (l.shown.isGlobal, Segment.joined l.shown.segments) := by
  rw [← l.chars_shown]
  cases hglobal : l.shown.isGlobal with
  | true =>
    rw [Location.chars, if_pos hglobal, List.append_assoc]
    exact splitGlobal_globalWord _
  | false =>
    have hshown : l.shown = l := by
      rw [Location.shown] at hglobal ⊢
      split at hglobal
      case isTrue htold => rw [if_pos htold]
      case isFalse => cases hglobal
    have hchars : l.shown.chars = Segment.joined l.shown.segments := by
      simp [Location.chars, hglobal]
    rw [hchars]
    refine splitGlobal_eq_self fun text htext => ?_
    have hstart := Segment.startGlobal_of_joined (Location.isRead_shown h).segments htext
    rw [hshown] at hglobal hstart
    simp [Location.shown, hglobal, hstart] at hshown
    simpa [hglobal] using congrArg Location.isGlobal hshown

/-- What the text of a location names is the location that it seems to name, if every dynamic name
has a text. -/
theorem location?_chars {l : Location} (h : l.IsRead) {found : Location} :
    location? l.chars = .ok found
      ↔ found = l.shown ∧ ∀ s ∈ l.shown.segments, s.name ≠ .dynamic "" := by
  obtain ⟨hne, hread⟩ := Location.isRead_shown h
  rw [location?_of_splitGlobal (splitGlobal_chars h)]
  by_cases hnames : ∀ s ∈ l.shown.segments, s.name ≠ .dynamic ""
  · rw [(scan_eq_ok_iff _).mpr (Segment.allSpelledBy_joined hne hread hnames)]
    obtain ⟨isGlobal, segments⟩ := found
    cases hshown : l.shown with
    | mk g s => simpa [hshown, eq_comm] using fun _ _ => by simpa [hshown] using hnames
  · have hempty : ∃ s ∈ l.shown.segments, s.name = .dynamic "" := by simpa using hnames
    have hscan := scan_joined_ne_ok hread hempty [] (show Reading.first.isStart from rfl)
      (if l.shown.isGlobal then 7 else 0) found.segments
    exact iff_of_false (fun hfound => hscan hfound.2) fun hfound => hnames hfound.2

/-- Whatever the text of a location names has that text. -/
theorem chars_of_location?_chars {l found : Location} (h : l.IsRead)
    (hfound : location? l.chars = .ok found) : found.chars = l.chars := by
  rw [((location?_chars h).mp hfound).1, l.chars_shown]

/-- A location that was read is named by its text exactly if the text tells it. -/
theorem location?_chars_iff {l : Location} (h : l.IsRead) :
    location? l.chars = .ok l ↔ l.isTold = true := by
  rw [location?_chars h, Location.isTold, Bool.and_eq_true]
  by_cases hlocal : (l.isGlobal || !Segment.startGlobal l.segments) = true
  · simp [Location.shown, hlocal]
  · have hglobal : l.isGlobal = false := by simp_all
    have hne : l ≠ l.shown := fun heq => by
      rw [Location.shown, if_neg hlocal] at heq
      rw [heq] at hglobal
      cases hglobal
    simp [hlocal, hne]

/-! ## Paths -/

/-- The text of a path names the location of the path. -/
def Reparses (p : Path) : Prop :=
  ∃ q, parse .unknown p.display = .ok q ∧ q.location = p.location

theorem reparses_iff {p : Path} : p.Reparses ↔ location? p.location.chars = .ok p.location := by
  simp only [Reparses, parse, display, Location.display, String.toList_ofList]
  cases hl : location? p.location.chars with
  | error e => simp
  | ok l => simp

instance (p : Path) : Decidable p.Reparses :=
  decidable_of_iff ((location? p.location.chars).toOption = some p.location) <| by
    rw [reparses_iff]
    cases location? p.location.chars <;> simp [Except.toOption]

/-- The location of a parsed path can be read. -/
theorem isRead_of_parse {span : Span} {text : String} {p : Path} (h : parse span text = .ok p) :
    p.location.IsRead :=
  isRead_of_location? (parse_eq_ok.mp h).2

/-- A path that was read is read again from what is shown exactly if that tells its location. -/
theorem reparses_iff_isTold {p : Path} (h : p.location.IsRead) :
    p.Reparses ↔ p.location.isTold = true :=
  reparses_iff.trans (location?_chars_iff h)

theorem isTold_iff {l : Location} :
    l.isTold = true ↔ (∀ s ∈ l.segments, s.name ≠ .dynamic "")
      ∧ ¬ (l.isGlobal = false ∧ 2 ≤ l.segments.length
        ∧ l.segments.head? = some ⟨.literal globalWord, .literal 0⟩) := by
  obtain ⟨isGlobal, segments⟩ := l
  match segments with
  | [] | [_] => simp [Location.isTold, Segment.startGlobal]
  | s :: next :: rest =>
    have hstart : Segment.startGlobal (s :: next :: rest) = true
        ↔ s = ⟨.literal globalWord, .literal 0⟩ := decide_eq_true_iff
    cases isGlobal <;> simp [Location.isTold, ← hstart, and_comm]

/-- Which paths are read again from what is shown, among those that were read from a text. -/
theorem reparses_iff_of_parse {span : Span} {text : String} {p : Path}
    (h : parse span text = .ok p) :
    p.Reparses ↔ (∀ s ∈ p.location.segments, s.name ≠ .dynamic "")
      ∧ ¬ (p.location.isGlobal = false ∧ 2 ≤ p.location.segments.length
        ∧ p.location.segments.head? = some ⟨.literal globalWord, .literal 0⟩) :=
  (reparses_iff_isTold (isRead_of_parse h)).trans isTold_iff

/-- A local path that seems to be global is not read again. -/
theorem not_reparses_seemingGlobal :
    ∃ p, parse .unknown "global[0].a" = .ok p ∧ p.display = "global.a" ∧ ¬ p.Reparses := by
  have hparse : parse .unknown "global[0].a"
      = .ok ⟨⟨false, [.named "global", .named "a"]⟩, .unknown⟩ := by decide +kernel
  refine ⟨_, hparse, by decide +kernel, fun hagain => ?_⟩
  exact ((reparses_iff_of_parse hparse).mp hagain).2 ⟨rfl, by decide, rfl⟩

end Path

/-- What is left of a blank name. -/
example : (Path.parse .unknown "a.( )").toOption.map (fun p => decide p.Reparses)
    = some false := by decide +kernel

end Correlation
