import Correlation.Proofs.PathTexts

/-!
# Places of faults in paths

A text that is no path has a fault, and the fault has a place.  What stands before the place is the
beginning of a path.  If something is left over, it is a path itself, and no longer beginning of the
text is one (`Path.exists_before_of_parse`).

The first part is a property of the machine.  Wherever it stands, a path can still come of the text
(`exists_completion`).  So whatever it has read without a fault is the beginning of a path
(`exists_allSpelledBy_append`).  But a fault may stand further back than the machine
(`cases_stops`).  A point that no segment follows is left over itself, and the fault of an index
stands where its text begins.  In both cases the machine stood there before (`exists_before_point`,
`exists_before_index`).
-/

namespace Correlation

/-! ## Texts that go on -/

theorem bytes_reverse (text : List Char) : bytes text.reverse = bytes text := by
  induction text with
  | nil => rfl
  | cons c rest ih =>
    rw [List.reverse_cons, bytes_append, ih, bytes_cons, bytes_cons, bytes_nil]
    omega

/-- A last character that is not blank stays. -/
theorem trim_append_singleton {c : Char} (hc : isBlank c = false) (text : List Char) :
    trim (text ++ [c]) = trimStart text ++ [c] := by
  have hstart : trimStart (text ++ [c]) = trimStart text ++ [c] := by
    rw [trimStart, trimStart, List.dropWhile_append]
    split
    case isTrue h =>
      rw [List.isEmpty_iff.mp h]
      simp [hc]
    case isFalse => rfl
  have hend : trimStart (trimStart text ++ [c]).reverse = (trimStart text ++ [c]).reverse :=
    trimStart_eq_self (by simpa using hc)
  rw [trim, hstart, hend, List.reverse_reverse]

/-- A text that ends in a letter is read as an index. -/
theorem readIndex_append_letter (text : List Char) :
    readIndex (text ++ ['a']) = .ok (.dynamic (String.ofList (trimStart text ++ ['a']))) := by
  have htrim : trim (text ++ ['a']) = trimStart text ++ ['a'] :=
    trim_append_singleton (by decide) text
  have hall : (trimStart text ++ ['a']).all Char.isDigit = false :=
    List.all_eq_false.mpr ⟨'a', by simp, by decide⟩
  simp [readIndex, htrim, hall]

/-- An index that can not be read leaves nothing over. -/
theorem ne_leftover_of_readIndex {text : List Char} {fault : PathFault}
    (h : readIndex text = .error fault) : fault ≠ .leftover := by
  rintro rfl
  simp only [readIndex] at h
  repeat' split at h
  all_goals cases h

namespace Path

/-- Wherever the machine stands, the text can still become a path. -/
theorem exists_completion (t : Scanner) :
    ∃ more u found, steps t more = .ok u ∧ finish u = .ok found := by
  obtain ⟨done, reading⟩ := t
  cases reading with
  | first | next => exact ⟨['a'], ⟨done, .word ['a']⟩, _, rfl, rfl⟩
  | dynamic taken =>
    refine ⟨['a', ')'], ⟨done, .named (.dynamic (String.ofList (trim ('a' :: taken).reverse)))⟩, _,
      ?_, rfl⟩
    have hletter : step ⟨done, .dynamic taken⟩ 'a' = .ok ⟨done, .dynamic ('a' :: taken)⟩ := rfl
    rw [steps_cons_of_step hletter]
    rfl
  | word _ | named _ | closed _ => exact ⟨[], _, _, rfl, rfl⟩
  | index name taken =>
    let index : SegmentIndex := .dynamic (String.ofList (trimStart taken.reverse ++ ['a']))
    have hletter : step ⟨done, .index name taken⟩ 'a' = .ok ⟨done, .index name ('a' :: taken)⟩ :=
      rfl
    have hclose : step ⟨done, .index name ('a' :: taken)⟩ ']'
        = .ok ⟨done, .closed ⟨name, index⟩⟩ :=
      step_closeIndex done name (by simp [readIndex_append_letter, index])
    refine ⟨['a', ']'], ⟨done, .closed ⟨name, index⟩⟩, _, ?_, rfl⟩
    rw [steps_cons_of_step hletter, steps_cons_of_step hclose, steps_nil]

/-- What the machine has read is spelled, if it may end here. -/
theorem allSpelledBy_of_finish {text : List Char} {t : Scanner} {found : List Segment}
    (h : steps .start text = .ok t) (hfinish : finish t = .ok found) :
    Segment.AllSpelledBy found.reverse text := by
  have hscan := scan_append h 0 []
  rw [List.append_nil, scan, hfinish] at hscan
  exact (scan_eq_ok_iff _).mp hscan

/-- What the machine has read without a fault is the beginning of segments. -/
theorem exists_allSpelledBy_append {text : List Char} {t : Scanner}
    (h : steps .start text = .ok t) :
    ∃ more segments, Segment.AllSpelledBy segments (text ++ more) := by
  obtain ⟨more, u, found, hsteps, hfinish⟩ := exists_completion t
  have hall : steps .start (text ++ more) = .ok u := by
    rw [steps_append, h]
    exact hsteps
  exact ⟨more, _, allSpelledBy_of_finish hall hfinish⟩

/-! ## Where the machine stops -/

/-- The machine stops before what is left of a text: it refuses the next character, or the end. -/
def Scanner.Stops (t : Scanner) (halt : Halt) : List Char → Prop
  | [] => finish t = .error halt
  | c :: _ => step t c = .error halt

/-- A scan that fails stops at some character or at the end. -/
theorem exists_stops_of_scan {t : Scanner} {offset : Nat} {text : List Char} {fault : PathFault}
    {place : Nat} (h : scan offset t text = .error (fault, place)) :
    ∃ before after u halt, text = before ++ after ∧ steps t before = .ok u
      ∧ u.Stops halt after ∧ halt.fault = fault ∧ place = offset + bytes before - halt.back := by
  induction text generalizing t offset with
  | nil =>
    rw [scan] at h
    cases hfinish : finish t with
    | ok found => rw [hfinish] at h; cases h
    | error halt =>
      rw [hfinish] at h
      cases h
      exact ⟨[], [], t, halt, rfl, rfl, hfinish, rfl, rfl⟩
  | cons c rest ih =>
    rw [scan] at h
    cases hstep : step t c with
    | error halt =>
      rw [hstep] at h
      cases h
      exact ⟨[], c :: rest, t, halt, rfl, rfl, hstep, rfl, rfl⟩
    | ok u =>
      rw [hstep] at h
      obtain ⟨before, after, v, halt, rfl, hsteps, hstops, hfault, rfl⟩ := ih h
      exact ⟨c :: before, after, v, halt, rfl, (steps_cons_of_step hstep before).trans hsteps,
        hstops, hfault, by rw [bytes_cons, Nat.add_assoc]⟩

/-- After a name, what does not fit is left over. -/
theorem cases_afterName {done : List Segment} {name : SegmentName} {c : Char} {halt : Halt}
    (h : afterName done name c = .error halt) : halt = ⟨.leftover, 0⟩ := by
  rw [afterName] at h
  split at h
  case isTrue => cases h
  case isFalse =>
    split at h
    case isTrue => cases h
    case isFalse => cases h; rfl

theorem eq_of_open?_eq_error {done : List Segment} {c : Char} {otherwise halt : Halt}
    (h : open? done c otherwise = .error halt) : halt = otherwise := by
  rw [open?] at h
  split at h
  case isTrue => cases h
  case isFalse =>
    split at h
    case isTrue => cases h
    case isFalse => cases h; rfl

/-- An index that is refused is to blame from its first character on. -/
theorem cases_indexOf {taken : List Char} {halt : Halt} (h : indexOf taken = .error halt) :
    halt.back = bytes taken ∧ halt.fault ≠ .leftover := by
  rw [indexOf] at h
  cases hread : readIndex taken.reverse with
  | ok index => rw [hread] at h; cases h
  | error fault =>
    rw [hread] at h
    cases h
    exact ⟨rfl, ne_leftover_of_readIndex hread⟩

/-- A fault stands where the machine is, and then what has been read is a path if something is left
over.  Or it stands at the point before, or where the text of the index begins. -/
theorem cases_stops {t : Scanner} {halt : Halt} {after : List Char} (h : t.Stops halt after) :
    (halt.back = 0 ∧ (halt.fault = .leftover → ∃ found, finish t = .ok found))
      ∨ (halt.back = 1 ∧ ∃ done, t = ⟨done, .next⟩)
      ∨ (halt.fault ≠ .leftover
        ∧ ∃ done name taken, t = ⟨done, .index name taken⟩ ∧ halt.back = bytes taken) := by
  obtain ⟨done, reading⟩ := t
  cases after with
  | nil =>
    cases reading with
    | first | dynamic _ => cases h; exact .inl ⟨rfl, nofun⟩
    | next => cases h; exact .inr (.inl ⟨rfl, done, rfl⟩)
    | word _ | named _ | closed _ => cases h
    | index name taken =>
      have hfinish : ((indexOf taken).bind fun _ => .error ⟨.indexUnclosed, 0⟩)
          = (.error halt : Except Halt (List Segment)) := h
      cases hindex : indexOf taken with
      | error e =>
        rw [hindex] at hfinish
        cases hfinish
        obtain ⟨hback, hfault⟩ := cases_indexOf hindex
        exact .inr (.inr ⟨hfault, done, name, taken, rfl, hback⟩)
      | ok index =>
        rw [hindex] at hfinish
        cases hfinish
        exact .inl ⟨rfl, nofun⟩
  | cons c rest =>
    have hstep : step ⟨done, reading⟩ c = .error halt := h
    cases reading with
    | first => rw [eq_of_open?_eq_error hstep]; exact .inl ⟨rfl, nofun⟩
    | next => rw [eq_of_open?_eq_error hstep]; exact .inr (.inl ⟨rfl, done, rfl⟩)
    | dynamic taken =>
      simp only [step] at hstep
      split at hstep
      case isTrue =>
        split at hstep
        case isTrue => cases hstep; exact .inl ⟨rfl, nofun⟩
        case isFalse => cases hstep
      case isFalse => cases hstep
    | word taken =>
      simp only [step] at hstep
      split at hstep
      case isTrue => cases hstep
      case isFalse => rw [cases_afterName hstep]; exact .inl ⟨rfl, fun _ => ⟨_, rfl⟩⟩
    | named name => rw [cases_afterName hstep]; exact .inl ⟨rfl, fun _ => ⟨_, rfl⟩⟩
    | index name taken =>
      simp only [step] at hstep
      split at hstep
      case isTrue =>
        cases hindex : indexOf taken with
        | error e =>
          rw [hindex] at hstep
          cases hstep
          obtain ⟨hback, hfault⟩ := cases_indexOf hindex
          exact .inr (.inr ⟨hfault, done, name, taken, rfl, hback⟩)
        | ok index => rw [hindex] at hstep; cases hstep
      case isFalse => cases hstep
    | closed segment =>
      simp only [step] at hstep
      split at hstep
      case isTrue => cases hstep
      case isFalse => cases hstep; exact .inl ⟨rfl, fun _ => ⟨_, rfl⟩⟩

/-! ## Where the machine stood before -/

/-- A scan that has come anywhere has made a last step. -/
theorem exists_last_step {text : List Char} {u : Scanner} (hne : u ≠ .start)
    (h : steps .start text = .ok u) :
    ∃ before t c, text = before ++ [c] ∧ steps .start before = .ok t ∧ step t c = .ok u := by
  rcases List.eq_nil_or_concat' text with rfl | ⟨before, c, rfl⟩
  · cases h
    exact absurd rfl hne
  · rw [steps_append] at h
    cases hbefore : steps .start before with
    | error halt => rw [hbefore] at h; cases h
    | ok t =>
      rw [hbefore] at h
      cases hstep : step t c with
      | error halt => rw [Except.bind, steps_cons, hstep] at h; cases h
      | ok v =>
        rw [Except.bind, steps_cons_of_step hstep] at h
        cases h
        exact ⟨before, t, c, rfl, hbefore, hstep⟩

/-- The point before a segment stands after a path. -/
theorem exists_before_point {text : List Char} {done : List Segment}
    (h : steps .start text = .ok ⟨done, .next⟩) :
    ∃ before t, text = before ++ ['.'] ∧ steps .start before = .ok t ∧ finish t = .ok done := by
  obtain ⟨before, t, c, rfl, hbefore, hstep⟩ := exists_last_step (u := ⟨done, .next⟩) nofun h
  generalize hu : (⟨done, .next⟩ : Scanner) = u at hstep
  cases moves_of_step hstep with
  | point hfinish => cases hu; exact ⟨before, t, rfl, hbefore, hfinish⟩
  | _ => cases hu

/-- The machine was where the text of an index begins. -/
theorem exists_before_index {text taken : List Char} {done : List Segment} {name : SegmentName}
    (h : steps .start text = .ok ⟨done, .index name taken⟩) :
    ∃ before, text = before ++ taken.reverse
      ∧ steps .start before = .ok ⟨done, .index name []⟩ := by
  induction taken generalizing text with
  | nil => exact ⟨text, by simp, h⟩
  | cons d rest ih =>
    obtain ⟨before, t, c, rfl, hbefore, hstep⟩ :=
      exists_last_step (u := ⟨done, .index name (d :: rest)⟩) nofun h
    generalize hu : (⟨done, .index name (d :: rest)⟩ : Scanner) = u at hstep
    cases moves_of_step hstep with
    | index _ =>
      cases hu
      obtain ⟨first, rfl, hfirst⟩ := ih hbefore
      exact ⟨first, by simp, hfirst⟩
    | _ => cases hu

/-! ## Places of faults -/

/-- Some segments are spelled by a text. -/
def SpellsSegments (text : List Char) : Prop := ∃ segments, Segment.AllSpelledBy segments text

/-- A text is the longest beginning of another one with a property. -/
structure IsLongest (P : List Char → Prop) (text whole : List Char) : Prop where
  isPrefix : text <+: whole
  holds : P text
  longest : ∀ longer, longer <+: whole → P longer → longer.length ≤ text.length

/-- No text that goes on where the machine stops spells segments. -/
theorem not_spellsSegments_of_stops {before after longer : List Char} {t : Scanner} {halt : Halt}
    (hsteps : steps .start before = .ok t) (hstops : t.Stops halt after)
    (hpart : longer <+: before ++ after) (hle : before.length ≤ longer.length)
    (hend : before.length = longer.length → ∀ found, finish t ≠ .ok found) :
    ¬ SpellsSegments longer := by
  rintro ⟨segments, hspelled⟩
  obtain ⟨more, rfl⟩ : before <+: longer :=
    List.prefix_of_prefix_length_le (List.prefix_append before after) hpart hle
  have hmore := (List.prefix_append_right_inj before).mp hpart
  have hscan := (scan_eq_ok_iff 0).mpr hspelled
  rw [scan_append hsteps] at hscan
  cases more with
  | nil =>
    rw [scan] at hscan
    cases hfinish : finish t with
    | error e => rw [hfinish] at hscan; cases hscan
    | ok found => exact hend (by simp) found hfinish
  | cons c rest =>
    cases after with
    | nil => simp at hmore
    | cons d after =>
      obtain rfl : c = d := (List.cons_prefix_cons.mp hmore).1
      have hstep : step t c = .error halt := hstops
      rw [scan, hstep] at hscan
      cases hscan

/-- What stands before a fault has been read.  If something is left over, it is the longest
beginning that spells segments. -/
theorem exists_before_of_scan {offset place : Nat} {text : List Char} {fault : PathFault}
    (h : scan offset .start text = .error (fault, place)) :
    ∃ before t, before <+: text ∧ place = offset + bytes before ∧ steps .start before = .ok t
      ∧ (fault = .leftover → IsLongest SpellsSegments before text) := by
  obtain ⟨before, after, t, halt, rfl, hsteps, hstops, rfl, rfl⟩ := exists_stops_of_scan h
  have hpart := List.prefix_append before after
  rcases cases_stops hstops with ⟨hback, hfinish⟩ | ⟨hback, done, rfl⟩
      | ⟨hfault, done, name, taken, rfl, hback⟩
  · refine ⟨before, t, hpart, by omega, hsteps, fun hleft => ⟨hpart, ?_, ?_⟩⟩
    · obtain ⟨found, hfound⟩ := hfinish hleft
      exact ⟨_, allSpelledBy_of_finish hsteps hfound⟩
    · intro longer hlonger hspelled
      by_contra hlt
      exact not_spellsSegments_of_stops hsteps hstops hlonger (by omega) (by omega) hspelled
  · obtain ⟨kept, u, rfl, hkept, hfinish⟩ := exists_before_point hsteps
    have hshorter : kept <+: kept ++ ['.'] ++ after :=
      (List.prefix_append kept ['.']).trans hpart
    have hplace : bytes (kept ++ ['.']) = bytes kept + 1 := by
      rw [bytes_append]
      rfl
    refine ⟨kept, u, hshorter, by omega, hkept, fun _ => ⟨hshorter, ?_, ?_⟩⟩
    · exact ⟨_, allSpelledBy_of_finish hkept hfinish⟩
    · intro longer hlonger hspelled
      by_contra hlt
      refine not_spellsSegments_of_stops hsteps hstops hlonger ?_ (fun _ => nofun) hspelled
      simp only [List.length_append, List.length_singleton]
      omega
  · obtain ⟨kept, rfl, hkept⟩ := exists_before_index hsteps
    have hplace : bytes (kept ++ taken.reverse) = bytes kept + bytes taken := by
      rw [bytes_append, bytes_reverse]
    exact ⟨kept, _, (List.prefix_append kept taken.reverse).trans hpart, by omega, hkept,
      fun hleft => absurd hleft hfault⟩

/-! ## Texts of paths -/

/-- A text names a location. -/
def NamesLocation (text : List Char) : Prop := ∃ l, location? text = .ok l

theorem namesLocation_of_splitGlobal {text rest : List Char} {isGlobal : Bool}
    (h : splitGlobal text = (isGlobal, rest)) : NamesLocation text ↔ SpellsSegments rest := by
  constructor
  · rintro ⟨l, hl⟩
    exact ⟨l.segments, (scan_eq_ok_iff _).mp ((location?_of_splitGlobal h).mp hl).2⟩
  · rintro ⟨segments, hspelled⟩
    exact ⟨⟨isGlobal, segments⟩, (location?_of_splitGlobal h).mpr
      ⟨rfl, (scan_eq_ok_iff _).mpr hspelled⟩⟩

/-- A text with the mark of a global path names a location if the rest spells segments. -/
theorem namesLocation_globalWord {text : List Char} :
    NamesLocation (globalWord.toList ++ '.' :: text) ↔ SpellsSegments text :=
  namesLocation_of_splitGlobal (splitGlobal_globalWord text)

/-- A text that spells segments names a location. -/
theorem namesLocation_of_spellsSegments {text : List Char} (h : SpellsSegments text) :
    NamesLocation text := by
  obtain ⟨segments, hspelled⟩ := h
  exact exists_location?_iff.mpr ⟨⟨false, segments⟩, .plain hspelled⟩

theorem scan_of_location?_eq_error {text rest : List Char} {isGlobal : Bool}
    {e : PathFault × Nat} (h : splitGlobal text = (isGlobal, rest))
    (herror : location? text = .error e) :
    scan (if isGlobal then 7 else 0) .start rest = .error e := by
  simp only [location?, h] at herror
  cases hscan : scan (if isGlobal then 7 else 0) .start rest with
  | ok segments => rw [hscan] at herror; cases herror
  | error found => rw [hscan] at herror; cases herror; rfl

/-- The longest part of a global path that names a location ends where that of the rest does. -/
theorem isLongest_globalWord {text whole : List Char} (h : IsLongest SpellsSegments text whole) :
    IsLongest NamesLocation (globalWord.toList ++ '.' :: text)
      (globalWord.toList ++ '.' :: whole) where
  isPrefix := by simpa using h.isPrefix
  holds := namesLocation_globalWord.mpr h.holds
  longest longer hpart hnames := by
    by_contra hlt
    have hbegins : BeginsGlobal longer := by
      refine List.prefix_of_prefix_length_le (beginsGlobal_iff.mpr ⟨whole, rfl⟩) hpart ?_
      simp at hlt ⊢
      omega
    obtain ⟨rest, rfl⟩ := beginsGlobal_iff.mp hbegins
    have hle := h.longest rest (by simpa using hpart) (namesLocation_globalWord.mp hnames)
    simp at hlt
    omega

theorem isLongest_of_not_beginsGlobal {text whole : List Char} (hwhole : ¬ BeginsGlobal whole)
    (h : IsLongest SpellsSegments text whole) : IsLongest NamesLocation text whole where
  isPrefix := h.isPrefix
  holds := namesLocation_of_spellsSegments h.holds
  longest longer hpart hnames := by
    have hself : splitGlobal longer = (false, longer) :=
      splitGlobal_eq_self_of_not fun hbegins => hwhole (hbegins.trans hpart)
    exact h.longest longer hpart ((namesLocation_of_splitGlobal hself).mp hnames)

/-- What stands before a fault is the beginning of a text that names a location. -/
theorem exists_before_of_location? {place : Nat} {text : List Char} {fault : PathFault}
    (h : location? text = .error (fault, place)) :
    ∃ before, before <+: text ∧ place = bytes before ∧ (∃ more, NamesLocation (before ++ more))
      ∧ (fault = .leftover → IsLongest NamesLocation before text) := by
  by_cases hbegins : BeginsGlobal text
  · obtain ⟨rest, rfl⟩ := beginsGlobal_iff.mp hbegins
    obtain ⟨before, t, hpart, rfl, hsteps, hlongest⟩ :=
      exists_before_of_scan (scan_of_location?_eq_error (splitGlobal_globalWord rest) h)
    obtain ⟨more, hmore⟩ := exists_allSpelledBy_append hsteps
    refine ⟨globalWord.toList ++ '.' :: before, by simpa using hpart, ?_, ⟨more, ?_⟩,
      fun hleft => isLongest_globalWord (hlongest hleft)⟩
    · have hword : bytes globalWord.toList = 6 := rfl
      have hpoint : ('.').utf8Size = 1 := rfl
      simp only [bytes_append, bytes_cons, hword, hpoint, if_true]
      omega
    · rw [List.append_assoc, List.cons_append]
      exact namesLocation_globalWord.mpr hmore
  · obtain ⟨before, t, hpart, rfl, hsteps, hlongest⟩ :=
      exists_before_of_scan (scan_of_location?_eq_error (splitGlobal_eq_self_of_not hbegins) h)
    obtain ⟨more, hmore⟩ := exists_allSpelledBy_append hsteps
    exact ⟨before, hpart, by simp, ⟨more, namesLocation_of_spellsSegments hmore⟩,
      fun hleft => isLongest_of_not_beginsGlobal hbegins (hlongest hleft)⟩

theorem utf8ByteSize_ofList (text : List Char) :
    (String.ofList text).utf8ByteSize = bytes text := by
  induction text with
  | nil => rfl
  | cons c rest ih =>
    have happend : String.ofList (c :: rest) = String.singleton c ++ String.ofList rest := by
      rw [String.singleton_eq_ofList, ← String.ofList_append, List.singleton_append]
    rw [happend, String.utf8ByteSize_append, String.utf8ByteSize_singleton, ih, bytes_cons]

/-- A text can be parsed exactly if it names a location. -/
theorem exists_parse_iff {span : Span} {text : String} :
    (∃ p, parse span text = .ok p) ↔ NamesLocation text.toList := by
  constructor
  · rintro ⟨p, hp⟩
    exact ⟨p.location, (parse_eq_ok.mp hp).2⟩
  · rintro ⟨l, hl⟩
    exact ⟨⟨l, span⟩, parse_eq_ok.mpr ⟨rfl, hl⟩⟩

/-- The offset of a fault is that of a beginning of the text which is the beginning of a path.  If
something is left over, it is the longest beginning that is a path. -/
theorem exists_before_of_parse {span : Span} {text : String} {e : PathError}
    (h : parse span text = .error e) :
    e.offset ≤ text.utf8ByteSize ∧ ∃ before after : String, before ++ after = text
      ∧ before.utf8ByteSize = e.offset
      ∧ (∃ more p, parse span (before ++ more) = .ok p)
      ∧ (e.fault.reason = "unexpected input" →
        (∃ p, parse span before = .ok p)
          ∧ ∀ longer rest : String, longer ++ rest = text → (∃ p, parse span longer = .ok p) →
            longer.length ≤ before.length) := by
  have hlocation : location? text.toList = .error (e.fault, e.offset) := by
    rw [parse] at h
    cases hl : location? text.toList with
    | ok l => rw [hl] at h; cases h
    | error found => rw [hl] at h; cases h; rfl
  obtain ⟨before, ⟨after, hafter⟩, hplace, ⟨more, hmore⟩, hlongest⟩ :=
    exists_before_of_location? hlocation
  have htext : String.ofList before ++ String.ofList after = text := by
    rw [← String.ofList_append, hafter, String.ofList_toList]
  have hsize : (String.ofList before).utf8ByteSize = e.offset := by
    rw [utf8ByteSize_ofList, hplace]
  refine ⟨?_, String.ofList before, String.ofList after, htext, hsize, ?_, fun hreason => ?_⟩
  · rw [← hsize, ← htext, String.utf8ByteSize_append]
    exact Nat.le_add_right _ _
  · refine ⟨String.ofList more, exists_parse_iff.mpr ?_⟩
    rwa [← String.ofList_append, String.toList_ofList]
  · have hleft : e.fault = .leftover := by
      cases hfault : e.fault with
      | leftover => rfl
      | _ => rw [hfault] at hreason; revert hreason; decide
    obtain ⟨-, hbefore, hmost⟩ := hlongest hleft
    refine ⟨exists_parse_iff.mpr (by rwa [String.toList_ofList]), fun longer rest hrest hp => ?_⟩
    have hpart : longer.toList <+: text.toList :=
      ⟨rest.toList, by rw [← String.toList_append, hrest]⟩
    rw [String.length_ofList, ← String.length_toList]
    exact hmost longer.toList hpart (exists_parse_iff.mp hp)

/-- A second index is left over, in a text with a letter of two bytes. -/
theorem exists_before_twoIndices : ∃ e, parse .unknown "global.é[1][2]" = .error e
    ∧ ∃ before after : String, before ++ after = "global.é[1][2]" ∧ before.utf8ByteSize = 12
      ∧ (∃ p, parse .unknown before = .ok p)
      ∧ ∀ longer rest : String, longer ++ rest = "global.é[1][2]" →
        (∃ p, parse .unknown longer = .ok p) → longer.length ≤ before.length := by
  have herror : parse .unknown "global.é[1][2]"
      = .error ⟨"global.é[1][2]", 12, .leftover⟩ := by decide +kernel
  obtain ⟨-, before, after, htext, hsize, -, hlongest⟩ := exists_before_of_parse herror
  obtain ⟨hbefore, hmost⟩ := hlongest rfl
  exact ⟨_, herror, before, after, htext, hsize, hbefore, hmost⟩

end Path

end Correlation
