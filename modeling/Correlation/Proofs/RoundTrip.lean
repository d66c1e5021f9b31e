import Correlation.Check.Verdict
import Correlation.Proofs.Loading

/-!
# Printed programs

A printed program is loaded as it is: every statement and expression with all its parts, every place
in the source and the order of all lists.  There are four conditions.  The program has a file, for
one without takes that of the text.  It holds no real number.  The text of each of its paths names
that path.  And its text is not nested too deeply to be read.  The text fits the form of programs
(`Program.fits_toJson`), so it is read as its value, and that as the program (`decode_print`).

A program that was loaded meets the condition on paths unless one of them does not tell itself
(`Location.isTold`).  Then loading, printing and loading again makes no difference to what is found
wrong with the program (`Program.Reloads`).  Otherwise the program may not be loaded again at all.
-/

namespace Correlation

open Json

/-! ## Forms -/

theorem fits_text (text : String) : Fits textForm (.string text) :=
  fits_scalar rfl (show Json.text (.string text) = .ok text from rfl)

theorem Point.fits_toJson (p : Point) : Fits form p.toJson := by
  have hword : ∀ n : UInt32, Fits word32Form (.integer n.toNat) := fun n =>
    fits_scalar rfl (word32_toNat n)
  refine fits_record p.ofJson_toJson (by simp) ?_
  simp only [List.forall_mem_cons]
  exact ⟨hword _, hword _, hword _, nofun⟩

theorem Span.fits_toJson (s : Span) : Fits form s.toJson := by
  cases s with
  | unknown => exact fits_name (Span.ofJson_toJson false .unknown)
  | between first last file =>
    refine fits_nameWith (Span.ofJson_toJson false (.between first last file)) rfl ?_
    refine fits_record (betweenOfJson_toJson false first last file) (by simp) ?_
    simp only [List.forall_mem_cons]
    exact ⟨first.fits_toJson, last.fits_toJson, fits_text file, nofun⟩

theorem Path.fits_toJson {p : Path} (h : p.Reparses) : Fits form p.toJson :=
  fits_whole (ofJson_toJson h)

theorem ExecutionMode.fits_toJson (m : ExecutionMode) : Fits form m.toJson := by
  have hread := m.ofJson_toJson
  cases m <;> exact fits_name hread

theorem Statement.fits_toJson (s : Statement) (h : ∀ a ∈ s.atoms, a.IsPlain) :
    Fits form s.toJson := by
  have hread := s.ofJson_toJson h false
  cases s <;> exact fits_ofKind hread rfl

theorem CorrelationAlias.fits_toJson (a : CorrelationAlias) (h : a.path.Reparses) :
    Fits form a.toJson := by
  refine fits_record (a.ofJson_toJson h) (by simp) ?_
  simp only [List.forall_mem_cons]
  exact ⟨fits_text a.operation, Path.fits_toJson h, nofun⟩

theorem CorrelationVariable.fits_toJson (v : CorrelationVariable)
    (h : ∀ a ∈ v.atoms, a.IsPlain) : Fits form v.toJson := by
  obtain ⟨hpath, halias⟩ := List.forall_mem_cons.mp h
  have haliases : Fits (listForm CorrelationAlias.form CorrelationAlias.ofJson)
      (.array (v.aliases.map CorrelationAlias.toJson)) :=
    fits_list_map fun a ha => a.fits_toJson (halias (.path a.path) (List.mem_map_of_mem ha))
  refine fits_record (v.ofJson_toJson h) (by simp) ?_
  simp only [List.forall_mem_cons]
  exact ⟨Path.fits_toJson hpath, haliases, nofun⟩

theorem CorrelationSet.fits_toJson (s : CorrelationSet) (h : ∀ a ∈ s.atoms, a.IsPlain) :
    Fits form s.toJson := by
  have hmembers : Fits (listForm CorrelationVariable.form CorrelationVariable.ofJson)
      (.array (s.members.map CorrelationVariable.toJson)) :=
    fits_list_map fun v hv => v.fits_toJson fun a ha => h a (List.mem_flatMap.mpr ⟨v, hv, ha⟩)
  refine fits_record (s.ofJson_toJson h) (by simp) ?_
  simp only [List.forall_mem_cons]
  exact ⟨s.span.fits_toJson, fits_text s.name, hmembers, nofun⟩

theorem Definition.fits_toJson (d : Definition) (h : ∀ a ∈ d.body.atoms, a.IsPlain) :
    Fits form d.toJson := by
  refine fits_record (d.ofJson_toJson h) (by simp) ?_
  simp only [List.forall_mem_cons]
  exact ⟨d.span.fits_toJson, fits_text d.name, d.body.fits_toJson h, nofun⟩

namespace Program

/-- A written program fits its form if its atoms are plain. -/
theorem fits_toJson {p : Program} (h : ∀ a ∈ p.atoms, a.IsPlain) : Fits form p.toJson := by
  have hsets : Fits (listForm CorrelationSet.form CorrelationSet.ofJson)
      (.array (p.correlationSets.map CorrelationSet.toJson)) :=
    fits_list_map fun s hs => s.fits_toJson (isPlain_of_mem_correlationSets h hs)
  have hdefinitions : Fits (listForm Definition.form Definition.ofJson)
      (.array (p.definitions.map Definition.toJson)) :=
    fits_list_map fun d hd => d.fits_toJson (isPlain_of_mem_definitions h hd)
  refine fits_record (ofJson_toJson h) (by simp) ?_
  simp only [List.forall_mem_cons]
  exact ⟨fits_text p.file, p.execution.fits_toJson, hsets, hdefinitions, nofun⟩

/-! ## Loading what was printed -/

/-- The text of a program is read as its value, and that as the program. -/
theorem decode_print {p : Program} (h : ∀ a ∈ p.atoms, a.IsPlain)
    (hdepth : p.toJson.depth ≤ nestingLimit) : decode form ofJson p.print.toList = .ok p := by
  have hread : read nestingLimit form p.print.toList = .ok p.toJson := by
    rw [print, pretty, String.toList_ofList]
    have hpath : ∀ a ∈ p.atoms, a.IsPath := fun a ha => (h a ha).isPath
    exact read_chars isBlank_pretty (exact_toJson hpath) (fits_toJson h) hdepth
  simp only [decode, hread, ofJson_toJson h]
  rfl

/-- A printed program is loaded as it is, from whatever file the text is said to come. -/
theorem load_print (p : Program) (hreal : ∀ x, Atom.real x ∉ p.atoms)
    (hpath : ∀ q, Atom.path q ∈ p.atoms → q.Reparses) (hfile : p.file ≠ unknownFile)
    (hdepth : p.toJson.depth ≤ nestingLimit) (file : String) : load p.print file = .ok p := by
  have hplain : ∀ a ∈ p.atoms, a.IsPlain := fun a ha => by
    cases a with
    | path q => exact hpath q ha
    | real x => exact (hreal x ha).elim
  have hdecode := decode_print hplain hdepth
  simp only [load, hdecode, if_neg hfile]

end Program

/-- A shop with places in its source, a computed index, a negative number and a quoted text. -/
def annotatedShop : Program :=
  let span : Span := .between ⟨40, 2, 4⟩ ⟨57, 2, 21⟩ "shop.ol"
  let sid : Path := ⟨⟨false, [.named "sid"]⟩, .unknown⟩
  let price : Path := ⟨⟨true, [⟨.literal "prices", .literal 3⟩]⟩, .unknown⟩
  let item : Path :=
    ⟨⟨false, [⟨.literal "items", .dynamic "i + 1"⟩, ⟨.dynamic "field", .literal 0⟩]⟩, span⟩
  ⟨"shop.ol", .sequential, [⟨span, "session", [⟨sid, [⟨"checkout", sid⟩]⟩]⟩],
    [⟨.unknown, "main", .sequence span
      [.requestResponse .unknown "login" (some item) (some (.string "\"hello\"\n")) (.nothing span),
        .conditional .unknown [⟨.compare (.variable price) (.int (-5)), .undefine span item⟩]
          (some (.compoundAssign .unknown price .add (.update sid .postDecrement)))]⟩]⟩

theorem Program.load_print_annotatedShop :
    load annotatedShop.print "copy.json" = .ok annotatedShop := by
  have hplain : ∀ a ∈ annotatedShop.atoms, a.IsPlain := by decide +kernel
  exact load_print annotatedShop (fun x hx => hplain (.real x) hx)
    (fun q hq => hplain (.path q) hq) (by decide) (by decide +kernel) "copy.json"

/-! ## Printing what was loaded -/

namespace Program

/-- The text of a program is loaded as a program that is checked with the same result. -/
def Reloads (p : Program) (file : String) : Prop :=
  ∃ q, load p.print file = .ok q
    ∧ ∀ mode, (q.check mode).isValid = (p.check mode).isValid
        ∧ (q.check mode).diagnostics = (p.check mode).diagnostics

/-- A program that was loaded can be printed and loaded again, if its text tells its paths. -/
theorem reloads_of_load {source file : String} {p : Program} (hload : load source file = .ok p)
    (htold : ∀ q, Atom.path q ∈ p.atoms → q.location.isTold = true)
    (hreal : ∀ x, Atom.real x ∉ p.atoms) (hdepth : p.toJson.depth ≤ nestingLimit) :
    p.Reloads file := by
  have hplain : ∀ a ∈ p.atoms, a.IsPlain := fun a ha => by
    cases a with
    | path q => exact (Path.reparses_iff_isTold (isRead_of_load hload _ ha)).mpr (htold q ha)
    | real x => exact (hreal x ha).elim
  have hdecode := decode_print hplain hdepth
  refine ⟨p, ?_, fun mode => ⟨rfl, rfl⟩⟩
  simp only [load, hdecode]
  split
  case isTrue hp =>
    rw [file_of_load hload hp, ← hp]
  case isFalse => rfl

/-- Whether an atom is a path that is told by its text. -/
def tellsAtom : Atom → Bool
  | .path q => q.location.isTold
  | .real _ => false

/-- A program in lists that undefines a computed node of a global variable. -/
def computedSource : String :=
  "[\"shop.ol\", \"single\", [], [[\"None\", \"main\", [\"undef\", \"None\", \"global.a[ i ]\"]]]]"

theorem reloads_computedSource :
    ∃ p, load computedSource "shop.json" = .ok p ∧ p.Reloads "shop.json" := by
  have hcheck : ((load computedSource "shop.json").toOption.any fun p =>
      p.atoms.all tellsAtom && decide (p.toJson.depth ≤ nestingLimit)) = true := by
    decide +kernel
  cases hload : load computedSource "shop.json" with
  | error e => rw [hload] at hcheck; cases hcheck
  | ok p =>
    rw [hload] at hcheck
    obtain ⟨hatoms, hdepth⟩ := Bool.and_eq_true_iff.mp hcheck
    have htold : ∀ a ∈ p.atoms, tellsAtom a = true := List.all_eq_true.mp hatoms
    exact ⟨p, rfl, reloads_of_load hload (fun q hq => htold (.path q) hq)
      (fun x hx => by cases htold (.real x) hx) (of_decide_eq_true hdepth)⟩

/-- Whether the characters that are printed of what was loaded from a text can be read. -/
def readsAgain? (source file : String) : Option Bool :=
  match load source file with
  | .error _ => none
  | .ok p => some (decode form ofJson (p.toJson.chars .pretty 0)).toOption.isSome

/-- A program that undefines a blank name. -/
def blankSource : String :=
  "[\"shop.ol\", \"single\", [], [[\"None\", \"main\", [\"undef\", \"None\", \"( )\"]]]]"

/-- Not every program that was loaded can be printed and loaded again. -/
theorem not_reloads_of_load : ¬ ∀ (source file : String) (p : Program),
    load source file = .ok p → p.Reloads file := by
  intro h
  have hfalse : readsAgain? blankSource "shop.json" = some false := by decide +kernel
  rw [readsAgain?] at hfalse
  cases hload : load blankSource "shop.json" with
  | error e => rw [hload] at hfalse; cases hfalse
  | ok p =>
    obtain ⟨q, hq, -⟩ := h blankSource "shop.json" p hload
    have hchars : p.print.toList = p.toJson.chars .pretty 0 := by
      rw [print, pretty, String.toList_ofList]
    cases hd : decode form ofJson (p.toJson.chars .pretty 0) with
    | error refusal => simp only [load, hchars, hd] at hq; cases hq
    | ok _ => simp only [hload, hd] at hfalse; cases hfalse

end Program

end Correlation
