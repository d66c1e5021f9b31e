import Correlation.Proofs.Records

/-!
# Values recovered from their texts

A printed text may be read by a form that has something against the value, or where values may not
be nested so deeply.  Then reading fails.  But if it does not fail, it yields the value that was
printed (`eq_of_read_chars`).  There is one condition.  A form passes over what nobody asks for, and
so it has to ask for every part of the value (`Keeps`).

The induction is that of `run_chars`, the other way round.  There, nothing is wrong with the value,
and so the machine goes on after it.  Here the machine has read the text to its end, and so nothing
can have been wrong on the way.
-/

namespace Correlation

namespace Json

/-! ## Forms that keep a value -/

mutual

/-- A form asks for a value and for all of its parts. -/
def Keeps (form : Form ε) : Json → Prop
  | .array items => form.isSkipped = false ∧ ItemsKept form [] items
  | .object fields => form.isSkipped = false ∧ FieldsKept form fields
  | _ => form.isSkipped = false

/-- A form asks for items after some others, which are given newest first. -/
def ItemsKept (form : Form ε) (before : List Json) : List Json → Prop
  | [] => True
  | item :: rest =>
    (∃ inner, form.item? before = some inner ∧ Keeps inner item)
      ∧ ItemsKept form (item :: before) rest

/-- A form asks for fields. -/
def FieldsKept (form : Form ε) : List (String × Json) → Prop
  | [] => True
  | (key, value) :: rest => Keeps (form.field key) value ∧ FieldsKept form rest

end

/-- A form that keeps a value skips nothing of it. -/
theorem Keeps.isSkipped {form : Form ε} {j : Json} (h : Keeps form j) :
    form.isSkipped = false := by
  cases j with
  | array _ | object _ => exact h.1
  | null | bool _ | integer _ | real _ | string _ => exact h

mutual

/-- The form of all values asks for every part. -/
theorem keeps_any (judge : Json → Option ε) (j : Json) : Keeps (.judged .any judge) j := by
  match j with
  | .array items => exact ⟨rfl, itemsKept_any judge items []⟩
  | .object fields => exact ⟨rfl, fieldsKept_any judge fields⟩
  | .null | .bool _ | .integer _ | .real _ | .string _ => rfl

theorem itemsKept_any (judge : Json → Option ε) (items before : List Json) :
    ItemsKept (.judged .any judge) before items := by
  match items with
  | [] => trivial
  | item :: rest =>
    exact ⟨⟨.any, rfl, keeps_any _ item⟩, itemsKept_any judge rest (item :: before)⟩

theorem fieldsKept_any (judge : Json → Option ε) (fields : List (String × Json)) :
    FieldsKept (.judged .any judge) fields := by
  match fields with
  | [] => trivial
  | (_, value) :: rest => exact ⟨keeps_any _ value, fieldsKept_any judge rest⟩

end

section Forms

variable {form : Form ε} (hform : form.isSkipped = false)
include hform

/-- An object is kept if the value of every field is. -/
theorem keeps_object {fields : List (String × Json)}
    (h : ∀ field ∈ fields, Keeps (form.field field.1) field.2) : Keeps form (.object fields) := by
  refine ⟨hform, ?_⟩
  induction fields with
  | nil => trivial
  | cons field rest ih =>
    obtain ⟨hfield, hrest⟩ := List.forall_mem_cons.mp h
    exact ⟨hfield, ih hrest⟩

/-- A list is kept if every item is, wherever it stands. -/
theorem keeps_array {items : List Json}
    (h : ∀ item ∈ items, ∀ before, ∃ inner, form.item? before = some inner ∧ Keeps inner item) :
    Keeps form (.array items) := by
  refine ⟨hform, ?_⟩
  generalize [] = before
  induction items generalizing before with
  | nil => trivial
  | cons item rest ih =>
    obtain ⟨hitem, hrest⟩ := List.forall_mem_cons.mp h
    exact ⟨hitem before, ih hrest (item :: before)⟩

/-- A form that asks for anything in all places keeps every value. -/
theorem keeps_of_parts
    (hitem : ∀ before, ∃ inner, form.item? before = some inner ∧ ∀ j, Keeps inner j)
    (hfield : ∀ key j, Keeps (form.field key) j) (j : Json) : Keeps form j := by
  cases j with
  | array items =>
    refine keeps_array hform fun item _ before => ?_
    obtain ⟨inner, hinner, hall⟩ := hitem before
    exact ⟨inner, hinner, hall item⟩
  | object fields => exact keeps_object hform fun field _ => hfield field.1 field.2
  | null | bool _ | integer _ | real _ | string _ => exact hform

end Forms

theorem keeps_scalar (judge : Json → Option ε) (j : Json) : Keeps (.judged .scalar judge) j := by
  refine keeps_of_parts rfl (fun _ => ⟨.any, rfl, keeps_any _⟩) (fun _ => ?_) j
  exact keeps_any _

theorem keeps_tagged (kinds : List (Kind α)) (read : Json → Except Mismatch α) (j : Json) :
    Keeps (taggedForm kinds read) j := by
  refine keeps_of_parts rfl (fun before => ?_) (fun key => ?_) j
  · cases before with
    | nil => exact ⟨_, rfl, keeps_scalar _⟩
    | cons item rest => exact ⟨.any, rfl, keeps_any _⟩
  · simp only [taggedForm, Form.of, Form.field]
    split
    case isTrue => exact keeps_scalar _
    case isFalse => exact keeps_any _

/-- A list is kept if what its items are written of is. -/
theorem keeps_list_map {item : Form Mismatch} {read : Json → Except Mismatch α} {write : β → Json}
    {bs : List β} (h : ∀ b ∈ bs, Keeps item (write b)) :
    Keeps (listForm item read) (.array (bs.map write)) := by
  refine keeps_array rfl fun j hj _ => ⟨item, rfl, ?_⟩
  obtain ⟨b, hb, rfl⟩ := List.mem_map.mp hj
  exact h b hb

/-! ## Steps that were made -/

section Steps

variable {limit : Nat} {stack : List (Container ε)} {form : Form ε} {text : List Char}
  {value : Json}

/-- A run that comes to a value has made a first step. -/
theorem exists_step_of_run_cons {r : Reader ε} {c : Char}
    (h : run limit r (c :: text) = .ok value) :
    ∃ s, step limit r c = .ok s ∧ run limit s text = .ok value := by
  rw [run_cons] at h
  cases hstep : step limit r c with
  | error refusal => rw [hstep] at h; cases h
  | ok s => exact ⟨s, rfl, by rwa [hstep] at h⟩

/-- What is heeded has not been objected to. -/
theorem eq_ok_of_heed {objection : Option ε} {a : Except (Refusal ε) α} {b : α}
    (h : heed objection a = .ok b) : a = .ok b := by
  cases objection with
  | some reason => cases h
  | none => exact h

/-- A complete value that is kept is what is left of it. -/
theorem run_of_settle (hkept : form.isSkipped = false) {j : Json}
    (h : ((settle form j).bind fun j => run limit ⟨stack, .after j⟩ text) = .ok value) :
    run limit ⟨stack, .after j⟩ text = .ok value := by
  cases form with
  | skipped => cases hkept
  | judged shape judge =>
    rw [settle] at h
    cases hobjection : (Form.judged shape judge).objection? j with
    | some reason => rw [hobjection] at h; cases h
    | none => rwa [hobjection] at h

theorem run_of_complete (hkept : form.isSkipped = false) {j : Json}
    (h : ((complete stack form j).bind fun r => run limit r text) = .ok value) :
    run limit ⟨stack, .after j⟩ text = .ok value := by
  refine run_of_settle hkept ?_
  rw [complete] at h
  cases hsettle : settle form j with
  | error refusal => rw [hsettle] at h; cases h
  | ok kept => rwa [hsettle] at h

/-- A key is there after its end. -/
theorem run_of_endKey {r : Reader ε} {fields : List (String × Json)} {key : String}
    (h : ((endKey stack form fields key).bind fun _ => run limit r text) = .ok value) :
    run limit r text = .ok value := by
  rw [endKey] at h
  cases hobjection : form.keyObjection? fields key with
  | some reason => rw [hobjection] at h; cases h
  | none => rwa [hobjection] at h

/-- Only a string or an object is a name. -/
theorem isName_eq_false_of_step {c : Char} {r : Reader ε} (hspace : isSpace c = false)
    (hquote : c ≠ '"') (hbrace : c ≠ '{') (h : step limit ⟨stack, .value form⟩ c = .ok r) :
    form.isName = false := by
  cases hname : form.isName with
  | false => rfl
  | true => simp [step, startValue, hspace, hquote, hbrace, hname, refuse] at h

/-- A descent that succeeds goes on with the given reading. -/
theorem eq_of_descend {reading : Reading ε} {r : Reader ε}
    (h : descend limit stack form reading = .ok r) : r = ⟨stack, reading⟩ := by
  rw [descend] at h
  split at h <;> cases h
  rfl

/-- The machine is in a list after its first character. -/
theorem run_of_beginList (h : run limit ⟨stack, .value form⟩ ('[' :: text) = .ok value) :
    run limit ⟨stack, .firstItem form⟩ text = .ok value := by
  obtain ⟨r, hstep, hrun⟩ := exists_step_of_run_cons h
  have hname := isName_eq_false_of_step rfl (by simp) (by simp) hstep
  simp only [step, startValue, isSpace, hname] at hstep
  rwa [eq_of_descend (eq_ok_of_heed hstep)] at hrun

/-- The machine is in an object after its first character. -/
theorem run_of_beginObject (h : run limit ⟨stack, .value form⟩ ('{' :: text) = .ok value) :
    run limit ⟨stack, .firstKey form⟩ text = .ok value := by
  obtain ⟨r, hstep, hrun⟩ := exists_step_of_run_cons h
  simp only [step, startValue, isSpace] at hstep
  rwa [eq_of_descend (eq_ok_of_heed hstep)] at hrun

/-- A name is not written as an object without fields. -/
theorem isName_eq_false_of_endObject
    (h : run limit ⟨stack, .firstKey form⟩ ('}' :: text) = .ok value) : form.isName = false := by
  obtain ⟨r, hstep, -⟩ := exists_step_of_run_cons h
  cases hname : form.isName with
  | false => rfl
  | true => simp [step, isSpace, hname, refuse] at hstep

/-- A name is not written as an object with two fields. -/
theorem isName_eq_false_of_betweenFields {fields : List (String × Json)} {key : String}
    {last : Json}
    (h : run limit ⟨.object form fields key :: stack, .after last⟩ (',' :: text) = .ok value) :
    form.isName = false := by
  obtain ⟨r, hstep, -⟩ := exists_step_of_run_cons h
  cases hname : form.isName with
  | false => rfl
  | true => simp [step, afterValue, afterField, isSpace, hname] at hstep

end Steps

/-! ## Values -/

mutual

/-- If a text can be read that goes on from that of a value, it is read on from the value. -/
theorem run_after_of_run_chars {limit : Nat} {layout : Layout} (hlayout : layout.IsBlank) (j : Json)
    (hexact : j.Exact) {form : Form ε} (hkeeps : Keeps form j) {stack : List (Container ε)}
    {depth : Nat} {text : List Char} (ht : Delimited text) {value : Json}
    (h : run limit ⟨stack, .value form⟩ (j.chars layout depth ++ text) = .ok value) :
    run limit ⟨stack, .after j⟩ text = .ok value := by
  match j with
  | .null | .bool true | .bool false =>
    obtain ⟨_, hstep, -⟩ := exists_step_of_run_cons h
    have hname := isName_eq_false_of_step rfl (by simp) (by simp) hstep
    refine run_of_complete hkeeps ?_
    simpa [chars, run_cons, step, startValue, isSpace, Except.bind, hname] using h
  | .real _ => exact hexact.elim
  | .integer n =>
    have hname : form.isName = false := by
      obtain ⟨c, rest, hc, hfirst⟩ := exists_integerChars_eq_cons n
      rw [chars, hc] at h
      obtain ⟨_, hstep, -⟩ := exists_step_of_run_cons h
      rcases hfirst with rfl | hdigit
      · exact isName_eq_false_of_step rfl (by simp) (by simp) hstep
      · obtain ⟨hspace, hquote, hbrace, -⟩ := ne_of_isDigit hdigit
        exact isName_eq_false_of_step hspace hquote hbrace hstep
    rw [chars, run_integerChars hexact hname hkeeps ht] at h
    exact run_of_settle hkeeps h
  | .string text =>
    have hquote : step limit ⟨stack, .value form⟩ '"' = .ok ⟨stack, .string form .start⟩ := by
      simp [step, startValue, isSpace]
    simp only [chars, quoted, List.cons_append, List.append_assoc, List.nil_append] at h
    rw [run_cons_of_step hquote, (inString_string hkeeps).run_quoted] at h
    exact run_of_complete hkeeps h
  | .array [] =>
    simp only [chars, List.cons_append, List.nil_append] at h
    have hend := run_of_beginList h
    rw [run_endEmptyList] at hend
    exact run_of_complete hkeeps.isSkipped hend
  | .array (item :: rest) =>
    obtain ⟨hkept, ⟨inner, hinner, hitem⟩, hrest⟩ := hkeeps
    have hend : Delimited (layout.newline depth ++ ']' :: text) :=
      delimited_blanks_append (hlayout.newline depth) (delimited_cons (by decide) text)
    simp only [chars, List.cons_append, List.append_assoc, List.nil_append] at h
    have hitems := run_of_beginList h
    rw [run_blanks rfl (hlayout.newline (depth + 1)),
      run_item step_firstItem hinner hexact.1] at hitems
    have hafter := run_after_of_run_chars hlayout item hexact.1 hitem
      (delimited_itemsChars hend (depth + 1) rest) hitems
    exact run_after_of_run_itemsChars hlayout rest hexact.2 hkept hrest hafter
  | .object [] =>
    simp only [chars, List.cons_append, List.nil_append] at h
    have hend := run_of_beginObject h
    rw [run_endEmptyObject (isName_eq_false_of_endObject hend)] at hend
    exact run_of_complete hkeeps.isSkipped hend
  | .object ((key, value) :: rest) =>
    obtain ⟨hkept, hvalue, hrest⟩ := hkeeps
    have hend : Delimited (layout.newline depth ++ '}' :: text) :=
      delimited_blanks_append (hlayout.newline depth) (delimited_cons (by decide) text)
    simp only [chars, List.cons_append, List.append_assoc, List.nil_append] at h
    have hfields := run_of_beginObject h
    rw [run_blanks rfl (hlayout.newline (depth + 1)),
      run_key step_firstKey hkept key hlayout.space] at hfields
    have hafter := run_after_of_run_chars hlayout value hexact.1 hvalue
      (delimited_fieldsChars hend (depth + 1) rest) (run_of_endKey hfields)
    exact run_after_of_run_fieldsChars hlayout rest hexact.2 hkept hrest hafter

/-- If a text can be read that goes on from the items of a list, it is read on from the list. -/
theorem run_after_of_run_itemsChars {limit : Nat} {layout : Layout} (hlayout : layout.IsBlank)
    (rest : List Json) (hexact : ItemsExact rest) {form : Form ε} (hkept : form.isSkipped = false)
    {before : List Json} {item : Json} (hkeeps : ItemsKept form (item :: before) rest)
    {stack : List (Container ε)} {depth outer : Nat} {text : List Char} {value : Json}
    (h : run limit ⟨.array form before :: stack, .after item⟩
      (itemsChars layout depth rest ++ (layout.newline outer ++ ']' :: text)) = .ok value) :
    run limit ⟨stack, .after (.array ((item :: before).reverse ++ rest))⟩ text = .ok value := by
  match rest with
  | [] =>
    rw [itemsChars, List.nil_append, run_endList (hlayout.newline outer)] at h
    rw [List.append_nil]
    exact run_of_complete hkept h
  | next :: rest =>
    obtain ⟨⟨inner, hinner, hnext⟩, hrest⟩ := hkeeps
    have hend : Delimited (layout.newline outer ++ ']' :: text) :=
      delimited_blanks_append (hlayout.newline outer) (delimited_cons (by decide) text)
    simp only [itemsChars, List.cons_append, List.append_assoc] at h
    rw [run_cons_of_step (step_betweenItems item), run_blanks rfl (hlayout.newline depth),
      run_item step_nextItem hinner hexact.1] at h
    have hafter := run_after_of_run_chars hlayout next hexact.1 hnext
      (delimited_itemsChars hend depth rest) h
    have hlist : (item :: before).reverse ++ next :: rest
        = (next :: item :: before).reverse ++ rest := by simp
    rw [hlist]
    exact run_after_of_run_itemsChars hlayout rest hexact.2 hkept hrest hafter

/-- If a text can be read that goes on from the fields of an object, it is read on from the
object. -/
theorem run_after_of_run_fieldsChars {limit : Nat} {layout : Layout} (hlayout : layout.IsBlank)
    (rest : List (String × Json)) (hexact : FieldsExact rest) {form : Form ε}
    (hkept : form.isSkipped = false) {before : List (String × Json)} {key : String} {last : Json}
    (hkeeps : FieldsKept form rest) {stack : List (Container ε)} {depth outer : Nat}
    {text : List Char} {value : Json}
    (h : run limit ⟨.object form before key :: stack, .after last⟩
      (fieldsChars layout depth rest ++ (layout.newline outer ++ '}' :: text)) = .ok value) :
    run limit ⟨stack, .after (.object (((key, last) :: before).reverse ++ rest))⟩ text
      = .ok value := by
  match rest with
  | [] =>
    rw [fieldsChars, List.nil_append, run_endObject (hlayout.newline outer)] at h
    rw [List.append_nil]
    exact run_of_complete hkept h
  | (second, next) :: rest =>
    obtain ⟨hnext, hrest⟩ := hkeeps
    have hend : Delimited (layout.newline outer ++ '}' :: text) :=
      delimited_blanks_append (hlayout.newline outer) (delimited_cons (by decide) text)
    simp only [fieldsChars, List.cons_append, List.append_assoc] at h
    rw [run_cons_of_step (step_betweenFields (isName_eq_false_of_betweenFields h) key last),
      run_blanks rfl (hlayout.newline depth), run_key step_nextKey hkept second hlayout.space] at h
    have hafter := run_after_of_run_chars hlayout next hexact.1 hnext
      (delimited_fieldsChars hend depth rest) (run_of_endKey h)
    have hlist : ((key, last) :: before).reverse ++ (second, next) :: rest
        = ((second, next) :: (key, last) :: before).reverse ++ rest := by simp
    rw [hlist]
    exact run_after_of_run_fieldsChars hlayout rest hexact.2 hkept hrest hafter

end

/-- A printed value is read as it is or not at all, by a form that asks for it. -/
theorem eq_of_read_chars {layout : Layout} (hlayout : layout.IsBlank) {j : Json} (hexact : j.Exact)
    {form : Form ε} (hkeeps : Keeps form j) {limit : Nat} {value : Json}
    (h : read limit form (j.chars layout 0) = .ok value) : value = j := by
  have hrun : run limit (.start form) (j.chars layout 0 ++ []) = .ok value := by
    rw [List.append_nil]
    exact run_eq_of_scan h
  have hafter := run_after_of_run_chars hlayout j hexact hkeeps delimited_nil hrun
  cases hafter
  rfl

end Json

end Correlation
