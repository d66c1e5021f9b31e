import Correlation.Interchange.Tagged
import Correlation.Proofs.Tokens

/-!
# Printed values

The text of a value is read back, if the form that guides the reader has nothing against the value.

A form judges a value part by part, while it is read.  `Fits` says that it has nothing against any
part: neither where a list or an object begins, nor at a key, nor where a value is complete.  What a
text can not say is left out: a real number need not be read back, and an integer has to fit in
64 bits (`Exact`).

`run_chars` follows the machine over the text of a value, in any layout and below any stack.  The
induction is over the value.  After it the machine is where it would be with the value given, so
the texts of items and fields can be put together.
-/

namespace Correlation

namespace Json

/-! ## Values and forms -/

mutual

/-- Whether all the numbers of a value are integers of 64 bits. -/
def Exact : Json → Prop
  | .integer n => IsWord n
  | .real _ => False
  | .array items => ItemsExact items
  | .object fields => FieldsExact fields
  | _ => True

/-- Whether all the numbers of items are integers of 64 bits. -/
def ItemsExact : List Json → Prop
  | [] => True
  | item :: rest => item.Exact ∧ ItemsExact rest

/-- Whether all the numbers of fields are integers of 64 bits. -/
def FieldsExact : List (String × Json) → Prop
  | [] => True
  | (_, value) :: rest => value.Exact ∧ FieldsExact rest

end

mutual

/-- A form has nothing against a value and its parts, as they come. -/
def Fits (form : Form ε) : Json → Prop
  | .array items =>
    form.isName = false ∧ form.listObjection? = none ∧ ItemsFit form [] items
      ∧ form.Accepts (.array items)
  | .object fields =>
    (form.isName = true → fields.length = 1) ∧ form.objectObjection? = none
      ∧ FieldsFit form [] fields ∧ form.Accepts (.object fields)
  | .string text => form.Accepts (.string text)
  | .null => form.isName = false ∧ form.Accepts .null
  | .bool value => form.isName = false ∧ form.Accepts (.bool value)
  | .integer n => form.isName = false ∧ form.Accepts (.integer n)
  | .real x => form.isName = false ∧ form.Accepts (.real x)

/-- A form has nothing against items after some others, which are given newest first. -/
def ItemsFit (form : Form ε) (before : List Json) : List Json → Prop
  | [] => True
  | item :: rest =>
    (∃ inner, form.item? before = some inner ∧ Fits inner item)
      ∧ ItemsFit form (item :: before) rest

/-- A form has nothing against fields after some others, which are given newest first. -/
def FieldsFit (form : Form ε) (before : List (String × Json)) : List (String × Json) → Prop
  | [] => True
  | (key, value) :: rest =>
    form.keyObjection? before key = none ∧ Fits (form.field key) value
      ∧ FieldsFit form ((key, value) :: before) rest

end

/-- A form accepts the values that fit it. -/
theorem Fits.accepts {form : Form ε} {j : Json} (h : Fits form j) : form.Accepts j := by
  cases j with
  | string _ => exact h
  | array _ => exact h.2.2.2
  | object _ => exact h.2.2.2
  | null => exact h.2
  | bool _ => exact h.2
  | integer _ => exact h.2
  | real _ => exact h.2

/-! ## Layouts -/

/-- A layout that adds nothing but blanks. -/
structure Layout.IsBlank (layout : Layout) : Prop where
  newline : ∀ depth, ∀ c ∈ layout.newline depth, isSpace c = true
  space : ∀ c ∈ layout.space, isSpace c = true

theorem isBlank_pretty : Layout.pretty.IsBlank where
  newline depth c hc := by
    rcases List.mem_cons.mp hc with rfl | hc
    · rfl
    · rw [List.eq_of_mem_replicate hc]
      rfl
  space c hc := by
    rw [List.mem_singleton.mp hc]
    rfl

/-- Blanks end a number as well as what comes after them. -/
theorem delimited_blanks_append {blanks text : List Char} (hb : ∀ c ∈ blanks, isSpace c = true)
    (ht : Delimited text) : Delimited (blanks ++ text) := by
  cases blanks with
  | nil => exact ht
  | cons c blanks => exact delimited_cons (by simp [endsNumber, hb c List.mem_cons_self]) _

theorem delimited_itemsChars {layout : Layout} {text : List Char} (ht : Delimited text)
    (depth : Nat) (items : List Json) : Delimited (itemsChars layout depth items ++ text) := by
  cases items with
  | nil => exact ht
  | cons item rest => exact delimited_cons (by decide) _

theorem delimited_fieldsChars {layout : Layout} {text : List Char} (ht : Delimited text)
    (depth : Nat) (fields : List (String × Json)) :
    Delimited (fieldsChars layout depth fields ++ text) := by
  cases fields with
  | nil => exact ht
  | cons field rest => exact delimited_cons (by decide) _

/-! ## Parts of lists and objects -/

/-- The text of a value begins with a character that neither is blank nor ends a list. -/
theorem exists_chars_eq_cons {j : Json} (h : j.Exact) (layout : Layout) (depth : Nat) :
    ∃ c rest, j.chars layout depth = c :: rest ∧ isSpace c = false ∧ c ≠ ']' := by
  cases j with
  | null => exact ⟨_, _, rfl, rfl, by decide⟩
  | bool value => cases value <;> exact ⟨_, _, rfl, rfl, by decide⟩
  | string _ => exact ⟨_, _, rfl, rfl, by decide⟩
  | array items => cases items <;> exact ⟨_, _, rfl, rfl, by decide⟩
  | object fields => cases fields <;> exact ⟨_, _, rfl, rfl, by decide⟩
  | real _ => exact h.elim
  | integer n =>
    obtain ⟨c, rest, hc, hfirst⟩ := exists_integerChars_eq_cons n
    refine ⟨c, rest, hc, ?_⟩
    rcases hfirst with rfl | hdigit
    · exact ⟨rfl, by decide⟩
    · exact ⟨(ne_of_isDigit hdigit).1, by rintro rfl; cases hdigit⟩

section Parts

variable {limit : Nat} {stack : List (Container ε)} {form inner : Form ε} {before : List Json}
  {earlier : List (String × Json)} {blanks : List Char}

theorem step_firstItem {c : Char} (hspace : isSpace c = false) (hbracket : c ≠ ']') :
    step limit ⟨stack, .firstItem form⟩ c = startItem limit stack form [] c := by
  simp [step, hspace, hbracket]

theorem step_nextItem {c : Char} (hspace : isSpace c = false) (hbracket : c ≠ ']') :
    step limit ⟨stack, .nextItem form before⟩ c = startItem limit stack form before c := by
  simp [step, hspace, hbracket]

/-- The character between two items. -/
theorem step_betweenItems (item : Json) :
    step limit ⟨.array form before :: stack, .after item⟩ ','
      = .ok ⟨stack, .nextItem form (item :: before)⟩ := by
  simp [step, afterValue, afterItem, isSpace]

theorem step_firstKey :
    step limit ⟨stack, .firstKey form⟩ '"' = .ok ⟨stack, .key form [] .start⟩ := by
  simp [step, isSpace, startKey]

theorem step_nextKey :
    step limit ⟨stack, .nextKey form earlier⟩ '"' = .ok ⟨stack, .key form earlier .start⟩ := by
  simp [step, isSpace, startKey]

/-- The character between two fields. -/
theorem step_betweenFields (hname : form.isName = false) (key : String) (value : Json) :
    step limit ⟨.object form earlier key :: stack, .after value⟩ ','
      = .ok ⟨stack, .nextKey form ((key, value) :: earlier)⟩ := by
  simp [step, afterValue, afterField, isSpace, hname]

/-- An item is read as a value in its list. -/
theorem run_item {reading : Reading ε}
    (hstart : ∀ {c}, isSpace c = false → c ≠ ']' →
      step limit ⟨stack, reading⟩ c = startItem limit stack form before c)
    (hitem : form.item? before = some inner) {j : Json} (hj : j.Exact) (layout : Layout)
    (depth : Nat) (text : List Char) :
    run limit ⟨stack, reading⟩ (j.chars layout depth ++ text)
      = run limit ⟨.array form before :: stack, .value inner⟩ (j.chars layout depth ++ text) := by
  obtain ⟨c, rest, hc, hspace, hbracket⟩ := exists_chars_eq_cons hj layout depth
  rw [hc, List.cons_append, run_cons, run_cons, hstart hspace hbracket, startItem, hitem]
  simp [step, hspace]

/-- The end of a list without items. -/
theorem run_endEmptyList (text : List Char) :
    run limit ⟨stack, .firstItem form⟩ (']' :: text)
      = (complete stack form (.array [])).bind fun r => run limit r text := by
  simp [run_cons, step, isSpace]

/-- The end of a list. -/
theorem run_endList {item : Json} (hb : ∀ c ∈ blanks, isSpace c = true) (text : List Char) :
    run limit ⟨.array form before :: stack, .after item⟩ (blanks ++ ']' :: text)
      = (complete stack form (.array (item :: before).reverse)).bind fun r => run limit r text := by
  rw [run_blanks rfl hb, run_cons]
  simp [step, afterValue, afterItem, isSpace]

/-- The key of a field with what stands before its value. -/
theorem run_key {reading : Reading ε}
    (hstart : step limit ⟨stack, reading⟩ '"' = .ok ⟨stack, .key form earlier .start⟩)
    (hkept : form.isSkipped = false) (key : String) (hb : ∀ c ∈ blanks, isSpace c = true)
    (text : List Char) :
    run limit ⟨stack, reading⟩ (quoted key ++ ':' :: (blanks ++ text))
      = (endKey stack form earlier key).bind fun _ =>
          run limit ⟨.object form earlier key :: stack, .value (form.field key)⟩ text := by
  have hcolon : step limit ⟨stack, .colon form earlier key⟩ ':'
      = .ok ⟨.object form earlier key :: stack, .value (form.field key)⟩ := by
    simp [step, isSpace]
  have hquoted : quoted key ++ ':' :: (blanks ++ text)
      = '"' :: (key.toList.flatMap escaped ++ '"' :: ':' :: (blanks ++ text)) := by
    simp [quoted]
  rw [hquoted, run_cons_of_step hstart, (inString_key hkept).run_quoted, endKey]
  cases form.keyObjection? earlier key with
  | some reason => rfl
  | none =>
    show run limit ⟨stack, .colon form earlier key⟩ _ = run limit _ text
    rw [run_cons_of_step hcolon, run_blanks rfl hb]

/-- A name to which the form has no objection is followed by a colon. -/
theorem endKey_eq_ok {key : String} (h : form.keyObjection? earlier key = none) :
    endKey stack form earlier key = .ok ⟨stack, .colon form earlier key⟩ := by
  rw [endKey, h, heed]

/-- The end of an object without fields. -/
theorem run_endEmptyObject (hname : form.isName = false) (text : List Char) :
    run limit ⟨stack, .firstKey form⟩ ('}' :: text)
      = (complete stack form (.object [])).bind fun r => run limit r text := by
  simp [run_cons, step, isSpace, hname]

/-- The end of an object. -/
theorem run_endObject {key : String} {value : Json} (hb : ∀ c ∈ blanks, isSpace c = true)
    (text : List Char) :
    run limit ⟨.object form earlier key :: stack, .after value⟩ (blanks ++ '}' :: text)
      = (complete stack form (.object ((key, value) :: earlier).reverse)).bind
          fun r => run limit r text := by
  rw [run_blanks rfl hb, run_cons]
  simp [step, afterValue, afterField, isSpace]

/-- A complete value that the form has nothing against. -/
theorem run_complete {j : Json} (h : form.Accepts j) (text : List Char) :
    ((complete stack form j).bind fun r => run limit r text)
      = run limit ⟨stack, .after j⟩ text := by
  rw [complete_of_accepts h]
  rfl

/-- A list or an object may begin where there is room for it. -/
theorem descend_eq_ok (h : stack.length < limit) (form : Form ε) (reading : Reading ε) :
    descend limit stack form reading = .ok ⟨stack, reading⟩ := by
  simp [descend, h]

/-- The first character of a list. -/
theorem step_beginList (hname : form.isName = false) (hlist : form.listObjection? = none)
    (h : stack.length < limit) :
    step limit ⟨stack, .value form⟩ '[' = .ok ⟨stack, .firstItem form⟩ := by
  simp [step, startValue, isSpace, hname, hlist, heed, descend_eq_ok h]

/-- The first character of an object. -/
theorem step_beginObject (hobject : form.objectObjection? = none) (h : stack.length < limit) :
    step limit ⟨stack, .value form⟩ '{' = .ok ⟨stack, .firstKey form⟩ := by
  simp [step, startValue, isSpace, hobject, heed, descend_eq_ok h]

end Parts

/-! ## Values -/

mutual

/-- The text of a value is read back, wherever it stands. -/
theorem run_chars {limit : Nat} {layout : Layout} (hlayout : layout.IsBlank) (j : Json)
    (hexact : j.Exact) {form : Form ε} (hfit : Fits form j) {stack : List (Container ε)}
    (hdepth : stack.length + j.depth ≤ limit) (depth : Nat) {text : List Char}
    (ht : Delimited text) :
    run limit ⟨stack, .value form⟩ (j.chars layout depth ++ text)
      = run limit ⟨stack, .after j⟩ text := by
  match j with
  | .null | .bool true | .bool false =>
    simp [chars, run_cons, step, startValue, isSpace, Except.bind, hfit.1,
      complete_of_accepts hfit.2]
  | .real _ => exact hexact.elim
  | .integer n =>
    rw [chars, run_integerChars hexact hfit.1 hfit.2.isSkipped ht, settle_of_accepts hfit.2]
    rfl
  | .string value =>
    have hquote : step limit ⟨stack, .value form⟩ '"' = .ok ⟨stack, .string form .start⟩ := by
      simp [step, startValue, isSpace]
    simp only [chars, quoted, List.cons_append, List.append_assoc, List.nil_append]
    rw [run_cons_of_step hquote, (inString_string hfit.accepts.isSkipped).run_quoted]
    exact run_complete hfit.accepts text
  | .array [] =>
    obtain ⟨hname, hlist, -, hall⟩ := hfit
    have hroom : stack.length < limit := by simp only [Json.depth] at hdepth; omega
    simp only [chars, List.cons_append, List.nil_append]
    rw [run_cons_of_step (step_beginList hname hlist hroom), run_endEmptyList]
    exact run_complete hall text
  | .array (item :: rest) =>
    obtain ⟨hname, hlist, ⟨⟨inner, hinner, hitem⟩, hrest⟩, hall⟩ := hfit
    have hroom : stack.length + 1 + max item.depth (itemsDepth rest) ≤ limit := by
      simp only [Json.depth, itemsDepth] at hdepth; omega
    have hend : Delimited (layout.newline depth ++ ']' :: text) :=
      delimited_blanks_append (hlayout.newline depth) (delimited_cons (by decide) text)
    simp only [chars, List.cons_append, List.append_assoc, List.nil_append]
    rw [run_cons_of_step (step_beginList hname hlist (by omega)),
      run_blanks rfl (hlayout.newline (depth + 1)), run_item step_firstItem hinner hexact.1,
      run_chars hlayout item hexact.1 hitem (by simp only [List.length_cons]; omega) (depth + 1)
        (delimited_itemsChars hend (depth + 1) rest)]
    exact run_itemsChars hlayout rest hexact.2 hrest hall (by omega) (depth + 1) depth text
  | .object [] =>
    obtain ⟨hname, hobject, -, hall⟩ := hfit
    have hroom : stack.length < limit := by simp only [Json.depth] at hdepth; omega
    have hplain : form.isName = false := by
      cases h : form.isName with
      | false => rfl
      | true => cases hname h
    simp only [chars, List.cons_append, List.nil_append]
    rw [run_cons_of_step (step_beginObject hobject hroom), run_endEmptyObject hplain]
    exact run_complete hall text
  | .object ((key, value) :: rest) =>
    obtain ⟨hname, hobject, ⟨hkey, hvalue, hrest⟩, hall⟩ := hfit
    have hroom : stack.length + 1 + max value.depth (fieldsDepth rest) ≤ limit := by
      simp only [Json.depth, fieldsDepth] at hdepth; omega
    have hend : Delimited (layout.newline depth ++ '}' :: text) :=
      delimited_blanks_append (hlayout.newline depth) (delimited_cons (by decide) text)
    have hsingle : form.isName = true → rest = [] := fun h => by simpa using hname h
    simp only [chars, List.cons_append, List.append_assoc, List.nil_append]
    rw [run_cons_of_step (step_beginObject hobject (by omega)),
      run_blanks rfl (hlayout.newline (depth + 1)),
      run_key step_firstKey hall.isSkipped key hlayout.space, endKey_eq_ok hkey]
    simp only [Except.bind]
    rw [run_chars hlayout value hexact.1 hvalue (by simp only [List.length_cons]; omega) (depth + 1)
        (delimited_fieldsChars hend (depth + 1) rest)]
    exact run_fieldsChars hlayout rest hexact.2 hsingle hrest hall (by omega) (depth + 1) depth text

/-- The items of a list are read back up to its end. -/
theorem run_itemsChars {limit : Nat} {layout : Layout} (hlayout : layout.IsBlank)
    (rest : List Json) (hexact : ItemsExact rest) {form : Form ε} {before : List Json} {item : Json}
    (hfit : ItemsFit form (item :: before) rest)
    (hall : form.Accepts (.array ((item :: before).reverse ++ rest)))
    {stack : List (Container ε)} (hdepth : stack.length + 1 + itemsDepth rest ≤ limit)
    (depth outer : Nat) (text : List Char) :
    run limit ⟨.array form before :: stack, .after item⟩
        (itemsChars layout depth rest ++ (layout.newline outer ++ ']' :: text))
      = run limit ⟨stack, .after (.array ((item :: before).reverse ++ rest))⟩ text := by
  match rest with
  | [] =>
    rw [List.append_nil] at hall ⊢
    exact (run_endList (hlayout.newline outer) text).trans (run_complete hall text)
  | next :: rest =>
    obtain ⟨⟨inner, hinner, hnext⟩, hrest⟩ := hfit
    have hroom : stack.length + 1 + max next.depth (itemsDepth rest) ≤ limit := hdepth
    have hend : Delimited (layout.newline outer ++ ']' :: text) :=
      delimited_blanks_append (hlayout.newline outer) (delimited_cons (by decide) text)
    have hlist : (item :: before).reverse ++ next :: rest
        = (next :: item :: before).reverse ++ rest := by simp
    rw [hlist] at hall ⊢
    simp only [itemsChars, List.cons_append, List.append_assoc]
    rw [run_cons_of_step (step_betweenItems item), run_blanks rfl (hlayout.newline depth),
      run_item step_nextItem hinner hexact.1,
      run_chars hlayout next hexact.1 hnext (by simp only [List.length_cons]; omega) depth
        (delimited_itemsChars hend depth rest)]
    exact run_itemsChars hlayout rest hexact.2 hrest hall (by omega) depth outer text

/-- The fields of an object are read back up to its end. -/
theorem run_fieldsChars {limit : Nat} {layout : Layout} (hlayout : layout.IsBlank)
    (rest : List (String × Json)) (hexact : FieldsExact rest) {form : Form ε}
    (hname : form.isName = true → rest = [])
    {before : List (String × Json)} {key : String} {value : Json}
    (hfit : FieldsFit form ((key, value) :: before) rest)
    (hall : form.Accepts (.object (((key, value) :: before).reverse ++ rest)))
    {stack : List (Container ε)} (hdepth : stack.length + 1 + fieldsDepth rest ≤ limit)
    (depth outer : Nat) (text : List Char) :
    run limit ⟨.object form before key :: stack, .after value⟩
        (fieldsChars layout depth rest ++ (layout.newline outer ++ '}' :: text))
      = run limit ⟨stack, .after (.object (((key, value) :: before).reverse ++ rest))⟩ text := by
  match rest with
  | [] =>
    rw [List.append_nil] at hall ⊢
    exact (run_endObject (hlayout.newline outer) text).trans (run_complete hall text)
  | (second, next) :: rest =>
    obtain ⟨hkey, hnext, hrest⟩ := hfit
    have hroom : stack.length + 1 + max next.depth (fieldsDepth rest) ≤ limit := hdepth
    have hend : Delimited (layout.newline outer ++ '}' :: text) :=
      delimited_blanks_append (hlayout.newline outer) (delimited_cons (by decide) text)
    have hplain : form.isName = false := by
      cases h : form.isName with
      | false => rfl
      | true => cases hname h
    have hlist : ((key, value) :: before).reverse ++ (second, next) :: rest
        = ((second, next) :: (key, value) :: before).reverse ++ rest := by simp
    rw [hlist] at hall ⊢
    simp only [fieldsChars, List.cons_append, List.append_assoc]
    rw [run_cons_of_step (step_betweenFields hplain key value),
      run_blanks rfl (hlayout.newline depth),
      run_key step_nextKey hall.isSkipped second hlayout.space, endKey_eq_ok hkey]
    simp only [Except.bind]
    rw [run_chars hlayout next hexact.1 hnext (by simp only [List.length_cons]; omega) depth
        (delimited_fieldsChars hend depth rest)]
    exact run_fieldsChars hlayout rest hexact.2 (fun h => by simp [hplain] at h) hrest hall
      (by omega) depth outer text

end

/-- A value that fits a form is read back from its text. -/
theorem read_chars {layout : Layout} (hlayout : layout.IsBlank) {j : Json} (hexact : j.Exact)
    {form : Form ε} (hfit : Fits form j) {limit : Nat} (hdepth : j.depth ≤ limit) :
    read limit form (j.chars layout 0) = .ok j := by
  have hroom : ([] : List (Container ε)).length + j.depth ≤ limit := by simpa using hdepth
  have hrun := run_chars hlayout j hexact hfit hroom 0 delimited_nil
  rw [List.append_nil] at hrun
  exact read_eq_of_run hrun

end Json

end Correlation
