import Correlation.Interchange.Source
import Correlation.Interchange.Tagged
import Correlation.Proofs.Printing

/-!
# Printed records

A record is printed with all its fields, in their order.  Read back, no field is missing and none is
there twice (`Record.full`), so it is made of what its fields say: `record_full` for plain records
and `readTagged_ofKind` for tagged ones.

The form of a record has nothing against it either, if that of every field has nothing against the
field, and if the record as a whole can be read.  The same goes for lists and names.
-/

namespace Correlation

namespace Json

/-! ## Values -/

/-- A record with these fields and no others, in this order. -/
def Record.full (isTagged : Bool) (fields : List (String × Json)) : Record :=
  ⟨fields, .value (), .missingField, isTagged⟩

/-- No name is repeated among different names. -/
theorem repeatedName?_eq_none {names before : List String} (h : (before.reverse ++ names).Nodup) :
    repeatedName? before names = none := by
  induction names generalizing before with
  | nil => rfl
  | cons name rest ih =>
    have hrest : ((name :: before).reverse ++ rest).Nodup := by simpa using h
    have hname : name ∉ before := fun hmem =>
      (List.nodup_append.mp h).2.2 name (List.mem_reverse.mpr hmem) name List.mem_cons_self rfl
    simp [repeatedName?, hname, ih hrest]

/-- An object with the given fields in their order is a full record. -/
theorem recordOfObject_eq_full {names : List String} {fields : List (String × Json)}
    (hnames : fields.map Prod.fst = names) (h : names.Nodup) (isTagged : Bool) :
    recordOfObject isTagged names fields = .full isTagged fields := by
  subst hnames
  have hall : (fields.filter fun field => (fields.map Prod.fst).contains field.1) = fields :=
    List.filter_eq_self.mpr fun field hfield => by
      simpa using ⟨field.2, hfield⟩
  have hflaw : repeatedName? [] (fields.map Prod.fst) = none := repeatedName?_eq_none h
  simp only [recordOfObject, hall, hflaw]
  rfl

/-- A record is made of what its fields say. -/
theorem record_full {wanted : String} {names : List String} {make : Record → Gathered α}
    {fields : List (String × Json)} {a : α} (hnames : fields.map Prod.fst = names)
    (hnodup : names.Nodup) (hmake : make (.full false fields) = .value a) :
    record wanted names make (.object fields) = .ok a := by
  rw [record, recordOfObject_eq_full hnames hnodup, Record.build, hmake]
  rfl

theorem mem_of_readKind {kinds : List (Kind α)} {inner : Bool} {j : Json} {kind : Kind α}
    (h : readKind kinds inner j = .ok kind) : kind ∈ kinds := by
  cases j with
  | string name =>
    simp only [readKind] at h
    split at h
    case h_1 found hfound =>
      cases h
      exact List.mem_of_find?_eq_some hfound
    case h_2 => cases h
  | integer n =>
    simp only [readKind] at h
    split at h
    case isTrue =>
      split at h
      case h_1 found hfound =>
        cases h
        exact List.mem_of_getElem? hfound
      case h_2 => cases h
    case isFalse => cases h
  | _ => cases h

/-- An object with a known kind and its fields is read as that kind. -/
theorem tagged_ofKind {sort name : String} {kinds : List (Kind α)} {kind : Kind α} {inner : Bool}
    {fields : List (String × Json)} (hkind : readKind kinds inner (.string name) = .ok kind)
    (hfields : fields.map Prod.fst = kind.fields) (hnodup : (kindField :: kind.fields).Nodup) :
    tagged sort kinds inner (ofKind name fields) = .ok (kind, .full true fields) := by
  rw [← hfields] at hnodup
  obtain ⟨hkey, hrest⟩ := List.nodup_cons.mp hnodup
  have hothers : ∀ field ∈ fields, field.1 ≠ kindField := fun field hfield h =>
    hkey (h ▸ List.mem_map_of_mem hfield)
  have hnone : (fields.filter fun field => decide (field.1 = kindField)) = [] :=
    List.filter_eq_nil_iff.mpr fun field hfield => by simp [hothers field hfield]
  have hall : (fields.filter fun field => !decide (field.1 = kindField)) = fields :=
    List.filter_eq_self.mpr fun field hfield => by simp [hothers field hfield]
  have hparts : List.partition (fun field => decide (field.1 = kindField))
      ((kindField, Json.string name) :: fields) = ([(kindField, .string name)], fields) := by
    simp [List.partition_eq_filter_filter, hnone, Function.comp_def, hall]
  simp only [tagged, ofKind, hparts]
  rw [hkind, ← recordOfObject_eq_full hfields (hfields ▸ hrest)]
  rfl

/-- A tagged record of a kind is made of what its fields say.  Inner records have one level less. -/
theorem readTagged_ofKind {sort name : String} {kinds : List (Kind α)} {kind : Kind α}
    {inner : Bool} {fields : List (String × Json)} {a : α} {levels : Nat}
    (hkinds : ∀ kind ∈ kinds, (kindField :: kind.fields).Nodup)
    (hdepth : (ofKind name fields).depth ≤ levels)
    (hkind : readKind kinds inner (.string name) = .ok kind)
    (hfields : fields.map Prod.fst = kind.fields)
    (hmake : ∀ levels, fieldsDepth fields ≤ levels →
      kind.make (readTagged sort kinds levels true) (.full true fields) = .value a) :
    readTagged sort kinds levels inner (ofKind name fields) = .ok a := by
  cases levels with
  | zero => simp [ofKind, depth] at hdepth
  | succ levels =>
    have hlevels : fieldsDepth fields ≤ levels := by
      simpa [ofKind, depth, fieldsDepth] using hdepth
    have htagged : tagged sort kinds inner (ofKind name fields) = .ok (kind, .full true fields) :=
      tagged_ofKind hkind hfields (hkinds kind (mem_of_readKind hkind))
    simp only [readTagged, htagged, Record.build]
    show (kind.make (readTagged sort kinds levels true) (.full true fields)
      <* (Record.full true fields).flaw).toExcept = .ok a
    rw [hmake levels hlevels]
    rfl

/-! ## Lists and values that may be missing -/

theorem list_cons {read : Json → Except Mismatch α} {j : Json} {rest : List Json} {a : α}
    {as : List α} (hj : read j = .ok a) (hrest : list read (.array rest) = .ok as) :
    list read (.array (j :: rest)) = .ok (a :: as) := by
  rw [list] at hrest ⊢
  rw [List.mapM_cons, hj, hrest]
  rfl

theorem list_map {read : Json → Except Mismatch α} {write : α → Json} {as : List α}
    (h : ∀ a ∈ as, read (write a) = .ok a) : list read (.array (as.map write)) = .ok as := by
  induction as with
  | nil => rfl
  | cons a as ih =>
    exact list_cons (h a List.mem_cons_self) (ih fun b hb => h b (List.mem_cons_of_mem a hb))

theorem itemsExact_map {write : α → Json} {as : List α} (h : ∀ a ∈ as, (write a).Exact) :
    ItemsExact (as.map write) := by
  induction as with
  | nil => trivial
  | cons a as ih =>
    exact ⟨h a List.mem_cons_self, ih fun b hb => h b (List.mem_cons_of_mem a hb)⟩

theorem orNull_eq_ok {read : Json → Except Mismatch α} {j : Json} {a : α} (hj : j ≠ .null)
    (h : read j = .ok a) : Record.orNull read j = .ok (some a) := by
  cases j with
  | null => exact absurd rfl hj
  | _ =>
    simp only [Record.orNull, h]
    rfl

/-- A value that may be missing is read back if it is. -/
theorem orNull_ofOption {read : Json → Except Mismatch α} {write : α → Json} {o : Option α}
    (h : ∀ a ∈ o, write a ≠ .null ∧ read (write a) = .ok a) :
    Record.orNull read (ofOption write o) = .ok o := by
  cases o with
  | none => rfl
  | some a => exact orNull_eq_ok (h a rfl).1 (h a rfl).2

theorem exact_ofOption {write : α → Json} {o : Option α} (h : ∀ a ∈ o, (write a).Exact) :
    (ofOption write o).Exact := by
  cases o with
  | none => trivial
  | some a => exact h a rfl

/-! ## Forms -/

theorem accepts_of {shape : Shape (Form ε)} {read : Json → Except ε α} {j : Json} {a : α}
    (h : read j = .ok a) : (Form.of shape read).Accepts j where
  isSkipped := rfl
  objection? := by
    have hjudge : Form.objectionOf read j = none := by rw [Form.objectionOf, h]
    cases shape <;> cases j <;> first | exact hjudge | rfl

mutual

/-- Every value fits the form of all values. -/
theorem fits_any (j : Json) : Fits (Form.any : Form ε) j := by
  have hall : (Form.any : Form ε).Accepts j := ⟨rfl, rfl⟩
  match j with
  | .array items => exact ⟨rfl, rfl, itemsFit_any _ items [], hall⟩
  | .object fields => exact ⟨nofun, rfl, fieldsFit_any _ fields [], hall⟩
  | .string _ => exact hall
  | .null | .bool _ | .integer _ | .real _ => exact ⟨rfl, hall⟩

theorem itemsFit_any (judge : Json → Option ε) (items before : List Json) :
    ItemsFit (.judged .any judge) before items := by
  match items with
  | [] => trivial
  | item :: rest => exact ⟨⟨.any, rfl, fits_any item⟩, itemsFit_any judge rest (item :: before)⟩

theorem fieldsFit_any (judge : Json → Option ε) (fields before : List (String × Json)) :
    FieldsFit (.judged .any judge) before fields := by
  match fields with
  | [] => trivial
  | (key, value) :: rest =>
    exact ⟨rfl, fits_any value, fieldsFit_any judge rest ((key, value) :: before)⟩

end

/-- What is judged as a whole fits if it can be read. -/
theorem fits_whole {read : Json → Except ε α} {j : Json} {a : α} (h : read j = .ok a) :
    Fits (.of .any read) j := by
  have hall : (Form.of .any read).Accepts j := accepts_of h
  cases j with
  | array items => exact ⟨rfl, rfl, itemsFit_any _ items [], hall⟩
  | object fields => exact ⟨nofun, rfl, fieldsFit_any _ fields [], hall⟩
  | string _ => exact hall
  | null | bool _ | integer _ | real _ => exact ⟨rfl, hall⟩

/-- A scalar fits if it can be read. -/
theorem fits_scalar {read : Json → Except ε α} {j : Json} {a : α} (hj : j.isScalar = true)
    (h : read j = .ok a) : Fits (.of .scalar read) j := by
  have hall : (Form.of .scalar read).Accepts j := accepts_of h
  cases j with
  | array _ | object _ => cases hj
  | string _ => exact hall
  | null | bool _ | integer _ | real _ => exact ⟨rfl, hall⟩

/-- A list fits if what its items are written of does. -/
theorem fits_list_map {item : Form Mismatch} {read : Json → Except Mismatch α} {write : β → Json}
    {bs : List β} (h : ∀ b ∈ bs, Fits item (write b)) :
    Fits (listForm item read) (.array (bs.map write)) := by
  have go : ∀ before, ItemsFit (listForm item read) before (bs.map write) := by
    induction bs with
    | nil => exact fun _ => trivial
    | cons b bs ih =>
      exact fun before => ⟨⟨item, rfl, h b List.mem_cons_self⟩,
        ih (fun c hc => h c (List.mem_cons_of_mem b hc)) (write b :: before)⟩
  exact ⟨rfl, rfl, go [], ⟨rfl, rfl⟩⟩

theorem any_eq_false_of_not_mem {fields : List (String × Json)} {key : String}
    (h : key ∉ fields.map Prod.fst) : (fields.any fun field => decide (field.1 = key)) = false := by
  rw [List.any_eq_false]
  intro field hfield heq
  exact h (of_decide_eq_true heq ▸ List.mem_map_of_mem hfield)

/-- The fields of a record fit if their values do and no key is there twice. -/
theorem fieldsFit_record {known : List (String × Form ε)} {judge : Json → Option ε}
    {fields before : List (String × Json)}
    (hnodup : ((before.reverse ++ fields).map Prod.fst).Nodup)
    (hfields : ∀ field ∈ fields, Fits ((known.lookup field.1).getD .skipped) field.2) :
    FieldsFit (.judged (.record known) judge) before fields := by
  induction fields generalizing before with
  | nil => trivial
  | cons field rest ih =>
    obtain ⟨key, value⟩ := field
    have hnew : key ∉ before.map Prod.fst := by
      rw [List.map_append, List.nodup_append] at hnodup
      intro hmem
      exact hnodup.2.2 key (by simpa using hmem) key (by simp) rfl
    have hkey : (Form.judged (.record known) judge).keyObjection? before key = none := by
      simp [Form.keyObjection?, Form.suspects, any_eq_false_of_not_mem hnew]
    have hrest : ((((key, value) :: before).reverse ++ rest).map Prod.fst).Nodup := by
      simpa using hnodup
    exact ⟨hkey, hfields (key, value) List.mem_cons_self,
      ih hrest fun field hfield => hfields field (List.mem_cons_of_mem _ hfield)⟩

/-- A record fits if its fields do and it can be read. -/
theorem fits_record {known : List (String × Form ε)} {read : Json → Except ε α}
    {fields : List (String × Json)} {a : α} (h : read (.object fields) = .ok a)
    (hnodup : (fields.map Prod.fst).Nodup)
    (hfields : ∀ field ∈ fields, Fits ((known.lookup field.1).getD .skipped) field.2) :
    Fits (.of (.record known) read) (.object fields) := by
  exact ⟨nofun, rfl, fieldsFit_record hnodup hfields, accepts_of h⟩

/-- A tagged record is of a kind that is known, and says so once. -/
theorem readKind_of_readTagged {sort name : String} {kinds : List (Kind α)} {levels : Nat}
    {inner : Bool} {fields : List (String × Json)} {a : α}
    (h : readTagged sort kinds levels inner (ofKind name fields) = .ok a) :
    (∃ kind, readKind kinds inner (.string name) = .ok kind)
      ∧ ∀ field ∈ fields, field.1 ≠ kindField := by
  cases levels with
  | zero => cases h
  | succ levels =>
    simp only [readTagged, tagged, ofKind, List.partition_eq_filter_filter,
      List.filter_cons_of_pos, decide_true] at h
    cases hkind : readKind kinds inner (.string name) with
    | error e => rw [hkind] at h; cases h
    | ok kind =>
      refine ⟨⟨kind, rfl⟩, fun field hfield heq => ?_⟩
      rw [hkind] at h
      cases hmore : fields.filter fun field => decide (field.1 = kindField) with
      | nil => exact absurd (List.filter_eq_nil_iff.mp hmore field hfield) (by simpa using heq)
      | cons first rest => rw [hmore] at h; cases h

/-- A tagged record fits if it can be read. -/
theorem fits_ofKind {sort name : String} {kinds : List (Kind α)} {levels : Nat}
    {read : Json → Except Mismatch α} {fields : List (String × Json)} {a : α}
    (h : read (ofKind name fields) = .ok a)
    (hread : read (ofKind name fields) = readTagged sort kinds levels false (ofKind name fields)) :
    Fits (taggedForm kinds read) (ofKind name fields) := by
  obtain ⟨⟨kind, hkind⟩, hothers⟩ := readKind_of_readTagged (hread.symm.trans h)
  have go : ∀ before, FieldsFit (taggedForm kinds read) before fields := by
    clear h hread
    induction fields with
    | nil => exact fun _ => trivial
    | cons field rest ih =>
      intro before
      have hother : field.1 ≠ kindField := hothers field List.mem_cons_self
      have hkey : (taggedForm kinds read).keyObjection? before field.1 = none := by
        simp [Form.keyObjection?, Form.suspects, taggedForm, Form.of, hother]
      have hany : (taggedForm kinds read).field field.1 = .any := by
        simp [taggedForm, Form.of, Form.field, hother]
      exact ⟨hkey, hany ▸ fits_any field.2,
        ih (fun f hf => hothers f (List.mem_cons_of_mem field hf)) (field :: before)⟩
  have htag : Fits ((taggedForm kinds read).field kindField) (.string name) := fits_scalar rfl hkind
  exact ⟨nofun, rfl, ⟨rfl, htag, go _⟩, accepts_of h⟩

/-- A name that stands for itself fits if it is known. -/
theorem fits_name {values : List (String × Form ε)} {read : Json → Except ε α} {name : String}
    {a : α} (h : read (.string name) = .ok a) : Fits (.of (.name values) read) (.string name) :=
  (accepts_of h : (Form.of (.name values) read).Accepts (.string name))

/-- A name with a value fits if it is known, and its value fits. -/
theorem fits_nameWith {values : List (String × Form ε)} {read : Json → Except ε α} {name : String}
    {form : Form ε} {value : Json} {a : α} (h : read (.object [(name, value)]) = .ok a)
    (hknown : values.lookup name = some form) (hvalue : Fits form value) :
    Fits (.of (.name values) read) (.object [(name, value)]) := by
  have hkey : (Form.of (.name values) read).keyObjection? [] name = none := by
    simp [Form.keyObjection?, Form.suspects, Form.of, hknown]
  have hfield : (Form.of (.name values) read).field name = form := by
    simp [Form.of, Form.field, hknown]
  exact ⟨fun _ => rfl, rfl, ⟨hkey, hfield ▸ hvalue, trivial⟩, accepts_of h⟩

end Json

end Correlation
