import GraphReasoner.Json.Fields
import Mathlib.Data.List.Basic

/-!
# The fields of a document that was written

A record is written as an object, field by field, so the fields that are declared are the fields
that were written (`GraphReasoner.Json.fields?_object`). They are taken by name, and the name of the
first field decides whether it is the one.
-/

namespace GraphReasoner.Json

variable {S α : Type} {dialect : Dialect} {declared : List String} {other name : String}
  {value : Json S} {fields : Fields S} {decode : Json S → Option α}

/-- **An object of declared fields, none repeated, gives all its fields.** -/
theorem fields?_object (hdeclared : ∀ field ∈ fields, field.1 ∈ declared)
    (hnodup : (fields.map Prod.fst).Nodup) :
    (object fields).fields? dialect declared = some fields := by
  have hknown : fields.filter (fun field => declared.contains field.1) = fields := by
    refine List.filter_eq_self.2 fun field hfield => ?_
    exact List.contains_iff_mem.2 (hdeclared field hfield)
  rw [fields?]
  simp only [hknown, if_pos hnodup]

namespace Fields

theorem get?_cons : get? ((other, value) :: fields) name =
    if other = name then some value else get? fields name := by
  rw [get?, List.find?_cons]
  split
  · rename_i h
    rw [if_pos (beq_iff_eq.1 h)]
    rfl
  · rename_i h
    rw [if_neg (beq_eq_false_iff_ne.1 h)]
    rfl

@[simp] theorem required_cons : required ((other, value) :: fields) name decode =
    if other = name then decode value else required fields name decode := by
  rw [required, get?_cons]
  split <;> rfl

@[simp] theorem withDefault_cons {default : α} :
    withDefault ((other, value) :: fields) name default decode =
      if other = name then decode value else withDefault fields name default decode := by
  rw [withDefault, get?_cons]
  by_cases h : other = name
  · rw [if_pos h, if_pos h]
  · rw [if_neg h, if_neg h]
    rfl

@[simp] theorem optional_nil : optional ([] : Fields S) name decode = some none :=
  rfl

theorem optional_cons_of_ne (hne : other ≠ name) :
    optional ((other, value) :: fields) name decode = optional fields name decode := by
  rw [optional, get?_cons, if_neg hne, optional]

/-- A value that is not `null` is decoded. -/
theorem optional_cons_self (hvalue : value ≠ null) :
    optional ((name, value) :: fields) name decode = (decode value).map some := by
  rw [optional, get?_cons, if_pos rfl]
  cases value <;> first | exact absurd rfl hvalue | rfl

end Fields

end GraphReasoner.Json
