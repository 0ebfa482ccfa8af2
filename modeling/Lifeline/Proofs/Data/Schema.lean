import Lifeline.Proofs.Json.Roundtrip
import Lifeline.Data.Schema

/-!
# Decoders that restore what was written

A decoder restores a form of data when every value has a form that JSON writes without loss and
that the decoder reads as this value (`Restores`). Lists have it where their items do
(`Restores.list`); a record is read field by field, each found by its name whatever stands before
it (`required_cons_ne`, `field_cons_ne`).
-/

namespace Lifeline.Schema

open Json (Lossless)

variable {α β : Type}

/-- Every value has a form that JSON writes without loss, and the decoder reads it as the value. -/
structure Restores (toData : α → Data) (d : Decoder α) : Prop where
  lossless : ∀ a, Lossless (toData a)
  reads : ∀ a, d (toData a) = .ok a

/-! ## Outcomes -/

namespace Checked

@[simp] theorem seq_ok (f : α → β) (a : α) : (ok f <*> ok a : Checked β) = ok (f a) := rfl

@[simp] theorem map_ok (f : α → β) (a : α) : (f <$> ok a : Checked β) = ok (f a) := rfl

@[simp] theorem inside_ok (step : Step) (a : α) : (ok a).inside step = ok a := rfl

theorem all_map_ok (xs : List α) : all (xs.map ok) = ok xs := by
  induction xs with
  | nil => rfl
  | cons x xs ih => rw [List.map_cons, all, ih]; rfl

end Checked

/-! ## Scalars -/

attribute [simp] Lossless.text Lossless.int Lossless.bool

@[simp] theorem text_text (s : String) : text (.text s) = .ok s := rfl

@[simp] theorem int_int (n : Int) : int (.int n) = .ok n := rfl

@[simp] theorem bool_bool (b : Bool) : bool (.bool b) = .ok b := rfl

@[simp] theorem lossless_optional (o : Option String) : Lossless (.optional o) := by
  cases o with
  | none => exact .null
  | some s => exact .text s

@[simp] theorem optional_optional (o : Option String) :
    optional text (.optional o) = .ok o := by
  cases o <;> rfl

@[simp] theorem lossless_optionalInt (o : Option Int) : Lossless (.optionalInt o) := by
  cases o with
  | none => exact .null
  | some n => exact .int n

@[simp] theorem optional_optionalInt (o : Option Int) :
    optional int (.optionalInt o) = .ok o := by
  cases o <;> rfl

/-! ## Lists -/

/-- A list is restored where its items are. -/
theorem Restores.list {toData : α → Data} {d : Decoder α} (h : Restores toData d) :
    Restores (fun xs => .list (xs.map toData)) (list d) where
  lossless xs := .list fun x hx => by
    obtain ⟨a, -, rfl⟩ := List.mem_map.1 hx
    exact h.lossless a
  reads xs := by
    have hparts (i : Nat) : ((xs.map toData).zipIdx i).map (fun p => (d p.1).inside (.index p.2)) =
        xs.map .ok := by
      induction xs generalizing i with
      | nil => rfl
      | cons x xs ih => simp [List.zipIdx_cons, h.reads, ih]
    exact (congrArg Checked.all (hparts 0)).trans (Checked.all_map_ok xs)

theorem restores_texts : Restores Data.texts (list text) :=
  Restores.list ⟨.text, text_text⟩

@[simp] theorem lossless_texts (xs : List String) : Lossless (.texts xs) :=
  restores_texts.lossless xs

@[simp] theorem list_texts (xs : List String) : list text (.texts xs) = .ok xs :=
  restores_texts.reads xs

/-! ## Records -/

section

variable (key name : String) (x : Data) (es : Data.Entries) (d : Decoder α) (default : α)

@[simp] theorem required_cons_self :
    required ((.text name, x) :: es) name d = (d x).inside (.key name) := by
  simp [required, Data.find?]

variable {key name} in
@[simp] theorem required_cons_ne (h : key ≠ name) :
    required ((.text key, x) :: es) name d = required es name d := by
  simp [required, Data.find?, h]

@[simp] theorem field_cons_self :
    field ((.text name, x) :: es) name default d = (d x).inside (.key name) := by
  simp [field, Data.find?]

variable {key name} in
@[simp] theorem field_cons_ne (h : key ≠ name) :
    field ((.text key, x) :: es) name default d = field es name default d := by
  simp [field, Data.find?, h]

end

@[simp] theorem record_record (fields : Data.Entries → Checked α)
    (entries : List (String × Data)) :
    record fields (.record entries) = fields (entries.map fun e => (.text e.1, e.2)) := rfl

/-- A record is told apart by the tag that comes first in it. -/
theorem tagged_record {alternatives : List (String × (Data.Entries → Checked α))} {tag : String}
    {fields : Data.Entries → Checked α} (h : alternatives.lookup tag = some fields)
    (entries : List (String × Data)) :
    tagged alternatives (.record (("kind", .text tag) :: entries)) =
      (fields ((("kind", .text tag) :: entries).map fun e => (.text e.1, e.2))).inside
        (.key tag) := by
  simp [tagged, Data.record, Data.find?, h]

end Lifeline.Schema
