import ProfinetIo.AdjacentStrings
import ProfinetIo.MqttMsgHdlr
import Mathlib.Tactic

/-!
# The fields of a request

The six strings of a `profinet_req_t` are adjacent arrays, so what
`json_to_struct` leaves in one of them depends on the strings around it as
soon as a string is too long.
-/

namespace ProfinetIo

open CStrings

/-- The arrays of `profinet_req_t` in their order, with the values that
`json_to_struct` copies into them. -/
def reqFields (fields : JsonFields) : List StringField :=
  [⟨32, by decide, fields.ip⟩, ⟨18, by decide, fields.op⟩,
    ⟨64, by decide, fields.api⟩, ⟨16, by decide, fields.slot⟩,
    ⟨16, by decide, fields.subSlot⟩, ⟨128, by decide, fields.data⟩]

/-- The string of a key, empty when the key is absent. -/
def keyText (value : Option CString) : List UInt8 :=
  match value with
  | none => []
  | some text => text.val

structure RequestKept (fields : JsonFields) (out : List UInt8) : Prop where
  size : out.length = ProfinetReq.size
  ip : stringAt out ProfinetReq.ip = keyText fields.ip
  op : stringAt out ProfinetReq.op = keyText fields.op
  api : stringAt out ProfinetReq.api = keyText fields.api
  slot : stringAt out ProfinetReq.slot = keyText fields.slot
  subSlot : stringAt out ProfinetReq.subSlot = keyText fields.subSlot
  data : stringAt out ProfinetReq.data = keyText fields.data

/-- Filling a zeroed request fails, or leaves each field with the string of
its own key and writes nothing outside. -/
def FieldsKept (parsed : Option JsonFields) : Prop :=
  let filled := jsonToStruct parsed (List.replicate ProfinetReq.size 0)
  filled.1 ≠ 0 ∨
    ∃ fields, parsed = some fields ∧ RequestKept fields filled.2

section Fields

variable (fields : JsonFields)

theorem totalCapacity_reqFields :
    totalCapacity (reqFields fields) = ProfinetReq.size := by
  simp [totalCapacity, reqFields, ProfinetReq.size]

theorem copyField_eq_copy
    (offset capacity : ℕ) (hpos : 0 < capacity) (value : Option CString)
    (out : List UInt8) :
    copyField offset value out =
      (StringField.mk capacity hpos value).copy offset out := by
  cases value <;> rfl

theorem jsonToStruct_eq_copyFields (out : List UInt8) :
    jsonToStruct (some fields) out =
      (0, copyFields (reqFields fields) 0 out) := by
  simp only [jsonToStruct, reqFields, copyFields, Nat.zero_add]
  rw [copyField_eq_copy ProfinetReq.ip 32 (by decide),
    copyField_eq_copy ProfinetReq.op 18 (by decide),
    copyField_eq_copy ProfinetReq.api 64 (by decide),
    copyField_eq_copy ProfinetReq.slot 16 (by decide),
    copyField_eq_copy ProfinetReq.subSlot 16 (by decide),
    copyField_eq_copy ProfinetReq.data 128 (by decide)]
  rfl

theorem requestKept_iff (out : List UInt8) :
    RequestKept fields out ↔
      out.length = totalCapacity (reqFields fields) ∧
        FieldsRead (reqFields fields) 0 out := by
  constructor
  · rintro ⟨hsize, hip, hop, hapi, hslot, hsubSlot, hdata⟩
    exact ⟨hsize, hip, hop, hapi, hslot, hsubSlot, hdata, trivial⟩
  · rintro ⟨hsize, hip, hop, hapi, hslot, hsubSlot, hdata, -⟩
    exact ⟨hsize, hip, hop, hapi, hslot, hsubSlot, hdata⟩

theorem requestKept_iff_fits :
    RequestKept fields (jsonToStruct (some fields)
        (List.replicate ProfinetReq.size 0)).2 ↔
      Fits (reqFields fields) := by
  have hkept := copyFields_kept_iff (reqFields fields)
  rw [totalCapacity_reqFields] at hkept
  rw [jsonToStruct_eq_copyFields, requestKept_iff, totalCapacity_reqFields]
  exact hkept

end Fields

theorem fieldsKept_iff_requestKept (fields : JsonFields) :
    FieldsKept (some fields) ↔
      RequestKept fields (jsonToStruct (some fields)
        (List.replicate ProfinetReq.size 0)).2 := by
  constructor
  · intro h
    rcases h with hfailed | ⟨found, hfound, hkept⟩
    · exact absurd rfl hfailed
    · cases hfound
      exact hkept
  · intro h
    exact Or.inr ⟨fields, rfl, h⟩

/-- The fields are kept apart exactly when the text does not parse, or each
string is shorter than its array or continues with the next one. -/
theorem fieldsKept_iff (parsed : Option JsonFields) :
    FieldsKept parsed ↔
      ∀ fields, parsed = some fields → Fits (reqFields fields) := by
  cases parsed with
  | none =>
      constructor
      · intro _ fields hfields
        contradiction
      · intro _
        exact Or.inl (by decide)
  | some fields =>
      rw [fieldsKept_iff_requestKept, requestKept_iff_fits]
      simp

/-- An address of 33 bytes is read back with the operation behind it. -/
theorem fieldsKept_fails_on_long_ip :
    ¬ FieldsKept (some
      { ip := some ⟨List.replicate 33 97, by decide⟩
        op := some ⟨asciiBytes "read", by decide⟩
        api := none
        slot := none
        subSlot := none
        data := none }) := by
  rw [fieldsKept_iff_requestKept, requestKept_iff_fits]
  intro hfits
  have hip := hfits.1
  revert hip
  decide

end ProfinetIo
