import ProfinetIo.CStrings
import Mathlib.Tactic

/-!
# Strings in adjacent arrays

A record of character arrays lies in one piece of storage, and its strings are
copied into it one after the other by `strcpy`, which looks at no capacity.
A copy that runs past its array lands in the next ones, where later copies may
overwrite it again.  `copyFields_kept_iff` says exactly when every array of a
zeroed record can be read back: each string is shorter than its array, or what
sticks out of it happens to be the string of the next array.
-/

namespace CStrings

/-- An array of the record and the string that is copied into it, if any. -/
structure StringField where
  capacity : ℕ
  capacity_pos : 0 < capacity
  value : Option { text : List UInt8 // 0 ∉ text }

namespace StringField

def text (field : StringField) : List UInt8 :=
  match field.value with
  | none => []
  | some text => text.val

def copy (field : StringField) (start : ℕ) (storage : List UInt8) :
    List UInt8 :=
  match field.value with
  | none => storage
  | some text => strcpy storage start text.val

/-- The array with its own string in front and zero bytes behind. -/
def chunk (field : StringField) : List UInt8 :=
  field.text.take field.capacity ++
    List.replicate (field.capacity - field.text.length) 0

theorem zero_not_mem_text (field : StringField) : 0 ∉ field.text := by
  unfold text
  cases field.value with
  | none => simp
  | some text => exact text.property

@[simp] theorem chunk_length (field : StringField) :
    field.chunk.length = field.capacity := by
  simp [chunk]
  omega

theorem chunk_of_lt {field : StringField}
    (h : field.text.length < field.capacity) :
    field.chunk = field.text ++ [0] ++
      List.replicate (field.capacity - field.text.length - 1) 0 := by
  have hzeros : field.capacity - field.text.length =
      field.capacity - field.text.length - 1 + 1 := by omega
  rw [chunk, List.take_of_length_le h.le, hzeros, List.replicate_succ]
  simp

theorem chunk_of_ge {field : StringField}
    (h : field.capacity ≤ field.text.length) :
    field.chunk = field.text.take field.capacity := by
  simp [chunk, h]

end StringField

def copyFields : List StringField → ℕ → List UInt8 → List UInt8
  | [], _, storage => storage
  | field :: fields, start, storage =>
      copyFields fields (start + field.capacity) (field.copy start storage)

def totalCapacity (fields : List StringField) : ℕ :=
  (fields.map StringField.capacity).sum

/-- Every array of the record, read as a string, is its own string. -/
def FieldsRead : List StringField → ℕ → List UInt8 → Prop
  | [], _, _ => True
  | field :: fields, start, storage =>
      stringAt storage start = field.text ∧
        FieldsRead fields (start + field.capacity) storage

/-- Each string is shorter than its array, or the rest of it is the string of
the next array. -/
def Fits : List StringField → Prop
  | [] => True
  | [field] => field.text.length < field.capacity
  | field :: next :: fields =>
      (field.text.length < field.capacity ∨
        field.text.drop field.capacity = next.text) ∧ Fits (next :: fields)

/-! ## Lengths -/

theorem totalCapacity_cons (field : StringField) (fields : List StringField) :
    totalCapacity (field :: fields) =
      field.capacity + totalCapacity fields := by
  simp [totalCapacity]

theorem totalCapacity_append (before after : List StringField) :
    totalCapacity (before ++ after) =
      totalCapacity before + totalCapacity after := by
  simp [totalCapacity]

theorem StringField.le_copy_length
    {start : ℕ} {storage : List UInt8} (h : start ≤ storage.length)
    (field : StringField) :
    storage.length ≤ (field.copy start storage).length := by
  unfold StringField.copy
  cases field.value with
  | none => exact le_refl _
  | some text =>
      simp only [strcpy, overwrite, List.length_append, List.length_take,
        List.length_drop]
      omega

/-- A copy that does not make the storage longer fits behind its start. -/
theorem StringField.text_lt_of_copy_length_le
    {field : StringField} {start : ℕ} {storage : List UInt8}
    (h : start ≤ storage.length)
    (hlength : (field.copy start storage).length ≤ start + field.capacity) :
    field.text.length < field.capacity := by
  have hpos := field.capacity_pos
  unfold StringField.copy at hlength
  unfold StringField.text
  cases hvalue : field.value with
  | none => simpa using hpos
  | some text =>
      simp only [hvalue, strcpy, overwrite, List.length_append,
        List.length_take, List.length_drop, List.length_singleton] at hlength
      dsimp only
      omega

/-! ## Frame -/

theorem StringField.take_copy
    {start bound : ℕ} {storage : List UInt8} (hbound : bound ≤ start)
    (h : start ≤ storage.length) (field : StringField) :
    (field.copy start storage).take bound = storage.take bound := by
  unfold StringField.copy
  cases field.value with
  | none => rfl
  | some text =>
      have hroom : bound ≤ (storage.take start).length := by
        rw [List.length_take]
        omega
      dsimp only
      rw [strcpy, overwrite, List.append_assoc,
        List.take_append_of_le_length hroom, List.take_take,
        Nat.min_eq_left hbound]

theorem take_copyFields
    (fields : List StringField) {start bound : ℕ} {storage : List UInt8}
    (hbound : bound ≤ start)
    (h : start + totalCapacity fields ≤ storage.length) :
    (copyFields fields start storage).take bound = storage.take bound := by
  induction fields generalizing start storage with
  | nil => rfl
  | cons field fields ih =>
      have htotal := totalCapacity_cons field fields
      have hstart : start ≤ storage.length := by omega
      have hcopy := field.le_copy_length hstart
      have hrest := @ih (start + field.capacity) (field.copy start storage)
        (by omega) (by omega)
      rw [copyFields, hrest, field.take_copy hbound hstart]

theorem le_copyFields_length
    (fields : List StringField) {start : ℕ} {storage : List UInt8}
    (h : start + totalCapacity fields ≤ storage.length) :
    storage.length ≤ (copyFields fields start storage).length := by
  induction fields generalizing start storage with
  | nil => exact le_refl _
  | cons field fields ih =>
      have htotal := totalCapacity_cons field fields
      have hcopy := field.le_copy_length
        (show start ≤ storage.length by omega)
      exact hcopy.trans (ih (by omega))

theorem copyFields_append
    (before after : List StringField) (start : ℕ) (storage : List UInt8) :
    copyFields (before ++ after) start storage =
      copyFields after (start + totalCapacity before)
        (copyFields before start storage) := by
  induction before generalizing start storage with
  | nil => rfl
  | cons field before ih =>
      rw [List.cons_append, copyFields, ih, copyFields, totalCapacity_cons,
        Nat.add_assoc]

/-- A string that is shorter than its array is read back whatever is copied
into the arrays behind it. -/
theorem stringAt_copyFields_head
    {field : StringField} {text : { text : List UInt8 // 0 ∉ text }}
    (hvalue : field.value = some text)
    (hlt : text.val.length < field.capacity) (fields : List StringField)
    {start : ℕ} {storage : List UInt8}
    (h : start + totalCapacity (field :: fields) ≤ storage.length) :
    stringAt (copyFields (field :: fields) start storage) start =
      text.val := by
  have htotal := totalCapacity_cons field fields
  have hstart : start ≤ storage.length := by omega
  have hcopy := field.le_copy_length hstart
  have hframe := @take_copyFields fields (start + field.capacity)
    (start + text.val.length + 1) (field.copy start storage) (by omega)
    (by omega)
  have hstartLength : (storage.take start).length = start := by
    rw [List.length_take, Nat.min_eq_left hstart]
  have hfront : (storage.take start ++ (text.val ++ [0])).length =
      start + text.val.length + 1 := by
    rw [List.length_append, hstartLength, List.length_append]
    rfl
  have hhead : (field.copy start storage).take
      (start + text.val.length + 1) =
      storage.take start ++ (text.val ++ [0]) := by
    unfold StringField.copy
    rw [hvalue]
    exact List.take_left' hfront
  have hread := @stringAt_of_take (storage.take start) text.val
    (copyFields (field :: fields) start storage) text.property (by
      rw [hstartLength, copyFields, hframe, hhead])
  rwa [hstartLength] at hread

theorem stringAt_copyFields_of_lt
    {field : StringField} {text : { text : List UInt8 // 0 ∉ text }}
    (hvalue : field.value = some text)
    (hlt : text.val.length < field.capacity)
    (before after : List StringField) {start : ℕ} {storage : List UInt8}
    (h : start + totalCapacity (before ++ field :: after) ≤
      storage.length) :
    stringAt (copyFields (before ++ field :: after) start storage)
        (start + totalCapacity before) =
      text.val := by
  have htotal := totalCapacity_append before (field :: after)
  have hbefore := @le_copyFields_length before start storage (by omega)
  rw [copyFields_append]
  exact stringAt_copyFields_head hvalue hlt after (by omega)

/-! ## The layout of strings that fit -/

def layout (fields : List StringField) : List UInt8 :=
  fields.flatMap StringField.chunk

theorem layout_cons (field : StringField) (fields : List StringField) :
    layout (field :: fields) = field.chunk ++ layout fields := rfl

theorem Fits.tail {field : StringField} {fields : List StringField}
    (h : Fits (field :: fields)) : Fits fields := by
  cases fields with
  | nil => trivial
  | cons next fields => exact h.2

theorem text_begins_of_lt {field : StringField}
    (h : field.text.length < field.capacity) (fields : List StringField) :
    field.text ++ [0] <+: layout (field :: fields) := by
  rw [layout_cons, StringField.chunk_of_lt h, List.append_assoc]
  exact List.prefix_append _ _

/-- The first string and its zero byte are the beginning of the layout, even
where they reach into the next arrays. -/
theorem Fits.text_begins {field : StringField} {fields : List StringField}
    (h : Fits (field :: fields)) :
    field.text ++ [0] <+: layout (field :: fields) := by
  induction fields generalizing field with
  | nil => exact text_begins_of_lt h []
  | cons next fields ih =>
      rcases Nat.lt_or_ge field.text.length field.capacity with hlt | hge
      · exact text_begins_of_lt hlt (next :: fields)
      · have hnext : field.text.drop field.capacity = next.text := by
          rcases h.1 with hlt | hnext
          · omega
          · exact hnext
        have htext : field.text ++ [0] =
            field.text.take field.capacity ++ (next.text ++ [0]) := by
          rw [← hnext, ← List.append_assoc, List.take_append_drop]
        rw [htext, layout_cons, StringField.chunk_of_ge hge]
        exact (List.prefix_append_right_inj _).mpr (ih h.2)

theorem Fits.fieldsRead_layout {fields : List StringField} (h : Fits fields)
    (front : List UInt8) :
    FieldsRead fields front.length (front ++ layout fields) := by
  induction fields generalizing front with
  | nil => trivial
  | cons field fields ih =>
      constructor
      · exact stringAt_of_terminated field.zero_not_mem_text h.text_begins
      · have hrest := ih h.tail (front ++ field.chunk)
        simpa [layout_cons] using hrest

/-! ## Copying strings that fit -/

/-- Bytes that are zero where they are not yet what they should be. -/
def Partly (bytes target : List UInt8) : Prop :=
  List.Forall₂ (fun byte wanted => byte = 0 ∨ byte = wanted) bytes target

theorem partly_zeros (target : List UInt8) :
    Partly (List.replicate target.length 0) target := by
  induction target with
  | nil => exact List.Forall₂.nil
  | cons wanted target ih => exact List.Forall₂.cons (Or.inl rfl) ih

theorem Partly.eq_zeros {bytes : List UInt8} {n : ℕ}
    (h : Partly bytes (List.replicate n 0)) : bytes = List.replicate n 0 := by
  induction n generalizing bytes with
  | zero => exact List.forall₂_nil_right_iff.mp h
  | succ n ih =>
      obtain ⟨byte, rest, hbyte, hrest, rfl⟩ :=
        List.forall₂_cons_right_iff.mp h
      rw [ih hrest, List.replicate_succ]
      rcases hbyte with hzero | hzero <;> rw [hzero]

theorem Partly.overwrite_front
    {bytes front target : List UInt8} (h : Partly bytes target)
    (hfront : front <+: target) :
    Partly (front ++ bytes.drop front.length) target := by
  obtain ⟨back, rfl⟩ := hfront
  have hsame : Partly front front :=
    List.forall₂_same.mpr fun byte _ => Or.inr rfl
  have hback := List.forall₂_drop front.length h
  rw [List.drop_left] at hback
  exact List.rel_append hsame hback

/-- Once the string is in place, so are the zero bytes behind it. -/
theorem Partly.take_eq_chunk
    {field : StringField} {fields : List StringField} {bytes : List UInt8}
    (h : Partly bytes (layout (field :: fields)))
    (htext : field.text <+: bytes) :
    bytes.take field.capacity = field.chunk := by
  rcases Nat.lt_or_ge field.text.length field.capacity with hlt | hge
  · obtain ⟨rest, rfl⟩ := htext
    have hrest : Partly rest
        (List.replicate (field.capacity - field.text.length) 0 ++
          layout fields) := by
      have hdrop := List.forall₂_drop field.text.length h
      rwa [layout_cons, StringField.chunk, List.take_of_length_le hlt.le,
        List.append_assoc, List.drop_left, List.drop_left] at hdrop
    have hzeros : rest.take (field.capacity - field.text.length) =
        List.replicate (field.capacity - field.text.length) 0 := by
      apply Partly.eq_zeros
      have htake := List.forall₂_take
        (field.capacity - field.text.length) hrest
      rwa [List.take_left' List.length_replicate] at htake
    rw [StringField.chunk, List.take_append,
      List.take_of_length_le hlt.le, hzeros]
  · obtain ⟨rest, rfl⟩ := htext
    rw [StringField.chunk_of_ge hge, List.take_append_of_le_length hge]

theorem Partly.copy
    {field : StringField} {fields : List StringField} {bytes : List UInt8}
    (hfits : Fits (field :: fields))
    (h : Partly bytes (layout (field :: fields))) (front : List UInt8) :
    ∃ rest, Partly rest (layout fields) ∧
      field.copy front.length (front ++ bytes) =
        front ++ field.chunk ++ rest := by
  obtain ⟨copied, hcopy, hcopied, htext⟩ : ∃ copied,
      field.copy front.length (front ++ bytes) = front ++ copied ∧
      Partly copied (layout (field :: fields)) ∧
      field.text <+: copied := by
    have hprefix := hfits.text_begins
    unfold StringField.copy
    unfold StringField.text at hprefix ⊢
    cases hvalue : field.value with
    | none => exact ⟨bytes, rfl, h, List.nil_prefix⟩
    | some text =>
        rw [hvalue] at hprefix
        refine ⟨_, overwrite_append front bytes _,
          h.overwrite_front hprefix, ?_⟩
        rw [List.append_assoc]
        exact List.prefix_append _ _
  refine ⟨copied.drop field.capacity, ?_, ?_⟩
  · have hrest := List.forall₂_drop field.capacity hcopied
    rwa [layout_cons, ← field.chunk_length, List.drop_left,
      field.chunk_length] at hrest
  · rw [hcopy, ← hcopied.take_eq_chunk htext, List.append_assoc,
      List.take_append_drop]

theorem Fits.copyFields_eq {fields : List StringField} (h : Fits fields)
    {bytes : List UInt8} (hbytes : Partly bytes (layout fields))
    (front : List UInt8) :
    copyFields fields front.length (front ++ bytes) =
      front ++ layout fields := by
  induction fields generalizing front bytes with
  | nil =>
      have hnil : bytes = [] := List.forall₂_nil_right_iff.mp hbytes
      rw [copyFields, hnil]
      rfl
  | cons field fields ih =>
      obtain ⟨rest, hrest, hcopy⟩ := hbytes.copy h front
      have hnext := ih h.tail hrest (front ++ field.chunk)
      rw [List.length_append, field.chunk_length] at hnext
      rw [copyFields, hcopy, hnext, layout_cons, List.append_assoc]

/-! ## Strings that are kept -/

theorem fits_of_fieldsRead
    (fields : List StringField) {start : ℕ} {storage : List UInt8}
    (hroom : start + totalCapacity fields ≤ storage.length)
    (hread : FieldsRead fields start (copyFields fields start storage))
    (hlength : (copyFields fields start storage).length ≤
      start + totalCapacity fields) :
    Fits fields := by
  induction fields generalizing start storage with
  | nil => trivial
  | cons field fields ih =>
      have htotal := totalCapacity_cons field fields
      have hcopy := field.le_copy_length
        (show start ≤ storage.length by omega)
      obtain ⟨hhead, hrest⟩ := hread
      have hfits := ih (by omega) hrest (by rw [copyFields] at hlength; omega)
      cases fields with
      | nil =>
          refine StringField.text_lt_of_copy_length_le
            (show start ≤ storage.length by omega) ?_
          simpa [copyFields, totalCapacity] using hlength
      | cons next fields =>
          refine ⟨?_, hfits⟩
          rcases Nat.lt_or_ge field.text.length field.capacity with hlt | hge
          · exact Or.inl hlt
          · right
            have hadd := stringAt_add (hhead ▸ hge)
            rw [hhead] at hadd
            exact hadd.symm.trans hrest.1

/-- Copying into a zeroed record keeps every string and stays inside exactly
when the strings fit. -/
theorem copyFields_kept_iff (fields : List StringField) :
    (copyFields fields 0
        (List.replicate (totalCapacity fields) 0)).length =
          totalCapacity fields ∧
      FieldsRead fields 0 (copyFields fields 0
        (List.replicate (totalCapacity fields) 0)) ↔ Fits fields := by
  have hlayout : (layout fields).length = totalCapacity fields := by
    simp [layout, totalCapacity, List.length_flatMap]
  constructor
  · rintro ⟨hlength, hread⟩
    exact fits_of_fieldsRead fields (by simp) hread (by omega)
  · intro h
    have hcopy := h.copyFields_eq (partly_zeros (layout fields)) []
    rw [hlayout] at hcopy
    simp only [List.length_nil, List.nil_append] at hcopy
    rw [hcopy]
    exact ⟨hlayout, h.fieldsRead_layout []⟩

end CStrings
