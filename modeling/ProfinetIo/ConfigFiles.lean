import ProfinetIo.DecimalStrings
import ProfinetIo.ReadConfigurations
import Mathlib.Tactic

/-!
# What a configuration file sets

The lines of the file are compared with the pieces that the loop gets.  A piece
of a comment that is longer than the buffer can be a setting, and so can a piece
of any other long line.  A number that no `int` can hold is read as another
one.  The name of the interface is copied with the size of the array it was
scanned into, which is five times the size of the block that was allocated for
it.
-/

namespace ProfinetIo

open CStrings

/-! ## Settings -/

def settingValue (key line : List UInt8) : Option (List UInt8) :=
  if line.head? = some 35 then none
  else
    let words := sscanfWords (line.takeWhile (· ≠ 0))
    if words.1 = key ∧ words.2 ≠ [] then some words.2 else none

def lastValue (key : List UInt8) (lines : List (List UInt8)) :
    Option (List UInt8) :=
  (lines.filterMap (settingValue key)).getLast?

/-- The number on the last line that sets the interval, whatever its size; the
interval starts as zero. -/
def lastNumber (lines : List (List UInt8)) : ℤ :=
  ((lastValue identReqTimeout lines).map writtenNumber).getD 0

/-- The lines of a file of whatever length, without their ends. -/
def fileLines (file : List UInt8) : List (List UInt8) := file.splitOn 10

/-- The line cut after every 255th byte. -/
def cutLine (line : List UInt8) : List (List UInt8) :=
  (List.range (line.length / 255 + 1)).map fun k =>
    (line.drop (255 * k)).take 255

/-- The lines are the same or comments of the same length. -/
def SameLine (line line' : List UInt8) : Prop :=
  line = line' ∨ line.head? = some 35 ∧ line'.head? = some 35 ∧
    line.length = line'.length

/-- The files have the same lines except for the characters of comments. -/
def SameButComments (file other : List UInt8) : Prop :=
  List.Forall₂ SameLine (fileLines file) (fileLines other)

/-- The last line of either kind is what counts, comments do not, and every copy
fits. -/
structure ConfigurationParsed (file : List UInt8) : Prop where
  requestInterval :
    (readConfigurations file).requestInterval = lastNumber (fileLines file)
  interfaceName : (readConfigurations file).interfaceName =
    lastValue interfaceNameKey (fileLines file)
  comments : ∀ other, SameButComments file other →
    (readConfigurations other).requestInterval =
        (readConfigurations file).requestInterval ∧
      (readConfigurations other).interfaceName =
        (readConfigurations file).interfaceName
  copies : ∀ copy ∈ (readConfigurations file).copies ++
    senderCopies (readConfigurations file), copy.size ≤ copy.room

section Settings

variable {key line : List UInt8} {lines : List (List UInt8)}

theorem lastValue_cons :
    lastValue key (line :: lines) =
      (lastValue key lines).or (settingValue key line) := by
  unfold lastValue
  rw [List.filterMap_cons]
  cases settingValue key line with
  | none => simp
  | some value =>
      rw [List.getLast?_cons]
      cases (lines.filterMap (settingValue key)).getLast? <;> rfl

theorem lastValue_eq_none_iff :
    lastValue key lines = none ↔
      ∀ line ∈ lines, settingValue key line = none := by
  rw [lastValue, List.getLast?_eq_none_iff, List.filterMap_eq_nil_iff]

theorem settingValue_of_comment (h : line.head? = some 35) :
    settingValue key line = none := by
  rw [settingValue, if_pos h]

theorem settingValue_of_short (h : line.length < key.length + 2) :
    settingValue key line = none := by
  unfold settingValue
  split_ifs with hcomment
  · rfl
  · simp only
    rw [if_neg]
    rintro ⟨hkey, hvalue⟩
    have hwords := sscanfWords_length hvalue
    have hpos := List.length_pos_of_ne_nil hvalue
    have htext : (line.takeWhile (· ≠ 0)).length ≤ line.length :=
      (List.takeWhile_sublist _).length_le
    rw [hkey] at hwords
    omega

theorem settingValue_line_end (key line : List UInt8) :
    settingValue key (line ++ [10]) = settingValue key line := by
  have hhead : (line ++ [10]).head? = some 35 ↔ line.head? = some 35 := by
    cases line <;> simp
  have hwords : sscanfWords ((line ++ [10]).takeWhile (· ≠ 0)) =
      sscanfWords (line.takeWhile (· ≠ 0)) := by
    rw [List.takeWhile_append]
    split_ifs with hall
    · have htext : line.takeWhile (· ≠ 0) = line :=
        (List.takeWhile_prefix _).eq_of_length hall
      rw [htext]
      exact sscanfWords_line_end line
    · rfl
  simp only [settingValue, hhead, hwords]

end Settings

/-! ## The loop as a reader of settings -/

def lineCopies (line : List UInt8) : List Copy :=
  if line.head? = some 35 then []
  else
    let words := sscanfWords (line.takeWhile (· ≠ 0))
    wordCopy words.1 ++ wordCopy words.2 ++
      if settingValue interfaceNameKey line = none then [] else [⟨50, 256⟩]

theorem readLine_eq (s : Configuration) (line : List UInt8) :
    readLine s line =
      ⟨((settingValue identReqTimeout line).map atoi).getD s.requestInterval,
        (settingValue interfaceNameKey line).or s.interfaceName,
        s.copies ++ lineCopies line⟩ := by
  have hkeys : identReqTimeout ≠ interfaceNameKey := by decide
  have hident : identReqTimeout ≠ [] := by decide
  have hname : interfaceNameKey ≠ [] := by decide
  by_cases hcomment : line.head? = some 35
  · simp [readLine, settingValue, lineCopies, hcomment]
  · simp only [readLine, settingValue, lineCopies, if_neg hcomment]
    generalize sscanfWords (line.takeWhile (· ≠ 0)) = words
    obtain ⟨word, value⟩ := words
    by_cases hvalue : value = []
    · simp [hvalue]
    by_cases hword : word = []
    · simp [hword, hident.symm, hname.symm]
    by_cases htimeout : word = identReqTimeout
    · simp [htimeout, hident, hvalue, hkeys]
    by_cases hinterface : word = interfaceNameKey
    · simp [hinterface, hname, hvalue, hkeys.symm]
    · simp [hword, hvalue, htimeout, hinterface]

theorem foldl_readLine (pieces : List (List UInt8)) (s : Configuration) :
    pieces.foldl readLine s =
      ⟨((lastValue identReqTimeout pieces).map atoi).getD s.requestInterval,
        (lastValue interfaceNameKey pieces).or s.interfaceName,
        s.copies ++ pieces.flatMap lineCopies⟩ := by
  induction pieces generalizing s with
  | nil => simp [lastValue]
  | cons piece pieces ih =>
      rw [List.foldl_cons, ih, readLine_eq, lastValue_cons, lastValue_cons]
      simp only [Configuration.mk.injEq, List.flatMap_cons, List.append_assoc,
        Option.or_assoc, and_true]
      cases lastValue identReqTimeout pieces <;> simp

theorem atoi_lastValue (lines : List (List UInt8)) :
    ((lastValue identReqTimeout lines).map atoi).getD 0 =
      toInt32 (nearestLong (lastNumber lines)) := by
  unfold lastNumber
  cases lastValue identReqTimeout lines with
  | none => decide
  | some value =>
      rw [Option.map_some, Option.getD_some, Option.map_some,
        Option.getD_some, atoi, strtol_eq_nearestLong]

theorem readConfigurations_eq (file : List UInt8) :
    readConfigurations file =
      ⟨toInt32 (nearestLong (lastNumber (filePieces file))),
        lastValue interfaceNameKey (filePieces file),
        (filePieces file).flatMap lineCopies⟩ := by
  rw [readConfigurations_eq_foldl, foldl_readLine, ← atoi_lastValue]
  simp [Configuration.initial]

/-! ## Lines and pieces -/

/-- The settings that the loop finds in a text, in order. -/
def pieceSettings (key text : List UInt8) : List (List UInt8) :=
  (filePieces text).filterMap (settingValue key)

section Pieces

variable {key line : List UInt8} {lines : List (List UInt8)}

theorem pieceSettings_of_front (hline : 10 ∉ line) (hlong : 255 ≤ line.length)
    (rest : List UInt8) :
    pieceSettings key (line ++ rest) =
      (settingValue key (line.take 255)).toList ++
        pieceSettings key (line.drop 255 ++ rest) := by
  rw [pieceSettings, filePieces_of_front hline hlong, List.filterMap_cons]
  cases settingValue key (line.take 255) <;> rfl

theorem pieceSettings_of_long (hline : 10 ∉ line) (hlong : 255 ≤ line.length) :
    pieceSettings key line =
      (settingValue key (line.take 255)).toList ++
        pieceSettings key (line.drop 255) := by
  have hfront := @pieceSettings_of_front key line hline hlong []
  rwa [List.append_nil, List.append_nil] at hfront

theorem pieceSettings_of_short (hline : 10 ∉ line)
    (hshort : line.length < 255) :
    pieceSettings key line = (settingValue key line).toList := by
  unfold pieceSettings
  by_cases hnil : line = []
  · have hnone : settingValue key [] = none :=
      settingValue_of_short (by simp)
    simp [hnil, hnone]
  · rw [filePieces_of_last hline hnil hshort.le]
    cases hvalue : settingValue key line <;> simp [hvalue]

theorem pieceSettings_line_end (hline : 10 ∉ line) :
    pieceSettings key (line ++ [10]) = pieceSettings key line := by
  induction hlength : line.length using Nat.strong_induction_on
    generalizing line with
  | _ n ih =>
      by_cases hshort : line.length < 255
      · rw [pieceSettings_of_short hline hshort, pieceSettings,
          filePieces_of_line hline hshort, filePieces_nil, List.filterMap_cons,
          settingValue_line_end]
        cases settingValue key line <;> rfl
      · have hlong : 255 ≤ line.length := Nat.not_lt.mp hshort
        have hdrop : 10 ∉ line.drop 255 := fun h =>
          hline (List.mem_of_mem_drop h)
        have hrest := ih (line.drop 255).length
          (by rw [List.length_drop]; omega) hdrop rfl
        rw [pieceSettings_of_front hline hlong,
          pieceSettings_of_long hline hlong, hrest]

/-- The settings of a file are found line by line. -/
theorem pieceSettings_intercalate (hlines : ∀ line ∈ lines, 10 ∉ line) :
    pieceSettings key ([10].intercalate lines) =
      lines.flatMap (pieceSettings key) := by
  induction lines with
  | nil => rfl
  | cons line lines ih =>
      have hline := hlines line List.mem_cons_self
      have hrest := ih fun line h => hlines line (List.mem_cons_of_mem _ h)
      by_cases hlast : lines = []
      · simp [hlast]
      · rw [List.intercalate_cons_of_ne_nil hlast, List.append_assoc,
          pieceSettings, List.singleton_append, filePieces_append hline,
          List.filterMap_append, List.flatMap_cons, ← hrest,
          ← pieceSettings_line_end hline]
        rfl

theorem cutLine_of_short (hshort : line.length < 255) :
    cutLine line = [line] := by
  rw [cutLine, Nat.div_eq_of_lt hshort]
  simp [List.take_of_length_le hshort.le]

theorem cutLine_of_long (hlong : 255 ≤ line.length) :
    cutLine line = line.take 255 :: cutLine (line.drop 255) := by
  have hcount : line.length / 255 = (line.drop 255).length / 255 + 1 := by
    rw [List.length_drop]
    omega
  rw [cutLine, cutLine, hcount, List.range_succ_eq_map]
  simp only [List.map_cons, List.map_map, List.drop_zero, Nat.mul_zero]
  congr 1
  apply List.map_congr_left
  intro k _
  rw [Function.comp_apply, List.drop_drop, Nat.mul_succ, Nat.add_comm]

/-- The loop finds the settings of the cut line. -/
theorem pieceSettings_eq_cutLine (hline : 10 ∉ line) :
    pieceSettings key line = (cutLine line).filterMap (settingValue key) := by
  induction hlength : line.length using Nat.strong_induction_on
    generalizing line with
  | _ n ih =>
      by_cases hshort : line.length < 255
      · rw [pieceSettings_of_short hline hshort, cutLine_of_short hshort]
        cases hvalue : settingValue key line <;> simp [hvalue]
      · have hlong : 255 ≤ line.length := Nat.not_lt.mp hshort
        have hdrop : 10 ∉ line.drop 255 := fun h =>
          hline (List.mem_of_mem_drop h)
        have hrest := ih (line.drop 255).length
          (by rw [List.length_drop]; omega) hdrop rfl
        rw [pieceSettings_of_long hline hlong, cutLine_of_long hlong, hrest,
          List.filterMap_cons]
        cases settingValue key (line.take 255) <;> rfl

/-- What is cut off from a comment of at most 270 characters is too short for
a setting. -/
theorem pieceSettings_of_comment (hkey : 14 ≤ key.length) (hline : 10 ∉ line)
    (hcomment : line.head? = some 35) (hlength : line.length ≤ 270) :
    pieceSettings key line = [] := by
  by_cases hshort : line.length < 255
  · rw [pieceSettings_of_short hline hshort, settingValue_of_comment hcomment]
    rfl
  · have hlong : 255 ≤ line.length := Nat.not_lt.mp hshort
    have hfront : (line.take 255).head? = some 35 := by
      rw [List.head?_take, if_neg (by decide), hcomment]
    have hdrop : 10 ∉ line.drop 255 := fun h => hline (List.mem_of_mem_drop h)
    have hrest : (line.drop 255).length ≤ 15 := by
      rw [List.length_drop]
      omega
    have hnone : settingValue key (line.drop 255) = none :=
      settingValue_of_short (by omega)
    rw [pieceSettings_of_long hline hlong, settingValue_of_comment hfront,
      pieceSettings_of_short hdrop (by omega), hnone]
    rfl

end Pieces

section Lines

variable {key line : List UInt8} {file : List UInt8}
  {lines : List (List UInt8)}

theorem not_mem_of_mem_fileLines (h : line ∈ fileLines file) : 10 ∉ line := by
  unfold fileLines at h
  induction file generalizing line with
  | nil => simp_all
  | cons byte file ih =>
      rw [List.splitOn_cons_eq_if_modifyHead] at h
      split_ifs at h with hend
      · rcases List.mem_cons.mp h with rfl | h
        · simp
        · exact ih h
      · cases hsplit : file.splitOn 10 with
        | nil => exact absurd hsplit (List.splitOn_ne_nil 10 file)
        | cons first others =>
            rw [hsplit] at h ih
            rw [List.modifyHead_cons, List.mem_cons] at h
            rcases h with rfl | h
            · have hfirst := ih List.mem_cons_self
              have hbyte : ¬ byte = 10 := by simpa using hend
              rw [List.mem_cons, not_or]
              exact ⟨fun h => hbyte h.symm, hfirst⟩
            · exact ih (List.mem_cons_of_mem _ h)

theorem intercalate_fileLines (file : List UInt8) :
    [10].intercalate (fileLines file) = file :=
  List.intercalate_splitOn 10

theorem fileLines_intercalate (hlines : ∀ line ∈ lines, 10 ∉ line)
    (hne : lines ≠ []) : fileLines ([10].intercalate lines) = lines :=
  List.splitOn_intercalate 10 hlines hne

theorem pieceSettings_file (key file : List UInt8) :
    pieceSettings key file = (fileLines file).flatMap (pieceSettings key) := by
  have hsettings := @pieceSettings_intercalate key (fileLines file)
    fun line h => not_mem_of_mem_fileLines h
  rwa [intercalate_fileLines] at hsettings

theorem lastValue_filePieces (key file : List UInt8) :
    lastValue key (filePieces file) = (pieceSettings key file).getLast? := rfl

theorem lastValue_cutLine (key file : List UInt8) :
    lastValue key (filePieces file) =
      lastValue key ((fileLines file).flatMap cutLine) := by
  rw [lastValue_filePieces, pieceSettings_file, lastValue,
    List.filterMap_flatMap]
  congr 1
  apply List.flatMap_congr
  intro line hline
  exact pieceSettings_eq_cutLine (not_mem_of_mem_fileLines hline)

end Lines

/-! ## Comments -/

section Comments

variable {key : List UInt8} {file other : List UInt8}

/-- If no comment is long, other characters in comments leave the settings of
the pieces as they are. -/
theorem pieceSettings_of_sameLines {lines lines' : List (List UInt8)}
    (hkey : 14 ≤ key.length)
    (hends : ∀ line ∈ lines, 10 ∉ line) (hends' : ∀ line ∈ lines', 10 ∉ line)
    (hcomments : ∀ line ∈ lines, line.head? = some 35 → line.length ≤ 270)
    (h : List.Forall₂ SameLine lines lines') :
    lines.flatMap (pieceSettings key) = lines'.flatMap (pieceSettings key) := by
  induction h with
  | nil => rfl
  | @cons line line' lines lines' hsame hrest ih =>
      have hend := hends line List.mem_cons_self
      have hend' := hends' line' List.mem_cons_self
      have hlength := hcomments line List.mem_cons_self
      have hothers := ih
        (fun line h => hends line (List.mem_cons_of_mem _ h))
        (fun line h => hends' line (List.mem_cons_of_mem _ h))
        (fun line h => hcomments line (List.mem_cons_of_mem _ h))
      rw [List.flatMap_cons, List.flatMap_cons, hothers]
      rcases hsame with rfl | ⟨hcomment, hcomment', hequal⟩
      · rfl
      · have hshort := hlength hcomment
        rw [pieceSettings_of_comment hkey hend hcomment hshort,
          pieceSettings_of_comment hkey hend' hcomment' (by omega)]

theorem lastValue_of_sameButComments (hkey : 14 ≤ key.length)
    (hcomments : ∀ line ∈ fileLines file,
      line.head? = some 35 → line.length ≤ 270)
    (h : SameButComments file other) :
    lastValue key (filePieces file) = lastValue key (filePieces other) := by
  rw [lastValue_filePieces, lastValue_filePieces, pieceSettings_file,
    pieceSettings_file key other]
  congr 1
  exact pieceSettings_of_sameLines hkey
    (fun line hline => not_mem_of_mem_fileLines hline)
    (fun line hline => not_mem_of_mem_fileLines hline) hcomments h

theorem sameLines_append {before after : List (List UInt8)}
    {line line' : List UInt8} (h : SameLine line line') :
    List.Forall₂ SameLine (before ++ line :: after)
      (before ++ line' :: after) := by
  induction before with
  | nil =>
      refine List.Forall₂.cons h ?_
      exact List.forall₂_same.mpr fun _ _ => Or.inl rfl
  | cons first before ih => exact List.Forall₂.cons (Or.inl rfl) ih

/-- The shortest setting of the name. -/
def hiddenName : List UInt8 := asciiBytes "INTERFACE_NAME x"

theorem settingValue_of_hiddenName (rest : List UInt8) :
    settingValue interfaceNameKey (hiddenName ++ rest) ≠ none := by
  have hparts : hiddenName = interfaceNameKey ++ [32, 120] := by decide
  have htext : (hiddenName ++ rest).takeWhile (· ≠ 0) =
      interfaceNameKey ++ 32 :: 120 :: rest.takeWhile (· ≠ 0) := by
    have hnonzero : hiddenName.all (fun byte => decide (byte ≠ 0)) = true := by
      decide
    rw [List.takeWhile_append_of_pos (List.all_eq_true.mp hnonzero), hparts,
      List.append_assoc]
    rfl
  have hhead : ¬ (hiddenName ++ rest).head? = some 35 := by
    have hfirst : hiddenName.head? = some 73 := by decide
    rw [List.head?_append, hfirst, Option.some_or]
    decide
  have hspace : ¬ isSpace 120 = true := by decide
  have hvalue : (120 :: rest.takeWhile (· ≠ 0)).dropWhile isSpace =
      120 :: rest.takeWhile (· ≠ 0) := List.dropWhile_cons_of_neg hspace
  rw [settingValue, if_neg hhead, htext,
    sscanfWords_of_word (by decide) (by decide), hvalue,
    List.takeWhile_cons_of_pos (by decide)]
  simp

/-- The comment with the setting right behind the first cut. -/
def withHiddenName (line : List UInt8) : List UInt8 :=
  line.take 255 ++ (hiddenName ++ line.drop 271)

section HiddenName

variable {line : List UInt8}

theorem withHiddenName_length (hlong : 270 < line.length) :
    (withHiddenName line).length = line.length := by
  have hsetting : hiddenName.length = 16 := by decide
  simp only [withHiddenName, List.length_append, List.length_take,
    List.length_drop, hsetting]
  omega

theorem sameLine_withHiddenName (hcomment : line.head? = some 35)
    (hlong : 270 < line.length) : SameLine line (withHiddenName line) := by
  refine Or.inr ⟨hcomment, ?_, (withHiddenName_length hlong).symm⟩
  rw [withHiddenName, List.head?_append, List.head?_take, if_neg (by decide),
    hcomment]
  rfl

theorem withHiddenName_no_end (hline : 10 ∉ line) :
    10 ∉ withHiddenName line := by
  have hsetting : 10 ∉ hiddenName := by decide
  simp only [withHiddenName, List.mem_append, not_or]
  exact ⟨fun h => hline (List.mem_of_mem_take h), hsetting,
    fun h => hline (List.mem_of_mem_drop h)⟩

theorem pieceSettings_withHiddenName (hline : 10 ∉ line)
    (hlong : 270 < line.length) :
    pieceSettings interfaceNameKey (withHiddenName line) ≠ [] := by
  have hlong' : 255 ≤ (withHiddenName line).length := by
    rw [withHiddenName_length hlong]
    omega
  have htake : (line.take 255).length = 255 := by
    rw [List.length_take]
    omega
  have hdrop : (withHiddenName line).drop 255 = hiddenName ++ line.drop 271 :=
    List.drop_left' htake
  obtain ⟨more, hpiece⟩ := @filePieces_of_start hiddenName (by decide)
    (by decide) (by decide) (line.drop 271)
  rw [pieceSettings_of_long (withHiddenName_no_end hline) hlong', hdrop]
  intro hnone
  have hrest := (List.append_eq_nil_iff.mp hnone).2
  exact settingValue_of_hiddenName more
    (List.filterMap_eq_nil_iff.mp hrest _ hpiece)

end HiddenName

/-- A comment that is longer can be given characters that set the name. -/
theorem name_set_by_comment {line : List UInt8}
    (hline : line ∈ fileLines file) (hcomment : line.head? = some 35)
    (hlong : 270 < line.length) :
    ∃ other, SameButComments file other ∧
      lastValue interfaceNameKey (filePieces other) ≠ none := by
  obtain ⟨before, after, hlines⟩ := List.append_of_mem hline
  have hend := not_mem_of_mem_fileLines hline
  have hends : ∀ line' ∈ before ++ withHiddenName line :: after,
      10 ∉ line' := by
    intro line' hline'
    rcases List.mem_append.mp hline' with hbefore | hrest
    · apply @not_mem_of_mem_fileLines line' file
      rw [hlines]
      exact List.mem_append_left _ hbefore
    · rcases List.mem_cons.mp hrest with rfl | hafter
      · exact withHiddenName_no_end hend
      · apply @not_mem_of_mem_fileLines line' file
        rw [hlines]
        exact List.mem_append_right _ (List.mem_cons_of_mem _ hafter)
  refine ⟨[10].intercalate (before ++ withHiddenName line :: after), ?_, ?_⟩
  · rw [SameButComments, fileLines_intercalate hends (by simp), hlines]
    exact sameLines_append (sameLine_withHiddenName hcomment hlong)
  · rw [lastValue_filePieces, Ne, List.getLast?_eq_none_iff,
      pieceSettings_intercalate hends, List.flatMap_eq_nil_iff]
    intro hnone
    exact pieceSettings_withHiddenName hend hlong
      (hnone _ (List.mem_append_right before List.mem_cons_self))

end Comments

/-! ## Copies -/

theorem wordCopy_fits {word : List UInt8} (hword : word.length ≤ 255)
    {copy : Copy} (h : copy ∈ wordCopy word) : copy.size ≤ copy.room := by
  unfold wordCopy at h
  split_ifs at h
  · contradiction
  · rw [List.mem_singleton] at h
    rw [h]
    exact Nat.succ_le_succ hword

/-- The words always fit; the name never does. -/
theorem lineCopies_fit_iff {line : List UInt8} (hline : line.length ≤ 255) :
    (∀ copy ∈ lineCopies line, copy.size ≤ copy.room) ↔
      settingValue interfaceNameKey line = none := by
  by_cases hcomment : line.head? = some 35
  · simp [lineCopies, hcomment, settingValue_of_comment hcomment]
  · have htext : (line.takeWhile (· ≠ 0)).length ≤ 255 :=
      (List.takeWhile_sublist _).length_le.trans hline
    have hwords := sscanfWords_length_le (line.takeWhile (· ≠ 0))
    have hkey := hwords.1.trans htext
    have hvalue := hwords.2.trans htext
    simp only [lineCopies, if_neg hcomment]
    by_cases hname : settingValue interfaceNameKey line = none
    · rw [if_pos hname, List.append_nil]
      refine iff_of_true ?_ hname
      intro copy hcopy
      rcases List.mem_append.mp hcopy with hcopy | hcopy
      · exact wordCopy_fits hkey hcopy
      · exact wordCopy_fits hvalue hcopy
    · rw [if_neg hname]
      refine iff_of_false ?_ hname
      intro hfit
      have hcopy := hfit ⟨50, 256⟩
        (List.mem_append_right _ (List.mem_singleton_self _))
      contradiction

theorem copies_fit_iff (file : List UInt8) :
    (∀ copy ∈ (readConfigurations file).copies, copy.size ≤ copy.room) ↔
      ∀ piece ∈ filePieces file,
        settingValue interfaceNameKey piece = none := by
  rw [readConfigurations_eq]
  simp only [List.mem_flatMap]
  constructor
  · intro hfit piece hpiece
    rw [← lineCopies_fit_iff (length_le_of_mem_filePieces hpiece)]
    intro copy hcopy
    exact hfit copy ⟨piece, hpiece, hcopy⟩
  · rintro hnone copy ⟨piece, hpiece, hcopy⟩
    have hline := length_le_of_mem_filePieces hpiece
    exact (lineCopies_fit_iff hline).mpr (hnone piece hpiece) copy hcopy

/-! ## The whole file -/

/-- Cutting the lines leaves the last setting of the interval as it is, or puts
one in its place whose number differs by a multiple of 2^32, if one beyond the
range of `long` is taken for the nearest inside. -/
def IntervalKept (file : List UInt8) : Prop :=
  lastValue identReqTimeout ((fileLines file).flatMap cutLine) =
      lastValue identReqTimeout (fileLines file) ∨
    nearestLong (lastNumber ((fileLines file).flatMap cutLine)) ≡
      lastNumber (fileLines file) [ZMOD 4294967296]

/-- Nothing sets the name of the interface, neither a line nor a piece of one,
the interval is a number for an `int` that no cut takes away, and no comment is
long enough to hide a setting. -/
structure FileHarmless (file : List UInt8) : Prop where
  namePiece : ∀ piece ∈ (fileLines file).flatMap cutLine,
    settingValue interfaceNameKey piece = none
  nameLine : ∀ line ∈ fileLines file,
    settingValue interfaceNameKey line = none
  numberFits : FitsInt (lastNumber (fileLines file))
  intervalKept : IntervalKept file
  comments : ∀ line ∈ fileLines file,
    line.head? = some 35 → line.length ≤ 270

theorem lastNumber_cutLine (file : List UInt8) :
    lastNumber (filePieces file) =
      lastNumber ((fileLines file).flatMap cutLine) := by
  rw [lastNumber, lastNumber, lastValue_cutLine]

theorem intervalKept_iff {file : List UInt8}
    (hfits : FitsInt (lastNumber (fileLines file))) :
    IntervalKept file ↔
      nearestLong (lastNumber ((fileLines file).flatMap cutLine)) ≡
        lastNumber (fileLines file) [ZMOD 4294967296] := by
  refine ⟨?_, Or.inr⟩
  rintro (hsame | hcongruent)
  · have hnumber : lastNumber ((fileLines file).flatMap cutLine) =
        lastNumber (fileLines file) := by
      rw [lastNumber, lastNumber, hsame]
    rw [hnumber, nearestLong_of_fits hfits]
  · exact hcongruent

theorem requestInterval_iff (file : List UInt8) :
    (readConfigurations file).requestInterval = lastNumber (fileLines file) ↔
      FitsInt (lastNumber (fileLines file)) ∧ IntervalKept file := by
  rw [readConfigurations_eq, lastNumber_cutLine, toInt32_eq_iff]
  exact and_congr_right fun hfits => (intervalKept_iff hfits).symm

theorem FileHarmless.parsed {file : List UInt8} (h : FileHarmless file) :
    ConfigurationParsed file := by
  have hpieces : lastValue interfaceNameKey (filePieces file) = none := by
    rw [lastValue_cutLine]
    exact lastValue_eq_none_iff.mpr h.namePiece
  have hlines := lastValue_eq_none_iff.mpr h.nameLine
  have hresult := readConfigurations_eq file
  constructor
  · exact (requestInterval_iff file).mpr ⟨h.numberFits, h.intervalKept⟩
  · rw [hresult, hlines]
    exact hpieces
  · intro other hother
    have hinterval := @lastValue_of_sameButComments identReqTimeout _ _
      (by decide) h.comments hother
    have hname := @lastValue_of_sameButComments interfaceNameKey _ _
      (by decide) h.comments hother
    rw [hresult, readConfigurations_eq other]
    simp only [lastNumber, hinterval, hname, and_self]
  · have hcopies := (copies_fit_iff file).mpr
      (lastValue_eq_none_iff.mp hpieces)
    have hnone : (readConfigurations file).interfaceName = none := by
      rw [hresult]
      exact hpieces
    rw [senderCopies, hnone, List.append_nil]
    exact hcopies

theorem ConfigurationParsed.harmless {file : List UInt8}
    (h : ConfigurationParsed file) : FileHarmless file := by
  have hfit : ∀ copy ∈ (readConfigurations file).copies,
      copy.size ≤ copy.room := fun copy hcopy =>
    h.copies copy (List.mem_append_left _ hcopy)
  have hpieces := lastValue_eq_none_iff.mpr ((copies_fit_iff file).mp hfit)
  have hnone : (readConfigurations file).interfaceName = none := by
    rw [readConfigurations_eq]
    exact hpieces
  constructor
  · rw [← lastValue_eq_none_iff, ← lastValue_cutLine, hpieces]
  · rw [← lastValue_eq_none_iff, ← h.interfaceName, hnone]
  · exact ((requestInterval_iff file).mp h.requestInterval).1
  · exact ((requestInterval_iff file).mp h.requestInterval).2
  · intro line hline hcomment
    by_contra hlong
    obtain ⟨other, hother, hname⟩ :=
      name_set_by_comment hline hcomment (by omega)
    have hsame := (h.comments other hother).2
    rw [hnone, readConfigurations_eq other] at hsame
    exact hname hsame

/-- A file is parsed as it should be exactly if it is harmless. -/
theorem configurationParsed_iff (file : List UInt8) :
    ConfigurationParsed file ↔ FileHarmless file :=
  ⟨fun h => h.harmless, fun h => h.parsed⟩

/-- A number that no `int` can hold is read as a small one. -/
example :
    let file := asciiBytes "IDENT_REQ_TIMEOUT 4294967301"
    lastNumber (fileLines file) = 4294967301 ∧
      (readConfigurations file).requestInterval = 5 := by
  decide

theorem interface_name_overflows :
    ¬ ConfigurationParsed (asciiBytes "INTERFACE_NAME     enp2s0
") := by
  intro h
  have hcopy := h.copies ⟨50, 256⟩ (by decide)
  contradiction

end ProfinetIo
