import ProfinetIo.CStrings
import Mathlib.Tactic

/-!
# The configuration file

`read_configurations` reads the file through a buffer of 256 bytes, so a line
that is longer comes in several pieces, each of which is taken for a line.  From
a piece that does not start with `#` it scans two words.  What it copies is
recorded with the room at the destination; the senders copy the name of the
interface once more.
-/

namespace ProfinetIo

open CStrings

/-! ## Reading -/

def fgetsBytes : ℕ → List UInt8 → List UInt8
  | 0, _ => []
  | _ + 1, [] => []
  | room + 1, byte :: rest =>
      if byte = 10 then [byte] else byte :: fgetsBytes room rest

/-- `fgets` on what is left of the file: the bytes stored and those behind
them. -/
def fgets (size : ℕ) (file : List UInt8) : Option (List UInt8 × List UInt8) :=
  if file = [] then none
  else
    let line := fgetsBytes (size - 1) file
    some (line, file.drop line.length)

/-- The two words of `sscanf(line, "%s %s", ..)`, empty if there is none. -/
def sscanfWords (text : List UInt8) : List UInt8 × List UInt8 :=
  let first := text.dropWhile isSpace
  let behind := first.dropWhile fun byte => !isSpace byte
  let second := behind.dropWhile isSpace
  (first.takeWhile fun byte => !isSpace byte,
    second.takeWhile fun byte => !isSpace byte)

/-! ## The loop -/

structure Copy where
  room : ℕ
  size : ℕ
  deriving DecidableEq, Repr

structure Configuration where
  requestInterval : ℤ
  interfaceName : Option (List UInt8)
  copies : List Copy

def Configuration.initial : Configuration := ⟨0, none, []⟩

def identReqTimeout : List UInt8 := asciiBytes "IDENT_REQ_TIMEOUT"
def interfaceNameKey : List UInt8 := asciiBytes "INTERFACE_NAME"

/-- The copy that `%s` makes, if it finds a word. -/
def wordCopy (word : List UInt8) : List Copy :=
  if word = [] then [] else [⟨256, word.length + 1⟩]

/-- One pass of the loop on the string in `line`. -/
def readLine (s : Configuration) (line : List UInt8) : Configuration :=
  if line.head? = some 35 then s
  else
    let key := (sscanfWords (line.takeWhile (· ≠ 0))).1
    let value := (sscanfWords (line.takeWhile (· ≠ 0))).2
    let s := { s with copies := s.copies ++ (wordCopy key ++ wordCopy value) }
    if key = [] ∨ value = [] then s
    else if key = identReqTimeout then { s with requestInterval := atoi value }
    else if key = interfaceNameKey then
      { s with
        interfaceName := some value
        copies := s.copies ++ [⟨50, 256⟩] }
    else s

def readLoop : ℕ → List UInt8 → Configuration → Configuration
  | 0, _, s => s
  | fuel + 1, file, s =>
      match fgets 256 file with
      | none => s
      | some (line, rest) => readLoop fuel rest (readLine s line)

/-- Every pass takes a byte at least, so the file has no more lines than
bytes. -/
def readConfigurations (file : List UInt8) : Configuration :=
  readLoop file.length file .initial

/-- `strcpy(ifr.ifr_name, interface_name)` in the senders. -/
def senderCopies (s : Configuration) : List Copy :=
  match s.interfaceName with
  | none => []
  | some name => [⟨16, name.length + 1⟩]

/-! ## Pieces -/

def piecesWithFuel : ℕ → List UInt8 → List (List UInt8)
  | 0, _ => []
  | fuel + 1, file =>
      match fgets 256 file with
      | none => []
      | some (line, rest) => line :: piecesWithFuel fuel rest

def filePieces (file : List UInt8) : List (List UInt8) :=
  piecesWithFuel file.length file

section Pieces

variable {file line rest : List UInt8} {room : ℕ}

theorem fgetsBytes_length_le (room : ℕ) (file : List UInt8) :
    (fgetsBytes room file).length ≤ room := by
  induction room generalizing file with
  | zero => simp [fgetsBytes]
  | succ room ih =>
      cases file with
      | nil => simp [fgetsBytes]
      | cons byte rest =>
          have hrest := ih rest
          simp only [fgetsBytes]
          split_ifs
          · simp
          · simpa using hrest

theorem fgetsBytes_append (hline : 10 ∉ line) (hroom : line.length ≤ room) :
    fgetsBytes room (line ++ rest) =
      line ++ fgetsBytes (room - line.length) rest := by
  induction line generalizing room with
  | nil => simp
  | cons byte line ih =>
      cases room with
      | zero => simp at hroom
      | succ room =>
          rw [List.mem_cons, not_or] at hline
          have hbyte : ¬ byte = 10 := fun h => hline.1 h.symm
          have hrest := ih hline.2 (Nat.le_of_succ_le_succ hroom)
          rw [List.cons_append, fgetsBytes, if_neg hbyte, hrest,
            List.length_cons, Nat.succ_sub_succ, List.cons_append]

theorem fgetsBytes_of_line (hline : 10 ∉ line) (hroom : line.length < room) :
    fgetsBytes room (line ++ 10 :: rest) = line ++ [10] := by
  have hleft : room - line.length = room - line.length - 1 + 1 := by omega
  rw [fgetsBytes_append hline hroom.le, hleft, fgetsBytes, if_pos rfl]

theorem fgetsBytes_of_front (hline : 10 ∉ line) (hroom : room ≤ line.length) :
    fgetsBytes room (line ++ rest) = line.take room := by
  have hfront : 10 ∉ line.take room := fun h => hline (List.mem_of_mem_take h)
  have hlength : (line.take room).length = room := by
    rw [List.length_take, Nat.min_eq_left hroom]
  have hsplit : line ++ rest = line.take room ++ (line.drop room ++ rest) := by
    rw [← List.append_assoc, List.take_append_drop]
  rw [hsplit, fgetsBytes_append hfront hlength.le, hlength, Nat.sub_self,
    fgetsBytes, List.append_nil]

theorem fgetsBytes_of_last (hline : 10 ∉ line) (hroom : line.length ≤ room) :
    fgetsBytes room line = line := by
  have hnil : fgetsBytes (room - line.length) [] = [] := by
    cases room - line.length <;> rfl
  have happend := @fgetsBytes_append line [] room hline hroom
  rwa [hnil, List.append_nil] at happend

theorem fgetsBytes_pos (hfile : file ≠ []) (hroom : 0 < room) :
    0 < (fgetsBytes room file).length := by
  obtain ⟨more, rfl⟩ : ∃ more, room = more + 1 := ⟨room - 1, by omega⟩
  cases file with
  | nil => contradiction
  | cons byte rest =>
      simp only [fgetsBytes]
      split_ifs <;> simp

theorem fgets_smaller (h : fgets 256 file = some (line, rest)) :
    rest.length < file.length ∧ line.length ≤ 255 := by
  unfold fgets at h
  split_ifs at h with hfile
  simp only [Option.some.injEq, Prod.mk.injEq] at h
  obtain ⟨rfl, rfl⟩ := h
  have hpos := fgetsBytes_pos hfile (show 0 < 256 - 1 by decide)
  have hlen := List.length_pos_of_ne_nil hfile
  refine ⟨?_, fgetsBytes_length_le _ file⟩
  rw [List.length_drop]
  omega

theorem piecesWithFuel_eq_of_le {fuel fuel' : ℕ}
    (h : file.length ≤ fuel) (h' : file.length ≤ fuel') :
    piecesWithFuel fuel file = piecesWithFuel fuel' file := by
  induction fuel generalizing fuel' file with
  | zero =>
      have hnil : file = [] := List.eq_nil_of_length_eq_zero (by omega)
      cases fuel' <;> simp [piecesWithFuel, fgets, hnil]
  | succ fuel ih =>
      cases fuel' with
      | zero =>
          have hnil : file = [] := List.eq_nil_of_length_eq_zero (by omega)
          simp [piecesWithFuel, fgets, hnil]
      | succ fuel' =>
          simp only [piecesWithFuel]
          cases hnext : fgets 256 file with
          | none => rfl
          | some next =>
              have hsmaller := (fgets_smaller hnext).1
              have hrest : piecesWithFuel fuel next.2 =
                  piecesWithFuel fuel' next.2 := ih (by omega) (by omega)
              simp only [hrest]

@[simp] theorem filePieces_nil : filePieces [] = [] := rfl

theorem filePieces_of_fgets (h : fgets 256 file = some (line, rest)) :
    filePieces file = line :: filePieces rest := by
  have hsmaller := (fgets_smaller h).1
  have hfuel : filePieces file = piecesWithFuel (file.length + 1) file :=
    piecesWithFuel_eq_of_le (le_refl _) (Nat.le_succ _)
  have hrest : piecesWithFuel file.length rest = filePieces rest :=
    piecesWithFuel_eq_of_le hsmaller.le (le_refl _)
  rw [hfuel, piecesWithFuel, h]
  simp only [hrest]

theorem filePieces_of_line (hline : 10 ∉ line) (hshort : line.length < 255) :
    filePieces (line ++ 10 :: rest) = (line ++ [10]) :: filePieces rest := by
  apply filePieces_of_fgets
  have hbytes := @fgetsBytes_of_line line rest 255 hline hshort
  simp [fgets, hbytes]

theorem filePieces_of_front (hline : 10 ∉ line) (hlong : 255 ≤ line.length) :
    filePieces (line ++ rest) =
      line.take 255 :: filePieces (line.drop 255 ++ rest) := by
  apply filePieces_of_fgets
  have hbytes := @fgetsBytes_of_front line rest 255 hline hlong
  have hne : line ≠ [] := by
    intro hnil
    simp [hnil] at hlong
  have hlength : (line.take 255).length = 255 := by
    rw [List.length_take, Nat.min_eq_left hlong]
  simp [fgets, hne, hbytes, hlength, List.drop_append_of_le_length hlong]

theorem filePieces_of_start (hline : 10 ∉ line) (hne : line ≠ [])
    (hshort : line.length ≤ 255) (rest : List UInt8) :
    ∃ more, line ++ more ∈ filePieces (line ++ rest) := by
  have hbytes := @fgetsBytes_append line rest 255 hline hshort
  have hnext : fgets 256 (line ++ rest) =
      some (line ++ fgetsBytes (255 - line.length) rest,
        (line ++ rest).drop
          (line ++ fgetsBytes (255 - line.length) rest).length) := by
    simp [fgets, hne, hbytes]
  refine ⟨fgetsBytes (255 - line.length) rest, ?_⟩
  rw [filePieces_of_fgets hnext]
  exact List.mem_cons_self

theorem filePieces_of_last (hline : 10 ∉ line) (hne : line ≠ [])
    (hshort : line.length ≤ 255) : filePieces line = [line] := by
  have hbytes := @fgetsBytes_of_last line 255 hline hshort
  have hnext : fgets 256 line = some (line, []) := by
    simp [fgets, hne, hbytes]
  rw [filePieces_of_fgets hnext, filePieces_nil]

/-- A line with its end is cut into pieces independently of what follows. -/
theorem filePieces_append (hline : 10 ∉ line) (rest : List UInt8) :
    filePieces (line ++ 10 :: rest) = filePieces (line ++ [10]) ++ filePieces rest := by
  induction hlength : line.length using Nat.strong_induction_on
    generalizing line with
  | _ n ih =>
      by_cases hshort : line.length < 255
      · rw [filePieces_of_line hline hshort, filePieces_of_line hline hshort]
        simp
      · have hlong : 255 ≤ line.length := Nat.not_lt.mp hshort
        have hdrop : 10 ∉ line.drop 255 := fun h =>
          hline (List.mem_of_mem_drop h)
        have hrest := ih (line.drop 255).length
          (by rw [List.length_drop]; omega) hdrop rfl
        rw [filePieces_of_front hline hlong, filePieces_of_front hline hlong, hrest,
          List.cons_append]

theorem length_le_of_mem_filePieces {piece : List UInt8}
    (h : piece ∈ filePieces file) : piece.length ≤ 255 := by
  induction hlength : file.length using Nat.strong_induction_on
    generalizing file with
  | _ n ih =>
      cases hnext : fgets 256 file with
      | none =>
          have hnil : file = [] := by
            by_contra hne
            simp [fgets, hne] at hnext
          simp [hnil] at h
      | some next =>
          obtain ⟨line, rest⟩ := next
          have hsizes := fgets_smaller hnext
          rw [filePieces_of_fgets hnext, List.mem_cons] at h
          rcases h with rfl | h
          · exact hsizes.2
          · exact ih rest.length (by omega) h rfl

theorem readLoop_eq_foldl (fuel : ℕ) (file : List UInt8) (s : Configuration) :
    readLoop fuel file s = (piecesWithFuel fuel file).foldl readLine s := by
  induction fuel generalizing file s with
  | zero => rfl
  | succ fuel ih =>
      simp only [readLoop, piecesWithFuel]
      cases fgets 256 file with
      | none => rfl
      | some next => exact ih next.2 _

theorem readConfigurations_eq_foldl (file : List UInt8) :
    readConfigurations file = (filePieces file).foldl readLine .initial :=
  readLoop_eq_foldl _ _ _

end Pieces

/-! ## Words -/

theorem dropWhile_ne_nil_parts {α : Type*} {p : α → Bool} {items : List α}
    (h : items.dropWhile p ≠ []) :
    ∃ item rest, items.dropWhile p = item :: rest ∧ ¬ p item = true := by
  cases hdrop : items.dropWhile p with
  | nil => contradiction
  | cons item rest =>
      have hhead := List.head?_dropWhile_not p items
      rw [hdrop] at hhead
      exact ⟨item, rest, rfl, by simpa using hhead⟩

/-- The second word stands apart from the first. -/
theorem sscanfWords_parts (text : List UInt8) :
    ∃ front between behind,
      text = front ++ ((sscanfWords text).1 ++
        (between ++ ((sscanfWords text).2 ++ behind))) ∧
      ((sscanfWords text).2 ≠ [] → between ≠ []) := by
  let first := text.dropWhile isSpace
  let behind := first.dropWhile fun byte => !isSpace byte
  let second := behind.dropWhile isSpace
  refine ⟨text.takeWhile isSpace, behind.takeWhile isSpace,
    second.dropWhile fun byte => !isSpace byte, ?_, ?_⟩
  · have hsecond : (sscanfWords text).2 ++
        second.dropWhile (fun byte => !isSpace byte) = second :=
      List.takeWhile_append_dropWhile
    have hbehind : behind.takeWhile isSpace ++ second = behind :=
      List.takeWhile_append_dropWhile
    have hfirst : (sscanfWords text).1 ++ behind = first :=
      List.takeWhile_append_dropWhile
    rw [hsecond, hbehind, hfirst, List.takeWhile_append_dropWhile]
  · intro hword hbetween
    have hbehind : behind ≠ [] := by
      intro hnil
      have hsecond : second = [] := by
        rw [show second = behind.dropWhile isSpace from rfl, hnil]
        rfl
      apply hword
      rw [show (sscanfWords text).2 =
        second.takeWhile (fun byte => !isSpace byte) from rfl, hsecond]
      rfl
    obtain ⟨byte, rest, hparts, hspace⟩ := dropWhile_ne_nil_parts hbehind
    rw [show behind = byte :: rest from hparts,
      List.takeWhile_cons_of_pos (by simpa using hspace)] at hbetween
    contradiction

theorem sscanfWords_length {text : List UInt8}
    (h : (sscanfWords text).2 ≠ []) :
    (sscanfWords text).1.length + (sscanfWords text).2.length + 1 ≤
      text.length := by
  obtain ⟨front, between, behind, htext, happart⟩ := sscanfWords_parts text
  have hbetween := List.length_pos_of_ne_nil (happart h)
  have hlength := congrArg List.length htext
  simp only [List.length_append] at hlength
  omega

theorem sscanfWords_length_le (text : List UInt8) :
    (sscanfWords text).1.length ≤ text.length ∧
      (sscanfWords text).2.length ≤ text.length := by
  obtain ⟨front, between, behind, htext, -⟩ := sscanfWords_parts text
  have hlength := congrArg List.length htext
  simp only [List.length_append] at hlength
  omega

theorem sscanfWords_of_word {word : List UInt8} (hne : word ≠ [])
    (hword : word.all (fun byte => !isSpace byte) = true)
    (rest : List UInt8) :
    sscanfWords (word ++ 32 :: rest) =
      (word, (rest.dropWhile isSpace).takeWhile fun byte => !isSpace byte) := by
  have hall := List.all_eq_true.mp hword
  have hstart : (word ++ 32 :: rest).dropWhile isSpace = word ++ 32 :: rest := by
    cases word with
    | nil => contradiction
    | cons byte word =>
        have hbyte := hall byte List.mem_cons_self
        rw [List.cons_append, List.dropWhile_cons_of_neg (by simpa using hbyte)]
  have hfirst : (word ++ 32 :: rest).takeWhile (fun byte => !isSpace byte) =
      word := by
    rw [List.takeWhile_append_of_pos hall,
      List.takeWhile_cons_of_neg (by decide), List.append_nil]
  have hbehind : (word ++ 32 :: rest).dropWhile (fun byte => !isSpace byte) =
      32 :: rest := by
    rw [List.dropWhile_append_of_pos hall,
      List.dropWhile_cons_of_neg (by decide)]
  simp only [sscanfWords, hstart, hfirst, hbehind]
  rw [List.dropWhile_cons_of_pos (by decide)]

section LineEnd

variable {p : UInt8 → Bool}

theorem takeWhile_line_end (h : p 10 = false) (text : List UInt8) :
    (text ++ [10]).takeWhile p = text.takeWhile p := by
  rw [List.takeWhile_append]
  split_ifs with hall
  · rw [List.takeWhile_cons_of_neg (by simp [h]), List.append_nil]
    exact ((List.takeWhile_prefix p).eq_of_length hall).symm
  · rfl

theorem dropWhile_line_end (h : p 10 = false) (text : List UInt8) :
    (text ++ [10]).dropWhile p = text.dropWhile p ++ [10] := by
  rw [List.dropWhile_append]
  split_ifs with hempty
  · simp [h, List.isEmpty_iff.mp hempty]
  · rfl

theorem dropWhile_space_line_end (text : List UInt8) :
    (text ++ [10]).dropWhile isSpace =
      if text.dropWhile isSpace = [] then []
      else text.dropWhile isSpace ++ [10] := by
  rw [List.dropWhile_append]
  simp only [List.isEmpty_iff]
  split_ifs
  · decide
  · rfl

/-- The line end at the end of a piece belongs to no word. -/
theorem sscanfWords_line_end (text : List UInt8) :
    sscanfWords (text ++ [10]) = sscanfWords text := by
  have hend : (!isSpace 10) = false := by decide
  simp only [sscanfWords, dropWhile_space_line_end]
  by_cases hfirst : text.dropWhile isSpace = []
  · simp [hfirst]
  · rw [if_neg hfirst, takeWhile_line_end hend, dropWhile_line_end hend,
      dropWhile_space_line_end]
    split_ifs with hsecond
    · rw [hsecond]
    · rw [takeWhile_line_end hend]

end LineEnd

end ProfinetIo
