import Script.Run.Session

/-!
# The lines of an input

A session reads its input line by line, and a line is read with the line end that closes it.  The
line end makes no difference to the text of the line: it is one byte, which is no part of a longer
character, and it is dropped with the other line ends at the end of the line.  So the texts are
those of the pieces between the line ends.

## Main definitions

* `Session.lines`: the pieces of an input between line ends.

## Main results

* `Session.decodeLine?_newline`: the text of a line without its line end.
* `Session.map_decodeLine?_splitLines`: the texts of the lines of an input.
-/

namespace Script.Session

/-- The pieces of an input between line ends.  What follows the last line end is a piece if it is
not empty. -/
def lines (input : List UInt8) : List (List UInt8) :=
  let pieces := input.splitOn 10
  pieces.dropLast ++ if pieces.getLastD [] = [] then [] else [pieces.getLastD []]

/-! ## Line ends are characters of their own -/

/-- No byte of a character is a line end, unless the character is one. -/
theorem eq_newline_of_mem {c : Char} (h : 10 ∈ String.utf8EncodeChar c) : c = '\n' := by
  have hbyte : ∀ {n : Nat}, 10 = UInt8.ofNat n → n % 256 = 10 := by
    intro n hn
    have := congrArg UInt8.toNat hn
    simpa using this.symm
  unfold String.utf8EncodeChar at h
  dsimp only at h
  split at h
  · have hval := hbyte (List.mem_singleton.mp h)
    have hten : c.val.toNat = 10 := by omega
    exact Char.ext (UInt32.toNat_inj.mp hten)
  -- in a longer character every byte is at least 128
  · split at h
    · simp only [List.mem_cons, List.not_mem_nil, or_false] at h
      rcases h with h | h <;> have hval := hbyte h <;> omega
    · split at h
      · simp only [List.mem_cons, List.not_mem_nil, or_false] at h
        rcases h with h | h | h <;> have hval := hbyte h <;> omega
      · simp only [List.mem_cons, List.not_mem_nil, or_false] at h
        rcases h with h | h | h | h <;> have hval := hbyte h <;> omega

/-- A line end behind the bytes of a text is a character behind the text. -/
theorem exists_flatMap_newline {line : List UInt8} {cs : List Char}
    (h : line ++ [10] = cs.flatMap String.utf8EncodeChar) :
    ∃ ds, cs = ds ++ ['\n'] ∧ line = ds.flatMap String.utf8EncodeChar := by
  rcases List.eq_nil_or_concat cs with rfl | ⟨ds, c, rfl⟩
  · simp at h
  · rw [List.concat_eq_append, List.flatMap_append, List.flatMap_singleton] at h
    obtain ⟨bytes, b, hbytes⟩ : ∃ bytes b, String.utf8EncodeChar c = bytes ++ [b] := by
      rcases List.eq_nil_or_concat (String.utf8EncodeChar c) with hnil | ⟨bytes, b, hb⟩
      · have hlength := String.length_utf8EncodeChar c
        rw [hnil] at hlength
        exact absurd hlength (Nat.ne_of_lt c.utf8Size_pos)
      · exact ⟨bytes, b, by simpa using hb⟩
    rw [hbytes, ← List.append_assoc] at h
    obtain ⟨hline, hb⟩ := List.append_inj' h rfl
    cases hb
    obtain rfl : c = '\n' := eq_newline_of_mem (by simp [hbytes])
    have hsingle : String.utf8EncodeChar '\n' = [10] := rfl
    rw [hsingle] at hbytes
    have hnil : [] = bytes := (List.append_inj' hbytes rfl).1
    exact ⟨ds, by simp, by simpa [← hnil] using hline⟩

/-- The bytes of a text are those of its characters. -/
theorem fromUTF8?_eq_some_iff {line : List UInt8} {text : String} :
    String.fromUTF8? ⟨line.toArray⟩ = some text ↔
      line = text.toList.flatMap String.utf8EncodeChar := by
  have hline : (⟨line.toArray⟩ : ByteArray) = line.toByteArray :=
    ByteArray.ext List.data_toByteArray.symm
  have htext : text.toByteArray = (text.toList.flatMap String.utf8EncodeChar).toByteArray := by
    conv => lhs; rw [← String.ofList_toList (s := text)]
    rfl
  rw [← List.toByteArray_inj, ← htext, ← hline, String.fromUTF8?]
  constructor
  · intro h
    split at h
    · cases h
      rfl
    · cases h
  · intro h
    rw [h, dif_pos text.isValidUTF8]
    rfl

theorem trimLine_newline (line : List Char) :
    trimLine (String.ofList (line ++ ['\n'])) = trimLine (String.ofList line) := by
  simp [trimLine, isLineEnd]

/-- **The text of a line** does not depend on the line end that closes it. -/
theorem decodeLine?_newline (line : List UInt8) :
    decodeLine? (line ++ [10]) = decodeLine? line := by
  have hiff : ∀ text, decodeLine? (line ++ [10]) = some text ↔ decodeLine? line = some text := by
    intro text
    simp only [decodeLine?, Option.map_eq_some_iff, fromUTF8?_eq_some_iff]
    constructor
    · rintro ⟨full, hfull, rfl⟩
      obtain ⟨ds, hds, hline⟩ := exists_flatMap_newline hfull
      refine ⟨String.ofList ds, by simpa using hline, ?_⟩
      rw [← trimLine_newline, ← hds, String.ofList_toList]
    · rintro ⟨full, hfull, rfl⟩
      refine ⟨String.ofList (full.toList ++ ['\n']), ?_, ?_⟩
      · rw [String.toList_ofList, List.flatMap_append, ← hfull]
        rfl
      · rw [trimLine_newline, String.ofList_toList]
  exact Option.ext hiff

/-- The characters of a text are those that are kept, and line ends behind them. -/
theorem trimLine_eq_iff {full text : String} :
    trimLine full = text ↔
      (∀ c, text.toList.getLast? = some c → isLineEnd c = false) ∧
        ∃ ends : List Char, (∀ c ∈ ends, isLineEnd c = true) ∧
          full.toList = text.toList ++ ends := by
  have hsplit := List.takeWhile_append_dropWhile (p := isLineEnd) (l := full.toList.reverse)
  constructor
  · rintro rfl
    refine ⟨fun c hc => ?_, (full.toList.reverse.takeWhile isLineEnd).reverse, fun c hc => ?_, ?_⟩
    · rw [trimLine, String.toList_ofList, List.getLast?_reverse] at hc
      have hhead := List.head?_dropWhile_not isLineEnd full.toList.reverse
      rw [hc] at hhead
      simpa using hhead
    · exact List.all_eq_true.mp List.all_takeWhile c (List.mem_reverse.mp hc)
    · rw [trimLine, String.toList_ofList, ← List.reverse_append, hsplit, List.reverse_reverse]
  · rintro ⟨hlast, ends, hends, hfull⟩
    have hends' : ∀ c ∈ ends.reverse, isLineEnd c = true := fun c hc =>
      hends c (List.mem_reverse.mp hc)
    have hkeep : text.toList.reverse.dropWhile isLineEnd = text.toList.reverse := by
      cases hrev : text.toList.reverse with
      | nil => rfl
      | cons c cs =>
        have hc : text.toList.getLast? = some c := by rw [← List.head?_reverse, hrev]; rfl
        rw [List.dropWhile_cons_of_neg (by simp [hlast c hc])]
    rw [trimLine, hfull, List.reverse_append, List.dropWhile_append_of_pos hends', hkeep,
      List.reverse_reverse, String.ofList_toList]

/-- **The text of a line**: its bytes are those of the text and of line ends behind it, and the text
does not end with one. -/
theorem decodeLine?_eq_some_iff {line : List UInt8} {text : String} :
    decodeLine? line = some text ↔
      (∀ c, text.toList.getLast? = some c → isLineEnd c = false) ∧
        ∃ ends : List Char, (∀ c ∈ ends, isLineEnd c = true) ∧
          line = (text.toList ++ ends).flatMap String.utf8EncodeChar := by
  simp only [decodeLine?, Option.map_eq_some_iff, fromUTF8?_eq_some_iff, trimLine_eq_iff]
  constructor
  · rintro ⟨full, hline, hlast, ends, hends, hfull⟩
    exact ⟨hlast, ends, hends, hfull ▸ hline⟩
  · rintro ⟨hlast, ends, hends, hline⟩
    exact ⟨String.ofList (text.toList ++ ends), by simpa using hline, hlast, ends, hends, by simp⟩

/-! ## Lines and pieces -/

/-- No line has a line end. -/
theorem newline_notMem_of_mem_splitOn {input piece : List UInt8} (h : piece ∈ input.splitOn 10) :
    10 ∉ piece := by
  induction input generalizing piece with
  | nil =>
    cases List.mem_singleton.mp h
    exact List.not_mem_nil
  | cons b rest ih =>
    obtain ⟨first, pieces, hpieces⟩ := List.exists_cons_of_ne_nil (List.splitOn_ne_nil 10 rest)
    rw [List.splitOn_cons_eq_if_modifyHead] at h
    rw [hpieces] at h ih
    split at h
    · rcases List.mem_cons.mp h with rfl | h
      · exact List.not_mem_nil
      · exact ih h
    · next hb =>
      rcases List.mem_cons.mp h with rfl | h
      · have hfirst : 10 ∉ first := ih List.mem_cons_self
        simp only [beq_iff_eq] at hb
        simpa [hfirst] using Ne.symm hb
      · exact ih (List.mem_cons_of_mem _ h)

theorem newline_notMem_of_mem_lines {input line : List UInt8} (h : line ∈ lines input) :
    10 ∉ line := by
  have hne := List.splitOn_ne_nil 10 input
  refine newline_notMem_of_mem_splitOn (?_ : line ∈ input.splitOn 10)
  rcases List.mem_append.mp h with h | h
  · exact List.dropLast_subset _ h
  · split at h
    · cases h
    · cases List.mem_singleton.mp h
      rw [List.getLastD_eq_getLast?, List.getLast?_eq_some_getLast hne]
      exact List.getLast_mem hne

theorem lines_newline {line : List UInt8} (h : 10 ∉ line) (rest : List UInt8) :
    lines (line ++ 10 :: rest) = line :: lines rest := by
  obtain ⟨piece, pieces, hpieces⟩ := List.exists_cons_of_ne_nil (List.splitOn_ne_nil 10 rest)
  simp only [lines, List.splitOn_append_cons_self_of_not_mem h, hpieces]
  simp

/-- Lines that have no line end are the lines of an input. -/
theorem lines_flatMap {ls : List (List UInt8)} (h : ∀ line ∈ ls, 10 ∉ line) :
    lines (ls.flatMap (· ++ [10])) = ls := by
  induction ls with
  | nil => rfl
  | cons line ls ih =>
    have hrest := ih fun l hl => h l (List.mem_cons_of_mem _ hl)
    simp only [List.flatMap_cons, List.append_assoc, List.cons_append, List.nil_append]
    rw [lines_newline (h line List.mem_cons_self), hrest]

/-- The lines are the pieces, each with its line end, apart from the last. -/
theorem splitLines_eq (input : List UInt8) :
    splitLines input =
      (input.splitOn 10).dropLast.map (· ++ [10]) ++
        if (input.splitOn 10).getLastD [] = [] then [] else [(input.splitOn 10).getLastD []] := by
  induction input with
  | nil => rfl
  | cons b rest ih =>
    obtain ⟨piece, pieces, hpieces⟩ := List.exists_cons_of_ne_nil (List.splitOn_ne_nil 10 rest)
    rw [List.splitOn_cons_eq_if_modifyHead]
    unfold splitLines
    rw [hpieces] at ih ⊢
    by_cases hb : b = 10
    · simp [hb, ih]
    · cases pieces with
      | nil =>
        -- the byte stands on the last line
        have hlast : splitLines rest = if piece = [] then [] else [piece] := ih
        by_cases hempty : piece = []
        · simp [hb, hlast, hempty]
        · simp [hb, hlast, hempty]
      | cons next pieces =>
        have hfirst : splitLines rest = (piece ++ [10]) :: _ := ih
        simp [hb, hfirst]

/-- **The texts of the lines of an input** are those of its pieces. -/
theorem map_decodeLine?_splitLines (input : List UInt8) :
    (splitLines input).map decodeLine? = (lines input).map decodeLine? := by
  have hcomp : decodeLine? ∘ (· ++ [10]) = decodeLine? := funext decodeLine?_newline
  rw [splitLines_eq, lines, List.map_append, List.map_append, List.map_map, hcomp]

end Script.Session
