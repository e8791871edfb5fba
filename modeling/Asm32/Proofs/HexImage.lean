import Asm32.Image.Hex
import Asm32.Proofs.Lines
import Asm32.Proofs.Numerals
import Asm32.Proofs.NumeralSyntax
import Mathlib.Data.List.DropRight

/-!
# Hex images that are written and read

An image is written with the zeros behind the program, and the reader has no
mark where the program ended.

* `Image.writeHex_eq` says what a sink takes of the hex text: all of it, or as much
  as it has room for.
* `parseHexImage_hexText` reads any words back from their hex text.
* `IsHexLine` are the lines that the reader takes.  `parseHexLines_eq_ok_iff` says
  what it makes of them, and `parseHexLines_eq_error_iff` which line it blames
  otherwise.
* `usedWords_append_zeros` and `eq_usedWords_append_zeros` say what is lost when
  the zeros at the end are dropped.
* `hex_roundTrip` puts both together: an image reads back as the program with its
  padding, and the used words are the program unless it ends in a zero.
-/

namespace Asm32

/-! ## One word a line -/

theorem toList_hexLine (word : Word) :
    (hexLine word).toList = (Text.hexPadded 8 word.toNat).toList ++ ['\n'] := by
  rw [hexLine, String.toList_append]
  rfl

/-- A word takes eight digits. -/
theorem length_hexPadded_word (word : Word) : (Text.hexPadded 8 word.toNat).length = 8 :=
  Text.length_hexPadded (by decide) word.isLt

theorem not_isBlank_of_mem_hexPadded {width n : Nat} {c : Char}
    (hc : c ∈ (Text.hexPadded width n).toList) : Text.isBlank c = false := by
  have hall : "0123456789abcdef".toList.all (fun c => !Text.isBlank c) = true := by decide
  simpa using List.all_eq_true.1 hall c (Text.mem_of_mem_hexPadded hc)

/-- A plus sign is no digit, so a word is digits and nothing else. -/
theorem parseHexWord?_eq (text : List Char) :
    parseHexWord? text =
      (Text.digitsValue? 16 text).bind fun n =>
        if n < UInt32.size then some (BitVec.ofNat 32 n) else none := by
  unfold parseHexWord? Text.hexWord?
  split
  next word hword =>
    split at hword
    next rest => rfl
    next hplus =>
      have hhead : text.head? ≠ some '+' := fun h => by
        obtain ⟨rest, hrest⟩ := List.head?_eq_some_iff.1 h
        exact hplus rest hrest
      rw [if_neg hhead]
      exact hword.symm
  next hnone =>
    split at hnone
    next rest => rfl
    next => exact hnone.symm

theorem parseHexWord?_hexPadded (word : Word) :
    parseHexWord? (Text.hexPadded 8 word.toNat).toList = some word := by
  rw [parseHexWord?_eq, Text.digitsValue?_hexPadded, Option.bind_some, if_pos word.isLt,
    BitVec.ofNat_toNat, BitVec.setWidth_eq]

theorem toList_hexText (words : List Word) :
    (hexText words).toList =
      (words.map fun word => (Text.hexPadded 8 word.toNat).toList).flatMap fun line =>
        line ++ ['\n'] := by
  rw [hexText, String.toList_join, List.flatMap_map, List.flatMap_map]
  exact congrArg (List.flatMap · words) (funext toList_hexLine)

/-- The lines of a hex text are the words one by one. -/
theorem lines_hexText (words : List Word) :
    Text.lines (hexText words).toList =
      words.map fun word => (Text.hexPadded 8 word.toNat).toList := by
  have hdigit : ∀ line ∈ words.map (fun word => (Text.hexPadded 8 word.toNat).toList),
      ∀ c ∈ line, c ∈ "0123456789abcdef".toList := by
    intro line hline c hc
    obtain ⟨word, _, rfl⟩ := List.mem_map.1 hline
    exact Text.mem_of_mem_hexPadded hc
  rw [toList_hexText]
  apply Text.lines_flatMap_newline
  · intro line hline hnewline
    exact absurd (hdigit line hline _ hnewline) (by decide)
  · intro line hline hlast
    exact absurd (hdigit line hline _ (List.mem_of_getLast? hlast)) (by decide)

/-! ## Writing piece by piece -/

theorem toList_hexText_append (front back : List Word) :
    (hexText (front ++ back)).toList = (hexText front).toList ++ (hexText back).toList := by
  simp only [hexText, String.toList_join, List.map_append, List.flatMap_append]

/-- Every word takes as many characters. -/
theorem length_hexText (words : List Word) :
    (hexText words).toList.length = hexLineLength * words.length := by
  have hline : ∀ word : Word, (hexLine word).toList.length = hexLineLength := by
    intro word
    rw [toList_hexLine, List.length_append, String.length_toList, length_hexPadded_word]
    rfl
  induction words with
  | nil => rfl
  | cons word rest ih =>
      rw [← List.singleton_append, toList_hexText_append, List.length_append, ih,
        List.length_append, Nat.mul_add]
      simp [hexText, hline]

/-- The text of the first words is the start of the whole text. -/
theorem hexText_take (words : List Word) (count room : Nat) (hroom : room ≤ hexLineLength * count) :
    (hexText (words.take count)).toList.take room = (hexText words).toList.take room := by
  conv_rhs => rw [← List.take_append_drop count words, toList_hexText_append]
  by_cases hcount : count ≤ words.length
  · rw [List.take_append_of_le_length]
    rwa [length_hexText, List.length_take, Nat.min_eq_left hcount]
  · rw [List.drop_eq_nil_of_le (by omega)]
    simp [hexText]

namespace Image

theorem leading_eq_take (image : Image) (count : Nat) :
    image.leading count = image.padded.take count := by
  have hfits := image.fits
  rw [padded_eq, leading, List.take_append, List.take_append, List.take_replicate,
    List.take_replicate]
  congr 2
  omega

theorem length_hex (image : Image) :
    image.hex.toList.length = hexLineLength * image.capacity.toNat := by
  rw [hex, length_hexText, length_padded]

/-- A sink takes the hex text as far as it has room, and the write succeeds if
that is all of it and the text lasts. -/
theorem writeHex_eq (image : Image) (sink : Sink) :
    image.writeHex sink =
      (String.ofList (image.hex.toList.take sink.room),
        if image.hex.length ≤ sink.room then
          if sink.flushFails then .error .notFlushed else .ok ()
        else .error .full) := by
  have hlines : sink.room ≤ hexLineLength * (sink.room / hexLineLength + 1) := by
    have hdiv := Nat.div_add_mod sink.room hexLineLength
    have hmod : sink.room % hexLineLength < hexLineLength := Nat.mod_lt _ (by decide)
    rw [Nat.mul_add]
    omega
  have htaken := hexText_take image.padded (sink.room / hexLineLength + 1) sink.room hlines
  have hlength := image.length_hex
  rw [String.length_toList] at hlength
  rw [writeHex, leading_eq_take, hlength]
  by_cases hroom : hexLineLength * image.capacity.toNat ≤ sink.room
  · have hall : (hexText (image.padded.take (sink.room / hexLineLength + 1))).toList.length ≤
        sink.room := by
      rw [length_hexText, List.length_take, length_padded]
      exact (Nat.mul_le_mul_left _ (Nat.min_le_right _ _)).trans hroom
    rw [if_pos hroom, if_pos hroom, hex, ← htaken, List.take_of_length_le hall,
      String.ofList_toList]
  · rw [if_neg hroom, if_neg hroom, htaken]
    rfl

end Image

/-! ## Reading words back -/

theorem parseHexLines_hexPadded (number : Nat) (words : List Word) :
    parseHexLines number (words.map fun word => (Text.hexPadded 8 word.toNat).toList) =
      .ok words := by
  induction words generalizing number with
  | nil => rfl
  | cons word rest ih =>
      have htrim : Text.trim (Text.hexPadded 8 word.toNat).toList =
          (Text.hexPadded 8 word.toNat).toList :=
        Text.trim_eq_self fun c hc => not_isBlank_of_mem_hexPadded hc
      have hline : (Text.hexPadded 8 word.toNat).toList.isEmpty = false := by
        rw [List.isEmpty_eq_false_iff, ← List.length_pos_iff, String.length_toList,
          length_hexPadded_word]
        decide
      rw [List.map_cons, parseHexLines, htrim, hline, parseHexWord?_hexPadded, ih]
      rfl

/-- Hex text reads back as the words it was written from. -/
theorem parseHexImage_hexText (words : List Word) : parseHexImage (hexText words) = .ok words := by
  rw [parseHexImage, lines_hexText, parseHexLines_hexPadded]

/-! ## The lines of a hex text -/

/-- The line is blank, or hex digits of either case with a value of at most 32
bits, and blanks around them. -/
def IsHexLine (line : List Char) : Prop :=
  Text.trim line = [] ∨ ∃ n < 2 ^ 32, Text.IsNumeral 16 (Text.trim line) n

theorem parseHexWord?_eq_some_iff {text : List Char} {word : Word} :
    parseHexWord? text = some word ↔ Text.IsNumeral 16 text word.toNat := by
  rw [← Text.digitsValue?_eq_some_iff (by decide), parseHexWord?_eq,
    Option.bind_eq_some_iff]
  constructor
  · intro hparse
    obtain ⟨n, hvalue, hword⟩ := hparse
    split at hword
    next hlt =>
      obtain rfl := Option.some.inj hword
      rw [hvalue, BitVec.toNat_ofNat, Nat.mod_eq_of_lt hlt]
    next => cases hword
  · intro hvalue
    refine ⟨word.toNat, hvalue, ?_⟩
    rw [if_pos word.isLt, BitVec.ofNat_toNat, BitVec.setWidth_eq]

theorem exists_parseHexWord?_iff {text : List Char} :
    (∃ word, parseHexWord? text = some word) ↔ ∃ n < 2 ^ 32, Text.IsNumeral 16 text n := by
  simp only [parseHexWord?_eq_some_iff]
  constructor
  · intro hword
    obtain ⟨word, hnumeral⟩ := hword
    exact ⟨word.toNat, word.isLt, hnumeral⟩
  · intro hvalue
    obtain ⟨n, hlt, hnumeral⟩ := hvalue
    refine ⟨BitVec.ofNat 32 n, ?_⟩
    rwa [BitVec.toNat_ofNat, Nat.mod_eq_of_lt hlt]

/-- A blank line adds no word. -/
theorem parseHexLines_cons_blank (number : Nat) {line : List Char} (hblank : Text.trim line = [])
    (rest : List (List Char)) :
    parseHexLines number (line :: rest) = parseHexLines (number + 1) rest := by
  rw [parseHexLines, hblank]
  rfl

/-- A line with a word puts it in front of the others. -/
theorem parseHexLines_cons_word (number : Nat) {line : List Char} {word : Word}
    (hword : parseHexWord? (Text.trim line) = some word) (rest : List (List Char)) :
    parseHexLines number (line :: rest) =
      (parseHexLines (number + 1) rest).map fun words => word :: words := by
  have hne : Text.trim line ≠ [] := (parseHexWord?_eq_some_iff.1 hword).1
  rw [parseHexLines, if_neg (by simpa using hne), hword]
  cases parseHexLines (number + 1) rest <;> rfl

/-- Any other line ends the reading. -/
theorem parseHexLines_cons_other (number : Nat) {line : List Char} (hother : ¬IsHexLine line)
    (rest : List (List Char)) :
    parseHexLines number (line :: rest) = .error ⟨number, String.ofList (Text.trim line)⟩ := by
  rw [IsHexLine, not_or, ← exists_parseHexWord?_iff] at hother
  have hnone : parseHexWord? (Text.trim line) = none := by
    rw [Option.eq_none_iff_forall_ne_some]
    exact fun word hword => hother.2 ⟨word, hword⟩
  rw [parseHexLines, if_neg (by simpa using hother.1), hnone]

theorem hexLine_cases (line : List Char) :
    Text.trim line = [] ∨ (∃ word, parseHexWord? (Text.trim line) = some word) ∨
      ¬IsHexLine line := by
  rw [exists_parseHexWord?_iff, ← or_assoc]
  exact Classical.em (IsHexLine line)

/-- Lines are read when each but the blank ones is the digits of its word. -/
theorem parseHexLines_eq_ok_iff {number : Nat} {lines : List (List Char)} {words : List Word} :
    parseHexLines number lines = .ok words ↔
      List.Forall₂ (fun (digits : List Char) (word : Word) => Text.IsNumeral 16 digits word.toNat)
        ((lines.map Text.trim).filter fun line => !line.isEmpty) words := by
  induction lines generalizing number words with
  | nil => simp [parseHexLines, eq_comm]
  | cons line rest ih =>
      rw [List.map_cons]
      rcases hexLine_cases line with hblank | ⟨word, hword⟩ | hother
      · rw [parseHexLines_cons_blank number hblank, ih, List.filter_cons_of_neg (by simp [hblank])]
      · have hnumeral := parseHexWord?_eq_some_iff.1 hword
        rw [parseHexLines_cons_word number hword,
          List.filter_cons_of_pos (by simpa using hnumeral.1), List.forall₂_cons_left_iff]
        constructor
        · intro hparse
          cases hrest : parseHexLines (number + 1) rest with
          | error e =>
              rw [hrest] at hparse
              cases hparse
          | ok others =>
              rw [hrest] at hparse
              cases hparse
              exact ⟨word, others, hnumeral, ih.1 hrest, rfl⟩
        · intro hwords
          obtain ⟨other, others, hother, hothers, rfl⟩ := hwords
          rw [← parseHexWord?_eq_some_iff, hword, Option.some.injEq] at hother
          rw [ih.2 hothers, hother]
          rfl
      · rw [parseHexLines_cons_other number hother]
        rw [IsHexLine, not_or] at hother
        rw [List.filter_cons_of_pos (by simpa using hother.1), List.forall₂_cons_left_iff]
        simp only [reduceCtorEq, false_iff]
        intro hwords
        obtain ⟨word, _, hnumeral, _⟩ := hwords
        exact hother.2 ⟨word.toNat, word.isLt, hnumeral⟩

theorem exists_parseHexLines_iff (number : Nat) {lines : List (List Char)} :
    (∃ words, parseHexLines number lines = .ok words) ↔ ∀ line ∈ lines, IsHexLine line := by
  induction lines generalizing number with
  | nil => simp [parseHexLines]
  | cons line rest ih =>
      rw [List.forall_mem_cons]
      rcases hexLine_cases line with hblank | ⟨word, hword⟩ | hother
      · have hline : IsHexLine line := Or.inl hblank
        rw [parseHexLines_cons_blank number hblank, ih, and_iff_right hline]
      · have hline : IsHexLine line := Or.inr (exists_parseHexWord?_iff.1 ⟨word, hword⟩)
        rw [parseHexLines_cons_word number hword, and_iff_right hline, ← ih (number + 1)]
        cases parseHexLines (number + 1) rest with
        | error e => simp [Except.map]
        | ok words => simp [Except.map]
      · rw [parseHexLines_cons_other number hother]
        simp [hother]

/-- A line that is taken leaves the fault to the lines behind it. -/
theorem parseHexLines_cons_eq_error_iff {number : Nat} {line : List Char} (hline : IsHexLine line)
    {rest : List (List Char)} {e : HexImageError} :
    parseHexLines number (line :: rest) = .error e ↔
      parseHexLines (number + 1) rest = .error e := by
  rcases hexLine_cases line with hblank | ⟨word, hword⟩ | hother
  · rw [parseHexLines_cons_blank number hblank]
  · rw [parseHexLines_cons_word number hword]
    cases parseHexLines (number + 1) rest with
    | error e' => rfl
    | ok words => simp [Except.map]
  · exact absurd hline hother

/-- The first line that is not taken is blamed, by its number and without the
blanks around it. -/
theorem parseHexLines_eq_error_iff {number : Nat} {lines : List (List Char)} {e : HexImageError} :
    parseHexLines number lines = .error e ↔
      ∃ above line below, lines = above ++ line :: below ∧ (∀ other ∈ above, IsHexLine other) ∧
        ¬IsHexLine line ∧ e = ⟨number + above.length, String.ofList (Text.trim line)⟩ := by
  induction lines generalizing number with
  | nil => simp [parseHexLines]
  | cons first rest ih =>
      by_cases hfirst : IsHexLine first
      · rw [parseHexLines_cons_eq_error_iff hfirst, ih]
        constructor
        · intro hblame
          obtain ⟨above, line, below, rfl, habove, hline, rfl⟩ := hblame
          refine ⟨first :: above, line, below, rfl, List.forall_mem_cons.2 ⟨hfirst, habove⟩,
            hline, ?_⟩
          rw [List.length_cons, Nat.add_assoc, Nat.add_comm 1]
        · intro hblame
          obtain ⟨above, line, below, hsplit, habove, hline, rfl⟩ := hblame
          cases above with
          | nil =>
              obtain ⟨rfl, rfl⟩ := List.cons.inj hsplit
              exact absurd hfirst hline
          | cons other above =>
              obtain ⟨rfl, rfl⟩ := List.cons.inj hsplit
              refine ⟨above, line, below, rfl, (List.forall_mem_cons.1 habove).2, hline, ?_⟩
              rw [List.length_cons, Nat.add_assoc, Nat.add_comm 1]
      · rw [parseHexLines_cons_other number hfirst]
        constructor
        · intro hblame
          cases hblame
          exact ⟨[], first, rest, rfl, by simp, hfirst, rfl⟩
        · intro hblame
          obtain ⟨above, line, below, hsplit, habove, hline, rfl⟩ := hblame
          cases above with
          | nil =>
              obtain ⟨rfl, rfl⟩ := List.cons.inj hsplit
              rfl
          | cons other above =>
              obtain ⟨rfl, rfl⟩ := List.cons.inj hsplit
              exact absurd (habove first List.mem_cons_self) hfirst

/-- A hex text is read if every line is blank or a number of at most 32 bits in hex
digits, with blanks around it.  The words are then these numbers in order.
Otherwise the first line that is neither is blamed, with its number, blank lines
counted, and its text without the blanks around it. -/
theorem parseHexImage_exact (text : String) :
    ((∃ words, parseHexImage text = .ok words) ↔
        ∀ line ∈ Text.lines text.toList, IsHexLine line) ∧
      (∀ words, parseHexImage text = .ok words ↔
        List.Forall₂ (fun (digits : List Char) (word : Word) =>
            Text.IsNumeral 16 digits word.toNat)
          (((Text.lines text.toList).map Text.trim).filter fun line => !line.isEmpty) words) ∧
      ∀ e, parseHexImage text = .error e ↔
        ∃ above line below, Text.lines text.toList = above ++ line :: below ∧
          (∀ other ∈ above, IsHexLine other) ∧ ¬IsHexLine line ∧ e.line = above.length + 1 ∧
          e.text = String.ofList (Text.trim line) := by
  refine ⟨exists_parseHexLines_iff 1, fun words => parseHexLines_eq_ok_iff, fun e => ?_⟩
  rw [parseHexImage, parseHexLines_eq_error_iff]
  obtain ⟨number, content⟩ := e
  simp only [HexImageError.mk.injEq, Nat.add_comm 1]

/-- Digits in either case, blanks around a line and a blank line; and a number of
33 bits behind a blank line. -/
theorem parseHexImage_exact_blank :
    (∃ words, parseHexImage " 00fF\r\n\t\n1" = .ok words) ∧
      parseHexImage "1\n\n 100000000 \n" = .error ⟨3, "100000000"⟩ := by
  obtain ⟨haccepts, _⟩ := parseHexImage_exact " 00fF\r\n\t\n1"
  obtain ⟨_, _, hblames⟩ := parseHexImage_exact "1\n\n 100000000 \n"
  have hone : IsHexLine ['1'] := .inr (exists_parseHexWord?_iff.1 ⟨1#32, rfl⟩)
  constructor
  · have hlines : Text.lines " 00fF\r\n\t\n1".toList =
        [[' ', '0', '0', 'f', 'F'], ['\t'], ['1']] := rfl
    have hdigits : IsHexLine [' ', '0', '0', 'f', 'F'] :=
      .inr (exists_parseHexWord?_iff.1 ⟨0xff#32, rfl⟩)
    have hblank : IsHexLine ['\t'] := .inl rfl
    rw [haccepts, hlines]
    simp [hdigits, hblank, hone]
  · have hempty : IsHexLine [] := .inl rfl
    have hwide : ¬IsHexLine [' ', '1', '0', '0', '0', '0', '0', '0', '0', '0', ' '] := by
      have htrim : Text.trim [' ', '1', '0', '0', '0', '0', '0', '0', '0', '0', ' '] =
          ['1', '0', '0', '0', '0', '0', '0', '0', '0'] := rfl
      have hnone : parseHexWord? ['1', '0', '0', '0', '0', '0', '0', '0', '0'] = none := rfl
      rw [IsHexLine, ← exists_parseHexWord?_iff, htrim, hnone]
      simp
    refine (hblames _).2 ⟨[['1'], []], _, [], rfl, ?_, hwide, rfl, rfl⟩
    simp [hone, hempty]

/-! ## Zeros at the end -/

theorem length_rdropWhile_zero (words : List Word) :
    (words.rdropWhile (· == 0)).length = usedLength words := by
  rw [List.rdropWhile, List.length_reverse, usedLength]

theorem usedWords_eq_rdropWhile (words : List Word) :
    usedWords words = words.rdropWhile (· == 0) := by
  rw [usedWords, ← length_rdropWhile_zero]
  exact (List.prefix_iff_eq_take.1 (List.rdropWhile_prefix _ words)).symm

theorem length_usedWords (words : List Word) : (usedWords words).length = usedLength words := by
  rw [usedWords_eq_rdropWhile, length_rdropWhile_zero]

/-- What is dropped at the end are zeros. -/
theorem eq_usedWords_append_zeros (words : List Word) :
    ∃ zeros, words = usedWords words ++ List.replicate zeros 0 := by
  have hzeros : ∀ word ∈ words.rtakeWhile (· == 0), word = 0 := by
    intro word hword
    simpa using List.mem_rtakeWhile_imp hword
  refine ⟨(words.rtakeWhile (· == 0)).length, ?_⟩
  rw [usedWords_eq_rdropWhile, ← List.eq_replicate_of_mem hzeros,
    List.rdropWhile_append_rtakeWhile]

/-- The used words do not end in a zero. -/
theorem getLast?_usedWords_ne (words : List Word) : (usedWords words).getLast? ≠ some 0 := by
  intro hlast
  rw [usedWords_eq_rdropWhile] at hlast
  have hne : words.rdropWhile (· == 0) ≠ [] := by
    intro hnil
    rw [hnil] at hlast
    cases hlast
  rw [List.getLast?_eq_some_getLast hne, Option.some.injEq] at hlast
  exact List.rdropWhile_last_not _ words hne (beq_iff_eq.2 hlast)

/-- Zeros that are put behind words are dropped again. -/
theorem usedWords_append_zeros (words : List Word) (zeros : Nat) :
    usedWords (words ++ List.replicate zeros 0) = usedWords words := by
  simp only [usedWords_eq_rdropWhile]
  induction zeros with
  | zero => simp
  | succ zeros ih =>
      rw [List.replicate_succ', ← List.append_assoc, List.rdropWhile_concat_pos _ _ _ (by simp), ih]

/-- Words are their own used words unless they end in a zero. -/
theorem usedWords_eq_self_iff {words : List Word} :
    usedWords words = words ↔ words = [] ∨ ∃ h : words ≠ [], words.getLast h ≠ 0 := by
  rw [usedWords_eq_rdropWhile, List.rdropWhile_eq_self_iff]
  by_cases hnil : words = []
  · simp [hnil]
  · simp [hnil]

/-! ## Images -/

/-- The hex text of an image is one line of eight lower-case digits for each word
of its memory.  It reads back as the program with zeros behind it; the used words
of that are the program without the zeros at its own end, so they are the program
itself exactly when it is empty or ends in a word that is not zero. -/
theorem Image.hex_roundTrip (image : Image) :
    (∃ lines : List String, lines.length = image.capacity.toNat ∧
        (∀ line ∈ lines, line.length = 8 ∧ ∀ c ∈ line.toList, c ∈ "0123456789abcdef".toList) ∧
        image.hex = String.join (lines.map fun line => line ++ "\n")) ∧
      ∃ parsed, parseHexImage image.hex = .ok parsed ∧
        parsed = image.words ++
          List.replicate (image.capacity.toNat - image.words.length) 0 ∧
        (∃ kept zeros, image.words = kept ++ List.replicate zeros 0 ∧ kept.getLast? ≠ some 0 ∧
          usedLength parsed = kept.length) ∧
        (parsed.take (usedLength parsed) = image.words ↔
          image.words = [] ∨ ∃ h : image.words ≠ [], image.words.getLast h ≠ 0) := by
  constructor
  · refine ⟨image.padded.map fun word => Text.hexPadded 8 word.toNat, ?_, ?_, ?_⟩
    · rw [List.length_map, length_padded]
    · intro line hline
      obtain ⟨word, _, rfl⟩ := List.mem_map.1 hline
      exact ⟨length_hexPadded_word word, fun c hc => Text.mem_of_mem_hexPadded hc⟩
    · rw [List.map_map]
      rfl
  · have hused : usedWords image.padded = usedWords image.words := by
      rw [padded_eq, usedWords_append_zeros]
    refine ⟨image.padded, parseHexImage_hexText _, image.padded_eq, ?_, ?_⟩
    · obtain ⟨zeros, hwords⟩ := eq_usedWords_append_zeros image.words
      refine ⟨_, zeros, hwords, getLast?_usedWords_ne _, ?_⟩
      rw [← length_usedWords, hused]
    · rw [← usedWords, hused, usedWords_eq_self_iff]

end Asm32
