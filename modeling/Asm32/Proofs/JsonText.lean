import Asm32.Json.Reader
import Asm32.Json.Writer
import Asm32.Proofs.Numerals
import Mathlib.Data.List.Forall2
import Mathlib.Tactic.IntervalCases

/-!
# Reading back written JSON

`Json.Spells text json` says that the reader takes `text` off the front of any
text and gets `json`.  It holds of both ways to write a value without fractions:
`spells_compact` and `spells_pretty`.

  * Strings: the writer's escapes are undone one character at a time.
  * Numbers: the reader stops at the end of the digits when `EndsNumber` holds
    of what stands behind them, and every comma, blank and bracket ends one.
  * Sequences: arrays and objects share the argument for commas and closing
    brackets, `ReadsSequence.intercalate`.
-/

namespace Asm32.Json

/-! ## Strings -/

/-- A code unit that is no half of a surrogate pair stands for its character. -/
theorem unitChars?_unit {code : Nat} (hcode : code < 0xd800) (units : List StringUnit) :
    unitChars? (.unit code :: units) = (unitChars? units).map (Char.ofNat code :: ·) := by
  have hhigh : isHighSurrogate code = false := by
    simp only [isHighSurrogate, Bool.and_eq_false_iff, decide_eq_false_iff_not]
    omega
  have hlow : isLowSurrogate code = false := by
    simp only [isLowSurrogate, Bool.and_eq_false_iff, decide_eq_false_iff_not]
    omega
  cases units with
  | nil => simp [unitChars?, hhigh, hlow]
  | cons unit rest => cases unit <;> simp [unitChars?, hhigh, hlow]

/-- An escaped character is read as one piece, which stands for the character. -/
theorem exists_unit_escapeChar (c : Char) :
    ∃ unit, (∀ rest, stringUnits? ((escapeChar c).toList ++ rest) =
        (stringUnits? rest).map fun read => (unit :: read.1, read.2)) ∧
      ∀ units, unitChars? (unit :: units) = (unitChars? units).map (c :: ·) := by
  fun_cases escapeChar c
  case case8 hquote hbackslash hb hf hn hr ht hcontrol =>
    -- A control character without a short escape is written as four hex digits.
    refine ⟨.unit c.toNat, fun rest => ?_, fun units => ?_⟩
    · have hvalue := Text.digitsValue?_hexPadded 4 c.toNat
      have hlength : (Text.hexPadded 4 c.toNat).toList.length = 4 := by
        rw [String.length_toList, Text.length_hexPadded (by decide) (by omega)]
      obtain ⟨a, b, e, f, hdigits⟩ := List.length_eq_four.1 hlength
      rw [hdigits] at hvalue
      rw [String.toList_append, hdigits]
      show stringUnits? ('\\' :: 'u' :: a :: b :: e :: f :: rest) = _
      rw [stringUnits?, hvalue, Option.bind_some]
    · rw [unitChars?_unit (by omega), Char.ofNat_toNat]
  case case9 hquote hbackslash hb hf hn hr ht hprintable =>
    refine ⟨.char c, fun rest => ?_, fun units => rfl⟩
    have hplain : ¬(c.toNat < 0x20 ∨ c = '\\') := by
      rintro (hcontrol | hescape)
      · exact hprintable hcontrol
      · exact hbackslash hescape
    rw [Char.toString, String.toList_singleton, List.singleton_append, stringUnits?, if_neg hplain]
    · exact hquote
    · exact fun _ _ _ _ _ hescape => absurd hescape hbackslash
    · exact fun _ _ hescape => absurd hescape hbackslash
  all_goals exact ⟨.char _, fun rest => rfl, fun units => rfl⟩

/-- A text is read up to its closing quote. -/
theorem exists_units_escaped (text rest : List Char) :
    ∃ units, stringUnits? (text.flatMap (fun c => (escapeChar c).toList) ++ '"' :: rest) =
        some (units, rest) ∧ unitChars? units = some text := by
  induction text with
  | nil => exact ⟨[], rfl, rfl⟩
  | cons c text ih =>
      obtain ⟨unit, hunit, hchar⟩ := exists_unit_escapeChar c
      obtain ⟨units, hunits, hchars⟩ := ih
      refine ⟨unit :: units, ?_, ?_⟩
      · rw [List.flatMap_cons, List.append_assoc, hunit, hunits, Option.map_some]
      · rw [hchar, hchars, Option.map_some]

/-- A string in quotes reads back. -/
theorem exists_quote_eq (text : JsonText) :
    ∃ body, (quote text).toList = '"' :: body ∧
      ∀ rest, readString? (body ++ rest) = some (text, rest) := by
  cases text with
  | none => exact ⟨"\\ud800\"".toList, rfl, fun rest => rfl⟩
  | some text =>
      refine ⟨text.toList.flatMap (fun c => (escapeChar c).toList) ++ ['"'], ?_, fun rest => ?_⟩
      · simp [quote, String.toList_join, List.flatMap_map]
      · obtain ⟨units, hunits, hchars⟩ := exists_units_escaped text.toList rest
        rw [List.append_assoc, List.singleton_append, readString?, hunits, Option.map_some]
        simp [hchars]

/-! ## Numbers -/

/-- The text cannot go on with a number in front of it. -/
def EndsNumber (text : List Char) : Prop :=
  ∀ c ∈ text.head?, isDecimalDigit c = false ∧ c ≠ '.' ∧ c ≠ 'e' ∧ c ≠ 'E'

theorem endsNumber_nil : EndsNumber [] := by
  simp [EndsNumber]

theorem endsNumber_cons {c : Char} {text : List Char} :
    EndsNumber (c :: text) ↔ isDecimalDigit c = false ∧ c ≠ '.' ∧ c ≠ 'e' ∧ c ≠ 'E' := by
  simp [EndsNumber]

theorem isDecimalDigit_of_mem_decimal {n : Nat} {c : Char} (hc : c ∈ (Text.decimal n).toList) :
    isDecimalDigit c = true := by
  have hdigit := Text.isDigit_of_mem_decimal hc
  simpa [isDecimalDigit, Char.isDigit, Char.le_def] using hdigit

theorem digits?_decimal (n : Nat) {rest : List Char} (hrest : EndsNumber rest) :
    digits? ((Text.decimal n).toList ++ rest) = some ((Text.decimal n).toList, rest) := by
  have hdigits : ∀ c ∈ (Text.decimal n).toList, isDecimalDigit c = true :=
    fun c hc => isDecimalDigit_of_mem_decimal hc
  have htake : rest.takeWhile isDecimalDigit = [] := by
    cases rest with
    | nil => rfl
    | cons c rest => simp [(endsNumber_cons.1 hrest).1]
  have hdrop : rest.dropWhile isDecimalDigit = rest := by
    cases rest with
    | nil => rfl
    | cons c rest => simp [(endsNumber_cons.1 hrest).1]
  rw [digits?, List.takeWhile_append_of_pos hdigits, List.dropWhile_append_of_pos hdigits, htake,
    hdrop, List.append_nil]
  simp

/-- Only zero starts with a zero. -/
theorem eq_zero_of_head?_toDigits {n : Nat} (h : (Nat.toDigits 10 n).head? = some '0') : n = 0 := by
  induction n using Nat.strongRecOn with
  | ind n ih =>
      rw [Nat.toDigits_eq_if (by decide)] at h
      split at h
      next hn =>
        have hdigit : ∀ d < 10, Nat.digitChar d = '0' → d = 0 := by decide
        exact hdigit n hn (by simpa using h)
      next hn =>
        have hne : Nat.toDigits 10 (n / 10) ≠ [] := Nat.toDigits_ne_nil
        rw [List.head?_append_of_ne_nil _ hne] at h
        have hzero := ih _ (Nat.div_lt_self (by omega) (by decide)) h
        omega

theorem unsigned?_decimal (n : Nat) {rest : List Char} (hrest : EndsNumber rest) :
    unsigned? ((Text.decimal n).toList ++ rest) = some ((Text.decimal n).toList, [], rest) := by
  have hwhole : wholeDigits? ((Text.decimal n).toList ++ rest) =
      some ((Text.decimal n).toList, rest) := by
    rw [wholeDigits?, digits?_decimal n hrest]
    have hzero : ¬((Text.decimal n).toList.head? = some '0' ∧
        (Text.decimal n).toList.length ≠ 1) := by
      rintro ⟨hhead, hlength⟩
      rw [Text.toList_decimal] at hhead hlength
      rw [eq_zero_of_head?_toDigits hhead] at hlength
      exact hlength rfl
    simp only [if_neg hzero]
  have hfraction : fraction? rest = some ([], rest) := by
    cases rest with
    | nil => rfl
    | cons c rest =>
        rw [fraction?]
        exact fun _ h => (endsNumber_cons.1 hrest).2.1 (List.cons.inj h).1
  have hexponent : exponent? rest = some ([], rest) := by
    cases rest with
    | nil => rfl
    | cons c rest =>
        obtain ⟨_, _, hlower, hupper⟩ := endsNumber_cons.1 hrest
        rw [exponent?, if_neg (not_or.2 ⟨hlower, hupper⟩)]
  simp only [unsigned?, hwhole, hfraction, hexponent, Option.bind_some, Option.map_some,
    List.append_nil]

theorem readPositive?_decimal (n : Nat) {rest : List Char} (hrest : EndsNumber rest) :
    readPositive? ((Text.decimal n).toList ++ rest) = some (.int n, rest) := by
  simp only [readPositive?, unsigned?_decimal n hrest, Option.map_some, Text.digitsValue?_decimal]
  rfl

theorem readNegative?_decimal (n : Nat) {rest : List Char} (hrest : EndsNumber rest) :
    readNegative? ((Text.decimal (n + 1)).toList ++ rest) = some (.int (.negSucc n), rest) := by
  simp only [readNegative?, unsigned?_decimal (n + 1) hrest, Option.map_some,
    Text.digitsValue?_decimal]
  rfl

/-! ## Values -/

/-- The text denotes the value: the reader takes exactly this text off the front,
however it goes on, as long as it does not go on with a digit behind a number.
Each step of the reader uses up a character, so the length of the text is fuel
enough. -/
def Spells (text : List Char) (json : Json) : Prop :=
  ∀ fuel rest, text.length ≤ fuel → EndsNumber rest →
    readValue? fuel (text ++ rest) = some (json, rest)

/-- A text that is not empty leaves fuel for the first step. -/
theorem spells_of_succ {text : List Char} {json : Json} (hne : text ≠ [])
    (h : ∀ fuel rest, text.length ≤ fuel + 1 → EndsNumber rest →
      readValue? (fuel + 1) (text ++ rest) = some (json, rest)) : Spells text json := by
  intro fuel rest hfuel hrest
  have hpos := List.length_pos_iff.2 hne
  obtain ⟨fuel, rfl⟩ : ∃ k, fuel = k + 1 := ⟨fuel - 1, by omega⟩
  exact h fuel rest hfuel hrest

theorem skipBlanks_append {blanks : List Char} (hblanks : ∀ c ∈ blanks, isJsonBlank c = true)
    (text : List Char) : skipBlanks (blanks ++ text) = skipBlanks text :=
  List.dropWhile_append_of_pos hblanks

theorem skipBlanks_cons {c : Char} (hc : isJsonBlank c = false) (text : List Char) :
    skipBlanks (c :: text) = c :: text := by
  rw [skipBlanks, List.dropWhile_cons_of_neg (by simp [hc])]

/-- Blanks in front of a value do not matter. -/
theorem Spells.blanks {blanks text : List Char} {json : Json}
    (hblanks : ∀ c ∈ blanks, isJsonBlank c = true) (h : Spells text json) :
    Spells (blanks ++ text) json := by
  intro fuel rest hfuel hrest
  rw [List.length_append] at hfuel
  have hread := h fuel rest (by omega) hrest
  cases fuel with
  | zero => simp [readValue?] at hread
  | succ fuel =>
      rw [readValue?] at hread ⊢
      rwa [List.append_assoc, skipBlanks_append hblanks]

theorem spells_str (text : JsonText) : Spells (quote text).toList (.str text) := by
  obtain ⟨body, hquote, hread⟩ := exists_quote_eq text
  rw [hquote]
  refine spells_of_succ (List.cons_ne_nil _ _) fun fuel rest _ _ => ?_
  rw [readValue?, List.cons_append, skipBlanks_cons (by decide)]
  simp only [hread, Option.map_some]

/-- A digit starts a number. -/
theorem readValue?_digitChar {d : Nat} (hd : d < 10) (fuel : Nat) (text : List Char) :
    readValue? (fuel + 1) (Nat.digitChar d :: text) = readPositive? (Nat.digitChar d :: text) := by
  interval_cases d <;> rfl

theorem spells_int (n : Int) : Spells (Text.decimalInt n).toList (.int n) := by
  cases n with
  | ofNat n =>
      rw [Text.decimalInt]
      obtain ⟨c, digits, hdigits⟩ : ∃ c digits, (Text.decimal n).toList = c :: digits :=
        List.exists_cons_of_ne_nil (by simp)
      have hc : c ∈ Nat.toDigits 10 n := by
        rw [← Text.toList_decimal, hdigits]
        exact List.mem_cons_self
      obtain ⟨d, hd, rfl⟩ := Text.exists_digitChar_of_mem_toDigits (by decide) hc
      refine spells_of_succ (by simp) fun fuel rest _ hrest => ?_
      have hread := readPositive?_decimal n hrest
      rw [hdigits, List.cons_append] at hread ⊢
      rw [readValue?_digitChar hd]
      exact hread
  | negSucc n =>
      rw [Text.toList_decimalInt_negSucc]
      refine spells_of_succ (List.cons_ne_nil _ _) fun fuel rest _ hrest => ?_
      rw [List.cons_append, readValue?, skipBlanks_cons (by decide)]
      exact readNegative?_decimal n hrest

/-! ## Sequences -/

theorem EndsNumber.blanks {blanks text : List Char} (hblanks : ∀ c ∈ blanks, isJsonBlank c = true)
    (h : EndsNumber text) : EndsNumber (blanks ++ text) := by
  cases blanks with
  | nil => exact h
  | cons c rest =>
      have hc := hblanks c List.mem_cons_self
      simp only [isJsonBlank, Bool.or_eq_true, beq_iff_eq] at hc
      rw [List.cons_append, endsNumber_cons]
      rcases hc with ((rfl | rfl) | rfl) | rfl <;> decide

/-- `read` takes values off a text one by one, up to a closing character, and goes
on behind a comma. -/
structure ReadsSequence {α : Type} (read : Nat → List Char → Option (List α × List Char))
    (spells : List Char → α → Prop) (close : Char) : Prop where
  last : ∀ {fuel text a after behind}, spells text a → text.length ≤ fuel → EndsNumber after →
    skipBlanks after = close :: behind → read (fuel + 1) (text ++ after) = some ([a], behind)
  next : ∀ {fuel text a after rest}, spells text a → text.length ≤ fuel → EndsNumber after →
    skipBlanks after = ',' :: rest →
    read (fuel + 1) (text ++ after) = (read fuel rest).map fun tail => (a :: tail.1, tail.2)

/-- Values with commas between them are read to the end, whatever blanks stand
behind the last. -/
theorem ReadsSequence.intercalate {α : Type}
    {read : Nat → List Char → Option (List α × List Char)} {spells : List Char → α → Prop}
    {close : Char} (h : ReadsSequence read spells close) {texts : List (List Char)}
    {values : List α} (hspells : List.Forall₂ spells texts values) (hne : values ≠ [])
    {gap rest : List Char}
    (hgap : ∀ c ∈ gap, isJsonBlank c = true) (hclose : skipBlanks (close :: rest) = close :: rest)
    (hends : EndsNumber (close :: rest)) {fuel : Nat}
    (hfuel : (List.intercalate [','] texts).length < fuel) :
    read fuel (List.intercalate [','] texts ++ (gap ++ close :: rest)) = some (values, rest) := by
  induction hspells generalizing fuel with
  | nil => exact absurd rfl hne
  | cons hvalue hvalues ih =>
      obtain ⟨fuel, rfl⟩ : ∃ k, fuel = k + 1 := ⟨fuel - 1, by omega⟩
      cases hvalues with
      | nil =>
          rw [List.intercalate_singleton] at hfuel ⊢
          refine h.last hvalue (by omega) (hends.blanks hgap) ?_
          rw [skipBlanks_append hgap, hclose]
      | cons hnext hrest =>
          rw [List.intercalate_cons_cons, List.length_append, List.length_append,
            List.length_singleton] at hfuel
          have hcomma : ∀ text, EndsNumber (',' :: text) := fun text =>
            endsNumber_cons.2 (by decide)
          rw [List.intercalate_cons_cons, List.append_assoc, List.append_assoc,
            List.singleton_append,
            h.next hvalue (by omega) (hcomma _) (skipBlanks_cons (by decide) _),
            ih (List.cons_ne_nil _ _) (by omega), Option.map_some]

/-! ## Arrays -/

theorem readsSequence_readItems? : ReadsSequence readItems? Spells ']' where
  last hitem hfuel hends hclose := by
    rw [readItems?, hitem _ _ hfuel hends]
    simp only [hclose]
  next hitem hfuel hends hcomma := by
    rw [readItems?, hitem _ _ hfuel hends]
    simp only [hcomma]

/-- Items do not start with the closing bracket. -/
theorem skipBlanks_ne_bracket {fuel : Nat} {text : List Char} {read : List Json × List Char}
    (h : readItems? (fuel + 2) text = some read) (behind : List Char) :
    skipBlanks text ≠ ']' :: behind := by
  intro hclose
  rw [readItems?, readValue?, hclose] at h
  simp [readPositive?, unsigned?, wholeDigits?, digits?, isDecimalDigit] at h

theorem spells_arr {texts : List (List Char)} {items : List Json}
    (h : List.Forall₂ Spells texts items) (hne : items ≠ []) {gap : List Char}
    (hgap : ∀ c ∈ gap, isJsonBlank c = true) :
    Spells ('[' :: (List.intercalate [','] texts ++ gap ++ [']'])) (.arr items) := by
  refine spells_of_succ (List.cons_ne_nil _ _) fun fuel rest hfuel _ => ?_
  rw [List.length_cons, List.length_append, List.length_append, List.length_singleton] at hfuel
  have hitems : ∀ k, (List.intercalate [','] texts).length < k →
      readItems? k (List.intercalate [','] texts ++ (gap ++ ']' :: rest)) = some (items, rest) :=
    fun k hk => readsSequence_readItems?.intercalate h hne hgap (skipBlanks_cons (by decide) _)
      (endsNumber_cons.2 (by decide)) hk
  rw [List.cons_append, List.append_assoc, List.append_assoc, List.singleton_append, readValue?,
    skipBlanks_cons (by decide)]
  simp only
  split
  next behind hclose =>
    -- The reader looks for an empty array first, and no item starts with a bracket
    -- that closes.
    have hread := hitems ((List.intercalate [','] texts).length + 2) (by omega)
    exact absurd hclose (skipBlanks_ne_bracket hread behind)
  next => rw [hitems fuel (by omega), Option.map_some]

theorem spells_arr_nil : Spells ['[', ']'] (.arr []) :=
  spells_of_succ (by decide) fun _ _ _ _ => rfl

/-! ## Objects -/

/-- The text denotes a member of an object. -/
def SpellsMember (text : List Char) (member : JsonText × Json) : Prop :=
  ∃ blanks value, (∀ c ∈ blanks, isJsonBlank c = true) ∧ Spells value member.2 ∧
    text = blanks ++ (quote member.1).toList ++ ':' :: value

/-- A member at the front of a text is read up to the end of its value, and what
stands there decides whether another member follows. -/
theorem readMembers?_member {fuel : Nat} {text after : List Char} {member : JsonText × Json}
    (h : SpellsMember text member) (hfuel : text.length ≤ fuel) (hends : EndsNumber after) :
    (∀ behind, skipBlanks after = '\x7d' :: behind →
        readMembers? (fuel + 1) (text ++ after) = some ([member], behind)) ∧
      ∀ rest, skipBlanks after = ',' :: rest →
        readMembers? (fuel + 1) (text ++ after) =
          (readMembers? fuel rest).map fun tail => (member :: tail.1, tail.2) := by
  obtain ⟨blanks, value, hblanks, hvalue, rfl⟩ := h
  obtain ⟨key, json⟩ := member
  obtain ⟨body, hquote, hkey⟩ := exists_quote_eq key
  rw [hquote] at hfuel
  simp only [List.length_append, List.length_cons] at hfuel
  have hopen : skipBlanks (blanks ++ '"' :: body ++ ':' :: value ++ after) =
      '"' :: (body ++ ':' :: (value ++ after)) := by
    rw [List.append_assoc, List.append_assoc, skipBlanks_append hblanks, List.cons_append,
      skipBlanks_cons (by decide), List.cons_append]
  have hcolon : skipBlanks (':' :: (value ++ after)) = ':' :: (value ++ after) :=
    skipBlanks_cons (by decide) _
  have hread := hvalue fuel after (by omega) hends
  rw [hquote, readMembers?, hopen]
  simp only [hkey, hcolon, hread]
  refine ⟨fun behind hclose => ?_, fun rest hcomma => ?_⟩
  · simp only [hclose]
  · simp only [hcomma]

theorem readsSequence_readMembers? : ReadsSequence readMembers? SpellsMember '\x7d' where
  last hmember hfuel hends hclose := (readMembers?_member hmember hfuel hends).1 _ hclose
  next hmember hfuel hends hcomma := (readMembers?_member hmember hfuel hends).2 _ hcomma

/-- Members do not start with the closing brace. -/
theorem skipBlanks_ne_brace {fuel : Nat} {text : List Char}
    {read : List (JsonText × Json) × List Char} (h : readMembers? (fuel + 1) text = some read)
    (behind : List Char) : skipBlanks text ≠ '\x7d' :: behind := by
  intro hclose
  rw [readMembers?, hclose] at h
  simp at h

theorem spells_obj {texts : List (List Char)} {members : List (JsonText × Json)}
    (h : List.Forall₂ SpellsMember texts members) (hne : members ≠ []) {gap : List Char}
    (hgap : ∀ c ∈ gap, isJsonBlank c = true) :
    Spells ('\x7b' :: (List.intercalate [','] texts ++ gap ++ ['\x7d'])) (.obj members) := by
  refine spells_of_succ (List.cons_ne_nil _ _) fun fuel rest hfuel _ => ?_
  rw [List.length_cons, List.length_append, List.length_append, List.length_singleton] at hfuel
  have hmembers : ∀ k, (List.intercalate [','] texts).length < k →
      readMembers? k (List.intercalate [','] texts ++ (gap ++ '\x7d' :: rest)) =
        some (members, rest) :=
    fun k hk => readsSequence_readMembers?.intercalate h hne hgap (skipBlanks_cons (by decide) _)
      (endsNumber_cons.2 (by decide)) hk
  rw [List.cons_append, List.append_assoc, List.append_assoc, List.singleton_append, readValue?,
    skipBlanks_cons (by decide)]
  simp only
  split
  next behind hclose =>
    have hread := hmembers ((List.intercalate [','] texts).length + 1) (by omega)
    exact absurd hclose (skipBlanks_ne_brace hread behind)
  next => rw [hmembers fuel (by omega), Option.map_some]

theorem spells_obj_nil : Spells ['\x7b', '\x7d'] (.obj []) :=
  spells_of_succ (by decide) fun _ _ _ _ => rfl

/-! ## Written values -/

/-- The values without a number that has a fraction or an exponent.  Records have
no other. -/
inductive Whole : Json → Prop where
  | null : Whole .null
  | bool (value : Bool) : Whole (.bool value)
  | int (value : Int) : Whole (.int value)
  | str (text : JsonText) : Whole (.str text)
  | arr {items : List Json} (hitems : ∀ item ∈ items, Whole item) : Whole (.arr items)
  | obj {members : List (JsonText × Json)} (hmembers : ∀ member ∈ members, Whole member.2) :
      Whole (.obj members)

/-- A writer that puts a comma in front of each element but the first puts commas
between them. -/
theorem toList_commas {α : Type} {write : Bool → List α → String} {element : α → String}
    (hnil : ∀ first, write first [] = "")
    (hcons : ∀ first a rest,
      write first (a :: rest) = (if first then "" else ",") ++ element a ++ write false rest)
    (as : List α) :
    (write true as).toList = List.intercalate [','] (as.map fun a => (element a).toList) := by
  induction as with
  | nil =>
      rw [hnil]
      rfl
  | cons a rest ih =>
      cases rest with
      | nil => simp [hcons, hnil]
      | cons next rest =>
          have hrest : write false (next :: rest) = "," ++ write true (next :: rest) := by
            simp [hcons, String.append_assoc]
          rw [List.map_cons] at ih
          rw [hcons, hrest, List.map_cons, List.map_cons, List.intercalate_cons_cons, ← ih]
          simp

theorem toList_compact_arr (items : List Json) :
    (compact (.arr items)).toList =
      '[' :: (List.intercalate [','] (items.map fun item => item.compact.toList) ++ [] ++
        [']']) := by
  have hitems : (compactItems true items).toList =
      List.intercalate [','] (items.map fun item => item.compact.toList) :=
    toList_commas (fun _ => by rw [compactItems]) (fun _ _ _ => by rw [compactItems]) items
  rw [compact, String.toList_append, String.toList_append, hitems, List.append_nil]
  rfl

theorem toList_compact_obj (members : List (JsonText × Json)) :
    (compact (.obj members)).toList =
      '\x7b' :: (List.intercalate [','] (members.map fun member =>
        (quote member.1 ++ ":" ++ member.2.compact).toList) ++ [] ++ ['\x7d']) := by
  have hmembers : (compactMembers true members).toList =
      List.intercalate [','] (members.map fun member =>
        (quote member.1 ++ ":" ++ member.2.compact).toList) :=
    toList_commas (fun _ => by rw [compactMembers])
      (fun _ _ _ => by rw [compactMembers]; simp only [String.append_assoc]) members
  rw [compact, String.toList_append, String.toList_append, hmembers, List.append_nil]
  rfl

/-- A value without blanks reads back. -/
theorem spells_compact {json : Json} (h : json.Whole) : Spells json.compact.toList json := by
  induction h with
  | null => exact spells_of_succ (by decide) fun _ _ _ _ => rfl
  | bool value => cases value <;> exact spells_of_succ (by decide) fun _ _ _ _ => rfl
  | int value => exact spells_int value
  | str text => exact spells_str text
  | @arr items _ ih =>
      cases items with
      | nil => exact spells_arr_nil
      | cons item items =>
          rw [toList_compact_arr]
          refine spells_arr ?_ (List.cons_ne_nil item items) (by simp)
          rw [List.forall₂_map_left_iff, List.forall₂_same]
          exact ih
  | @obj members _ ih =>
      cases members with
      | nil => exact spells_obj_nil
      | cons member members =>
          rw [toList_compact_obj]
          refine spells_obj ?_ (List.cons_ne_nil member members) (by simp)
          rw [List.forall₂_map_left_iff, List.forall₂_same]
          intro member' hmember'
          refine ⟨[], _, by simp, ih member' hmember', ?_⟩
          simp [String.toList_append]

theorem isJsonBlank_of_mem_newLine {depth : Nat} {c : Char} (hc : c ∈ (newLine depth).toList) :
    isJsonBlank c = true := by
  rw [newLine, String.toList_append, List.mem_append] at hc
  rcases hc with hbreak | hspace
  · obtain rfl : c = '\n' := by simpa using hbreak
    decide
  · rw [String.toList_ofList] at hspace
    rw [List.eq_of_mem_replicate hspace]
    decide

theorem toList_pretty_arr (depth : Nat) {items : List Json} (hne : items ≠ []) :
    (prettyAt depth (.arr items)).toList =
      '[' :: (List.intercalate [','] (items.map fun item =>
        (newLine (depth + 1) ++ prettyAt (depth + 1) item).toList) ++
          (newLine depth).toList ++ [']']) := by
  have hitems : (prettyItems (depth + 1) true items).toList =
      List.intercalate [','] (items.map fun item =>
        (newLine (depth + 1) ++ prettyAt (depth + 1) item).toList) :=
    toList_commas (fun _ => by rw [prettyItems])
      (fun _ _ _ => by rw [prettyItems]; simp only [String.append_assoc]) items
  rw [prettyAt, String.toList_append, String.toList_append, String.toList_append, hitems]
  · rfl
  · exact hne

theorem toList_pretty_obj (depth : Nat) {members : List (JsonText × Json)} (hne : members ≠ []) :
    (prettyAt depth (.obj members)).toList =
      '\x7b' :: (List.intercalate [','] (members.map fun member =>
        (newLine (depth + 1) ++ quote member.1 ++ ": " ++
          prettyAt (depth + 1) member.2).toList) ++ (newLine depth).toList ++ ['\x7d']) := by
  have hmembers : (prettyMembers (depth + 1) true members).toList =
      List.intercalate [','] (members.map fun member =>
        (newLine (depth + 1) ++ quote member.1 ++ ": " ++
          prettyAt (depth + 1) member.2).toList) :=
    toList_commas (fun _ => by rw [prettyMembers])
      (fun _ _ _ => by rw [prettyMembers]; simp only [String.append_assoc]) members
  rw [prettyAt, String.toList_append, String.toList_append, String.toList_append, hmembers]
  · rfl
  · exact hne

/-- A value over several lines reads back. -/
theorem spells_pretty {json : Json} (h : json.Whole) (depth : Nat) :
    Spells (json.prettyAt depth).toList json := by
  induction h generalizing depth with
  | null =>
      rw [prettyAt]
      exact spells_compact .null
  | bool value =>
      rw [prettyAt]
      exact spells_compact (.bool value)
  | int value =>
      rw [prettyAt]
      exact spells_int value
  | str text =>
      rw [prettyAt]
      exact spells_str text
  | @arr items _ ih =>
      cases items with
      | nil =>
          rw [prettyAt]
          exact spells_arr_nil
      | cons item items =>
          have hne := List.cons_ne_nil item items
          rw [toList_pretty_arr depth hne]
          refine spells_arr ?_ hne fun c hc => isJsonBlank_of_mem_newLine hc
          rw [List.forall₂_map_left_iff, List.forall₂_same]
          intro item' hitem'
          rw [String.toList_append]
          exact (ih item' hitem' (depth + 1)).blanks fun c hc => isJsonBlank_of_mem_newLine hc
  | @obj members _ ih =>
      cases members with
      | nil =>
          rw [prettyAt]
          exact spells_obj_nil
      | cons member members =>
          have hne := List.cons_ne_nil member members
          rw [toList_pretty_obj depth hne]
          refine spells_obj ?_ hne fun c hc => isJsonBlank_of_mem_newLine hc
          rw [List.forall₂_map_left_iff, List.forall₂_same]
          intro member' hmember'
          refine ⟨(newLine (depth + 1)).toList, [' '] ++ _,
            fun c hc => isJsonBlank_of_mem_newLine hc,
            (ih member' hmember' (depth + 1)).blanks (List.forall_mem_singleton.2 (by decide)), ?_⟩
          simp [String.toList_append]

/-! ## Whole texts -/

theorem value?_of_spells {text : List Char} {json : Json} (h : Spells text json) :
    value? text = some (json, []) := by
  have hread := h (text.length + 1) [] (by omega) endsNumber_nil
  rwa [List.append_nil] at hread

theorem parse?_of_spells {text : String} {json : Json} (h : Spells text.toList json) :
    parse? text = some json := by
  rw [parse?, value?_of_spells h]
  rfl

end Asm32.Json
