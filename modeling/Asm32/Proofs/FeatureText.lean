import Asm32.InstructionSet.FeatureText
import Asm32.Proofs.Numerals
import Mathlib.Data.List.Forall2
import Mathlib.Data.List.TakeWhile
import Mathlib.Tactic.IntervalCases

/-!
# Features that are written and read

The text of a feature set names the known feature and gives the other bits as a
hex number, with a bar between the two.  `Features.parse?_text` says that every
32 bits read back from their text.

The reader cuts at the bars alone and drops the blanks around each part, so
`exists_cuts` adds to each part the blanks that the writer put beside the bar.
-/

namespace Asm32

/-- A list is read when each of its elements is. -/
theorem mapM_eq_some_iff {α β : Type} {read : α → Option β} {as : List α} {bs : List β} :
    as.mapM read = some bs ↔ List.Forall₂ (fun a b => read a = some b) as bs := by
  induction as generalizing bs with
  | nil => simp [eq_comm]
  | cons a rest ih =>
      simp only [List.mapM_cons, Option.bind_eq_bind, Option.pure_def, Option.bind_eq_some_iff,
        Option.some.injEq, List.forall₂_cons_left_iff, ih]
      constructor
      · rintro ⟨b, hb, bs, hbs, rfl⟩
        exact ⟨b, bs, hb, hbs, rfl⟩
      · rintro ⟨b, bs, hb, hbs, rfl⟩
        exact ⟨b, hb, bs, hbs, rfl⟩

theorem Text.isBlank_of_trim_eq_nil {text : List Char} (h : trim text = []) {c : Char}
    (hc : c ∈ text) : isBlank c = true := by
  rw [trim, List.reverse_eq_nil_iff, List.dropWhile_eq_nil_iff] at h
  have hsplit : text.takeWhile isBlank ++ text.dropWhile isBlank = text :=
    List.takeWhile_append_dropWhile
  rw [← hsplit, List.mem_append] at hc
  rcases hc with hfront | hrest
  · exact List.mem_takeWhile_imp hfront
  · exact h c (List.mem_reverse.2 hrest)

namespace Features

/-! ## Bits -/

/-- The feature with a name and the bits without make up all of them. -/
theorem union_unnamed (f : Features) :
    (if f.indexed then indexedAddressing else empty).union ⟨f.unnamed⟩ = f := by
  have hone : indexedAddressing.bits = 1#32 := rfl
  have hnamed : (if f.indexed then indexedAddressing else empty).bits =
      f.bits &&& indexedAddressing.bits := by
    rw [indexed, hone, BitVec.and_one_eq_setWidth_ofBool_getLsbD]
    cases f.bits.getLsbD 0 <;> rfl
  have hbits : f.bits &&& indexedAddressing.bits ||| f.unnamed = f.bits := by
    rw [unnamed]
    ext i hi
    simp only [BitVec.getElem_or, BitVec.getElem_and, BitVec.getElem_not]
    cases f.bits[i] <;> cases indexedAddressing.bits[i] <;> rfl
  rw [union, hnamed, hbits]

/-! ## Parts -/

/-- The text of a part: one that holds neither a blank nor a bar and reads as the
given features. -/
structure SpellsPart (part : List Char) (f : Features) : Prop where
  ne_nil : part ≠ []
  plain : ∀ c ∈ part, Text.isBlank c = false ∧ c ≠ '|'
  reads : parsePart? part = some f

theorem spellsPart_indexedName : SpellsPart indexedName.toList indexedAddressing where
  ne_nil := by decide
  plain := by
    have hplain : indexedName.toList.all (fun c => !Text.isBlank c && c != '|') = true := by decide
    simpa using hplain
  reads := by decide

theorem plain_of_mem_hex {n : Nat} {c : Char} (hc : c ∈ (Text.hex n).toList) :
    Text.isBlank c = false ∧ c ≠ '|' ∧ c ≠ '+' := by
  rw [Text.hex, String.toList_ofList] at hc
  obtain ⟨d, hd, rfl⟩ := Text.exists_digitChar_of_mem_toDigits (by decide) hc
  interval_cases d <;> decide

theorem hexWord?_hex (word : BitVec 32) :
    Text.hexWord? (Text.hex word.toNat).toList = some word := by
  have hdigits : Text.digitsValue? 16 (Text.hex word.toNat).toList = some word.toNat := by
    rw [Text.hex, String.toList_ofList, Text.digitsValue?_toDigits (by decide) (by decide)]
  have hlt : word.toNat < UInt32.size := word.isLt
  unfold Text.hexWord?
  split
  next rest hplus =>
    -- No hex number starts with a sign.
    have hmem : '+' ∈ (Text.hex word.toNat).toList := by simp [hplus]
    exact absurd rfl (plain_of_mem_hex hmem).2.2
  next => simp [hdigits, hlt]

theorem spellsPart_hex (word : BitVec 32) :
    SpellsPart ("0x" ++ Text.hex word.toNat).toList ⟨word⟩ := by
  have htext : ("0x" ++ Text.hex word.toNat).toList =
      '0' :: 'x' :: (Text.hex word.toNat).toList := by
    rw [String.toList_append]
    rfl
  have hplain : ∀ c ∈ '0' :: 'x' :: (Text.hex word.toNat).toList,
      Text.isBlank c = false ∧ c ≠ '|' := by
    rw [List.forall_mem_cons, List.forall_mem_cons]
    exact ⟨by decide, by decide, fun c hc => ⟨(plain_of_mem_hex hc).1, (plain_of_mem_hex hc).2.1⟩⟩
  rw [htext]
  refine ⟨List.cons_ne_nil _ _, hplain, ?_⟩
  rw [parsePart?, Text.trim_eq_self fun c hc => (hplain c hc).1]
  simp only [hexWord?_hex, Option.map_some]

/-- Blanks around a part do not matter. -/
theorem SpellsPart.parsePart?_append {part left right : List Char} {f : Features}
    (h : SpellsPart part f) (hleft : ∀ c ∈ left, Text.isBlank c = true)
    (hright : ∀ c ∈ right, Text.isBlank c = true) :
    parsePart? (left ++ part ++ right) = some f := by
  have hblank : ∀ c ∈ part, Text.isBlank c = false := fun c hc => (h.plain c hc).1
  rw [← h.reads, parsePart?, parsePart?, Text.trim_append hleft hblank hright,
    Text.trim_eq_self hblank]

theorem SpellsPart.bar_not_mem_append {part left right : List Char} {f : Features}
    (h : SpellsPart part f) (hleft : ∀ c ∈ left, Text.isBlank c = true)
    (hright : ∀ c ∈ right, Text.isBlank c = true) : '|' ∉ left ++ part ++ right := by
  rw [List.mem_append, List.mem_append]
  rintro ((hmem | hmem) | hmem)
  · exact absurd (hleft _ hmem) (by decide)
  · exact (h.plain _ hmem).2 rfl
  · exact absurd (hright _ hmem) (by decide)

/-! ## Parts between bars -/

/-- Cut at the bars, the text falls into its parts with blanks around them. -/
theorem exists_cuts {parts : List (List Char)} {features : List Features}
    (h : List.Forall₂ SpellsPart parts features) (hne : parts ≠ []) {left : List Char}
    (hleft : ∀ c ∈ left, Text.isBlank c = true) :
    ∃ cuts, left ++ List.intercalate [' ', '|', ' '] parts = List.intercalate ['|'] cuts ∧
      List.Forall₂ (fun cut f => '|' ∉ cut ∧ parsePart? cut = some f) cuts features := by
  induction h generalizing left with
  | nil => exact absurd rfl hne
  | @cons part f parts features hpart hparts ih =>
      cases hparts with
      | nil =>
          have hnone : ∀ c ∈ ([] : List Char), Text.isBlank c = true := by simp
          refine ⟨[left ++ part ++ []], by simp, .cons ⟨?_, ?_⟩ .nil⟩
          · exact hpart.bar_not_mem_append hleft hnone
          · exact hpart.parsePart?_append hleft hnone
      | @cons next g rest others hnext hrest =>
          -- Of the two blanks beside a bar, one stays with the part in front of it
          -- and the other is the `left` of the parts behind.
          have hspace : ∀ c ∈ [' '], Text.isBlank c = true :=
            List.forall_mem_singleton.2 (by decide)
          obtain ⟨cuts, hcuts, hread⟩ := ih (List.cons_ne_nil _ _) hspace
          obtain ⟨cut, cuts, _, _, rfl⟩ := List.forall₂_cons_right_iff.1 hread
          have hcut := And.intro (hpart.bar_not_mem_append hleft hspace)
            (hpart.parsePart?_append hleft hspace)
          refine ⟨(left ++ part ++ [' ']) :: cut :: cuts, ?_, .cons hcut hread⟩
          rw [List.intercalate_cons_cons, List.intercalate_cons_cons, ← hcuts]
          simp

/-- Parts between bars are read one by one. -/
theorem parse?_intercalate {parts : List (List Char)} {features : List Features}
    (h : List.Forall₂ SpellsPart parts features) :
    parse? (List.intercalate [' ', '|', ' '] parts) = some (features.foldl union empty) := by
  cases h with
  | nil => rfl
  | @cons part f parts features hpart hparts =>
      have hleft : ∀ c ∈ ([] : List Char), Text.isBlank c = true := by simp
      obtain ⟨cuts, htext, hcuts⟩ :=
        exists_cuts (.cons hpart hparts) (List.cons_ne_nil part parts) hleft
      obtain ⟨hbar, hread⟩ := (List.forall₂_and_left _ _).1 hcuts
      rw [List.nil_append] at htext
      have hne : cuts ≠ [] := by
        rintro rfl
        cases hread
      have htrim : ¬(Text.trim (List.intercalate ['|'] cuts)).isEmpty = true := by
        rw [List.isEmpty_iff, ← htext]
        intro hnil
        -- The first part starts with a character that is not blank.
        obtain ⟨c, rest, rfl⟩ := List.exists_cons_of_ne_nil hpart.ne_nil
        have hblank := Text.isBlank_of_trim_eq_nil hnil (c := c) (by cases parts <;> simp)
        rw [(hpart.plain c List.mem_cons_self).1] at hblank
        cases hblank
      rw [htext, parse?, if_neg htrim, Text.cutAt_intercalate hbar hne, mapM_eq_some_iff.2 hread,
        Option.map_some]

/-- Features read back from their text. -/
theorem parse?_text (f : Features) : parse? f.text.toList = some f := by
  have hnames : List.Forall₂ SpellsPart
      ((if f.indexed then [indexedName] else []).map String.toList)
      (if f.indexed then [indexedAddressing] else []) := by
    cases f.indexed with
    | false => exact .nil
    | true => exact .cons spellsPart_indexedName .nil
  have hrest : List.Forall₂ SpellsPart
      ((if f.unnamed = 0 then [] else ["0x" ++ Text.hex f.unnamed.toNat]).map String.toList)
      (if f.unnamed = 0 then [] else [⟨f.unnamed⟩]) := by
    split
    next => exact .nil
    next => exact .cons (spellsPart_hex f.unnamed) .nil
  have htext : f.text.toList = List.intercalate [' ', '|', ' ']
      ((if f.indexed then [indexedName] else []).map String.toList ++
        (if f.unnamed = 0 then [] else ["0x" ++ Text.hex f.unnamed.toNat]).map String.toList) := by
    rw [text, String.toList_intercalate, List.map_append]
    rfl
  have hnamed : (if f.indexed then [indexedAddressing] else []).foldl union empty =
      if f.indexed then indexedAddressing else empty := by
    cases f.indexed <;> rfl
  have hall : ∀ named : Features, (if f.unnamed = 0 then [] else [⟨f.unnamed⟩]).foldl union named =
      named.union ⟨f.unnamed⟩ := by
    intro named
    split
    next hzero => simp [hzero, union]
    next => rfl
  rw [htext, parse?_intercalate (List.rel_append hnames hrest), List.foldl_append, hnamed, hall,
    union_unnamed]

end Features

end Asm32
