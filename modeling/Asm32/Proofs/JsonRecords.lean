import Asm32.Image.Record
import Asm32.Instruction.Record
import Asm32.Proofs.Consistency
import Asm32.Proofs.FeatureText
import Asm32.Proofs.JsonText

/-!
# Records that are written and read

Instruction sets, decoded instructions and images read back from the JSON that
is written of them, in one line or over several.

  * What is written has no fractions (`whole_toJson`), so the reader of JSON
    gets the value back from its text.
  * From the value each record is read field by field (`ofJson?_toJson`); a record
    gives all its fields because their names differ (`fields?_record`).

An image is read from any well-formed record, not only from one that was written
here: `Image.Recorded` says which values are records, and
`Image.recordOfJson?_eq_some_iff` that these and no others are read.
-/

namespace Asm32

namespace Json

/-! ## Shapes -/

theorem natBelow?_eq_some_iff {size n : Nat} {json : Json} :
    json.natBelow? size = some n ↔ json = ofNat n ∧ n < size := by
  cases json with
  | int m =>
      simp only [natBelow?, intWithin?, ofNat, int.injEq]
      split
      next hwithin =>
        rw [Option.map_some, Option.some.injEq]
        omega
      next hout =>
        rw [Option.map_none]
        simp only [reduceCtorEq, false_iff]
        omega
  | _ => simp [natBelow?, intWithin?, ofNat]

theorem word?_eq_some_iff {json : Json} {word : Word} :
    json.word? = some word ↔ json = ofNat word.toNat := by
  rw [word?, Option.map_eq_some_iff]
  constructor
  · rintro ⟨n, hn, rfl⟩
    obtain ⟨rfl, hlt⟩ := natBelow?_eq_some_iff.1 hn
    rw [BitVec.toNat_ofNat, Nat.mod_eq_of_lt hlt]
  · rintro rfl
    exact ⟨word.toNat, natBelow?_eq_some_iff.2 ⟨rfl, word.isLt⟩, by simp⟩

theorem uint64?_eq_some_iff {json : Json} {n : UInt64} :
    json.uint64? = some n ↔ json = ofNat n.toNat := by
  rw [uint64?, Option.map_eq_some_iff]
  constructor
  · rintro ⟨n, hn, rfl⟩
    obtain ⟨rfl, hlt⟩ := natBelow?_eq_some_iff.1 hn
    rw [UInt64.toNat_ofNat_of_lt' hlt]
  · rintro rfl
    exact ⟨n.toNat, natBelow?_eq_some_iff.2 ⟨rfl, n.toNat_lt⟩, UInt64.ofNat_toNat⟩

@[simp] theorem word?_ofNat (word : Word) : (ofNat word.toNat).word? = some word :=
  word?_eq_some_iff.2 rfl

@[simp] theorem uint64?_ofNat (n : UInt64) : (ofNat n.toNat).uint64? = some n :=
  uint64?_eq_some_iff.2 rfl

@[simp] theorem int64?_ofInt64 (value : Int64) : (ofInt64 value).int64? = some value := by
  have hlower := value.le_toInt
  have hupper := value.toInt_lt
  have hwithin : Int64.minValue.toInt ≤ value.toInt ∧ value.toInt ≤ Int64.maxValue.toInt := by
    rw [Int64.toInt_minValue, Int64.toInt_maxValue]
    omega
  simp only [int64?, ofInt64, intWithin?, if_pos hwithin, Option.map_some, Int64.ofInt_toInt]

@[simp] theorem text?_ofString (text : String) : (ofString text).text? = some text :=
  rfl

@[simp] theorem char?_ofChar (c : Char) : (ofChar c).char? = some c := by
  simp [char?, ofChar, text?, Char.toString]

theorem list?_eq_some_iff {α : Type} {read : Json → Option α} {json : Json} {as : List α} :
    json.list? read = some as ↔
      ∃ items, json = arr items ∧ List.Forall₂ (fun item a => read item = some a) items as := by
  cases json with
  | arr items => simp [list?, mapM_eq_some_iff]
  | _ => simp [list?]

/-- Items that read back one by one read back together. -/
theorem list?_map {α : Type} {read : Json → Option α} {write : α → Json} {as : List α}
    (h : ∀ a ∈ as, read (write a) = some a) : (arr (as.map write)).list? read = some as := by
  refine list?_eq_some_iff.2 ⟨_, rfl, ?_⟩
  rw [List.forall₂_map_left_iff, List.forall₂_same]
  exact h

/-- A key has a value when it stands there once. -/
theorem member?_eq_some_iff {members : List (JsonText × Json)} {name : String} {value : Json} :
    member? members name = some (some value) ↔
      members.filter (fun member => member.1 == some name) = [(some name, value)] := by
  unfold member?
  split
  next hnone => simp [hnone]
  next member hone =>
    have hkey : member.1 = some name := by
      have hmem : member ∈ members.filter fun member => member.1 == some name := by simp [hone]
      simpa using (List.mem_filter.1 hmem).2
    rw [hone]
    simp [Prod.ext_iff, hkey]
  next hnone hone =>
    simp only [reduceCtorEq, false_iff]
    exact hone _

theorem member?_of_mem {members : List (String × Json)} (hnodup : (members.map Prod.fst).Nodup)
    {name : String} {value : Json} (hmem : (name, value) ∈ members) :
    member? (members.map fun member => (some member.1, member.2)) name = some (some value) := by
  rw [member?_eq_some_iff]
  induction members with
  | nil => cases hmem
  | cons member rest ih =>
      rw [List.map_cons, List.nodup_cons] at hnodup
      rcases List.mem_cons.1 hmem with rfl | hrest
      · have hnone : ∀ other ∈ rest, other.1 ≠ name := fun other hother hname =>
          hnodup.1 (List.mem_map.2 ⟨other, hother, hname⟩)
        simpa [List.filter_map, List.filter_eq_nil_iff] using hnone
      · have hname : member.1 ≠ name := fun hname =>
          hnodup.1 (List.mem_map.2 ⟨(name, value), hrest, hname.symm⟩)
        rw [List.map_cons, List.filter_cons_of_neg (by simpa using hname)]
        exact ih hnodup.2 hrest

theorem fields?_obj_eq_some_iff {names : List String} {members : List (JsonText × Json)}
    {values : List (Option Json)} :
    (obj members).fields? names = some values ↔ (∀ member ∈ members, member.1.isSome = true) ∧
      List.Forall₂ (fun name value => member? members name = some value) names values := by
  rw [fields?, ← mapM_eq_some_iff, ← List.all_eq_true]
  split
  next hkeys => simp [hkeys]
  next hkeys => simp [hkeys]

/-- A record gives all its fields. -/
theorem fields?_record {members : List (String × Json)} {names : List String}
    (hnames : members.map Prod.fst = names) (hnodup : names.Nodup) :
    (record members).fields? names = some (members.map fun member => some member.2) := by
  subst hnames
  refine fields?_obj_eq_some_iff.2 ⟨List.forall_mem_map.2 fun _ _ => rfl, ?_⟩
  rw [List.forall₂_map_left_iff, List.forall₂_map_right_iff, List.forall₂_same]
  exact fun member hmember => member?_of_mem hnodup hmember

@[simp] theorem tagged?_record (tag : String) (value : Json) :
    (record [(tag, value)]).tagged? = some (tag, value) :=
  rfl

/-! ## Values without fractions -/

@[simp] theorem whole_ofNat (n : Nat) : (ofNat n).Whole :=
  .int n

@[simp] theorem whole_ofInt64 (value : Int64) : (ofInt64 value).Whole :=
  .int value.toInt

@[simp] theorem whole_ofString (text : String) : (ofString text).Whole :=
  .str text

@[simp] theorem whole_ofChar (c : Char) : (ofChar c).Whole :=
  .str c.toString

@[simp] theorem whole_arr_map {α : Type} (as : List α) (write : α → Json) :
    (arr (as.map write)).Whole ↔ ∀ a ∈ as, (write a).Whole := by
  constructor
  · rintro (_ | _ | _ | _ | hitems | _) a ha
    exact hitems _ (List.mem_map_of_mem ha)
  · intro h
    refine .arr fun item hitem => ?_
    obtain ⟨a, ha, rfl⟩ := List.mem_map.1 hitem
    exact h a ha

@[simp] theorem whole_record (members : List (String × Json)) :
    (record members).Whole ↔ ∀ member ∈ members, member.2.Whole := by
  constructor
  · rintro (_ | _ | _ | _ | _ | hmembers) member hmember
    exact hmembers _ (List.mem_map_of_mem hmember)
  · intro h
    refine .obj fun member hmember => ?_
    obtain ⟨source, hsource, rfl⟩ := List.mem_map.1 hmember
    exact h source hsource

end Json

/-! ## Instruction sets -/

theorem Format.ofJson?_toJson (f : Format) : ofJson? f.toJson = some f :=
  Format.ofTag?_tag f

theorem Field.ofJson?_toJson (f : Field) : ofJson? f.toJson = some f := by
  rw [ofJson?, toJson, Json.fields?_record (by rfl) (by decide)]
  simp [Json.natBelow?_eq_some_iff.2 ⟨rfl, f.shift.toNat_lt_size⟩,
    Json.natBelow?_eq_some_iff.2 ⟨rfl, f.width.toNat_lt_size⟩]

theorem Layout.ofJson?_toJson (l : Layout) : ofJson? l.toJson = some l := by
  rw [ofJson?, toJson, Json.fields?_record (by simp) (by decide)]
  simp only [FieldName.all, List.map_cons, List.map_nil, Field.ofJson?_toJson]
  rfl

theorem Instruction.ofJson?_toJson (i : Instruction) : ofJson? i.toJson = some i := by
  rw [ofJson?, toJson, Json.fields?_record (by rfl) (by decide)]
  simp [Format.ofJson?_toJson]

theorem Features.ofJson?_toJson (f : Features) : ofJson? f.toJson = some f := by
  rw [ofJson?, toJson, Json.text?_ofString, Option.bind_some, parse?_text]

/-- A set is read back from its JSON, whether it is consistent or not. -/
theorem InstructionSet.ofJson?_toJson (isa : InstructionSet) : ofJson? isa.toJson = some isa := by
  have htable := Json.list?_map fun i (_ : i ∈ isa.instructions) => i.ofJson?_toJson
  rw [ofJson?, toJson, Json.fields?_record (by rfl) (by decide)]
  simp [Features.ofJson?_toJson, Layout.ofJson?_toJson, htable]

theorem InstructionSet.whole_toJson (isa : InstructionSet) : isa.toJson.Whole := by
  simp [toJson, Features.toJson, Layout.toJson, Field.toJson, Instruction.toJson, Format.toJson]

/-- A description gives consistent sets only. -/
theorem InstructionSet.validate_of_ofDescription {text : String} {isa : InstructionSet}
    (h : ofDescription text = .ok isa) : isa.validate = .ok () := by
  unfold ofDescription at h
  split at h
  next => cases h
  next read hread =>
    split at h
    next hvalid =>
      cases h
      exact hvalid
    next => cases h

theorem InstructionSet.ofDescription_of_spells {text : String} {isa : InstructionSet}
    (h : Json.Spells text.toList isa.toJson) (hvalid : isa.validate = .ok ()) :
    ofDescription text = .ok isa := by
  simp only [ofDescription, Json.parse?_of_spells h, Option.bind_some, ofJson?_toJson, hvalid]

/-! ## Decoded instructions -/

theorem DecodedOperand.ofJson?_toJson (operand : DecodedOperand) :
    ofJson? operand.toJson = some operand := by
  cases operand with
  | register index => simp [ofJson?, toJson]
  | immediate value => simp [ofJson?, toJson]
  | displacement value => simp [ofJson?, toJson]
  | indexed offset base =>
      rw [toJson, ofJson?, Json.tagged?_record]
      simp only
      rw [Json.fields?_record (by rfl) (by decide)]
      simp

theorem DecodedOperand.whole_toJson (operand : DecodedOperand) : operand.toJson.Whole := by
  cases operand <;> simp [toJson]

theorem Decoded.ofJson?_toJson (d : Decoded) : ofJson? d.toJson = some d := by
  have hoperands := Json.list?_map fun operand (_ : operand ∈ d.operands) => operand.ofJson?_toJson
  rw [ofJson?, toJson, Json.fields?_record (by rfl) (by decide)]
  simp [Format.ofJson?_toJson, hoperands]

theorem Decoded.whole_toJson (d : Decoded) : d.toJson.Whole := by
  simp [toJson, Format.toJson, DecodedOperand.whole_toJson]

/-! ## Images -/

namespace Image

/-- The words of a record. -/
def wordsJson (words : List Word) : Json :=
  .arr (words.map fun word => .ofNat word.toNat)

/-- A well-formed record of words and a capacity, whether they fit or not: an
array of both, or an object where each stands once, among other members. -/
inductive Recorded : Json → List Word → UInt64 → Prop where
  | inOrder (words : List Word) (capacity : UInt64) :
      Recorded (.arr [wordsJson words, .ofNat capacity.toNat]) words capacity
  | byName {members : List (JsonText × Json)} {words : List Word} {capacity : UInt64}
      (hkeys : ∀ member ∈ members, member.1.isSome = true)
      (hwords : members.filter (fun member => member.1 == some "words") =
        [(some "words", wordsJson words)])
      (hcapacity : members.filter (fun member => member.1 == some "capacity") =
        [(some "capacity", .ofNat capacity.toNat)]) :
      Recorded (.obj members) words capacity

theorem list?_word?_eq_some_iff {json : Json} {words : List Word} :
    json.list? Json.word? = some words ↔ json = wordsJson words := by
  have hitems : ∀ items : List Json, List.Forall₂ (fun item word => item.word? = some word)
      items words ↔ items = words.map fun word => .ofNat word.toNat := by
    intro items
    simp only [Json.word?_eq_some_iff]
    rw [← List.forall₂_map_right_iff (R := Eq) (f := fun word : Word => Json.ofNat word.toNat),
      List.forall₂_eq_eq_eq]
  rw [Json.list?_eq_some_iff]
  simp [hitems, wordsJson]

theorem recordOfJson?_eq_some_iff_fields? {json : Json} {words : List Word} {capacity : UInt64} :
    recordOfJson? json = some (words, capacity) ↔
      json.fields? ["words", "capacity"] =
        some [some (wordsJson words), some (.ofNat capacity.toNat)] := by
  unfold recordOfJson?
  split
  next wordsValue capacityValue hfields =>
    rw [hfields]
    simp [Option.bind_eq_some_iff, list?_word?_eq_some_iff, Json.uint64?_eq_some_iff]
  next hfields =>
    simp only [reduceCtorEq, false_iff]
    exact hfields _ _

/-- Reading a record succeeds exactly on the well-formed ones. -/
theorem recordOfJson?_eq_some_iff {json : Json} {words : List Word} {capacity : UInt64} :
    recordOfJson? json = some (words, capacity) ↔ Recorded json words capacity := by
  rw [recordOfJson?_eq_some_iff_fields?]
  constructor
  · intro h
    cases json with
    | arr items =>
        rw [Json.fields?] at h
        split at h
        next =>
          have hitems : items = [wordsJson words, .ofNat capacity.toNat] :=
            List.map_injective_iff.2 (Option.some_injective Json) (by simpa using h)
          rw [hitems]
          exact .inOrder words capacity
        next => cases h
    | obj members =>
        obtain ⟨hkeys, hfields⟩ := Json.fields?_obj_eq_some_iff.1 h
        rw [List.forall₂_cons, List.forall₂_cons] at hfields
        obtain ⟨hwords, hcapacity, _⟩ := hfields
        exact .byName hkeys (Json.member?_eq_some_iff.1 hwords)
          (Json.member?_eq_some_iff.1 hcapacity)
    | _ => cases h
  · rintro (⟨words, capacity⟩ | ⟨hkeys, hwords, hcapacity⟩)
    · rfl
    · exact Json.fields?_obj_eq_some_iff.2 ⟨hkeys, .cons (Json.member?_eq_some_iff.2 hwords)
        (.cons (Json.member?_eq_some_iff.2 hcapacity) .nil)⟩

theorem recorded_toJson (image : Image) : Recorded image.toJson image.words image.capacity := by
  rw [← recordOfJson?_eq_some_iff, recordOfJson?_eq_some_iff_fields?]
  exact Json.fields?_record (by rfl) (by decide)

theorem whole_toJson (image : Image) : image.toJson.Whole := by
  simp [toJson]

/-- A text holds too many words when it starts with a well-formed record of more
words than its capacity, whatever stands behind the record. -/
theorem parseJson_eq_rejected_iff {text : String} {cause : AssemblyError} :
    parseJson text = .error (.rejected cause) ↔
      ∃ json behind words capacity, Json.value? text.toList = some (json, behind) ∧
        Recorded json words capacity ∧ capacity.toNat < words.length ∧
        cause = .programTooLarge words.length capacity.toNat := by
  simp only [← recordOfJson?_eq_some_iff]
  unfold parseJson
  split
  next hvalue => simp [hvalue]
  next json behind hvalue =>
    simp only [hvalue]
    split
    next hrecord => simp [hrecord]
    next words capacity hrecord =>
      -- The record decides; the text behind it is looked at only when the words fit.
      constructor
      · intro h
        by_cases hfits : words.length ≤ capacity.toNat
        · rw [ofWords, dif_pos hfits] at h
          simp only at h
          split at h <;> cases h
        · rw [ofWords, dif_neg hfits] at h
          cases h
          exact ⟨json, behind, words, capacity, rfl, hrecord, by omega, rfl⟩
      · rintro ⟨_, _, _, _, hsame, hrecord', hlarge, rfl⟩
        cases hsame
        rw [hrecord] at hrecord'
        cases hrecord'
        rw [ofWords, dif_neg (by omega)]

theorem parseJson_of_spells {text : String} {image : Image}
    (h : Json.Spells text.toList image.toJson) : parseJson text = .ok image := by
  have hrecord := recordOfJson?_eq_some_iff.2 image.recorded_toJson
  have hwords : ofWords image.words image.capacity = .ok image := ofWords_eq_ok_iff.2 ⟨rfl, rfl⟩
  simp only [parseJson, Json.value?_of_spells h, hrecord, hwords]
  rfl

end Image

/-- Consistent instruction sets, decoded instructions and images read back from
their JSON, whichever way it is written.  A record with more words than its
capacity, and nothing else, is rejected as too large. -/
theorem json_roundTrip {write : Json → String}
    (hwrite : write = Json.compact ∨ write = Json.pretty) :
    (∀ isa : InstructionSet,
      InstructionSet.ofDescription (write isa.toJson) = .ok isa ↔ isa.validate = .ok ()) ∧
    (∀ d : Decoded, Decoded.parse? (write d.toJson) = some d) ∧
    (∀ image : Image, Image.parseJson (write image.toJson) = .ok image) ∧
    ∀ (text : String) (cause : AssemblyError),
      Image.parseJson text = .error (.rejected cause) ↔
        ∃ json behind words capacity, Json.value? text.toList = some (json, behind) ∧
          Image.Recorded json words capacity ∧ capacity.toNat < words.length ∧
          cause = .programTooLarge words.length capacity.toNat ∧
          cause.message = "program needs " ++ Text.decimal words.length ++
            " words but memory holds only " ++ Text.decimal capacity.toNat := by
  have hspells : ∀ {json : Json}, json.Whole → Json.Spells (write json).toList json := by
    intro json hjson
    rcases hwrite with rfl | rfl
    · exact Json.spells_compact hjson
    · exact Json.spells_pretty hjson 0
  refine ⟨fun isa => ?_, fun d => ?_, fun image => ?_, fun text cause => ?_⟩
  · exact ⟨InstructionSet.validate_of_ofDescription,
      InstructionSet.ofDescription_of_spells (hspells isa.whole_toJson)⟩
  · rw [Decoded.parse?, Json.parse?_of_spells (hspells d.whole_toJson), Option.bind_some,
      d.ofJson?_toJson]
  · exact Image.parseJson_of_spells (hspells image.whole_toJson)
  · rw [Image.parseJson_eq_rejected_iff]
    constructor
    · rintro ⟨json, behind, words, capacity, hvalue, hrecorded, hlarge, rfl⟩
      exact ⟨json, behind, words, capacity, hvalue, hrecorded, hlarge, rfl, rfl⟩
    · rintro ⟨json, behind, words, capacity, hvalue, hrecorded, hlarge, rfl, _⟩
      exact ⟨json, behind, words, capacity, hvalue, hrecorded, hlarge, rfl⟩

theorem json_roundTrip_snowman :
    (∃ isa : InstructionSet, isa.name = "\"tiny\\ \u0007\n☃" ∧ isa.comment = '☃' ∧
      isa.features = ⟨0xdeadbeef#32⟩ ∧
      InstructionSet.ofDescription isa.toJson.pretty = .ok isa) ∧
    Image.parseJson "\x7b\"capacity\": 1, \"note\": null, \"words\": [1, 4294967295]\x7d, 7" =
      .error (.rejected (.programTooLarge 2 1)) := by
  obtain ⟨hset, _, _, hrejected⟩ := json_roundTrip (.inr rfl)
  have hvalue : Json.value?
      "\x7b\"capacity\": 1, \"note\": null, \"words\": [1, 4294967295]\x7d, 7".toList =
        some (.obj [(some "capacity", .int 1), (some "note", .null),
          (some "words", .arr [.int 1, .int 4294967295])], [',', ' ', '7']) := by
    cbv
  have hrecorded : Image.Recorded (.obj [(some "capacity", .int 1), (some "note", .null),
      (some "words", .arr [.int 1, .int 4294967295])]) [1, 0xffffffff] 1 :=
    .byName (by simp) rfl rfl
  refine ⟨⟨{ InstructionSet.ofVariant .extended with
    name := "\"tiny\\ \u0007\n☃", comment := '☃', features := ⟨0xdeadbeef#32⟩ },
    rfl, rfl, rfl, (hset _).2 rfl⟩, ?_⟩
  exact (hrejected _ _).2 ⟨_, _, _, _, hvalue, hrecorded, by decide, rfl, rfl⟩

end Asm32
