import Asm32.Instruction.Decoding
import Asm32.Proofs.Encoding

/-!
# Numbers that are written and read

What `Asm32.Text.Numeral` writes, the readers of numbers and registers read
back.

* `digitsValue?_toDigits` is the round trip of digits, for bases up to 16, and
  `digitsValue?_hexPadded` that of hex numbers with zeros in front.
* `Literal.value?_decimalInt` is that of signed numbers, and
  `parseImmediate?_decimalInt` that of numbers of 64 bits.
* `registerNumber?_registerText` is that of registers.
-/

namespace Asm32

namespace Text

/-! ## Digits -/

theorem digitOf?_digitChar {base d : Nat} (hbase : base ≤ 16) (hd : d < base) :
    digitOf? base (Nat.digitChar d) = some d := by
  have hvalue : ∀ e < 16, digitValue? (Nat.digitChar e) = some e := by decide
  rw [digitOf?, hvalue d (by omega), Option.filter_some]
  simp [hd]

theorem digitsFrom?_append (base value : Nat) (digits others : List Char) :
    digitsFrom? base value (digits ++ others) =
      (digitsFrom? base value digits).bind fun v => digitsFrom? base v others := by
  induction digits generalizing value with
  | nil => rfl
  | cons c rest ih =>
      rw [List.cons_append, digitsFrom?, digitsFrom?]
      cases digitOf? base c with
      | none => rfl
      | some digit => exact ih _

theorem digitsFrom?_toDigits {base : Nat} (hlower : 1 < base) (hupper : base ≤ 16) (n : Nat) :
    digitsFrom? base 0 (Nat.toDigits base n) = some n := by
  induction n using Nat.strongRecOn with
  | ind n ih =>
      rw [Nat.toDigits_eq_if hlower]
      split
      next hn => simp [digitsFrom?, digitOf?_digitChar hupper hn]
      next hn =>
        have hless : n / base < n := Nat.div_lt_self (by omega) hlower
        have hlast : digitOf? base (Nat.digitChar (n % base)) = some (n % base) :=
          digitOf?_digitChar hupper (Nat.mod_lt n (by omega))
        rw [digitsFrom?_append, ih _ hless, Option.bind_some, digitsFrom?, hlast]
        simp only [digitsFrom?, Nat.div_add_mod']

theorem digitsValue?_of_ne_nil (base : Nat) {digits : List Char} (hne : digits ≠ []) :
    digitsValue? base digits = digitsFrom? base 0 digits := by
  cases digits with
  | nil => exact absurd rfl hne
  | cons c rest => rfl

/-- The digits of a number read back as the number. -/
theorem digitsValue?_toDigits {base : Nat} (hlower : 1 < base) (hupper : base ≤ 16) (n : Nat) :
    digitsValue? base (Nat.toDigits base n) = some n := by
  rw [digitsValue?_of_ne_nil base Nat.toDigits_ne_nil, digitsFrom?_toDigits hlower hupper]

theorem exists_digitChar_of_mem_toDigits {base : Nat} (hbase : 1 < base) {n : Nat} {c : Char}
    (hc : c ∈ Nat.toDigits base n) : ∃ d < base, c = Nat.digitChar d := by
  induction n using Nat.strongRecOn with
  | ind n ih =>
      rw [Nat.toDigits_eq_if hbase] at hc
      split at hc
      next hn =>
        rw [List.mem_singleton] at hc
        exact ⟨n, hn, hc⟩
      next hn =>
        rcases List.mem_append.1 hc with hhigh | hlow
        · exact ih _ (Nat.div_lt_self (by omega) hbase) hhigh
        · rw [List.mem_singleton] at hlow
          exact ⟨n % base, Nat.mod_lt n (by omega), hlow⟩

/-! ## Hex numbers of a fixed width -/

theorem toList_hexPadded (width n : Nat) :
    (hexPadded width n).toList =
      List.replicate (width - (Nat.toDigits 16 n).length) '0' ++ Nat.toDigits 16 n :=
  String.toList_ofList

/-- Zeros in front do not change the value. -/
theorem digitsFrom?_replicate_zero {base : Nat} (hbase : 0 < base) (count : Nat)
    (digits : List Char) :
    digitsFrom? base 0 (List.replicate count '0' ++ digits) = digitsFrom? base 0 digits := by
  have hzero : digitOf? base '0' = some 0 := by
    have hvalue : digitValue? '0' = some 0 := by decide
    rw [digitOf?, hvalue, Option.filter_some]
    simp [hbase]
  induction count with
  | zero => rfl
  | succ count ih =>
      rw [List.replicate_succ, List.cons_append, digitsFrom?, hzero]
      simpa using ih

/-- A number that is filled up with zeros reads back. -/
theorem digitsValue?_hexPadded (width n : Nat) :
    digitsValue? 16 (hexPadded width n).toList = some n := by
  have hne : (hexPadded width n).toList ≠ [] := by
    rw [toList_hexPadded]
    exact List.append_ne_nil_of_right_ne_nil _ Nat.toDigits_ne_nil
  rw [digitsValue?_of_ne_nil 16 hne, toList_hexPadded, digitsFrom?_replicate_zero (by decide),
    digitsFrom?_toDigits (by decide) (by decide)]

theorem hexPadded_injective {width m n : Nat} (h : hexPadded width m = hexPadded width n) :
    m = n := by
  have hm := digitsValue?_hexPadded width m
  rw [h, digitsValue?_hexPadded] at hm
  exact (Option.some.inj hm).symm

/-- A number that is not too large has exactly the width asked for. -/
theorem length_hexPadded {width n : Nat} (hwidth : 0 < width) (hn : n < 16 ^ width) :
    (hexPadded width n).length = width := by
  have hle := (Nat.length_toDigits_le_iff (by decide) hwidth).2 hn
  rw [← String.length_toList, toList_hexPadded, List.length_append, List.length_replicate]
  omega

/-- Hex numbers are written in lower case. -/
theorem mem_of_mem_hexPadded {width n : Nat} {c : Char} (hc : c ∈ (hexPadded width n).toList) :
    c ∈ "0123456789abcdef".toList := by
  rw [toList_hexPadded] at hc
  rcases List.mem_append.1 hc with hzero | hdigit
  · rw [List.eq_of_mem_replicate hzero]
    decide
  · obtain ⟨d, hd, rfl⟩ := exists_digitChar_of_mem_toDigits (by decide) hdigit
    have hall : ∀ e < 16, Nat.digitChar e ∈ "0123456789abcdef".toList := by decide
    exact hall d hd

/-! ## Decimal numbers -/

@[simp] theorem toList_decimal (n : Nat) : (decimal n).toList = Nat.toDigits 10 n :=
  String.toList_ofList

theorem toList_decimalInt_negSucc (n : Nat) :
    (decimalInt (.negSucc n)).toList = '-' :: (decimal (n + 1)).toList := by
  rw [decimalInt, String.toList_append]
  rfl

theorem isDigit_of_mem_decimal {n : Nat} {c : Char} (hc : c ∈ (decimal n).toList) :
    c.isDigit = true := by
  rw [toList_decimal] at hc
  exact Nat.isDigit_of_mem_toDigits (by decide) (by decide) hc

theorem digitsValue?_decimal (n : Nat) : digitsValue? 10 (decimal n).toList = some n := by
  rw [toList_decimal, digitsValue?_toDigits (by decide) (by decide)]

theorem decimal_injective {m n : Nat} (h : decimal m = decimal n) : m = n := by
  have hm := digitsValue?_decimal m
  rw [h, digitsValue?_decimal] at hm
  exact (Option.some.inj hm).symm

end Text

namespace Literal

/-! ## Signed numbers -/

/-- A number that ends in a digit is decimal. -/
theorem magnitude?_decimal (n : Nat) : magnitude? (Text.decimal n).toList = some n := by
  have hbase : splitBase (Text.decimal n).toList = ((Text.decimal n).toList, 10) := by
    unfold splitBase
    split
    next hlast =>
      exact absurd (Text.isDigit_of_mem_decimal (List.mem_of_getLast? hlast)) (by decide)
    next hlast =>
      exact absurd (Text.isDigit_of_mem_decimal (List.mem_of_getLast? hlast)) (by decide)
    next => rfl
  rw [magnitude?, hbase, Text.digitsValue?_decimal]

/-- A number that starts with a digit has no sign. -/
theorem splitSign_decimal (n : Nat) :
    splitSign (Text.decimal n).toList = (false, (Text.decimal n).toList) := by
  unfold splitSign
  split
  next heq =>
    have hmem : '-' ∈ (Text.decimal n).toList := by rw [heq]; exact List.mem_cons_self
    exact absurd (Text.isDigit_of_mem_decimal hmem) (by decide)
  next heq =>
    have hmem : '+' ∈ (Text.decimal n).toList := by rw [heq]; exact List.mem_cons_self
    exact absurd (Text.isDigit_of_mem_decimal hmem) (by decide)
  next => rfl

/-- A written integer reads back. -/
theorem value?_decimalInt (n : Int) : value? (Text.decimalInt n).toList = some n := by
  cases n with
  | ofNat n =>
      rw [Text.decimalInt, value?, splitSign_decimal, magnitude?_decimal]
      rfl
  | negSucc n =>
      rw [Text.toList_decimalInt_negSucc, value?, splitSign, magnitude?_decimal]
      rfl

end Literal

theorem parseImmediate?_decimalInt (value : Int64) :
    parseImmediate? (Text.decimalInt value.toInt) = some value := by
  rw [parseImmediate?_eq, Literal.value?_decimalInt, Option.map_some, Int64.ofInt_toInt]

/-! ## Registers -/

theorem toList_registerText (mark : Char) (index : Word) :
    (registerText mark index).toList = mark :: (Text.decimal index.toNat).toList := by
  rw [registerText, String.toList_append, Char.toString, String.toList_singleton]
  rfl

/-- A written register reads back. -/
theorem registerNumber?_registerText (mark : Char) (index : Word) :
    registerNumber? mark (registerText mark index) = some index.toNat := by
  rw [registerNumber?, toList_registerText]
  simp only [if_true, Text.digitsValue?_decimal]

end Asm32
