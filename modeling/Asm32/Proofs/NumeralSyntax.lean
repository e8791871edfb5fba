import Asm32.Text.Numeral
import Mathlib.Data.List.Forall2
import Mathlib.Data.Nat.Digits.Defs
import Mathlib.Tactic.Ring

/-!
# What a numeral is

`IsNumeral` says what the digits of a number are without reading them: each
character is a digit of the base, and the number is the one with these digits.
`digitsValue?_eq_some_iff` ties it to `digitsValue?`, for bases up to 16.
-/

namespace Asm32.Text

/-- The character is the digit of a base with a given value, in either case. -/
def IsDigit (base : Nat) (c : Char) (digit : Nat) : Prop :=
  digit < base ∧ (c = Nat.digitChar digit ∨ c = (Nat.digitChar digit).toUpper)

/-- The text is one or more digits of a base, the highest first, and they are the
digits of the number. -/
def IsNumeral (base : Nat) (text : List Char) (n : Nat) : Prop :=
  text ≠ [] ∧
    ∃ digits, List.Forall₂ (IsDigit base) text digits ∧ Nat.ofDigits base digits.reverse = n

theorem digitValue?_eq_some_iff {c : Char} {digit : Nat} (hdigit : digit < 16) :
    digitValue? c = some digit ↔
      c = Nat.digitChar digit ∨ c = (Nat.digitChar digit).toUpper := by
  constructor
  · have hcode : ∀ e < 10, (Nat.digitChar e).toNat = e + 48 := by decide
    have hlower : ∀ e < 16, 10 ≤ e → (Nat.digitChar e).toNat = e + 87 := by decide
    have hupper : ∀ e < 16, 10 ≤ e → (Nat.digitChar e).toUpper.toNat = e + 55 := by decide
    intro h
    unfold digitValue? at h
    simp only [Char.le_def, UInt32.le_iff_toNat_le, Char.toNat_val, Char.reduceToNat] at h
    split_ifs at h with hrange hrange hrange <;> rw [Option.some.injEq] at h
    · left
      rw [← Char.toNat_inj, hcode digit (by omega)]
      omega
    · left
      rw [← Char.toNat_inj, hlower digit hdigit (by omega)]
      omega
    · right
      rw [← Char.toNat_inj, hupper digit hdigit (by omega)]
      omega
  · have hlower : ∀ e < 16, digitValue? (Nat.digitChar e) = some e := by decide
    have hupper : ∀ e < 16, digitValue? (Nat.digitChar e).toUpper = some e := by decide
    rintro (rfl | rfl)
    · exact hlower digit hdigit
    · exact hupper digit hdigit

variable {base : Nat}

theorem digitOf?_eq_some_iff (hbase : base ≤ 16) {c : Char} {digit : Nat} :
    digitOf? base c = some digit ↔ IsDigit base c digit := by
  rw [digitOf?, Option.filter_eq_some_iff, IsDigit, decide_eq_true_eq, and_comm]
  constructor
  · rintro ⟨hlt, hvalue⟩
    exact ⟨hlt, (digitValue?_eq_some_iff (by omega)).1 hvalue⟩
  · rintro ⟨hlt, hchar⟩
    exact ⟨hlt, (digitValue?_eq_some_iff (by omega)).2 hchar⟩

theorem ofDigits_reverse_cons (base digit : Nat) (digits : List Nat) :
    Nat.ofDigits base (digit :: digits).reverse =
      digit * base ^ digits.length + Nat.ofDigits base digits.reverse := by
  rw [List.reverse_cons, Nat.ofDigits_append, Nat.ofDigits_singleton, List.length_reverse,
    Nat.add_comm, Nat.mul_comm]

/-- Reading digits behind a number shifts the number by as many places. -/
theorem digitsFrom?_eq_some_iff (hbase : base ≤ 16) {value n : Nat} {text : List Char} :
    digitsFrom? base value text = some n ↔
      ∃ digits, List.Forall₂ (IsDigit base) text digits ∧
        value * base ^ text.length + Nat.ofDigits base digits.reverse = n := by
  induction text generalizing value with
  | nil => simp [digitsFrom?]
  | cons c rest ih =>
      rw [digitsFrom?]
      constructor
      · intro h
        cases hdigit : digitOf? base c with
        | none => simp [hdigit] at h
        | some digit =>
            rw [hdigit] at h
            obtain ⟨digits, hdigits, rfl⟩ := ih.1 h
            refine ⟨digit :: digits, .cons ((digitOf?_eq_some_iff hbase).1 hdigit) hdigits, ?_⟩
            rw [ofDigits_reverse_cons, List.length_cons, hdigits.length_eq]
            ring
      · rintro ⟨_, hdigits, rfl⟩
        cases hdigits with
        | cons hdigit hdigits =>
            rw [(digitOf?_eq_some_iff hbase).2 hdigit]
            refine ih.2 ⟨_, hdigits, ?_⟩
            rw [ofDigits_reverse_cons, List.length_cons, hdigits.length_eq]
            ring

theorem digitsValue?_eq_some_iff (hbase : base ≤ 16) {text : List Char} {n : Nat} :
    digitsValue? base text = some n ↔ IsNumeral base text n := by
  cases text with
  | nil => simp [digitsValue?, IsNumeral]
  | cons c rest => simp [digitsValue?, IsNumeral, digitsFrom?_eq_some_iff hbase]

/-- The characters of a numeral are digits. -/
theorem IsNumeral.isDigit_of_mem {text : List Char} {n : Nat} (h : IsNumeral base text n) {c : Char}
    (hc : c ∈ text) : ∃ digit, IsDigit base c digit := by
  obtain ⟨_, digits, hdigits, _⟩ := h
  obtain ⟨k, hk, rfl⟩ := List.mem_iff_getElem.1 hc
  exact ⟨_, hdigits.get hk (hdigits.length_eq ▸ hk)⟩

/-- A digit is no character that is refused as one. -/
theorem IsDigit.ne {c other : Char} {digit : Nat} (h : IsDigit base c digit) (hbase : base ≤ 16)
    (hother : digitOf? base other = none) : c ≠ other := by
  rintro rfl
  rw [(digitOf?_eq_some_iff hbase).2 h] at hother
  cases hother

end Asm32.Text
