import Mathlib.Data.List.TakeWhile
import PropertyPath.Proofs.Text.Run
import PropertyPath.Text.Integer

/-!
# Integers as they are written

The digits of an integer have no superfluous zero in front. Such a literal is split off exactly
when no digit follows it, and every integer has one: its decimal digits behind its sign. It has no
other literal, except that zero may have a sign as well.
-/

namespace PropertyPath.Text

/-- The texts `0` and `[1-9][0-9]*`. -/
def IsMagnitude : List Char → Prop
  | [] => False
  | c :: rest => c = '0' ∧ rest = [] ∨ ('1' ≤ c ∧ c ≤ '9') ∧ ∀ d ∈ rest, d.isDigit = true

instance : DecidablePred IsMagnitude
  | [] => isFalse id
  | c :: rest =>
    letI : Decidable (∀ d ∈ rest, d.isDigit = true) := List.decidableBAll _ rest
    inferInstanceAs (Decidable
      (c = '0' ∧ rest = [] ∨ ('1' ≤ c ∧ c ≤ '9') ∧ ∀ d ∈ rest, d.isDigit = true))

theorem ne_nil_of_isMagnitude {digits : List Char} (h : IsMagnitude digits) : digits ≠ [] := by
  rintro rfl
  exact h

section Splitting

variable {digits rest : List Char}

theorem isDigit_of_one_le {c : Char} (h : '1' ≤ c ∧ c ≤ '9') : c.isDigit = true := by
  rw [Char.isDigit_iff_toNat]
  have lo : ('1' : Char).toNat ≤ c.toNat := h.1
  have hi : c.toNat ≤ ('9' : Char).toNat := h.2
  have zero : ('0' : Char).toNat = 48 := rfl
  have one : ('1' : Char).toNat = 49 := rfl
  omega

theorem one_le_of_isDigit {c : Char} (h : c.isDigit = true) (ne : c ≠ '0') :
    '1' ≤ c ∧ c ≤ '9' := by
  rw [Char.isDigit_iff_toNat] at h
  have zero : ('0' : Char).toNat = 48 := rfl
  have one : ('1' : Char).toNat = 49 := rfl
  have neNat : c.toNat ≠ ('0' : Char).toNat := fun eq ↦ ne (Char.toNat_inj.mp eq)
  exact ⟨show ('1' : Char).toNat ≤ c.toNat by omega, h.2⟩

theorem isDigit_of_mem_magnitude (h : IsMagnitude digits) : ∀ d ∈ digits, d.isDigit = true := by
  cases digits with
  | nil => exact h.elim
  | cons c more =>
    rcases h with ⟨rfl, rfl⟩ | ⟨hc, hmore⟩
    · simp
    · exact List.forall_mem_cons.mpr ⟨isDigit_of_one_le hc, hmore⟩

theorem splitDigits_append_of_isMagnitude (h : IsMagnitude digits)
    (boundary : ∀ c ∈ rest.head?, c.isDigit = false) :
    splitDigits (digits ++ rest) = (digits, rest) := by
  cases digits with
  | nil => exact h.elim
  | cons c more =>
    rcases h with ⟨rfl, rfl⟩ | ⟨hc, hmore⟩
    · rfl
    · have ne : c ≠ '0' := by
        rintro rfl
        exact absurd hc.1 (by decide)
      rw [List.cons_append, splitDigits, if_neg ne, if_pos (isDigit_of_one_le hc),
        takeWhile_run hmore boundary, dropWhile_run hmore boundary]

/-- Digits are split off without superfluous zeros, if there are any. -/
theorem isMagnitude_splitDigits (text : List Char) (ne : (splitDigits text).1 ≠ []) :
    IsMagnitude (splitDigits text).1 := by
  revert ne
  fun_cases splitDigits text with
  | case1 => exact fun ne ↦ absurd rfl ne
  | case2 => exact fun _ ↦ Or.inl ⟨rfl, rfl⟩
  | case3 c rest hc hdigit =>
    exact fun _ ↦ Or.inr ⟨one_le_of_isDigit hdigit hc, fun d hd ↦ List.mem_takeWhile_imp hd⟩
  | case4 => exact fun ne ↦ absurd rfl ne

/-- A literal is split off a text that goes on with something else than a digit. -/
theorem splitInteger_append_of_isMagnitude {literal : IntegerLiteral}
    (h : IsMagnitude literal.digits) (boundary : ∀ c ∈ rest.head?, c.isDigit = false) :
    splitInteger (literal.chars ++ rest) = (literal, rest) := by
  obtain ⟨negative, digits⟩ := literal
  have split : splitDigits (digits ++ rest) = (digits, rest) :=
    splitDigits_append_of_isMagnitude h boundary
  cases negative with
  | true => simp [IntegerLiteral.chars, splitInteger, split]
  | false =>
    have noSign : ∀ more, digits ++ rest ≠ '-' :: more := by
      intro more eq
      obtain ⟨c, digits, rfl⟩ : ∃ c more, digits = c :: more :=
        List.exists_cons_of_ne_nil (ne_nil_of_isMagnitude h)
      have digit : c.isDigit = true := isDigit_of_mem_magnitude h c List.mem_cons_self
      rw [(List.cons.inj eq).1] at digit
      exact absurd digit (by decide)
    have chars : IntegerLiteral.chars ⟨false, digits⟩ = digits := rfl
    rw [chars, splitInteger.eq_2 _ noSign, split]

theorem chars_ne_nil_of_isMagnitude {literal : IntegerLiteral} (h : IsMagnitude literal.digits) :
    literal.chars ≠ [] :=
  List.append_ne_nil_of_right_ne_nil _ (ne_nil_of_isMagnitude h)

theorem chars_inj_of_isMagnitude {literal literal' : IntegerLiteral}
    (h : IsMagnitude literal.digits) (h' : IsMagnitude literal'.digits)
    (eq : literal.chars = literal'.chars) : literal = literal' := by
  have noMore : ∀ c ∈ ([] : List Char).head?, c.isDigit = false := by simp
  have split := splitInteger_append_of_isMagnitude h noMore
  rw [eq, splitInteger_append_of_isMagnitude h' noMore] at split
  exact (Prod.mk.inj split).1.symm

theorem not_mem_chars_of_isMagnitude {literal : IntegerLiteral} {c : Char}
    (h : IsMagnitude literal.digits) (digit : c.isDigit = false) (sign : c ≠ '-') :
    c ∉ literal.chars := by
  intro mem
  rcases List.mem_append.mp mem with mem | mem
  · split at mem
    · exact sign (List.mem_singleton.mp mem)
    · cases mem
  · rw [isDigit_of_mem_magnitude h c mem] at digit
    cases digit

theorem isMagnitude_splitInteger (text : List Char) (ne : (splitInteger text).1.digits ≠ []) :
    IsMagnitude (splitInteger text).1.digits := by
  revert ne
  fun_cases splitInteger text with
  | case1 rest => exact isMagnitude_splitDigits rest
  | case2 => exact isMagnitude_splitDigits text

/-! ## What follows a literal

A literal goes as far as its digits do, unless they are a zero, which nothing continues. A literal
without digits is at most a sign, and what follows it neither is a digit nor, where no sign was
read, a sign. -/

theorem splitDigits_eq_nil_iff {text : List Char} :
    (splitDigits text).1 = [] ↔ ∀ c ∈ text.head?, c.isDigit = false := by
  fun_cases splitDigits text with
  | case1 => simp
  | case2 => simp
  | case3 c rest hc hdigit => simp [hdigit]
  | case4 c rest hc hdigit => simpa using hdigit

theorem snd_splitDigits_of_eq_nil {text : List Char} (h : (splitDigits text).1 = []) :
    (splitDigits text).2 = text := by
  have append := splitDigits_append text
  rwa [h, List.nil_append] at append

theorem boundary_splitDigits (text : List Char) :
    (splitDigits text).1 = ['0'] ∨ ∀ c ∈ (splitDigits text).2.head?, c.isDigit = false := by
  fun_cases splitDigits text with
  | case1 => simp
  | case2 => simp
  | case3 c rest hc hdigit => exact Or.inr (boundary_dropWhile Char.isDigit rest)
  | case4 c rest hc hdigit => exact Or.inr (by simpa using hdigit)

theorem boundary_splitInteger (text : List Char) :
    (splitInteger text).1.digits = ['0'] ∨
      ∀ c ∈ (splitInteger text).2.head?, c.isDigit = false := by
  fun_cases splitInteger text with
  | case1 rest => exact boundary_splitDigits rest
  | case2 => exact boundary_splitDigits text

theorem splitInteger_append_of_zero {literal : IntegerLiteral} (h : literal.digits = ['0'])
    (rest : List Char) : splitInteger (literal.chars ++ rest) = (literal, rest) := by
  obtain ⟨negative, digits⟩ := literal
  subst h
  cases negative <;> rfl

/-- The characters that may follow where no digits were read, and a sign only if `negative`. -/
def EndsSign (negative : Bool) (next : Option Char) : Prop :=
  (∀ c ∈ next, c.isDigit = false) ∧ (negative = false → next ≠ some '-')

theorem endsSign_splitInteger {text : List Char} (digits : (splitInteger text).1.digits = []) :
    EndsSign (splitInteger text).1.negative (splitInteger text).2.head? := by
  revert digits
  fun_cases splitInteger text with
  | case1 rest =>
    intro digits
    rw [snd_splitDigits_of_eq_nil digits]
    refine ⟨splitDigits_eq_nil_iff.mp digits, fun unsigned ↦ ?_⟩
    cases unsigned
  | case2 text noSign =>
    intro digits
    rw [snd_splitDigits_of_eq_nil digits]
    refine ⟨splitDigits_eq_nil_iff.mp digits, fun _ sign ↦ ?_⟩
    obtain ⟨more, rfl⟩ := List.head?_eq_some_iff.mp sign
    exact noSign more rfl

theorem splitInteger_append_of_endsSign {negative : Bool} (h : EndsSign negative rest.head?) :
    splitInteger (IntegerLiteral.chars ⟨negative, []⟩ ++ rest) = (⟨negative, []⟩, rest) := by
  have digits : (splitDigits rest).1 = [] := splitDigits_eq_nil_iff.mpr h.1
  have behind : (splitDigits rest).2 = rest := snd_splitDigits_of_eq_nil digits
  rcases negative with _ | _
  · have noSign : ∀ more, rest ≠ '-' :: more := by
      rintro more rfl
      exact h.2 rfl rfl
    have unsigned : IntegerLiteral.chars ⟨false, []⟩ ++ rest = rest := rfl
    rw [unsigned, splitInteger.eq_2 _ noSign, digits, behind]
  · have signed : IntegerLiteral.chars ⟨true, []⟩ ++ rest = '-' :: rest := rfl
    rw [signed, splitInteger, digits, behind]

end Splitting

/-! ## Decimal literals -/

theorem isMagnitude_toDigits (n : Nat) : IsMagnitude (Nat.toDigits 10 n) := by
  induction n using Nat.strong_induction_on with
  | _ n ih =>
    by_cases small : n < 10
    · rw [Nat.toDigits_of_lt_base small]
      have digit : n.digitChar.isDigit = true := by rwa [Nat.isDigit_digitChar, decide_eq_true_iff]
      by_cases zero : n.digitChar = '0'
      · exact Or.inl ⟨zero, rfl⟩
      · exact Or.inr ⟨one_le_of_isDigit digit zero, by simp⟩
    · rw [Nat.toDigits_of_base_le (by decide) (by omega)]
      have front := ih (n / 10) (by omega)
      have value : Nat.ofDigitChars 10 (Nat.toDigits 10 (n / 10)) 0 = n / 10 :=
        Nat.ofDigitChars_ten_toDigits
      have digit : (n % 10).digitChar.isDigit = true := by
        rw [Nat.isDigit_digitChar, decide_eq_true_iff]
        omega
      revert front value
      cases Nat.toDigits 10 (n / 10) with
      | nil => exact fun front _ ↦ front.elim
      | cons c rest =>
        rintro (⟨rfl, rfl⟩ | ⟨hc, hrest⟩) value
        · -- a front of `0` would make the number less than ten
          have zero : n / 10 = 0 := value.symm
          omega
        · refine Or.inr ⟨hc, fun d hd ↦ ?_⟩
          rcases List.mem_append.mp hd with hd | hd
          · exact hrest d hd
          · rwa [List.mem_singleton.mp hd]

theorem digitChar_toNat_sub {c : Char} (h : c.isDigit = true) :
    (c.toNat - '0'.toNat).digitChar = c := by
  obtain ⟨lo, hi⟩ := Char.isDigit_iff_toNat.mp h
  have zero : '0'.toNat = 48 := rfl
  have nine : '9'.toNat = 57 := rfl
  rw [← Char.toNat_inj, Nat.toNat_digitChar_of_lt_ten (by omega)]
  omega

/-- Reading digits behind a number that is not zero appends them to its decimal digits. -/
theorem toDigits_ofDigitChars_of_pos {digits : List Char} {value : Nat}
    (h : ∀ d ∈ digits, d.isDigit = true) (pos : 0 < value) :
    Nat.toDigits 10 (Nat.ofDigitChars 10 digits value) = Nat.toDigits 10 value ++ digits := by
  induction digits generalizing value with
  | nil => rw [List.append_nil]; rfl
  | cons d rest ih =>
    rw [List.forall_mem_cons] at h
    have small : d.toNat - '0'.toNat < 10 := by
      have hi := (Char.isDigit_iff_toNat.mp h.1).2
      have zero : '0'.toNat = 48 := rfl
      have nine : '9'.toNat = 57 := rfl
      omega
    rw [Nat.ofDigitChars_cons, ih h.2 (by omega),
      ← Nat.toDigits_append_toDigits (by decide) pos small, Nat.toDigits_of_lt_base small,
      digitChar_toNat_sub h.1, List.append_assoc, List.singleton_append]

/-- Digits without a superfluous zero are the decimal digits of their value. -/
theorem toDigits_ofDigitChars {digits : List Char} (h : IsMagnitude digits) :
    Nat.toDigits 10 (Nat.ofDigitChars 10 digits 0) = digits := by
  rcases digits with _ | ⟨c, rest⟩
  · exact h.elim
  · rcases h with ⟨rfl, rfl⟩ | ⟨⟨lo, hi⟩, hrest⟩
    · rfl
    · have lo' : ('1' : Char).toNat ≤ c.toNat := lo
      have hi' : c.toNat ≤ ('9' : Char).toNat := hi
      have zero : '0'.toNat = 48 := rfl
      have one : '1'.toNat = 49 := rfl
      have nine : '9'.toNat = 57 := rfl
      rw [Nat.ofDigitChars_cons, toDigits_ofDigitChars_of_pos hrest (by omega),
        Nat.mul_zero, Nat.zero_add, Nat.toDigits_of_lt_base (by omega),
        digitChar_toNat_sub (isDigit_of_one_le ⟨lo, hi⟩), List.singleton_append]

/-- The literal of an integer: the decimal digits of its magnitude, behind a sign if it is
negative. -/
def IntegerLiteral.ofInt (value : Int) : IntegerLiteral :=
  ⟨decide (value < 0), Nat.toDigits 10 value.natAbs⟩

namespace IntegerLiteral

theorem value_ofInt (value : Int) : (ofInt value).value = value := by
  rw [ofInt, IntegerLiteral.value, Nat.ofDigitChars_ten_toDigits]
  by_cases negative : value < 0
  · rw [if_pos (by simpa using negative)]
    omega
  · rw [if_neg (by simpa using negative)]
    omega

/-- The zero that is written with a sign, which is the one literal too many for its value. -/
def negativeZero : IntegerLiteral := ⟨true, ['0']⟩

theorem ofInt_value_negativeZero : ofInt negativeZero.value = ⟨false, ['0']⟩ := rfl

/-- Every literal but one is the literal of its value. -/
theorem ofInt_value {literal : IntegerLiteral} (h : IsMagnitude literal.digits)
    (ne : literal ≠ negativeZero) : ofInt literal.value = literal := by
  obtain ⟨negative, digits⟩ := literal
  have digits_eq := toDigits_ofDigitChars h
  rcases negative with _ | _
  · have notNegative : ¬(Nat.ofDigitChars 10 digits 0 : Int) < 0 := by omega
    simpa [ofInt, IntegerLiteral.value, notNegative] using digits_eq
  · have positive : 0 < Nat.ofDigitChars 10 digits 0 := by
      refine Nat.pos_of_ne_zero fun zero ↦ ne ?_
      rw [zero, Nat.toDigits_zero] at digits_eq
      rw [negativeZero, digits_eq]
    simpa [ofInt, IntegerLiteral.value, positive] using digits_eq

theorem chars_ofInt (value : Int) : (ofInt value).chars = (toString value).toList := by
  cases value with
  | ofNat n => simp [ofInt, chars, Int.toString_eq_repr, Int.repr]
  | negSucc n => simp [ofInt, chars, Int.toString_eq_repr, Int.repr, Int.negSucc_lt_zero]

end IntegerLiteral

end PropertyPath.Text
