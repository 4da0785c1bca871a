import ScriptContainer.Json.Token
import ScriptContainer.Number.Reading
import Mathlib.Data.List.Basic
import Mathlib.Data.List.TakeDrop

/-!
# Numerals that are read back

A numeral whose digits are as the grammar wants them is found again in a text, up to the first character
that cannot belong to it. The numerals of integers are such numerals, and have the integers as values.
-/

namespace ScriptContainer

namespace Number.Numeral

/-- At least one digit, and nothing but digits. -/
structure IsRun (digits : List Char) : Prop where
  ne_nil : digits ≠ []
  isDigit : ∀ c ∈ digits, isDigit c = true

/-- The power of ten is one of the grammar. -/
structure IsPower (p : Power) : Prop where
  mark : p.mark = 'e' ∨ p.mark = 'E'
  sign : p.sign = none ∨ p.sign = some '+' ∨ p.sign = some '-'
  digits : IsRun p.digits

/-- The numeral is one of the grammar: its first digit is zero only if there is no other one before the
point. -/
structure IsWritten (n : Numeral) : Prop where
  whole : IsRun n.whole
  leading : n.whole.head? = some '0' → n.whole = ['0']
  fraction : ∀ c ∈ n.fraction, isDigit c = true
  power : ∀ p ∈ n.power, IsPower p

/-- The character goes on with a numeral. -/
def Continues (c : Char) : Prop := isDigit c = true ∨ c = '.' ∨ c = 'e' ∨ c = 'E'

instance (c : Char) : Decidable (Continues c) := inferInstanceAs (Decidable (_ ∨ _))

/-- The text does not go on with a numeral before it. -/
def Ends (rest : List Char) : Prop := ∀ c ∈ rest.head?, ¬ Continues c

lemma Ends.not_isDigit {rest : List Char} (h : Ends rest) : ∀ c ∈ rest.head?, isDigit c = false :=
  fun c hc => Bool.eq_false_iff.mpr fun hdigit => h c hc (.inl hdigit)

section Digits

variable {n : Nat}

lemma isRun_toDigits (n : Nat) : IsRun (Nat.toDigits 10 n) :=
  ⟨Nat.toDigits_ne_nil, fun _ hc => Nat.isDigit_of_mem_toDigits (by decide) (by decide) hc⟩

lemma digitsValue_toDigits (n : Nat) : digitsValue (Nat.toDigits 10 n) = n :=
  Nat.ofDigitChars_ten_toDigits

lemma head?_toDigits_ne (hn : 0 < n) : (Nat.toDigits 10 n).head? ≠ some '0' := by
  induction n using Nat.strongRecOn with
  | _ n ih =>
    by_cases hlt : n < 10
    · have hdigit : ∀ n < 10, 0 < n → [n.digitChar].head? ≠ some '0' := by decide
      rw [Nat.toDigits_of_lt_base hlt]
      exact hdigit n hlt hn
    · rw [Nat.toDigits_of_base_le (by decide) (by omega),
        List.head?_append_of_ne_nil _ Nat.toDigits_ne_nil]
      exact ih (n / 10) (by omega) (by omega)

lemma leading_toDigits (h : (Nat.toDigits 10 n).head? = some '0') : Nat.toDigits 10 n = ['0'] := by
  rcases Nat.eq_zero_or_pos n with rfl | hn
  · rfl
  · exact absurd h (head?_toDigits_ne hn)

end Digits

lemma isWritten_ofInt (n : Int) : (ofInt n).IsWritten :=
  ⟨isRun_toDigits _, leading_toDigits, List.forall_mem_nil _, fun _ h => nomatch h⟩

lemma isWritten_ofNat (n : Nat) : (ofNat n).IsWritten :=
  ⟨isRun_toDigits _, leading_toDigits, List.forall_mem_nil _, fun _ h => nomatch h⟩

lemma toInt?_ofNat (n : Nat) : (ofNat n).toInt? = some n := by
  rw [toInt?, ofNat]
  dsimp only
  rw [digitsValue_toDigits]
  rfl

lemma toInt?_ofInt (n : Int) : (ofInt n).toInt? = some n := by
  rw [toInt?, ofInt]
  dsimp only
  rw [digitsValue_toDigits, List.isEmpty_nil, Option.isNone_none, Bool.and_self, if_pos rfl]
  by_cases hn : n < 0
  · have hne : n.natAbs ≠ 0 := by omega
    have hvalue : -(n.natAbs : Int) = n := by omega
    rw [if_pos (decide_eq_true hn), if_neg hne, hvalue]
  · have hvalue : (n.natAbs : Int) = n := by omega
    rw [decide_eq_false hn, if_neg Bool.false_ne_true, hvalue]

lemma inRange_ofNat {n : Nat} (h : n < UInt64.size) : (ofNat n).inRange = true := by
  have hsmall : (ofNat n).smallInteger? = some n := by
    rw [smallInteger?, ofNat]
    dsimp only
    rw [digitsValue_toDigits]
    exact if_pos h
  rw [inRange, hsmall]
  rfl

end Number.Numeral

namespace Json

open Number Numeral

variable {digits rest : List Char}

lemma scanDigits_append (hdigits : ∀ c ∈ digits, isDigit c = true)
    (hrest : ∀ c ∈ rest.head?, isDigit c = false) : scanDigits (digits ++ rest) = (digits, rest) := by
  rw [scanDigits, List.span_eq_takeWhile_dropWhile, List.takeWhile_append_of_pos hdigits,
    List.dropWhile_append_of_pos hdigits]
  cases rest with
  | nil => rw [List.takeWhile_nil, List.dropWhile_nil, List.append_nil]
  | cons c rest =>
    have hc : ¬ isDigit c = true := by
      rw [hrest c rfl]
      exact Bool.false_ne_true
    rw [List.takeWhile_cons_of_neg hc, List.dropWhile_cons_of_neg hc, List.append_nil]

lemma scanWhole_append (hrun : IsRun digits) (hleading : digits.head? = some '0' → digits = ['0'])
    (hrest : ∀ c ∈ rest.head?, isDigit c = false) :
    scanWhole (digits ++ rest) = some (digits, rest) := by
  rw [scanWhole, scanDigits_append hrun.isDigit hrest]
  split
  case h_1 heq => exact absurd (Prod.mk.inj heq).1 hrun.ne_nil
  case h_2 heq =>
    obtain ⟨rfl, -⟩ := Prod.mk.inj heq
    cases hleading rfl
  case h_3 => rfl

lemma scanFraction_append (hdigits : ∀ c ∈ digits, isDigit c = true)
    (hrest : ∀ c ∈ rest.head?, isDigit c = false ∧ c ≠ '.') :
    scanFraction (fractionText digits ++ rest) = some (digits, rest) := by
  cases digits with
  | nil =>
    rw [fractionText, List.nil_append, scanFraction]
    rintro text rfl
    exact (hrest '.' rfl).2 rfl
  | cons c digits =>
    have hrun := scanDigits_append hdigits fun c hc => (hrest c hc).1
    rw [fractionText, List.cons_append, scanFraction, hrun]
    rintro ⟨⟩

lemma scanSign_append {sign : Option Char} (hsign : sign = none ∨ sign = some '+' ∨ sign = some '-')
    (hrun : IsRun digits) : scanSign (sign.toList ++ digits ++ rest) = (sign, digits ++ rest) := by
  rcases hsign with rfl | rfl | rfl
  · obtain ⟨c, digits, rfl⟩ := List.exists_cons_of_ne_nil hrun.ne_nil
    have hc : isDigit c = true := hrun.isDigit c List.mem_cons_self
    change scanSign (c :: (digits ++ rest)) = _
    rw [scanSign]
    · rfl
    · rintro _ ⟨⟩
      exact absurd hc (by decide)
    · rintro _ ⟨⟩
      exact absurd hc (by decide)
  · rfl
  · rfl

lemma scanPowerAfter_append {p : Power} (hp : IsPower p) (hrest : ∀ c ∈ rest.head?, isDigit c = false) :
    scanPowerAfter p.mark (p.sign.toList ++ p.digits ++ rest) = some (some p, rest) := by
  rw [scanPowerAfter, scanSign_append hp.sign hp.digits]
  dsimp only
  rw [scanDigits_append hp.digits.isDigit hrest]
  split
  case h_1 heq => exact absurd (Prod.mk.inj heq).1 hp.digits.ne_nil
  case h_2 heq =>
    obtain ⟨rfl, rfl⟩ := Prod.mk.inj heq
    rfl

lemma scanPower_append {power : Option Power} (hpower : ∀ p ∈ power, IsPower p) (hends : Ends rest) :
    scanPower (powerText power ++ rest) = some (power, rest) := by
  cases power with
  | none =>
    rw [powerText, List.nil_append, scanPower]
    · rintro text rfl
      exact hends 'e' rfl (.inr (.inr (.inl rfl)))
    · rintro text rfl
      exact hends 'E' rfl (.inr (.inr (.inr rfl)))
  | some p =>
    have hafter := scanPowerAfter_append (hpower p rfl) hends.not_isDigit
    rw [powerText, List.cons_append, List.cons_append]
    rcases (hpower p rfl).mark with hmark | hmark
    · rw [hmark] at hafter ⊢
      exact hafter
    · rw [hmark] at hafter ⊢
      exact hafter

/-- A numeral of the grammar is found again at the front of a text. -/
theorem scanNumeral_text {n : Numeral} (h : n.IsWritten) (hends : Ends rest) :
    scanNumeral (n.text ++ rest) = some (n, rest) := by
  obtain ⟨negative, whole, fraction, power⟩ := n
  have hafterPoint : ∀ c ∈ (powerText power ++ rest).head?, isDigit c = false ∧ c ≠ '.' := by
    cases power with
    | none => exact fun c hc => ⟨hends.not_isDigit c hc, fun he => hends c hc (.inr (.inl he))⟩
    | some p =>
      rintro c hc
      obtain rfl : p.mark = c := Option.some.inj hc
      rcases (h.power p rfl).mark with hmark | hmark <;> rw [hmark] <;> decide
  have hafterWhole : ∀ c ∈ (fractionText fraction ++ (powerText power ++ rest)).head?,
      isDigit c = false := by
    cases fraction with
    | nil => exact fun c hc => (hafterPoint c hc).1
    | cons digit digits =>
      rintro _ ⟨⟩
      rfl
  have hunsigned (negative : Bool) :
      scanUnsigned negative (whole ++ (fractionText fraction ++ (powerText power ++ rest))) =
        some (⟨negative, whole, fraction, power⟩, rest) := by
    rw [scanUnsigned, scanWhole_append h.whole h.leading hafterWhole]
    change Option.bind (scanFraction _) _ = _
    rw [scanFraction_append h.fraction hafterPoint]
    change Option.bind (scanPower _) _ = _
    rw [scanPower_append h.power hends]
    rfl
  have htext : (Numeral.mk negative whole fraction power).text ++ rest =
      (if negative then ['-'] else []) ++
        (whole ++ (fractionText fraction ++ (powerText power ++ rest))) := by
    simp [text]
  rw [htext]
  cases negative with
  | true => exact hunsigned true
  | false =>
    obtain ⟨c, digits, hwhole⟩ := List.exists_cons_of_ne_nil h.whole.ne_nil
    have hc : isDigit c = true := h.whole.isDigit c (hwhole ▸ List.mem_cons_self)
    rw [← hunsigned false]
    dsimp only at hwhole
    rw [hwhole]
    change scanNumeral (c :: _) = scanUnsigned false (c :: _)
    rw [scanNumeral]
    rintro _ ⟨⟩
    exact absurd hc (by decide)

end Json

end ScriptContainer
