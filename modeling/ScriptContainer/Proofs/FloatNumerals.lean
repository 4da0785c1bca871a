import Mathlib.Algebra.Order.Group.Nat
import ScriptContainer.Number.FloatStyle
import ScriptContainer.Proofs.Numerals

/-!
# Numerals of floats

Ten decimal grids are always enough to find shortest digits: on the last one a step is less than a quarter
of the last binary digit of the float. So every finite float is written as a numeral of the grammar.
-/

namespace ScriptContainer.Number

namespace Ratio

variable {r : Ratio}

lemma scaled_eq (n exponent bias : Nat) :
    scaled n exponent bias = ⟨n * 2 ^ (exponent - bias), 2 ^ (bias - exponent)⟩ := by
  unfold scaled
  split
  case isTrue h =>
    rw [Nat.sub_eq_zero_of_le h, Nat.pow_zero]
    rfl
  case isFalse h =>
    rw [Nat.sub_eq_zero_of_le (Nat.le_of_not_le h), Nat.pow_zero, Nat.mul_one]
    rfl

lemma inUnits_eq (r : Ratio) (exponent : Int) : r.inUnits exponent =
    ⟨r.numerator * 10 ^ (-exponent).toNat, r.denominator * 10 ^ exponent.toNat⟩ := by
  unfold inUnits
  split
  case isTrue h =>
    rw [Int.toNat_of_nonpos (by omega : -exponent ≤ 0), Nat.pow_zero, Nat.mul_one]
    rfl
  case isFalse h =>
    rw [Int.toNat_of_nonpos (by omega : exponent ≤ 0), Nat.pow_zero, Nat.mul_one]
    rfl

lemma lt_tenTo_digitCount (n : Nat) : n < 10 ^ digitCount n :=
  (Nat.length_toDigits_le_iff (by decide) Nat.length_toDigits_pos).mp le_rfl

lemma tenTo_le_of_digitCount {n : Nat} (hn : 0 < n) : 10 ^ (digitCount n - 1) ≤ n := by
  rcases Nat.eq_zero_or_pos (digitCount n - 1) with hone | hpos
  · rw [hone]
    exact hn
  · by_contra hlt
    have hle := (Nat.length_toDigits_le_iff (b := 10) (by decide) hpos).mpr (Nat.lt_of_not_le hlt)
    change digitCount n ≤ digitCount n - 1 at hle
    omega

lemma le_inUnits_decimalExponent (hn : 0 < r.numerator) (hd : 0 < r.denominator) :
    (r.inUnits r.decimalExponent).denominator ≤ (r.inUnits r.decimalExponent).numerator := by
  rw [inUnits_eq]
  unfold decimalExponent
  dsimp only
  split
  case isTrue h =>
    have hquotient : 0 < r.numerator / r.denominator := Nat.div_pos h hd
    have hcount : 0 < digitCount (r.numerator / r.denominator) := Nat.length_toDigits_pos
    have hpower := tenTo_le_of_digitCount hquotient
    rw [show ((digitCount (r.numerator / r.denominator) : Int) - 1).toNat =
        digitCount (r.numerator / r.denominator) - 1 by omega,
      Int.toNat_of_nonpos (by omega), Nat.pow_zero, Nat.mul_one, Nat.mul_comm]
    exact (Nat.le_div_iff_mul_le hd).mp hpower
  case isFalse h =>
    have hcount : 0 < digitCount (r.denominator / r.numerator) := Nat.length_toDigits_pos
    split
    case isTrue heq =>
      rw [Int.toNat_of_nonpos (by omega), Nat.pow_zero, Nat.mul_one, show
        (-(1 - (digitCount (r.denominator / r.numerator) : Int))).toNat =
          digitCount (r.denominator / r.numerator) - 1 by omega]
      exact heq.le
    case isFalse =>
      have hpower := lt_tenTo_digitCount (r.denominator / r.numerator)
      rw [Int.toNat_of_nonpos (by omega), Nat.pow_zero, Nat.mul_one, Int.neg_neg, Int.toNat_natCast]
      rw [Nat.div_lt_iff_lt_mul hn, Nat.mul_comm] at hpower
      exact hpower.le

end Ratio

namespace Basin

variable {b : Basin} {tie : Tie} {exponent : Int} {n count : Nat}

/-- A quarter of the last binary digit, counted in units of ten to the power `exponent`. -/
def quarter (b : Basin) (exponent : Int) : Ratio :=
  ⟨2 ^ (b.scale - 152) * 10 ^ (-exponent).toNat, 2 ^ (152 - b.scale) * 10 ^ exponent.toNat⟩

lemma numerator_pos (b : Basin) (exponent : Int) : 0 < (b.quarter exponent).numerator :=
  Nat.mul_pos (Nat.pow_pos (by decide)) (Nat.pow_pos (by decide))

lemma denominator_pos (b : Basin) (exponent : Int) : 0 < (b.quarter exponent).denominator :=
  Nat.mul_pos (Nat.pow_pos (by decide)) (Nat.pow_pos (by decide))

lemma inUnits_ratio (b : Basin) (n : Nat) (exponent : Int) : (b.ratio n).inUnits exponent =
    ⟨n * (b.quarter exponent).numerator, (b.quarter exponent).denominator⟩ := by
  rw [ratio, Ratio.scaled_eq, Ratio.inUnits_eq, quarter, Nat.mul_assoc]

lemma holds_of_nearest? (h : b.nearest? tie exponent = some n) : b.holds exponent n = true := by
  unfold nearest? at h
  dsimp only at h
  split at h
  case h_1 => cases h
  case h_2 hbelow _ =>
    obtain rfl := Option.some.inj h
    exact hbelow
  case h_3 habove =>
    obtain rfl := Option.some.inj h
    exact habove
  case h_4 hbelow habove =>
    split_ifs at h
    all_goals
      cases tie
      all_goals
        obtain rfl := Option.some.inj h
        assumption

lemma pos_of_holds (hlow : 0 < b.low) (h : b.holds exponent n = true) : 0 < n := by
  have hpos : 0 < b.low * (b.quarter exponent).numerator :=
    Nat.mul_pos hlow (b.numerator_pos exponent)
  rcases Nat.eq_zero_or_pos n with rfl | hn
  · unfold holds at h
    rw [inUnits_ratio, inUnits_ratio] at h
    dsimp only at h
    rw [Nat.zero_mul] at h
    split at h
    all_goals
      rw [Bool.and_eq_true, decide_eq_true_eq] at h
      omega
  · exact hn

/-- On a grid as fine as a quarter of the last binary digit the neighbour below reads back. -/
lemma holds_below (hlow : b.low < b.value) (hhigh : b.value < b.high)
    (hfine : (b.quarter exponent).denominator ≤ (b.quarter exponent).numerator) :
    b.holds exponent
      (b.value * (b.quarter exponent).numerator / (b.quarter exponent).denominator) = true := by
  have hnum := b.numerator_pos exponent
  have hden := b.denominator_pos exponent
  unfold holds
  rw [inUnits_ratio, inUnits_ratio]
  dsimp only
  generalize (b.quarter exponent).numerator = num at *
  generalize (b.quarter exponent).denominator = den at *
  have hle : b.value * num / den * den ≤ b.value * num := Nat.div_mul_le_self _ _
  have hlt : b.value * num < b.value * num / den * den + den := Nat.lt_div_mul_add hden
  have hbelow : (b.low + 1) * num ≤ b.value * num := Nat.mul_le_mul_right _ hlow
  have habove : b.value * num < b.high * num := Nat.mul_lt_mul_of_pos_right hhigh hnum
  rw [Nat.add_mul, Nat.one_mul] at hbelow
  have hleft : b.low * num < b.value * num / den * den := by omega
  have hright : b.value * num / den * den < b.high * num := by omega
  simp [hleft, hright, hleft.le, hright.le]

lemma exists_nearest? (hlow : b.low < b.value) (hhigh : b.value < b.high)
    (hfine : (b.quarter exponent).denominator ≤ (b.quarter exponent).numerator) :
    ∃ n, b.nearest? tie exponent = some n := by
  have hholds := holds_below hlow hhigh hfine
  unfold nearest?
  rw [inUnits_ratio]
  dsimp only
  rw [hholds]
  split
  case h_1 h _ => cases h
  case h_2 => exact ⟨_, rfl⟩
  case h_3 h _ => cases h
  case h_4 =>
    split_ifs
    all_goals
      cases tie
      all_goals exact ⟨_, rfl⟩

lemma search_pos (hlow : 0 < b.low) {k : Nat} (hk : k < count)
    (hhit : ∃ n, b.nearest? tie (exponent - k) = some n) :
    0 < (b.search tie count exponent).digits := by
  induction count generalizing exponent k with
  | zero => cases hk
  | succ count ih =>
    unfold search
    cases hnearest : b.nearest? tie exponent with
    | some n => exact pos_of_holds hlow (holds_of_nearest? hnearest)
    | none =>
      cases k with
      | zero =>
        obtain ⟨n, hn⟩ := hhit
        rw [Int.natCast_zero, Int.sub_zero, hnearest] at hn
        cases hn
      | succ k =>
        refine ih (Nat.lt_of_succ_lt_succ hk) ?_
        rwa [show exponent - 1 - (k : Int) = exponent - ((k + 1 : Nat) : Int) by omega]

lemma quarter_sub (b : Basin) (exponent : Int) :
    (b.quarter (exponent - 9)).denominator * (b.quarter exponent).numerator * 10 ^ 9 =
      (b.quarter exponent).denominator * (b.quarter (exponent - 9)).numerator := by
  have hpowers : 10 ^ (exponent - 9).toNat * 10 ^ (-exponent).toNat * 10 ^ 9 =
      10 ^ exponent.toNat * 10 ^ (-(exponent - 9)).toNat := by
    rw [← Nat.pow_add, ← Nat.pow_add, ← Nat.pow_add]
    congr 1
    omega
  unfold quarter
  dsimp only
  rw [Nat.mul_mul_mul_comm, Nat.mul_assoc, hpowers, Nat.mul_mul_mul_comm]

lemma quarter_fine (hvalue : 0 < b.value) (hbound : b.value ≤ 10 ^ 9) :
    (b.quarter ((b.ratio b.value).decimalExponent - 9)).denominator ≤
      (b.quarter ((b.ratio b.value).decimalExponent - 9)).numerator := by
  have hratio : b.ratio b.value = ⟨b.value * 2 ^ (b.scale - 152), 2 ^ (152 - b.scale)⟩ :=
    Ratio.scaled_eq ..
  have hreached := Ratio.le_inUnits_decimalExponent (r := b.ratio b.value)
    (by rw [hratio]; exact Nat.mul_pos hvalue (Nat.pow_pos (by decide)))
    (by rw [hratio]; exact Nat.pow_pos (by decide))
  rw [inUnits_ratio] at hreached
  generalize (b.ratio b.value).decimalExponent = reached at *
  have hpos : 0 < (b.quarter reached).numerator * 10 ^ 9 :=
    Nat.mul_pos (b.numerator_pos reached) (Nat.pow_pos (by decide))
  refine Nat.le_of_mul_le_mul_right ?_ hpos
  calc (b.quarter (reached - 9)).denominator * ((b.quarter reached).numerator * 10 ^ 9)
      = (b.quarter reached).denominator * (b.quarter (reached - 9)).numerator := by
        rw [← Nat.mul_assoc, quarter_sub]
    _ ≤ b.value * (b.quarter reached).numerator * (b.quarter (reached - 9)).numerator :=
        Nat.mul_le_mul_right _ hreached
    _ ≤ 10 ^ 9 * (b.quarter reached).numerator * (b.quarter (reached - 9)).numerator :=
        Nat.mul_le_mul_right _ (Nat.mul_le_mul_right _ hbound)
    _ = (b.quarter (reached - 9)).numerator * ((b.quarter reached).numerator * 10 ^ 9) := by
        rw [Nat.mul_comm, Nat.mul_comm (10 ^ 9)]

end Basin

lemma stripZeros_pos {d : Decimal} (h : 0 < d.digits) (count : Nat) :
    0 < (stripZeros count d).digits := by
  induction count generalizing d with
  | zero => exact h
  | succ count ih =>
    unfold stripZeros
    split
    case isTrue hzero =>
      refine ih ?_
      dsimp only
      omega
    case isFalse => exact h

namespace Single

variable {x : Single}

lemma significand_bounds (h : x.isZero = false) : 0 < x.significand ∧ x.significand < 2 ^ 24 := by
  have hfraction : x.fractionField < twoTo 23 := Nat.mod_lt _ (by decide)
  change x.fractionField < 8388608 at hfraction
  unfold significand
  split
  case isTrue hexponent =>
    rw [isZero, hexponent] at h
    have hne : x.fractionField ≠ 0 := by simpa using h
    omega
  case isFalse =>
    change 0 < 8388608 + _ ∧ 8388608 + _ < _
    omega

/-- Shortest digits are found for every float that is not zero. -/
theorem shortest_pos (h : x.isZero = false) (tie : Tie) : 0 < (x.shortest tie).digits := by
  obtain ⟨hpos, hlt⟩ := significand_bounds h
  have hlow : (Basin.ofSingle x).low < (Basin.ofSingle x).value := by
    unfold Basin.ofSingle
    dsimp only
    split <;> omega
  have hlowPos : 0 < (Basin.ofSingle x).low := by
    unfold Basin.ofSingle
    dsimp only
    split <;> omega
  have hhigh : (Basin.ofSingle x).value < (Basin.ofSingle x).high := by
    unfold Basin.ofSingle
    dsimp only
    omega
  have hbound : (Basin.ofSingle x).value ≤ 10 ^ 9 := by
    unfold Basin.ofSingle
    dsimp only
    omega
  have hhit : ∃ n, (Basin.ofSingle x).nearest? tie _ = some n :=
    Basin.exists_nearest? hlow hhigh (Basin.quarter_fine (by omega) hbound)
  exact stripZeros_pos (Basin.search_pos hlowPos (k := 9) (by decide) hhit) 10

end Single

namespace FloatStyle

open Numeral

variable {digits : List Char} {exponent : Int}

lemma isDigit_zeros (count : Nat) : ∀ c ∈ List.replicate count '0', isDigit c = true := by
  intro c hc
  obtain ⟨-, rfl⟩ := List.mem_replicate.mp hc
  rfl

lemma isWritten_positional (h : IsRun digits) (hne : digits.head? ≠ some '0') (exponent : Int)
    (negative : Bool) :
    IsWritten ⟨negative, (positional digits exponent).1, (positional digits exponent).2, none⟩ := by
  unfold positional
  split
  case isTrue =>
    exact ⟨⟨List.cons_ne_nil _ _, fun c hc => List.mem_singleton.mp hc ▸ rfl⟩, fun _ => rfl,
      List.forall_mem_append.mpr ⟨isDigit_zeros _, h.isDigit⟩, fun _ h => nomatch h⟩
  case isFalse =>
    obtain ⟨first, rest, rfl⟩ := List.exists_cons_of_ne_nil h.ne_nil
    have htake : ∀ c ∈ (first :: rest).take (exponent.toNat + 1), isDigit c = true :=
      fun c hc => h.isDigit c (List.mem_of_mem_take hc)
    have hwhole := List.forall_mem_append.mpr ⟨htake,
      isDigit_zeros (exponent.toNat + 1 - (first :: rest).length)⟩
    have hdrop : ∀ c ∈ (first :: rest).drop (exponent.toNat + 1), isDigit c = true :=
      fun c hc => h.isDigit c (List.mem_of_mem_drop hc)
    dsimp only
    split
    case h_1 =>
      exact ⟨⟨List.cons_ne_nil _ _, hwhole⟩, fun he => absurd he hne,
        fun c hc => List.mem_singleton.mp hc ▸ rfl, fun _ h => nomatch h⟩
    case h_2 =>
      exact ⟨⟨List.cons_ne_nil _ _, hwhole⟩, fun he => absurd he hne, hdrop, fun _ h => nomatch h⟩

lemma isPower_power (style : FloatStyle) (exponent : Int) : IsPower (style.power exponent) := by
  refine ⟨.inl rfl, ?_, isRun_toDigits _⟩
  unfold power
  dsimp only
  split_ifs
  · exact .inr (.inr rfl)
  · exact .inr (.inl rfl)
  · exact .inl rfl

/-- The numeral of a float is one of the grammar. -/
theorem isWritten_numeral (style : FloatStyle) (x : Single) : (style.numeral x).IsWritten := by
  unfold numeral
  by_cases hzero : x.isZero = true
  · rw [if_pos hzero]
    exact ⟨⟨List.cons_ne_nil _ _, fun c hc => List.mem_singleton.mp hc ▸ rfl⟩, fun _ => rfl,
      fun c hc => List.mem_singleton.mp hc ▸ rfl, fun _ h => nomatch h⟩
  · rw [if_neg hzero]
    have hpos := Single.shortest_pos (Bool.not_eq_true _ ▸ hzero) style.tie
    have hrun := isRun_toDigits (x.shortest style.tie).digits
    have hne := head?_toDigits_ne hpos
    dsimp only
    split
    case isTrue => exact isWritten_positional hrun hne _ _
    case isFalse =>
      obtain ⟨first, rest, hdigits⟩ := List.exists_cons_of_ne_nil hrun.ne_nil
      rw [hdigits] at hrun hne ⊢
      refine ⟨⟨List.cons_ne_nil _ _, fun c hc => ?_⟩, fun he => absurd he hne, fun c hc => ?_, ?_⟩
      · exact hrun.isDigit c (List.mem_of_mem_take hc)
      · exact hrun.isDigit c (List.mem_of_mem_drop hc)
      · rintro _ ⟨⟩
        exact isPower_power style _

end FloatStyle

end ScriptContainer.Number
