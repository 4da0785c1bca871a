import ScriptContainer.Json.Text
import Mathlib.Tactic.Common

/-!
# Escapes that are read back

A text that is written between quotes is found again up to its closing quote and read as it was, whatever
its characters are.
-/

namespace ScriptContainer.Json

variable {c : Char} {rest : List Char}

lemma hexValue?_hexDigit : ∀ n < 16, hexValue? (hexDigit n) = some n := by decide

lemma unit?_of_control (h : c.toNat < 0x20) :
    unit? '0' '0' (hexDigit (c.toNat / 16)) (hexDigit (c.toNat % 16)) = some c.toNat := by
  have hzero : hexValue? '0' = some 0 := by decide
  rw [unit?, hzero, hexValue?_hexDigit _ (by omega), hexValue?_hexDigit _ (by omega)]
  change some (4096 * 0 + 256 * 0 + 16 * (c.toNat / 16) + c.toNat % 16) = _
  congr 1
  omega

/-- What a character looks like between quotes. -/
inductive Escaped (c : Char) : List Char → Prop
  | short (e : Char) (hu : e ≠ 'u') (h : simpleEscape? e = some c) : Escaped c ['\\', e]
  | unit (a b : Char) (h : unit? '0' '0' a b = some c.toNat) (hc : c.toNat < 0x20) :
    Escaped c ['\\', 'u', '0', '0', a, b]
  | plain (hquote : c ≠ '\x22') (hslash : c ≠ '\\') (hc : 0x20 ≤ c.toNat) : Escaped c [c]

lemma escaped_escapeChar (c : Char) : Escaped c (escapeChar c) := by
  unfold escapeChar
  split_ifs with hquote hslash hb hf hn hr ht hc
  all_goals try
    subst c
    exact .short _ (by decide) (by decide)
  · exact .unit _ _ (unit?_of_control hc) hc
  · exact .plain hquote hslash (Nat.not_lt.mp hc)

namespace Escaped

variable {written : List Char}

lemma unescapeFrom_append (h : Escaped c written) (text : List Char) :
    unescapeFrom text none (written ++ rest) = unescapeFrom (c :: text) none rest := by
  cases h with
  | short e hu h => simp [unescapeFrom, hu, h]
  | unit a b h hc =>
    have hhigh : isHighSurrogate c.toNat = false := by simp [isHighSurrogate]; omega
    have hlow : isLowSurrogate c.toNat = false := by simp [isLowSurrogate]; omega
    simp [unescapeFrom, h, hhigh, hlow]
  | plain hquote hslash hc => simp [unescapeFrom, hslash]

lemma scanBody_append (h : Escaped c written) (body : List Char) :
    scanBody body (written ++ rest) = scanBody (written.reverse ++ body) rest := by
  cases h with
  | short e hu h => simp [scanBody, hu, h]
  | unit a b h hc => simp [scanBody, h]
  | plain hquote hslash hc => simp [scanBody, hslash, Nat.not_lt.mpr hc]

end Escaped

theorem unescape?_escape (text : List Char) : unescape? (escape text) = some text := by
  have hall (before : List Char) :
      unescapeFrom before none (escape text) = some (before.reverse ++ text) := by
    induction text generalizing before with
    | nil => simp [escape, unescapeFrom]
    | cons c text ih =>
      rw [escape, List.flatMap_cons, (escaped_escapeChar c).unescapeFrom_append, ← escape, ih]
      simp
  exact hall []

theorem scanBody_escape (text : List Char) (rest : List Char) :
    scanBody [] (escape text ++ '\x22' :: rest) = some (escape text, rest) := by
  have hall (body : List Char) : scanBody body (escape text ++ '\x22' :: rest) =
      some (body.reverse ++ escape text, rest) := by
    induction text generalizing body with
    | nil => simp [escape, scanBody]
    | cons c text ih =>
      rw [escape, List.flatMap_cons, List.append_assoc, (escaped_escapeChar c).scanBody_append, ← escape,
        ih]
      simp
  exact hall []

end ScriptContainer.Json
