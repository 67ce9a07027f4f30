import Celeries.Js.Text
set_option autoImplicit false

/-!
The parsers of `src/utility.ts` that the URI code calls. They are not in the repository's files;
each follows the spec (4.10) and the utility tests.
-/

namespace Celeries
open Js

def isJsWhitespace (c : Char) : Bool :=
  c ∈ ['\t', '\n', '\x0B', '\x0C', '\r', ' ', '\u00A0', '\u1680', '\u2028', '\u2029', '\u202F',
    '\u205F', '\u3000', '\uFEFF'] || ('\u2000' ≤ c && c ≤ '\u200A')

def trim (l : List Char) : List Char :=
  ((l.dropWhile isJsWhitespace).reverse.dropWhile isJsWhitespace).reverse

def digitsIn (base : Nat) : List Char → Option Nat
  | [] => none
  | l => l.foldlM (fun n c => ((hexValue c).filter (· < base)).map (base * n + ·)) 0

/-- Modelled from the spec: `parseInteger(s)` trims `s`, then reads `0b` and `0x` (of either
case) as binary and hexadecimal, any other leading `0` of more than one digit as octal, and
the rest as decimal. -/
def parseInteger (s : String) : Except Error Nat :=
  let t := trim s.toList
  let value :=
    match t with
    | '0' :: b :: rest =>
      if b = 'b' ∨ b = 'B' then digitsIn 2 rest
      else if b = 'x' ∨ b = 'X' then digitsIn 16 rest
      else digitsIn 8 (b :: rest)
    | _ => digitsIn 10 t
  match value with
  | some n => .ok n
  | none => .error (.parse ("could not parse \"" ++ s ++ "\" as integer"))

theorem isJsWhitespace_digit {c : Char} (h : isAsciiDigit c = true) : isJsWhitespace c = false := by
  simp only [isAsciiDigit, Bool.and_eq_true, decide_eq_true_eq] at h
  simp only [isJsWhitespace, List.mem_cons, List.not_mem_nil, or_false, Bool.or_eq_false_iff,
    decide_eq_false_iff_not, Bool.and_eq_false_iff, decide_eq_false_iff_not, char_eq_iff_toNat,
    char_le_iff_toNat, Char.reduceToNat] at *
  omega

theorem trim_digits (l : List Char) (h : ∀ c ∈ l, isAsciiDigit c = true) : trim l = l := by
  have hkeep : ∀ l : List Char, (∀ c ∈ l, isAsciiDigit c = true) → l.dropWhile isJsWhitespace = l := by
    intro l hl
    cases l with
    | nil => rfl
    | cons c l => simp [List.dropWhile, isJsWhitespace_digit (hl c (.head _))]
  rw [trim, hkeep l h, hkeep l.reverse (by simpa using h), List.reverse_reverse]

theorem foldlM_digits (l : List Char) (h : ∀ c ∈ l, isAsciiDigit c = true) (acc : Nat) :
    l.foldlM (fun n c => ((hexValue c).filter (· < 10)).map (10 * n + ·)) acc =
      some (l.foldl (fun n c => 10 * n + (c.toNat - 48)) acc) := by
  induction l generalizing acc with
  | nil => rfl
  | cons c l ih =>
    have hc := h c (.head _)
    have hlt : c.toNat - 48 < 10 := by
      simp only [isAsciiDigit, Bool.and_eq_true, decide_eq_true_eq, char_le_iff_toNat,
        Char.reduceToNat] at hc
      omega
    have hv : hexValue c = some (c.toNat - 48) := by simp [hexValue, hc]
    have hf : (some (c.toNat - 48)).filter (fun x => decide (x < 10)) = some (c.toNat - 48) := by
      simp [Option.filter, hlt]
    simp [List.foldlM, hv, hf, ih (fun x hx => h x (.tail _ hx))]

theorem parseInteger_digits (c : Char) (cs : List Char) (h : ∀ x ∈ c :: cs, isAsciiDigit x = true)
    (hlead : c = '0' → cs = []) : parseInteger ⟨c :: cs⟩ = .ok (digitsValue (c :: cs)) := by
  have hdigits : digitsIn 10 (c :: cs) = some (digitsValue (c :: cs)) := foldlM_digits _ h 0
  simp only [parseInteger, String.toList, trim_digits _ h]
  rcases cs with _ | ⟨d, ds⟩
  · simp only [hdigits]
  · have hc : c ≠ '0' := fun hc => absurd (hlead hc) (List.cons_ne_nil d ds)
    split
    · rename_i heq
      split at heq
      · rename_i b rest heq'
        exact absurd (List.cons.inj heq').1 hc
      · rw [hdigits] at heq
        cases heq
        rfl
    · rename_i heq
      split at heq
      · rename_i b rest heq'
        exact absurd (List.cons.inj heq').1 hc
      · rw [hdigits] at heq
        cases heq

/-- Modelled from the spec: `parseBoolean(s)` lowercases `s` and reads `true`, `on`, `yes`,
`1` as true and `false`, `off`, `no`, `0` as false. -/
def parseBoolean (s : String) : Except Error Bool :=
  let lowered := toLowerCase s
  if lowered ∈ ["true", "on", "yes", "1"] then .ok true
  else if lowered ∈ ["false", "off", "no", "0"] then .ok false
  else .error (.parse ("could not parse \"" ++ s ++ "\" as boolean"))

def camelChars : Bool → List Char → List Char
  | _, [] => []
  | _, '_' :: rest => camelChars true rest
  | upper, c :: rest => (if upper then c.toUpper else c) :: camelChars false rest

/-- Modelled from the spec: `toCamelCase(s)` removes the underscores of `s` and uppercases the
letter that follows each. -/
def toCamelCase (s : String) : String := ⟨camelChars false s.toList⟩

theorem toUpper_ne_underscore {c : Char} (h : c ≠ '_') : c.toUpper ≠ '_' := by
  unfold Char.toUpper
  dsimp only
  split
  · rw [Ne, char_eq_iff_toNat, Char.ofNat, dif_pos (Or.inl (by omega))]
    show c.toNat - 32 ≠ 95
    omega
  · exact h

theorem camelChars_no_underscore (upper : Bool) (l : List Char) : '_' ∉ camelChars upper l := by
  induction l generalizing upper with
  | nil => simp [camelChars]
  | cons c l ih =>
    by_cases hc : c = '_'
    · subst hc
      simpa [camelChars] using ih true
    · rw [camelChars.eq_3 _ _ _ hc, List.mem_cons, not_or]
      refine ⟨?_, ih false⟩
      cases upper
      · exact Ne.symm hc
      · exact Ne.symm (toUpper_ne_underscore hc)

theorem camelChars_id (l : List Char) (h : '_' ∉ l) : camelChars false l = l := by
  induction l with
  | nil => rfl
  | cons c l ih =>
    rw [List.mem_cons, not_or] at h
    rw [camelChars.eq_3 _ _ _ (Ne.symm h.1), ih h.2]
    rfl

theorem toCamelCase_toCamelCase (s : String) : toCamelCase (toCamelCase s) = toCamelCase s :=
  congrArg String.mk (camelChars_id _ (camelChars_no_underscore false s.toList))

example : parseInteger "0xdeadBEEF" = .ok 3735928559 ∧ parseInteger "0666" = .ok 438 ∧
    parseInteger "\t42\n" = .ok 42 ∧ parseInteger "0" = .ok 0 := ⟨rfl, rfl, rfl, rfl⟩
example : (parseInteger "08").toBool = false ∧ (parseInteger "0x").toBool = false := ⟨rfl, rfl⟩
example : toCamelCase "channel_max" = "channelMax" ∧ toCamelCase "fooBar" = "fooBar" := by decide

end Celeries
