import Celeries.Js.Text
set_option autoImplicit false

/-!
The decimal numeral that `${n}` writes for a non-negative integer `n` (`Nat.repr`): a
non-empty string of ASCII digits, without a leading zero unless `n = 0`, whose decimal value
is `n`.
-/

namespace Celeries.Js

theorem digitChar_digit : ∀ d, d < 10 →
    isAsciiDigit (Nat.digitChar d) = true ∧ (Nat.digitChar d).toNat - 48 = d ∧
      (Nat.digitChar d = '0' → d = 0) := by
  decide

theorem digitsValue_append_digit (l : List Char) (c : Char) :
    digitsValue (l ++ [c]) = 10 * digitsValue l + (c.toNat - 48) := by
  simp [digitsValue, List.foldl_append]

theorem toDigitsCore_succ (f n : Nat) (ds : List Char) :
    Nat.toDigitsCore 10 (f + 1) n ds =
      if n / 10 = 0 then Nat.digitChar (n % 10) :: ds
      else Nat.toDigitsCore 10 f (n / 10) (Nat.digitChar (n % 10) :: ds) := rfl

theorem toDigitsCore_append (f n : Nat) (ds : List Char) :
    Nat.toDigitsCore 10 f n ds = Nat.toDigitsCore 10 f n [] ++ ds := by
  induction f generalizing n ds with
  | zero => rfl
  | succ f ih =>
    rw [toDigitsCore_succ, toDigitsCore_succ]
    split
    · rfl
    · rw [ih _ (_ :: ds), ih _ [_], List.append_assoc, List.singleton_append]

theorem toDigitsCore_spec (f n : Nat) (h : n < f) :
    let ds := Nat.toDigitsCore 10 f n []
    (∀ c ∈ ds, isAsciiDigit c = true) ∧ digitsValue ds = n ∧
      ∃ c cs, ds = c :: cs ∧ (c = '0' → n = 0) := by
  induction f generalizing n with
  | zero => omega
  | succ f ih =>
    have hd := digitChar_digit (n % 10) (Nat.mod_lt _ (by omega))
    rw [toDigitsCore_succ]
    split
    · refine ⟨by simpa using hd.1, ?_, _, [], rfl, fun h => ?_⟩
      · simp [digitsValue, hd.2.1]; omega
      · have := hd.2.2 h; omega
    · rw [toDigitsCore_append]
      obtain ⟨hall, hval, c, cs, hcs, hc⟩ := ih (n / 10) (by omega)
      refine ⟨?_, ?_, c, cs ++ [Nat.digitChar (n % 10)], by rw [hcs]; rfl, fun h => ?_⟩
      · intro x hx
        rcases List.mem_append.mp hx with hx | hx
        · exact hall x hx
        · simp only [List.mem_singleton] at hx; rw [hx]; exact hd.1
      · rw [digitsValue_append_digit, hval, hd.2.1]; omega
      · have := hc h; omega

theorem repr_spec (n : Nat) :
    (∀ c ∈ (Nat.repr n).toList, isAsciiDigit c = true) ∧ digitsValue (Nat.repr n).toList = n ∧
      ∃ c cs, (Nat.repr n).toList = c :: cs ∧ (c = '0' → n = 0) :=
  toDigitsCore_spec (n + 1) n (by omega)

theorem toString_nat_ne_empty (v : Nat) : toString v ≠ "" := by
  obtain ⟨-, -, c, cs, hl, -⟩ := repr_spec v
  intro h
  have := congrArg String.toList h
  simp_all [toString]

end Celeries.Js
