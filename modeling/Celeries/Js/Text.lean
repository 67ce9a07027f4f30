import Celeries.Errors
set_option autoImplicit false

/-!
Text primitives of the JavaScript runtime as the URI code uses them: ASCII classes,
`String.prototype.toLowerCase`, the UTF-8 code units of a code point, percent-encoding, and
`decodeURIComponent` (ECMA-262 `Decode` with an empty reserved set).

A string is its list of code points, which is a JavaScript string without lone surrogates.
-/

namespace Celeries.Js

def isAsciiDigit (c : Char) : Bool := '0' ≤ c && c ≤ '9'

def isAsciiUpperAlpha (c : Char) : Bool := 'A' ≤ c && c ≤ 'Z'

def isAsciiLowerAlpha (c : Char) : Bool := 'a' ≤ c && c ≤ 'z'

def isAsciiAlpha (c : Char) : Bool := isAsciiUpperAlpha c || isAsciiLowerAlpha c

def isAsciiAlphanumeric (c : Char) : Bool := isAsciiAlpha c || isAsciiDigit c

theorem char_le_iff_toNat (a b : Char) : a ≤ b ↔ a.toNat ≤ b.toNat := Iff.rfl

theorem char_eq_iff_toNat (a b : Char) : a = b ↔ a.toNat = b.toNat :=
  ⟨congrArg _, fun h => Char.eq_of_val_eq (UInt32.toNat.inj h)⟩

def hexValue (c : Char) : Option Nat :=
  if isAsciiDigit c then some (c.toNat - 48)
  else if 'A' ≤ c && c ≤ 'F' then some (c.toNat - 55)
  else if 'a' ≤ c && c ≤ 'f' then some (c.toNat - 87)
  else none

def hexDigit (n : Nat) : Char := Char.ofNat (if n < 10 then 48 + n else 55 + n)

def digitsValue (l : List Char) : Nat := l.foldl (fun n c => 10 * n + (c.toNat - 48)) 0

/-- `String.prototype.toLowerCase`, on the ASCII letters: every string the code lowercases
(a URL scheme, a host name `validateHost` accepted) is ASCII. -/
def toLowerCase (s : String) : String := ⟨s.toList.map Char.toLower⟩

theorem toLower_toNat (c : Char) :
    c.toLower.toNat = if 65 ≤ c.toNat ∧ c.toNat ≤ 90 then c.toNat + 32 else c.toNat := by
  unfold Char.toLower
  split
  · rename_i h
    rw [if_pos ⟨h.1, h.2⟩, Char.ofNat, dif_pos (Or.inl (by omega))]
    rfl
  · rename_i h
    rw [if_neg fun h' => h ⟨h'.1, h'.2⟩]

theorem toLower_toLower (c : Char) : c.toLower.toLower = c.toLower := by
  rw [char_eq_iff_toNat, toLower_toNat c.toLower, toLower_toNat c]
  by_cases h : 65 ≤ c.toNat ∧ c.toNat ≤ 90
  · rw [if_pos h, if_neg (by omega)]
  · rw [if_neg h, if_neg h]

theorem toLowerCase_toLowerCase (s : String) : toLowerCase (toLowerCase s) = toLowerCase s := by
  simp only [toLowerCase]
  congr 1
  exact (List.map_map _ _ _).trans (List.map_congr_left fun c _ => toLower_toLower c)

theorem not_upper_of_mem_toLowerCase {s : String} {c : Char} (h : c ∈ (toLowerCase s).toList) :
    ¬('A' ≤ c ∧ c ≤ 'Z') := by
  obtain ⟨x, -, rfl⟩ := List.mem_map.1 h
  have hx := toLower_toNat x
  simp only [char_le_iff_toNat, Char.reduceToNat]
  split at hx <;> omega

def utf8Encode (c : Char) : List Nat :=
  let n := c.toNat
  if n < 0x80 then [n]
  else if n < 0x800 then [0xC0 + n / 64, 0x80 + n % 64]
  else if n < 0x10000 then [0xE0 + n / 4096, 0x80 + n / 64 % 64, 0x80 + n % 64]
  else [0xF0 + n / 262144, 0x80 + n / 4096 % 64, 0x80 + n / 64 % 64, 0x80 + n % 64]

def leadingOnes (b : Nat) : Nat :=
  if b < 0x80 then 0 else if b < 0xC0 then 1 else if b < 0xE0 then 2 else if b < 0xF0 then 3
  else if b < 0xF8 then 4 else 5

def isContinuation (b : Nat) : Bool := b / 64 = 2

def utf8Decode (lead : Nat) (conts : List Nat) : Option Char :=
  if conts.all isContinuation then
    match conts with
    | [c1] =>
      let v := lead % 32 * 64 + c1 % 64
      if 0x80 ≤ v then some (Char.ofNat v) else none
    | [c1, c2] =>
      let v := lead % 16 * 4096 + c1 % 64 * 64 + c2 % 64
      if 0x800 ≤ v ∧ ¬(0xD800 ≤ v ∧ v ≤ 0xDFFF) then some (Char.ofNat v) else none
    | [c1, c2, c3] =>
      let v := lead % 8 * 262144 + c1 % 64 * 4096 + c2 % 64 * 64 + c3 % 64
      if 0x10000 ≤ v ∧ v ≤ 0x10FFFF then some (Char.ofNat v) else none
    | _ => none
  else none

def percentEncodeByte (b : Nat) : List Char := ['%', hexDigit (b / 16), hexDigit (b % 16)]

def utf8PercentEncode (set : Char → Bool) (c : Char) : List Char :=
  if set c then (utf8Encode c).flatMap percentEncodeByte else [c]

def percentEncode (set : Char → Bool) (s : List Char) : List Char :=
  s.flatMap (utf8PercentEncode set)

theorem percentEncode_id {set : Char → Bool} {s : List Char} (h : ∀ c ∈ s, set c = false) :
    percentEncode set s = s := by
  induction s with
  | nil => rfl
  | cons c s ih =>
    simp [percentEncode, utf8PercentEncode, h c (.head _)] at ih ⊢
    exact ih (fun x hx => h x (.tail _ hx))

theorem utf8PercentEncode_head (set : Char → Bool) (c : Char) :
    ∃ y ys, utf8PercentEncode set c = y :: ys ∧ (y = c ∨ y = '%') := by
  unfold utf8PercentEncode
  split
  · obtain ⟨b, bs, hb⟩ : ∃ b bs, utf8Encode c = b :: bs := by
      unfold utf8Encode
      dsimp only
      split
      · exact ⟨_, _, rfl⟩
      split
      · exact ⟨_, _, rfl⟩
      split <;> exact ⟨_, _, rfl⟩
    exact ⟨'%', hexDigit (b / 16) :: hexDigit (b % 16) :: bs.flatMap percentEncodeByte,
      by simp [hb, percentEncodeByte], .inr rfl⟩
  · exact ⟨c, [], rfl, .inl rfl⟩

theorem head?_percentEncode (set : Char → Bool) (l : List Char) :
    ∀ y ∈ (percentEncode set l).head?, ∃ c ∈ l.head?, y = c ∨ y = '%' := by
  cases l with
  | nil => nofun
  | cons c l =>
    obtain ⟨y, ys, hy, hyc⟩ := utf8PercentEncode_head set c
    intro x hx
    rw [percentEncode, List.flatMap_cons, hy, List.cons_append, List.head?_cons] at hx
    cases hx
    exact ⟨c, rfl, hyc⟩

inductive Escaped where
  | char (c : Char)
  | octet (b : Nat)
  deriving DecidableEq, Repr

def readEscapes : List Char → Option (List Escaped)
  | [] => some []
  | '%' :: h :: l :: rest =>
    match hexValue h, hexValue l with
    | some a, some b => (Escaped.octet (16 * a + b) :: ·) <$> readEscapes rest
    | _, _ => none
  | '%' :: _ => none
  | c :: rest => (Escaped.char c :: ·) <$> readEscapes rest

def decodeOctets : List Escaped → Option (List Char)
  | [] => some []
  | .char c :: rest => (c :: ·) <$> decodeOctets rest
  | .octet b :: rest =>
    match leadingOnes b, rest with
    | 0, rest => (Char.ofNat b :: ·) <$> decodeOctets rest
    | 2, .octet c1 :: rest => do
      let c ← utf8Decode b [c1]
      (c :: ·) <$> decodeOctets rest
    | 3, .octet c1 :: .octet c2 :: rest => do
      let c ← utf8Decode b [c1, c2]
      (c :: ·) <$> decodeOctets rest
    | 4, .octet c1 :: .octet c2 :: .octet c3 :: rest => do
      let c ← utf8Decode b [c1, c2, c3]
      (c :: ·) <$> decodeOctets rest
    | _, _ => none

/-- `decodeURIComponent`: a malformed escape or octet sequence throws `URIError`. -/
def decodeURIComponent (s : String) : Except Error String :=
  match readEscapes s.toList >>= decodeOctets with
  | some cs => .ok ⟨cs⟩
  | none => .error (.uri "URI malformed")

theorem hexValue_hexDigit : ∀ n, n < 16 → hexValue (hexDigit n) = some n := by decide

theorem utf8Encode_lt (c : Char) : ∀ b ∈ utf8Encode c, b < 256 := by
  have hv : c.toNat < 0xD800 ∨ (0xDFFF < c.toNat ∧ c.toNat < 0x110000) := c.valid
  simp only [utf8Encode]
  split
  · simp only [List.mem_singleton]; omega
  · split
    · simp only [List.mem_cons, List.mem_singleton, List.not_mem_nil, or_false]; omega
    · split <;> simp only [List.mem_cons, List.mem_singleton, List.not_mem_nil, or_false] <;> omega

theorem mem_utf8PercentEncode {set : Char → Bool} {c x : Char} (hx : x ∈ utf8PercentEncode set c) :
    x = c ∧ set c = false ∨ x = '%' ∨ ∃ n < 16, x = hexDigit n := by
  unfold utf8PercentEncode at hx
  split at hx
  · obtain ⟨b, hb, hx⟩ := List.mem_flatMap.1 hx
    have := utf8Encode_lt c b hb
    simp only [percentEncodeByte, List.mem_cons, List.not_mem_nil, or_false] at hx
    rcases hx with rfl | rfl | rfl
    · exact .inr (.inl rfl)
    · exact .inr (.inr ⟨_, by omega, rfl⟩)
    · exact .inr (.inr ⟨_, by omega, rfl⟩)
  · exact .inl ⟨List.mem_singleton.1 hx, by simpa using ‹¬set c = true›⟩

theorem readEscapes_percentEncodeByte (b : Nat) (hb : b < 256) (rest : List Char) :
    readEscapes (percentEncodeByte b ++ rest) = (Escaped.octet b :: ·) <$> readEscapes rest := by
  simp only [percentEncodeByte, List.cons_append, List.nil_append, readEscapes.eq_2,
    hexValue_hexDigit (b / 16) (by omega), hexValue_hexDigit (b % 16) (by omega)]
  rw [show 16 * (b / 16) + b % 16 = b by omega]

theorem readEscapes_char (c : Char) (hc : c ≠ '%') (rest : List Char) :
    readEscapes (c :: rest) = (Escaped.char c :: ·) <$> readEscapes rest :=
  readEscapes.eq_4 c rest (fun _ _ _ h => absurd h hc) hc

theorem readEscapes_bytes (bs : List Nat) (hb : ∀ b ∈ bs, b < 256) (rest : List Char) :
    readEscapes (bs.flatMap percentEncodeByte ++ rest) =
      (bs.map Escaped.octet ++ ·) <$> readEscapes rest := by
  induction bs with
  | nil => simp
  | cons b bs ih =>
    rw [List.flatMap_cons, List.append_assoc, readEscapes_percentEncodeByte b (hb b (.head _)),
      ih (fun x hx => hb x (.tail _ hx))]
    simp [Function.comp_def]

def encodedEscapes (set : Char → Bool) (c : Char) : List Escaped :=
  if set c then (utf8Encode c).map .octet else [.char c]

theorem readEscapes_utf8PercentEncode (set : Char → Bool) (c : Char)
    (hc : set c = false → c ≠ '%') (rest : List Char) :
    readEscapes (utf8PercentEncode set c ++ rest) =
      (encodedEscapes set c ++ ·) <$> readEscapes rest := by
  cases h : set c with
  | false => simp [utf8PercentEncode, encodedEscapes, h, readEscapes_char c (hc h)]
  | true =>
    simp only [utf8PercentEncode, encodedEscapes, h, if_true]
    exact readEscapes_bytes _ (utf8Encode_lt c) rest

theorem readEscapes_percentEncode (set : Char → Bool) (l : List Char)
    (hl : ∀ c ∈ l, set c = false → c ≠ '%') :
    readEscapes (percentEncode set l) = some (l.flatMap (encodedEscapes set)) := by
  induction l with
  | nil => rfl
  | cons c l ih =>
    rw [percentEncode, List.flatMap_cons, readEscapes_utf8PercentEncode set c (hl c (.head _)),
      ← percentEncode, ih (fun x hx => hl x (.tail _ hx))]
    simp

theorem leadingOnes_zero {b : Nat} (h : b < 0x80) : leadingOnes b = 0 := by
  simp only [leadingOnes, if_pos h]

theorem leadingOnes_two {b : Nat} (h1 : 0xC0 ≤ b) (h2 : b < 0xE0) : leadingOnes b = 2 := by
  simp only [leadingOnes, if_neg (show ¬b < 0x80 by omega), if_neg (show ¬b < 0xC0 by omega),
    if_pos h2]

theorem leadingOnes_three {b : Nat} (h1 : 0xE0 ≤ b) (h2 : b < 0xF0) : leadingOnes b = 3 := by
  simp only [leadingOnes, if_neg (show ¬b < 0x80 by omega), if_neg (show ¬b < 0xC0 by omega),
    if_neg (show ¬b < 0xE0 by omega), if_pos h2]

theorem leadingOnes_four {b : Nat} (h1 : 0xF0 ≤ b) (h2 : b < 0xF8) : leadingOnes b = 4 := by
  simp only [leadingOnes, if_neg (show ¬b < 0x80 by omega), if_neg (show ¬b < 0xC0 by omega),
    if_neg (show ¬b < 0xE0 by omega), if_neg (show ¬b < 0xF0 by omega), if_pos h2]

theorem cont_div (x : Nat) : (0x80 + x % 64) / 64 = 2 := by omega

theorem cont_mod (x : Nat) : (0x80 + x % 64) % 64 = x % 64 := by omega

theorem decodeOctets_utf8Encode (c : Char) (rest : List Escaped) :
    decodeOctets ((utf8Encode c).map .octet ++ rest) = (c :: ·) <$> decodeOctets rest := by
  have hv : c.toNat < 0xD800 ∨ (0xDFFF < c.toNat ∧ c.toNat < 0x110000) := c.valid
  have hc := Char.ofNat_toNat c
  simp only [utf8Encode]
  split
  · rw [List.map_cons, List.map_nil, List.cons_append, List.nil_append,
      decodeOctets.eq_3 _ _ (leadingOnes_zero (by omega)), hc]
  split
  · rw [List.map_cons, List.map_cons, List.map_nil, List.cons_append, List.cons_append,
      List.nil_append, decodeOctets.eq_4 _ _ _ (leadingOnes_two (by omega) (by omega))]
    have hd : utf8Decode (0xC0 + c.toNat / 64) [0x80 + c.toNat % 64] = some c := by
      simp only [utf8Decode, List.all_cons, List.all_nil, isContinuation, Bool.and_true, cont_div,
        cont_mod]
      rw [show (0xC0 + c.toNat / 64) % 32 * 64 + c.toNat % 64 = c.toNat by omega]
      simp [hc, show 0x80 ≤ c.toNat by omega]
    simp [hd]
  split
  · rw [List.map_cons, List.map_cons, List.map_cons, List.map_nil, List.cons_append,
      List.cons_append, List.cons_append, List.nil_append,
      decodeOctets.eq_5 _ _ _ _ (leadingOnes_three (by omega) (by omega))]
    have hd : utf8Decode (0xE0 + c.toNat / 4096) [0x80 + c.toNat / 64 % 64, 0x80 + c.toNat % 64] =
        some c := by
      simp only [utf8Decode, List.all_cons, List.all_nil, isContinuation, Bool.and_true, cont_div,
        cont_mod, Bool.and_self]
      rw [show (0xE0 + c.toNat / 4096) % 16 * 4096 + c.toNat / 64 % 64 * 64 + c.toNat % 64 = c.toNat
        by omega]
      simp [hc, show 0x800 ≤ c.toNat ∧ ¬(0xD800 ≤ c.toNat ∧ c.toNat ≤ 0xDFFF) by omega]
    simp [hd]
  · rw [List.map_cons, List.map_cons, List.map_cons, List.map_cons, List.map_nil, List.cons_append,
      List.cons_append, List.cons_append, List.cons_append, List.nil_append,
      decodeOctets.eq_6 _ _ _ _ _ (leadingOnes_four (by omega) (by omega))]
    have hd : utf8Decode (0xF0 + c.toNat / 262144)
        [0x80 + c.toNat / 4096 % 64, 0x80 + c.toNat / 64 % 64, 0x80 + c.toNat % 64] = some c := by
      simp only [utf8Decode, List.all_cons, List.all_nil, isContinuation, Bool.and_true, cont_div,
        cont_mod, Bool.and_self]
      rw [show (0xF0 + c.toNat / 262144) % 8 * 262144 + c.toNat / 4096 % 64 * 4096 +
        c.toNat / 64 % 64 * 64 + c.toNat % 64 = c.toNat by omega]
      simp [hc, show 0x10000 ≤ c.toNat ∧ c.toNat ≤ 0x10FFFF by omega]
    simp [hd]

theorem decodeOctets_encodedEscapes (set : Char → Bool) (l : List Char) (rest : List Escaped) :
    decodeOctets (l.flatMap (encodedEscapes set) ++ rest) = (l ++ ·) <$> decodeOctets rest := by
  induction l with
  | nil => simp
  | cons c l ih =>
    rw [List.flatMap_cons, List.append_assoc, encodedEscapes]
    split
    · rw [decodeOctets_utf8Encode, ih]
      simp [Function.comp_def]
    · rw [List.singleton_append, decodeOctets, ih]
      simp [Function.comp_def]

/-- `decodeURIComponent` undoes percent-encoding with any set that encodes every `%`. -/
theorem decodeURIComponent_percentEncode (set : Char → Bool) (l : List Char)
    (hl : ∀ c ∈ l, set c = false → c ≠ '%') :
    decodeURIComponent ⟨percentEncode set l⟩ = .ok ⟨l⟩ := by
  have h := decodeOctets_encodedEscapes set l []
  rw [List.append_nil] at h
  simp [decodeURIComponent, readEscapes_percentEncode set l hl, h, decodeOctets]

theorem readEscapes_cons_ne_nil {c : Char} {l : List Char} {es : List Escaped}
    (h : readEscapes (c :: l) = some es) : es ≠ [] := by
  rintro rfl
  unfold readEscapes at h
  split at h <;> (try split at h) <;> simp_all [Option.bind_eq_some]

theorem decodeOctets_cons_ne_nil {e : Escaped} {es : List Escaped} {cs : List Char}
    (h : decodeOctets (e :: es) = some cs) : cs ≠ [] := by
  rintro rfl
  unfold decodeOctets at h
  split at h <;> (try split at h) <;> simp_all [Option.bind_eq_some]

theorem decodeURIComponent_ne_empty {s t : String} (h : decodeURIComponent s = .ok t)
    (hs : s ≠ "") : t ≠ "" := by
  obtain ⟨c, l, hl⟩ := List.exists_cons_of_ne_nil fun he => hs (String.ext he)
  unfold decodeURIComponent at h
  split at h
  · rename_i cs hcs
    cases h
    rw [show s.toList = c :: l from hl] at hcs
    obtain ⟨es, hes, hd⟩ := Option.bind_eq_some.1 hcs
    obtain ⟨e, es, rfl⟩ := List.exists_cons_of_ne_nil (readEscapes_cons_ne_nil hes)
    exact fun he => decodeOctets_cons_ne_nil hd (congrArg String.data he)
  · cases h

example : decodeURIComponent "p%20q%C3%A9" = .ok "p qé" := rfl
example : decodeURIComponent "100%" = .error (.uri "URI malformed") := rfl
example : decodeURIComponent "%C0%80" = .error (.uri "URI malformed") := rfl

end Celeries.Js
