import Mathlib.Data.List.Basic
import Celeries.Url.Basic
set_option autoImplicit false

/-!
`URL.searchParams.entries()`: the `application/x-www-form-urlencoded` parser of the URL
Standard over the URL's query, with its lenient percent-decoding and the Encoding Standard's
UTF-8 decoder, which replaces each malformed sequence by U+FFFD.
-/

namespace Celeries.Url
open Js

structure Utf8Decoder where
  codePoint : Nat
  seen : Nat
  needed : Nat
  lower : Nat
  upper : Nat

def Utf8Decoder.initial : Utf8Decoder := ⟨0, 0, 0, 0x80, 0xBF⟩

def Utf8Decoder.start (b : Nat) : List Char × Utf8Decoder :=
  if b < 0x80 then ([Char.ofNat b], .initial)
  else if 0xC2 ≤ b ∧ b ≤ 0xDF then ([], ⟨b % 32, 0, 1, 0x80, 0xBF⟩)
  else if 0xE0 ≤ b ∧ b ≤ 0xEF then
    ([], ⟨b % 16, 0, 2, if b = 0xE0 then 0xA0 else 0x80, if b = 0xED then 0x9F else 0xBF⟩)
  else if 0xF0 ≤ b ∧ b ≤ 0xF4 then
    ([], ⟨b % 8, 0, 3, if b = 0xF0 then 0x90 else 0x80, if b = 0xF4 then 0x8F else 0xBF⟩)
  else (['\uFFFD'], .initial)

/-- The decoder's handler on a byte: a byte out of bounds ends the sequence with U+FFFD and is
handled again from the initial state. -/
def Utf8Decoder.handle (d : Utf8Decoder) (b : Nat) : List Char × Utf8Decoder :=
  if d.needed = 0 then start b
  else if ¬(d.lower ≤ b ∧ b ≤ d.upper) then
    let r := start b
    ('\uFFFD' :: r.1, r.2)
  else
    let codePoint := d.codePoint * 64 + b % 64
    if d.seen + 1 = d.needed then ([Char.ofNat codePoint], .initial)
    else ([], ⟨codePoint, d.seen + 1, d.needed, 0x80, 0xBF⟩)

def Utf8Decoder.run (d : Utf8Decoder) : List Nat → List Char
  | [] => if d.needed = 0 then [] else ['\uFFFD']
  | b :: rest =>
    let r := d.handle b
    r.1 ++ r.2.run rest

def splitOnAmpersand : List Nat → List (List Nat)
  | [] => [[]]
  | b :: rest =>
    if b = 0x26 then [] :: splitOnAmpersand rest
    else
      match splitOnAmpersand rest with
      | s :: ss => (b :: s) :: ss
      | [] => [[b]]

/-- One name or value: `+` is a space, then percent-decoding, then UTF-8 decoding. -/
def decodeComponent (bytes : List Nat) : String :=
  ⟨Utf8Decoder.initial.run (percentDecodeBytes (bytes.map fun b => if b = 0x2B then 0x20 else b))⟩

def parseSequence (bytes : List Nat) : String × String :=
  match bytes.span (· ≠ 0x3D) with
  | (name, []) => (decodeComponent name, "")
  | (name, _ :: value) => (decodeComponent name, decodeComponent value)

def urlencodedParse (input : String) : List (String × String) :=
  (splitOnAmpersand (input.toList.flatMap utf8Encode)).filterMap fun bytes =>
    if bytes.isEmpty then none else some (parseSequence bytes)

def searchParams (u : Url) : List (String × String) := urlencodedParse (u.query.getD "")

example : urlencodedParse "a=1&&b&c=x%3Dy+z&=%FFv" =
    [("a", "1"), ("b", ""), ("c", "x=y z"), ("", "\uFFFDv")] := by decide

def isFormChar (c : Char) : Bool := decide (c.toNat < 0x80) && c != '&' && c != '=' && c != '+' && c != '%'

def formPair (p : String × String) : List Char := p.1.toList ++ '=' :: p.2.toList

def formText : List (String × String) → List Char
  | [] => []
  | p :: ps => formPair p ++ (ps.map fun q => '&' :: formPair q).flatten

theorem percentDecodeBytes_cons {b : Nat} (rest : List Nat) (hb : b ≠ 0x25) :
    percentDecodeBytes (b :: rest) = b :: percentDecodeBytes rest :=
  percentDecodeBytes.eq_3 b rest fun _ _ _ h _ => hb h

theorem Utf8Decoder.run_ascii {b : Nat} (rest : List Nat) (hb : b < 0x80) :
    initial.run (b :: rest) = Char.ofNat b :: initial.run rest := by
  show (initial.handle b).1 ++ (initial.handle b).2.run rest = _
  rw [show initial.handle b = start b from if_pos rfl, start, if_pos hb]
  rfl

theorem span_append_of_not {p : Nat → Bool} (a rest : List Nat) {x : Nat} (ha : ∀ b ∈ a, p b = true)
    (hx : p x = false) : (a ++ x :: rest).span p = (a, x :: rest) := by
  rw [List.span_eq_take_drop, List.takeWhile_append_of_pos ha, List.dropWhile_append_of_pos ha]
  simp [hx]

theorem forall_mem_formText {P : Char → Prop} {ps : List (String × String)} (ha : P '&') (he : P '=')
    (h : ∀ p ∈ ps, ∀ c ∈ p.1.toList ++ p.2.toList, P c) : ∀ c ∈ formText ps, P c := by
  have hpair : ∀ p ∈ ps, ∀ c ∈ formPair p, P c := fun p hp c hc => by
    rcases List.mem_append.1 hc with hc | hc
    · exact h p hp c (List.mem_append_left _ hc)
    · rcases List.mem_cons.1 hc with rfl | hc
      · exact he
      · exact h p hp c (List.mem_append_right _ hc)
  cases ps with
  | nil => exact fun c hc => absurd hc (List.not_mem_nil c)
  | cons p ps =>
    intro c hc
    rcases List.mem_append.1 hc with hc | hc
    · exact hpair p (.head _) c hc
    · obtain ⟨l, hl, hcl⟩ := List.mem_flatten.1 hc
      obtain ⟨q, hq, rfl⟩ := List.mem_map.1 hl
      rcases List.mem_cons.1 hcl with rfl | hc
      · exact ha
      · exact hpair q (.tail _ hq) c hc

section Plain
variable {l : List Char} (h : ∀ c ∈ l, isFormChar c = true)
include h

theorem isFormChar_spec {c : Char} (hc : c ∈ l) :
    c.toNat < 0x80 ∧ c.toNat ≠ 0x26 ∧ c.toNat ≠ 0x3D ∧ c.toNat ≠ 0x2B ∧ c.toNat ≠ 0x25 := by
  have := h c hc
  simp only [isFormChar, Bool.and_eq_true, decide_eq_true_eq, bne_iff_ne, ne_eq, char_eq_iff_toNat,
    Char.reduceToNat] at this
  omega

theorem flatMap_utf8Encode_form : l.flatMap utf8Encode = l.map Char.toNat := by
  induction l with
  | nil => rfl
  | cons c l ih =>
    have hc := (isFormChar_spec h (.head _)).1
    rw [List.flatMap_cons, ih fun x hx => h x (.tail _ hx)]
    simp [utf8Encode, hc]

theorem decodeComponent_form : decodeComponent (l.map Char.toNat) = ⟨l⟩ := by
  have hplus : (l.map Char.toNat).map (fun b => if b = 0x2B then 0x20 else b) = l.map Char.toNat := by
    refine (List.map_congr_left fun b hb => ?_).trans (List.map_id _)
    obtain ⟨c, hc, rfl⟩ := List.mem_map.1 hb
    simp [(isFormChar_spec h hc).2.2.2.1]
  have hpct : ∀ l : List Char, (∀ c ∈ l, isFormChar c = true) →
      percentDecodeBytes (l.map Char.toNat) = l.map Char.toNat := by
    intro l h
    induction l with
    | nil => rfl
    | cons c l ih =>
      rw [List.map_cons, percentDecodeBytes_cons _ (isFormChar_spec h (.head _)).2.2.2.2,
        ih fun x hx => h x (.tail _ hx)]
  have hrun : ∀ l : List Char, (∀ c ∈ l, isFormChar c = true) →
      Utf8Decoder.initial.run (l.map Char.toNat) = l := by
    intro l h
    induction l with
    | nil => rfl
    | cons c l ih =>
      rw [List.map_cons, Utf8Decoder.run_ascii _ (isFormChar_spec h (.head _)).1, Char.ofNat_toNat,
        ih fun x hx => h x (.tail _ hx)]
  rw [decodeComponent, hplus, hpct l h, hrun l h]

end Plain

theorem splitOnAmpersand_append (a rest : List Nat) (ha : 0x26 ∉ a) :
    splitOnAmpersand (a ++ 0x26 :: rest) = a :: splitOnAmpersand rest := by
  induction a with
  | nil => simp [splitOnAmpersand]
  | cons b a ih =>
    rw [List.mem_cons, not_or] at ha
    simp [splitOnAmpersand, Ne.symm ha.1, ih ha.2]

theorem splitOnAmpersand_of_not_mem (a : List Nat) (ha : 0x26 ∉ a) : splitOnAmpersand a = [a] := by
  induction a with
  | nil => rfl
  | cons b a ih =>
    rw [List.mem_cons, not_or] at ha
    simp [splitOnAmpersand, Ne.symm ha.1, ih ha.2]

theorem splitOnAmpersand_flatten (a : List Nat) (bs : List (List Nat)) (ha : 0x26 ∉ a)
    (hb : ∀ b ∈ bs, 0x26 ∉ b) : splitOnAmpersand (a ++ (bs.map (0x26 :: ·)).flatten) = a :: bs := by
  induction bs generalizing a with
  | nil => simpa using splitOnAmpersand_of_not_mem a ha
  | cons b bs ih =>
    rw [List.map_cons, List.flatten_cons, List.cons_append, splitOnAmpersand_append a _ ha,
      ih b (hb b (.head _)) fun c hc => hb c (.tail _ hc)]

theorem flatMap_formText (p : String × String) (ps : List (String × String)) :
    (formText (p :: ps)).flatMap utf8Encode = (formPair p).flatMap utf8Encode ++
      ((ps.map fun q => (formPair q).flatMap utf8Encode).map (0x26 :: ·)).flatten := by
  rw [formText, List.flatMap_append]
  congr 1
  induction ps with
  | nil => rfl
  | cons q ps ih => simp [ih, utf8Encode]

theorem urlencodedParse_formText (ps : List (String × String)) (hk : ∀ p ∈ ps, p.1 ≠ "")
    (hc : ∀ p ∈ ps, ∀ c ∈ p.1.toList ++ p.2.toList, isFormChar c = true) :
    urlencodedParse ⟨formText ps⟩ = ps := by
  have hbytes : ∀ p ∈ ps, (formPair p).flatMap utf8Encode =
      p.1.toList.map Char.toNat ++ 0x3D :: p.2.toList.map Char.toNat := fun p hp => by
    rw [formPair, List.flatMap_append, List.flatMap_cons,
      flatMap_utf8Encode_form fun c h => hc p hp c (List.mem_append_left _ h),
      flatMap_utf8Encode_form fun c h => hc p hp c (List.mem_append_right _ h)]
    rfl
  have hnoamp : ∀ p ∈ ps, 0x26 ∉ (formPair p).flatMap utf8Encode := fun p hp hm => by
    rw [hbytes p hp] at hm
    simp only [List.mem_append, List.mem_map, List.mem_cons] at hm
    rcases hm with ⟨c, h, he⟩ | he | ⟨c, h, he⟩
    · exact (isFormChar_spec (hc p hp) (List.mem_append_left _ h)).2.1 he
    · cases he
    · exact (isFormChar_spec (hc p hp) (List.mem_append_right _ h)).2.1 he
  have hseq : ∀ p ∈ ps, parseSequence ((formPair p).flatMap utf8Encode) = p := fun p hp => by
    have hkey : ∀ b ∈ p.1.toList.map Char.toNat, decide (b ≠ 0x3D) = true := fun b hb => by
      obtain ⟨c, h, rfl⟩ := List.mem_map.1 hb
      exact decide_eq_true (isFormChar_spec (hc p hp) (List.mem_append_left _ h)).2.2.1
    rw [hbytes p hp, parseSequence, span_append_of_not _ _ hkey (by decide)]
    exact Prod.ext (decodeComponent_form fun c h => hc p hp c (List.mem_append_left _ h))
      (decodeComponent_form fun c h => hc p hp c (List.mem_append_right _ h))
  have hne : ∀ p ∈ ps, ((formPair p).flatMap utf8Encode).isEmpty = false := fun p hp => by
    rw [hbytes p hp]
    cases p.1.toList.map Char.toNat <;> rfl
  cases ps with
  | nil => rfl
  | cons p ps =>
    have hsplit : splitOnAmpersand ((formText (p :: ps)).flatMap utf8Encode) =
        (p :: ps).map fun q => (formPair q).flatMap utf8Encode := by
      rw [flatMap_formText]
      exact splitOnAmpersand_flatten _ _ (hnoamp p (.head _))
        (List.forall_mem_map.2 fun q hq => hnoamp q (.tail _ hq))
    rw [urlencodedParse, show (⟨formText (p :: ps)⟩ : String).toList = formText (p :: ps) from rfl,
      hsplit, List.filterMap_map]
    refine (List.filterMap_congr fun q hq => ?_).trans (List.filterMap_some _)
    simp only [Function.comp_apply, hne q hq, hseq q hq, Bool.false_eq_true, if_false]

end Celeries.Url
