import Celeries.Js.Text
set_option autoImplicit false

/-!
The part of ECMAScript regular expressions that the source's patterns use. A pattern yields
every way it can match a prefix of the input, in the order the standard's backtracking
matcher tries them; `exec` takes the first way the whole pattern matches.

Every pattern of the source starts with `^` and none sets a flag, so `exec` matches at index 0
only, and `$` is the end of the input. No pattern of the source has a capturing group inside
a quantifier, so captures are not reset between iterations.
-/

namespace Celeries.Js

/-- A character class: ranges of code points, or their complement. A literal character is
the class of one range of one character. -/
structure CharClass where
  ranges : List (Char × Char)
  negated : Bool
  deriving DecidableEq, Repr

def CharClass.mem (cls : CharClass) (c : Char) : Bool :=
  (cls.ranges.any fun r => r.1 ≤ c && c ≤ r.2) != cls.negated

inductive Pattern where
  | empty
  | cls (c : CharClass)
  | seq (a b : Pattern)
  | alt (a b : Pattern)
  /-- `a{min,max}`, with `none` for no upper bound; lazy when followed by `?`. -/
  | rep (min : Nat) (max : Option Nat) (greedy : Bool) (a : Pattern)
  | group (index : Nat) (a : Pattern)
  /-- `$`. -/
  | eoi
  deriving DecidableEq, Repr

abbrev Captures := List (Nat × List Char)

/-- `RepeatMatcher`: `fuel` bounds the iterations. An iteration past the minimum that
consumes nothing fails, so `min + input length` iterations always suffice. -/
def repeatMatch (m : Captures → List Char → List (Captures × List Char)) (greedy : Bool) :
    Nat → Nat → Option Nat → Captures → List Char → List (Captures × List Char)
  | _, _, some 0, caps, s => [(caps, s)]
  | 0, min, _, caps, s => if min = 0 then [(caps, s)] else []
  | fuel + 1, min, max, caps, s =>
    let more := (m caps s).flatMap fun r =>
      if min = 0 ∧ r.2.length = s.length then []
      else repeatMatch m greedy fuel (min - 1) (max.map (· - 1)) r.1 r.2
    if min ≠ 0 then more else if greedy then more ++ [(caps, s)] else (caps, s) :: more

/-- Every way `p` matches a prefix of the input: the captures then, and the rest of the
input, in the order the backtracking matcher tries them. -/
def Pattern.matches : Pattern → Captures → List Char → List (Captures × List Char)
  | .empty, caps, s => [(caps, s)]
  | .cls c, caps, s =>
    match s with
    | x :: rest => if c.mem x then [(caps, rest)] else []
    | [] => []
  | .seq a b, caps, s => (a.matches caps s).flatMap fun r => b.matches r.1 r.2
  | .alt a b, caps, s => a.matches caps s ++ b.matches caps s
  | .rep min max greedy a, caps, s =>
    repeatMatch a.matches greedy (min + s.length) min max caps s
  | .group i a, caps, s =>
    (a.matches caps s).map fun r => ((i, s.take (s.length - r.2.length)) :: r.1, r.2)
  | .eoi, caps, s => if s = [] then [(caps, s)] else []

def Pattern.exec (p : Pattern) (s : String) : Option Captures :=
  ((p.matches [] s.toList).head?).map Prod.fst

def Pattern.test (p : Pattern) (s : String) : Bool := (p.exec s).isSome

def capture (caps : Captures) (i : Nat) : String := ⟨(caps.lookup i).getD []⟩

namespace Pattern

def lit (c : Char) : Pattern := .cls ⟨[(c, c)], false⟩

def seqs : List Pattern → Pattern
  | [] => .empty
  | [p] => p
  | p :: ps => .seq p (seqs ps)

def star (p : Pattern) : Pattern := .rep 0 none true p

def plus (p : Pattern) : Pattern := .rep 1 none true p

def dot : Pattern := .cls ⟨[('\n', '\n'), ('\r', '\r'), ('\u2028', '\u2029')], true⟩

end Pattern

def digitRanges : List (Char × Char) := [('0', '9')]

def wordRanges : List (Char × Char) := [('A', 'Z'), ('a', 'z'), ('0', '9'), ('_', '_')]

theorem CharClass.mem_lit (c : Char) : CharClass.mem ⟨[(c, c)], false⟩ c = true := by
  simp [CharClass.mem]

theorem CharClass.mem_lit_iff (c x : Char) : CharClass.mem ⟨[(c, c)], false⟩ x = true ↔ x = c := by
  simp only [CharClass.mem, List.any_cons, List.any_nil, Bool.or_false, bne_iff_ne, ne_eq,
    Bool.not_eq_false, Bool.and_eq_true, decide_eq_true_eq, char_le_iff_toNat, char_eq_iff_toNat]
  omega

theorem CharClass.mem_digit (c : Char) : CharClass.mem ⟨digitRanges, false⟩ c = isAsciiDigit c := by
  simp [CharClass.mem, digitRanges, isAsciiDigit]

theorem CharClass.mem_append_of_mem {rs : List (Char × Char)} {r : Char × Char} (h : r ∈ rs) (c : Char) :
    CharClass.mem ⟨rs ++ [r], false⟩ c = CharClass.mem ⟨rs, false⟩ c := by
  simp only [CharClass.mem, List.any_append, List.any_cons, List.any_nil, Bool.or_false]
  cases hr : (r.1 ≤ c && c ≤ r.2)
  · rw [Bool.or_false]
  · rw [Bool.or_true, List.any_eq_true.2 ⟨r, h, hr⟩]

namespace Pattern

@[simp] theorem matches_empty (caps : Captures) (s : List Char) :
    Pattern.empty.matches caps s = [(caps, s)] := by
  simp [Pattern.matches]

@[simp] theorem matches_cls_nil (c : CharClass) (caps : Captures) :
    (Pattern.cls c).matches caps [] = [] := by
  simp [Pattern.matches]

@[simp] theorem matches_cls_cons (c : CharClass) (caps : Captures) (x : Char) (s : List Char) :
    (Pattern.cls c).matches caps (x :: s) = if c.mem x then [(caps, s)] else [] := by
  simp [Pattern.matches]

@[simp] theorem matches_seq (a b : Pattern) (caps : Captures) (s : List Char) :
    (Pattern.seq a b).matches caps s = (a.matches caps s).flatMap fun r => b.matches r.1 r.2 := by
  simp [Pattern.matches]

@[simp] theorem matches_alt (a b : Pattern) (caps : Captures) (s : List Char) :
    (Pattern.alt a b).matches caps s = a.matches caps s ++ b.matches caps s := by
  simp [Pattern.matches]

@[simp] theorem matches_group (i : Nat) (a : Pattern) (caps : Captures) (s : List Char) :
    (Pattern.group i a).matches caps s =
      (a.matches caps s).map fun r => ((i, s.take (s.length - r.2.length)) :: r.1, r.2) := by
  simp [Pattern.matches]

@[simp] theorem matches_eoi (caps : Captures) (s : List Char) :
    Pattern.eoi.matches caps s = if s = [] then [(caps, s)] else [] := by
  simp [Pattern.matches]

theorem matches_rep (min : Nat) (max : Option Nat) (greedy : Bool) (a : Pattern)
    (caps : Captures) (s : List Char) :
    (Pattern.rep min max greedy a).matches caps s =
      repeatMatch a.matches greedy (min + s.length) min max caps s := by
  simp [Pattern.matches]

theorem repeatMatch_cls_run (k : CharClass) (caps : Captures) (rest : List Char)
    (hrest : ∀ c ∈ rest.head?, k.mem c = false) (pre : List Char)
    (hpre : ∀ c ∈ pre, k.mem c = true) (fuel : Nat) (hfuel : pre.length ≤ fuel) :
    ∃ more, repeatMatch (Pattern.cls k).matches true fuel 0 none caps (pre ++ rest) =
      (caps, rest) :: more := by
  induction pre generalizing fuel with
  | nil =>
    cases fuel with
    | zero => exact ⟨[], by simp [repeatMatch]⟩
    | succ fuel =>
      have hm : (Pattern.cls k).matches caps rest = [] := by
        cases rest with
        | nil => simp
        | cons c r => simp [hrest c rfl]
      exact ⟨[], by simp [repeatMatch, hm]⟩
  | cons c pre ih =>
    obtain ⟨f, rfl⟩ : ∃ f, fuel = f + 1 := ⟨fuel - 1, by simp at hfuel; omega⟩
    obtain ⟨more, hmore⟩ := ih (fun x hx => hpre x (.tail _ hx)) f (by simp at hfuel; omega)
    exact ⟨more ++ [(caps, c :: (pre ++ rest))], by simp [repeatMatch, hpre c (.head _), hmore]⟩

theorem matches_star_cls (k : CharClass) (caps : Captures) (pre rest : List Char)
    (hpre : ∀ c ∈ pre, k.mem c = true) (hrest : ∀ c ∈ rest.head?, k.mem c = false) :
    ∃ more, (star (.cls k)).matches caps (pre ++ rest) = (caps, rest) :: more := by
  rw [star, matches_rep]
  exact repeatMatch_cls_run k caps rest hrest pre hpre _ (by simp)

theorem matches_plus_cls (k : CharClass) (caps : Captures) (c : Char) (pre rest : List Char)
    (hc : k.mem c = true) (hpre : ∀ c ∈ pre, k.mem c = true)
    (hrest : ∀ c ∈ rest.head?, k.mem c = false) :
    ∃ more, (plus (.cls k)).matches caps (c :: (pre ++ rest)) = (caps, rest) :: more := by
  obtain ⟨more, h⟩ :=
    repeatMatch_cls_run k caps rest hrest pre hpre ((pre ++ rest).length + 1) (by simp; omega)
  refine ⟨more, ?_⟩
  rw [plus, matches_rep, List.length_cons, Nat.add_comm 1]
  unfold repeatMatch
  simpa [hc] using h

theorem matches_star_cls_stop (k : CharClass) (caps : Captures) (s : List Char)
    (hs : ∀ c ∈ s.head?, k.mem c = false) : (star (.cls k)).matches caps s = [(caps, s)] := by
  rw [star, matches_rep, Nat.zero_add]
  cases s with
  | nil => rfl
  | cons c s => simp [repeatMatch, hs c rfl]

theorem matches_star_cls_cons (k : CharClass) (caps : Captures) (c : Char) (s : List Char)
    (hc : k.mem c = true) :
    (star (.cls k)).matches caps (c :: s) = (star (.cls k)).matches caps s ++ [(caps, c :: s)] := by
  simp [star, matches_rep, repeatMatch, hc]

theorem matches_plus_cls_nil (k : CharClass) (caps : Captures) (s : List Char)
    (hs : ∀ c ∈ s.head?, k.mem c = false) : (plus (.cls k)).matches caps s = [] := by
  rw [plus, matches_rep]
  cases s with
  | nil => rfl
  | cons c s => simp [repeatMatch, hs c rfl]

def admits : Pattern → Char → Bool
  | .empty, _ | .eoi, _ => false
  | .cls k, c => k.mem c
  | .seq a b, c | .alt a b, c => a.admits c || b.admits c
  | .rep _ _ _ a, c | .group _ a, c => a.admits c

def Consumes (P : Char → Prop) (m : Captures → List Char → List (Captures × List Char)) : Prop :=
  ∀ caps s r, r ∈ m caps s → ∃ pre, s = pre ++ r.2 ∧ ∀ c ∈ pre, P c

theorem mem_repeatMatch {m : Captures → List Char → List (Captures × List Char)} {greedy : Bool}
    {fuel min : Nat} {max : Option Nat} {caps : Captures} {s : List Char} {r : Captures × List Char}
    (hr : r ∈ repeatMatch m greedy (fuel + 1) min max caps s) :
    r = (caps, s) ∨ ∃ r' ∈ m caps s, r ∈ repeatMatch m greedy fuel (min - 1) (max.map (· - 1)) r'.1 r'.2 := by
  have hmore : r ∈ (m caps s).flatMap (fun r' => if min = 0 ∧ r'.2.length = s.length then []
      else repeatMatch m greedy fuel (min - 1) (max.map (· - 1)) r'.1 r'.2) →
      ∃ r' ∈ m caps s, r ∈ repeatMatch m greedy fuel (min - 1) (max.map (· - 1)) r'.1 r'.2 := by
    intro h
    obtain ⟨r', hr', h⟩ := List.mem_flatMap.1 h
    split at h
    · simp at h
    · exact ⟨r', hr', h⟩
  have hstop : ∀ M : List (Captures × List Char),
      r ∈ (if min ≠ 0 then M else if greedy then M ++ [(caps, s)] else (caps, s) :: M) →
      r = (caps, s) ∨ r ∈ M := by
    intro M h
    cases greedy <;> by_cases h1 : min = 0 <;> simp [h1] at h <;>
      first | exact h | exact h.symm | exact .inr h
  rcases max with _ | _ | n <;> simp only [repeatMatch] at hr
  · exact (hstop _ hr).imp_right hmore
  · exact .inl (List.mem_singleton.1 hr)
  · exact (hstop _ hr).imp_right hmore

theorem repeatMatch_consumes {P : Char → Prop}
    {m : Captures → List Char → List (Captures × List Char)} (hm : Consumes P m) (greedy : Bool) :
    ∀ fuel min max, Consumes P (repeatMatch m greedy fuel min max) := by
  intro fuel
  induction fuel with
  | zero =>
    intro min max caps s r hr
    refine ⟨[], ?_, by simp⟩
    rcases max with _ | _ | n <;> by_cases h : min = 0 <;> simp_all [repeatMatch]
  | succ fuel ih =>
    intro min max caps s r hr
    rcases mem_repeatMatch hr with rfl | ⟨r', hr', hr⟩
    · exact ⟨[], rfl, by simp⟩
    · obtain ⟨pre, hs, hpre⟩ := hm caps s r' hr'
      obtain ⟨pre', hs', hpre'⟩ := ih _ _ _ _ r hr
      exact ⟨pre ++ pre', by rw [hs, hs', List.append_assoc],
        fun c hc => (List.mem_append.1 hc).elim (hpre c) (hpre' c)⟩

theorem matches_consumes (p : Pattern) : Consumes (fun c => p.admits c = true) p.matches := by
  induction p with
  | empty => intro caps s r hr; simp at hr; subst hr; exact ⟨[], rfl, by simp⟩
  | cls k =>
    intro caps s r hr
    cases s with
    | nil => simp at hr
    | cons x rest =>
      by_cases hx : k.mem x <;> simp [hx] at hr
      subst hr
      exact ⟨[x], rfl, by simp [admits, hx]⟩
  | seq a b iha ihb =>
    intro caps s r hr
    rw [matches_seq] at hr
    obtain ⟨r', hr', hr⟩ := List.mem_flatMap.1 hr
    obtain ⟨pre, hs, hpre⟩ := iha caps s r' hr'
    obtain ⟨pre', hs', hpre'⟩ := ihb _ _ r hr
    exact ⟨pre ++ pre', by rw [hs, hs', List.append_assoc], fun c hc =>
      (List.mem_append.1 hc).elim (fun hc => by simp [admits, hpre c hc])
        (fun hc => by simp [admits, hpre' c hc])⟩
  | alt a b iha ihb =>
    intro caps s r hr
    rw [matches_alt] at hr
    rcases List.mem_append.1 hr with hr | hr
    · obtain ⟨pre, hs, hpre⟩ := iha caps s r hr
      exact ⟨pre, hs, fun c hc => by simp [admits, hpre c hc]⟩
    · obtain ⟨pre, hs, hpre⟩ := ihb caps s r hr
      exact ⟨pre, hs, fun c hc => by simp [admits, hpre c hc]⟩
  | rep min max greedy a ih =>
    intro caps s r hr
    rw [matches_rep] at hr
    exact repeatMatch_consumes ih greedy _ _ _ caps s r hr
  | group i a ih =>
    intro caps s r hr
    rw [matches_group] at hr
    obtain ⟨r', hr', rfl⟩ := List.mem_map.1 hr
    exact ih caps s r' hr'
  | eoi =>
    intro caps s r hr
    by_cases hs : s = [] <;> simp [hs] at hr
    subst hr hs
    exact ⟨[], rfl, by simp⟩

theorem matches_seq_eoi_rest {a : Pattern} {caps : Captures} {s : List Char}
    {r : Captures × List Char} (hr : r ∈ (Pattern.seq a .eoi).matches caps s) : r.2 = [] := by
  rw [matches_seq] at hr
  obtain ⟨r', -, hr⟩ := List.mem_flatMap.1 hr
  rw [matches_eoi] at hr
  split at hr
  · rw [List.mem_singleton.1 hr]
    assumption
  · simp at hr

def Blind (f : Char → Char) : Pattern → Prop
  | .empty | .eoi => True
  | .cls k => ∀ c, k.mem (f c) = k.mem c
  | .seq a b | .alt a b => Blind f a ∧ Blind f b
  | .rep _ _ _ a | .group _ a => Blind f a

def mapCaptures (f : Char → Char) (caps : Captures) : Captures := caps.map fun g => (g.1, g.2.map f)

def mapMatch (f : Char → Char) (r : Captures × List Char) : Captures × List Char :=
  (mapCaptures f r.1, r.2.map f)

theorem repeatMatch_map {f : Char → Char} {m m' : Captures → List Char → List (Captures × List Char)}
    (hm : ∀ caps s, m' (mapCaptures f caps) (s.map f) = (m caps s).map (mapMatch f))
    (greedy : Bool) (fuel min : Nat) (max : Option Nat) (caps : Captures) (s : List Char) :
    repeatMatch m' greedy fuel min max (mapCaptures f caps) (s.map f) =
      (repeatMatch m greedy fuel min max caps s).map (mapMatch f) := by
  induction fuel generalizing min max caps s with
  | zero => rcases max with _ | _ | n <;> by_cases h : min = 0 <;> simp [repeatMatch, h, mapMatch]
  | succ fuel ih =>
    have hmore : ∀ max', ((m' (mapCaptures f caps) (s.map f)).flatMap fun r =>
          if min = 0 ∧ r.2.length = s.length then []
          else repeatMatch m' greedy fuel (min - 1) max' r.1 r.2) =
        ((m caps s).flatMap fun r => if min = 0 ∧ r.2.length = s.length then []
          else repeatMatch m greedy fuel (min - 1) max' r.1 r.2).map (mapMatch f) := by
      intro max'
      rw [hm, List.flatMap_map, List.map_flatMap]
      congr 1
      funext r
      simp only [mapMatch, List.length_map]
      split
      · rfl
      · exact ih _ _ _ _
    rcases max with _ | _ | n
    · simp only [repeatMatch, List.length_map, Option.map_none', hmore]
      by_cases h : min = 0 <;> cases greedy <;> simp [h, mapMatch]
    · simp [repeatMatch, mapMatch]
    · simp only [repeatMatch, List.length_map, Option.map_some', hmore]
      by_cases h : min = 0 <;> cases greedy <;> simp [h, mapMatch]

theorem matches_map (f : Char → Char) (p : Pattern) (hp : p.Blind f) (caps : Captures)
    (s : List Char) : p.matches (mapCaptures f caps) (s.map f) = (p.matches caps s).map (mapMatch f) := by
  induction p generalizing caps s with
  | empty => simp [mapMatch]
  | cls k =>
    cases s with
    | nil => simp
    | cons x rest =>
      have hx : k.mem (f x) = k.mem x := hp x
      simp only [List.map_cons, matches_cls_cons, hx]
      split <;> simp [mapMatch]
  | seq a b iha ihb =>
    simp only [matches_seq, iha hp.1, List.flatMap_map, List.map_flatMap]
    exact congrArg _ (funext fun r => ihb hp.2 r.1 r.2)
  | alt a b iha ihb => simp [iha hp.1, ihb hp.2]
  | rep min max greedy a ih =>
    simp only [matches_rep, List.length_map]
    exact repeatMatch_map (fun caps s => ih hp caps s) greedy _ min max caps s
  | group i a ih =>
    simp only [matches_group, ih hp, List.map_map]
    congr 1
    funext r
    simp [mapMatch, mapCaptures, List.map_take]
  | eoi => by_cases hs : s = [] <;> simp [hs, mapMatch, mapCaptures]

theorem test_map (f : Char → Char) (p : Pattern) (hp : p.Blind f) (s : String) :
    p.test ⟨s.toList.map f⟩ = p.test s := by
  have h := matches_map f p hp [] s.toList
  simp only [mapCaptures, List.map_nil] at h
  show ((p.matches [] (s.toList.map f)).head?.map Prod.fst).isSome =
    ((p.matches [] s.toList).head?.map Prod.fst).isSome
  rw [h]
  cases p.matches [] s.toList <;> rfl

end Pattern

end Celeries.Js
