import Mathlib.Data.List.Basic
import Celeries.Js.RegExp
set_option autoImplicit false

/-!
What a pattern accepts, whatever the order in which the backtracking matcher tries its ways:
`Derives p s r` when `p` can take a prefix of `s` and leave `r`. The matcher finds exactly these
ways (`derives_of_mem_matches`, `mem_matches_of_derives`), so `test` holds exactly when one exists
(`test_iff`), and the language of a pattern can be read off its syntax, one form at a time.
-/

namespace Celeries.Js
namespace Pattern

/-- `Derives p s r`: `p` can take a prefix of `s` and leave `r`, whichever order the matcher tries
the ways in. As in the matcher, an iteration past a quantifier's minimum has to consume
something. -/
inductive Derives : Pattern → List Char → List Char → Prop
  | empty (s : List Char) : Derives .empty s s
  | cls {k : CharClass} {c : Char} (s : List Char) (h : k.mem c = true) : Derives (.cls k) (c :: s) s
  | seq {a b : Pattern} {s m r : List Char} : Derives a s m → Derives b m r → Derives (.seq a b) s r
  | altLeft {a b : Pattern} {s r : List Char} : Derives a s r → Derives (.alt a b) s r
  | altRight {a b : Pattern} {s r : List Char} : Derives b s r → Derives (.alt a b) s r
  | repStop {min : Nat} {max : Option Nat} {greedy : Bool} {a : Pattern} (s : List Char)
      (h : min = 0 ∨ max = some 0) : Derives (.rep min max greedy a) s s
  | repMore {min : Nat} {max : Option Nat} {greedy : Bool} {a : Pattern} {s m r : List Char}
      (hmax : max ≠ some 0) (hne : ¬(min = 0 ∧ m.length = s.length)) :
      Derives a s m → Derives (.rep (min - 1) (max.map (· - 1)) greedy a) m r →
      Derives (.rep min max greedy a) s r
  | group {i : Nat} {a : Pattern} {s r : List Char} : Derives a s r → Derives (.group i a) s r
  | eoi : Derives .eoi [] []

theorem Derives.length_le {p : Pattern} {s r : List Char} (h : Derives p s r) : r.length ≤ s.length := by
  induction h with
  | cls s _ => simp
  | seq _ _ iha ihb => omega
  | repMore _ _ _ _ iha ihr => omega
  | _ => simp_all

theorem mem_repeatMatch_succ {m : Captures → List Char → List (Captures × List Char)} {greedy : Bool}
    {fuel min : Nat} {max : Option Nat} {caps : Captures} {s : List Char} {r : Captures × List Char} :
    r ∈ repeatMatch m greedy (fuel + 1) min max caps s ↔
      r = (caps, s) ∧ (min = 0 ∨ max = some 0) ∨
      max ≠ some 0 ∧ ∃ r' ∈ m caps s, ¬(min = 0 ∧ r'.2.length = s.length) ∧
        r ∈ repeatMatch m greedy fuel (min - 1) (max.map (· - 1)) r'.1 r'.2 := by
  rcases max with _ | _ | n
  · cases greedy <;> by_cases h : min = 0 <;> simp [repeatMatch, h, List.mem_flatMap, or_comm]
  · simp [repeatMatch]
  · cases greedy <;> by_cases h : min = 0 <;> simp [repeatMatch, h, List.mem_flatMap, or_comm]

theorem mem_repeatMatch_zero {m : Captures → List Char → List (Captures × List Char)} {greedy : Bool}
    {min : Nat} {max : Option Nat} {caps : Captures} {s : List Char} {r : Captures × List Char} :
    r ∈ repeatMatch m greedy 0 min max caps s ↔ r = (caps, s) ∧ (min = 0 ∨ max = some 0) := by
  rcases max with _ | _ | n <;> by_cases h : min = 0 <;> simp [repeatMatch, h]

theorem derives_of_mem_repeatMatch {a : Pattern}
    (ha : ∀ caps s r, r ∈ a.matches caps s → Derives a s r.2) (greedy : Bool) :
    ∀ fuel min max caps s r, r ∈ repeatMatch a.matches greedy fuel min max caps s →
      Derives (.rep min max greedy a) s r.2 := by
  intro fuel
  induction fuel with
  | zero =>
    intro min max caps s r hr
    obtain ⟨rfl, h⟩ := mem_repeatMatch_zero.1 hr
    exact .repStop s h
  | succ fuel ih =>
    intro min max caps s r hr
    rcases mem_repeatMatch_succ.1 hr with ⟨rfl, h⟩ | ⟨hmax, r', hr', hne, hr⟩
    · exact .repStop s h
    · exact .repMore hmax hne (ha caps s r' hr') (ih _ _ _ _ r hr)

theorem derives_of_mem_matches (p : Pattern) :
    ∀ caps s r, r ∈ p.matches caps s → Derives p s r.2 := by
  induction p with
  | empty =>
    intro caps s r hr
    rw [matches_empty, List.mem_singleton] at hr
    exact hr ▸ .empty s
  | cls k =>
    intro caps s r hr
    cases s with
    | nil => simp at hr
    | cons c s =>
      by_cases hc : k.mem c <;> simp [hc] at hr
      exact hr ▸ .cls s hc
  | seq a b iha ihb =>
    intro caps s r hr
    obtain ⟨r', hr', hr⟩ := List.mem_flatMap.1 ((matches_seq a b caps s) ▸ hr)
    exact .seq (iha caps s r' hr') (ihb _ _ r hr)
  | alt a b iha ihb =>
    intro caps s r hr
    rcases List.mem_append.1 ((matches_alt a b caps s) ▸ hr) with hr | hr
    · exact .altLeft (iha caps s r hr)
    · exact .altRight (ihb caps s r hr)
  | rep min max greedy a ih =>
    intro caps s r hr
    exact derives_of_mem_repeatMatch ih greedy _ _ _ caps s r ((matches_rep min max greedy a caps s) ▸ hr)
  | group i a ih =>
    intro caps s r hr
    obtain ⟨r', hr', rfl⟩ := List.mem_map.1 ((matches_group i a caps s) ▸ hr)
    exact .group (ih caps s r' hr')
  | eoi =>
    intro caps s r hr
    by_cases hs : s = [] <;> simp [hs] at hr
    subst hs hr
    exact .eoi

theorem repeatMatch_nil {m : Captures → List Char → List (Captures × List Char)}
    (hm : ∀ caps s r, r ∈ m caps s → r.2.length ≤ s.length) (greedy : Bool) (fuel : Nat)
    (max : Option Nat) (caps : Captures) : repeatMatch m greedy fuel 0 max caps [] = [(caps, [])] := by
  have h0 : ∀ r ∈ m caps [], r.2 = [] := fun r hr =>
    List.eq_nil_of_length_eq_zero (Nat.le_zero.1 (hm caps [] r hr))
  cases fuel with
  | zero => rcases max with _ | _ | n <;> rfl
  | succ fuel =>
    rcases max with _ | _ | n <;> cases greedy <;>
      simp [repeatMatch, List.flatMap_eq_nil_iff, h0] <;>
      exact fun a b hab hb => absurd (h0 _ hab) hb

theorem repeatMatch_fuel {m : Captures → List Char → List (Captures × List Char)}
    (hm : ∀ caps s r, r ∈ m caps s → r.2.length ≤ s.length) (greedy : Bool) :
    ∀ fuel fuel' min max caps s, min + s.length ≤ fuel → min + s.length ≤ fuel' →
      repeatMatch m greedy fuel min max caps s = repeatMatch m greedy fuel' min max caps s := by
  intro fuel
  induction fuel with
  | zero =>
    intro fuel' min max caps s h _
    obtain ⟨rfl, hs⟩ : min = 0 ∧ s.length = 0 := by omega
    rw [List.eq_nil_of_length_eq_zero hs, repeatMatch_nil hm, repeatMatch_nil hm]
  | succ fuel ih =>
    intro fuel' min max caps s h h'
    cases fuel' with
    | zero =>
      obtain ⟨rfl, hs⟩ : min = 0 ∧ s.length = 0 := by omega
      rw [List.eq_nil_of_length_eq_zero hs, repeatMatch_nil hm, repeatMatch_nil hm]
    | succ fuel' =>
      have hmore : ∀ max' : Option Nat,
          ((m caps s).flatMap fun r => if min = 0 ∧ r.2.length = s.length then []
            else repeatMatch m greedy fuel (min - 1) max' r.1 r.2) =
          ((m caps s).flatMap fun r => if min = 0 ∧ r.2.length = s.length then []
            else repeatMatch m greedy fuel' (min - 1) max' r.1 r.2) := fun max' =>
        List.flatMap_congr fun r hr => by
          have := hm caps s r hr
          split
          · rfl
          · exact ih _ _ _ _ _ (by omega) (by omega)
      rcases max with _ | _ | n <;> simp only [repeatMatch, hmore]

theorem mem_matches_of_derives {p : Pattern} {s rest : List Char} (h : Derives p s rest) :
    ∀ caps, ∃ r ∈ p.matches caps s, r.2 = rest := by
  induction h with
  | empty s => exact fun caps => ⟨(caps, s), by simp, rfl⟩
  | cls s hk => exact fun caps => ⟨(caps, s), by simp [hk], rfl⟩
  | seq _ _ iha ihb =>
    intro caps
    obtain ⟨r1, h1, rfl⟩ := iha caps
    obtain ⟨r2, h2, rfl⟩ := ihb r1.1
    exact ⟨r2, List.mem_flatMap.2 ⟨r1, h1, h2⟩, rfl⟩
  | altLeft _ ih =>
    intro caps
    obtain ⟨r, hr, rfl⟩ := ih caps
    exact ⟨r, by simp [hr], rfl⟩
  | altRight _ ih =>
    intro caps
    obtain ⟨r, hr, rfl⟩ := ih caps
    exact ⟨r, by simp [hr], rfl⟩
  | @repStop min max greedy a s h =>
    intro caps
    refine ⟨(caps, s), ?_, rfl⟩
    rw [matches_rep]
    cases min + s.length with
    | zero => exact mem_repeatMatch_zero.2 ⟨rfl, h⟩
    | succ f => exact mem_repeatMatch_succ.2 (.inl ⟨rfl, h⟩)
  | @repMore min max greedy a s m r hmax hne ha _ iha ihr =>
    intro caps
    have hm : ∀ caps s r, r ∈ a.matches caps s → r.2.length ≤ s.length := fun caps s r hr =>
      (derives_of_mem_matches a caps s r hr).length_le
    have hlen := ha.length_le
    obtain ⟨r1, h1, hr1⟩ := iha caps
    obtain ⟨r2, h2, hr2⟩ := ihr r1.1
    refine ⟨r2, ?_, hr2⟩
    rw [matches_rep] at h2 ⊢
    obtain ⟨f, hf⟩ : ∃ f, min + s.length = f + 1 := ⟨min + s.length - 1, by omega⟩
    rw [hf]
    refine mem_repeatMatch_succ.2 (.inr ⟨hmax, r1, h1, by rw [hr1]; exact hne, ?_⟩)
    rw [repeatMatch_fuel hm greedy f (min - 1 + m.length) _ _ _ _ (by rw [hr1]; omega)
      (by rw [hr1]), hr1]
    exact h2
  | @group i a s r _ ih =>
    intro caps
    obtain ⟨r1, h1, rfl⟩ := ih caps
    exact ⟨_, List.mem_map.2 ⟨r1, h1, rfl⟩, rfl⟩
  | eoi => exact fun caps => ⟨(caps, []), by simp, rfl⟩

/-- `test` holds exactly when the pattern has a way to match a prefix of the input. -/
theorem test_iff (p : Pattern) (s : String) : p.test s = true ↔ ∃ r, Derives p s.toList r := by
  constructor
  · intro h
    unfold test exec at h
    obtain ⟨r, hr⟩ := Option.isSome_iff_exists.1 h
    obtain ⟨r', hr', -⟩ := Option.map_eq_some'.1 hr
    exact ⟨_, derives_of_mem_matches p [] _ r' (List.mem_of_mem_head? hr')⟩
  · rintro ⟨r, hr⟩
    obtain ⟨r', hr', -⟩ := mem_matches_of_derives hr []
    have hne : p.matches [] s.toList ≠ [] := List.ne_nil_of_mem hr'
    unfold test exec
    cases hm : p.matches [] s.toList with
    | nil => exact absurd hm hne
    | cons x xs => rfl

section Inversion
variable {s r : List Char}

theorem derives_cls_iff {k : CharClass} : Derives (.cls k) s r ↔ ∃ c, s = c :: r ∧ k.mem c = true := by
  constructor
  · rintro ⟨⟩
    exact ⟨_, rfl, by assumption⟩
  · rintro ⟨c, rfl, hc⟩
    exact .cls r hc

theorem derives_seq_iff {a b : Pattern} : Derives (.seq a b) s r ↔ ∃ m, Derives a s m ∧ Derives b m r := by
  constructor
  · rintro ⟨⟩
    exact ⟨_, by assumption, by assumption⟩
  · rintro ⟨m, ha, hb⟩
    exact .seq ha hb

theorem derives_alt_iff {a b : Pattern} : Derives (.alt a b) s r ↔ Derives a s r ∨ Derives b s r := by
  constructor
  · rintro (h | h)
    · exact .inl (by assumption)
    · exact .inr (by assumption)
  · rintro (h | h)
    · exact .altLeft h
    · exact .altRight h

theorem derives_eoi_iff : Derives .eoi s r ↔ s = [] ∧ r = [] := by
  constructor
  · rintro ⟨⟩
    exact ⟨rfl, rfl⟩
  · rintro ⟨rfl, rfl⟩
    exact .eoi

theorem derives_rep_iff {min : Nat} {max : Option Nat} {greedy : Bool} {a : Pattern} :
    Derives (.rep min max greedy a) s r ↔ r = s ∧ (min = 0 ∨ max = some 0) ∨
      max ≠ some 0 ∧ ∃ m, ¬(min = 0 ∧ m.length = s.length) ∧ Derives a s m ∧
        Derives (.rep (min - 1) (max.map (· - 1)) greedy a) m r := by
  constructor
  · intro h
    cases h with
    | repStop _ h => exact .inl ⟨rfl, h⟩
    | repMore hmax hne ha hr => exact .inr ⟨hmax, _, hne, ha, hr⟩
  · rintro (⟨rfl, h⟩ | ⟨hmax, m, hne, ha, hr⟩)
    · exact .repStop r h
    · exact .repMore hmax hne ha hr

end Inversion

theorem derives_star_iff {α : Type} {a : Pattern} {greedy : Bool} (f : α → List Char) (P : α → Prop)
    (ha : ∀ s r, Derives a s r ↔ ∃ x, s = f x ++ r ∧ P x) (hf : ∀ x, P x → f x ≠ [])
    (s r : List Char) :
    Derives (.rep 0 none greedy a) s r ↔ ∃ xs : List α, s = (xs.map f).flatten ++ r ∧ ∀ x ∈ xs, P x := by
  constructor
  · intro h
    obtain ⟨n, hn⟩ : ∃ n, s.length ≤ n := ⟨_, le_rfl⟩
    induction n generalizing s with
    | zero =>
      rcases derives_rep_iff.1 h with ⟨rfl, -⟩ | ⟨-, m, hne, hm, -⟩
      · exact ⟨[], rfl, by simp⟩
      · have := hm.length_le
        omega
    | succ n ih =>
      rcases derives_rep_iff.1 h with ⟨rfl, -⟩ | ⟨-, m, hne, hm, hr⟩
      · exact ⟨[], rfl, by simp⟩
      · obtain ⟨x, rfl, hx⟩ := (ha _ _).1 hm
        rw [List.length_append] at hne hn
        obtain ⟨xs, rfl, hxs⟩ := ih m hr (by omega)
        exact ⟨x :: xs, by simp, List.forall_mem_cons.2 ⟨hx, hxs⟩⟩
  · rintro ⟨xs, rfl, hxs⟩
    induction xs with
    | nil => exact .repStop r (.inl rfl)
    | cons x xs ih =>
      obtain ⟨hx, hxs⟩ := List.forall_mem_cons.1 hxs
      refine .repMore (by simp) ?_ ((ha _ _).2 ⟨x, by simp, hx⟩) (ih hxs)
      simp only [List.map_cons, List.flatten_cons, List.append_assoc, List.length_append, true_and]
      have := List.length_pos.2 (hf x hx)
      omega

section Runs
variable (k : CharClass) {s r : List Char}

theorem derives_star_cls :
    Derives (star (.cls k)) s r ↔ ∃ l, s = l ++ r ∧ ∀ c ∈ l, k.mem c = true := by
  rw [star, derives_star_iff (fun c => [c]) (k.mem · = true) (fun _ _ => derives_cls_iff)
    (fun _ _ => List.cons_ne_nil _ _)]
  simp only [← List.flatMap_def, List.flatMap_singleton']

theorem derives_plus_cls :
    Derives (plus (.cls k)) s r ↔ ∃ c l, s = c :: (l ++ r) ∧ k.mem c = true ∧ ∀ x ∈ l, k.mem x = true := by
  constructor
  · intro h
    rcases derives_rep_iff.1 h with ⟨-, h | h⟩ | ⟨-, m, -, hm, hr⟩
    · cases h
    · cases h
    · obtain ⟨c, rfl, hc⟩ := derives_cls_iff.1 hm
      obtain ⟨l, rfl, hl⟩ := (derives_star_cls k).1 hr
      exact ⟨c, l, rfl, hc, hl⟩
  · rintro ⟨c, l, rfl, hc, hl⟩
    exact .repMore (by simp) (by simp) (.cls _ hc) ((derives_star_cls k).2 ⟨l, rfl, hl⟩)

theorem derives_rep_cls_upTo (n : Nat) (greedy : Bool) :
    Derives (.rep 0 (some n) greedy (.cls k)) s r ↔
      ∃ l, s = l ++ r ∧ l.length ≤ n ∧ ∀ c ∈ l, k.mem c = true := by
  constructor
  · induction s generalizing n with
    | nil =>
      intro h
      rcases derives_rep_iff.1 h with ⟨rfl, -⟩ | ⟨-, m, -, hm, -⟩
      · exact ⟨[], rfl, by simp, by simp⟩
      · obtain ⟨c, hc, -⟩ := derives_cls_iff.1 hm
        cases hc
    | cons c s ih =>
      intro h
      rcases derives_rep_iff.1 h with ⟨rfl, -⟩ | ⟨hmax, m, -, hm, hr⟩
      · exact ⟨[], rfl, by simp, by simp⟩
      · obtain ⟨c', hc', hk⟩ := derives_cls_iff.1 hm
        cases hc'
        obtain ⟨l, rfl, hlen, hl⟩ := ih (n - 1) hr
        have : n ≠ 0 := fun h0 => hmax (by rw [h0])
        exact ⟨c :: l, rfl, by rw [List.length_cons]; omega, List.forall_mem_cons.2 ⟨hk, hl⟩⟩
  · rintro ⟨l, rfl, hlen, hl⟩
    induction l generalizing n with
    | nil => exact .repStop r (.inl rfl)
    | cons c l ih =>
      rw [List.length_cons] at hlen
      exact .repMore (by simp; omega) (by simp) (.cls _ (hl c (.head _)))
        (ih (n - 1) (by omega) fun x hx => hl x (.tail _ hx))

end Runs

end Pattern
end Celeries.Js
