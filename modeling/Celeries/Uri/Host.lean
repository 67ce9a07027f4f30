import Mathlib.Data.List.Basic
import Celeries.Js.Language
import Celeries.Uri.Parse
set_option autoImplicit false

/-!
The host names `validateHost` accepts. RFC 1123 names a host by labels separated by `.`, each of
1 to 63 letters, digits and `-`, with no `-` first or last; `HOST_REGEX` writes a label as one
letter or digit, or a letter or digit, at most 61 label code points taken lazily, and a letter or
digit. The two agree on every string (`HOST_REGEX_test`), so `validateHost` checks exactly this
grammar, and every host `parseUri` returns is such a name, in lowercase.
-/

namespace Celeries
open Js Pattern

def isLabelChar (c : Char) : Bool := isAsciiAlphanumeric c || c == '-'

def isRfc1123Label (l : List Char) : Bool :=
  0 < l.length && l.length ≤ 63 && l.all isLabelChar && l.head? != some '-' && l.getLast? != some '-'

def isRfc1123Host (h : String) : Bool := (h.toList.splitOn '.').all isRfc1123Label

theorem alnumClass_mem (c : Char) : CharClass.mem ⟨alnumRanges, false⟩ c = isAsciiAlphanumeric c := by
  rw [Bool.eq_iff_iff]
  simp only [CharClass.mem, alnumRanges, isAsciiAlphanumeric, isAsciiAlpha, isAsciiUpperAlpha,
    isAsciiLowerAlpha, isAsciiDigit, List.any_cons, List.any_nil, Bool.or_false, bne_iff_ne, ne_eq,
    Bool.not_eq_false, Bool.or_eq_true, Bool.and_eq_true, decide_eq_true_eq, or_assoc]

theorem labelClass_mem (c : Char) :
    CharClass.mem ⟨alnumRanges ++ [('-', '-')], false⟩ c = isLabelChar c := by
  rw [Bool.eq_iff_iff]
  simp only [CharClass.mem, alnumRanges, isLabelChar, isAsciiAlphanumeric, isAsciiAlpha,
    isAsciiUpperAlpha, isAsciiLowerAlpha, isAsciiDigit, List.cons_append, List.nil_append,
    List.any_cons, List.any_nil, Bool.or_false, bne_iff_ne, ne_eq, Bool.not_eq_false, Bool.or_eq_true,
    Bool.and_eq_true, decide_eq_true_eq, beq_iff_eq, char_le_iff_toNat, char_eq_iff_toNat,
    Char.reduceToNat]
  omega

theorem alnum_iff_label (c : Char) : isAsciiAlphanumeric c = true ↔ isLabelChar c = true ∧ c ≠ '-' := by
  simp only [isLabelChar, isAsciiAlphanumeric, isAsciiAlpha, isAsciiUpperAlpha, isAsciiLowerAlpha,
    isAsciiDigit, Bool.or_eq_true, Bool.and_eq_true, decide_eq_true_eq, beq_iff_eq, ne_eq,
    char_le_iff_toNat, char_eq_iff_toNat, Char.reduceToNat]
  omega

theorem isRfc1123Label_iff (l : List Char) : isRfc1123Label l = true ↔
    (∃ c, l = [c] ∧ isAsciiAlphanumeric c = true) ∨
      ∃ c mid d, l = c :: (mid ++ [d]) ∧ isAsciiAlphanumeric c = true ∧ mid.length ≤ 61 ∧
        (∀ x ∈ mid, isLabelChar x = true) ∧ isAsciiAlphanumeric d = true := by
  simp only [alnum_iff_label]
  constructor
  · intro h
    simp only [isRfc1123Label, Bool.and_eq_true, decide_eq_true_eq, List.all_eq_true, bne_iff_ne,
      ne_eq] at h
    obtain ⟨⟨⟨⟨hpos, hlen⟩, hall⟩, hhead⟩, hlast⟩ := h
    rcases l with _ | ⟨c, t⟩
    · simp at hpos
    rcases List.eq_nil_or_concat t with rfl | ⟨mid, d, rfl⟩
    · exact .inl ⟨c, rfl, hall c (.head _), by simpa using hhead⟩
    · rw [List.concat_eq_append] at *
      refine .inr ⟨c, mid, d, rfl, ⟨hall c (.head _), by simpa using hhead⟩, by simp at hlen; omega,
        fun x hx => hall x (by simp [hx]), hall d (by simp), ?_⟩
      simpa [List.getLast?_cons] using hlast
  · rintro (⟨c, rfl, hc, hc'⟩ | ⟨c, mid, d, rfl, ⟨hc, hc'⟩, hlen, hmid, hd, hd'⟩)
    · simp [isRfc1123Label, hc, hc']
    · rw [isRfc1123Label, ← List.cons_append, List.getLast?_concat]
      simpa [hc, hc', hd, hd', hlen] using hmid

theorem derives_hostLabel (s r : List Char) :
    Derives hostLabel s r ↔ ∃ l, s = l ++ r ∧ isRfc1123Label l = true := by
  constructor
  · intro h
    rcases derives_alt_iff.1 h with h | h
    · obtain ⟨c, rfl, hc⟩ := derives_cls_iff.1 h
      exact ⟨[c], rfl, (isRfc1123Label_iff _).2 (.inl ⟨c, rfl, by rwa [← alnumClass_mem]⟩)⟩
    · obtain ⟨m, h1, h2⟩ := derives_seq_iff.1 h
      obtain ⟨c, rfl, hc⟩ := derives_cls_iff.1 h1
      obtain ⟨m', h3, h4⟩ := derives_seq_iff.1 h2
      obtain ⟨mid, rfl, hlen, hmid⟩ := (derives_rep_cls_upTo _ 61 false).1 h3
      obtain ⟨d, rfl, hd⟩ := derives_cls_iff.1 h4
      refine ⟨c :: (mid ++ [d]), by simp, (isRfc1123Label_iff _).2 (.inr ⟨c, mid, d, rfl, ?_, hlen, ?_, ?_⟩)⟩
      · rwa [← alnumClass_mem]
      · exact fun x hx => (labelClass_mem x) ▸ hmid x hx
      · rwa [← alnumClass_mem]
  · rintro ⟨l, rfl, hl⟩
    rcases (isRfc1123Label_iff _).1 hl with ⟨c, rfl, hc⟩ | ⟨c, mid, d, rfl, hc, hlen, hmid, hd⟩
    · exact .altLeft (.cls r ((alnumClass_mem c).trans hc))
    · refine .altRight (.seq (.cls _ ((alnumClass_mem c).trans hc))
        (.seq ((derives_rep_cls_upTo _ 61 false).2 ⟨mid, by simp, hlen, ?_⟩)
          (.cls r ((alnumClass_mem d).trans hd))))
      exact fun x hx => (labelClass_mem x).trans (hmid x hx)

theorem derives_dotLabels (s r : List Char) :
    Derives (star (.seq (lit '.') hostLabel)) s r ↔
      ∃ ls : List (List Char), s = (ls.map ('.' :: ·)).flatten ++ r ∧ ∀ l ∈ ls, isRfc1123Label l = true := by
  refine derives_star_iff ('.' :: ·) (isRfc1123Label · = true) (fun s r => ?_) (fun _ _ => List.cons_ne_nil _ _) s r
  rw [derives_seq_iff]
  constructor
  · rintro ⟨m, h1, h2⟩
    obtain ⟨c, rfl, hc⟩ := derives_cls_iff.1 h1
    obtain ⟨l, rfl, hl⟩ := (derives_hostLabel _ _).1 h2
    rw [(CharClass.mem_lit_iff _ _).1 hc]
    exact ⟨l, rfl, hl⟩
  · rintro ⟨l, rfl, hl⟩
    exact ⟨l ++ r, .cls _ (CharClass.mem_lit '.'), (derives_hostLabel _ _).2 ⟨l, rfl, hl⟩⟩

section Split
variable {sep : Char}

theorem intercalate_cons (l : List Char) (ls : List (List Char)) :
    [sep].intercalate (l :: ls) = l ++ (ls.map (sep :: ·)).flatten := by
  induction ls generalizing l with
  | nil => simp [List.intercalate]
  | cons l' ls ih =>
    rw [List.intercalate, List.intersperse_cons₂, List.flatten_cons, List.flatten_cons, ← List.intercalate, ih]
    simp

theorem all_splitOn_iff {P : List Char → Bool} (hP : ∀ x, P x = true → sep ∉ x) (e : List Char) :
    (e.splitOn sep).all P = true ↔
      ∃ l ls, e = l ++ (ls.map (sep :: ·)).flatten ∧ ∀ x ∈ l :: ls, P x = true := by
  rw [List.all_eq_true]
  constructor
  · intro hall
    obtain ⟨l, ls, hsplit⟩ : ∃ l ls, e.splitOn sep = l :: ls :=
      List.exists_cons_of_ne_nil (List.splitOnP_ne_nil _ _)
    refine ⟨l, ls, ?_, hsplit ▸ hall⟩
    rw [← intercalate_cons, ← hsplit, List.intercalate_splitOn]
  · rintro ⟨l, ls, rfl, hall⟩
    rw [← intercalate_cons, List.splitOn_intercalate _ sep (fun x hx => hP x (hall x hx))
      (List.cons_ne_nil _ _)]
    exact hall

end Split

theorem derives_HOST_REGEX (s r : List Char) : Derives HOST_REGEX s r ↔ r = [] ∧
    ∃ l ls, s = l ++ (ls.map ('.' :: ·)).flatten ∧ ∀ x ∈ l :: ls, isRfc1123Label x = true := by
  simp only [HOST_REGEX, seqs, derives_seq_iff, derives_hostLabel, derives_dotLabels, derives_eoi_iff]
  constructor
  · rintro ⟨_, ⟨l, rfl, hl⟩, _, ⟨ls, rfl, hls⟩, rfl, rfl⟩
    exact ⟨rfl, l, ls, by simp, List.forall_mem_cons.2 ⟨hl, hls⟩⟩
  · rintro ⟨rfl, l, ls, rfl, hall⟩
    obtain ⟨hl, hls⟩ := List.forall_mem_cons.1 hall
    exact ⟨_, ⟨l, rfl, hl⟩, _, ⟨ls, by simp, hls⟩, rfl, rfl⟩

theorem dot_not_mem_label {l : List Char} (h : isRfc1123Label l = true) : '.' ∉ l := fun hd => by
  simp only [isRfc1123Label, Bool.and_eq_true, List.all_eq_true] at h
  exact absurd (h.1.1.2 '.' hd) (by decide)

theorem isRfc1123Host_iff (h : String) : isRfc1123Host h = true ↔
    ∃ l ls, h.toList = l ++ (ls.map ('.' :: ·)).flatten ∧ ∀ x ∈ l :: ls, isRfc1123Label x = true :=
  all_splitOn_iff (fun _ hx => dot_not_mem_label hx) h.toList

theorem HOST_REGEX_test (h : String) : HOST_REGEX.test h = isRfc1123Host h := by
  rw [Bool.eq_iff_iff, test_iff, isRfc1123Host_iff]
  simp only [derives_HOST_REGEX, exists_eq_left]

example : isRfc1123Host "a-1.b" = true ∧ isRfc1123Host "a-.b" = false ∧ isRfc1123Host "a..b" = false := by
  decide

theorem validateHost_eq (h : String) : validateHost h =
    if isRfc1123Host h then .ok h else .error (.parse ("invalid host \"" ++ h ++ "\"")) := by
  rw [validateHost, HOST_REGEX_test]
  cases isRfc1123Host h <;> rfl

theorem validateHost_accepts_rfc1123_hosts :
    (∀ h, validateHost h =
      if isRfc1123Host h then .ok h else .error (.parse ("invalid host \"" ++ h ++ "\""))) ∧
    ∀ s uri a, parseUri s = .ok uri → uri.authority = some a →
      isRfc1123Host a.host = true ∧ ∀ c ∈ a.host.toList, ¬('A' ≤ c ∧ c ≤ 'Z') := by
  refine ⟨validateHost_eq, fun s uri a hs ha => ?_⟩
  obtain ⟨url, -, -, hauth⟩ := parseUri_inv hs
  rcases hauth with hnone | ⟨hv, ui, hsome, -⟩
  · simp [hnone] at ha
  · rw [hsome, Option.some_inj] at ha
    subst ha
    have hlow := validateHost_toLowerCase hv
    rw [validateHost_eq] at hlow
    split at hlow
    · exact ⟨by assumption, fun c hc => not_upper_of_mem_toLowerCase hc⟩
    · cases hlow

theorem validateHost_accepts_rfc1123_hosts_rabbit :
    ∃ uri a, parseUri "amqp://Rabbit.Local:5672/v" = .ok uri ∧ uri.authority = some a ∧
      a.host = "rabbit.local" ∧ isRfc1123Host a.host = true ∧ ∀ c ∈ a.host.toList, ¬('A' ≤ c ∧ c ≤ 'Z') :=
  ⟨_, _, rfl, rfl, rfl, validateHost_accepts_rfc1123_hosts.2 "amqp://Rabbit.Local:5672/v" _ _ rfl rfl⟩

end Celeries
