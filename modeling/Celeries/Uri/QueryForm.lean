import Celeries.Uri.Authority
import Celeries.Uri.Host
import Celeries.Url.Query
set_option autoImplicit false

/-!
The check `addQuery` makes of a query. `REGEX` reads `pair ('&' pair)*`, a pair being a non-empty
key, `=` and a value; its class `[A-Za-z\d*-._+%]` holds the range `*-.`, so `,` passes besides
the documented alphabet. The check runs on the URL's search, which `URL.parse` has cleaned and
percent-encoded: `parseUri` of `scheme://host?q` fails exactly when that query is neither empty
nor of this form, and then with `ParseError`.
-/

namespace Celeries
open Js Url Pattern

def isQueryChar (c : Char) : Bool :=
  isAsciiAlphanumeric c || c == '*' || c == '-' || c == '.' || c == '_' || c == '+' || c == '%'

def isQueryPair (tok : Char → Bool) (p : List Char) : Bool :=
  match p.splitOn '=' with
  | [k, v] => !k.isEmpty && k.all tok && v.all tok
  | _ => false

def isQueryForm (tok : Char → Bool) (e : List Char) : Bool := (e.splitOn '&').all (isQueryPair tok)

theorem queryToken_mem (c : Char) : queryToken.mem c = (isQueryChar c || c == ',') := by
  rw [Bool.eq_iff_iff]
  simp only [CharClass.mem, queryToken, alnumRanges, isQueryChar, isAsciiAlphanumeric, isAsciiAlpha,
    isAsciiUpperAlpha, isAsciiLowerAlpha, isAsciiDigit, List.cons_append, List.nil_append,
    List.any_cons, List.any_nil, Bool.or_false, bne_iff_ne, ne_eq, Bool.not_eq_false, Bool.or_eq_true,
    Bool.and_eq_true, decide_eq_true_eq, beq_iff_eq, char_le_iff_toNat, char_eq_iff_toNat,
    Char.reduceToNat]
  omega

theorem queryTokenPlus_mem (c : Char) : queryTokenPlus.mem c = queryToken.mem c :=
  @CharClass.mem_append_of_mem queryToken.ranges ('+', '+') (by decide) c

section Grammar
variable {tok : Char → Bool} (heq : tok '=' = false)
include heq

theorem isQueryPair_iff (x : List Char) : isQueryPair tok x = true ↔
    ∃ k v, x = k ++ '=' :: v ∧ k ≠ [] ∧ (∀ c ∈ k, tok c = true) ∧ ∀ c ∈ v, tok c = true := by
  constructor
  · intro h
    unfold isQueryPair at h
    split at h
    · rename_i k v hsplit
      simp only [Bool.and_eq_true, Bool.not_eq_true', List.isEmpty_eq_false, List.all_eq_true] at h
      refine ⟨k, v, ?_, h.1.1, h.1.2, h.2⟩
      rw [← List.intercalate_splitOn x '=', hsplit, intercalate_cons]
      simp
    · cases h
  · rintro ⟨k, v, rfl, hk, hkt, hvt⟩
    have hsep : ∀ l ∈ [k, v], '=' ∉ l := by
      simp only [List.mem_cons, List.not_mem_nil, or_false]
      rintro l (rfl | rfl) hl
      · exact absurd (hkt _ hl) (by simp [heq])
      · exact absurd (hvt _ hl) (by simp [heq])
    have hjoin : k ++ '=' :: v = ['='].intercalate [k, v] := by simp [intercalate_cons]
    rw [isQueryPair, hjoin, List.splitOn_intercalate _ '=' hsep (List.cons_ne_nil _ _)]
    simpa [List.all_eq_true, hk] using ⟨hkt, hvt⟩

variable (hamp : tok '&' = false)
include hamp

theorem amp_not_mem_pair {x : List Char} (h : isQueryPair tok x = true) : '&' ∉ x := by
  obtain ⟨k, v, rfl, -, hk, hv⟩ := (isQueryPair_iff heq x).1 h
  simp only [List.mem_append, List.mem_cons, not_or]
  exact ⟨fun hm => absurd (hk _ hm) (by simp [hamp]), by decide, fun hm => absurd (hv _ hm) (by simp [hamp])⟩

theorem isQueryForm_iff (e : List Char) : isQueryForm tok e = true ↔
    ∃ p ps, e = p ++ (ps.map ('&' :: ·)).flatten ∧ ∀ x ∈ p :: ps, isQueryPair tok x = true :=
  all_splitOn_iff (fun _ hx => amp_not_mem_pair heq hamp hx) e

end Grammar

theorem queryToken_eq : queryToken.mem '=' = false := rfl

theorem queryToken_amp : queryToken.mem '&' = false := rfl

theorem derives_lit_iff {x : Char} {s r : List Char} : Derives (lit x) s r ↔ s = x :: r := by
  rw [lit, derives_cls_iff]
  constructor
  · rintro ⟨c, rfl, hc⟩
    rw [(CharClass.mem_lit_iff _ _).1 hc]
  · rintro rfl
    exact ⟨x, rfl, CharClass.mem_lit x⟩

theorem derives_queryPair {K : CharClass} (hK : ∀ c, K.mem c = queryToken.mem c) (b : Pattern)
    (s r : List Char) :
    Derives (.seq (plus (.cls queryToken)) (.seq (lit '=') (.seq (star (.cls K)) b))) s r ↔
      ∃ x m, s = x ++ m ∧ isQueryPair queryToken.mem x = true ∧ Derives b m r := by
  simp only [derives_seq_iff, derives_plus_cls, derives_star_cls, derives_lit_iff, hK,
    isQueryPair_iff queryToken_eq]
  constructor
  · rintro ⟨_, ⟨c, k, rfl, hc, hk⟩, _, rfl, m, ⟨v, rfl, hv⟩, hb⟩
    exact ⟨_, m, by simp, ⟨c :: k, v, rfl, List.cons_ne_nil _ _, List.forall_mem_cons.2 ⟨hc, hk⟩, hv⟩, hb⟩
  · rintro ⟨_, m, rfl, ⟨k, v, rfl, hne, hk, hv⟩, hb⟩
    obtain ⟨c, k, rfl⟩ := List.exists_cons_of_ne_nil hne
    obtain ⟨hc, hk⟩ := List.forall_mem_cons.1 hk
    exact ⟨_, ⟨c, k, by simp, hc, hk⟩, _, rfl, m, ⟨v, rfl, hv⟩, hb⟩

theorem derives_queryPair_end {K : CharClass} (hK : ∀ c, K.mem c = queryToken.mem c) (s r : List Char) :
    Derives (.seq (plus (.cls queryToken)) (.seq (lit '=') (star (.cls K)))) s r ↔
      ∃ x, s = x ++ r ∧ isQueryPair queryToken.mem x = true := by
  simp only [derives_seq_iff, derives_plus_cls, derives_star_cls, derives_lit_iff, hK,
    isQueryPair_iff queryToken_eq]
  constructor
  · rintro ⟨_, ⟨c, k, rfl, hc, hk⟩, _, rfl, ⟨v, rfl, hv⟩⟩
    exact ⟨_, by simp, ⟨c :: k, v, rfl, List.cons_ne_nil _ _, List.forall_mem_cons.2 ⟨hc, hk⟩, hv⟩⟩
  · rintro ⟨_, rfl, ⟨k, v, rfl, hne, hk, hv⟩⟩
    obtain ⟨c, k, rfl⟩ := List.exists_cons_of_ne_nil hne
    obtain ⟨hc, hk⟩ := List.forall_mem_cons.1 hk
    exact ⟨_, ⟨c, k, by simp, hc, hk⟩, _, rfl, ⟨v, rfl, hv⟩⟩

theorem derives_ampPairs (s r : List Char) :
    Derives (star (.seq (lit '&') (.seq (plus (.cls queryToken)) (.seq (lit '=') (star (.cls queryTokenPlus))))))
        s r ↔
      ∃ ps : List (List Char), s = (ps.map ('&' :: ·)).flatten ++ r ∧
        ∀ x ∈ ps, isQueryPair queryToken.mem x = true := by
  refine derives_star_iff ('&' :: ·) (isQueryPair queryToken.mem · = true) (fun s r => ?_)
    (fun _ _ => List.cons_ne_nil _ _) s r
  simp only [derives_seq_iff, derives_lit_iff, derives_queryPair_end queryTokenPlus_mem]
  constructor
  · rintro ⟨_, rfl, x, rfl, hx⟩
    exact ⟨x, rfl, hx⟩
  · rintro ⟨x, rfl, hx⟩
    exact ⟨_, rfl, x, rfl, hx⟩

theorem derives_QUERY_REGEX (s r : List Char) : Derives QUERY_REGEX s r ↔ r = [] ∧
    ∃ p ps, s = p ++ (ps.map ('&' :: ·)).flatten ∧ ∀ x ∈ p :: ps, isQueryPair queryToken.mem x = true := by
  simp only [QUERY_REGEX, seqs, derives_queryPair (fun _ => rfl), derives_seq_iff, derives_ampPairs,
    derives_eoi_iff]
  constructor
  · rintro ⟨p, _, rfl, hp, _, ⟨ps, rfl, hps⟩, rfl, rfl⟩
    exact ⟨rfl, p, ps, by simp, List.forall_mem_cons.2 ⟨hp, hps⟩⟩
  · rintro ⟨rfl, p, ps, rfl, hall⟩
    obtain ⟨hp, hps⟩ := List.forall_mem_cons.1 hall
    exact ⟨p, _, rfl, hp, _, ⟨ps, by simp, hps⟩, rfl, rfl⟩

/-- `REGEX` accepts exactly `pair ('&' pair)*` over its own class. -/
theorem QUERY_REGEX_test (e : String) : QUERY_REGEX.test e = isQueryForm queryToken.mem e.toList := by
  rw [Bool.eq_iff_iff, test_iff, isQueryForm_iff queryToken_eq queryToken_amp]
  simp only [derives_QUERY_REGEX, exists_eq_left]

example : isQueryForm queryToken.mem "a=1&b=,".toList = true ∧
    isQueryForm queryToken.mem "a=1&".toList = false ∧ isQueryForm queryToken.mem "=1".toList = false := by
  decide

theorem addQuery_of_query (u : Url) (w : Uri) (e : List Char) (hq : u.query = some ⟨e⟩) :
    addQuery u w =
      if e = [] then .ok w
      else if isQueryForm queryToken.mem e then
        .ok { w with query := some ((Obj.keys (parseQueries u.searchParams)).foldl camelCaseQuery
          (parseQueries u.searchParams)) }
      else .error (.parse ("query \"?" ++ ⟨e⟩ ++ "\" is not a valid HTML query")) := by
  by_cases he : e = []
  · subst he
    simp [addQuery, isFalsy, Url.search, hq]
  · have hsearch : u.search = "?" ++ ⟨e⟩ := by
      simp only [Url.search, hq]
      rw [if_neg fun h => he (congrArg String.data h)]
    have hdrop : (u.search.drop 1) = ⟨e⟩ := by
      rw [hsearch, String.drop_eq]
      rfl
    have hne : isFalsy u.search = false := by
      simp only [isFalsy, hsearch, decide_eq_false_iff_not]
      exact fun h => List.cons_ne_nil '?' e (congrArg String.data h)
    rw [addQuery, hne, hdrop, QUERY_REGEX_test, show (⟨e⟩ : String).toList = e from rfl, if_neg he, hsearch, ← String.append_assoc "query \"" "?",
      show "query \"" ++ "?" = "query \"?" by decide]
    cases isQueryForm queryToken.mem e <;> rfl

theorem parseUri_noUser {s : String} {url : Url} (hp : Url.parse s = some url) (hh : url.hostname ≠ "")
    (hv : validateHost url.hostname = .ok url.hostname) (hu : url.username = "")
    (hpw : url.password = "") : ∃ w, parseUri s = addQuery url w := by
  unfold parseUri
  rw [hp]
  dsimp only
  rw [addHostUserPassAndPort_noUser url _ hh hv hu hpw]
  exact ⟨_, rfl⟩

theorem parseUri_hostQuery (scheme host q : List Char) (hs : PlainScheme scheme)
    (hv : validateHost ⟨host⟩ = .ok ⟨host⟩) (hq : '#' ∉ q) :
    ∃ w, parseUri ⟨scheme ++ ':' :: '/' :: '/' :: (host ++ '?' :: q)⟩ =
      addQuery { Url.empty with
        scheme := ⟨scheme⟩
        host := some ⟨host⟩
        query := some ⟨parsedQuery q⟩ } w := by
  obtain ⟨hne, hh⟩ := validateHost_plain hv
  exact parseUri_noUser (parse_hostQuery scheme host q hs hh hq)
    (fun h => hne (congrArg String.data h)) hv rfl rfl

/-- `parseUri` of `scheme://host?q` fails exactly when the query `URL.parse` makes of `q` is not
empty and not `pair ('&' pair)*` over the class of `REGEX`, and then with `ParseError`. -/
theorem parseUri_hostQuery_error (scheme host q : List Char) (hs : PlainScheme scheme)
    (hv : validateHost ⟨host⟩ = .ok ⟨host⟩) (hq : '#' ∉ q) (err : Error) :
    parseUri ⟨scheme ++ ':' :: '/' :: '/' :: (host ++ '?' :: q)⟩ = .error err ↔
      parsedQuery q ≠ [] ∧ isQueryForm queryToken.mem (parsedQuery q) = false ∧
        err = .parse ("query \"?" ++ ⟨parsedQuery q⟩ ++ "\" is not a valid HTML query") := by
  obtain ⟨w, hw⟩ := parseUri_hostQuery scheme host q hs hv hq
  rw [hw, addQuery_of_query _ _ _ rfl]
  by_cases he : parsedQuery q = []
  · simp [he]
  · rw [if_neg he]
    cases isQueryForm queryToken.mem (parsedQuery q) <;> simp [he, eq_comm]

/-- `parseUri` of `scheme://host?q` fails exactly when the query `URL.parse` makes of `q`, cleaned
and percent-encoded, is not empty and not `pair ('&' pair)*` over the class of `REGEX`, which is
the documented alphabet and `,`; and then with `ParseError`. -/
theorem parseUri_checks_encoded_query (scheme host q : String) (hs : PlainScheme scheme.toList)
    (hv : validateHost host = .ok host) (hq : '#' ∉ q.toList) (err : Error) :
    parseUri (scheme ++ "://" ++ host ++ "?" ++ q) = .error err ↔
      parsedQuery q.toList ≠ [] ∧ isQueryForm queryToken.mem (parsedQuery q.toList) = false ∧
        err = .parse ("query \"?" ++ ⟨parsedQuery q.toList⟩ ++ "\" is not a valid HTML query") := by
  have ht : scheme ++ "://" ++ host ++ "?" ++ q =
      ⟨scheme.toList ++ ':' :: '/' :: '/' :: (host.toList ++ '?' :: q.toList)⟩ := by
    apply String.ext
    simp
  rw [ht]
  exact parseUri_hostQuery_error _ _ _ hs hv hq err

/-- The query of the test `should not parse invalid queries`, `query =value`, is outside the
documented grammar, and `parseUri` accepts it: `REGEX` reads it as `query%20=value`. -/
theorem parseUri_checks_encoded_query_space :
    isQueryForm isQueryChar "query =value".toList = false ∧
      ∀ err, parseUri ("s" ++ "://" ++ "h" ++ "?" ++ "query =value") ≠ .error err :=
  ⟨by decide, fun err h => absurd
    ((parseUri_checks_encoded_query "s" "h" "query =value" ⟨⟨'s', [], rfl, rfl⟩, by decide, rfl⟩
      rfl (by decide) err).1 h).2.1 (by decide)⟩

end Celeries
