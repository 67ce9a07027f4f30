import Celeries.Amqp.Vhost
import Celeries.Uri.QueryForm
import Celeries.Uri.Query
set_option autoImplicit false

/-!
The query of an AMQP URI, read back. `appendQueries` takes `channelMax`, `frameMax` and
`heartbeat` through `parseInteger`, and `locale` as it is, from the query that `addQuery` groups
out of `URL.searchParams`. Options written as `scheme://host?channelMax=…&frameMax=…&heartbeat=…&locale=…`
pass every stage of the query unchanged (the cleaning and percent-encoding of `URL.parse`, `REGEX`,
the form decoding, the grouping, the renaming to camelCase) when the locale is written in letters,
digits and `*,-._`; `parseAmqpUri` then reads each option back.
-/

namespace Celeries.Amqp
open Js Url

/-- A letter, a digit, or one of `*`, `,`, `-`, `.` and `_`: what `REGEX` accepts and no stage of
the query changes. -/
def isPlainQueryChar (c : Char) : Bool :=
  isAsciiAlphanumeric c || c == '*' || c == ',' || c == '-' || c == '.' || c == '_'

theorem isPlainQueryChar_spec {c : Char} (h : isPlainQueryChar c = true) :
    queryToken.mem c = true ∧ isFormChar c = true ∧ querySet c = false ∧
      isC0ControlOrSpace c = false ∧ c ≠ '/' := by
  simp only [isPlainQueryChar, Bool.or_eq_true, beq_iff_eq] at h
  rcases h with ((((h | rfl) | rfl) | rfl) | rfl) | rfl
  · refine ⟨by simp [queryToken_mem, isQueryChar, h], ?_⟩
    simp only [isFormChar, querySet, c0ControlSet, isC0ControlOrSpace, isAsciiAlphanumeric, isAsciiAlpha,
      isAsciiUpperAlpha, isAsciiLowerAlpha, isAsciiDigit, Bool.or_eq_true, Bool.and_eq_true,
      decide_eq_true_eq, bne_iff_ne, beq_eq_false_iff_ne, ne_eq, Bool.or_eq_false_iff,
      decide_eq_false_iff_not, char_le_iff_toNat, char_eq_iff_toNat, Char.reduceToNat, not_le] at h ⊢
    omega
  all_goals decide

theorem numeral_plain (n : Nat) : ∀ c ∈ (toString n).toList, isPlainQueryChar c = true := fun c hc => by
  simp [isPlainQueryChar, isAsciiAlphanumeric, (repr_spec n).1 c hc]

/-- The options `appendQueries` reads: numbers that are safe integers, which `parseInteger`
reads exactly, and a locale a URI can carry as it is. -/
structure QueryOptions where
  channelMax : Option Nat
  frameMax : Option Nat
  heartbeat : Option Nat
  locale : Option String
  locale_plain : ∀ l, locale = some l → ∀ c ∈ l.toList, isPlainQueryChar c = true
  numbers_safe : ∀ n ∈ [channelMax, frameMax, heartbeat].filterMap id, n ≤ MAX_SAFE_INTEGER

def queryPair (k : String) (v : Option String) : List (String × String) := (v.map fun s => (k, s)).toList

theorem mem_queryPair {k : String} {v : Option String} {p : String × String} :
    p ∈ queryPair k v ↔ ∃ s, v = some s ∧ p = (k, s) := by
  cases v <;> simp [queryPair, eq_comm]

namespace QueryOptions
variable (o : QueryOptions)

def pairs : List (String × String) :=
  queryPair "channelMax" (o.channelMax.map toString) ++ queryPair "frameMax" (o.frameMax.map toString) ++
    queryPair "heartbeat" (o.heartbeat.map toString) ++ queryPair "locale" o.locale

def text (scheme host : String) : String := scheme ++ "://" ++ host ++ "?" ++ ⟨formText o.pairs⟩

def query : Obj :=
  Obj.field "channelMax" (o.channelMax.map fun n => .str (toString n)) ++
    Obj.field "frameMax" (o.frameMax.map fun n => .str (toString n)) ++
    Obj.field "heartbeat" (o.heartbeat.map fun n => .str (toString n)) ++ Obj.field "locale" (o.locale.map .str)

def fields : Obj :=
  Obj.field "channelMax" (o.channelMax.map fun n => .num n) ++ Obj.field "frameMax" (o.frameMax.map fun n => .num n) ++
    Obj.field "heartbeat" (o.heartbeat.map fun n => .num n) ++ Obj.field "locale" (o.locale.map .str)

theorem pairs_plain : ∀ p ∈ o.pairs, p.1 ≠ "" ∧ ∀ c ∈ p.1.toList ++ p.2.toList, isPlainQueryChar c = true := by
  have hkeys : ∀ k ∈ ["channelMax", "frameMax", "heartbeat", "locale"],
      k ≠ "" ∧ ∀ c ∈ k.toList, isPlainQueryChar c = true := by decide
  have hvalues : ∀ p ∈ o.pairs, p.1 ∈ ["channelMax", "frameMax", "heartbeat", "locale"] ∧
      ∀ c ∈ p.2.toList, isPlainQueryChar c = true := by
    intro p hp
    simp only [pairs, List.mem_append, mem_queryPair, Option.map_eq_some'] at hp
    rcases hp with ((⟨s, ⟨n, -, rfl⟩, rfl⟩ | ⟨s, ⟨n, -, rfl⟩, rfl⟩) | ⟨s, ⟨n, -, rfl⟩, rfl⟩) | ⟨s, hs, rfl⟩
    · exact ⟨by simp, numeral_plain n⟩
    · exact ⟨by simp, numeral_plain n⟩
    · exact ⟨by simp, numeral_plain n⟩
    · exact ⟨by simp, o.locale_plain s hs⟩
  intro p hp
  obtain ⟨hk, hv⟩ := hvalues p hp
  refine ⟨(hkeys _ hk).1, fun c hc => ?_⟩
  rcases List.mem_append.1 hc with hc | hc
  exacts [(hkeys _ hk).2 c hc, hv c hc]

theorem fields_of_pairs_nil (h : o.pairs = []) : o.fields = [] := by
  have hnone : ∀ {α : Type} {x : Option α}, x.toList = [] → x = none := fun {_ x} hx => by
    cases x
    · rfl
    · cases hx
  simp only [pairs, queryPair, List.append_eq_nil] at h
  obtain ⟨⟨⟨h1, h2⟩, h3⟩, h4⟩ := h
  simp [fields, Obj.field, Option.map_eq_none'.1 (Option.map_eq_none'.1 (hnone h1)),
    Option.map_eq_none'.1 (Option.map_eq_none'.1 (hnone h2)),
    Option.map_eq_none'.1 (Option.map_eq_none'.1 (hnone h3)), Option.map_eq_none'.1 (hnone h4)]

end QueryOptions

theorem isQueryForm_formText {ps : List (String × String)} (hps : ps ≠ [])
    (h : ∀ p ∈ ps, p.1 ≠ "" ∧ ∀ c ∈ p.1.toList ++ p.2.toList, isPlainQueryChar c = true) :
    isQueryForm queryToken.mem (formText ps) = true := by
  obtain ⟨p, ps, rfl⟩ := List.exists_cons_of_ne_nil hps
  refine (isQueryForm_iff queryToken_eq queryToken_amp _).2
    ⟨formPair p, ps.map formPair, by simp [formText, Function.comp_def], fun x hx => ?_⟩
  obtain ⟨q, hq, rfl⟩ := List.mem_map.1 (show x ∈ (p :: ps).map formPair from hx)
  have hc := fun c hc => (isPlainQueryChar_spec ((h q hq).2 c hc)).1
  exact (isQueryPair_iff queryToken_eq _).2 ⟨q.1.toList, q.2.toList, rfl,
    fun he => (h q hq).1 (String.ext he), fun c h => hc c (List.mem_append_left _ h),
    fun c h => hc c (List.mem_append_right _ h)⟩

theorem parseQueries_queryPair {es : List (String × String)} {q : Obj} (hes : parseQueries es = q)
    (k : String) (v : Option String) (h : q.has k = false) (hk : k ≠ "__proto__") :
    parseQueries (es ++ queryPair k v) = q ++ Obj.field k (v.map .str) := by
  cases v with
  | none => simpa [queryPair, Obj.field] using hes
  | some s => simp [queryPair, Obj.field, parseQueries_snoc, hes, h, hk]

theorem QueryOptions.parseQueries_pairs (o : QueryOptions) : parseQueries o.pairs = o.query := by
  have h1 := parseQueries_queryPair (show parseQueries [] = [] from rfl) "channelMax" (o.channelMax.map toString)
    rfl (by decide)
  have h2 := parseQueries_queryPair h1 "frameMax" (o.frameMax.map toString) (by simp) (by decide)
  have h3 := parseQueries_queryPair h2 "heartbeat" (o.heartbeat.map toString) (by simp) (by decide)
  have h4 := parseQueries_queryPair h3 "locale" o.locale (by simp) (by decide)
  simpa [QueryOptions.pairs, QueryOptions.query, Option.map_map, Function.comp_def] using h4

theorem foldl_camelCaseQuery_of_camel (q : Obj) (ks : List String) (h : ∀ k ∈ ks, toCamelCase k = k) :
    ks.foldl camelCaseQuery q = q := by
  induction ks with
  | nil => rfl
  | cons k ks ih =>
    rw [List.foldl_cons, show camelCaseQuery q k = q from if_pos (h k (.head _))]
    exact ih fun k hk => h k (.tail _ hk)

theorem QueryOptions.keys_camel (o : QueryOptions) : ∀ k ∈ Obj.keys o.query, toCamelCase k = k := by
  intro k hk
  simp only [Obj.mem_keys, QueryOptions.query, Obj.has_append, Obj.has_field, Bool.or_eq_true,
    Bool.and_eq_true, decide_eq_true_eq] at hk
  rcases hk with ((⟨-, rfl⟩ | ⟨-, rfl⟩) | ⟨-, rfl⟩) | ⟨-, rfl⟩ <;> decide

theorem QueryOptions.appendQueries_query (o : QueryOptions) (uri : Uri) (hq : uri.query = some o.query)
    (appending : Obj) : appendQueries uri appending = .ok (appending ++ o.fields) := by
  simp only [appendQueries, hq]
  rw [parse_integer_cons _ _ _ _ o.channelMax ?_ (by decide), parse_integer_cons _ _ _ _ o.frameMax ?_ (by decide),
    parse_integer_cons _ _ _ _ o.heartbeat ?_ (by decide), parse_plain_cons _ _ _ _ o.locale ?_ (by decide),
    parse_nil]
  · simp [QueryOptions.fields]
  all_goals
    simp only [QueryOptions.query, Obj.get_append_field, Obj.get_field]
    simp

theorem QueryOptions.formText_chars (o : QueryOptions) :
    ∀ c ∈ formText o.pairs, isPlainQueryChar c = true ∨ c = '&' ∨ c = '=' :=
  forall_mem_formText (.inr (.inl rfl)) (.inr (.inr rfl)) fun p hp c hc => .inl ((o.pairs_plain p hp).2 c hc)

theorem QueryOptions.parseUri_text (o : QueryOptions) {scheme host : String} (hs : PlainScheme scheme.toList)
    (hh : validateHost host = .ok host) :
    ∃ path sch, parseUri (o.text scheme host) =
      .ok ⟨some ⟨none, toLowerCase host, none⟩, path, if o.pairs = [] then none else some o.query,
        o.text scheme host, sch⟩ := by
  obtain ⟨hne, hhost⟩ := validateHost_plain hh
  have hchars := o.formText_chars
  have hq : parsedQuery (formText o.pairs) = formText o.pairs := by
    refine parsedQuery_of_plain _ (fun c hc => ?_) (fun c hc => ?_) <;>
      rcases hchars c hc with h | rfl | rfl
    all_goals first | rfl | simp [isPlainQueryChar_spec h]
  have hhash : '#' ∉ formText o.pairs := fun hc => by
    rcases hchars '#' hc with h | h | h
    · exact absurd (isPlainQueryChar_spec h).2.2.1 (by decide)
    · cases h
    · cases h
  have htext : o.text scheme host = ⟨scheme.toList ++ ':' :: '/' :: '/' :: (host.toList ++ '?' :: formText o.pairs)⟩ := by
    apply String.ext
    simp [QueryOptions.text]
  have hurl := parse_hostQuery scheme.toList host.toList (formText o.pairs) hs hhost hhash
  rw [hq] at hurl
  have hsp : ({ Url.empty with
      scheme := ⟨scheme.toList⟩
      host := some ⟨host.toList⟩
      query := some ⟨formText o.pairs⟩ } : Url).searchParams = o.pairs :=
    urlencodedParse_formText _ (fun p hp => (o.pairs_plain p hp).1)
      fun p hp c hc => (isPlainQueryChar_spec ((o.pairs_plain p hp).2 c hc)).2.1
  have hhostname : ({ Url.empty with
      scheme := ⟨scheme.toList⟩
      host := some ⟨host.toList⟩
      query := some ⟨formText o.pairs⟩ } : Url).hostname ≠ "" := fun h => hne (congrArg String.toList h)
  unfold parseUri
  rw [← htext] at hurl
  rw [hurl]
  dsimp only
  rw [addHostUserPassAndPort_noUser _ _ hhostname hh rfl rfl, ok_bind, addQuery_of_query _ _ _ rfl]
  by_cases hp : o.pairs = []
  · have he : formText o.pairs = [] := by rw [hp]; rfl
    rw [if_pos he, if_pos hp]
    exact ⟨_, _, rfl⟩
  · have he : formText o.pairs ≠ [] := fun he => hp (by
      obtain ⟨p, ps, hps⟩ := List.exists_cons_of_ne_nil hp
      simp [hps, formText, formPair] at he)
    rw [if_neg he, isQueryForm_formText hp o.pairs_plain, if_pos rfl, if_neg hp, hsp, o.parseQueries_pairs,
      foldl_camelCaseQuery_of_camel _ _ o.keys_camel]
    exact ⟨_, _, rfl⟩

/-- `parseAmqpUri` reads back the options written as a query: the host lowercased, the protocol of
the scheme (`rpc` and `rpcs` are `amqp` and `amqps`), then each of `channelMax`, `frameMax`,
`heartbeat` and `locale` that has a value, as it was written. -/
theorem parseAmqpUri_reads_query (scheme host : String) (o : QueryOptions)
    (hs : scheme ∈ ["amqp", "amqps", "rpc", "rpcs"]) (hh : validateHost host = .ok host) :
    parseAmqpUri (o.text scheme host) =
      .ok ([("hostname", .str (toLowerCase host)),
        ("protocol", .str (if scheme = "rpc" then "amqp" else if scheme = "rpcs" then "amqps" else scheme))] ++
        o.fields) := by
  obtain ⟨hps, hmem⟩ := amqpScheme_spec hs
  have htext : o.text scheme host =
      ⟨(scheme.toList ++ ':' :: '/' :: '/' :: host.toList) ++ '?' :: formText o.pairs⟩ := by
    apply String.ext
    simp [QueryOptions.text]
  have hscheme : getScheme (o.text scheme host) = .ok scheme := by
    rw [htext, List.append_assoc, List.cons_append, List.cons_append, List.cons_append,
      getScheme_plain _ _ hps, show (⟨scheme.toList⟩ : String) = scheme from rfl, if_pos hmem]
  have hslash : '/' ∉ formText o.pairs := fun hc => by
    rcases o.formText_chars '/' hc with h | h | h
    · exact (isPlainQueryChar_spec h).2.2.2.2 rfl
    · cases h
    · cases h
  obtain ⟨path, sch, huri⟩ := o.parseUri_text hps hh
  have hvhost := htext ▸ appendVhost_of_query _ _ hslash
  simp only [parseAmqpUri, hscheme, huri, hs, not_true_eq_false, if_false, ok_bind, hvhost]
  by_cases hp : o.pairs = []
  · simp [appendOptions, appendPass, appendPort, appendUser, appendQueries, hp, o.fields_of_pairs_nil hp]
  · rw [o.appendQueries_query _ (if_neg hp)]
    simp [appendOptions, appendPass, appendPort, appendUser]

def sampleQueryOptions : QueryOptions :=
  ⟨none, some 0, some 60, some "en_US", fun l hl => by cases hl; decide, by decide⟩

theorem parseAmqpUri_reads_query_rpc :
    "rpc" ∈ ["amqp", "amqps", "rpc", "rpcs"] ∧ validateHost "h" = .ok "h" ∧
      parseAmqpUri "rpc://h?frameMax=0&heartbeat=60&locale=en_US" =
        .ok [("hostname", .str "h"), ("protocol", .str "amqp"), ("frameMax", .num 0), ("heartbeat", .num 60),
          ("locale", .str "en_US")] :=
  ⟨by decide, rfl, parseAmqpUri_reads_query "rpc" "h" sampleQueryOptions (by decide) rfl⟩

end Celeries.Amqp
