import Celeries.Uri.Parse
set_option autoImplicit false

/-!
The query of a `Uri`. `parseQueries` groups the pairs of `URLSearchParams` by key, and
`camelCaseQuery` moves each key to its camelCase form by writing the new key over whatever it
held. The grouping loses nothing when no two keys have one camelCase form and none is
`__proto__`; otherwise a renamed key overwrites the values of another.
-/

namespace Celeries
open Js Url

def groupValues : List String → Option Val
  | [] => none
  | [v] => some (.str v)
  | vs => some (.arr (vs.map .str))

def valuesOf (entries : List (String × String)) (key : String) : List String :=
  (entries.filter fun e => e.1 == key).map Prod.snd

theorem parseQueries_snoc (entries : List (String × String)) (key value : String) :
    parseQueries (entries ++ [(key, value)]) =
      let result := parseQueries entries
      if result.has key then
        match result.get key with
        | .arr items => result ++ [(key, .arr (items ++ [.str value]))]
        | old => result ++ [(key, .arr [old, .str value])]
      else if key = "__proto__" then result
      else result ++ [(key, .str value)] := by
  rw [parseQueries, List.foldl_append]
  rfl

theorem parseQueries_lookup (entries : List (String × String)) (k : String) :
    (parseQueries entries).lookup k =
      if k = "__proto__" then none else groupValues (valuesOf entries k) := by
  induction entries using List.reverseRecOn generalizing k with
  | nil => simp [parseQueries, Obj.lookup, valuesOf, groupValues]
  | append_singleton es e ih =>
    obtain ⟨key, value⟩ := e
    have hv : valuesOf (es ++ [(key, value)]) k = valuesOf es k ++ if key = k then [value] else [] := by
      by_cases hk : key = k <;> simp [valuesOf, List.filter_append, hk]
    have hkey := ih key
    rw [parseQueries_snoc, hv]
    dsimp only
    by_cases hk : key = k
    · subst hk
      rw [if_pos rfl]
      split
      · rename_i hhas
        rw [Obj.lookup_of_has hhas] at hkey
        split at hkey
        · cases hkey
        · rename_i hproto
          rw [if_neg hproto]
          rcases hvs : valuesOf es key with _ | ⟨a, _ | ⟨b, t⟩⟩ <;>
            simp only [hvs, groupValues, Option.some.injEq, reduceCtorEq] at hkey <;>
            simp [hkey, groupValues]
      · rename_i hhas
        split
        · rename_i hproto
          subst hproto
          rw [hkey, if_pos rfl]
        · rename_i hproto
          have hnone : valuesOf es key = [] := by
            rw [Obj.lookup, if_neg hhas, if_neg hproto] at hkey
            cases hvs : valuesOf es key with
            | nil => rfl
            | cons a t => rw [hvs] at hkey; cases t <;> cases hkey
          rw [hnone, List.nil_append, Obj.lookup_set, if_pos rfl]
          rfl
    · rw [if_neg hk, List.append_nil, ← ih k]
      split
      · split <;> simp [hk]
      · split
        · rfl
        · simp [hk]

/-- What the renaming makes of the query `u` once it has processed the keys `P`: a processed
key lives under its camelCase form, the other keys are kept. -/
def renamedLookup (u : Obj) (P : List String) (K : String) : Option Val :=
  match P.find? (fun k => toCamelCase k == K) with
  | some k => u.lookup k
  | none => if K ∈ P then none else u.lookup K

section Renaming
variable {u : Obj}
  (hinj : ∀ a b, u.has a = true → u.has b = true → toCamelCase a = toCamelCase b → a = b)
include hinj

theorem camelCaseQuery_lookup {P : List String} {k : String} {q : Obj} (hk : k ∉ P)
    (hu : u.has k = true) (hP : ∀ p ∈ P, u.has p = true)
    (hq : ∀ K, q.lookup K = renamedLookup u P K) (K : String) :
    (camelCaseQuery q k).lookup K = renamedLookup u (P ++ [k]) K := by
  have F1 : ∀ p ∈ P, toCamelCase p ≠ toCamelCase k := fun p hp he => hk (hinj p k (hP p hp) hu he ▸ hp)
  have F2 : ∀ p ∈ P, toCamelCase p ≠ k := fun p hp he =>
    F1 p hp (by rw [← he, toCamelCase_toCamelCase])
  have hfk : P.find? (fun p => toCamelCase p == k) = none :=
    List.find?_eq_none.2 fun p hp => by simpa using F2 p hp
  have hfc : P.find? (fun p => toCamelCase p == toCamelCase k) = none :=
    List.find?_eq_none.2 fun p hp => by simpa using F1 p hp
  have hqk : q.lookup k = u.lookup k := by rw [hq, renamedLookup, hfk, if_neg hk]
  unfold camelCaseQuery renamedLookup
  rw [List.find?_append]
  dsimp only
  by_cases hc : toCamelCase k = k
  · rw [if_pos hc, hq, renamedLookup]
    cases hf : P.find? (fun p => toCamelCase p == K) with
    | some x => rfl
    | none =>
      by_cases hK : k = K
      · subst hK
        simp [hc, hk]
      · simp [hc, hK, Ne.symm hK]
  · rw [if_neg hc, Obj.lookup_erase, Obj.lookup_set]
    by_cases hK : k = K
    · subst hK
      simp [hfk, hc]
    · by_cases hcK : toCamelCase k = K
      · subst hcK
        have hqhas : q.has k = true := by
          rw [Obj.has_eq_isSome_lookup, hqk, Obj.lookup_of_has hu]
          rfl
        simp [hfc, hK, ← Obj.lookup_of_has hqhas, hqk]
      · rw [if_neg hK, if_neg hcK, hq, renamedLookup]
        cases hf : P.find? (fun p => toCamelCase p == K) <;> simp [hcK, hK, Ne.symm hK]

theorem foldl_camelCaseQuery_lookup {P rest : List String} {q : Obj} (hnd : (P ++ rest).Nodup)
    (hsub : ∀ p ∈ P ++ rest, u.has p = true) (hq : ∀ K, q.lookup K = renamedLookup u P K)
    (K : String) : (rest.foldl camelCaseQuery q).lookup K = renamedLookup u (P ++ rest) K := by
  induction rest generalizing P q with
  | nil => simpa using hq K
  | cons k rest ih =>
    have hk : k ∉ P := fun hk => (List.nodup_append.1 hnd).2.2 hk (List.mem_cons_self k rest)
    rw [List.foldl_cons, show P ++ k :: rest = P ++ [k] ++ rest by simp]
    exact ih (by simpa using hnd) (by simpa using hsub)
      (camelCaseQuery_lookup hinj hk (hsub k (by simp)) (fun p hp => hsub p (by simp [hp])) hq)

end Renaming

/-- The query the spec describes: each camelCase key holds the values of every pair whose key
has that camelCase form, in their order. -/
def groupedQuery (entries : List (String × String)) (K : String) : Option Val :=
  groupValues ((entries.filter fun e => toCamelCase e.1 == K).map Prod.snd)

theorem groupValues_eq_none {vs : List String} : groupValues vs = none ↔ vs = [] := by
  rcases vs with _ | ⟨a, _ | ⟨b, t⟩⟩ <;> simp [groupValues]

section Grouping
variable {entries : List (String × String)} (hproto : ∀ e ∈ entries, e.1 ≠ "__proto__")
include hproto

theorem lookup_parseQueries (k : String) :
    (parseQueries entries).lookup k = groupValues (valuesOf entries k) := by
  rw [parseQueries_lookup]
  split
  · rename_i hk
    subst hk
    symm
    rw [groupValues_eq_none, valuesOf, List.map_eq_nil_iff, List.filter_eq_nil_iff]
    exact fun e he hek => hproto e he (by simpa using hek)
  · rfl

theorem has_parseQueries (k : String) : (parseQueries entries).has k = true ↔ ∃ e ∈ entries, e.1 = k := by
  rw [Obj.has_eq_isSome_lookup, lookup_parseQueries hproto, Option.isSome_iff_ne_none, Ne,
    groupValues_eq_none, valuesOf, List.map_eq_nil_iff, List.filter_eq_nil_iff]
  simp

theorem renamedLookup_keys
    (hcamel : ∀ e ∈ entries, ∀ e' ∈ entries, toCamelCase e.1 = toCamelCase e'.1 → e.1 = e'.1)
    (K : String) :
    renamedLookup (parseQueries entries) (Obj.keys (parseQueries entries)) K = groupedQuery entries K := by
  rw [renamedLookup, groupedQuery]
  cases hf : (Obj.keys (parseQueries entries)).find? (fun k => toCamelCase k == K) with
  | some k =>
    have hkK : toCamelCase k = K := by simpa using List.find?_some hf
    obtain ⟨e₀, he₀, rfl⟩ := (has_parseQueries hproto k).1 (Obj.mem_keys.1 (List.mem_of_find?_eq_some hf))
    show (parseQueries entries).lookup e₀.1 = _
    rw [lookup_parseQueries hproto, valuesOf]
    congr 2
    apply List.filter_congr
    intro e he
    by_cases h1 : e.1 = e₀.1
    · simp [h1, hkK]
    · have h2 : toCamelCase e.1 ≠ K := fun h2 => h1 (hcamel e he e₀ he₀ (h2.trans hkK.symm))
      simp [h1, h2]
  | none =>
    have hfil : (entries.filter fun e => toCamelCase e.1 == K) = [] :=
      List.filter_eq_nil_iff.2 fun e he hK => List.find?_eq_none.1 hf e.1
        (Obj.mem_keys.2 ((has_parseQueries hproto e.1).2 ⟨e, he, rfl⟩)) hK
    rw [hfil, List.map_nil]
    show (if K ∈ Obj.keys (parseQueries entries) then none else (parseQueries entries).lookup K) = none
    split
    · rfl
    · rename_i hK
      rw [Obj.lookup, if_neg fun h => hK (Obj.mem_keys.2 h)]

end Grouping

theorem addQuery_groups_values {url : Url} {parsing uri : Uri} (h : addQuery url parsing = .ok uri)
    (hs : url.search ≠ "") (hproto : ∀ e ∈ url.searchParams, e.1 ≠ "__proto__")
    (hcamel : ∀ e ∈ url.searchParams, ∀ e' ∈ url.searchParams,
      toCamelCase e.1 = toCamelCase e'.1 → e.1 = e'.1) :
    ∃ q, uri.query = some q ∧ ∀ K, q.lookup K = groupedQuery url.searchParams K := by
  have hinj : ∀ a b, (parseQueries url.searchParams).has a = true →
      (parseQueries url.searchParams).has b = true → toCamelCase a = toCamelCase b → a = b := by
    intro a b ha hb hab
    obtain ⟨e, he, rfl⟩ := (has_parseQueries hproto a).1 ha
    obtain ⟨e', he', rfl⟩ := (has_parseQueries hproto b).1 hb
    exact hcamel e he e' he' hab
  unfold addQuery at h
  rw [if_neg (by simpa [isFalsy] using hs)] at h
  split at h
  · cases h
  cases h
  refine ⟨_, rfl, fun K => ?_⟩
  rw [foldl_camelCaseQuery_lookup hinj (P := []) (by simpa using Obj.nodup_keys _)
      (fun p hp => Obj.mem_keys.1 (by simpa using hp)) (fun K => by simp [renamedLookup]) K,
    List.nil_append, renamedLookup_keys hproto hcamel]

def sampleQueryUrl : Url :=
  { Url.empty with scheme := "amqp", host := some "h", query := some "channel_max=1&a=2&a=3" }

theorem addQuery_groups_values_sample :
    ∃ q : Obj, some [("a", .str "2"), ("a", .arr [.str "2", .str "3"]), ("channelMax", .str "1")] = some q ∧
      ∀ K, q.lookup K = groupedQuery sampleQueryUrl.searchParams K :=
  @addQuery_groups_values sampleQueryUrl ⟨none, "", none, "", "amqp"⟩
    ⟨none, "", some [("a", .str "2"), ("a", .arr [.str "2", .str "3"]), ("channelMax", .str "1")],
      "", "amqp"⟩ rfl (by decide) (by decide) (by decide)

/-- A key and its camelCase spelling: the renamed key overwrites the other's value. A
`__proto__` key is dropped. -/
theorem parseUri_query_drops_values :
    (Url.parse "amqp://h?channel_max=1&channelMax=2").map Url.searchParams =
        some [("channel_max", "1"), ("channelMax", "2")] ∧
      (parseUri "amqp://h?channel_max=1&channelMax=2").map (fun uri => (uri.query.getD []).lookup "channelMax") =
        .ok (some (.str "1")) ∧
      groupedQuery [("channel_max", "1"), ("channelMax", "2")] "channelMax" = some (.arr [.str "1", .str "2"]) ∧
      (parseUri "amqp://h?__proto__=x").map (fun uri => (uri.query.getD []).lookup "Proto") = .ok none ∧
      groupedQuery [("__proto__", "x")] "Proto" = some (.str "x") :=
  ⟨rfl, rfl, rfl, rfl, rfl⟩

end Celeries
