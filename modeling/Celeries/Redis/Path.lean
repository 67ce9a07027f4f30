import Celeries.Redis.Uri
import Celeries.Uri.Authority
set_option autoImplicit false

/-!
The db path of a Redis TCP URI. `parseDb` matches `/^\/0*(\d+)/` against the pathname, and
the pattern has no `$`: the db is the value of the digits after the first `/`, and whatever
follows them is ignored.
-/

namespace Celeries.Redis
open Js Url Pattern

def hostPathUri (host : String) (segments : List String) : AuthorityUri :=
  ⟨"redis".toList, none, host.toList, none, segments⟩

theorem hostPathUri_valid {host : String} (hv : validateHost host = .ok host) {segments : List String}
    (hs : ∀ s ∈ segments, isPlainSegment s = true) : (hostPathUri host segments).Valid where
  scheme := ⟨⟨'r', _, rfl, rfl⟩, (by decide : ∀ c ∈ "redis".toList, isSchemeChar c = true ∧ c.toLower = c),
    rfl⟩
  user := nofun
  password := nofun
  host := (validateHost_plain hv).2
  emptyHost := fun he => absurd he (validateHost_plain hv).1
  port := nofun
  segments := fun s hx => (isPlainSegment_spec (hs s hx)).1

theorem parseTcp_hostPathUri {host : String} (hv : validateHost host = .ok host) {segments : List String}
    (hs : ∀ s ∈ segments, isPlainSegment s = true) :
    parseTcp ⟨(hostPathUri host segments).text⟩ =
      (addDatabase ⟨none, if segments = [] then "/" else (UrlPath.segments (segments.map pathSegment)).serialize,
        none, "", ""⟩ [("protocol", .str "redis")]).map (· ++ [("host", .str (toLowerCase host))]) := by
  have ha := hostPathUri_valid hv hs
  have hne : host ≠ "" := fun he => (validateHost_plain hv).1 (by rw [he]; rfl)
  have hscheme : getScheme ⟨(hostPathUri host segments).text⟩ = .ok "redis" := by
    rw [AuthorityUri.text, getScheme_plain _ _ ha.scheme]
    rfl
  have huri := AuthorityUri.parseUri_text_plain ha hs
  rw [addHostUserPassAndPort_noUser _ _ (show (hostPathUri host segments).url.hostname ≠ "" from hne)
    (show validateHost (hostPathUri host segments).url.hostname = .ok (hostPathUri host segments).url.hostname
      from hv) rfl rfl] at huri
  simp only [parseTcp, hscheme, ok_bind]
  rw [if_neg (by decide)]
  simp only [huri, ok_bind, addOptions, parseRedisQuery, addDatabase,
    show (hostPathUri host segments).segments = segments from rfl]
  generalize (if segments = [] then "/" else (UrlPath.segments (segments.map pathSegment)).serialize) = path
  split
  · rfl
  · cases parseDb path <;> rfl

theorem serialize_digits_rest (digits rest : String) (more : List String)
    (hdigits : ∀ c ∈ digits.toList, isAsciiDigit c = true) :
    (UrlPath.segments (((digits ++ rest) :: more).map pathSegment)).serialize =
      ⟨'/' :: (digits.toList ++ ((pathSegment rest).toList ++ pathText (more.map pathSegment)))⟩ := by
  apply String.ext
  refine (serialize_segments _).trans ?_
  simp only [List.map_cons, pathText, List.flatMap_cons, pathSegment, String.toList, String.data_append,
    percentEncode, List.flatMap_append, List.cons_append, List.append_assoc]
  congr 2
  exact percentEncode_id fun c hc => (isAsciiDigit_path (hdigits c hc)).2.1

/-- `parseTcp` has no db without a path or with the path `/`, and otherwise reads the db from
the digits after the first `/`, ignoring whatever follows them: the rest of the segment and any
further segments. -/
theorem parseTcp_reads_leading_db_digits {host : String} (hv : validateHost host = .ok host)
    (hl : toLowerCase host = host) {digits rest : String} (more : List String) (hd : digits ≠ "")
    (hdigits : ∀ c ∈ digits.toList, isAsciiDigit c = true)
    (_hsafe : digitsValue digits.toList ≤ MAX_SAFE_INTEGER)
    (hr : ∀ c ∈ rest.toList.head?, isAsciiDigit c = false)
    (hs : ∀ s ∈ (digits ++ rest) :: more, isPlainSegment s = true) :
    parseTcp ("redis://" ++ host) = .ok [("protocol", .str "redis"), ("host", .str host)] ∧
      parseTcp ("redis://" ++ host ++ "/") = .ok [("protocol", .str "redis"), ("host", .str host)] ∧
      parseTcp ("redis://" ++ host ++ "/" ++ digits ++ rest ++ String.join (more.map ("/" ++ ·))) =
        .ok [("protocol", .str "redis"), ("db", .num (digitsValue digits.toList)), ("host", .str host)] := by
  have htext : ∀ segments, ⟨(hostPathUri host segments).text⟩ =
      "redis://" ++ host ++ ⟨pathText segments⟩ := fun segments => by
    apply String.ext
    simp [AuthorityUri.text, hostPathUri, userinfoText, portSuffix]
  have hroot : ∀ segments, (segments = [] ∨ segments = [""]) →
      parseTcp ⟨(hostPathUri host segments).text⟩ = .ok [("protocol", .str "redis"), ("host", .str host)] := by
    rintro segments (rfl | rfl)
    · rw [parseTcp_hostPathUri hv (by simp), hl]
      rfl
    · rw [parseTcp_hostPathUri hv (by decide), hl]
      rfl
  refine ⟨by simpa [htext, pathText] using hroot [] (.inl rfl),
    by simpa [htext, pathText] using hroot [""] (.inr rfl), ?_⟩
  have htext : "redis://" ++ host ++ "/" ++ digits ++ rest ++ String.join (more.map ("/" ++ ·)) =
      ⟨(hostPathUri host ((digits ++ rest) :: more)).text⟩ := by
    apply String.ext
    rw [show String.join (more.map ("/" ++ ·)) = (UrlPath.segments more).serialize from rfl]
    simp [AuthorityUri.text, hostPathUri, userinfoText, portSuffix, pathText]
    exact serialize_segments more
  have hne : digits.toList ≠ [] := fun h => hd (String.ext h)
  have hrest : ∀ c ∈ ((pathSegment rest).toList ++ pathText (more.map pathSegment)).head?,
      isAsciiDigit c = false := by
    intro x hx
    rw [List.head?_append] at hx
    cases hp : (pathSegment rest).toList.head? with
    | some y =>
      rw [hp] at hx
      cases hx
      obtain ⟨c, hc, rfl | rfl⟩ := head?_percentEncode pathSet rest.toList _ hp
      · exact hr _ hc
      · rfl
    | none =>
      rw [hp, Option.none_or] at hx
      cases more with
      | nil => cases hx
      | cons s more =>
        cases hx
        rfl
  rw [htext, parseTcp_hostPathUri hv hs, if_neg (List.cons_ne_nil _ _), hl,
    serialize_digits_rest _ _ _ hdigits]
  have hpath : (⟨'/' :: (digits.toList ++ ((pathSegment rest).toList ++
      pathText (more.map pathSegment)))⟩ : String) ≠ "/" := fun h =>
    hne (List.append_eq_nil.1 (List.cons.inj (congrArg String.data h)).2).1
  simp only [addDatabase, if_neg hpath, parseDb_digits _ _ hne hdigits hrest, ok_bind]
  rfl

theorem parseTcp_reads_leading_db_digits_sample :
    parseTcp "redis://localhost/5x/6" =
      .ok [("protocol", .str "redis"), ("db", .num 5), ("host", .str "localhost")] :=
  (@parseTcp_reads_leading_db_digits "localhost" rfl rfl "5" "x" ["6"] (by decide) (by decide)
    (by decide) (by decide) (by decide)).2.2

end Celeries.Redis
