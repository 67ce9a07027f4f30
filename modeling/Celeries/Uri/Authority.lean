import Celeries.Uri.Parse
import Celeries.Url.Authority
set_option autoImplicit false

/-!
`getScheme` and `parseUri` on the URIs with an authority that the library writes,
`scheme://[user:password@]host[:port][/segments]`.
-/

namespace Celeries
open Js Url Pattern

theorem isHostNameChar_plain {c : Char} (h : isHostNameChar c = true) : isPlainHostChar c = true := by
  simp only [isHostNameChar, isAsciiAlphanumeric, isAsciiAlpha, isAsciiUpperAlpha,
    isAsciiLowerAlpha, isAsciiDigit, Bool.or_eq_true, Bool.and_eq_true, decide_eq_true_eq,
    beq_iff_eq, char_le_iff_toNat, char_eq_iff_toNat, Char.reduceToNat] at h
  simp only [isPlainHostChar, isForbiddenHostCodePoint, c0ControlSet, Bool.and_eq_true,
    Bool.not_eq_true', Bool.or_eq_false_iff, decide_eq_false_iff_not, beq_eq_false_iff_ne, ne_eq,
    char_eq_iff_toNat, Char.reduceToNat]
  omega

theorem validateHost_plain {s s' : String} (h : validateHost s = .ok s') :
    s.toList ≠ [] ∧ ∀ c ∈ s.toList, isPlainHostChar c = true := by
  obtain ⟨-, hne, hc⟩ := validateHost_spec h
  exact ⟨fun hs => hne (String.ext hs), fun c hx => isHostNameChar_plain (hc c hx)⟩

theorem alphaClass_mem (c : Char) :
    CharClass.mem ⟨[('A', 'Z'), ('a', 'z')], false⟩ c = isAsciiAlpha c := by
  simp [CharClass.mem, isAsciiAlpha, isAsciiUpperAlpha, isAsciiLowerAlpha]

theorem schemeClass_mem (c : Char) :
    CharClass.mem ⟨alnumRanges ++ [('+', '+'), ('.', '.'), ('-', '-')], false⟩ c = isSchemeChar c := by
  rw [Bool.eq_iff_iff]
  simp only [CharClass.mem, alnumRanges, isSchemeChar, isAsciiAlphanumeric, isAsciiAlpha,
    isAsciiUpperAlpha, isAsciiLowerAlpha, isAsciiDigit, List.cons_append, List.nil_append,
    List.any_cons, List.any_nil, Bool.or_false, bne_iff_ne, ne_eq, Bool.not_eq_false,
    Bool.or_eq_true, Bool.and_eq_true, decide_eq_true_eq, beq_iff_eq, char_le_iff_toNat,
    char_eq_iff_toNat, Char.reduceToNat]
  omega

theorem toLowerCase_plain {scheme : List Char} (h : PlainScheme scheme) :
    toLowerCase ⟨scheme⟩ = ⟨scheme⟩ := by
  simp only [toLowerCase]
  congr 1
  exact (List.map_congr_left fun x hx => (h.chars x hx).2).trans (List.map_id _)

theorem getScheme_plain (scheme rest : List Char) (h : PlainScheme scheme) :
    getScheme ⟨scheme ++ ':' :: rest⟩ =
      if (⟨scheme⟩ : String) ∈ SCHEMES then .ok ⟨scheme⟩
      else .error (.parse ("unrecognized scheme \"" ++ ⟨scheme⟩ ++ "\"")) := by
  obtain ⟨c, cs, rfl, hc⟩ := h.head
  obtain ⟨more, hmore⟩ := matches_star_cls _ [] cs (':' :: rest)
    (fun x hx => (schemeClass_mem x).trans (h.chars x (.tail _ hx)).1) (by simp; decide)
  have hexec : SCHEME_REGEX.exec ⟨c :: cs ++ ':' :: rest⟩ = some [(1, c :: cs)] := by
    simp only [Pattern.exec, SCHEME_REGEX, seqs]
    simp [alphaClass_mem, hc, hmore, lit, CharClass.mem_lit]
    rw [show cs.length + (rest.length + 1) - rest.length = cs.length + 1 by omega]
    simp
  simp only [getScheme, hexec]
  rw [show capture [(1, c :: cs)] 1 = ⟨c :: cs⟩ from rfl, toLowerCase_plain h]

namespace Url.AuthorityUri
variable {a : AuthorityUri}

theorem href_ne_protocol (a : AuthorityUri) : a.url.href ≠ a.url.protocol := by
  intro heq
  have := congrArg String.data heq
  simp [Url.href, Url.protocol, AuthorityUri.url] at this

theorem toLowerCase_scheme (h : a.Valid) :
    toLowerCase (a.url.protocol.take (a.url.protocol.length - 1)) = ⟨a.scheme⟩ := by
  rw [show a.url.protocol = ⟨a.scheme ++ [':']⟩ from rfl, String.take_eq]
  simpa using toLowerCase_plain h.scheme

theorem serialize_eq_empty :
    (UrlPath.segments (a.segments.map pathSegment)).serialize = "" ↔ a.segments = [] := by
  cases a.segments with
  | nil => exact iff_of_true rfl rfl
  | cons s l =>
    refine iff_of_false (fun he => ?_) (List.cons_ne_nil s l)
    have := congrArg String.toList he
    rw [serialize_segments] at this
    simp [pathText] at this

theorem parseUri_text (h : a.Valid) :
    parseUri ⟨a.text⟩ = addHostUserPassAndPort a.url
      ⟨none, if a.url.pathname = "" then "/" else a.url.pathname, none, ⟨a.text⟩, ⟨a.scheme⟩⟩ := by
  have hquery : ∀ parsing, addQuery a.url parsing = .ok parsing := fun _ => rfl
  simp only [parseUri, parse_authorityUri a h, toLowerCase_scheme h, if_neg (href_ne_protocol a),
    hquery, bind_ok]

theorem parseUri_text_plain (h : a.Valid) (hp : ∀ s ∈ a.segments, isPlainSegment s = true) :
    parseUri ⟨a.text⟩ = addHostUserPassAndPort a.url
      ⟨none, if a.segments = [] then "/" else (UrlPath.segments (a.segments.map pathSegment)).serialize,
        none, ⟨a.text⟩, ⟨a.scheme⟩⟩ := by
  have hpathname : a.url.pathname = (UrlPath.segments (a.segments.map pathSegment)).serialize := by
    simp only [Url.pathname, AuthorityUri.url, endSegments_plain [] _ hp, List.nil_append]
  simp only [parseUri_text h, hpathname, serialize_eq_empty]

end Url.AuthorityUri

end Celeries
