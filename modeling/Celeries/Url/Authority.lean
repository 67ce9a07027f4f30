import Mathlib.Data.String.Basic
import Celeries.Url.Run
set_option autoImplicit false

/-!
The parse of the URIs this library writes, `scheme://[user:password@]host[:port][/segments]`
with a scheme that is not special: each piece is read in one stretch of turns, and the parser
returns the URL the pieces spell, with the userinfo and the segments percent-encoded.
-/

namespace Celeries.Url
open Js

/-- A scheme the parser keeps as written: an ASCII letter, then scheme code points, none of
which lowercasing changes, and not a special scheme. -/
structure PlainScheme (scheme : List Char) : Prop where
  head : ∃ c cs, scheme = c :: cs ∧ isAsciiAlpha c = true
  chars : ∀ c ∈ scheme, isSchemeChar c = true ∧ c.toLower = c
  notSpecial : isSpecialScheme ⟨scheme⟩ = false

def isUserinfoChar (c : Char) : Bool := isAuthorityChar c && !isTabOrNewline c

def isPlainHostChar (c : Char) : Bool := !isForbiddenHostCodePoint c && !c0ControlSet c

def pathSegment (s : String) : String := ⟨percentEncode pathSet s.toList⟩

def isSegmentText (s : String) : Bool := s.toList.all fun c => isPathChar c && !isC0ControlOrSpace c

def isPlainSegment (s : String) : Bool :=
  isSegmentText s && !isSingleDot (pathSegment s).toList && !isDoubleDot (pathSegment s).toList

/-- The path the path state builds from `/s₁/…/sₙ` after `pre`: a segment ends at the next `/`,
the last one at the end of the input. -/
def endSegments (pre : List String) : List String → List String
  | [] => pre
  | [s] => endSegment false pre (pathSegment s).toList false
  | s :: t :: rest => endSegments (endSegment false pre (pathSegment s).toList true) (t :: rest)

/-- The pieces of `scheme://[user:password@]host[:port][/segments]`: the userinfo split at its
first `:`, and the port as its digits. -/
structure AuthorityUri where
  scheme : List Char
  userinfo : Option (List Char × List Char)
  host : List Char
  port : Option (List Char)
  segments : List String

def userinfoText : Option (List Char × List Char) → List Char
  | none => []
  | some (user, password) => user ++ ':' :: password ++ ['@']

def portSuffix : Option (List Char) → List Char
  | none => []
  | some digits => ':' :: digits

def pathText (segments : List String) : List Char := segments.flatMap fun s => '/' :: s.toList

def AuthorityUri.text (a : AuthorityUri) : List Char :=
  a.scheme ++ ':' :: '/' :: '/' ::
    (userinfoText a.userinfo ++ a.host ++ portSuffix a.port ++ pathText a.segments)

def AuthorityUri.url (a : AuthorityUri) : Url where
  scheme := ⟨a.scheme⟩
  username := ⟨percentEncode userinfoSet ((a.userinfo.map Prod.fst).getD [])⟩
  password := ⟨percentEncode userinfoSet ((a.userinfo.map Prod.snd).getD [])⟩
  host := some ⟨a.host⟩
  port := a.port.map digitsValue
  path := .segments (endSegments [] a.segments)
  query := none
  fragment := none

structure AuthorityUri.Valid (a : AuthorityUri) : Prop where
  scheme : PlainScheme a.scheme
  user : ∀ u p, a.userinfo = some (u, p) → ∀ c ∈ u, isUserinfoChar c = true ∧ c ≠ ':'
  password : ∀ u p, a.userinfo = some (u, p) → ∀ c ∈ p, isUserinfoChar c = true ∨ c = '@'
  host : ∀ c ∈ a.host, isPlainHostChar c = true
  emptyHost : a.host = [] → a.userinfo = none ∧ a.port = none
  port : ∀ digits, a.port = some digits →
    digits ≠ [] ∧ (∀ c ∈ digits, isAsciiDigit c = true) ∧ digitsValue digits ≤ 65535
  segments : ∀ s ∈ a.segments, isSegmentText s = true

theorem serialize_segments (segments : List String) :
    (UrlPath.segments segments).serialize.toList = pathText segments := by
  induction segments with
  | nil => rfl
  | cons s l ih => simp_all [UrlPath.serialize, pathText, Function.comp_def]

section Chars
variable {c : Char}

theorem isAuthorityChar_of_userinfo (h : isUserinfoChar c = true) : isAuthorityChar c = true := by
  simp only [isUserinfoChar, Bool.and_eq_true] at h
  exact h.1

theorem isPlainHostChar_spec (h : isPlainHostChar c = true) :
    isHostChar c = true ∧ isAuthorityChar c = true ∧ isC0ControlOrSpace c = false ∧
      isForbiddenHostCodePoint c = false ∧ c0ControlSet c = false := by
  simp only [isPlainHostChar, Bool.and_eq_true, Bool.not_eq_true'] at h
  refine ⟨?_, ?_, ?_, h.1, h.2⟩
  · simp_all [isHostChar, isForbiddenHostCodePoint]
  · simp_all [isAuthorityChar, isForbiddenHostCodePoint]
  · simp only [isC0ControlOrSpace, isForbiddenHostCodePoint, c0ControlSet, Bool.or_eq_false_iff,
      decide_eq_false_iff_not, beq_eq_false_iff_ne, ne_eq, char_eq_iff_toNat, Char.reduceToNat] at *
    omega

theorem isAsciiDigit_spec (h : isAsciiDigit c = true) :
    isAuthorityChar c = true ∧ isC0ControlOrSpace c = false ∧ isTabOrNewline c = false := by
  simp only [isAsciiDigit, isAuthorityChar, isC0ControlOrSpace, isTabOrNewline, Bool.and_eq_true,
    Bool.or_eq_false_iff, decide_eq_true_eq, decide_eq_false_iff_not, bne_iff_ne, ne_eq,
    beq_eq_false_iff_ne, char_le_iff_toNat, char_eq_iff_toNat, Char.reduceToNat] at *
  omega

theorem isAsciiDigit_path (h : isAsciiDigit c = true) :
    isPathChar c = true ∧ pathSet c = false ∧ c.toLower = c := by
  simp only [isAsciiDigit, Bool.and_eq_true, decide_eq_true_eq, char_le_iff_toNat,
    Char.reduceToNat] at h
  refine ⟨?_, ?_, ?_⟩
  · simp only [isPathChar, Bool.and_eq_true, bne_iff_ne, ne_eq, char_eq_iff_toNat, Char.reduceToNat]
    omega
  · simp only [pathSet, querySet, c0ControlSet, Bool.or_eq_false_iff, decide_eq_false_iff_not,
      beq_eq_false_iff_ne, ne_eq, char_eq_iff_toNat, Char.reduceToNat]
    omega
  · unfold Char.toLower
    simp only [Char.isUpper, Bool.and_eq_true, decide_eq_true_eq, ite_eq_right_iff]
    omega

theorem isSchemeChar_spec (h : isSchemeChar c = true) :
    isC0ControlOrSpace c = false ∧ isTabOrNewline c = false := by
  simp only [isSchemeChar, isAsciiAlphanumeric, isAsciiAlpha, isAsciiUpperAlpha, isAsciiLowerAlpha,
    isAsciiDigit, isC0ControlOrSpace, isTabOrNewline, Bool.or_eq_true, Bool.and_eq_true,
    Bool.or_eq_false_iff, decide_eq_true_eq, decide_eq_false_iff_not, beq_iff_eq,
    beq_eq_false_iff_ne, ne_eq, char_le_iff_toNat, char_eq_iff_toNat, Char.reduceToNat] at *
  omega

theorem isTabOrNewline_of_not_c0 (h : isC0ControlOrSpace c = false) : isTabOrNewline c = false := by
  simp only [isC0ControlOrSpace, isTabOrNewline, Bool.or_eq_false_iff, decide_eq_false_iff_not,
    beq_eq_false_iff_ne, ne_eq, char_eq_iff_toNat, Char.reduceToNat] at *
  omega

end Chars

theorem isPlainSegment_digits (s : String) (h : ∀ c ∈ s.toList, isAsciiDigit c = true) :
    isPlainSegment s = true := by
  have hc : ∀ c ∈ s.toList, isPathChar c = true ∧ pathSet c = false ∧ c.toLower = c :=
    fun c hc => isAsciiDigit_path (h c hc)
  have hseg : (pathSegment s).toList = s.toList := percentEncode_id fun c hx => (hc c hx).2.1
  have hlower : s.toList.map Char.toLower = s.toList :=
    (List.map_congr_left fun c hx => (hc c hx).2.2).trans (List.map_id _)
  have hnot : ∀ L : List (List Char), (∀ l ∈ L, ∃ c ∈ l, isAsciiDigit c = false) →
      s.toList ∉ L := fun L hL hs => by
    obtain ⟨c, hcl, hcd⟩ := hL _ hs
    simp [h c hcl] at hcd
  simp only [isPlainSegment, isSegmentText, hseg, isSingleDot, isDoubleDot, hlower, Bool.and_eq_true,
    List.all_eq_true, Bool.not_eq_true', decide_eq_false_iff_not]
  exact ⟨⟨fun x hx => ⟨(hc x hx).1, (isAsciiDigit_spec (h x hx)).2.1⟩, hnot _ (by decide)⟩,
    hnot _ (by decide)⟩

theorem hostParse_plain (host : List Char) (h : ∀ c ∈ host, isPlainHostChar c = true) :
    hostParse host true = some ⟨host⟩ := by
  have hf : host.any isForbiddenHostCodePoint = false := by
    simpa using fun c hc => (isPlainHostChar_spec (h c hc)).2.2.2.1
  have hopaque : opaqueHostParse host = some ⟨host⟩ := by
    simp [opaqueHostParse, hf, percentEncode_id fun c hc => (isPlainHostChar_spec (h c hc)).2.2.2.2]
  cases host with
  | nil => exact hopaque
  | cons c cs =>
    have hc : c ≠ '[' := by
      rintro rfl
      simp [isPlainHostChar, isForbiddenHostCodePoint] at h
    simpa [hostParse, hc] using hopaque

def authorityCtx (url : Url) : Ctx := ⟨url, [], false, false, false⟩

theorem flatMap_toLower (l : List Char) (h : ∀ c ∈ l, c.toLower = c) :
    l.flatMap (fun c => [c.toLower]) = l := by
  induction l with
  | nil => rfl
  | cons c l ih => simp [h c (.head _), ih (fun x hx => h x (.tail _ hx))]

theorem run_scheme (scheme rest : List Char) (h : PlainScheme scheme) (f : Nat) :
    run (f + (scheme.length + 2)) .schemeStart (scheme ++ ':' :: '/' :: '/' :: rest) .initial =
      run f .authority rest (authorityCtx { Url.empty with scheme := ⟨scheme⟩ }) := by
  obtain ⟨c, cs, rfl, hc⟩ := h.head
  have hcs : ∀ x ∈ cs, isSchemeChar x = true := fun x hx => (h.chars x (.tail _ hx)).1
  have hbuf : c.toLower :: cs.flatMap (fun x => [x.toLower]) = c :: cs := by
    rw [(h.chars c (.head _)).2, flatMap_toLower cs (fun x hx => (h.chars x (.tail _ hx)).2)]
  rw [show f + ((c :: cs).length + 2) = (f + 1 + 1 + cs.length) + 1 by simp; omega,
    List.cons_append, run_next (step_schemeStart hc _ _),
    run_chunk .scheme (fun x => [x.toLower]) isSchemeChar
      (fun x r ctx _ hx => step_scheme_char hx r ctx) cs _ hcs _ (by rfl),
    run_next (step_scheme_colon_slash _ _ (by simpa [Ctx.initial, hbuf] using h.notSpecial)),
    run_next (step_pathOrAuthority_slash _ _)]
  simp [Ctx.initial, authorityCtx, hbuf]

theorem userinfoChar_colon (ctx : Ctx) (h : ctx.passwordTokenSeen = false) :
    userinfoChar ctx ':' = { ctx with passwordTokenSeen := true } :=
  if_pos ⟨rfl, h⟩

theorem run_userinfo_plain (user password rest : List Char) (url : Url)
    (hsp : isSpecialScheme url.scheme = false) (hu : ∀ c ∈ user, isUserinfoChar c = true ∧ c ≠ ':')
    (hp : ∀ c ∈ password, isUserinfoChar c = true) (f : Nat) :
    run (f + (user.length + password.length + 2)) .authority
        (user ++ ':' :: password ++ '@' :: rest) (authorityCtx url) =
      run f .authority rest
        ⟨{ url with
            username := url.username ++ ⟨percentEncode userinfoSet user⟩
            password := url.password ++ ⟨percentEncode userinfoSet password⟩ },
          [], true, false, true⟩ := by
  have hchars : ∀ c ∈ user ++ ':' :: password, isAuthorityChar c = true := by
    simp only [List.mem_append, List.mem_cons]
    rintro c (hc | rfl | hc)
    · exact isAuthorityChar_of_userinfo (hu c hc).1
    · rfl
    · exact isAuthorityChar_of_userinfo (hp c hc)
  rw [show user ++ ':' :: password ++ '@' :: rest = (user ++ ':' :: password) ++ '@' :: rest by simp,
    show f + (user.length + password.length + 2) = f + 1 + (user ++ ':' :: password).length by
      simp; omega,
    run_chunk .authority (fun c => [c]) isAuthorityChar
      (fun c r ctx hs hc => step_authority_char hc r ctx hs) _ _ hchars (authorityCtx url) hsp,
    run_next (step_authority_at _ _ rfl)]
  simp only [authorityCtx, List.flatMap_singleton', List.nil_append, List.foldl_append]
  rw [foldl_userinfoChar_username _ _ rfl (fun c hc => (hu c hc).2), List.foldl_cons,
    userinfoChar_colon _ rfl, foldl_userinfoChar_password _ _ rfl]

/-- Past the first `@` of the userinfo, every later `@` appends what was buffered since the one
before to the password, behind `%40`, which is how `@` itself is encoded. -/
theorem run_password_tail (buffer password rest : List Char) (url : Url)
    (hsp : isSpecialScheme url.scheme = false) (hp : ∀ c ∈ password, isUserinfoChar c = true ∨ c = '@') (f : Nat) :
    run (f + (password.length + 1)) .authority (password ++ '@' :: rest) ⟨url, buffer, true, false, true⟩ =
      run f .authority rest
        ⟨{ url with password := url.password ++ ⟨percentEncode userinfoSet ('@' :: buffer ++ password)⟩ },
          [], true, false, true⟩ := by
  have hat : percentEncode userinfoSet ['%', '4', '0'] = percentEncode userinfoSet ['@'] := by decide
  induction password generalizing buffer url with
  | nil =>
    rw [List.nil_append, List.length_nil, Nat.zero_add,
      run_next (step_authority_at_again rest ⟨url, buffer, true, false, true⟩ rfl),
      foldl_userinfoChar_password _ _ rfl]
    simp only [percentEncode, List.flatMap_append, List.append_nil] at hat ⊢
    rw [hat]
    rfl
  | cons c password ih =>
    have hrest : ∀ x ∈ password, isUserinfoChar x = true ∨ x = '@' := fun x hx => hp x (.tail _ hx)
    rw [show f + ((c :: password).length + 1) = f + (password.length + 1) + 1 by simp; omega]
    rcases hp c (.head _) with hc | rfl
    · rw [List.cons_append,
        run_next (step_authority_char (isAuthorityChar_of_userinfo hc) _ ⟨url, buffer, true, false, true⟩ hsp),
        ih _ _ hsp hrest]
      simp
    · rw [List.cons_append,
        run_next (step_authority_at_again (password ++ '@' :: rest) ⟨url, buffer, true, false, true⟩ rfl),
        foldl_userinfoChar_password _ _ rfl, ih _ _ (by exact hsp) hrest]
      simp only [percentEncode, List.flatMap_append, List.flatMap_cons, List.nil_append,
        List.cons_append] at hat ⊢
      simp only [hat, String.append_assoc]
      rfl

theorem run_userinfo (user password rest : List Char) (url : Url)
    (hsp : isSpecialScheme url.scheme = false) (hu : ∀ c ∈ user, isUserinfoChar c = true ∧ c ≠ ':')
    (hp : ∀ c ∈ password, isUserinfoChar c = true ∨ c = '@') (f : Nat) :
    run (f + (user.length + password.length + 2)) .authority
        (user ++ ':' :: password ++ '@' :: rest) (authorityCtx url) =
      run f .authority rest
        ⟨{ url with
            username := url.username ++ ⟨percentEncode userinfoSet user⟩
            password := url.password ++ ⟨percentEncode userinfoSet password⟩ },
          [], true, false, true⟩ := by
  have hfirst : ∀ c ∈ password.takeWhile (· != '@'), isUserinfoChar c = true := fun c hc => by
    have hne := List.mem_takeWhile_imp hc
    rcases hp c ((List.takeWhile_sublist _).subset hc) with h | rfl
    · exact h
    · simp at hne
  rcases hd : password.dropWhile (· != '@') with _ | ⟨c, tail⟩
  · have hpw : password = password.takeWhile (· != '@') := by
      simpa [hd] using (List.takeWhile_append_dropWhile (· != '@') password).symm
    rw [hpw] at hp ⊢
    exact run_userinfo_plain user _ rest url hsp hu hfirst f
  · have hc : c = '@' := by
      have := List.head_dropWhile_not (· != '@') password (by simp [hd])
      simpa [hd] using this
    subst hc
    have hpw : password = password.takeWhile (· != '@') ++ '@' :: tail := by
      rw [← hd, List.takeWhile_append_dropWhile]
    have htail : ∀ x ∈ tail, isUserinfoChar x = true ∨ x = '@' :=
      fun x hx => hp x (by rw [hpw]; simp [hx])
    rw [hpw, show user ++ ':' :: (password.takeWhile (· != '@') ++ '@' :: tail) ++ '@' :: rest =
        user ++ ':' :: password.takeWhile (· != '@') ++ '@' :: (tail ++ '@' :: rest) by simp,
      show f + (user.length + (password.takeWhile (· != '@') ++ '@' :: tail).length + 2) =
        f + (tail.length + 1) + (user.length + (password.takeWhile (· != '@')).length + 2) by
        simp; omega,
      run_userinfo_plain user _ _ url hsp hu hfirst, run_password_tail [] tail rest _ (by exact hsp) htail]
    simp [percentEncode, String.append_assoc]
    rfl

theorem run_authority_hostPort (hostPort path : List Char) (ctx : Ctx) (hsp : ctx.special = false)
    (hb : ctx.buffer = []) (hc : ∀ c ∈ hostPort, isAuthorityChar c = true)
    (hpath : path = [] ∨ ∃ rest, path = '/' :: rest)
    (hat : ctx.atSignSeen = false ∨ hostPort ≠ []) (f : Nat) :
    run (f + (hostPort.length + 1)) .authority (hostPort ++ path) ctx =
      run f .host (hostPort ++ path) ctx := by
  obtain ⟨url, buffer, atSignSeen, insideBrackets, passwordTokenSeen⟩ := ctx
  simp only at hb hat
  subst hb
  rw [Nat.add_comm hostPort.length, ← Nat.add_assoc,
    run_chunk .authority (fun c => [c]) isAuthorityChar
      (fun c r ctx hs hc => step_authority_char hc r ctx hs) _ _ hc _ hsp,
    run_next ((step_authority_end _ _ hpath).trans (authorityEnd_next _ _ (by simpa using hat)))]
  simp

theorem run_host (host : List Char) (port : Option (List Char)) (path : List Char) (ctx : Ctx)
    (hsp : ctx.special = false) (hb : ctx.buffer = []) (hi : ctx.insideBrackets = false) (hnp : ctx.url.port = none)
    (hh : ∀ c ∈ host, isPlainHostChar c = true) (hne : host = [] → port = none)
    (hport : ∀ digits, port = some digits →
      digits ≠ [] ∧ (∀ c ∈ digits, isAsciiDigit c = true) ∧ digitsValue digits ≤ 65535)
    (hpath : path = [] ∨ ∃ rest, path = '/' :: rest) (f : Nat) :
    run (f + (host.length + (portSuffix port).length + 1)) .host (host ++ portSuffix port ++ path)
        ctx =
      run f .pathStart path
        { ctx with url := { ctx.url with host := some ⟨host⟩, port := port.map digitsValue } } := by
  obtain ⟨url, buffer, atSignSeen, insideBrackets, passwordTokenSeen⟩ := ctx
  simp only at hb hi hnp
  subst hb hi
  have hchunk := run_chunk .host (fun c => [c]) isHostChar
    (fun c r ctx hs hc => step_host_char hc r ctx hs) host (portSuffix port ++ path)
    (fun c hc => (isPlainHostChar_spec (hh c hc)).1) _ hsp
  rw [List.append_assoc]
  cases port with
  | none =>
    rw [show f + (host.length + (portSuffix none).length + 1) = f + 1 + host.length by
        simp [portSuffix]; omega, hchunk, portSuffix, List.nil_append,
      run_next ((step_host_end _ _ hpath).trans (hostEnd_next (by exact hsp) (by simpa using hostParse_plain host hh) _))]
    simp [hnp]
  | some digits =>
    obtain ⟨hdne, hdigits, hv⟩ := hport digits rfl
    have hhost : host ≠ [] := by
      rintro rfl
      exact absurd (hne rfl) (by simp)
    rw [show f + (host.length + (portSuffix (some digits)).length + 1) =
        f + 1 + digits.length + 1 + host.length by simp [portSuffix]; omega,
      hchunk, portSuffix, List.cons_append,
      run_next (step_host_colon _ _ (by exact hsp) rfl (by simpa using hhost) (by simpa using hostParse_plain host hh)),
      run_chunk .port (fun c => [c]) isAsciiDigit (fun c r ctx _ hc => step_port_digit hc r ctx)
        digits path hdigits _ (by exact hsp),
      run_next ((step_port_end _ _ hpath).trans
        (portEnd_next (by exact hsp) (by simpa using hdne) (by simpa using hv) _))]
    simp

theorem isSegmentText_spec {s : String} (h : isSegmentText s = true) :
    ∀ c ∈ s.toList, isPathChar c = true ∧ isC0ControlOrSpace c = false := by
  simpa [isSegmentText] using h

theorem isPlainSegment_spec {s : String} (h : isPlainSegment s = true) :
    isSegmentText s = true ∧ isSingleDot (pathSegment s).toList = false ∧
      isDoubleDot (pathSegment s).toList = false := by
  simpa [isPlainSegment, and_assoc] using h

theorem endSegments_plain (pre segments : List String)
    (h : ∀ s ∈ segments, isPlainSegment s = true) :
    endSegments pre segments = pre ++ segments.map pathSegment := by
  have hend : ∀ pre s slash, isPlainSegment s = true →
      endSegment false pre (pathSegment s).toList slash = pre ++ [pathSegment s] := by
    intro pre s slash hs
    obtain ⟨-, h1, h2⟩ := isPlainSegment_spec hs
    simp only [endSegment, h1, h2, Bool.false_and, Bool.false_eq_true, if_false]
    rfl
  induction pre, segments using endSegments.induct with
  | case1 pre => simp [endSegments]
  | case2 pre s =>
    rw [endSegments, hend pre s false (h s (.head _))]
    rfl
  | case3 pre s t rest ih =>
    rw [endSegments, ih fun x hx => h x (.tail _ hx), hend pre s true (h s (.head _))]
    simp

theorem endPathSegment_eq (ctx : Ctx) (pre : List String) (slash : Bool)
    (hsp : ctx.special = false) (hpre : ctx.url.path = .segments pre) :
    endPathSegment ctx slash = { ctx with
      url := { ctx.url with path := .segments (endSegment false pre ctx.buffer slash) }
      buffer := [] } := by
  simp [endPathSegment, hpre, UrlPath.segmentList, beq_false_of_ne (ne_file_of_not_special hsp)]

theorem run_path_segment (s : String) (rest : List Char) (ctx : Ctx) (hsp : ctx.special = false)
    (hb : ctx.buffer = [])
    (hs : ∀ c ∈ s.toList, isPathChar c = true) (f : Nat) :
    run (f + s.toList.length) .path (s.toList ++ rest) ctx =
      run f .path rest { ctx with buffer := (pathSegment s).toList } := by
  rw [run_chunk .path (utf8PercentEncode pathSet) isPathChar
    (fun c r ctx hs hc => step_path_char hc r ctx hs) _ _ hs _ hsp, hb]
  rfl

theorem run_path_segments (s : String) (segments : List String) (ctx : Ctx) (pre : List String)
    (hsp : ctx.special = false) (hb : ctx.buffer = []) (hpre : ctx.url.path = .segments pre)
    (hs : ∀ t ∈ s :: segments, isSegmentText t = true) (f : Nat) :
    run (f + (s.toList.length + (pathText segments).length + 1)) .path
        (s.toList ++ pathText segments) ctx =
      some { ctx.url with path := .segments (endSegments pre (s :: segments)) } := by
  induction segments generalizing s ctx pre with
  | nil =>
    have hchars := isSegmentText_spec (hs s (.head _))
    rw [show f + (s.toList.length + (pathText []).length + 1) = f + 1 + s.toList.length by
        simp [pathText]; omega, show pathText [] = [] from rfl,
      run_path_segment s [] ctx hsp hb (fun c hc => (hchars c hc).1), run_done (step_path_end _),
      endPathSegment_eq { ctx with buffer := (pathSegment s).toList } pre false hsp hpre]
    rfl
  | cons t segments ih =>
    have hchars := isSegmentText_spec (hs s (.head _))
    rw [show f + (s.toList.length + (pathText (t :: segments)).length + 1) =
        f + (t.toList.length + (pathText segments).length + 1) + 1 + s.toList.length by
        simp [pathText]; omega,
      show pathText (t :: segments) = '/' :: (t.toList ++ pathText segments) from rfl,
      run_path_segment s _ ctx hsp hb (fun c hc => (hchars c hc).1), run_next (step_path_slash _ _),
      endPathSegment_eq { ctx with buffer := (pathSegment s).toList } pre true hsp hpre,
      ih t _ (endSegment false pre (pathSegment s).toList true) (by exact hsp) rfl rfl
        (fun u hu => hs u (.tail _ hu))]
    rfl

theorem run_pathStart (segments : List String) (ctx : Ctx) (hsp : ctx.special = false)
    (hb : ctx.buffer = [])
    (hpre : ctx.url.path = .segments []) (hs : ∀ t ∈ segments, isSegmentText t = true)
    (f : Nat) :
    run (f + ((pathText segments).length + 1)) .pathStart (pathText segments) ctx =
      some { ctx.url with path := .segments (endSegments [] segments) } := by
  cases segments with
  | nil =>
    rw [show pathText [] = [] from rfl, List.length_nil, Nat.zero_add,
      run_done (step_pathStart_end _ hsp), show endSegments [] [] = [] from rfl, ← hpre]
  | cons s segments =>
    rw [show pathText (s :: segments) = '/' :: (s.toList ++ pathText segments) from rfl,
      show f + (('/' :: (s.toList ++ pathText segments)).length + 1) =
        f + (s.toList.length + (pathText segments).length + 1) + 1 by simp; omega,
      run_next (step_pathStart_slash _ _), run_path_segments s segments ctx [] hsp hb hpre hs]

theorem pathText_head (segments : List String) :
    pathText segments = [] ∨ ∃ rest, pathText segments = '/' :: rest := by
  cases segments with
  | nil => exact .inl rfl
  | cons s segments => exact .inr ⟨_, rfl⟩

theorem run_hostPortPath (host : List Char) (port : Option (List Char)) (segments : List String)
    (ctx : Ctx) (hsp : ctx.special = false) (hb : ctx.buffer = []) (hi : ctx.insideBrackets = false)
    (hnp : ctx.url.port = none) (hpre : ctx.url.path = .segments [])
    (hh : ∀ c ∈ host, isPlainHostChar c = true) (hne : host = [] → port = none)
    (hport : ∀ digits, port = some digits →
      digits ≠ [] ∧ (∀ c ∈ digits, isAsciiDigit c = true) ∧ digitsValue digits ≤ 65535)
    (hs : ∀ t ∈ segments, isSegmentText t = true)
    (hat : ctx.atSignSeen = false ∨ host ≠ []) (f : Nat) :
    run (f + ((pathText segments).length + 1) + (host.length + (portSuffix port).length + 1) +
        ((host ++ portSuffix port).length + 1)) .authority
        (host ++ portSuffix port ++ pathText segments) ctx =
      some { ctx.url with
        host := some ⟨host⟩, port := port.map digitsValue, path := .segments (endSegments [] segments) } := by
  have hc : ∀ c ∈ host ++ portSuffix port, isAuthorityChar c = true := by
    intro c hc
    simp only [List.mem_append] at hc
    rcases hc with hc | hc
    · exact (isPlainHostChar_spec (hh c hc)).2.1
    · cases port with
      | none => simp [portSuffix] at hc
      | some digits =>
        rcases List.mem_cons.1 hc with rfl | hc
        · rfl
        · exact (isAsciiDigit_spec ((hport digits rfl).2.1 c hc)).1
  have hat' : ctx.atSignSeen = false ∨ host ++ portSuffix port ≠ [] := by
    rcases hat with hat | hat
    · exact .inl hat
    · exact .inr (by simp [hat])
  rw [run_authority_hostPort _ _ ctx hsp hb hc (pathText_head segments) hat',
    run_host host port _ ctx hsp hb hi hnp hh hne hport (pathText_head segments),
    run_pathStart segments
      { ctx with url := { ctx.url with host := some ⟨host⟩, port := port.map digitsValue } } hsp hb
        hpre hs]

theorem dropWhile_of_head {p : Char → Bool} {l : List Char} (h : ∀ c ∈ l.head?, p c = false) :
    l.dropWhile p = l := by
  cases l with
  | nil => rfl
  | cons c l => simp [List.dropWhile, h c rfl]

theorem preprocess_of_clean (l : List Char)
    (hhead : ∀ c ∈ l.head?, isC0ControlOrSpace c = false)
    (hlast : ∀ c ∈ l.getLast?, isC0ControlOrSpace c = false)
    (h : ∀ c ∈ l, isTabOrNewline c = false) :
    preprocess ⟨l⟩ = l := by
  show (((l.dropWhile isC0ControlOrSpace).reverse.dropWhile isC0ControlOrSpace).reverse).filter
    (fun c => !isTabOrNewline c) = l
  rw [dropWhile_of_head hhead, dropWhile_of_head (by simpa [List.head?_reverse] using hlast),
    List.reverse_reverse]
  simpa using h

theorem forall_getLast?_append {P : Char → Prop} {l m : List Char} (hm : ∀ c ∈ m, P c)
    (hl : m = [] → ∀ c ∈ l.getLast?, P c) : ∀ c ∈ (l ++ m).getLast?, P c := by
  rcases List.eq_nil_or_concat m with rfl | ⟨m, x, rfl⟩
  · simpa using hl rfl
  · simpa using hm x (by simp)

namespace AuthorityUri
variable {a : AuthorityUri}

theorem body_not_c0 (h : a.Valid) :
    ∀ c ∈ a.host ++ portSuffix a.port ++ pathText a.segments, isC0ControlOrSpace c = false := by
  intro c hc
  simp only [List.mem_append] at hc
  rcases hc with (hc | hc) | hc
  · exact (isPlainHostChar_spec (h.host c hc)).2.2.1
  · cases hp : a.port with
    | none => simp [hp, portSuffix] at hc
    | some digits =>
      rw [hp, portSuffix] at hc
      rcases List.mem_cons.1 hc with rfl | hc
      · rfl
      · exact (isAsciiDigit_spec ((h.port digits hp).2.1 c hc)).2.1
  · simp only [pathText, List.mem_flatMap, List.mem_cons] at hc
    obtain ⟨s, hs, rfl | hc⟩ := hc
    · rfl
    · exact (isSegmentText_spec (h.segments s hs) c hc).2

theorem userinfo_no_tab (h : a.Valid) : ∀ c ∈ userinfoText a.userinfo, isTabOrNewline c = false := by
  intro c hc
  cases hu : a.userinfo with
  | none => simp [hu, userinfoText] at hc
  | some up =>
    obtain ⟨u, p⟩ := up
    simp only [hu, userinfoText, List.mem_append, List.mem_cons, List.not_mem_nil, or_false] at hc
    have hchar : ∀ c, isUserinfoChar c = true → isTabOrNewline c = false := fun c hc => by
      simp only [isUserinfoChar, Bool.and_eq_true, Bool.not_eq_true'] at hc
      exact hc.2
    rcases hc with (hc | rfl | hc) | rfl
    · exact hchar c (h.user u p hu c hc).1
    · rfl
    · rcases h.password u p hu c hc with hc | rfl
      · exact hchar c hc
      · rfl
    · rfl

theorem preprocess_text (h : a.Valid) : preprocess ⟨a.text⟩ = a.text := by
  obtain ⟨c, cs, hsc, hc⟩ := h.scheme.head
  have hschar : ∀ x ∈ a.scheme, isC0ControlOrSpace x = false ∧ isTabOrNewline x = false :=
    fun x hx => isSchemeChar_spec (h.scheme.chars x hx).1
  have htext : a.text = (a.scheme ++ ':' :: '/' :: '/' :: userinfoText a.userinfo) ++
      (a.host ++ portSuffix a.port ++ pathText a.segments) := by
    simp [AuthorityUri.text]
  apply preprocess_of_clean
  · simpa [AuthorityUri.text, hsc] using (hschar c (by simp [hsc])).1
  · rw [htext]
    refine forall_getLast?_append (body_not_c0 h) fun hm => ?_
    have hhost : a.host = [] := by simp_all
    simp [(h.emptyHost hhost).1, userinfoText]
    rfl
  · rw [htext]
    intro x hx
    rcases List.mem_append.1 hx with hx | hx
    · simp only [List.mem_append, List.mem_cons] at hx
      rcases hx with hx | rfl | rfl | rfl | hx
      · exact (hschar x hx).2
      · rfl
      · rfl
      · rfl
      · exact userinfo_no_tab h x hx
    · exact isTabOrNewline_of_not_c0 (body_not_c0 h x hx)

end AuthorityUri

/-- `URL.parse` of `scheme://[user:password@]host[:port][/segments]`. -/
theorem parse_authorityUri (a : AuthorityUri) (h : a.Valid) : parse ⟨a.text⟩ = some a.url := by
  simp only [parse, a.preprocess_text h]
  obtain ⟨scheme, userinfo, host, port, segments⟩ := a
  obtain ⟨F, hF⟩ : ∃ F, 2 * (AuthorityUri.text ⟨scheme, userinfo, host, port, segments⟩).length + 10 =
      F + ((pathText segments).length + 1) + (host.length + (portSuffix port).length + 1) +
        ((host ++ portSuffix port).length + 1) + (userinfoText userinfo).length +
        (scheme.length + 2) :=
    ⟨2 * (AuthorityUri.text ⟨scheme, userinfo, host, port, segments⟩).length + 10 -
      ((pathText segments).length + 1 + (host.length + (portSuffix port).length + 1) +
        ((host ++ portSuffix port).length + 1) + (userinfoText userinfo).length +
        (scheme.length + 2)), by simp [AuthorityUri.text]; omega⟩
  rw [hF, AuthorityUri.text, run_scheme _ _ h.scheme]
  cases userinfo with
  | none =>
    rw [userinfoText, List.length_nil, Nat.add_zero, List.nil_append,
      run_hostPortPath host port segments _ (by exact h.scheme.notSpecial) rfl rfl rfl rfl h.host
        (fun hh => (h.emptyHost hh).2) h.port h.segments (.inl rfl)]
    rfl
  | some up =>
    obtain ⟨u, p⟩ := up
    have hhost : host ≠ [] := fun hh => by simpa using (h.emptyHost hh).1
    rw [show userinfoText (some (u, p)) ++ host ++ portSuffix port ++ pathText segments =
        u ++ ':' :: p ++ '@' :: (host ++ portSuffix port ++ pathText segments) by simp [userinfoText],
      show (userinfoText (some (u, p))).length = u.length + p.length + 2 by simp [userinfoText]; omega,
      run_userinfo u p _ _ h.scheme.notSpecial (h.user u p rfl) (h.password u p rfl),
      run_hostPortPath host port segments _ (by exact h.scheme.notSpecial) rfl rfl rfl rfl h.host
        (fun hh => (h.emptyHost hh).2) h.port h.segments (.inr hhost)]
    rfl

end Celeries.Url
