import Celeries.Amqp.Uri
import Celeries.Uri.Authority
import Celeries.Js.Language
set_option autoImplicit false

/-!
The vhost of `parseAmqpUri` (`src/amqp/uri.ts`) read back. `appendVhost` does not take it from
`parseUri`: it matches `VHOST_REGEX` against the raw string and decodes the group, which is all
that follows the last `/`. A vhost written as the URI's only path segment, percent-encoded but for
the code points of `\w`, `-` and `~`, comes back as it was, beside the host, the port and the
protocol of the scheme.
-/

namespace Celeries.Amqp
open Js Pattern Url

def isVhostUnreserved (c : Char) : Bool := isAsciiAlphanumeric c || c == '_' || c == '-' || c == '~'

def vhostSegment (vhost : String) : String :=
  ⟨percentEncode (fun c => !isVhostUnreserved c) vhost.toList⟩

def vhostUri (scheme host : String) (port : Option Nat) (vhost : String) : AuthorityUri where
  scheme := scheme.toList
  userinfo := none
  host := host.toList
  port := port.map fun p => (toString p).toList
  segments := [vhostSegment vhost]

def vhostOptions (protocol host : String) (port : Option Nat) (vhost : String) : Obj :=
  [("hostname", .str host), ("protocol", .str protocol)] ++ (port.map fun p => [("port", .num p)]).getD [] ++
    [("vhost", .str vhost)]

section Segment
variable {c : Char}

theorem hexDigit_unreserved : ∀ n, n < 16 → isVhostUnreserved (hexDigit n) = true := by decide

theorem mem_vhostSegment {vhost : String} {x : Char} (hx : x ∈ (vhostSegment vhost).toList) :
    isVhostUnreserved x = true ∨ x = '%' := by
  have hx : x ∈ vhost.toList.flatMap (utf8PercentEncode fun c => !isVhostUnreserved c) := hx
  obtain ⟨c, -, hx⟩ := List.mem_flatMap.1 hx
  rcases mem_utf8PercentEncode hx with ⟨rfl, h⟩ | h | ⟨n, hn, rfl⟩
  · exact .inl (by simpa using h)
  · exact .inr h
  · exact .inl (hexDigit_unreserved n hn)

theorem segmentChar_spec (h : isVhostUnreserved c = true ∨ c = '%') :
    vhostChar.mem c = true ∧ isPathChar c = true ∧ isC0ControlOrSpace c = false := by
  simp only [isVhostUnreserved, Bool.or_eq_true, beq_iff_eq] at h
  rcases h with (((h | rfl) | rfl) | rfl) | rfl
  · simp only [isAsciiAlphanumeric, isAsciiAlpha, isAsciiUpperAlpha, isAsciiLowerAlpha, isAsciiDigit,
      Bool.or_eq_true, Bool.and_eq_true, decide_eq_true_eq, char_le_iff_toNat, Char.reduceToNat] at h
    refine ⟨?_, ?_, ?_⟩
    · simp only [CharClass.mem, vhostChar, wordRanges, digitRanges, List.cons_append, List.nil_append,
        List.any_cons, List.any_nil, Bool.or_false, bne_iff_ne, ne_eq, Bool.not_eq_false,
        Bool.or_eq_true, Bool.and_eq_true, decide_eq_true_eq, char_le_iff_toNat, Char.reduceToNat]
      omega
    · simp only [isPathChar, Bool.and_eq_true, bne_iff_ne, ne_eq, char_eq_iff_toNat, Char.reduceToNat]
      omega
    · simp only [isC0ControlOrSpace, decide_eq_false_iff_not]
      omega
  all_goals decide

end Segment

/-- A vhost's segment may stand in a path, whatever the vhost: `.` is written `%2E`. -/
theorem vhostSegment_text (vhost : String) : isSegmentText (vhostSegment vhost) = true := by
  simp only [isSegmentText, List.all_eq_true, Bool.and_eq_true, Bool.not_eq_true']
  exact fun x hx => (segmentChar_spec (mem_vhostSegment hx)).2

theorem mem_matches_foldr_seq (ps : List Pattern) {q : Pattern} {caps : Captures} {s : List Char}
    {r : Captures × List Char} (hr : r ∈ (ps.foldr Pattern.seq q).matches caps s) :
    ∃ pre caps' s', s = pre ++ s' ∧ r ∈ q.matches caps' s' := by
  induction ps generalizing caps s with
  | nil => exact ⟨[], caps, s, rfl, hr⟩
  | cons p ps ih =>
    rw [List.foldr_cons, matches_seq] at hr
    obtain ⟨r', hr', hr⟩ := List.mem_flatMap.1 hr
    obtain ⟨pre, hs, -⟩ := matches_consumes p caps s r' hr'
    obtain ⟨pre', caps', s', hs', hr⟩ := ih hr
    exact ⟨pre ++ pre', caps', s', by rw [hs, hs', List.append_assoc], hr⟩

theorem mem_matches_slash_group {k : CharClass} {caps : Captures} {s : List Char}
    {r : Captures × List Char}
    (hr : r ∈ (Pattern.seq (lit '/') (.seq (.group 1 (star (.cls k))) .eoi)).matches caps s) :
    ∃ w, s = '/' :: w ∧ (∀ c ∈ w, k.mem c = true) ∧ r.1.lookup 1 = some w := by
  rw [matches_seq] at hr
  obtain ⟨r₁, h₁, hr⟩ := List.mem_flatMap.1 hr
  obtain ⟨w, rfl, rfl⟩ : ∃ w, s = '/' :: w ∧ r₁ = (caps, w) := by
    cases s with
    | nil => simp [lit] at h₁
    | cons x w =>
      rw [lit, matches_cls_cons] at h₁
      split at h₁
      · rename_i hm
        exact ⟨w, by rw [(CharClass.mem_lit_iff _ _).1 hm], List.mem_singleton.1 h₁⟩
      · simp at h₁
  rw [matches_seq] at hr
  obtain ⟨r₂, h₂, hr⟩ := List.mem_flatMap.1 hr
  rw [matches_eoi] at hr
  split at hr
  · rename_i hnil
    obtain rfl := List.mem_singleton.1 hr
    rw [matches_group] at h₂
    obtain ⟨r', h', rfl⟩ := List.mem_map.1 h₂
    obtain ⟨pre, hw, hpre⟩ := matches_consumes _ _ _ r' h'
    dsimp only at hnil hw
    rw [hnil, List.append_nil] at hw
    subst hw
    exact ⟨w, rfl, hpre, by simp [hnil]⟩
  · simp at hr

/-- `VHOST_REGEX` captures the code points of its class after the last `/` it matches. -/
theorem VHOST_REGEX_exec {s : List Char} {caps : Captures} (h : VHOST_REGEX.exec ⟨s⟩ = some caps) :
    ∃ u w, s = u ++ '/' :: w ∧ (∀ c ∈ w, vhostChar.mem c = true) ∧ capture caps 1 = ⟨w⟩ := by
  obtain ⟨r, hr, rfl⟩ := Option.map_eq_some'.1 h
  have hr : r ∈ ([plus dot, lit ':', lit '/', lit '/', star (.cls ⟨[('/', '/')], true⟩)].foldr Pattern.seq
      (.seq (lit '/') (.seq (.group 1 (star (.cls vhostChar))) .eoi))).matches [] s :=
    List.mem_of_mem_head? hr
  obtain ⟨pre, caps', s', rfl, hq⟩ := mem_matches_foldr_seq _ hr
  obtain ⟨w, rfl, hw, hcap⟩ := mem_matches_slash_group hq
  exact ⟨pre, w, rfl, hw, by simp [capture, hcap]⟩

theorem append_cons_inj {α : Type} {c : α} {u u' w w' : List α} (h : u ++ c :: w = u' ++ c :: w')
    (hw : c ∉ w) (hw' : c ∉ w') : w = w' := by
  induction u generalizing u' with
  | nil =>
    cases u' with
    | nil => simpa using h
    | cons x u' =>
      obtain ⟨rfl, rfl⟩ := List.cons.inj h
      simp at hw
  | cons x u ih =>
    cases u' with
    | nil =>
      obtain ⟨rfl, rfl⟩ := List.cons.inj h
      simp at hw'
    | cons y u' => exact ih (List.cons.inj h).2

theorem mem_of_slash_before {pre post u w : List Char} (h : pre ++ '?' :: post = u ++ '/' :: w)
    (hpost : '/' ∉ post) : '?' ∈ w := by
  rcases List.append_eq_append_iff.1 h with ⟨a, -, ha⟩ | ⟨c, -, hc⟩
  · rcases a with _ | ⟨x, a⟩
    · cases ha
    · obtain ⟨-, rfl⟩ := List.cons.inj ha
      exact absurd (List.mem_append_right a (List.mem_cons_self '/' w)) hpost
  · rcases c with _ | ⟨x, c⟩
    · cases hc
    · obtain ⟨-, rfl⟩ := List.cons.inj hc
      exact List.mem_append_right c (List.mem_cons_self '?' post)

theorem appendVhost_of_query (pre post : List Char) (hpost : '/' ∉ post) (options : Obj) :
    appendVhost ⟨pre ++ '?' :: post⟩ options = .ok options := by
  cases h : VHOST_REGEX.exec ⟨pre ++ '?' :: post⟩ with
  | none => rw [appendVhost, h]
  | some caps =>
    obtain ⟨u, w, hs, hw, -⟩ := VHOST_REGEX_exec h
    exact absurd (hw '?' (mem_of_slash_before hs hpost)) (by decide)

theorem derives_VHOST_REGEX {scheme auth w : List Char} (hs : scheme ≠ [])
    (hsc : ∀ c ∈ scheme, isSchemeChar c = true) (ha : ∀ c ∈ auth, c ≠ '/')
    (hw : ∀ c ∈ w, vhostChar.mem c = true) :
    Derives VHOST_REGEX (scheme ++ ':' :: '/' :: '/' :: (auth ++ '/' :: w)) [] := by
  obtain ⟨c, cs, rfl⟩ := List.exists_cons_of_ne_nil hs
  have hdot : ∀ x ∈ c :: cs, CharClass.mem ⟨[('\n', '\n'), ('\r', '\r'), (' ', ' ')], true⟩ x =
      true := fun x hx => by
    have := hsc x hx
    simp only [isSchemeChar, isAsciiAlphanumeric, isAsciiAlpha, isAsciiUpperAlpha,
      isAsciiLowerAlpha, isAsciiDigit, Bool.or_eq_true, Bool.and_eq_true, decide_eq_true_eq,
      beq_iff_eq, char_le_iff_toNat, char_eq_iff_toNat, Char.reduceToNat] at this
    simp only [CharClass.mem, List.any_cons, List.any_nil, Bool.or_false, bne_iff_ne, ne_eq,
      Bool.not_eq_true, Bool.or_eq_false_iff, Bool.and_eq_false_iff, decide_eq_false_iff_not,
      char_le_iff_toNat, Char.reduceToNat]
    omega
  have hslash : ∀ x ∈ auth, CharClass.mem ⟨[('/', '/')], true⟩ x = true := fun x hx => by
    simpa [CharClass.mem, char_le_iff_toNat, char_eq_iff_toNat, Nat.le_antisymm_iff] using ha x hx
  have hlit : ∀ (x : Char) (rest : List Char), Derives (lit x) (x :: rest) rest :=
    fun x rest => .cls rest (CharClass.mem_lit x)
  exact .seq ((derives_plus_cls _).2 ⟨c, cs, rfl, hdot c (.head _),
    fun x hx => hdot x (.tail _ hx)⟩) (.seq (hlit _ _) (.seq (hlit _ _) (.seq (hlit _ _)
      (.seq ((derives_star_cls _).2 ⟨auth, rfl, hslash⟩) (.seq (hlit _ _)
        (.seq (.group ((derives_star_cls _).2 ⟨w, (List.append_nil w).symm, hw⟩)) .eoi))))))

theorem amqpScheme_spec {scheme : String} (hs : scheme ∈ ["amqp", "amqps", "rpc", "rpcs"]) :
    PlainScheme scheme.toList ∧ scheme ∈ SCHEMES := by
  simp only [List.mem_cons, List.mem_singleton, List.not_mem_nil, or_false] at hs
  rcases hs with rfl | rfl | rfl | rfl <;>
    exact ⟨⟨⟨_, _, rfl, rfl⟩, by decide, rfl⟩, by decide⟩

theorem vhostUri_valid {scheme host : String} {port : Option Nat} {vhost : String}
    (hs : PlainScheme scheme.toList) (hh : validateHost host = .ok host)
    (hp : ∀ p, port = some p → p ≤ 65535) : (vhostUri scheme host port vhost).Valid := by
  refine ⟨hs, fun _ _ h => Option.noConfusion h, fun _ _ h => Option.noConfusion h, (validateHost_plain hh).2,
    fun he => absurd he (validateHost_plain hh).1, fun digits hd => ?_, ?_⟩
  · obtain ⟨p, hp', rfl⟩ := Option.map_eq_some'.1 hd
    obtain ⟨hdigits, hval, c, cs, hl, -⟩ := repr_spec p
    refine ⟨fun he => ?_, hdigits, ?_⟩
    · have he : p.repr.toList = [] := he
      rw [hl] at he
      cases he
    · rw [show (toString p).toList = p.repr.toList from rfl, hval]
      exact hp p hp'
  · intro s hs
    rw [List.mem_singleton.1 hs]
    exact vhostSegment_text vhost

theorem appendVhost_vhostUri {scheme host : String} {port : Option Nat} {vhost : String}
    (hs : PlainScheme scheme.toList) (hh : validateHost host = .ok host) (options : Obj) :
    appendVhost ⟨(vhostUri scheme host port vhost).text⟩ options =
      .ok (options ++ [("vhost", .str vhost)]) := by
  have hseg := fun x (hx : x ∈ (vhostSegment vhost).toList) => segmentChar_spec (mem_vhostSegment hx)
  have hauth : ∀ c ∈ host.toList ++ portSuffix (port.map fun p => (toString p).toList), c ≠ '/' := by
    intro c hc
    rcases List.mem_append.1 hc with hc | hc
    · have := (validateHost_plain hh).2 c hc
      rintro rfl
      revert this
      decide
    · cases port with
      | none => simp [portSuffix] at hc
      | some p =>
        simp only [portSuffix, Option.map_some', List.mem_cons] at hc
        rcases hc with rfl | hc
        · decide
        · have := (repr_spec p).1 c hc
          rintro rfl
          revert this
          decide
  have htext : (vhostUri scheme host port vhost).text = scheme.toList ++ ':' :: '/' :: '/' ::
      ((host.toList ++ portSuffix (port.map fun p => (toString p).toList)) ++
        '/' :: (vhostSegment vhost).toList) := by
    simp [AuthorityUri.text, vhostUri, userinfoText, pathText]
  have hne : scheme.toList ≠ [] := by
    obtain ⟨c, cs, he, -⟩ := hs.head
    rw [he]
    exact List.cons_ne_nil c cs
  have hd := derives_VHOST_REGEX hne (fun c hc => (hs.chars c hc).1) hauth fun x hx => (hseg x hx).1
  rw [← htext] at hd
  obtain ⟨caps, hcaps⟩ := Option.isSome_iff_exists.1
    ((test_iff VHOST_REGEX ⟨(vhostUri scheme host port vhost).text⟩).2 ⟨_, hd⟩)
  obtain ⟨u, w, hu, hw, hcap⟩ := VHOST_REGEX_exec hcaps
  have hww : w = (vhostSegment vhost).toList := by
    rw [htext, show scheme.toList ++ ':' :: '/' :: '/' :: ((host.toList ++ portSuffix
      (port.map fun p => (toString p).toList)) ++ '/' :: (vhostSegment vhost).toList) =
      (scheme.toList ++ ':' :: '/' :: '/' :: (host.toList ++ portSuffix
      (port.map fun p => (toString p).toList))) ++ '/' :: (vhostSegment vhost).toList by simp] at hu
    exact (append_cons_inj hu (fun h => absurd (hseg _ h).2.1 (by decide))
      fun h => by simpa [CharClass.mem, vhostChar, wordRanges, digitRanges] using hw _ h).symm
  have hdec : decodeURIComponent (vhostSegment vhost) = .ok vhost :=
    decodeURIComponent_percentEncode _ vhost.toList fun c _ he hc => by
      subst hc
      revert he
      decide
  simp only [appendVhost, hcaps, hcap, hww]
  rw [show (⟨(vhostSegment vhost).toList⟩ : String) = vhostSegment vhost from rfl, hdec]
  rfl

theorem parseUri_vhostUri {scheme host : String} {port : Option Nat} {vhost : String}
    (h : (vhostUri scheme host port vhost).Valid) (hh : validateHost host = .ok host) :
    ∃ path, parseUri ⟨(vhostUri scheme host port vhost).text⟩ =
      .ok ⟨some ⟨none, toLowerCase host, port⟩, path, none, ⟨(vhostUri scheme host port vhost).text⟩,
        ⟨scheme.toList⟩⟩ := by
  have hport : (vhostUri scheme host port vhost).url.port = port := by
    cases port with
    | none => rfl
    | some p =>
      simp only [AuthorityUri.url, vhostUri, Option.map_some', Option.some.injEq]
      exact (repr_spec p).2.1
  have hne : host ≠ "" := fun he => (validateHost_plain hh).1 (congrArg String.toList he)
  rw [AuthorityUri.parseUri_text h,
    addHostUserPassAndPort_noUser (vhostUri scheme host port vhost).url _ hne hh rfl rfl, hport]
  exact ⟨_, rfl⟩

/-- `parseAmqpUri` reads back a URI whose path is a vhost: the host lowercased, the protocol of
the scheme (`rpc` and `rpcs` are `amqp` and `amqps`), the port, and the vhost as it was before it
was encoded. -/
theorem parseAmqpUri_reads_vhost (scheme host vhost : String) (port : Option Nat)
    (hs : scheme ∈ ["amqp", "amqps", "rpc", "rpcs"]) (hh : validateHost host = .ok host)
    (hp : ∀ p, port = some p → p ≤ 65535) :
    parseAmqpUri ⟨(vhostUri scheme host port vhost).text⟩ =
      .ok (vhostOptions (if scheme = "rpc" then "amqp" else if scheme = "rpcs" then "amqps" else scheme)
        (toLowerCase host) port vhost) := by
  obtain ⟨hps, hmem⟩ := amqpScheme_spec hs
  have hscheme : getScheme ⟨(vhostUri scheme host port vhost).text⟩ = .ok scheme := by
    rw [AuthorityUri.text, show (vhostUri scheme host port vhost).scheme = scheme.toList from rfl,
      getScheme_plain _ _ hps, show (⟨scheme.toList⟩ : String) = scheme from rfl, if_pos hmem]
  obtain ⟨path, huri⟩ := parseUri_vhostUri (@vhostUri_valid scheme host port vhost hps hh hp) hh
  simp only [parseAmqpUri, hscheme, huri, hs, not_true_eq_false, if_false, ok_bind]
  cases port <;>
    simp [appendOptions, appendPass, appendPort, appendUser, appendVhost_vhostUri hps hh,
      appendQueries, vhostOptions]

theorem parseAmqpUri_reads_vhost_rpc :
    "rpc" ∈ ["amqp", "amqps", "rpc", "rpcs"] ∧ validateHost "h" = .ok "h" ∧
      (∀ p, some 5672 = some p → p ≤ 65535) ∧
      parseAmqpUri ⟨(vhostUri "rpc" "h" (some 5672) "..").text⟩ =
        .ok (vhostOptions "amqp" "h" (some 5672) "..") :=
  ⟨by decide, rfl, fun p h => by cases h; decide,
    parseAmqpUri_reads_vhost "rpc" "h" ".." (some 5672) (by decide) rfl
      (fun p h => by cases h; decide)⟩

end Celeries.Amqp
