import Celeries.Amqp.Uri
import Celeries.Redis.Uri
set_option autoImplicit false

/-!
What the URI parsers throw. Every builder of `parseUri` throws `ParseError`, except
`decodeURIComponent`, which throws `URIError` on a malformed escape: `parseUri` catches what
`URL.parse` throws but lets this one through, and so do the parsers built on it, and the vhost
decoding of `parseAmqpUri`. Their other stages (the scheme check, the query descriptors, the db
path and the socket path) throw `ParseError` only.
-/

namespace Celeries
open Js Url

theorem decodeURIComponent_error {s : String} {e : Error} (h : decodeURIComponent s = .error e) :
    e = .uri "URI malformed" := by
  unfold decodeURIComponent at h
  split at h <;> cases h
  rfl

theorem validateHost_error {s : String} {e : Error} (h : validateHost s = .error e) : e.isParse = true := by
  unfold validateHost at h
  split at h <;> cases h
  rfl

theorem parsePort_error {s : String} {e : Error} (h : parsePort s = .error e) : e.isParse = true := by
  unfold parsePort at h
  split at h <;> cases h
  rfl

theorem addQuery_error {url : Url} {w : Uri} {e : Error} (h : addQuery url w = .error e) : e.isParse = true := by
  unfold addQuery at h
  split at h
  · cases h
  · split at h <;> cases h
    rfl

theorem bind_eq_error {α β : Type} {x : Except Error α} {f : α → Except Error β} {e : Error}
    (h : (x >>= f) = .error e) : x = .error e ∨ ∃ a, x = .ok a ∧ f a = .error e := by
  cases x with
  | error e' =>
    cases (error_bind e' f).symm.trans h
    exact .inl rfl
  | ok a => exact .inr ⟨a, rfl, (ok_bind a f).symm.trans h⟩

section Builders
variable {url : Url} {w : Uri} {e : Error}

theorem addHost_error (h : addHost url w = .error e) : e.isParse = true := by
  unfold addHost at h
  split at h
  · cases h
  · rcases bind_eq_error h with h | ⟨_, -, h⟩
    · exact validateHost_error h
    · cases h

theorem addHostAndUser_error (h : addHostAndUser url w = .error e) :
    e.isParse = true ∨ decodeURIComponent url.username = .error e := by
  unfold addHostAndUser at h
  rcases bind_eq_error h with h | ⟨_, -, h⟩
  · exact .inl (addHost_error h)
  · split at h
    · cases h
    · split at h
      · cases h
      · rcases bind_eq_error h with h | ⟨_, -, h⟩
        · exact .inr h
        · cases h

theorem addHostUserAndPass_error (h : addHostUserAndPass url w = .error e) :
    e.isParse = true ∨ decodeURIComponent url.username = .error e ∨
      decodeURIComponent url.password = .error e := by
  unfold addHostUserAndPass at h
  rcases bind_eq_error h with h | ⟨_, -, h⟩
  · exact (addHostAndUser_error h).imp_right .inl
  · split at h
    · cases h
    · split at h
      · split at h
        · cases h
        · rcases bind_eq_error h with h | ⟨_, -, h⟩
          · exact .inr (.inr h)
          · cases h
      · split at h <;> cases h

theorem addHostUserPassAndPort_error (h : addHostUserPassAndPort url w = .error e) :
    e.isParse = true ∨ decodeURIComponent url.username = .error e ∨
      decodeURIComponent url.password = .error e := by
  unfold addHostUserPassAndPort at h
  rcases bind_eq_error h with h | ⟨_, -, h⟩
  · exact addHostUserAndPass_error h
  · split at h
    · cases h
    · split at h
      · cases h
      · rcases bind_eq_error h with h | ⟨_, -, h⟩
        · exact .inl (parsePort_error h)
        · cases h

end Builders

def UserinfoMalformed (s : String) (e : Error) : Prop :=
  ∃ url, Url.parse s = some url ∧
    (decodeURIComponent url.username = .error e ∨ decodeURIComponent url.password = .error e)

def VhostMalformed (s : String) (e : Error) : Prop :=
  ∃ m, Amqp.VHOST_REGEX.exec s = some m ∧ decodeURIComponent (capture m 1) = .error e

theorem parseUri_fails {s : String} {e : Error} (h : parseUri s = .error e) :
    e.isParse = true ∨ e = .uri "URI malformed" ∧ UserinfoMalformed s e := by
  unfold parseUri at h
  split at h
  · cases h
    exact .inl rfl
  · rename_i url hurl
    rcases bind_eq_error h with h | ⟨_, -, h⟩
    · rcases addHostUserPassAndPort_error h with h | h | h
      · exact .inl h
      · exact .inr ⟨decodeURIComponent_error h, url, hurl, .inl h⟩
      · exact .inr ⟨decodeURIComponent_error h, url, hurl, .inr h⟩
    · exact .inl (addQuery_error h)

/-- Every failure of `parseUri` is a `ParseError`, or the `URIError` of decoding the URL's
username or password. -/
theorem parseUri_error {s : String} {e : Error} (h : parseUri s = .error e) :
    e.isParse = true ∨ e = .uri "URI malformed" ∧ ∃ url, Url.parse s = some url ∧
      (decodeURIComponent url.username = .error e ∨ decodeURIComponent url.password = .error e) :=
  parseUri_fails h

theorem parseUri_error_at_malformed_user :
    (Error.uri "URI malformed").isParse = true ∨ Error.uri "URI malformed" = .uri "URI malformed" ∧
      ∃ url, Url.parse "amqp://%@h" = some url ∧
        (decodeURIComponent url.username = .error (.uri "URI malformed") ∨
          decodeURIComponent url.password = .error (.uri "URI malformed")) :=
  parseUri_error (show parseUri "amqp://%@h" = .error (.uri "URI malformed") from rfl)

theorem getScheme_error {s : String} {e : Error} (h : getScheme s = .error e) : e.isParse = true := by
  unfold getScheme at h
  split at h
  · cases h
    rfl
  · dsimp only at h
    split at h <;> cases h
    rfl

theorem parseInteger_error {s : String} {e : Error} (h : parseInteger s = .error e) : e.isParse = true := by
  unfold parseInteger at h
  dsimp only at h
  split at h <;> cases h
  rfl

theorem parseBoolean_error {s : String} {e : Error} (h : parseBoolean s = .error e) : e.isParse = true := by
  unfold parseBoolean at h
  dsimp only at h
  split at h
  · cases h
  · split at h <;> cases h
    rfl

theorem map_eq_error {α β : Type} {f : α → β} {x : Except Error α} {e : Error} (h : f <$> x = .error e) :
    x = .error e := by
  cases x with
  | error e' =>
    cases h
    rfl
  | ok a => cases h

theorem QueryParser.parse_error {ds : List QueryDescriptor} {queries result : Obj} {e : Error}
    (hds : ∀ d ∈ ds, ∀ p, d.parser = some p → ∀ v e, p v = .error e → e.isParse = true)
    (h : QueryParser.parse ds queries result = .error e) : e.isParse = true := by
  induction ds generalizing result with
  | nil => cases h
  | cons d ds ih =>
    rw [QueryParser.parse, List.foldlM_cons] at h
    rcases bind_eq_error h with h | ⟨_, -, h⟩
    · dsimp only at h
      split at h
      · cases h
      · split at h <;> rcases bind_eq_error h with h | ⟨_, -, h⟩
        · exact hds d (.head _) _ ‹_› _ _ h
        all_goals cases h
    · exact ih (fun d hd => hds d (.tail _ hd)) h

theorem createIntegerQueryDescriptor_error {source : String} {target : Option String}
    {p : Val → Except Error Val} (hp : (createIntegerQueryDescriptor source target).parser = some p)
    (v : Val) {e : Error} (h : p v = .error e) : e.isParse = true := by
  cases hp
  dsimp only at h
  rcases bind_eq_error (map_eq_error h) with h | ⟨_, -, h⟩
  · exact parseInteger_error h
  · cases h

theorem createBooleanQueryDescriptor_error {source : String} {target : Option String}
    {p : Val → Except Error Val} (hp : (createBooleanQueryDescriptor source target).parser = some p)
    (v : Val) {e : Error} (h : p v = .error e) : e.isParse = true := by
  cases hp
  exact parseBoolean_error (map_eq_error h)

theorem Amqp.appendVhost_error {s : String} {options : Obj} {e : Error} (h : Amqp.appendVhost s options = .error e) :
    VhostMalformed s e := by
  unfold Amqp.appendVhost at h
  split at h
  · cases h
  · rename_i m hm
    rcases bind_eq_error h with h | ⟨_, -, h⟩
    · exact ⟨m, hm, h⟩
    · cases h

theorem Amqp.appendQueries_error {uri : Uri} {options : Obj} {e : Error}
    (h : Amqp.appendQueries uri options = .error e) : e.isParse = true := by
  unfold Amqp.appendQueries at h
  split at h
  · cases h
  · refine QueryParser.parse_error (fun d hd p hp v e he => ?_) h
    simp only [List.mem_cons, List.not_mem_nil, or_false] at hd
    rcases hd with rfl | rfl | rfl | rfl
    · exact createIntegerQueryDescriptor_error hp v he
    · exact createIntegerQueryDescriptor_error hp v he
    · exact createIntegerQueryDescriptor_error hp v he
    · cases hp

theorem Redis.parseRedisQuery_error {uri : Uri} {e : Error} (h : Redis.parseRedisQuery uri = .error e) :
    e.isParse = true := by
  unfold Redis.parseRedisQuery at h
  split at h
  · cases h
  · refine QueryParser.parse_error (fun d hd p hp v e he => ?_) h
    simp only [List.mem_cons, List.not_mem_nil, or_false] at hd
    rcases hd with rfl | rfl
    · exact createBooleanQueryDescriptor_error hp v he
    · cases hp
      cases he

theorem Redis.addOptions_error {uri : Uri} {authority : Authority} {options : Obj} {e : Error}
    (h : Redis.addOptions uri authority options = .error e) : e.isParse = true := by
  rcases bind_eq_error h with h | ⟨_, -, h⟩
  · unfold Redis.addDatabase at h
    split at h
    · cases h
    · rcases bind_eq_error h with h | ⟨_, -, h⟩
      · unfold Redis.parseDb at h
        split at h
        · cases h
          rfl
        · exact parseInteger_error h
      · cases h
  · cases h

theorem Redis.validatePath_error {path : String} {e : Error} (h : Redis.validatePath path = .error e) :
    e.isParse = true := by
  unfold Redis.validatePath at h
  split at h <;> cases h
  rfl

theorem Amqp.parseAmqpUri_fails {s : String} {e : Error} (h : Amqp.parseAmqpUri s = .error e) :
    e.isParse = true ∨ e = .uri "URI malformed" ∧ (UserinfoMalformed s e ∨ VhostMalformed s e) := by
  unfold Amqp.parseAmqpUri at h
  rcases bind_eq_error h with h | ⟨scheme, -, h⟩
  · exact .inl (getScheme_error h)
  by_cases hm : scheme ∈ ["amqp", "amqps", "rpc", "rpcs"]
  · simp only [if_neg (not_not_intro hm), pure_bind] at h
    rcases bind_eq_error h with h | ⟨uri, -, h⟩
    · exact (parseUri_fails h).imp_right fun h => ⟨h.1, .inl h.2⟩
    split at h
    · cases h
      exact .inl rfl
    rcases bind_eq_error h with h | ⟨_, -, h⟩
    · obtain ⟨m, hm, hd⟩ := Amqp.appendVhost_error h
      exact .inr ⟨decodeURIComponent_error hd, .inr ⟨m, hm, hd⟩⟩
    · exact .inl (Amqp.appendQueries_error h)
  · simp only [if_pos hm] at h
    cases h
    exact .inl rfl

theorem Redis.parseTcp_fails {s : String} {e : Error} (h : Redis.parseTcp s = .error e) :
    e.isParse = true ∨ e = .uri "URI malformed" ∧ UserinfoMalformed s e := by
  unfold Redis.parseTcp at h
  rcases bind_eq_error h with h | ⟨protocol, -, h⟩
  · exact .inl (getScheme_error h)
  by_cases hm : protocol ≠ "redis" ∧ protocol ≠ "rediss"
  · simp only [if_pos hm] at h
    cases h
    exact .inl rfl
  · simp only [if_neg hm, pure_bind] at h
    rcases bind_eq_error h with h | ⟨uri, -, h⟩
    · exact parseUri_fails h
    split at h
    · cases h
      exact .inl rfl
    rcases bind_eq_error h with h | ⟨_, -, h⟩
    · exact .inl (Redis.addOptions_error h)
    rcases bind_eq_error h with h | ⟨_, -, h⟩
    · exact .inl (Redis.parseRedisQuery_error h)
    · cases h

theorem Redis.parseSocket_fails {s : String} {e : Error} (h : Redis.parseSocket s = .error e) :
    e.isParse = true ∨ e = .uri "URI malformed" ∧ UserinfoMalformed s e := by
  unfold Redis.parseSocket at h
  rcases bind_eq_error h with h | ⟨protocol, -, h⟩
  · exact .inl (getScheme_error h)
  by_cases hm : protocol ≠ "redis+socket" ∧ protocol ≠ "rediss+socket"
  · simp only [if_pos hm] at h
    cases h
    exact .inl rfl
  · simp only [if_neg hm, pure_bind] at h
    rcases bind_eq_error h with h | ⟨uri, -, h⟩
    · exact parseUri_fails h
    rcases bind_eq_error h with h | ⟨_, -, h⟩
    · exact .inl (Redis.validatePath_error h)
    rcases bind_eq_error h with h | ⟨_, -, h⟩
    · exact .inl (Redis.parseRedisQuery_error h)
    · cases h

/-- The URI parsers of the AMQP and Redis options throw a `ParseError`, or the `URIError` of a
malformed escape that `decodeURIComponent` finds in the username or the password of the URL, or
in the AMQP vhost; their other stages, the query and the paths among them, throw `ParseError`. -/
theorem uri_parsers_throw_parse_or_uri_error (s : String) (e : Error) :
    (Amqp.parseAmqpUri s = .error e →
        e.isParse = true ∨ e = .uri "URI malformed" ∧ (UserinfoMalformed s e ∨ VhostMalformed s e)) ∧
      (Redis.parseTcp s = .error e → e.isParse = true ∨ e = .uri "URI malformed" ∧ UserinfoMalformed s e) ∧
      (Redis.parseSocket s = .error e → e.isParse = true ∨ e = .uri "URI malformed" ∧ UserinfoMalformed s e) :=
  ⟨Amqp.parseAmqpUri_fails, Redis.parseTcp_fails, Redis.parseSocket_fails⟩

theorem uri_parsers_throw_parse_or_uri_error_vhost :
    Amqp.parseAmqpUri "amqp://h/%" = .error (.uri "URI malformed") ∧
      ((Error.uri "URI malformed").isParse = true ∨ Error.uri "URI malformed" = .uri "URI malformed" ∧
        (UserinfoMalformed "amqp://h/%" (.uri "URI malformed") ∨
          VhostMalformed "amqp://h/%" (.uri "URI malformed"))) :=
  ⟨rfl, (uri_parsers_throw_parse_or_uri_error _ _).1 rfl⟩

/-- A malformed escape in the username, in the password of a user-less authority and in an AMQP
vhost reaches the caller of each parser as `URIError`. -/
theorem parsers_throw_uri_error :
    parseUri "amqp://%@h" = .error (.uri "URI malformed") ∧
      Amqp.parseAmqpUri "amqp://h/%" = .error (.uri "URI malformed") ∧
      Redis.parseTcp "redis://:%@h" = .error (.uri "URI malformed") ∧
      Redis.parseSocket "redis+socket://%@h/p" = .error (.uri "URI malformed") :=
  ⟨rfl, rfl, rfl, rfl⟩

end Celeries
