import Celeries.Redis.Options
import Celeries.Redis.Uri
import Celeries.Uri.Authority
set_option autoImplicit false

/-!
`createUri` of the TCP and Socket options, read back by `parseTcp` and `parseSocket`.
-/

namespace Celeries.Redis
open Js Url

def tcpUri (secure : Bool) (host : Option String) (port db : Option Nat)
    (password : Option String) : AuthorityUri where
  scheme := (if secure then "rediss" else "redis").toList
  userinfo := password.map fun w => ([], w.toList)
  host := if host.isNone && password.isNone then [] else (host.getD "localhost").toList
  port := if host.isNone && password.isNone then none else port.map fun p => (toString p).toList
  segments := (db.map fun d => [toString d]).getD []

def tcpOptions (protocol host : String) (port db : Option Nat) (password : Option String) : Obj :=
  [("protocol", .str protocol)] ++ (db.map fun d => [("db", .num d)]).getD [] ++
    [("host", .str host)] ++ (password.map fun w => [("password", .str w)]).getD [] ++
    (port.map fun p => [("port", .num p)]).getD []

theorem toString_natCast (n : Nat) : toString (n : Int) = toString n := rfl

theorem createUri_scheme (secure : Bool) :
    (if (!secure) = true then "redis" else "rediss").data =
      (if secure then "rediss" else "redis").toList := by
  cases secure <;> rfl

theorem createUri_userInfo (password : Option String) :
    (if (password.elim Val.undefined Val.str).isUndefined = true then ""
      else ":" ++ (password.elim Val.undefined Val.str).toStr ++ "@").data =
      userinfoText (password.map fun w => ([], w.toList)) := by
  cases password <;> simp [userinfoText, Val.isUndefined]

theorem createUri_hostPort (host password : Option String) (port : Option Nat) :
    (if ((host.elim Val.undefined Val.str).isUndefined &&
          (password.elim Val.undefined Val.str).isUndefined) = true then ""
      else (if (host.elim Val.undefined Val.str).isUndefined = true then "localhost"
          else (host.elim Val.undefined Val.str).toStr) ++
        if (port.elim Val.undefined fun p => Val.num p).isUndefined = true then ""
        else ":" ++ (port.elim Val.undefined fun p => Val.num p).toStr).data =
      (if host.isNone && password.isNone then [] else (host.getD "localhost").toList) ++
        portSuffix (if host.isNone && password.isNone then none
          else port.map fun p => (toString p).toList) := by
  cases host <;> cases password <;> cases port <;>
    simp [portSuffix, Val.isUndefined, toString_natCast]

theorem createUri_db (db : Option Nat) :
    (if (db.elim Val.undefined fun p => Val.num p).isUndefined = true then ""
      else "/" ++ (db.elim Val.undefined fun p => Val.num p).toStr).data =
      pathText ((db.map fun d => [toString d]).getD []) := by
  cases db <;> simp [pathText, Val.isUndefined, toString_natCast]

theorem createUri_eq (o : Obj) (secure : Bool) (host : Option String) (port db : Option Nat)
    (password : Option String) (htls : (o.get "tls").isUndefined = !secure)
    (hhost : o.get "host" = host.elim .undefined .str)
    (hport : o.get "port" = port.elim .undefined fun p => .num p)
    (hdb : o.get "db" = db.elim .undefined fun d => .num d)
    (hpw : o.get "password" = password.elim .undefined .str) :
    (RedisTcpOptions.new o).createUri = ⟨(tcpUri secure host port db password).text⟩ := by
  simp only [RedisTcpOptions.createUri, RedisTcpOptions.new, appendDefaultOptions, celeryDefaults,
    Obj.get_append, Obj.has_cons, Obj.has_nil]
  simp only [String.reduceEq, decide_False, Bool.false_or, Bool.or_false, Bool.false_eq_true,
    if_false, htls, hhost, hport, hdb, hpw]
  apply String.ext
  simp only [String.data_append, createUri_scheme, createUri_userInfo, createUri_hostPort,
    createUri_db, AuthorityUri.text, tcpUri, List.append_assoc]
  rfl

/-- Code points of a password that `createUri` writes as they are and `parseTcp` decodes back:
all but `%`, the `/`, `?` and `#` that end the authority, tab and newline. An `@` is one of them:
the parser splits the userinfo at the last `@` and encodes the others. -/
def isPasswordChar (c : Char) : Bool := (isUserinfoChar c || c == '@') && c != '%'

/-- The fields of a TCP option record that `createUri` writes in a form `parseTcp` reads back:
a host `validateHost` accepts, a port number, a password of plain code points, and a host or a
password, without which `createUri` writes no authority. -/
structure TcpFields (host : Option String) (port : Option Nat) (password : Option String) :
    Prop where
  validHost : ∀ h, host = some h → validateHost h = .ok h
  portBound : ∀ p, port = some p → p ≤ 65535
  plainPassword : ∀ w, password = some w → w ≠ "" ∧ ∀ c ∈ w.toList, isPasswordChar c = true
  present : host.isSome ∨ password.isSome

theorem plainScheme_redis (secure : Bool) :
    PlainScheme (if secure then "rediss" else "redis").toList := by
  cases secure
  · exact ⟨⟨'r', _, rfl, rfl⟩, by decide, rfl⟩
  · exact ⟨⟨'r', _, rfl, rfl⟩, by decide, rfl⟩

theorem tcpUri_segments_plain (secure : Bool) (host : Option String) (port db : Option Nat)
    (password : Option String) :
    ∀ s ∈ (tcpUri secure host port db password).segments, isPlainSegment s = true := by
  intro s hs
  cases db with
  | none => simp [tcpUri] at hs
  | some d =>
    simp only [tcpUri, Option.map_some', Option.getD_some, List.mem_singleton] at hs
    exact hs ▸ isPlainSegment_digits _ (repr_spec d).1

theorem tcpUri_valid (secure : Bool) {host : Option String} {port : Option Nat} (db : Option Nat)
    {password : Option String} (h : TcpFields host port password) :
    (tcpUri secure host port db password).Valid := by
  have hpresent : (host.isNone && password.isNone) = false := by
    have := h.present
    cases host <;> cases password <;> simp_all
  have hhost : ∀ c ∈ (host.getD "localhost").toList, isPlainHostChar c = true := by
    cases host with
    | none => decide
    | some hn => exact (validateHost_plain (h.validHost hn rfl)).2
  refine ⟨plainScheme_redis secure, ?_, ?_, ?_, ?_, ?_, ?_⟩
  · intro u p hup c hc
    cases password <;> simp_all [tcpUri]
  · intro u p hup c hc
    cases hw : password with
    | none => simp [tcpUri, hw] at hup
    | some w =>
      simp only [tcpUri, hw, Option.map_some', Option.some.injEq, Prod.mk.injEq] at hup
      obtain ⟨-, rfl⟩ := hup
      have := (h.plainPassword w hw).2 c hc
      simp only [isPasswordChar, Bool.and_eq_true, Bool.or_eq_true, beq_iff_eq] at this
      exact this.1
  · simpa [tcpUri, hpresent] using hhost
  · intro he
    simp only [tcpUri, hpresent, Bool.false_eq_true, if_false] at he
    cases host with
    | none => simp at he
    | some hn => exact absurd he (validateHost_plain (h.validHost hn rfl)).1
  · intro digits hd
    simp only [tcpUri, hpresent, Bool.false_eq_true, if_false, Option.map_eq_some'] at hd
    obtain ⟨p, hp, rfl⟩ := hd
    obtain ⟨hdigits, hval, c, cs, hl, -⟩ := repr_spec p
    refine ⟨fun he => ?_, hdigits, ?_⟩
    · rw [show (toString p).toList = p.repr.toList from rfl, hl] at he
      cases he
    · rw [show (toString p).toList = p.repr.toList from rfl, hval]
      exact h.portBound p hp
  · exact fun s hs => (isPlainSegment_spec (tcpUri_segments_plain secure host port db password s hs)).1

theorem getScheme_tcpUri (secure : Bool) (host : Option String) (port db : Option Nat)
    (password : Option String) :
    getScheme ⟨(tcpUri secure host port db password).text⟩ =
      .ok (if secure then "rediss" else "redis") := by
  rw [AuthorityUri.text, show (tcpUri secure host port db password).scheme =
    (if secure then "rediss" else "redis").toList from rfl,
    getScheme_plain _ _ (plainScheme_redis secure)]
  cases secure <;> rfl

theorem pathSegment_toString (d : Nat) : pathSegment (toString d) = toString d :=
  String.ext (percentEncode_id fun c hc => (isAsciiDigit_path ((repr_spec d).1 c hc)).2.1)

theorem serialize_db (d : Nat) :
    (UrlPath.segments [pathSegment (toString d)]).serialize = "/" ++ toString d := by
  rw [pathSegment_toString]
  rfl

theorem parseTcp_tcpUri (secure : Bool) {host : Option String} {port : Option Nat}
    (db : Option Nat) {password : Option String} (h : TcpFields host port password) :
    parseTcp ⟨(tcpUri secure host port db password).text⟩ =
      .ok (tcpOptions (if secure then "rediss" else "redis") (toLowerCase (host.getD "localhost"))
        port db password) := by
  have hv := tcpUri_valid secure db h
  have hpresent : (host.isNone && password.isNone) = false := by
    have := h.present
    cases host <;> cases password <;> simp_all
  have hvalid : validateHost (host.getD "localhost") = .ok (host.getD "localhost") := by
    cases host with
    | none => rfl
    | some hn => exact h.validHost hn rfl
  have hhostname : (tcpUri secure host port db password).url.hostname = host.getD "localhost" := by
    simp [AuthorityUri.url, Url.hostname, tcpUri, hpresent]
  have hne : host.getD "localhost" ≠ "" := by
    cases host with
    | none => decide
    | some hn => exact (validateHost_spec (h.validHost hn rfl)).2.1
  have hport : (tcpUri secure host port db password).url.port = port := by
    cases port with
    | none => simp [AuthorityUri.url, tcpUri]
    | some p =>
      simp only [AuthorityUri.url, tcpUri, hpresent, Bool.false_eq_true, if_false,
        Option.map_some', Option.some.injEq]
      exact (repr_spec p).2.1
  have husername : (tcpUri secure host port db password).url.username = "" := by
    cases password <;> rfl
  have huri : parseUri ⟨(tcpUri secure host port db password).text⟩ =
      .ok ⟨some ⟨password.map fun w => ⟨"", some w⟩, toLowerCase (host.getD "localhost"), port⟩,
        if (tcpUri secure host port db password).segments = [] then "/" else (UrlPath.segments ((tcpUri secure host port db password).segments.map
          pathSegment)).serialize, none, ⟨(tcpUri secure host port db password).text⟩,
        ⟨(tcpUri secure host port db password).scheme⟩⟩ := by
    rw [AuthorityUri.parseUri_text_plain hv (tcpUri_segments_plain _ _ _ _ _)]
    cases hw : password with
    | none =>
      subst hw
      rw [addHostUserPassAndPort_noUser _ _ (hhostname ▸ hne) (hhostname ▸ hvalid) husername rfl,
        hhostname, hport]
      rfl
    | some w =>
      subst hw
      obtain ⟨hwne, hwc⟩ := h.plainPassword w rfl
      have hdec : decodeURIComponent (tcpUri secure host port db (some w)).url.password = .ok w :=
        decodeURIComponent_percentEncode userinfoSet w.toList fun c hc _ => by
          have := hwc c hc
          simp only [isPasswordChar, Bool.and_eq_true, bne_iff_ne] at this
          exact this.2
      have hpne : (tcpUri secure host port db (some w)).url.password ≠ "" := by
        intro he
        rw [he, show decodeURIComponent "" = .ok "" from rfl] at hdec
        exact hwne (by cases hdec; rfl)
      rw [addHostUserPassAndPort_password _ _ (hhostname ▸ hne) (hhostname ▸ hvalid) husername hpne
        hdec, hhostname, hport]
      rfl
  have hdb : addDatabase ⟨some ⟨password.map fun w => ⟨"", some w⟩, toLowerCase (host.getD "localhost"), port⟩,
        if (tcpUri secure host port db password).segments = [] then "/" else (UrlPath.segments
          ((tcpUri secure host port db password).segments.map pathSegment)).serialize, none,
        ⟨(tcpUri secure host port db password).text⟩, ⟨(tcpUri secure host port db password).scheme⟩⟩
        [("protocol", .str (if secure then "rediss" else "redis"))] =
      .ok ([("protocol", .str (if secure then "rediss" else "redis"))] ++
        (db.map fun d => [("db", .num d)]).getD []) := by
    cases db with
    | none => simp [addDatabase, tcpUri]
    | some d =>
      have hpath : "/" ++ toString d ≠ "/" := by
        intro he
        have := congrArg String.length he
        simp [String.length_append] at this
        exact toString_nat_ne_empty d (String.ext (List.eq_nil_of_length_eq_zero this))
      simp [addDatabase, tcpUri, serialize_db, hpath, parseDb_toString]
  simp only [parseTcp, getScheme_tcpUri, ok_bind, huri, addOptions, hdb]
  cases secure <;> cases password <;> cases port <;>
    simp [addHostname, addPassword, addPort, parseRedisQuery, tcpOptions]

section OptionalFields
variable {α : Type} (k k' : String) (f : α → Val) (opt : Option α)

theorem has_optField (h : k ≠ k') : Obj.has ((opt.map fun x => [(k, f x)]).getD []) k' = false := by
  cases opt <;> simp [h]

theorem get_optField : Obj.get ((opt.map fun x => [(k, f x)]).getD []) k = opt.elim .undefined f := by
  cases opt <;> simp

theorem has_optField_self : Obj.has ((opt.map fun x => [(k, f x)]).getD []) k = opt.isSome := by
  cases opt <;> simp

end OptionalFields

section TcpOptions
variable (protocol host : String) (port db : Option Nat) (password : Option String)

@[simp] theorem tcpOptions_protocol :
    (tcpOptions protocol host port db password).get "protocol" = .str protocol := by
  simp only [tcpOptions, Obj.get_append, has_optField _ _ _ _ (by decide : "port" ≠ "protocol"),
    has_optField _ _ _ _ (by decide : "password" ≠ "protocol"),
    has_optField _ _ _ _ (by decide : "db" ≠ "protocol")]
  simp

@[simp] theorem tcpOptions_host : (tcpOptions protocol host port db password).get "host" = .str host := by
  simp only [tcpOptions, Obj.get_append, has_optField _ _ _ _ (by decide : "port" ≠ "host"),
    has_optField _ _ _ _ (by decide : "password" ≠ "host")]
  simp

@[simp] theorem tcpOptions_port :
    (tcpOptions protocol host port db password).get "port" = port.elim .undefined fun p => .num p := by
  simp only [tcpOptions, Obj.get_append, has_optField_self, get_optField,
    has_optField _ _ _ _ (by decide : "password" ≠ "port"),
    has_optField _ _ _ _ (by decide : "db" ≠ "port")]
  cases port <;> simp

@[simp] theorem tcpOptions_password :
    (tcpOptions protocol host port db password).get "password" = password.elim .undefined .str := by
  simp only [tcpOptions, Obj.get_append, has_optField_self, get_optField,
    has_optField _ _ _ _ (by decide : "port" ≠ "password"),
    has_optField _ _ _ _ (by decide : "db" ≠ "password")]
  cases password <;> simp

@[simp] theorem tcpOptions_db :
    (tcpOptions protocol host port db password).get "db" = db.elim .undefined fun d => .num d := by
  simp only [tcpOptions, Obj.get_append, has_optField_self, get_optField,
    has_optField _ _ _ _ (by decide : "port" ≠ "db"),
    has_optField _ _ _ _ (by decide : "password" ≠ "db")]
  cases db <;> simp

@[simp] theorem tcpOptions_tls : (tcpOptions protocol host port db password).get "tls" = .undefined := by
  simp only [tcpOptions, Obj.get_append, has_optField _ _ _ _ (by decide : "port" ≠ "tls"),
    has_optField _ _ _ _ (by decide : "password" ≠ "tls"),
    has_optField _ _ _ _ (by decide : "db" ≠ "tls")]
  simp

end TcpOptions

theorem exists_option_field {α : Type} {v : Val} {f : α → Val} {P : α → Prop}
    (h : v = .undefined ∨ ∃ a, v = f a ∧ P a) :
    ∃ x : Option α, v = x.elim .undefined f ∧ ∀ a, x = some a → P a := by
  rcases h with h | ⟨a, h, ha⟩
  · exact ⟨none, h, nofun⟩
  · exact ⟨some a, h, fun a' e => by cases e; exact ha⟩

structure RoundTripTcp (o : Obj) : Prop where
  host : o.get "host" = .undefined ∨
    ∃ h, o.get "host" = .str h ∧ validateHost h = .ok h ∧ toLowerCase h = h
  port : o.get "port" = .undefined ∨ ∃ p : Nat, o.get "port" = .num p ∧ p ≤ 65535
  db : o.get "db" = .undefined ∨ ∃ d : Nat, o.get "db" = .num d ∧ d ≤ MAX_SAFE_INTEGER
  password : o.get "password" = .undefined ∨
    ∃ w, o.get "password" = .str w ∧ w ≠ "" ∧ ∀ c ∈ w.toList, isPasswordChar c = true
  present : o.get "host" ≠ .undefined ∨ o.get "password" ≠ .undefined

def sampleTcpOptions : Obj :=
  [("host", .str "localhost"), ("port", .num 6379), ("password", .str "p@ss:w"), ("db", .num 5)]

/-- The options `parseTcp` reads from a URI without `?`, written back by `createUri` and read
again: the host, port, password and db come back when the password has only code points that
`createUri` may write as they are and the db is a safe integer, and the scheme is always `redis`,
since the options hold no `tls`. -/
theorem parsed_tcp_uri_round_trip (u : String) (o : Obj) (hu : parseTcp u = .ok o)
    (hq : '?' ∉ u.toList)
    (hpw : ∀ w, o.get "password" = .str w → ∀ c ∈ w.toList, isPasswordChar c = true)
    (_hdb : ∀ d : Int, o.get "db" = .num d → d ≤ MAX_SAFE_INTEGER) :
    ∃ r, parseTcp (RedisTcpOptions.new o).createUri = .ok r ∧
      r.get "host" = o.get "host" ∧ r.get "port" = o.get "port" ∧
      r.get "password" = o.get "password" ∧ r.get "db" = o.get "db" ∧
      r.get "protocol" = .str "redis" := by
  obtain ⟨protocol, uri, a, db, q, huri, ha, hquery, rfl⟩ := parseTcp_inv hu
  obtain ⟨url, hparse, hnq, hauth⟩ := parseUri_inv huri
  have hq0 : q = [] := by
    rw [parseRedisQuery, hnq ((parse_inv hparse).query hq)] at hquery
    cases hquery
    rfl
  rcases hauth with hnone | ⟨hv, ui, ha', hpwne⟩
  · rw [hnone] at ha
    cases ha
  rw [ha'] at ha
  cases ha
  subst hq0
  have ho : [("protocol", .str protocol)] ++ (db.map fun d => [("db", .num d)]).getD [] ++
      [("host", .str (toLowerCase url.hostname))] ++
      ((ui.bind (·.pass)).map fun w => [("password", .str w)]).getD [] ++
      (url.port.map fun p => [("port", .num p)]).getD [] ++ ([] : Obj) =
      tcpOptions protocol (toLowerCase url.hostname) url.port db (ui.bind (·.pass)) := by
    simp [tcpOptions]
  rw [ho] at hpw ⊢
  have hfields : TcpFields (some (toLowerCase url.hostname)) url.port (ui.bind (·.pass)) :=
    ⟨fun h e => by cases e; exact validateHost_toLowerCase hv, (parse_inv hparse).port,
      fun w hw => ⟨hpwne w hw, hpw w (by simp [hw])⟩, .inl rfl⟩
  rw [createUri_eq _ false (some (toLowerCase url.hostname)) url.port db (ui.bind (·.pass))
    (by simp [Val.isUndefined]) (by simp) (by simp) (by simp) (by simp), parseTcp_tcpUri false db hfields]
  exact ⟨_, rfl, by simp [toLowerCase_toLowerCase], by simp, by simp, by simp, by simp⟩

def sampleTcpUri : String := "redis://:p%40ss@LocalHost:6379/5"

theorem parsed_tcp_uri_round_trip_sample :
    parseTcp sampleTcpUri = .ok [("protocol", .str "redis"), ("db", .num 5),
        ("host", .str "localhost"), ("password", .str "p@ss"), ("port", .num 6379)] ∧
      '?' ∉ sampleTcpUri.toList ∧
      ∃ r, parseTcp (RedisTcpOptions.new [("protocol", .str "redis"), ("db", .num 5),
          ("host", .str "localhost"), ("password", .str "p@ss"), ("port", .num 6379)]).createUri =
            .ok r ∧
        r.get "host" = .str "localhost" ∧ r.get "port" = .num 6379 ∧
        r.get "password" = .str "p@ss" ∧ r.get "db" = .num 5 ∧ r.get "protocol" = .str "redis" :=
  ⟨rfl, by decide, parsed_tcp_uri_round_trip sampleTcpUri _ rfl (by decide)
    (fun w hw => by cases hw; decide) (fun d hd => by cases hd; decide)⟩

/-- Two URIs `parseTcp` accepts that do not come back: `rediss://localhost` comes back under
`redis`, and the password `%25` that `redis://:%2525@h` decodes to is decoded again to `%`. -/
theorem parsed_tcp_uri_loses_tls_and_escapes :
    parseTcp "rediss://localhost" = .ok [("protocol", .str "rediss"), ("host", .str "localhost")] ∧
      parseTcp (RedisTcpOptions.new [("protocol", .str "rediss"), ("host", .str "localhost")]).createUri =
        .ok [("protocol", .str "redis"), ("host", .str "localhost")] ∧
      parseTcp "redis://:%2525@h" =
        .ok [("protocol", .str "redis"), ("host", .str "h"), ("password", .str "%25")] ∧
      parseTcp (RedisTcpOptions.new [("protocol", .str "redis"), ("host", .str "h"),
          ("password", .str "%25")]).createUri =
        .ok [("protocol", .str "redis"), ("host", .str "h"), ("password", .str "%")] :=
  ⟨rfl, rfl, rfl, rfl⟩

def socketUri (secure : Bool) (segments : List String) : AuthorityUri :=
  ⟨(if secure then "rediss+socket" else "redis+socket").toList, none, [], none, segments⟩

def isSocketSegment (s : String) : Bool :=
  s.toList.all (fun c => !pathSet c && c != '/') && !isSingleDot s.toList && !isDoubleDot s.toList

theorem isSocketSegment_spec {s : String} (h : isSocketSegment s = true) :
    pathSegment s = s ∧ isPlainSegment s = true ∧ ∀ c ∈ s.toList, c ≠ '\x00' := by
  simp only [isSocketSegment, Bool.and_eq_true, List.all_eq_true, Bool.not_eq_true',
    bne_iff_ne, ne_eq] at h
  obtain ⟨⟨hc, h1⟩, h2⟩ := h
  have hseg : pathSegment s = s := String.ext (percentEncode_id fun c hx => (hc c hx).1)
  have hchar : ∀ c ∈ s.toList, isPathChar c = true ∧ isC0ControlOrSpace c = false ∧ c ≠ '\x00' := by
    intro c hx
    obtain ⟨hp, hs⟩ := hc c hx
    simp only [pathSet, querySet, c0ControlSet, Bool.or_eq_false_iff, decide_eq_false_iff_not,
      beq_eq_false_iff_ne, ne_eq, char_eq_iff_toNat, Char.reduceToNat] at hp hs
    simp only [isPathChar, isC0ControlOrSpace, Bool.and_eq_true, bne_iff_ne, ne_eq,
      decide_eq_false_iff_not, char_eq_iff_toNat, Char.reduceToNat]
    omega
  refine ⟨hseg, ?_, fun c hx => (hchar c hx).2.2⟩
  simp only [isPlainSegment, isSegmentText, hseg, h1, h2, Bool.not_false, Bool.and_true,
    List.all_eq_true, Bool.and_eq_true, Bool.not_eq_true']
  exact fun c hx => ⟨(hchar c hx).1, (hchar c hx).2.1⟩

theorem createUri_socket_eq (o : Obj) (secure : Bool) (segments : List String)
    (htls : (o.get "tls").isUndefined = !secure)
    (hpath : o.get "path" = .str (UrlPath.segments segments).serialize)
    (hpw : o.get "password" = .undefined) :
    (RedisSocketOptions.new o).createUri = ⟨(socketUri secure segments).text⟩ := by
  simp only [RedisSocketOptions.createUri, RedisSocketOptions.new, appendDefaultOptions,
    celeryDefaults, Obj.get_append, Obj.has_cons, Obj.has_nil]
  simp only [String.reduceEq, decide_False, Bool.false_or, Bool.or_false, Bool.false_eq_true,
    if_false, htls, hpath, hpw]
  apply String.ext
  cases secure <;> simp [socketUri, AuthorityUri.text, userinfoText, portSuffix,
    Val.isUndefined] <;> exact serialize_segments segments

theorem plainScheme_socket (secure : Bool) :
    PlainScheme (if secure then "rediss+socket" else "redis+socket").toList := by
  cases secure
  · exact ⟨⟨'r', _, rfl, rfl⟩, by decide, rfl⟩
  · exact ⟨⟨'r', _, rfl, rfl⟩, by decide, rfl⟩

theorem socketUri_valid (secure : Bool) {segments : List String}
    (hs : ∀ s ∈ segments, isSocketSegment s = true) : (socketUri secure segments).Valid :=
  ⟨plainScheme_socket secure, by simp [socketUri], by simp [socketUri], by simp [socketUri],
    fun _ => ⟨rfl, rfl⟩, by simp [socketUri], fun s hx => (isPlainSegment_spec (isSocketSegment_spec (hs s hx)).2.1).1⟩

theorem parseSocket_socketUri (secure : Bool) {segments : List String} (hne : segments ≠ [])
    (hs : ∀ s ∈ segments, isSocketSegment s = true) :
    parseSocket ⟨(socketUri secure segments).text⟩ =
      .ok [("path", .str (UrlPath.segments segments).serialize),
        ("protocol", .str (if secure then "rediss+socket" else "redis+socket"))] := by
  have hv := socketUri_valid secure hs
  have hscheme : getScheme ⟨(socketUri secure segments).text⟩ =
      .ok (if secure then "rediss+socket" else "redis+socket") := by
    rw [AuthorityUri.text, show (socketUri secure segments).scheme =
      (if secure then "rediss+socket" else "redis+socket").toList from rfl,
      getScheme_plain _ _ (plainScheme_socket secure)]
    cases secure <;> rfl
  have hmap : segments.map pathSegment = segments :=
    (List.map_congr_left fun s hx => (isSocketSegment_spec (hs s hx)).1).trans (List.map_id _)
  have huri : parseUri ⟨(socketUri secure segments).text⟩ =
      .ok ⟨none, (UrlPath.segments segments).serialize, none, ⟨(socketUri secure segments).text⟩,
        ⟨(socketUri secure segments).scheme⟩⟩ := by
    rw [AuthorityUri.parseUri_text_plain hv fun s hx => (isSocketSegment_spec (hs s hx)).2.1,
      addHostUserPassAndPort_noHost (socketUri secure segments).url _ rfl rfl]
    simp [socketUri, hne, hmap]
  have hvalid : validatePath (UrlPath.segments segments).serialize =
      .ok (UrlPath.segments segments).serialize := by
    obtain ⟨t, ts, rfl⟩ := List.exists_cons_of_ne_nil hne
    apply validatePath_ok
    · rw [serialize_segments]
      simp [pathText]
    · rw [serialize_segments]
      simp only [pathText, List.mem_flatMap]
      rintro c ⟨s, hx, hc⟩
      rcases List.mem_cons.1 hc with rfl | hc
      · decide
      · exact (isSocketSegment_spec (hs s hx)).2.2 c hc
  simp only [parseSocket, hscheme, ok_bind, huri, hvalid]
  cases secure <;> simp [parseRedisQuery]

theorem socket_options_round_trip (o : Obj) (segments : List String)
    (hpath : o.get "path" = .str (UrlPath.segments segments).serialize) (hne : segments ≠ [])
    (hs : ∀ s ∈ segments, isSocketSegment s = true) (hpw : o.get "password" = .undefined) :
    ∃ r, parseSocket (RedisSocketOptions.new o).createUri = .ok r ∧ r.get "path" = o.get "path" ∧
      r.get "protocol" =
        .str (if (o.get "tls").isUndefined then "redis+socket" else "rediss+socket") := by
  rw [createUri_socket_eq o (!(o.get "tls").isUndefined) segments (by simp) hpath hpw,
    parseSocket_socketUri _ hne hs]
  refine ⟨_, rfl, by simp [Obj.get, hpath], ?_⟩
  cases (o.get "tls").isUndefined <;> simp [Obj.get]

def sampleSocketOptions : Obj := [("path", .str "/tmp/redis.sock")]

theorem socket_options_round_trip_sample :
    ∃ r, parseSocket (RedisSocketOptions.new sampleSocketOptions).createUri = .ok r ∧
      r.get "path" = sampleSocketOptions.get "path" ∧
      r.get "protocol" = .str (if (sampleSocketOptions.get "tls").isUndefined then "redis+socket"
        else "rediss+socket") :=
  socket_options_round_trip sampleSocketOptions ["tmp", "redis.sock"] rfl (by simp) (by decide) rfl

/-- A space in the path comes back percent-encoded: `parseSocket` never decodes the path. -/
theorem socket_path_space_comes_back_encoded :
    parseSocket (RedisSocketOptions.new [("path", .str "/a b")]).createUri =
      .ok [("path", .str "/a%20b"), ("protocol", .str "redis+socket")] :=
  rfl

end Celeries.Redis
