import Celeries.QueryParser
import Celeries.Uri.Parse
set_option autoImplicit false

/-!
`src/amqp/uri.ts`: `parseAmqpUri` builds the amqplib connection options from a RabbitMQ URI.
The host, user, password, port and query come from `parseUri`; the vhost comes from a regular
expression matched against the raw string.
-/

namespace Celeries.Amqp
open Js Pattern

def appendPass (uri : Uri) (options : Obj) : Obj :=
  match uri.authority.bind (·.userInfo) |>.bind (·.pass) with
  | none => options
  | some pass => options ++ [("password", .str pass)]

def appendPort (uri : Uri) (options : Obj) : Obj :=
  match uri.authority.bind (·.port) with
  | none => options
  | some port => options ++ [("port", .num port)]

def appendUser (uri : Uri) (options : Obj) : Obj :=
  match uri.authority.bind (·.userInfo) with
  | none => options
  | some userInfo => options ++ [("username", .str userInfo.user)]

def appendOptions (uri : Uri) (appending : Obj) : Obj :=
  [appendPass uri, appendPort uri, appendUser uri].foldl (fun x f => f x) appending

/-- `[\w\d-.~%]`: a class escape cannot end a range, so `\d-.` is `\d`, `-` and `.`. -/
def vhostChar : CharClass :=
  ⟨wordRanges ++ digitRanges ++ [('-', '-'), ('.', '.'), ('~', '~'), ('%', '%')], false⟩

/-- `/^.+:\/\/[^/]*\/([\w\d-.~%]*)$/` -/
def VHOST_REGEX : Pattern :=
  seqs [plus dot, lit ':', lit '/', lit '/', star (.cls ⟨[('/', '/')], true⟩), lit '/',
    .group 1 (star (.cls vhostChar)), .eoi]

/-- The vhost is read from the raw URI, up to its end. -/
def appendVhost (rawUri : String) (appending : Obj) : Except Error Obj :=
  match VHOST_REGEX.exec rawUri with
  | none => .ok appending
  | some m => do
    let vhost ← decodeURIComponent (capture m 1)
    .ok (appending ++ [("vhost", .str vhost)])

def appendQueries (uri : Uri) (appending : Obj) : Except Error Obj :=
  match uri.query with
  | none => .ok appending
  | some query =>
    QueryParser.parse [createIntegerQueryDescriptor "channelMax" none,
      createIntegerQueryDescriptor "frameMax" none, createIntegerQueryDescriptor "heartbeat" none,
      ⟨"locale", none, none⟩] query appending

def parseAmqpUri (rawUri : String) : Except Error Obj := do
  let scheme ← getScheme rawUri
  if scheme ∉ ["amqp", "amqps", "rpc", "rpcs"] then
    throw (.parse ("unrecognized scheme \"" ++ scheme ++ "\""))
  let uri ← parseUri rawUri
  match uri.authority with
  | none => throw (.parse ("\"" ++ rawUri ++ "\" missing authority"))
  | some authority =>
    let protocol := if scheme = "rpc" then "amqp" else if scheme = "rpcs" then "amqps" else scheme
    let withOptions := appendOptions uri [("hostname", .str authority.host), ("protocol", .str protocol)]
    let withVhost ← appendVhost rawUri withOptions
    appendQueries uri withVhost

/-- A vhost followed by a query is dropped: the vhost pattern must reach the end of the raw
string. -/
theorem parseAmqpUri_drops_vhost_before_query :
    parseAmqpUri "amqp://h/vhost?heartbeat=5" =
        .ok [("hostname", .str "h"), ("protocol", .str "amqp"), ("heartbeat", .num 5)] ∧
      parseAmqpUri "amqp://h/vhost" =
        .ok [("hostname", .str "h"), ("protocol", .str "amqp"), ("vhost", .str "vhost")] :=
  ⟨rfl, rfl⟩

end Celeries.Amqp
