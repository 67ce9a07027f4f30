import Celeries.Errors
import Celeries.Js.Value
set_option autoImplicit false

/-!
`src/redis/options.ts`: the four `RedisOptions` classes, the defaults every client is forced
to carry, and `createOptions`, which picks a class from the shape of a native option record.
A client is modelled by what the library hands to ioredis.
-/

namespace Celeries.Redis
open Js

/-- The options `appendDefaultOptions` forces onto a copy of the user's options. -/
def celeryDefaults : Obj :=
  [("dropBufferSupport", .bool true), ("keyPrefix", .str "celery-task-meta-"),
    ("stringNumbers", .bool true)]

def appendDefaultOptions (options : Obj) : Obj := options ++ celeryDefaults

def maybeOverride (options : Obj) (override : Option Obj) : Obj :=
  match override with
  | none => options
  | some override => options ++ override

inductive IoRedis where
  | redis (options : Obj)
  | cluster (nodes : Val) (options : Obj)

def createRedisClient (options : Obj) (override : Option Obj) : IoRedis :=
  .redis (maybeOverride options override)

structure RedisTcpOptions where
  options : Obj

structure RedisSocketOptions where
  options : Obj

structure RedisSentinelOptions where
  options : Obj

structure RedisClusterOptions where
  options : Obj

def RedisTcpOptions.new (options : Obj) : RedisTcpOptions := ⟨appendDefaultOptions options⟩

def RedisSocketOptions.new (options : Obj) : RedisSocketOptions := ⟨appendDefaultOptions options⟩

def RedisSentinelOptions.new (options : Obj) : RedisSentinelOptions :=
  ⟨appendDefaultOptions options⟩

/-- Only the per-node `redisOptions`, when given, receive the defaults. -/
def RedisClusterOptions.new (options : Obj) : RedisClusterOptions :=
  if (options.get "redisOptions").isUndefined then ⟨options⟩
  else ⟨options ++ [("redisOptions", .obj (appendDefaultOptions (options.get "redisOptions").props))]⟩

def RedisTcpOptions.createClient (self : RedisTcpOptions) (override : Option Obj) : IoRedis :=
  createRedisClient self.options override

def RedisSocketOptions.createClient (self : RedisSocketOptions) (override : Option Obj) :
    IoRedis :=
  createRedisClient self.options override

def RedisSentinelOptions.createClient (self : RedisSentinelOptions) (override : Option Obj) :
    IoRedis :=
  createRedisClient self.options override

/-- Takes no override: `createClient()` of the Cluster class. -/
def RedisClusterOptions.createClient (self : RedisClusterOptions) : IoRedis :=
  .cluster (self.options.get "nodes") self.options

def RedisTcpOptions.createUri (self : RedisTcpOptions) : String :=
  let o := self.options
  let scheme := if (o.get "tls").isUndefined then "redis" else "rediss"
  let userInfo :=
    if (o.get "password").isUndefined then "" else ":" ++ (o.get "password").toStr ++ "@"
  let hostPort :=
    if (o.get "host").isUndefined && (o.get "password").isUndefined then ""
    else (if (o.get "host").isUndefined then "localhost" else (o.get "host").toStr) ++
      (if (o.get "port").isUndefined then "" else ":" ++ (o.get "port").toStr)
  let db := if (o.get "db").isUndefined then "" else "/" ++ (o.get "db").toStr
  scheme ++ "://" ++ userInfo ++ hostPort ++ db

def RedisSocketOptions.createUri (self : RedisSocketOptions) : String :=
  let o := self.options
  let scheme := if (o.get "tls").isUndefined then "redis" else "rediss"
  let query :=
    if (o.get "password").isUndefined then "" else "?password=" ++ (o.get "password").toStr
  scheme ++ "+socket://" ++ (o.get "path").toStr ++ query

inductive RedisOptions where
  | tcp (self : RedisTcpOptions)
  | socket (self : RedisSocketOptions)
  | sentinel (self : RedisSentinelOptions)
  | cluster (self : RedisClusterOptions)

def RedisOptions.createClient : RedisOptions → Option Obj → IoRedis
  | .tcp self, override => self.createClient override
  | .socket self, override => self.createClient override
  | .sentinel self, override => self.createClient override
  | .cluster self, _ => self.createClient

def RedisOptions.createUri : RedisOptions → Except Error String
  | .tcp self => .ok self.createUri
  | .socket self => .ok self.createUri
  | .sentinel _ | .cluster _ => .error (.unimplemented "")

def DEFAULT_REDIS_OPTIONS : RedisTcpOptions := .new [("protocol", .str "redis")]

def isCluster (options : Obj) : Bool := !(options.get "nodes").isUndefined

def createOptions (options : Obj) : RedisOptions :=
  if isCluster options then .cluster (.new options)
  else if (options.get "sentinels").truthy then .sentinel (.new options)
  else if (options.get "path").truthy then .socket (.new options)
  else .tcp (.new (options ++
    [("protocol", .str (if (options.get "tls").truthy then "rediss" else "redis"))]))

theorem createOptions_client_of_not_cluster (options : Obj) (h : isCluster options = false)
    (override : Option Obj) : ∃ base, (createOptions options).createClient override =
      .redis (maybeOverride (appendDefaultOptions base) override) := by
  unfold createOptions
  simp only [h, Bool.false_eq_true, if_false]
  split
  · exact ⟨options, rfl⟩
  · split
    · exact ⟨options, rfl⟩
    · exact ⟨_, rfl⟩

theorem get_client_options (base v : Obj) (k : String) :
    (maybeOverride (appendDefaultOptions base) (some v)).get k =
      if v.has k then v.get k else if celeryDefaults.has k then celeryDefaults.get k
      else base.get k := by
  cases hv : v.has k <;> cases hd : celeryDefaults.has k <;>
    simp [maybeOverride, appendDefaultOptions, hv, hd]

/-- TCP, Socket and Sentinel clients carry every field of the override and each Celery
default the override does not set. -/
theorem createClient_carries_defaults (options v : Obj) (h : isCluster options = false) :
    ∃ handed, (createOptions options).createClient (some v) = .redis handed ∧
      (∀ k, v.has k → handed.get k = v.get k) ∧
      ∀ k, v.has k = false → celeryDefaults.has k → handed.get k = celeryDefaults.get k := by
  obtain ⟨base, hb⟩ := createOptions_client_of_not_cluster options h (some v)
  refine ⟨_, hb, fun k hk => ?_, fun k hk hd => ?_⟩
  · simp [get_client_options, hk]
  · simp [get_client_options, hk, hd]

/-- A TCP client with its own key prefix and db: the prefix replaces Celery's, and the other two
defaults stay. -/
theorem createClient_carries_defaults_tcp :
    isCluster [("host", .str "localhost")] = false ∧
      ∃ handed, (createOptions [("host", .str "localhost")]).createClient
          (some [("keyPrefix", .str "p"), ("db", .num 1)]) = .redis handed ∧
        (∀ k, Obj.has [("keyPrefix", .str "p"), ("db", .num 1)] k →
          handed.get k = Obj.get [("keyPrefix", .str "p"), ("db", .num 1)] k) ∧
        ∀ k, Obj.has [("keyPrefix", .str "p"), ("db", .num 1)] k = false → celeryDefaults.has k →
          handed.get k = celeryDefaults.get k :=
  ⟨rfl, createClient_carries_defaults _ _ rfl⟩

def clusterNodes : Val := .arr [.obj [("host", .str "localhost"), ("port", .num 7000)]]

/-- With no `redisOptions`, the cluster options reach ioredis without the key prefix, and the
override is dropped. -/
theorem cluster_client_drops_defaults_and_override :
    (createOptions [("nodes", clusterNodes)]).createClient (some [("keyPrefix", .str "p")]) =
        .cluster clusterNodes [("nodes", clusterNodes)] ∧
      Obj.get [("nodes", clusterNodes)] "keyPrefix" = .undefined ∧
      Obj.get [("nodes", clusterNodes)] "redisOptions" = .undefined := by
  refine ⟨rfl, rfl, rfl⟩

end Celeries.Redis
