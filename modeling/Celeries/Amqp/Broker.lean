import Celeries.Amqp.Channel
import Celeries.Containers.ResourcePool
import Celeries.Js.Value
set_option autoImplicit false

/-!
Publishing over AMQP: `AmqpBroker.publish` of `src/amqp/broker.ts` and `RpcBackend.put` of
`src/amqp/backend.ts`. Both borrow a channel from the connection's pool with `use`, assert
what they publish to, and write the message with the drain loop. A channel-level failure
(an assertion that conflicts with what the broker already has) closes the channel, and every
later operation on it fails.
-/

namespace Celeries.Amqp
open Containers Js

structure Buffer where
  source : String
  encoding : String

structure DeliveryInfo where
  exchange : String
  routing_key : String

structure TaskProperties where
  body_encoding : String
  correlation_id : String
  delivery_info : DeliveryInfo
  delivery_mode : Nat
  priority : Nat
  reply_to : String

structure TaskMessage where
  body : String
  content_encoding : String
  content_type : String
  headers : Obj
  properties : TaskProperties

structure PublishOptions where
  contentEncoding : String
  contentType : String
  correlationId : String
  deliveryMode : Option Nat := none
  headers : Option Obj := none
  persistent : Option Bool := none
  priority : Nat
  replyTo : Option String := none

/-- What `channel.publish(exchange, routingKey, content, options)` buffers;
`sendToQueue(queue, ...)` publishes to the default exchange `""`. -/
structure Publish where
  exchange : String
  routingKey : String
  content : Buffer
  options : PublishOptions

def AmqpBroker.getBody (message : TaskMessage) : Buffer :=
  ⟨message.body, message.properties.body_encoding⟩

def AmqpBroker.getPublishOptions (message : TaskMessage) : PublishOptions where
  contentEncoding := message.content_encoding
  contentType := message.content_type
  correlationId := message.properties.correlation_id
  deliveryMode := some message.properties.delivery_mode
  headers := some message.headers
  priority := message.properties.priority
  replyTo := some message.properties.reply_to

def AmqpBroker.doPublish (body : Buffer) (channel : Channel Publish) (exchange : String)
    (options : PublishOptions) (routingKey : String) : Sending Publish :=
  Sending.start ⟨exchange, routingKey, body, options⟩ channel

def RpcBackend.sendToQueue (routingKey : String) (channel : Channel Publish)
    (options : PublishOptions) (toSend : Buffer) : Sending Publish :=
  Sending.start ⟨"", routingKey, toSend, options⟩ channel

def RpcBackend.createPublishOptions (taskId : String) : PublishOptions where
  contentEncoding := "utf-8"
  contentType := "application/json"
  correlationId := taskId
  persistent := some false
  priority := 0

/-- What `queue.declare` compares with an existing queue of the name: a declaration that differs
in any of them is refused. -/
structure QueueArgs where
  durable : Bool
  exclusive : Bool
  autoDelete : Bool
  /-- The arguments table, with the numeric values this code sends (`x-expires`). -/
  arguments : List (String × Nat)
  deriving DecidableEq, Repr

def defaultQueueArgs : QueueArgs := ⟨true, false, false, []⟩

def rpcQueueArgs : QueueArgs := ⟨false, false, false, [("x-expires", 86400000)]⟩

structure ExchangeArgs where
  type : String
  durable : Bool
  autoDelete : Bool
  internal : Bool
  arguments : List (String × Nat)
  deriving DecidableEq, Repr

def directExchangeArgs : ExchangeArgs := ⟨"direct", true, false, false, []⟩

inductive Assertion where
  | queue (name : String) (args : QueueArgs)
  | exchange (name : String) (args : ExchangeArgs)
  deriving DecidableEq, Repr

inductive AmqpError where
  /-- The broker refused a declaration and closed the channel (`PRECONDITION_FAILED`,
  `ACCESS_REFUSED`). -/
  | channel (method : String)
  /-- amqplib's `IllegalOperationError` for an operation on a closed channel. -/
  | closed
  deriving DecidableEq, Repr

/-- The broker's queues and exchanges, the connection's channel pool, and its closed channels. -/
structure Connection where
  channels : ResourcePool
  closed : List Nat
  exchanges : List (String × ExchangeArgs)
  queues : List (String × QueueArgs)
  deriving DecidableEq, Repr

/-- The prefix `amq.` the broker reserves: it refuses to declare a queue so named, and an exchange
so named that it does not have. -/
def isReservedName (name : String) : Bool := "amq.".toList.isPrefixOf name.toList

namespace Connection

def refuse (conn : Connection) (channel : Nat) (method : String) : Connection × Except AmqpError Unit :=
  ({ conn with closed := channel :: conn.closed }, .error (.channel method))

/-- One declaration on `channel`, as the broker answers it: a reserved name, or properties that
differ from those of what it has under the name, close the channel. -/
def declare (conn : Connection) (channel : Nat) : Assertion → Connection × Except AmqpError Unit
  | .queue name args =>
    if channel ∈ conn.closed then (conn, .error .closed)
    else if isReservedName name then conn.refuse channel "queue.declare"
    else match conn.queues.lookup name with
      | some existing => if existing = args then (conn, .ok ()) else conn.refuse channel "queue.declare"
      | none => ({ conn with queues := conn.queues ++ [(name, args)] }, .ok ())
  | .exchange name args =>
    if channel ∈ conn.closed then (conn, .error .closed)
    else match conn.exchanges.lookup name with
      | some existing =>
        if existing = args then (conn, .ok ()) else conn.refuse channel "exchange.declare"
      | none =>
        if isReservedName name then conn.refuse channel "exchange.declare"
        else ({ conn with exchanges := conn.exchanges ++ [(name, args)] }, .ok ())

def declareAll (conn : Connection) (channel : Nat) : List Assertion → Connection × Except AmqpError Unit
  | [] => (conn, .ok ())
  | a :: rest =>
    match conn.declare channel a with
    | (conn', .ok ()) => conn'.declareAll channel rest
    | (conn', .error e) => (conn', .error e)

/-- `channels.use(channel => ...)`: declare, then write with the drain loop, and give the
channel back to the pool whether or not that failed. `none` while no channel is free. -/
def use (conn : Connection) (assertions : List Assertion) :
    Option (Connection × Except AmqpError String) :=
  match conn.channels.get with
  | (_, none) => none
  | (channels, some channel) =>
    let declared := ({ conn with channels }).declareAll channel assertions
    let written := declared.2.bind fun () =>
      if channel ∈ declared.1.closed then .error .closed else .ok "flushed to write buffer"
    (declared.1.channels.return channel).map fun channels => ({ declared.1 with channels }, written)

def useEach (conn : Connection) : List (List Assertion) → List (Except AmqpError String)
  | [] => []
  | assertions :: rest =>
    match conn.use assertions with
    | none => []
    | some (conn', result) => result :: conn'.useEach rest

end Connection

def AmqpBroker.new (exchanges : List (String × ExchangeArgs)) (queues : List (String × QueueArgs)) :
    Connection :=
  ⟨.new 2, [], exchanges, queues⟩

def AmqpBroker.assert (exchange routingKey : String) : List Assertion :=
  .queue routingKey defaultQueueArgs :: if exchange = "" then [] else [.exchange exchange directExchangeArgs]

def AmqpBroker.publish (conn : Connection) (message : TaskMessage) :
    Option (Connection × Except AmqpError String) :=
  conn.use (AmqpBroker.assert message.properties.delivery_info.exchange
    message.properties.delivery_info.routing_key)

def RpcBackend.channels : ResourcePool := (ResourcePool.new 2).get.1

def RpcBackend.put (conn : Connection) (routingKey : String) :
    Option (Connection × Except AmqpError String) :=
  conn.use [.queue routingKey rpcQueueArgs]

namespace Connection

theorem declare_spec (conn : Connection) (channel : Nat) (a : Assertion) :
    (conn.declare channel a).1.channels = conn.channels ∧
      (∀ x ∈ conn.closed, x ∈ (conn.declare channel a).1.closed) ∧
      (channel ∈ conn.closed → conn.declare channel a = (conn, .error .closed)) ∧
      (∀ m, (conn.declare channel a).2 = .error (.channel m) →
        channel ∈ (conn.declare channel a).1.closed) := by
  cases a with
  | queue name args =>
    simp only [declare]
    split
    · simp_all
    · split
      · simp_all [refuse]
      · split
        · split <;> simp_all [refuse]
        · simp_all
  | exchange name args =>
    simp only [declare]
    split
    · simp_all
    · split
      · split <;> simp_all [refuse]
      · split <;> simp_all [refuse]

theorem declareAll_spec (conn : Connection) (channel : Nat) (as : List Assertion) :
    (conn.declareAll channel as).1.channels = conn.channels ∧
      (∀ x ∈ conn.closed, x ∈ (conn.declareAll channel as).1.closed) ∧
      (∀ m, (conn.declareAll channel as).2 = .error (.channel m) →
        channel ∈ (conn.declareAll channel as).1.closed) := by
  induction as generalizing conn with
  | nil => simp [declareAll]
  | cons a as ih =>
    obtain ⟨h₁, h₂, -, h₄⟩ := declare_spec conn channel a
    simp only [declareAll]
    split
    · rename_i conn' h
      obtain ⟨i₁, i₂, i₄⟩ := ih conn'
      simp only [h] at h₁ h₂
      exact ⟨i₁.trans h₁, fun x hx => i₂ x (h₂ x hx), i₄⟩
    · rename_i conn' e h
      simp only [h] at h₁ h₂ h₄
      exact ⟨h₁, h₂, h₄⟩

theorem declareAll_of_closed (conn : Connection) (channel : Nat) (as : List Assertion)
    (h : channel ∈ conn.closed) :
    (conn.declareAll channel as).1 = conn ∧
      ((conn.declareAll channel as).2 = .ok () ∨ (conn.declareAll channel as).2 = .error .closed) := by
  cases as with
  | nil => simp [declareAll]
  | cons a as => simp [declareAll, (declare_spec conn channel a).2.2.1 h]

/-- Calls made one at a time: nobody waits for a channel, and at most one is unused. -/
def Sequential (conn : Connection) : Prop :=
  conn.channels.waiting = 0 ∧
    (conn.channels.unused = [] ∧ conn.channels.numOwned < conn.channels.capacity ∨
      ∃ c, conn.channels.unused = [c])

theorem use_of_get (conn : Connection) (as : List Assertion) (channels : ResourcePool)
    (channel : Nat) (hget : conn.channels.get = (channels, some channel))
    (hu : channels.unused = []) (hw : channels.waiting = 0) (hin : channel ∈ channels.inUse) :
    let declared := ({ conn with channels }).declareAll channel as
    conn.use as = some ({ declared.1 with
      channels := { channels with unused := [channel], inUse := channels.inUse.erase channel } },
      declared.2.bind fun () =>
        if channel ∈ declared.1.closed then .error .closed else .ok "flushed to write buffer") := by
  have hc := (declareAll_spec ({ conn with channels }) channel as).1
  simp only [use, hget, hc, ResourcePool.return, hin, hw, hu, if_true, Option.map_some',
    List.nil_append]

theorem written_spec (conn : Connection) (channel : Nat) (as : List Assertion) :
    let declared := conn.declareAll channel as
    let written : Except AmqpError String := declared.2.bind fun () =>
      if channel ∈ declared.1.closed then .error .closed else .ok "flushed to write buffer"
    (∀ m, written = .error (.channel m) → channel ∈ declared.1.closed) ∧
      (channel ∈ conn.closed → declared.1 = conn ∧ written = .error .closed) := by
  obtain ⟨-, -, h⟩ := declareAll_spec conn channel as
  refine ⟨fun m hm => h m ?_, fun hc => ?_⟩
  · cases hd : (conn.declareAll channel as).2 with
    | error e => simpa [hd, Except.bind] using hm
    | ok u => simp only [hd, Except.bind] at hm; split at hm <;> simp at hm
  · obtain ⟨he, hd | hd⟩ := declareAll_of_closed conn channel as hc <;> simp [he, hd, hc, Except.bind]

/-- One call made with no other in progress: it is handed the unused channel if there is one,
and that channel is the only unused one afterwards. -/
theorem use_spec (conn : Connection) (as : List Assertion) (hs : conn.Sequential) :
    ∃ channel conn' result, conn.use as = some (conn', result) ∧ conn'.Sequential ∧
      conn'.channels.unused = [channel] ∧ (∀ c, conn.channels.unused = [c] → channel = c) ∧
      (channel ∈ conn.closed → conn'.closed = conn.closed ∧ result = .error .closed) ∧
      (∀ m, result = .error (.channel m) → channel ∈ conn'.closed) := by
  obtain ⟨channels, channel, hget, hu, hw, hin, hc⟩ := conn.channels.get_of_one_unused hs.1 hs.2
  obtain ⟨hm, hcl⟩ := written_spec ({ conn with channels }) channel as
  refine ⟨_, _, _, use_of_get conn as _ _ hget hu hw hin, ⟨hw, .inr ⟨_, rfl⟩⟩, rfl, hc,
    fun hc' => ?_, hm⟩
  obtain ⟨he, hr⟩ := hcl hc'
  exact ⟨by simp [he], hr⟩

theorem useEach_of_closed (calls : List (List Assertion)) (conn : Connection) (hs : conn.Sequential)
    (c : Nat) (hu : conn.channels.unused = [c]) (hc : c ∈ conn.closed) :
    conn.useEach calls = calls.map fun _ => .error .closed := by
  induction calls generalizing conn with
  | nil => rfl
  | cons as calls ih =>
    obtain ⟨channel, conn', result, huse, hs', hu', hc', hcl, -⟩ := use_spec conn as hs
    obtain rfl := hc' c hu
    obtain ⟨he, hr⟩ := hcl hc
    simp [useEach, huse, hr, ih conn' hs' hu' (he ▸ hc)]

/-- Calls made one after another: after one fails with a channel-level error, every later one
fails on the closed channel. -/
theorem useEach_channel_error (calls : List (List Assertion)) (conn : Connection)
    (hs : conn.Sequential) (i j : Nat) (m : String)
    (hi : (conn.useEach calls)[i]? = some (.error (.channel m))) (hij : i < j)
    (hj : j < calls.length) : (conn.useEach calls)[j]? = some (.error .closed) := by
  induction calls generalizing conn i j with
  | nil => simp at hj
  | cons as calls ih =>
    obtain ⟨channel, conn', result, huse, hs', hu', -, -, hm⟩ := use_spec conn as hs
    obtain ⟨j, rfl⟩ : ∃ j', j = j' + 1 := ⟨j - 1, by omega⟩
    simp only [useEach, huse, List.getElem?_cons_succ] at hi ⊢
    cases i with
    | zero =>
      simp only [List.getElem?_cons_zero, Option.some.injEq] at hi
      rw [useEach_of_closed calls conn' hs' channel hu' (hm m hi)]
      simp at hj
      simp [hj]
    | succ i => exact ih conn' hs' i j (by simpa using hi) (by omega) (by simpa using hj)

end Connection

def AmqpBroker.publishEach (conn : Connection) (messages : List TaskMessage) :
    List (Except AmqpError String) :=
  conn.useEach (messages.map fun message => AmqpBroker.assert
    message.properties.delivery_info.exchange message.properties.delivery_info.routing_key)

def RpcBackend.connection (routingKey : String) (exchanges : List (String × ExchangeArgs))
    (queues : List (String × QueueArgs)) : Connection :=
  (Connection.mk RpcBackend.channels [] exchanges queues |>.declare 0 (.queue routingKey rpcQueueArgs)).1

def RpcBackend.putEach (conn : Connection) (routingKey : String) (n : Nat) :
    List (Except AmqpError String) :=
  conn.useEach (List.replicate n [.queue routingKey rpcQueueArgs])

def taskTo (exchange routingKey : String) : TaskMessage :=
  ⟨"e30=", "utf-8", "application/json", [], ⟨"base64", "t", ⟨exchange, routingKey⟩, 2, 0, "r"⟩⟩

/-- A publish to an exchange the broker has as `fanout` fails and closes channel 0; the pool
hands channel 0 to the next publish, to the default exchange, which fails on it. -/
theorem pool_hands_closed_channel_to_next_publish :
    ∃ conn, AmqpBroker.publish (AmqpBroker.new [("x", ⟨"fanout", true, false, false, []⟩)] [])
        (taskTo "x" "celery") =
        some (conn, .error (.channel "exchange.declare")) ∧
      conn.channels.get.2 = some 0 ∧ 0 ∈ conn.closed ∧
      (AmqpBroker.publish conn (taskTo "" "celery")).map Prod.snd = some (.error .closed) :=
  ⟨_, rfl, rfl, by decide, rfl⟩

/-- Publishes and puts made one after another: once one fails with a channel-level error, the
pool keeps handing out the closed channel and every later call fails on it. -/
theorem channel_error_fails_every_later_call :
    (∀ (exchanges : List (String × ExchangeArgs)) (queues : List (String × QueueArgs))
      (messages : List TaskMessage) (i j : Nat) (m : String), i < j → j < messages.length →
      (AmqpBroker.publishEach (AmqpBroker.new exchanges queues) messages)[i]? =
        some (.error (.channel m)) →
      (AmqpBroker.publishEach (AmqpBroker.new exchanges queues) messages)[j]? =
        some (.error .closed)) ∧
    (∀ (routingKey : String) (exchanges : List (String × ExchangeArgs))
      (queues : List (String × QueueArgs)) (n i j : Nat) (m : String), i < j → j < n →
      (RpcBackend.putEach (RpcBackend.connection routingKey exchanges queues) routingKey n)[i]? =
        some (.error (.channel m)) →
      (RpcBackend.putEach (RpcBackend.connection routingKey exchanges queues) routingKey n)[j]? =
        some (.error .closed)) := by
  refine ⟨fun exchanges queues messages i j m hij hj hi => ?_,
    fun routingKey exchanges queues n i j m hij hj hi => ?_⟩
  · exact Connection.useEach_channel_error _ (AmqpBroker.new exchanges queues)
      ⟨rfl, .inl ⟨rfl, Nat.zero_lt_two⟩⟩ i j m hi hij
      (by simpa using hj)
  · have hs : (RpcBackend.connection routingKey exchanges queues).Sequential := by
      have h := (Connection.declare_spec (Connection.mk RpcBackend.channels [] exchanges queues) 0
        (.queue routingKey rpcQueueArgs)).1
      simp only [Connection.Sequential, RpcBackend.connection, h]
      exact ⟨rfl, .inl ⟨rfl, Nat.one_lt_two⟩⟩
    exact Connection.useEach_channel_error _ _ hs i j m hi hij (by simpa using hj)

theorem channel_error_fails_every_later_call_fanout :
    (AmqpBroker.publishEach (AmqpBroker.new [("x", ⟨"fanout", true, false, false, []⟩)] [])
        [taskTo "x" "celery", taskTo "" "celery"])[1]? = some (.error .closed) :=
  channel_error_fails_every_later_call.1 _ _ _ 0 1 "exchange.declare" (by decide) (by decide) rfl

def otherFrame : Publish := ⟨"", "celery", ⟨"e30=", "base64"⟩, RpcBackend.createPublishOptions "x"⟩

def taskFrame : Publish := ⟨"", "celery", ⟨"e30=", "base64"⟩, RpcBackend.createPublishOptions "t"⟩

def busyChannel : Channel Publish := ⟨2, [otherFrame], [], false⟩

def busyPublish : Sending Publish :=
  (AmqpBroker.doPublish ⟨"e30=", "base64"⟩ busyChannel "" (RpcBackend.createPublishOptions "t")
    "celery").run [.flush, .flush, .drain]

/-- The loop has returned after writing twice, and the task is buffered twice. -/
theorem doPublish_buffers_task_twice :
    busyPublish.loop = .done ∧ busyPublish.writes = 2 ∧
      busyPublish.channel.frames = [otherFrame, taskFrame, taskFrame] :=
  ⟨rfl, rfl, rfl⟩

end Celeries.Amqp
