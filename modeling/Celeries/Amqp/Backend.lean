import Mathlib.Data.Nat.Defs
import Celeries.Containers.PromiseMap
set_option autoImplicit false

/-!
`RpcBackend` of `src/amqp/backend.ts` as a state machine over the events of a run: `get`
calls, the consumer's deliveries (a reply, or `null` when the broker cancels the consumer),
`delete`, the passing of time, entry expiry, and the two steps of `end()` between which other
events can run (its `rejectAll`, then the cancellation of the consumer by tag). `put` only
sends a reply to the queue this backend consumes; it reaches the state as a later delivery.
-/

namespace Celeries.Amqp
open Containers

structure Message where
  correlationId : String
  content : String
  deriving DecidableEq, Repr

/-- One call `get({taskId, timeout})`, with the settlement of the `PromiseMap` promise it
awaits once that promise has settled. -/
structure GetCall where
  taskId : String
  timeout : Option Nat
  calledAt : Nat
  entry : Settlement Message
  deriving DecidableEq, Repr

inductive EndPhase where
  | running
  | rejected
  | cancelled
  deriving DecidableEq, Repr

structure RpcBackend where
  clock : Nat
  promises : PromiseMap Message
  gets : List GetCall
  consuming : Bool
  phase : EndPhase

def DEFAULT_TIMEOUT : Nat := 365 * 86400000

def RpcBackend.new : RpcBackend := ⟨0, .empty DEFAULT_TIMEOUT, [], true, .running⟩

def settleGets (gets : List GetCall) (taskId : String) (now : Nat) (o : Outcome Message) :
    List GetCall :=
  gets.map fun g => if g.taskId = taskId && g.entry.isNone then { g with entry := some (now, o) } else g

def rejectGets (gets : List GetCall) (now : Nat) (e : Reason) : List GetCall :=
  gets.map fun g => if g.entry.isNone then { g with entry := some (now, .rejected e) } else g

namespace RpcBackend

def get (self : RpcBackend) (taskId : String) (timeout : Option Nat) : RpcBackend :=
  let lookup := self.promises.get taskId
  { self with promises := lookup.1,
              gets := self.gets ++ [⟨taskId, timeout, self.clock, lookup.2.settlement⟩] }

def rejectAll (self : RpcBackend) (e : Reason) : RpcBackend :=
  { self with promises := self.promises.rejectAll e self.clock,
              gets := rejectGets self.gets self.clock e }

def onMessage (self : RpcBackend) : Option Message → RpcBackend
  | none => self.rejectAll (.error "RabbitMQ cancelled consumer")
  | some message =>
    let id := message.correlationId
    let gets := if self.promises.isPending id
      then settleGets self.gets id self.clock (.fulfilled message) else self.gets
    { self with promises := (self.promises.resolve id message self.clock).1, gets }

def delete (self : RpcBackend) (taskId : String) : RpcBackend × String :=
  let gets := if self.promises.isPending taskId
    then settleGets self.gets taskId self.clock (.rejected .cancelled) else self.gets
  let deletion := self.promises.delete taskId
  ({ self with promises := deletion.1, gets }, if deletion.2 then "deleted" else "no result found")

inductive Event where
  | get (taskId : String) (timeout : Option Nat)
  | delivery (message : Option Message)
  | delete (taskId : String)
  | tick (ms : Nat)
  | expire (taskId : String)
  | endRejectAll
  | endCancel
  deriving DecidableEq, Repr

/-- Deliveries stop once the consumer is cancelled; `end()` runs its two steps once, in order. -/
def step (self : RpcBackend) : Event → RpcBackend
  | .get taskId timeout => self.get taskId timeout
  | .delivery message =>
    if self.consuming then { self.onMessage message with consuming := message.isSome } else self
  | .delete taskId => (self.delete taskId).1
  | .tick ms => { self with clock := self.clock + ms }
  | .expire taskId => { self with promises := self.promises.expire taskId self.clock }
  | .endRejectAll =>
    if self.phase = .running then
      { self.rejectAll (.error "disconnecting") with phase := .rejected }
    else self
  | .endCancel =>
    if self.phase = .rejected then { self with consuming := false, phase := .cancelled } else self

def run (self : RpcBackend) (events : List Event) : RpcBackend := events.foldl step self

@[simp] theorem run_nil (self : RpcBackend) : self.run [] = self := rfl

@[simp] theorem run_cons (self : RpcBackend) (e : Event) (events : List Event) :
    self.run (e :: events) = (self.step e).run events := rfl

def isPendingAt (self : RpcBackend) (i : Nat) : Bool :=
  match self.gets[i]? with
  | some g => g.entry.isNone
  | none => false

end RpcBackend

variable {R : Type} (parseMessage : Message → Except Reason R)

/-- The promise `get` returns. It awaits the entry, parses the reply, and only then wraps the
parsed value in `createTimeoutPromise`, so the timer starts once the reply is there. -/
def GetCall.result (g : GetCall) : Settlement R :=
  match g.entry with
  | none => none
  | some (t, .rejected e) => some (max t g.calledAt, .rejected e)
  | some (t, .fulfilled raw) =>
    let now := max t g.calledAt
    match parseMessage raw with
    | .error e => some (now, .rejected e)
    | .ok result => createTimeoutPromise (some (now, .fulfilled result)) g.timeout now

/-- Whatever timeout a get call passes, its promise settles as it would with none. -/
theorem GetCall.result_timeout_irrelevant (g : GetCall) (timeout : Option Nat) :
    ({ g with timeout } : GetCall).result parseMessage = g.result parseMessage := by
  obtain ⟨taskId, timeout', calledAt, _ | ⟨t, _ | e⟩⟩ := g
  · rfl
  · simp only [GetCall.result]
    split <;> simp
  · rfl

def lateReply : Message := ⟨"a", "{}"⟩

/-- A get with a 5 ms timeout, called at 0, fulfils at 10 with a reply delivered at 10. -/
theorem get_fulfils_after_its_timeout :
    (RpcBackend.new.run [.get "a" (some 5), .tick 10, .delivery (some lateReply)]).gets =
        [⟨"a", some 5, 0, some (10, .fulfilled lateReply)⟩] ∧
      GetCall.result (fun m => .ok m.content) ⟨"a", some 5, 0, some (10, .fulfilled lateReply)⟩ =
        some (10, .fulfilled "{}") := by
  decide

end Celeries.Amqp

namespace Celeries.Amqp
open Containers
namespace RpcBackend

theorem rejectGets_getElem? (gets : List GetCall) (now : Nat) (e : Reason) (i : Nat)
    (g : GetCall) (hg : gets[i]? = some g) (hp : g.entry = none) :
    (rejectGets gets now e)[i]? = some { g with entry := some (now, .rejected e) } := by
  simp [rejectGets, hg, hp]

theorem step_delivery_none (s : RpcBackend) (h : s.consuming = true) :
    (s.step (.delivery none)).gets = rejectGets s.gets s.clock (.error "RabbitMQ cancelled consumer") := by
  simp [step, h, onMessage, rejectAll]

theorem step_endRejectAll (s : RpcBackend) (h : s.phase = .running) :
    (s.step .endRejectAll).gets = rejectGets s.gets s.clock (.error "disconnecting") := by
  simp [step, h, rejectAll]

/-- With the consumer gone, a get settles only by a `delete` of its key or by the
`rejectAll` of `end()`. -/
theorem step_keeps_pending (s : RpcBackend) (e : Event) (i : Nat) (g : GetCall)
    (hc : s.consuming = false) (hg : s.gets[i]? = some g)
    (hd : e ≠ .delete g.taskId) (hr : e ≠ .endRejectAll) :
    (s.step e).consuming = false ∧ (s.step e).gets[i]? = some g := by
  cases e with
  | get taskId timeout =>
    exact ⟨hc, by simp [step, get, List.getElem?_append_left (List.getElem?_eq_some_iff.1 hg).1, hg]⟩
  | delivery m => simp [step, hc, hg]
  | delete taskId =>
    have hne : g.taskId ≠ taskId := fun h => hd (h ▸ rfl)
    refine ⟨hc, ?_⟩
    simp only [step, delete]
    split <;> simp [settleGets, hg, hne]
  | tick ms => exact ⟨hc, hg⟩
  | expire taskId => exact ⟨hc, hg⟩
  | endRejectAll => exact absurd rfl hr
  | endCancel => simp only [step]; split <;> simp [hc, hg]

theorem run_keeps_pending (events : List Event) (s : RpcBackend) (i : Nat) (g : GetCall)
    (hc : s.consuming = false) (hg : s.gets[i]? = some g)
    (he : ∀ e ∈ events, e ≠ .delete g.taskId ∧ e ≠ .endRejectAll) :
    (s.run events).gets[i]? = some g := by
  induction events generalizing s with
  | nil => exact hg
  | cons e events ih =>
    obtain ⟨hc', hg'⟩ := step_keeps_pending s e i g hc hg (he e (by simp)).1 (he e (by simp)).2
    exact ih (s.step e) hc' hg' fun e' h => he e' (by simp [h])

theorem get_pending_of_not_settled (s : RpcBackend) (taskId : String) (timeout : Option Nat)
    (hs : ∀ t o, s.promises.records taskId ≠ some (.settled t o)) :
    (s.step (.get taskId timeout)).gets[s.gets.length]? =
      some ⟨taskId, timeout, s.clock, none⟩ := by
  simp only [step, get, PromiseMap.get]
  split
  · rename_i r hr
    cases r with
    | pending => simp [Record.settlement]
    | settled t o => exact absurd hr (hs t o)
  · simp [Record.settlement]

/-- Cancelling the reply consumer, by the broker (`onMessage(null)`) or by `end()` (whose
`rejectAll` runs first), rejects every get pending at that step. Nothing refuses a later get:
with the consumer gone, a get on a key without a settled record stays pending through every
later event but a `delete` of its key and the `rejectAll` of `end()`. -/
theorem consumer_cancellation_strands_later_gets :
    (∀ (s : RpcBackend) (i : Nat) (g : GetCall), s.consuming = true → s.gets[i]? = some g →
      g.entry = none →
      (s.step (.delivery none)).gets[i]? =
        some { g with entry := some (s.clock, .rejected (.error "RabbitMQ cancelled consumer")) }) ∧
    (∀ (s : RpcBackend) (i : Nat) (g : GetCall), s.phase = .running → s.gets[i]? = some g →
      g.entry = none →
      (s.step .endRejectAll).gets[i]? =
        some { g with entry := some (s.clock, .rejected (.error "disconnecting")) }) ∧
    (∀ (s : RpcBackend) (taskId : String) (timeout : Option Nat) (events : List Event),
      s.consuming = false → (∀ t o, s.promises.records taskId ≠ some (.settled t o)) →
      (∀ e ∈ events, e ≠ .delete taskId ∧ e ≠ .endRejectAll) →
      ((s.step (.get taskId timeout)).run events).isPendingAt s.gets.length = true) := by
  refine ⟨fun s i g h hg hp => ?_, fun s i g h hg hp => ?_, fun s taskId timeout events hc hs he => ?_⟩
  · rw [step_delivery_none s h, rejectGets_getElem? _ _ _ i g hg hp]
  · rw [step_endRejectAll s h, rejectGets_getElem? _ _ _ i g hg hp]
  · have hg := get_pending_of_not_settled s taskId timeout hs
    have hr := run_keeps_pending events _ _ _ (by simpa [step, get] using hc) hg he
    simp [isPendingAt, hr]

/-- After the broker cancels the consumer, a new get stays pending. -/
theorem consumer_cancellation_strands_later_gets_one_get :
    ((RpcBackend.new.get "a" none).step (.delivery none)).gets[0]? =
        some ⟨"a", none, 0, some (0, .rejected (.error "RabbitMQ cancelled consumer"))⟩ ∧
    ((RpcBackend.new.get "a" none).step .endRejectAll).gets[0]? =
        some ⟨"a", none, 0, some (0, .rejected (.error "disconnecting"))⟩ ∧
    (((RpcBackend.new.step (.delivery none)).step (.get "a" none)).run [.tick 5]).isPendingAt 0 =
      true :=
  ⟨consumer_cancellation_strands_later_gets.1 _ 0 ⟨"a", none, 0, none⟩ rfl rfl rfl,
    consumer_cancellation_strands_later_gets.2.1 _ 0 ⟨"a", none, 0, none⟩ rfl rfl rfl,
    consumer_cancellation_strands_later_gets.2.2 _ "a" none [.tick 5] rfl
      (fun _ _ h => Option.noConfusion h) (by decide)⟩

theorem get_after_broker_cancel_stays_pending :
    (RpcBackend.new.run [.delivery none, .get "a" none]).consuming = false ∧
      (RpcBackend.new.run [.delivery none, .get "a" none]).isPendingAt 0 = true := by
  decide

end RpcBackend
end Celeries.Amqp
