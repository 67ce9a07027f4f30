set_option autoImplicit false

/-!
Promises as their settlement on a millisecond clock, and the timeout helpers of
`src/utility.ts`. The helpers are not in the repository's files; they follow the spec (4.10).
-/

namespace Celeries

inductive Reason where
  | error (message : String)
  | timeout
  | cancelled
  deriving DecidableEq, Repr

inductive Outcome (α : Type) where
  | fulfilled (value : α)
  | rejected (reason : Reason)
  deriving DecidableEq, Repr

abbrev Settlement (α : Type) := Option (Nat × Outcome α)

/-- `Promise.race`: the first to settle wins, and at equal times the first argument, since
an already settled promise is taken before any timer callback runs. -/
def race {α : Type} : Settlement α → Settlement α → Settlement α
  | none, q => q
  | some p, none => some p
  | some (tp, op), some (tq, oq) => if tq < tp then some (tq, oq) else some (tp, op)

/-- Modelled from the spec: `createTimerPromise(ms)`, started at `now`, rejects after `ms`. -/
def createTimerPromise {α : Type} (ms now : Nat) : Settlement α := some (now + ms, .rejected .timeout)

/-- Modelled from the spec: `createTimeoutPromise(p, ms)` called at `now` returns `p` when `ms` is
undefined and races `p` against a timer otherwise. -/
def createTimeoutPromise {α : Type} (p : Settlement α) (timeout : Option Nat) (now : Nat) :
    Settlement α :=
  match timeout with
  | none => p
  | some ms => race p (createTimerPromise ms now)

@[simp] theorem createTimeoutPromise_settled {α : Type} (o : Outcome α) (timeout : Option Nat)
    (now : Nat) : createTimeoutPromise (some (now, o)) timeout now = some (now, o) := by
  cases timeout with
  | none => rfl
  | some ms =>
    simp only [createTimeoutPromise, race, createTimerPromise]
    exact if_neg (by omega)

theorem createTimeoutPromise_late {α : Type} (t : Nat) (o : Outcome α) (ms now : Nat)
    (h : now + ms < t) :
    createTimeoutPromise (some (t, o)) (some ms) now = some (now + ms, .rejected .timeout) := by
  simp [createTimeoutPromise, race, createTimerPromise, h]

end Celeries
