import Celeries.Utility.Timeout
set_option autoImplicit false

/-!
`PromiseMap`, the keyed registry of promises. Its source is not in the repository's files:
it is modelled from the spec (4.1). A key's record is pending or settled; the waiters on a
pending record are kept by the code that awaits it, which learns from each operation whether
it settled a pending record. Resolving with a promise is left out: nothing modelled here
does it.
-/

namespace Celeries.Containers

inductive Record (V : Type) where
  | pending
  | settled (at_ : Nat) (outcome : Outcome V)
  deriving DecidableEq, Repr

def Record.settlement {V : Type} : Record V → Settlement V
  | .pending => none
  | .settled t o => some (t, o)

/-- Modelled from the spec: a `PromiseMap` with its per-entry timeout, as the record of each key. -/
structure PromiseMap (V : Type) where
  timeoutMs : Nat
  records : String → Option (Record V)

namespace PromiseMap
variable {V : Type}

def empty (timeoutMs : Nat) : PromiseMap V := ⟨timeoutMs, fun _ => none⟩

def update (m : PromiseMap V) (k : String) (r : Option (Record V)) : PromiseMap V :=
  { m with records := fun k' => if k' = k then r else m.records k' }

def isPending (m : PromiseMap V) (k : String) : Bool :=
  match m.records k with
  | some .pending => true
  | _ => false

def get (m : PromiseMap V) (k : String) : PromiseMap V × Record V :=
  match m.records k with
  | some r => (m, r)
  | none => (m.update k (some .pending), .pending)

/-- `resolve(k, v)` and `reject(k, e)` at `now`: a settled record is overwritten. The flag is
whether the record was created by this call. -/
def settle (m : PromiseMap V) (k : String) (o : Outcome V) (now : Nat) : PromiseMap V × Bool :=
  (m.update k (some (.settled now o)), (m.records k).isNone)

def resolve (m : PromiseMap V) (k : String) (v : V) (now : Nat) : PromiseMap V × Bool :=
  m.settle k (.fulfilled v) now

def reject (m : PromiseMap V) (k : String) (e : Reason) (now : Nat) : PromiseMap V × Bool :=
  m.settle k (.rejected e) now

/-- `delete(k)`: whether a record was removed. Its pending waiters are rejected as cancelled. -/
def delete (m : PromiseMap V) (k : String) : PromiseMap V × Bool :=
  (m.update k none, (m.records k).isSome)

def rejectAll (m : PromiseMap V) (e : Reason) (now : Nat) : PromiseMap V :=
  { m with records := fun k =>
      match m.records k with
      | some .pending => some (.settled now (.rejected e))
      | r => r }

def clear (m : PromiseMap V) : PromiseMap V := { m with records := fun _ => none }

/-- The entry timeout: a record settled at least `timeoutMs` ago is removed. -/
def expire (m : PromiseMap V) (k : String) (now : Nat) : PromiseMap V :=
  match m.records k with
  | some (.settled t _) => if t + m.timeoutMs ≤ now then m.update k none else m
  | _ => m

@[simp] theorem update_records (m : PromiseMap V) (k k' : String) (r : Option (Record V)) :
    (m.update k r).records k' = if k' = k then r else m.records k' := rfl

@[simp] theorem rejectAll_records (m : PromiseMap V) (e : Reason) (now : Nat) (k : String) :
    (m.rejectAll e now).records k =
      match m.records k with
      | some .pending => some (.settled now (.rejected e))
      | r => r := rfl

theorem rejectAll_not_pending (m : PromiseMap V) (e : Reason) (now : Nat) (k : String) :
    (m.rejectAll e now).isPending k = false := by
  simp only [isPending, rejectAll_records]
  rcases h : m.records k with _ | _ | _ <;> rfl

theorem isPending_iff (m : PromiseMap V) (k : String) :
    m.isPending k = true ↔ m.records k = some .pending := by
  unfold isPending
  split <;> simp_all

theorem get_records_self (m : PromiseMap V) (k : String) :
    (m.get k).1.records k = some (m.get k).2 := by
  unfold get
  split <;> simp_all

theorem get_records (m : PromiseMap V) (k k' : String) :
    (m.get k).1.records k' = m.records k' ∨
      m.records k' = none ∧ (m.get k).1.records k' = some .pending := by
  unfold get
  split
  · exact .inl rfl
  · by_cases h : k' = k
    · subst h
      exact .inr ⟨by assumption, by simp⟩
    · exact .inl (by simp [h])

theorem get_snd_of_records {m : PromiseMap V} {k : String} {r : Record V} (h : m.records k = some r) :
    (m.get k).2 = r := by
  simp [get, h]

theorem expire_records_of_ne (m : PromiseMap V) {k k' : String} (now : Nat) (h : k' ≠ k) :
    (m.expire k now).records k' = m.records k' := by
  unfold expire
  split
  · split
    · simp [h]
    · rfl
  · rfl

theorem expire_records (m : PromiseMap V) (k : String) (now : Nat) (k' : String) :
    (m.expire k now).records k' = m.records k' ∨
      (m.expire k now).records k' = none ∧ ∃ t o, m.records k' = some (.settled t o) := by
  unfold expire
  split
  · rename_i t o h
    split
    · by_cases hk : k' = k
      · subst hk
        exact .inr ⟨by simp, t, o, h⟩
      · exact .inl (by simp [hk])
    · exact .inl rfl
  · exact .inl rfl

end PromiseMap

end Celeries.Containers
