set_option autoImplicit false

/-!
`ResourcePool`, the bounded pool of channels each AMQP broker and backend borrows from. Its
source is not in the repository's files: it is modelled from the spec (4.3). Resources are
named by the order of their creation; `destroyAll` is left out, since only publishing is
modelled over the pool.
-/

namespace Celeries.Containers

/-- Modelled from the spec: a `ResourcePool` with its unused resources, oldest first, the ones
lent out, and the number of borrowers blocked in `get`. -/
structure ResourcePool where
  capacity : Nat
  created : Nat
  unused : List Nat
  inUse : List Nat
  waiting : Nat
  deriving DecidableEq, Repr

namespace ResourcePool

def new (capacity : Nat) : ResourcePool := ⟨capacity, 0, [], [], 0⟩

def numOwned (p : ResourcePool) : Nat := p.unused.length + p.inUse.length

/-- `get()`: the oldest unused resource, else a new one while the pool is below capacity;
`none` when the caller has to wait for a `return`. -/
def get (p : ResourcePool) : ResourcePool × Option Nat :=
  match p.unused with
  | r :: rest => ({ p with unused := rest, inUse := p.inUse ++ [r] }, some r)
  | [] =>
    if p.numOwned < p.capacity then
      ({ p with created := p.created + 1, inUse := p.inUse ++ [p.created] }, some p.created)
    else ({ p with waiting := p.waiting + 1 }, none)

/-- `return(r)`: refused for a resource this pool has not lent out; handed to the oldest
waiter if there is one, otherwise appended to the unused ones. -/
def «return» (p : ResourcePool) (r : Nat) : Option ResourcePool :=
  if r ∈ p.inUse then
    if p.waiting = 0 then some { p with unused := p.unused ++ [r], inUse := p.inUse.erase r }
    else some { p with waiting := p.waiting - 1 }
  else none

theorem get_of_one_unused (p : ResourcePool) (hw : p.waiting = 0)
    (h : p.unused = [] ∧ p.numOwned < p.capacity ∨ ∃ c, p.unused = [c]) :
    ∃ p' r, p.get = (p', some r) ∧ p'.unused = [] ∧ p'.waiting = 0 ∧ r ∈ p'.inUse ∧
      ∀ c, p.unused = [c] → r = c := by
  rcases h with ⟨hu, hn⟩ | ⟨c, hu⟩
  · exact ⟨{ p with created := p.created + 1, inUse := p.inUse ++ [p.created] }, p.created,
      by simp [get, hu, hn], hu, hw, by simp, by simp [hu]⟩
  · exact ⟨{ p with unused := [], inUse := p.inUse ++ [c] }, c, by simp [get, hu], rfl, hw,
      by simp, by simp [hu]⟩

/-- The invariants of a pool (spec 4.3): the resources it owns, unused or lent out, are the
ones it created, each once, no more than `capacity` of them, and nobody waits while one is
unused. -/
structure Valid (p : ResourcePool) : Prop where
  owned : (p.unused ++ p.inUse).Perm (List.range p.created)
  bounded : p.created ≤ p.capacity
  noIdleWait : 0 < p.waiting → p.unused = []

theorem Valid.numOwned_eq {p : ResourcePool} (h : p.Valid) : p.numOwned = p.created := by
  simpa [numOwned] using h.owned.length_eq

/-- In a valid pool `get` makes its caller wait exactly when every resource is lent out and the
pool has created all it may: `noIdleWait` is then the spec's "a get waits only on a full pool". -/
theorem Valid.get_eq_none_iff {p : ResourcePool} (h : p.Valid) :
    p.get.2 = none ↔ p.unused = [] ∧ p.inUse.length = p.capacity := by
  have hc := h.numOwned_eq
  have hb := h.bounded
  unfold get
  split
  · rename_i r rest hu
    simp [hu]
  · rename_i hu
    simp only [numOwned, hu, List.length_nil, Nat.zero_add, true_and] at hc ⊢
    split <;> simp <;> omega

theorem new_valid (capacity : Nat) : (new capacity).Valid :=
  ⟨List.Perm.refl _, Nat.zero_le _, fun _ => rfl⟩

theorem get_valid {p : ResourcePool} (h : p.Valid) : p.get.1.Valid := by
  unfold get
  split
  · rename_i r rest hu
    have hown := h.owned
    rw [hu] at hown
    refine ⟨?_, h.bounded, fun hw => absurd (h.noIdleWait hw) (by simp [hu])⟩
    exact ((List.perm_append_comm.append_left rest).trans List.perm_middle).trans hown
  · rename_i hu
    split
    · rename_i hn
      have hc := h.numOwned_eq
      refine ⟨?_, show p.created + 1 ≤ p.capacity by omega, fun _ => hu⟩
      rw [List.range_succ, ← List.append_assoc]
      exact h.owned.append_right _
    · exact ⟨h.owned, h.bounded, fun _ => hu⟩

theorem return_valid {p p' : ResourcePool} {r : Nat} (h : p.Valid) (hr : p.return r = some p') :
    p'.Valid := by
  unfold «return» at hr
  split at hr
  · rename_i hin
    split at hr <;> cases hr
    · refine ⟨List.Perm.trans ?_ h.owned, h.bounded, fun hw => absurd hw (by simp [*])⟩
      rw [List.append_assoc]
      exact (List.perm_cons_erase hin).symm.append_left _
    · exact ⟨h.owned, h.bounded, fun _ => h.noIdleWait (by omega)⟩
  · cases hr

inductive Call where
  | get
  | «return» (r : Nat)
  deriving DecidableEq, Repr

def apply (p : ResourcePool) : Call → ResourcePool
  | .get => p.get.1
  | .return r => (p.return r).getD p

def run (p : ResourcePool) (calls : List Call) : ResourcePool := calls.foldl apply p

theorem apply_valid {p : ResourcePool} (h : p.Valid) : ∀ c, (p.apply c).Valid
  | .get => get_valid h
  | .return r => by
    rw [apply]
    cases hr : p.return r with
    | none => exact h
    | some p' => exact return_valid h hr

theorem run_valid {p : ResourcePool} (h : p.Valid) (calls : List Call) : (p.run calls).Valid := by
  induction calls generalizing p with
  | nil => exact h
  | cons c calls ih => exact ih (apply_valid h c)

/-- Whatever the calls, a pool owns each resource it created once, never more than its capacity,
and no `get` waits while a resource is unused. -/
theorem pool_keeps_invariants (capacity : Nat) (calls : List Call) :
    ((new capacity).run calls).Valid :=
  run_valid (new_valid capacity) calls

end ResourcePool

end Celeries.Containers
