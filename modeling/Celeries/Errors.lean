set_option autoImplicit false

/-!
The exceptions the modelled code throws, and how a `do` block over `Except` passes them on.
-/

namespace Celeries

/-- The exceptions thrown by the code modelled here: this library's `ParseError` and
`UnimplementedError`, and the `URIError` of `decodeURIComponent`. -/
inductive Error where
  | parse (message : String)
  | unimplemented (message : String)
  | uri (message : String)
  deriving DecidableEq, Repr

instance decEqExcept {ε α : Type} [DecidableEq ε] [DecidableEq α] : DecidableEq (Except ε α)
  | .error a, .error b => decidable_of_iff (a = b) (by simp)
  | .ok a, .ok b => decidable_of_iff (a = b) (by simp)
  | .error _, .ok _ => isFalse (by simp)
  | .ok _, .error _ => isFalse (by simp)

@[simp] theorem ok_bind {ε α β : Type} (a : α) (f : α → Except ε β) :
    (Except.ok a >>= f) = f a := rfl

@[simp] theorem error_bind {ε α β : Type} (e : ε) (f : α → Except ε β) :
    (Except.error e >>= f) = .error e := rfl

@[simp] theorem bind_ok {ε α : Type} (x : Except ε α) : (x >>= fun a => .ok a) = x := by
  cases x <;> rfl

def Error.isParse : Error → Bool
  | .parse _ => true
  | _ => false

end Celeries
