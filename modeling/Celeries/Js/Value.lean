import Mathlib.Data.List.Sort
import Celeries.Js.Text
set_option autoImplicit false

/-!
JavaScript values as the option objects and query maps of this library hold them.

An object is the log of its own property assignments, oldest first: a later assignment
to a key overrides an earlier one and keeps the key's first position. Object literals and
spreads are then concatenation, `{ ...a, k: v, ...b }` is `a ++ [(k, v)] ++ b`.
-/

namespace Celeries.Js

/-- A JavaScript value. Numbers are held as exact integers: they are JavaScript's numbers, and
`toString` writes their digits, only up to `MAX_SAFE_INTEGER`; past it JavaScript rounds them,
and from `1e21` on writes them with an exponent. Theorems that read a number back bound it so. -/
inductive Val where
  | undefined
  | null
  | bool (b : Bool)
  | num (n : Int)
  | str (s : String)
  | fn (source : String)
  | arr (items : List Val)
  | obj (props : List (String × Val))
  deriving Repr, Inhabited

abbrev Obj := List (String × Val)

def MAX_SAFE_INTEGER : Nat := 9007199254740991

namespace Obj

def has (o : Obj) (k : String) : Bool := o.any fun p => p.1 = k

def get : Obj → String → Val
  | [], _ => .undefined
  | (k', v) :: o, k => if has o k then get o k else if k' = k then v else .undefined

def firstKeys : Obj → List String
  | [] => []
  | (k, _) :: o => k :: (firstKeys o).filter (· ≠ k)

def indexValue (k : String) : Nat := k.toList.foldl (fun n c => 10 * n + (c.toNat - 48)) 0

def isArrayIndex (k : String) : Bool :=
  match k.toList with
  | [] => false
  | '0' :: rest => rest.isEmpty
  | l => l.all isAsciiDigit && indexValue k < 4294967295

/-- `Object.keys`: the array indices in ascending order, then the other keys in the order
they were created. -/
def keys (o : Obj) : List String :=
  ((firstKeys o).filter isArrayIndex).insertionSort (fun a b => indexValue a ≤ indexValue b) ++
    (firstKeys o).filter fun k => !isArrayIndex k

/-- The rest of an object destructuring `{ [k]: _, ...rest } = o`. -/
def erase (o : Obj) (k : String) : Obj := o.filter fun p => p.1 ≠ k

@[simp] theorem has_nil (k : String) : has [] k = false := rfl

@[simp] theorem has_cons (k' k : String) (v : Val) (o : Obj) :
    has ((k', v) :: o) k = (k' = k || has o k) := by
  simp [has]

@[simp] theorem has_append (a b : Obj) (k : String) : has (a ++ b) k = (has a k || has b k) := by
  simp [has, List.any_append]

@[simp] theorem get_nil (k : String) : get [] k = .undefined := rfl

theorem get_of_has_false {o : Obj} {k : String} (h : has o k = false) : get o k = .undefined := by
  induction o with
  | nil => rfl
  | cons p o ih =>
    obtain ⟨k', v⟩ := p
    simp only [has_cons, Bool.or_eq_false_iff, decide_eq_false_iff_not] at h
    simp [get, h.1, h.2]

@[simp] theorem get_append (a b : Obj) (k : String) :
    get (a ++ b) k = if has b k then get b k else get a k := by
  induction a with
  | nil => cases h : has b k <;> simp [h, get_of_has_false]
  | cons p a ih =>
    obtain ⟨k', v⟩ := p
    by_cases hb : has b k <;> simp [get, hb, ih]

@[simp] theorem get_singleton (k' k : String) (v : Val) :
    get [(k', v)] k = if k' = k then v else .undefined := by
  simp [get]

@[simp] theorem has_erase (o : Obj) (k k' : String) :
    has (erase o k) k' = (has o k' && k ≠ k') := by
  induction o with
  | nil => rfl
  | cons p o ih =>
    obtain ⟨j, v⟩ := p
    by_cases hj : j = k <;> by_cases hk : k = k' <;> simp_all [erase, List.filter_cons]

theorem get_erase (o : Obj) (k k' : String) (h : k ≠ k') : get (erase o k) k' = get o k' := by
  induction o with
  | nil => rfl
  | cons p o ih =>
    obtain ⟨j, v⟩ := p
    by_cases hj : j = k
    · subst hj
      rw [show erase ((j, v) :: o) j = erase o j by simp [erase], ih]
      cases ho : has o k' <;> simp [get, ho, h, get_of_has_false]
    · rw [show erase ((j, v) :: o) k = (j, v) :: erase o k by simp [erase, hj], get, get, has_erase, ih]
      simp [h]

theorem mem_firstKeys {o : Obj} {k : String} : k ∈ firstKeys o ↔ has o k = true := by
  induction o with
  | nil => simp [firstKeys]
  | cons p o ih =>
    obtain ⟨k', v⟩ := p
    simp only [firstKeys, List.mem_cons, List.mem_filter, ih, has_cons, Bool.or_eq_true,
      decide_eq_true_eq, ne_eq]
    by_cases h : k = k' <;> simp [h, Ne.symm]

theorem nodup_firstKeys (o : Obj) : (firstKeys o).Nodup := by
  induction o with
  | nil => exact List.nodup_nil
  | cons p o ih => exact List.Nodup.cons (by simp) (ih.filter _)

theorem mem_keys {o : Obj} {k : String} : k ∈ keys o ↔ has o k = true := by
  rw [keys, List.mem_append, (List.perm_insertionSort _ _).mem_iff, List.mem_filter, List.mem_filter,
    ← and_or_left, mem_firstKeys]
  cases isArrayIndex k <;> simp

theorem nodup_keys (o : Obj) : (keys o).Nodup := by
  refine List.Nodup.append (((nodup_firstKeys o).filter _).perm (List.perm_insertionSort _ _).symm)
    ((nodup_firstKeys o).filter _) fun k h1 h2 => ?_
  rw [(List.perm_insertionSort _ _).mem_iff, List.mem_filter] at h1
  rw [List.mem_filter] at h2
  simp_all

def lookup (o : Obj) (k : String) : Option Val := if has o k then some (get o k) else none

@[simp] theorem lookup_set (o : Obj) (k k' : String) (v : Val) :
    lookup (o ++ [(k, v)]) k' = if k = k' then some v else lookup o k' := by
  by_cases h : k = k' <;> simp [lookup, h]

@[simp] theorem lookup_erase (o : Obj) (k k' : String) :
    lookup (erase o k) k' = if k = k' then none else lookup o k' := by
  by_cases h : k = k'
  · simp [lookup, h]
  · simp [lookup, h, get_erase _ _ _ h]

theorem has_eq_isSome_lookup (o : Obj) (k : String) : has o k = (lookup o k).isSome := by
  by_cases h : has o k <;> simp [lookup, h]

theorem lookup_of_has {o : Obj} {k : String} (h : has o k = true) : lookup o k = some (get o k) := by
  simp [lookup, h]

def field (k : String) (v : Option Val) : Obj := (v.map fun x => (k, x)).toList

@[simp] theorem has_field (k k' : String) (v : Option Val) : has (field k v) k' = (v.isSome && k = k') := by
  cases v <;> simp [field]

@[simp] theorem get_field (k k' : String) (v : Option Val) :
    get (field k v) k' = if k = k' then v.getD .undefined else .undefined := by
  cases v <;> simp [field]

theorem get_append_field (o : Obj) (k k' : String) (v : Option Val) :
    get (o ++ field k v) k' = if k = k' then v.getD (get o k') else get o k' := by
  cases v <;> by_cases h : k = k' <;> simp [field, h]

end Obj

namespace Val

def truthy : Val → Bool
  | .undefined | .null => false
  | .bool b => b
  | .num n => n ≠ 0
  | .str s => s ≠ ""
  | .fn _ | .arr _ | .obj _ => true

def props : Val → Obj
  | .obj o => o
  | .arr items => (List.range items.length).zip items |>.map fun p => (toString p.1, p.2)
  | .str s => (List.range s.length).zip s.data |>.map fun p => (toString p.1, .str p.2.toString)
  | .undefined | .null | .bool _ | .num _ | .fn _ => []

def toStrWith (join : List Val → String) : Val → String
  | .undefined => "undefined"
  | .null => "null"
  | .bool b => toString b
  | .num n => toString n
  | .str s => s
  | .fn source => source
  | .arr items => join items
  | .obj _ => "[object Object]"

mutual
def joinItems : List Val → List String
  | [] => []
  | .undefined :: items => "" :: joinItems items
  | .null :: items => "" :: joinItems items
  | v :: items => itemToStr v :: joinItems items

def itemToStr : Val → String
  | .arr items => ",".intercalate (joinItems items)
  | v => toStrWith (fun _ => "") v
end

/-- `ToString`, as a template literal `${x}` applies it. -/
def toStr : Val → String := toStrWith fun items => ",".intercalate (joinItems items)

@[simp] theorem toStr_str (s : String) : (str s).toStr = s := rfl

@[simp] theorem toStr_num (n : Int) : (num n).toStr = toString n := rfl

def isUndefined : Val → Bool
  | .undefined => true
  | _ => false

end Val

end Celeries.Js
