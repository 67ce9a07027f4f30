import Celeries.Js.Decimal
import Celeries.Js.Value
import Celeries.Utility.Parse
set_option autoImplicit false

/-!
`src/query_parser.ts`, which is not in the repository's files: a `QueryParser` copies the
query values its descriptors name into an options object, each through the descriptor's
parser. It follows the spec (4.6) and the query parser tests.
-/

namespace Celeries
open Js

/-- Modelled from the spec: a descriptor reads `queries[source]` and writes the parsed
value to `target`, which defaults to `source`. -/
structure QueryDescriptor where
  source : String
  target : Option String
  parser : Option (Val → Except Error Val)

/-- Modelled from the spec: the last value of a repeated query. -/
def asScalar : Val → Val
  | .arr items => items.getLast?.getD .undefined
  | v => v

/-- Modelled from the spec. -/
def asArray : Val → Val
  | .arr items => .arr items
  | v => .arr [v]

/-- Modelled from the spec. -/
def createIntegerQueryDescriptor (source : String) (target : Option String) : QueryDescriptor :=
  ⟨source, target, some fun x => (fun n => Val.num n) <$> parseInteger (asScalar x).toStr⟩

/-- Modelled from the spec. -/
def createBooleanQueryDescriptor (source : String) (target : Option String) : QueryDescriptor :=
  ⟨source, target, some fun x => Val.bool <$> parseBoolean (asScalar x).toStr⟩

/-- Modelled from the spec: `new QueryParser(descriptors).parse(queries, initial)` adds to
`initial`, in the descriptors' order, each value whose source is in the query. -/
def QueryParser.parse (descriptors : List QueryDescriptor) (queries initial : Obj) :
    Except Error Obj :=
  descriptors.foldlM (fun result d =>
    let raw := queries.get d.source
    if raw.isUndefined then .ok result
    else do
      let value ← match d.parser with
        | some p => p raw
        | none => .ok raw
      .ok (result ++ [(d.target.getD (toCamelCase d.source), value)])) initial

theorem parseInteger_toString (n : Nat) : parseInteger (toString n) = .ok n := by
  obtain ⟨hdigits, hval, c, cs, hl, hlead⟩ := repr_spec n
  have hcs : c = '0' → cs = [] := fun hc => by
    obtain rfl := hlead hc
    exact (List.cons.inj hl).2.symm
  rw [show toString n = ⟨c :: cs⟩ from String.ext hl, parseInteger_digits c cs (hl ▸ hdigits) hcs, ← hl,
    hval]

section Steps
variable (ds : List QueryDescriptor) (queries result : Obj) (source : String)

theorem parse_nil : QueryParser.parse [] queries result = .ok result := rfl

theorem parse_integer_cons (v : Option Nat)
    (hq : queries.get source = (v.map fun n => Val.str (toString n)).getD .undefined)
    (hc : toCamelCase source = source) :
    QueryParser.parse (createIntegerQueryDescriptor source none :: ds) queries result =
      QueryParser.parse ds queries (result ++ Obj.field source (v.map fun n => .num n)) := by
  cases v with
  | none => simp [QueryParser.parse, createIntegerQueryDescriptor, hq, Val.isUndefined, Obj.field]
  | some n =>
    simp [QueryParser.parse, createIntegerQueryDescriptor, hq, Val.isUndefined, Obj.field, asScalar,
      parseInteger_toString, hc]

theorem parse_plain_cons (v : Option String) (hq : queries.get source = (v.map .str).getD .undefined)
    (hc : toCamelCase source = source) :
    QueryParser.parse (⟨source, none, none⟩ :: ds) queries result =
      QueryParser.parse ds queries (result ++ Obj.field source (v.map .str)) := by
  cases v <;> simp [QueryParser.parse, hq, Val.isUndefined, Obj.field, hc]

end Steps

end Celeries
