import Celeries.QueryParser
import Celeries.Uri.Parse
set_option autoImplicit false

/-!
The Redis URI parsers: `parse` of `src/redis/uri/tcp.ts` (here `parseTcp`) and of
`src/redis/uri/socket.ts` (here `parseSocket`). Both read the query with `parseRedisQuery`
of `src/redis/uri/common.ts`, which is not in the repository's files and follows the spec
(4.5) and the Redis URI tests.
-/

namespace Celeries.Redis
open Js Pattern

/-- Modelled from the spec: the typed queries `noDelay` and `password` of a Redis URI; a
repeated `password` takes its last value. -/
def parseRedisQuery (uri : Uri) : Except Error Obj :=
  match uri.query with
  | none => .ok []
  | some query =>
    QueryParser.parse [createBooleanQueryDescriptor "noDelay" none,
      ⟨"password", none, some fun x => .ok (asScalar x)⟩] query []

/-- `/^\/0*(\d+)/` -/
def DB_REGEX : Pattern :=
  seqs [lit '/', star (lit '0'), .group 1 (plus (.cls ⟨digitRanges, false⟩))]

def parseDb (maybeDb : String) : Except Error Nat :=
  match DB_REGEX.exec maybeDb with
  | none => .error (.parse ("unable to parse \"" ++ maybeDb ++ "\" as db path"))
  | some m => parseInteger (capture m 1)

/-- `0*(\d+)` of `DB_REGEX` on digits: the zeros go first, but `\d+` keeps at least one digit,
and then takes every digit that is left. -/
theorem dbDigits_matches (ds rest : List Char) (hne : ds ≠ []) (hds : ∀ c ∈ ds, isAsciiDigit c = true)
    (hrest : ∀ c ∈ rest.head?, isAsciiDigit c = false) (caps : Captures) :
    ∃ cap, ((Pattern.seq (star (lit '0')) (.group 1 (plus (.cls ⟨digitRanges, false⟩)))).matches
        caps (ds ++ rest)).head? = some ((1, cap) :: caps, rest) ∧
      (∃ c cs, cap = c :: cs ∧ (c = '0' → cs = [])) ∧ (∀ c ∈ cap, isAsciiDigit c = true) ∧
      digitsValue cap = digitsValue ds := by
  have hdigit : ∀ c ∈ rest.head?, CharClass.mem ⟨digitRanges, false⟩ c = false := fun c hc => by
    rw [CharClass.mem_digit]; exact hrest c hc
  induction ds with
  | nil => exact absurd rfl hne
  | cons c ds ih =>
    have hc := hds c (List.mem_cons_self c ds)
    by_cases h0 : c = '0'
    · subst h0
      rcases ds with _ | ⟨d, ds⟩
      · have hzero : ∀ x ∈ rest.head?, CharClass.mem ⟨[('0', '0')], false⟩ x = false := fun x hx => by
          rw [Bool.eq_false_iff, Ne, CharClass.mem_lit_iff]
          rintro rfl
          exact absurd (hrest '0' hx) (by decide)
        obtain ⟨more, hplus⟩ := matches_plus_cls ⟨digitRanges, false⟩ caps '0' [] rest (by decide)
          (by simp) hdigit
        refine ⟨['0'], ?_, ⟨'0', [], rfl, fun _ => rfl⟩, by decide, rfl⟩
        rw [List.cons_append, matches_seq, lit, matches_star_cls_cons _ _ _ _ (CharClass.mem_lit '0'),
          List.flatMap_append, List.nil_append, matches_star_cls_stop _ _ _ hzero]
        simp only [List.nil_append] at hplus
        simp [matches_plus_cls_nil _ _ _ hdigit, hplus]
      · obtain ⟨cap, hm, hcap⟩ := ih (List.cons_ne_nil d ds) fun x hx => hds x (.tail _ hx)
        rw [matches_seq, lit] at hm
        rw [List.cons_append, matches_seq, lit, matches_star_cls_cons _ _ _ _ (CharClass.mem_lit '0'),
          List.flatMap_append, List.head?_append, hm]
        exact ⟨cap, rfl, hcap⟩
    · have hnz : ∀ x ∈ (c :: (ds ++ rest)).head?, CharClass.mem ⟨[('0', '0')], false⟩ x = false :=
        fun x hx => by
          cases hx
          rw [Bool.eq_false_iff, Ne, CharClass.mem_lit_iff]
          exact h0
      obtain ⟨more, hplus⟩ := matches_plus_cls ⟨digitRanges, false⟩ caps c ds rest
        (by rw [CharClass.mem_digit]; exact hc)
        (fun x hx => by rw [CharClass.mem_digit]; exact hds x (.tail _ hx)) hdigit
      refine ⟨c :: ds, ?_, ⟨c, ds, rfl, fun h => absurd h h0⟩, hds, rfl⟩
      rw [List.cons_append, matches_seq, lit, matches_star_cls_stop _ _ _ hnz]
      simp only [List.flatMap_cons, List.flatMap_nil, List.append_nil, matches_group, hplus,
        List.map_cons, List.head?_cons, List.length_cons, List.length_append]
      rw [show ds.length + rest.length + 1 - rest.length = ds.length + 1 by omega]
      simp

/-- The db of a path that starts with `/` and digits: the value of the digits, whatever follows
them. -/
theorem parseDb_digits (ds rest : List Char) (hne : ds ≠ []) (hds : ∀ c ∈ ds, isAsciiDigit c = true)
    (hrest : ∀ c ∈ rest.head?, isAsciiDigit c = false) :
    parseDb ⟨'/' :: (ds ++ rest)⟩ = .ok (digitsValue ds) := by
  obtain ⟨cap, hm, ⟨c, cs, rfl, hlead⟩, hcap, hval⟩ := dbDigits_matches ds rest hne hds hrest []
  have hexec : DB_REGEX.exec ⟨'/' :: (ds ++ rest)⟩ = some [(1, c :: cs)] := by
    simp only [Pattern.exec, DB_REGEX, seqs, String.toList, matches_seq, lit, matches_cls_cons,
      CharClass.mem_lit, if_true, List.flatMap_cons, List.flatMap_nil, List.append_nil]
    simp only [lit] at hm
    rw [← matches_seq, hm]
    rfl
  simp only [parseDb, hexec]
  rw [show capture [(1, c :: cs)] 1 = ⟨c :: cs⟩ from rfl, parseInteger_digits c cs hcap hlead, hval]

theorem parseDb_toString (d : Nat) : parseDb ("/" ++ toString d) = .ok d := by
  obtain ⟨hdigits, hval, c, cs, hl, hlead⟩ := repr_spec d
  by_cases hd : d = 0
  · subst hd
    rfl
  · have hc0 : c ≠ '0' := fun h => hd (hlead h)
    have hc : isAsciiDigit c = true := hdigits c (hl ▸ List.mem_cons_self c cs)
    have hcs : ∀ x ∈ cs, isAsciiDigit x = true := fun x hx => hdigits x (hl ▸ List.mem_cons_of_mem c hx)
    obtain ⟨more, hstar⟩ := matches_star_cls ⟨[('0', '0')], false⟩ [] [] (c :: cs) (by simp)
      (by simpa [CharClass.mem] using fun h => lt_of_le_of_ne h (Ne.symm hc0))
    obtain ⟨more', hplus⟩ := matches_plus_cls ⟨digitRanges, false⟩ [] c cs []
      (by rw [CharClass.mem_digit]; exact hc) (fun x hx => by rw [CharClass.mem_digit]; exact hcs x hx)
      (by simp)
    have hexec : DB_REGEX.exec ("/" ++ toString d) = some [(1, c :: cs)] := by
      have ht : (toString d).data = c :: cs := hl
      simp only [List.nil_append, List.append_nil] at hstar hplus
      simp [Pattern.exec, DB_REGEX, seqs, lit, ht, CharClass.mem_lit, hstar, hplus]
    rw [parseDb, hexec]
    exact (parseInteger_digits c cs (hl ▸ hdigits) (fun h => absurd h hc0)).trans
      (by rw [← hl, hval])

def addDatabase (uri : Uri) (iterating : Obj) : Except Error Obj :=
  if uri.path = "/" then .ok iterating
  else do
    let db ← parseDb uri.path
    .ok (iterating ++ [("db", .num db)])

def addHostname (authority : Authority) (iterating : Obj) : Obj :=
  iterating ++ [("host", .str authority.host)]

def addPassword (authority : Authority) (iterating : Obj) : Obj :=
  match authority.userInfo.bind (·.pass) with
  | none => iterating
  | some pass => iterating ++ [("password", .str pass)]

def addPort (authority : Authority) (iterating : Obj) : Obj :=
  match authority.port with
  | none => iterating
  | some port => iterating ++ [("port", .num port)]

/-- `addOptions`: the values of the `Option` enum in order, `db`, `host`, `password`, `port`. -/
def addOptions (uri : Uri) (authority : Authority) (options : Obj) : Except Error Obj := do
  let withDb ← addDatabase uri options
  .ok (addPort authority (addPassword authority (addHostname authority withDb)))

def parseTcp (rawUri : String) : Except Error Obj := do
  let protocol ← getScheme rawUri
  if protocol ≠ "redis" ∧ protocol ≠ "rediss" then
    throw (.parse ("unrecognized scheme \"" ++ protocol ++ "\""))
  let parsed ← parseUri rawUri
  match parsed.authority with
  | none => throw (.parse ("\"" ++ rawUri ++ "\" is missing authority"))
  | some authority =>
    let rawOptions ← addOptions parsed authority [("protocol", .str protocol)]
    let query ← parseRedisQuery parsed
    .ok (rawOptions ++ query)

theorem addDatabase_inv {uri : Uri} {iterating withDb : Obj} (h : addDatabase uri iterating = .ok withDb) :
    ∃ db : Option Nat, withDb = iterating ++ (db.map fun d => [("db", .num d)]).getD [] := by
  unfold addDatabase at h
  split at h
  · cases h
    exact ⟨none, by simp⟩
  · cases hd : parseDb uri.path with
    | error e => simp [hd] at h
    | ok d =>
      simp only [hd, ok_bind] at h
      cases h
      exact ⟨some d, rfl⟩

theorem parseTcp_inv {u : String} {o : Obj} (h : parseTcp u = .ok o) :
    ∃ (protocol : String) (uri : Uri) (a : Authority) (db : Option Nat) (q : Obj),
      parseUri u = .ok uri ∧ uri.authority = some a ∧ parseRedisQuery uri = .ok q ∧
      o = [("protocol", .str protocol)] ++ (db.map fun d => [("db", .num d)]).getD [] ++
        [("host", .str a.host)] ++
        ((a.userInfo.bind (·.pass)).map fun w => [("password", .str w)]).getD [] ++
        (a.port.map fun p => [("port", .num p)]).getD [] ++ q := by
  unfold parseTcp at h
  cases hs : getScheme u with
  | error e => simp [hs] at h
  | ok protocol =>
    simp only [hs, ok_bind] at h
    split at h
    · cases h
    · cases hu : parseUri u with
      | error e => simp [hu] at h
      | ok uri =>
        simp only [hu, ok_bind] at h
        split at h
        · cases h
        · rename_i a ha
          cases hdb : addDatabase uri [("protocol", .str protocol)] with
          | error e => simp [addOptions, hdb] at h
          | ok withDb =>
            cases hq : parseRedisQuery uri with
            | error e => simp [addOptions, hdb, hq] at h
            | ok q =>
              simp only [addOptions, hdb, hq, ok_bind] at h
              cases h
              obtain ⟨db, rfl⟩ := addDatabase_inv hdb
              refine ⟨protocol, uri, a, db, q, rfl, ha, hq, ?_⟩
              cases ha' : a.userInfo.bind (·.pass) <;> cases hp : a.port <;>
                simp [addPort, addPassword, addHostname, ha', hp]

/-- `/^[^\0]+$/` -/
def PATH_REGEX : Pattern := seqs [plus (.cls ⟨[('\x00', '\x00')], true⟩), .eoi]

def validatePath (path : String) : Except Error String :=
  if PATH_REGEX.test path ≠ true then .error (.parse ("invalid path \"" ++ path ++ "\""))
  else .ok path

theorem validatePath_ok (s : String) (hne : s.toList ≠ []) (h : ∀ c ∈ s.toList, c ≠ '\x00') :
    validatePath s = .ok s := by
  obtain ⟨c, cs, hs⟩ := List.exists_cons_of_ne_nil hne
  have hmem : ∀ x ∈ s.toList, CharClass.mem ⟨[('\x00', '\x00')], true⟩ x = true := by
    intro x hx
    have := h x hx
    simp only [CharClass.mem, List.any_cons, List.any_nil, Bool.or_false, bne_iff_ne, ne_eq,
      Bool.and_eq_true, decide_eq_true_eq, char_le_iff_toNat, char_eq_iff_toNat,
      Char.reduceToNat] at this ⊢
    omega
  obtain ⟨more, hplus⟩ := matches_plus_cls ⟨[('\x00', '\x00')], true⟩ [] c cs []
    (hmem c (hs ▸ List.mem_cons_self c cs)) (fun x hx => hmem x (hs ▸ List.mem_cons_of_mem c hx))
    (by simp)
  have htest : PATH_REGEX.test s = true := by
    simp only [List.append_nil] at hplus
    simp only [Pattern.test, Pattern.exec, PATH_REGEX, seqs, String.toList] at hs ⊢
    simp [hs, hplus]
  simp [validatePath, htest]

def parseSocket (uri : String) : Except Error Obj := do
  let protocol ← getScheme uri
  if protocol ≠ "redis+socket" ∧ protocol ≠ "rediss+socket" then
    throw (.parse ("unrecognized scheme \"" ++ protocol ++ "\""))
  let parsed ← parseUri uri
  let path ← validatePath parsed.path
  let query ← parseRedisQuery parsed
  .ok ([("path", .str path), ("protocol", .str protocol)] ++ query)

end Celeries.Redis
