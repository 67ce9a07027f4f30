import Celeries.Url.Basic
set_option autoImplicit false

/-!
Runs of the basic URL parser. Each turn spends one unit of fuel: a turn in a state on a kind
of code point is a step lemma, a stretch of code points that only extend the buffer is one
chunk lemma, and an invariant that every turn keeps holds of the URL a whole run returns.
-/

namespace Celeries.Url
open Js

theorem run_next {state state' : State} {input input' : List Char} {ctx ctx' : Ctx}
    (h : step state input ctx = .next state' input' ctx') (fuel : Nat) :
    run (fuel + 1) state input ctx = run fuel state' input' ctx' := by
  simp [run, h]

theorem run_done {state : State} {input : List Char} {ctx : Ctx} {url : Url}
    (h : step state input ctx = .done url) (fuel : Nat) :
    run (fuel + 1) state input ctx = some url := by
  simp [run, h]

/-- A stretch of code points that each take one turn in `state` and only append `f c` to the
buffer, in a URL that is not special. -/
theorem run_chunk (state : State) (f : Char → List Char) (ok : Char → Bool)
    (hstep : ∀ c rest (ctx : Ctx), ctx.special = false → ok c = true →
      step state (c :: rest) ctx = .next state rest { ctx with buffer := ctx.buffer ++ f c })
    (l t : List Char) (hl : ∀ c ∈ l, ok c = true) (ctx : Ctx) (hs : ctx.special = false)
    (fuel : Nat) :
    run (fuel + l.length) state (l ++ t) ctx =
      run fuel state t { ctx with buffer := ctx.buffer ++ l.flatMap f } := by
  induction l generalizing ctx with
  | nil => simp
  | cons c l ih =>
    rw [List.length_cons, ← Nat.add_assoc, List.cons_append,
      run_next (hstep c _ ctx hs (hl c (.head _))),
      ih (fun x hx => hl x (.tail _ hx)) { ctx with buffer := ctx.buffer ++ f c } hs]
    simp [List.append_assoc]

def isSchemeChar (c : Char) : Bool := isAsciiAlphanumeric c || c == '+' || c == '-' || c == '.'

theorem step_schemeStart {c : Char} (hc : isAsciiAlpha c = true) (rest : List Char) (ctx : Ctx) :
    step .schemeStart (c :: rest) ctx =
      .next .scheme rest { ctx with buffer := ctx.buffer ++ [c.toLower] } := by
  simp [step, hc]

theorem step_scheme_char {c : Char} (hc : isSchemeChar c = true) (rest : List Char) (ctx : Ctx) :
    step .scheme (c :: rest) ctx = .next .scheme rest { ctx with buffer := ctx.buffer ++ [c.toLower] } := by
  simp only [isSchemeChar] at hc
  simp [step, hc]

theorem ne_file_of_not_special {scheme : String} (hs : isSpecialScheme scheme = false) :
    scheme ≠ "file" := by
  rintro rfl
  cases hs

theorem defaultPort_of_not_special {scheme : String} (hs : isSpecialScheme scheme = false) :
    defaultPort scheme = none := by
  simp only [isSpecialScheme, decide_eq_false_iff_not, List.mem_cons, List.mem_singleton,
    List.not_mem_nil, or_false, not_or] at hs
  simp [defaultPort, hs]

theorem step_scheme_colon_slash (rest : List Char) (ctx : Ctx)
    (hs : isSpecialScheme ⟨ctx.buffer⟩ = false) :
    step .scheme (':' :: '/' :: rest) ctx =
      .next .pathOrAuthority rest
        { ctx with url := { ctx.url with scheme := ⟨ctx.buffer⟩ }, buffer := [] } := by
  simp [step, isAsciiAlphanumeric, isAsciiAlpha, isAsciiUpperAlpha, isAsciiLowerAlpha,
    isAsciiDigit, hs, ne_file_of_not_special hs]

theorem step_pathOrAuthority_slash (rest : List Char) (ctx : Ctx) :
    step .pathOrAuthority ('/' :: rest) ctx = .next .authority rest ctx := rfl

theorem authorityEnd_next (ctx : Ctx) (input : List Char)
    (h : ctx.atSignSeen = false ∨ ctx.buffer ≠ []) :
    authorityEnd ctx input = .next .host (ctx.buffer ++ input) { ctx with buffer := [] } := by
  rcases h with h | h <;> simp [authorityEnd, h]

theorem hostEnd_next {ctx : Ctx} (hs : ctx.special = false) {host : String}
    (h : hostParse ctx.buffer true = some host) (input : List Char) :
    hostEnd ctx input =
      .next .pathStart input { ctx with url := { ctx.url with host := some host }, buffer := [] } := by
  simp [hostEnd, hs, h]

theorem portEnd_next {ctx : Ctx} (hs : ctx.special = false) (hne : ctx.buffer ≠ [])
    (hv : digitsValue ctx.buffer ≤ 65535) (input : List Char) :
    portEnd ctx input = .next .pathStart input
      { ctx with url := { ctx.url with port := some (digitsValue ctx.buffer) }, buffer := [] } := by
  simp [portEnd, hne, Nat.not_lt.2 hv, defaultPort_of_not_special hs]

def isAuthorityChar (c : Char) : Bool := c != '@' && c != '/' && c != '?' && c != '#'

theorem step_authority_char {c : Char} (hc : isAuthorityChar c = true) (rest : List Char)
    (ctx : Ctx) (hs : ctx.special = false) :
    step .authority (c :: rest) ctx = .next .authority rest { ctx with buffer := ctx.buffer ++ [c] } := by
  simp only [isAuthorityChar, Bool.and_eq_true, bne_iff_ne, ne_eq] at hc
  simp [step, hc, hs]

theorem step_authority_at (rest : List Char) (ctx : Ctx) (h : ctx.atSignSeen = false) :
    step .authority ('@' :: rest) ctx =
      .next .authority rest
        { (ctx.buffer.foldl userinfoChar { ctx with atSignSeen := true }) with buffer := [] } := by
  simp [step, h]

theorem step_authority_at_again (rest : List Char) (ctx : Ctx) (h : ctx.atSignSeen = true) :
    step .authority ('@' :: rest) ctx =
      .next .authority rest
        { ((['%', '4', '0'] ++ ctx.buffer).foldl userinfoChar { ctx with atSignSeen := true }) with
          buffer := [] } := by
  simp [step, h]

theorem step_authority_end (input : List Char) (ctx : Ctx)
    (hi : input = [] ∨ ∃ rest, input = '/' :: rest) :
    step .authority input ctx = authorityEnd ctx input := by
  rcases hi with rfl | ⟨rest, rfl⟩ <;> simp [step]

def isHostChar (c : Char) : Bool :=
  c != ':' && c != '/' && c != '?' && c != '#' && c != '[' && c != ']'

theorem step_host_char {c : Char} (hc : isHostChar c = true) (rest : List Char) (ctx : Ctx)
    (hs : ctx.special = false) :
    step .host (c :: rest) ctx = .next .host rest { ctx with buffer := ctx.buffer ++ [c] } := by
  simp only [isHostChar, Bool.and_eq_true, bne_iff_ne, ne_eq] at hc
  simp [step, hc, hs]

theorem step_host_colon (rest : List Char) (ctx : Ctx) (hs : ctx.special = false)
    (hb : ctx.insideBrackets = false) (hne : ctx.buffer ≠ []) {host : String}
    (hh : hostParse ctx.buffer true = some host) :
    step .host (':' :: rest) ctx =
      .next .port rest { ctx with url := { ctx.url with host := some host }, buffer := [] } := by
  cases hbuf : ctx.buffer with
  | nil => exact absurd hbuf hne
  | cons x xs =>
    rw [hbuf] at hh
    simp [step, hb, hbuf, hh, hs]

theorem step_host_end (input : List Char) (ctx : Ctx)
    (hi : input = [] ∨ ∃ rest, input = '/' :: rest) :
    step .host input ctx = hostEnd ctx input := by
  rcases hi with rfl | ⟨rest, rfl⟩ <;> simp [step]

theorem step_port_digit {c : Char} (hc : isAsciiDigit c = true) (rest : List Char) (ctx : Ctx) :
    step .port (c :: rest) ctx = .next .port rest { ctx with buffer := ctx.buffer ++ [c] } := by
  simp [step, hc]

theorem step_port_end (input : List Char) (ctx : Ctx)
    (hi : input = [] ∨ ∃ rest, input = '/' :: rest) :
    step .port input ctx = portEnd ctx input := by
  rcases hi with rfl | ⟨rest, rfl⟩ <;> simp [step, isAsciiDigit]

def isPathChar (c : Char) : Bool := c != '/' && c != '?' && c != '#'

theorem step_path_char {c : Char} (hc : isPathChar c = true) (rest : List Char) (ctx : Ctx)
    (hs : ctx.special = false) :
    step .path (c :: rest) ctx =
      .next .path rest { ctx with buffer := ctx.buffer ++ utf8PercentEncode pathSet c } := by
  simp only [isPathChar, Bool.and_eq_true, bne_iff_ne, ne_eq] at hc
  simp [step, hc, hs]

theorem step_path_slash (rest : List Char) (ctx : Ctx) :
    step .path ('/' :: rest) ctx = .next .path rest (endPathSegment ctx true) := by
  simp [step]

theorem step_path_end (ctx : Ctx) : step .path [] ctx = .done (endPathSegment ctx false).url := rfl

theorem step_pathStart_slash (rest : List Char) (ctx : Ctx) :
    step .pathStart ('/' :: rest) ctx = .next .path rest ctx := by
  cases hs : ctx.special <;> simp [step, hs]

theorem step_pathStart_end (ctx : Ctx) (hs : ctx.special = false) :
    step .pathStart [] ctx = .done ctx.url := by
  simp [step, hs]

theorem step_authority_query (rest : List Char) (ctx : Ctx) :
    step .authority ('?' :: rest) ctx = authorityEnd ctx ('?' :: rest) := by
  simp [step]

theorem step_host_query (rest : List Char) (ctx : Ctx) :
    step .host ('?' :: rest) ctx = hostEnd ctx ('?' :: rest) := by
  simp [step]

theorem step_pathStart_query (rest : List Char) (ctx : Ctx) (hs : ctx.special = false) :
    step .pathStart ('?' :: rest) ctx = .next .query rest (startQuery ctx) := by
  simp [step, hs]

theorem step_query_char {c : Char} (hc : (c != '#') = true) (rest : List Char) (ctx : Ctx) :
    step .query (c :: rest) ctx = .next .query rest { ctx with buffer := ctx.buffer ++ [c] } := by
  simp only [bne_iff_ne, ne_eq] at hc
  simp [step, hc]

theorem step_query_end (ctx : Ctx) : step .query [] ctx = .done (endQuery ctx).url := rfl

theorem foldl_userinfoChar_password (w : List Char) (ctx : Ctx) (h : ctx.passwordTokenSeen = true) :
    w.foldl userinfoChar ctx =
      { ctx with url := { ctx.url with password := ctx.url.password ++ ⟨percentEncode userinfoSet w⟩ } } := by
  induction w generalizing ctx with
  | nil => simp [percentEncode]
  | cons c w ih =>
    have hc : userinfoChar ctx c =
        { ctx with url := { ctx.url with
          password := ctx.url.password ++ ⟨utf8PercentEncode userinfoSet c⟩ } } := by
      simp [userinfoChar, h]
    rw [List.foldl_cons, hc, ih _ (by exact h)]
    simp only [percentEncode, List.flatMap_cons, String.append_assoc]
    rfl

theorem foldl_userinfoChar_username (u : List Char) (ctx : Ctx) (h : ctx.passwordTokenSeen = false)
    (hu : ∀ c ∈ u, c ≠ ':') :
    u.foldl userinfoChar ctx =
      { ctx with url := { ctx.url with username := ctx.url.username ++ ⟨percentEncode userinfoSet u⟩ } } := by
  induction u generalizing ctx with
  | nil => simp [percentEncode]
  | cons c u ih =>
    have hc : userinfoChar ctx c =
        { ctx with url := { ctx.url with
          username := ctx.url.username ++ ⟨utf8PercentEncode userinfoSet c⟩ } } := by
      simp [userinfoChar, h, hu c (.head _)]
    rw [List.foldl_cons, hc, ih _ (by exact h) (fun x hx => hu x (.tail _ hx))]
    simp only [percentEncode, List.flatMap_cons, String.append_assoc]
    rfl

def State.readsBack : State → Bool
  | .specialAuthoritySlashes | .specialAuthorityIgnoreSlashes | .pathOrAuthority | .authority => true
  | _ => false

/-- The invariant of a run: every port is in range and, when `noQuery` holds (the input has no
`?`), no `?` is left to read or waits in a buffer read again, no turn is in the query state, and
there is no query. -/
structure RunInv (noQuery : Prop) (state : State) (input : List Char) (ctx : Ctx) : Prop where
  port : ∀ p, ctx.url.port = some p → p ≤ 65535
  query : noQuery → '?' ∉ input ∧ (state.readsBack = true → '?' ∉ ctx.buffer) ∧
    state ≠ .query ∧ ctx.url.query = none

structure Inv (noQuery : Prop) (url : Url) : Prop where
  port : ∀ p, url.port = some p → p ≤ 65535
  query : noQuery → url.query = none

def Step.Inv (noQuery : Prop) : Step → Prop
  | .next state input ctx => RunInv noQuery state input ctx
  | .done url => url.Inv noQuery
  | .failure => True

@[simp] theorem userinfoChar_port (ctx : Ctx) (c : Char) :
    (userinfoChar ctx c).url.port = ctx.url.port := by
  unfold userinfoChar
  split
  · rfl
  · split <;> rfl

@[simp] theorem userinfoChar_query (ctx : Ctx) (c : Char) :
    (userinfoChar ctx c).url.query = ctx.url.query := by
  unfold userinfoChar
  split
  · rfl
  · split <;> rfl

@[simp] theorem foldl_userinfoChar_port (l : List Char) (ctx : Ctx) :
    (l.foldl userinfoChar ctx).url.port = ctx.url.port := by
  induction l generalizing ctx with
  | nil => rfl
  | cons c l ih => rw [List.foldl_cons, ih, userinfoChar_port]

@[simp] theorem foldl_userinfoChar_query (l : List Char) (ctx : Ctx) :
    (l.foldl userinfoChar ctx).url.query = ctx.url.query := by
  induction l generalizing ctx with
  | nil => rfl
  | cons c l ih => rw [List.foldl_cons, ih, userinfoChar_query]

namespace RunInv
variable {P : Prop} {state s' : State} {input input' : List Char} {ctx ctx' : Ctx}

theorem next_of_subset (h : RunInv P state input ctx) (hsub : input' ⊆ input)
    (hs : s' ≠ .query ∧ s'.readsBack = false) (hport : ctx'.url.port = ctx.url.port)
    (hquery : ctx'.url.query = ctx.url.query) : RunInv P s' input' ctx' :=
  ⟨hport ▸ h.port, fun hp => ⟨fun hm => (h.query hp).1 (hsub hm), by simp [hs.2], hs.1,
    hquery ▸ (h.query hp).2.2.2⟩⟩

theorem next_readsBack (h : RunInv P state input ctx) (hsub : input' ⊆ input)
    (hs : s'.readsBack = true)
    (hbuf : ∀ x ∈ ctx'.buffer, x ∈ input ∨ (state.readsBack = true ∧ x ∈ ctx.buffer))
    (hport : ctx'.url.port = ctx.url.port) (hquery : ctx'.url.query = ctx.url.query) :
    RunInv P s' input' ctx' := by
  refine ⟨hport ▸ h.port, fun hp => ⟨fun hm => (h.query hp).1 (hsub hm), fun _ hm => ?_, ?_,
    hquery ▸ (h.query hp).2.2.2⟩⟩
  · rcases hbuf _ hm with hm | ⟨hst, hm⟩
    · exact (h.query hp).1 hm
    · exact (h.query hp).2.1 hst hm
  · rintro rfl
    cases hs

theorem next_readsBack_same (h : RunInv P state input ctx) (hsub : input' ⊆ input)
    (hst : state.readsBack = true) (hs : s'.readsBack = true) : RunInv P s' input' ctx :=
  h.next_readsBack hsub hs (fun _ hx => .inr ⟨hst, hx⟩) rfl rfl

theorem next_query (h : RunInv P state input ctx) (hq : P → '?' ∈ input ∨ state = .query)
    (hport : ctx'.url.port = ctx.url.port) : RunInv P s' input' ctx' :=
  ⟨hport ▸ h.port, fun hp => by
    rcases hq hp with hm | hs
    · exact absurd hm (h.query hp).1
    · exact absurd hs (h.query hp).2.2.1⟩

theorem done (h : RunInv P state input ctx) {url : Url} (hport : url.port = ctx.url.port)
    (hquery : url.query = ctx.url.query) : url.Inv P :=
  ⟨hport ▸ h.port, fun hp => hquery ▸ (h.query hp).2.2.2⟩

theorem done_query (h : RunInv P .query input ctx) {url : Url} (hport : url.port = ctx.url.port) :
    url.Inv P :=
  ⟨hport ▸ h.port, fun hp => absurd rfl (h.query hp).2.2.1⟩

theorem authorityEnd_inv (h : RunInv P .authority input ctx) : (authorityEnd ctx input).Inv P := by
  unfold authorityEnd
  split
  · trivial
  · exact ⟨h.port, fun hp => ⟨fun hm => (List.mem_append.1 hm).elim ((h.query hp).2.1 rfl)
      (h.query hp).1, by simp [State.readsBack], by decide, (h.query hp).2.2.2⟩⟩

theorem hostEnd_inv (h : RunInv P .host input ctx) : (hostEnd ctx input).Inv P := by
  unfold hostEnd
  split
  · trivial
  · split
    · exact h.next_of_subset (List.Subset.refl _) (by decide) rfl rfl
    · trivial

theorem portEnd_inv (h : RunInv P .port input ctx) : (portEnd ctx input).Inv P := by
  unfold portEnd
  split
  · exact h.next_of_subset (List.Subset.refl _) (by decide) rfl rfl
  · split
    · trivial
    · refine ⟨fun p hp => ?_, fun hp => ⟨(h.query hp).1, by simp [State.readsBack], by decide,
        (h.query hp).2.2.2⟩⟩
      dsimp only at hp
      split at hp <;> cases hp
      omega

theorem fileHostEnd_inv (h : RunInv P .fileHost input ctx) : (fileHostEnd ctx input).Inv P := by
  unfold fileHostEnd
  split
  · exact h.next_of_subset (List.Subset.refl _) (by decide) rfl rfl
  · split
    · exact h.next_of_subset (List.Subset.refl _) (by decide) rfl rfl
    · split
      · exact h.next_of_subset (List.Subset.refl _) (by decide) rfl rfl
      · trivial

end RunInv

/-- What one turn leads to keeps the invariant: one case for each state, and in it one for each
arm of `step`. -/
theorem step_inv {P : Prop} {state : State} {input : List Char} {ctx : Ctx}
    (h : RunInv P state input ctx) : (step state input ctx).Inv P := by
  have tail : ∀ (c : Char) (rest : List Char), rest ⊆ c :: rest := List.subset_cons_self
  have refl : input ⊆ input := List.Subset.refl _
  cases state <;> dsimp only [step]
  case schemeStart =>
    split
    · split
      · exact h.next_of_subset (tail _ _) (by decide) rfl rfl
      · trivial
    · trivial
  case scheme =>
    split
    · split
      · exact h.next_of_subset (tail _ _) (by decide) rfl rfl
      · split
        · split
          · exact h.next_of_subset (tail _ _) (by decide) rfl rfl
          · split
            · exact h.next_readsBack (tail _ _) rfl (by simp) rfl rfl
            · split
              · exact h.next_readsBack (fun x hx => .tail _ (.tail _ hx)) rfl (by simp) rfl rfl
              · exact h.next_of_subset (tail _ _) (by decide) rfl rfl
        · trivial
    · trivial
  case specialAuthoritySlashes =>
    split
    · exact h.next_readsBack_same (fun x hx => .tail _ (.tail _ hx)) rfl rfl
    · exact h.next_readsBack_same refl rfl rfl
  case specialAuthorityIgnoreSlashes =>
    split
    · split
      · exact h.next_readsBack_same (tail _ _) rfl rfl
      · exact h.next_readsBack_same refl rfl rfl
    · exact h.next_readsBack_same refl rfl rfl
  case pathOrAuthority =>
    split
    · exact h.next_readsBack_same (tail _ _) rfl rfl
    · exact h.next_of_subset refl (by decide) rfl rfl
  case authority =>
    split
    · split
      · exact h.next_readsBack (tail _ _) rfl (by simp) (by simp) (by simp)
      · split
        · exact h.authorityEnd_inv
        · refine h.next_readsBack (tail _ _) rfl (fun x hx => ?_) rfl rfl
          rcases List.mem_append.1 hx with hx | hx
          · exact .inr ⟨rfl, hx⟩
          · exact .inl (List.mem_singleton.1 hx ▸ .head _)
    · exact h.authorityEnd_inv
  case host =>
    split
    · split
      · split
        · trivial
        · split
          · exact h.next_of_subset (tail _ _) (by decide) rfl rfl
          · trivial
      · split
        · exact h.hostEnd_inv
        · exact h.next_of_subset (tail _ _) (by decide) rfl rfl
    · exact h.hostEnd_inv
  case port =>
    split
    · split
      · exact h.next_of_subset (tail _ _) (by decide) rfl rfl
      · split
        · exact h.portEnd_inv
        · trivial
    · exact h.portEnd_inv
  case file =>
    split
    · split
      · exact h.next_of_subset (tail _ _) (by decide) rfl rfl
      · exact h.next_of_subset refl (by decide) rfl rfl
    · exact h.next_of_subset refl (by decide) rfl rfl
  case fileSlash =>
    split
    · split
      · exact h.next_of_subset (tail _ _) (by decide) rfl rfl
      · exact h.next_of_subset refl (by decide) rfl rfl
    · exact h.next_of_subset refl (by decide) rfl rfl
  case fileHost =>
    split
    · split
      · exact h.fileHostEnd_inv
      · exact h.next_of_subset (tail _ _) (by decide) rfl rfl
    · exact h.fileHostEnd_inv
  case pathStart =>
    split
    · split
      · split
        · exact h.next_of_subset (tail _ _) (by decide) rfl rfl
        · exact h.next_of_subset refl (by decide) rfl rfl
      · split
        · rename_i hc
          exact h.next_query (fun _ => .inl (beq_iff_eq.1 hc ▸ .head _)) rfl
        · split
          · exact h.next_of_subset (tail _ _) (by decide) rfl rfl
          · split
            · exact h.next_of_subset (tail _ _) (by decide) rfl rfl
            · exact h.next_of_subset refl (by decide) rfl rfl
    · split
      · exact h.next_of_subset refl (by decide) rfl rfl
      · exact h.done rfl rfl
  case path =>
    split
    · split
      · exact h.next_of_subset (tail _ _) (by decide) rfl rfl
      · split
        · rename_i hc
          exact h.next_query (fun _ => .inl (beq_iff_eq.1 hc ▸ .head _)) rfl
        · split
          · exact h.next_of_subset (tail _ _) (by decide) rfl rfl
          · exact h.next_of_subset (tail _ _) (by decide) rfl rfl
    · exact h.done rfl rfl
  case opaquePath =>
    split
    · exact h.next_query (fun _ => .inl (.head _)) rfl
    · exact h.next_of_subset (tail _ _) (by decide) rfl rfl
    · exact h.next_of_subset (tail _ _) (by decide) rfl rfl
    · exact h.done rfl rfl
  case query =>
    split
    · exact h.next_query (fun _ => .inr rfl) rfl
    · exact h.next_query (fun _ => .inr rfl) rfl
    · exact h.done_query rfl
  case fragment =>
    split
    · exact h.next_of_subset (tail _ _) (by decide) rfl rfl
    · exact h.done rfl rfl

theorem run_inv {P : Prop} (fuel : Nat) :
    ∀ {state : State} {input : List Char} {ctx : Ctx} {url : Url},
      RunInv P state input ctx → run fuel state input ctx = some url → url.Inv P := by
  induction fuel with
  | zero => intro _ _ _ _ _ h; cases h
  | succ fuel ih =>
    intro state input ctx url h hrun
    have hs := step_inv h
    unfold run at hrun
    split at hrun
    · rename_i heq
      rw [heq] at hs
      exact ih hs hrun
    · rename_i heq
      cases hrun
      rw [heq] at hs
      exact hs
    · cases hrun

theorem mem_preprocess {s : String} {c : Char} (h : c ∈ preprocess s) : c ∈ s.toList := by
  simp only [preprocess, List.mem_filter, List.mem_reverse] at h
  exact (List.dropWhile_sublist _).subset (List.mem_reverse.1 ((List.dropWhile_sublist _).subset h.1))

/-- `URL.parse` returns a port in range, and no query for a string without `?`. -/
theorem parse_inv {s : String} {url : Url} (h : parse s = some url) : url.Inv ('?' ∉ s.toList) :=
  run_inv _ ⟨fun _ hp => (by cases hp), fun hq => ⟨fun hm => hq (mem_preprocess hm),
    fun _ => List.not_mem_nil _, by decide, rfl⟩⟩ h

end Celeries.Url
