import Celeries.Url.Authority
set_option autoImplicit false

/-!
The parse of `scheme://host?q` when `q` has no `#`: cleaning the input only touches the end of
`q`, the host is read as in the URIs without a query, and the query state takes every code point
of what is left of `q`, percent-encoded when the query's set holds it.
-/

namespace Celeries.Url
open Js

def cleanQuery (q : List Char) : List Char :=
  ((q.reverse.dropWhile isC0ControlOrSpace).reverse).filter fun c => !isTabOrNewline c

def parsedQuery (q : List Char) : List Char := percentEncode querySet (cleanQuery q)

theorem cleanQuery_subset (q : List Char) : cleanQuery q ⊆ q := fun c hc => by
  simp only [cleanQuery, List.mem_filter, List.mem_reverse] at hc
  exact List.mem_reverse.1 (List.dropWhile_subset _ hc.1)

theorem parsedQuery_of_plain (q : List Char) (hc : ∀ c ∈ q, isC0ControlOrSpace c = false)
    (hs : ∀ c ∈ q, querySet c = false) : parsedQuery q = q := by
  have hhead : ∀ c ∈ q.reverse.head?, isC0ControlOrSpace c = false := fun c h =>
    hc c (List.mem_reverse.1 (List.mem_of_mem_head? h))
  rw [parsedQuery, cleanQuery, dropWhile_of_head hhead, List.reverse_reverse,
    List.filter_eq_self.2 fun c h => by simp [isTabOrNewline_of_not_c0 (hc c h)], percentEncode_id hs]

theorem dropWhile_append_of_head {p : Char → Bool} (l m : List Char) (hm : ∀ c ∈ m.head?, p c = false) :
    (l ++ m).dropWhile p = l.dropWhile p ++ m := by
  rw [List.dropWhile_append]
  split
  · simp_all [dropWhile_of_head hm]
  · rfl

theorem preprocess_query (pre q : List Char) (hpre : ∀ c ∈ pre, isC0ControlOrSpace c = false) :
    preprocess ⟨pre ++ '?' :: q⟩ = pre ++ '?' :: cleanQuery q := by
  have hhead : ∀ c ∈ (pre ++ '?' :: q).head?, isC0ControlOrSpace c = false := by
    cases pre with
    | nil => intro c hc; cases hc; rfl
    | cons x xs => intro c hc; cases hc; exact hpre x (.head _)
  show ((((pre ++ '?' :: q).dropWhile _).reverse.dropWhile _).reverse).filter _ = _
  rw [dropWhile_of_head hhead, List.reverse_append, List.reverse_cons, List.append_assoc,
    dropWhile_append_of_head _ _ (by intro c hc; cases hc; rfl)]
  simp only [List.reverse_append, List.reverse_cons, List.reverse_reverse, List.reverse_nil,
    List.nil_append, List.append_assoc, List.singleton_append, List.filter_append, List.filter_cons]
  rw [List.filter_eq_self.2 fun c hc => by simp [isTabOrNewline_of_not_c0 (hpre c hc)]]
  rfl

theorem run_hostQuery (scheme host q : List Char) (hs : PlainScheme scheme)
    (hh : ∀ c ∈ host, isPlainHostChar c = true) (hq : '#' ∉ q) (f : Nat) :
    run (f + 1 + q.length + 1 + 1 + host.length + 1 + host.length + (scheme.length + 2)) .schemeStart
        (scheme ++ ':' :: '/' :: '/' :: (host ++ '?' :: q)) .initial =
      some { Url.empty with
        scheme := ⟨scheme⟩
        host := some ⟨host⟩
        query := some ⟨percentEncode querySet q⟩ } := by
  have hquery := run_chunk .query (fun c => [c]) (· != '#')
    (fun c r ctx _ hc => step_query_char hc r ctx) q []
    (fun c hc => by simp only [bne_iff_ne, ne_eq]; rintro rfl; exact hq hc)
  rw [List.append_nil] at hquery
  rw [run_scheme _ _ hs,
    run_chunk .authority (fun c => [c]) isAuthorityChar
      (fun c r ctx hs hc => step_authority_char hc r ctx hs) host _
      (fun c hc => (isPlainHostChar_spec (hh c hc)).2.1) _ (by exact hs.notSpecial),
    run_next ((step_authority_query _ _).trans (authorityEnd_next _ _ (.inl rfl)))]
  simp only [authorityCtx, List.flatMap_singleton', List.nil_append]
  rw [run_chunk .host (fun c => [c]) isHostChar (fun c r ctx hs hc => step_host_char hc r ctx hs)
      _ _ (fun c hc => (isPlainHostChar_spec (hh c hc)).1) _ (by exact hs.notSpecial),
    run_next ((step_host_query _ _).trans
      (hostEnd_next (by exact hs.notSpecial) (by simpa using hostParse_plain host hh) _)),
    run_next (step_pathStart_query _ _ (by exact hs.notSpecial)), hquery _ (by exact hs.notSpecial),
    run_done (step_query_end _)]
  simp [authorityCtx, startQuery, endQuery, Ctx.special, hs.notSpecial]

theorem parse_hostQuery (scheme host q : List Char) (hs : PlainScheme scheme)
    (hh : ∀ c ∈ host, isPlainHostChar c = true) (hq : '#' ∉ q) :
    parse ⟨scheme ++ ':' :: '/' :: '/' :: (host ++ '?' :: q)⟩ =
      some { Url.empty with
        scheme := ⟨scheme⟩
        host := some ⟨host⟩
        query := some ⟨parsedQuery q⟩ } := by
  have hpre : ∀ c ∈ scheme ++ ':' :: '/' :: '/' :: host, isC0ControlOrSpace c = false := by
    simp only [List.mem_append, List.mem_cons]
    rintro c (hc | rfl | rfl | rfl | hc)
    · exact (isSchemeChar_spec (hs.chars c hc).1).1
    · rfl
    · rfl
    · rfl
    · exact (isPlainHostChar_spec (hh c hc)).2.2.1
  have hinput : scheme ++ ':' :: '/' :: '/' :: (host ++ '?' :: q) =
      (scheme ++ ':' :: '/' :: '/' :: host) ++ '?' :: q := by simp
  obtain ⟨F, hF⟩ : ∃ F, 2 * ((scheme ++ ':' :: '/' :: '/' :: host) ++ '?' :: cleanQuery q).length + 10 =
      F + 1 + (cleanQuery q).length + 1 + 1 + host.length + 1 + host.length + (scheme.length + 2) :=
    ⟨(cleanQuery q).length + scheme.length + 12, by simp; omega⟩
  simp only [parse]
  rw [hinput, preprocess_query _ _ hpre, hF]
  simp only [List.append_assoc, List.cons_append]
  exact run_hostQuery scheme host _ hs hh (fun h => hq (cleanQuery_subset q h)) F

end Celeries.Url
