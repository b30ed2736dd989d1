import IncrementalBuild.Proofs.Json.Message
import IncrementalBuild.Proofs.Path.Names
import IncrementalBuild.Proofs.Text.Bytes
import IncrementalBuild.Proofs.Text.Decimal
import IncrementalBuild.Route
import Mathlib.Data.List.TakeWhile
/-!
# The route of an endpoint

The route that a client prints for an owner leads a server of that owner to the call in the body.

## Main results

* `Route.of_route`, `Route.ownerOf?_toString` — the route of an endpoint, and its owner.
* `Route.callOf_of_le`, `Route.callOf_of_lt` — the call in a request, within the limit on bodies and
  beyond it.
-/

namespace IncrementalBuild

/-! ### Percent escapes -/

namespace Http

/-- Without a percent sign, characters stand for themselves. -/
theorem unescapeBytes_of_not_mem {cs : List Char} (h : '%' ∉ cs) :
    unescapeBytes cs = Bytes.ofString (String.ofList cs) := by
  have hchar (c : Char) : Bytes.ofString (String.singleton c) = String.utf8EncodeChar c := by
    rw [Bytes.ofString_eq_flatMap, String.toList_singleton, List.flatMap_singleton]
  rw [Bytes.ofString_eq_flatMap, String.toList_ofList]
  induction cs with
  | nil => rfl
  | cons c cs ih =>
    rw [List.mem_cons, not_or] at h
    have hstep : unescapeBytes (c :: cs) =
        Bytes.ofString (String.singleton c) ++ unescapeBytes cs := by
      rw [unescapeBytes.eq_def]
      split
      case h_1 heq => cases heq
      case h_2 heq => exact absurd (List.cons.inj heq).1.symm h.1
      case h_3 heq =>
        obtain ⟨rfl, rfl⟩ := heq
        rfl
    rw [hstep, hchar, ih h.2, List.flatMap_cons]

/-- Without a percent sign, a text stands for itself. -/
theorem percentDecode_of_not_mem {cs : List Char} (h : '%' ∉ cs) :
    percentDecode cs = some cs := by
  rw [percentDecode, unescapeBytes_of_not_mem h, Bytes.toString?_ofString, Option.map_some,
    String.toList_ofList]

/-- An address that begins with its path, and has nothing else, is its path. -/
theorem pathOf_of_forall {cs : List Char} (h : ∀ c ∈ '/' :: cs, c ≠ '?' ∧ c ≠ '#') :
    pathOf ('/' :: cs) = '/' :: cs := by
  rw [pathOf, dropHost, List.takeWhile_eq_self_iff]
  intro c hc
  simpa using h c hc

end Http

/-! ### The route of an owner -/

namespace Endpoint

/-- The characters of a route. -/
theorem toList_route (e : Endpoint) :
    e.route.toList = '/' :: (addressSpace.toList ++ '/' :: (toString e.owner).toList) := by
  have hslash : "/".toList = ['/'] := rfl
  have htext (s : String) : toString s = s := rfl
  simp only [route, htext, String.toList_append, hslash, List.append_assoc, List.cons_append,
    List.nil_append]

end Endpoint

namespace Route

/-- The number of an owner names that owner. -/
theorem ownerOf?_toString {owner : Nat} (h : owner < Decimal.word) :
    ownerOf? (toString owner).toList = some owner := by
  rw [ownerOf?, Http.percentDecode_of_not_mem (Decimal.not_mem_toString (by decide) owner)]
  exact Decimal.read?_toString h

/-- The path of an endpoint's route is the route. -/
theorem pathOf_route (e : Endpoint) : Http.pathOf e.route.toList = e.route.toList := by
  rw [e.toList_route]
  refine Http.pathOf_of_forall ?_
  intro c hc
  have hquery : '?' ∉ '/' :: addressSpace.toList ++ ['/'] := by decide
  have hfragment : '#' ∉ '/' :: addressSpace.toList ++ ['/'] := by decide
  by_cases hdigit : c ∈ (toString e.owner).toList
  · constructor
    · rintro rfl
      exact Decimal.not_mem_toString (by decide) _ hdigit
    · rintro rfl
      exact Decimal.not_mem_toString (by decide) _ hdigit
  · have hmem : c ∈ '/' :: addressSpace.toList ++ ['/'] := by
      rw [List.mem_cons, List.mem_append, List.mem_cons] at hc
      simpa only [hdigit, or_false, List.cons_append, List.mem_cons, List.mem_append,
        List.not_mem_nil] using hc
    exact ⟨fun heq => hquery (heq ▸ hmem), fun heq => hfragment (heq ▸ hmem)⟩

/-- **Routes.** The route of an endpoint is the build route that ends in the owner's number. -/
theorem of_route (e : Endpoint) :
    of (Http.pathOf e.route.toList) = some (.build (toString e.owner).toList) := by
  have hnumber : '/' ∉ (toString e.owner).toList := Decimal.not_mem_toString (by decide) _
  have hspace : '/' ∉ addressSpace.toList := by decide
  have hpieces : Blank.pieces (· == '/') e.route.toList =
      [[], addressSpace.toList, (toString e.owner).toList] := by
    rw [e.toList_route, Blank.pieces, if_pos (beq_self_eq_true _), Blank.pieces_append_cons rfl]
    exact congrArg ([] :: ·)
      (congrArg₂ (· ++ ·) (Path.segments_of_not_mem hspace) (Path.segments_of_not_mem hnumber))
  have hne : toString e.owner ≠ "" := fun h => Decimal.toString_ne_nil e.owner (by rw [h]; rfl)
  rw [pathOf_route, of, hpieces]
  simp only [List.map_cons, List.map_nil, String.ofList_toList, String.ofList_nil]
  exact if_pos ⟨trivial, hne⟩

/-! ### Calls in requests -/

/-- The content type of calls is JSON. -/
theorem isJson_application : Http.isJson "application/json".toList = true := by decide

variable {segment : List Char} {owner : Nat} {request : Http.Request} {call : BuildCall}

/-- A call in a body within the limit is found by the server of its owner. -/
theorem callOf_of_le (howner : ownerOf? segment = some owner)
    (htype : request.contentType = some "application/json")
    (hbody : request.body = Bytes.ofString (Json.ofRequest call).render)
    (hshort : request.body.length ≤ maxBody) : callOf segment owner request = .ok call := by
  rw [callOf, howner]
  simp only [htype, Option.any_some, isJson_application, Bool.not_true, Bool.false_eq_true,
    if_false, if_neg (Nat.not_lt.mpr hshort)]
  simp only [hbody, Bytes.toString?_ofString, Json.decode_ofRequest, if_true]

/-- A longer body is refused, whatever it holds. -/
theorem callOf_of_lt (howner : ownerOf? segment = some owner)
    (htype : request.contentType = some "application/json")
    (hlong : maxBody < request.body.length) : callOf segment owner request = .error 413 := by
  rw [callOf, howner]
  simp only [htype, Option.any_some, isJson_application, Bool.not_true, Bool.false_eq_true,
    if_false, if_pos hlong]

end Route
end IncrementalBuild
