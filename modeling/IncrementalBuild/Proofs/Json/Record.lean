import IncrementalBuild.Proofs.Json.Skipping
import Mathlib.Data.List.Perm.Basic
/-!
# Reading every way to write a record

A record is read from an object or from a list of its fields. In an object the fields come in any
order, with foreign members among them, and some may be missing; in a list they come in their
order, and some may be missing at its end. What is read is the same in all these ways if no field
undoes what another one does, and if a field that is missing would not have changed the record.

## Main definitions

* `Json.Written` — a field of a record with the ways to write its value.
* `Json.Item` — what stands between two commas of an object: a field or a foreign member.

## Main results

* `Json.members_items`, `Json.inOrder_continued` — the loops over an object and over a list.
* `Json.accepts_record` — records.
-/

namespace IncrementalBuild.Json

open Spelling (blanks continued separated)
open scoped List

variable {α ρ : Type} {b x y rest : List Char}

/-- A field of a record with the ways to write its value. -/
structure Written (ρ : Type) where
  field : Field ρ
  spelled : Language Char
  /-- Whether the field may be missing. -/
  optional : Prop
  /-- What reading the value does to a record. -/
  set : ρ → ρ
  accepts : Accepts field.read spelled set
  not_needed : optional → field.needed = false

namespace Written

/-- A field that may be left out if it has its default value. -/
def of (name : String) {d : Decoder α} {l : Language Char} {a : α} (h : Accepts d l a)
    (default : α) (set : α → ρ → ρ) : Written ρ :=
  ⟨.of name d set, l, a = default, set a, h.map set, fun _ => rfl⟩

/-- A field that has to be there. -/
def must (name : String) {d : Decoder α} {l : Language Char} {a : α} (h : Accepts d l a)
    (set : α → ρ → ρ) : Written ρ :=
  ⟨.must name d set, l, False, set a, h.map set, False.elim⟩

/-- A field that has its default value does not change a record that holds it. -/
theorem set_blank {name : String} {d : Decoder α} {l : Language Char} {a : α} {h : Accepts d l a}
    {default : α} {set : α → ρ → ρ} {blank : ρ} (hblank : set default blank = blank)
    (hoptional : (of name h default set).optional) : (of name h default set).set blank = blank := by
  have hvalue : a = default := hoptional
  rw [← hvalue] at hblank
  exact hblank

/-- The name of the field. -/
def name (w : Written ρ) : String := w.field.name

/-- The field as a part of a record. -/
def part (w : Written ρ) : Spelling.Part := ⟨w.name, w.spelled, w.optional⟩

/-- What reading several fields does to a record. -/
def setAll (ws : List (Written ρ)) (r : ρ) : ρ := ws.foldl (fun r w => w.set r) r

end Written

/-- What stands between two commas of an object. -/
inductive Item (ρ : Type)
  | known (w : Written ρ)
  | foreign (name : String)

namespace Item

/-- The ways to write a member. -/
def spelled : Item ρ → Language Char
  | .known w => w.part.member
  | .foreign name => Spelling.foreign name

/-- What reading a member does to a record. -/
def set : Item ρ → ρ → ρ
  | .known w => w.set
  | .foreign _ => id

/-- The field that a member is, if it is one. -/
def field? : Item ρ → Option (Written ρ)
  | .known w => some w
  | .foreign _ => none

/-- The names that count as seen after a member. -/
def names : Item ρ → List String
  | .known w => [w.name]
  | .foreign _ => []

/-- Whether a member is a field of a record or foreign to it. -/
def Fits (fields : List (Field ρ)) : Item ρ → Prop
  | .known w => w.field ∈ fields
  | .foreign name => name ∉ fields.map Field.name

/-- The names in members are those of fields. -/
theorem Fits.mem_names {fields : List (Field ρ)} {i : Item ρ} (h : i.Fits fields) :
    ∀ n ∈ i.names, n ∈ fields.map Field.name := by
  intro n hn
  cases i with
  | known w =>
    rw [List.mem_singleton.mp hn]
    exact List.mem_map_of_mem h
  | foreign name => exact absurd hn List.not_mem_nil

/-- The names in members are those of the fields among them. -/
theorem flatMap_names (is : List (Item ρ)) :
    is.flatMap names = (is.filterMap field?).map Written.name := by
  induction is with
  | nil => rfl
  | cons i is ih =>
    cases i <;> rw [List.flatMap_cons, ih] <;> rfl

/-- Members change a record as the fields among them do. -/
theorem foldl_set (is : List (Item ρ)) (r : ρ) :
    is.foldl (fun r i => i.set r) r = Written.setAll (is.filterMap field?) r := by
  induction is generalizing r with
  | nil => rfl
  | cons i is ih =>
    cases i <;> exact ih _

/-- A member begins with the quote of its name. -/
theorem exists_quote {i : Item ρ} (hx : x ∈ i.spelled) : ∃ cs, x = '"' :: cs := by
  have hmember {name : String} {l : Language Char} (h : x ∈ Spelling.member name l) :
      ∃ cs, x = '"' :: cs := by
    obtain ⟨n, hn, b, -, b', -, v, -, rfl⟩ := Spelling.mem_member.mp h
    obtain ⟨body, rfl, -⟩ := stringRest_text hn
    exact ⟨_, rfl⟩
  cases i with
  | known w => exact hmember hx
  | foreign name => exact hmember hx

end Item

/-! ### Objects -/

section Objects

variable {fields : List (Field ρ)}

/-- A field is found by its name, if no two have the same one. -/
theorem find?_name (hnodup : (fields.map Field.name).Nodup) {f : Field ρ} (hf : f ∈ fields) :
    fields.find? (·.name == f.name) = some f := by
  induction fields with
  | nil => cases hf
  | cons g fields ih =>
    rw [List.map_cons, List.nodup_cons] at hnodup
    rcases List.mem_cons.mp hf with rfl | hf
    · exact List.find?_cons_of_pos (beq_self_eq_true f.name)
    · have hne : g.name ≠ f.name := fun h => hnodup.1 (h ▸ List.mem_map_of_mem hf)
      rw [List.find?_cons_of_neg (by simpa using hne), ih hnodup.2 hf]

/-- No field is found by a name that none has. -/
theorem find?_foreign {name : String} (h : name ∉ fields.map Field.name) :
    fields.find? (·.name == name) = none ∧ fields.any (·.name == name) = false := by
  have hother : ∀ f ∈ fields, ¬ (f.name == name) = true := by
    intro f hf heq
    rw [← beq_iff_eq.mp heq] at h
    exact h (List.mem_map_of_mem hf)
  exact ⟨List.find?_eq_none.mpr hother, List.any_eq_false.mpr hother⟩

/-- Whether all fields that are needed were seen. -/
def complete (fields : List (Field ρ)) (seen : List String) : Bool :=
  fields.all fun f => !f.needed || seen.contains f.name

/-- What follows a member of an object begins with a character that ends a scalar. -/
theorem beginsIn_stops {ls : List (Language Char)} (hy : y ∈ continued ls) (rest : List Char) :
    BeginsIn stops (y ++ '\x7d' :: rest) := by
  have hblank {b : List Char} (hb : b ∈ blanks) {c : Char} (hc : c ∈ stops) (cs : List Char) :
      BeginsIn stops (b ++ c :: cs) := by
    cases b with
    | nil => exact ⟨c, hc, cs, rfl⟩
    | cons d b =>
      have hd : d ∈ Spelling.blankCharacters := Spelling.mem_of_blanks hb d List.mem_cons_self
      exact ⟨d, List.mem_append_left _ hd, _, rfl⟩
  cases ls with
  | nil => exact hblank hy (by decide) rest
  | cons l ls =>
    obtain ⟨b, hb, b', -, z, -, w, -, rfl⟩ := Spelling.mem_continued_cons.mp hy
    rw [List.append_assoc]
    exact hblank hb (by decide) _

/-- One member of an object is read, if its name was not seen before; what comes next decides how
the reading goes on. -/
theorem members_item (hnodup : (fields.map Field.name).Nodup) {i : Item ρ} (hi : i.Fits fields)
    {seen : List String} (hseen : ∀ n ∈ seen, n ∈ fields.map Field.name)
    (hnew : ∀ n ∈ i.names, n ∉ seen) (hb : b ∈ blanks) (hx : x ∈ i.spelled)
    (hrest : BeginsIn stops rest) (fuel : Nat) (r : ρ) :
    members fields (fuel + 1) seen r (b ++ (x ++ rest)) =
      match skipSpace rest with
      | ',' :: rest => members fields fuel (i.names ++ seen) (i.set r) rest
      | '\x7d' :: rest =>
        if complete fields (i.names ++ seen) then .ok (i.set r, rest) else .error .mismatched
      | _ => .error .malformed := by
  cases i with
  | known w =>
    obtain ⟨n, hn, b₁, hb₁, b₂, hb₂, v, hv, rfl⟩ := Spelling.mem_member.mp hx
    obtain ⟨body, rfl, hname⟩ := stringRest_text hn
    have hfind : fields.find? (·.name == w.part.name) = some w.field := find?_name hnodup hi
    have hany : fields.any (·.name == w.part.name) = true :=
      List.any_eq_true.mpr ⟨w.field, hi, beq_self_eq_true _⟩
    have hunseen : w.part.name ∉ seen := hnew w.name (List.mem_singleton_self _)
    have hcontains : seen.contains w.part.name = false := by simpa using hunseen
    have hvalue := w.accepts.reads b₂ hb₂ v hv rest
    simp only [List.cons_append, List.append_assoc] at hvalue ⊢
    rw [members, skipSpace_append_cons hb (by decide)]
    simp only [hname, String.ofList_toList, hcontains, Bool.false_eq_true, if_false,
      skipSpace_append_cons hb₁ (by decide : isSpace ':' = false), hfind, hvalue, Except.map, hany,
      if_true, complete]
    rfl
  | foreign name =>
    obtain ⟨n, hn, b₁, hb₁, b₂, hb₂, v, hv, rfl⟩ := Spelling.mem_member.mp hx
    obtain ⟨body, rfl, hname⟩ := stringRest_text hn
    obtain ⟨hfind, hany⟩ := find?_foreign hi
    have hcontains : seen.contains name = false := by
      simpa using fun hmem : name ∈ seen => hi (hseen name hmem)
    have hvalue := skip_scalar hb₂ hv hrest
    simp only [List.cons_append, List.append_assoc] at hvalue ⊢
    rw [members, skipSpace_append_cons hb (by decide)]
    simp only [hname, String.ofList_toList, hcontains, Bool.false_eq_true, if_false,
      skipSpace_append_cons hb₁ (by decide : isSpace ':' = false), hfind, hvalue, Except.map, hany,
      complete]
    rfl

/-- The members of an object are read up to its end, with fuel for each character, if no field is
repeated and none that is needed is missing. -/
theorem members_items (hnodup : (fields.map Field.name).Nodup) {i : Item ρ} {is : List (Item ρ)}
    (hfits : ∀ j ∈ i :: is, j.Fits fields) {seen : List String}
    (hseen : ∀ n ∈ seen, n ∈ fields.map Field.name)
    (hnew : ((i :: is).flatMap Item.names ++ seen).Nodup)
    (hall : ∀ f ∈ fields, f.needed = true → f.name ∈ (i :: is).flatMap Item.names ++ seen)
    (hb : b ∈ blanks) (hx : x ∈ i.spelled) (hy : y ∈ continued (is.map Item.spelled)) (r : ρ)
    (rest : List Char) {fuel : Nat} (hfuel : (x ++ y).length < fuel) :
    members fields fuel seen r (b ++ (x ++ (y ++ '\x7d' :: rest))) =
      .ok ((i :: is).foldl (fun r j => j.set r) r, rest) := by
  induction is generalizing i seen b x y r fuel with
  | nil =>
    obtain ⟨fuel, rfl⟩ : ∃ n, fuel = n + 1 := ⟨fuel - 1, by omega⟩
    have hi := hfits i List.mem_cons_self
    rw [List.flatMap_cons, List.flatMap_nil, List.append_nil] at hnew hall
    have hunseen : ∀ n ∈ i.names, n ∉ seen := List.disjoint_of_nodup_append hnew
    have hcomplete : complete fields (i.names ++ seen) = true := by
      rw [complete, List.all_eq_true]
      intro f hf
      cases hneeded : f.needed with
      | false => rfl
      | true =>
        rw [List.contains_iff_mem.mpr (hall f hf hneeded), Bool.or_true]
    rw [members_item hnodup hi hseen hunseen hb hx (beginsIn_stops hy rest),
      skipSpace_append_cons hy (by decide)]
    simp only [hcomplete, if_true, List.foldl_cons, List.foldl_nil]
  | cons j is ih =>
    obtain ⟨fuel, rfl⟩ : ∃ n, fuel = n + 1 := ⟨fuel - 1, by omega⟩
    have hi := hfits i List.mem_cons_self
    -- the names of the first member move to those that were seen
    have hperm : (i :: j :: is).flatMap Item.names ++ seen ~
        (j :: is).flatMap Item.names ++ (i.names ++ seen) := by
      rw [List.flatMap_cons, List.append_assoc]
      exact List.perm_append_comm_assoc _ _ _
    have hunseen : ∀ n ∈ i.names, n ∉ seen := by
      rw [List.flatMap_cons, List.append_assoc] at hnew
      exact fun n hn hmem => List.disjoint_of_nodup_append hnew hn (List.mem_append_right _ hmem)
    have hseen' : ∀ n ∈ i.names ++ seen, n ∈ fields.map Field.name := by
      intro n hn
      rcases List.mem_append.mp hn with hn | hn
      · exact hi.mem_names n hn
      · exact hseen n hn
    have hfirst := members_item hnodup hi hseen hunseen hb hx (beginsIn_stops hy rest) fuel r
    obtain ⟨b₁, hb₁, b₂, hb₂, z, hz, w, hw, rfl⟩ := Spelling.mem_continued_cons.mp hy
    have hlength : (z ++ w).length < fuel := by
      simp only [List.length_append, List.length_cons] at hfuel ⊢
      omega
    have hothers := ih (fun k hk => hfits k (List.mem_cons_of_mem i hk)) hseen'
      (hperm.nodup_iff.mp hnew) (fun f hf hneeded => hperm.subset (hall f hf hneeded)) hb₂ hz hw
      (i.set r) hlength
    simp only [List.append_assoc, List.cons_append] at hfirst hothers ⊢
    rw [hfirst, skipSpace_append_cons hb₁ (by decide)]
    exact hothers

end Objects

/-! ### Lists of fields -/

/-- A list may end before fields that may be missing. -/
theorem inOrder_end {left : List (Written ρ)} (hleft : ∀ w ∈ left, w.optional) (hb : b ∈ blanks)
    (later : Bool) (r : ρ) (rest : List Char) :
    inOrder (left.map Written.field) later r (b ++ ']' :: rest) = .ok (r, rest) := by
  cases left with
  | nil =>
    rw [List.map_nil, inOrder, skipSpace_append_cons hb (by decide)]
    rfl
  | cons w left =>
    have hneeded : ((w :: left).map Written.field).any (·.needed) = false := by
      rw [List.any_eq_false]
      intro f hf
      obtain ⟨v, hv, rfl⟩ := List.mem_map.mp hf
      rw [v.not_needed (hleft v hv)]
      exact Bool.false_ne_true
    rw [List.map_cons] at hneeded ⊢
    rw [inOrder, skipSpace_append_cons hb (by decide)]
    simp only [hneeded, Bool.false_eq_true, if_false]

/-- The fields after the first one are read from a list up to its end. -/
theorem inOrder_continued {kept left : List (Written ρ)} (hleft : ∀ w ∈ left, w.optional)
    (hy : y ∈ continued (kept.map Written.spelled)) (r : ρ) (rest : List Char) :
    inOrder ((kept ++ left).map Written.field) true r (y ++ ']' :: rest) =
      .ok (Written.setAll kept r, rest) := by
  induction kept generalizing y r with
  | nil => exact inOrder_end hleft hy true r rest
  | cons w kept ih =>
    obtain ⟨b₁, hb₁, b₂, hb₂, v, hv, z, hz, rfl⟩ := Spelling.mem_continued_cons.mp hy
    have hvalue := w.accepts.reads_mem hv (z ++ ']' :: rest)
    have hothers := ih hz (w.set r)
    obtain ⟨c, cs, rfl, hspace, hend⟩ := w.accepts.starts v hv
    simp only [List.append_assoc, List.cons_append, List.map_cons] at hvalue ⊢
    rw [inOrder, skipSpace_append_cons hb₁ (by decide)]
    simp only [if_true, skipSpace_append_cons hb₂ hspace]
    split
    case h_1 heq => exact absurd (List.cons.inj heq).1 hend
    case h_2 =>
      simp only [hvalue, hothers]
      rfl

/-- The fields of a record are read from a list up to its end. -/
theorem inOrder_separated {kept left : List (Written ρ)} (hleft : ∀ w ∈ left, w.optional)
    (hb : b ∈ blanks) (hy : y ∈ separated (kept.map Written.spelled)) (r : ρ) (rest : List Char) :
    inOrder ((kept ++ left).map Written.field) false r (b ++ (y ++ ']' :: rest)) =
      .ok (Written.setAll kept r, rest) := by
  cases kept with
  | nil =>
    obtain rfl : y = [] := hy
    exact inOrder_end hleft hb false r rest
  | cons w kept =>
    obtain ⟨v, hv, z, hz, rfl⟩ := Language.mem_mul.mp hy
    have hvalue := w.accepts.reads_mem hv (z ++ ']' :: rest)
    have hothers := inOrder_continued hleft hz (w.set r) rest
    obtain ⟨c, cs, rfl, hspace, hend⟩ := w.accepts.starts v hv
    simp only [List.append_assoc, List.cons_append, List.map_cons] at hvalue ⊢
    rw [inOrder, skipSpace_append_cons hb hspace]
    split
    case h_1 heq => cases heq
    case h_2 heq => exact absurd (List.cons.inj heq).1 hend
    -- a comma in front of the first field would belong to its value
    case h_3 heq =>
      obtain ⟨rfl, rfl⟩ := heq
      simp only [Bool.false_eq_true, if_false, hvalue, hothers]
      rfl
    case h_4 heq =>
      obtain ⟨rfl, rfl⟩ := heq
      simp only [Bool.false_eq_true, if_false, hvalue, hothers]
      rfl

/-! ### Records -/

/-- What is a permutation of images is made of the images of a permutation. -/
theorem exists_perm_of_perm_map {γ δ : Type} {f : γ → δ} {ms : List δ} {is : List γ}
    (h : ms ~ is.map f) : ∃ js : List γ, js ~ is ∧ js.map f = ms := by
  have hcomp := congrFun (congrFun (List.eq_map_comp_perm f) ms) is
  obtain ⟨js, rfl, hperm⟩ := hcomp.mpr h
  exact ⟨js, hperm, rfl⟩

/-- Fields of which none undoes what another one does. -/
def Independent (ws : List (Written ρ)) : Prop :=
  ∀ v ∈ ws, ∀ w ∈ ws, ∀ r, w.set (v.set r) = v.set (w.set r)

/-- Fields change a record in the same way in any order, and without those that would not have
changed it. -/
theorem setAll_eq {ws vs left : List (Written ρ)} (hindep : Independent ws)
    (hperm : ws ~ vs ++ left) {blank : ρ} (hleft : ∀ w ∈ left, w.set blank = blank) :
    Written.setAll ws blank = Written.setAll vs blank := by
  have hblank : Written.setAll left blank = blank := by
    clear hperm
    induction left with
    | nil => rfl
    | cons w left ih =>
      have hothers := ih fun v hv => hleft v (List.mem_cons_of_mem w hv)
      rw [Written.setAll, List.foldl_cons, hleft w List.mem_cons_self]
      exact hothers
  -- the fields that are missing go to the front, where they meet the blank record
  calc Written.setAll ws blank
      = Written.setAll (left ++ vs) blank :=
        (hperm.trans List.perm_append_comm).foldl_eq' (f := fun r (w : Written ρ) => w.set r)
          hindep blank
    _ = Written.setAll vs (Written.setAll left blank) := List.foldl_append
    _ = Written.setAll vs blank := by rw [hblank]

/-- The members of an object that a record is written as: fields in some order and foreign members,
without fields that may be missing. -/
theorem exists_items {ws : List (Written ρ)} (hx : x ∈ Spelling.named (ws.map Written.part)) :
    ∃ left, ∃ is : List (Item ρ), ws ~ is.filterMap Item.field? ++ left ∧
      (∀ w ∈ left, w.optional) ∧ (∀ i ∈ is, i.Fits (ws.map Written.field)) ∧
      x ∈ Spelling.object (is.map Item.spelled) := by
  obtain ⟨kept, left, names, members, hparts, hleft, hnames, hmembers, hx⟩ := hx
  -- the permutation of the parts is one of the fields, and that of the members is one of the items
  obtain ⟨vs, hvs, hsplit⟩ := exists_perm_of_perm_map hparts.symm
  obtain ⟨kept, left, rfl, rfl, rfl⟩ := List.map_eq_append_iff.mp hsplit
  have hspelled : (kept.map Written.part).map Spelling.Part.member ++ names.map Spelling.foreign =
      (kept.map Item.known ++ names.map Item.foreign).map Item.spelled := by
    simp only [List.map_append, List.map_map]
    rfl
  rw [hspelled] at hmembers
  obtain ⟨is, his, rfl⟩ := exists_perm_of_perm_map hmembers
  have hfields : is.filterMap Item.field? ~ kept := by
    have hknown : (kept.map Item.known).filterMap Item.field? = kept := by
      rw [List.filterMap_map]
      exact List.filterMap_some
    have hforeign : (names.map Item.foreign).filterMap (@Item.field? ρ) = [] := by
      rw [List.filterMap_map]
      exact List.filterMap_none names
    have hperm := his.filterMap Item.field?
    rwa [List.filterMap_append, hknown, hforeign, List.append_nil] at hperm
  refine ⟨left, is, hvs.symm.trans (hfields.symm.append_right left), ?_, ?_, hx⟩
  · exact fun w hw => hleft w.part (List.mem_map_of_mem hw)
  · intro i hi
    rcases List.mem_append.mp (his.subset hi) with hi | hi
    · obtain ⟨w, hw, rfl⟩ := List.mem_map.mp hi
      exact List.mem_map_of_mem (hvs.subset (List.mem_append_left left hw))
    · obtain ⟨n, hn, rfl⟩ := List.mem_map.mp hi
      have hforeign := hnames n hn
      rw [List.map_map] at hforeign
      rw [Item.Fits, List.map_map]
      exact hforeign

/-- A record is read from an object. -/
theorem reads_named {ws : List (Written ρ)} (hnodup : (ws.map Written.name).Nodup)
    (hindep : Independent ws) {blank : ρ} (hblank : ∀ w ∈ ws, w.optional → w.set blank = blank)
    (hx : x ∈ Spelling.named (ws.map Written.part)) :
    Reads (record (ws.map Written.field) blank) x (Written.setAll ws blank) := by
  intro rest
  obtain ⟨left, is, hperm, hleft, hfits, hx⟩ := exists_items hx
  have hnames : (ws.map Written.field).map Field.name = ws.map Written.name := List.map_map
  have hset : Written.setAll ws blank = is.foldl (fun r i => i.set r) blank := by
    rw [Item.foldl_set]
    refine setAll_eq hindep hperm ?_
    intro w hw
    exact hblank w (hperm.symm.subset (List.mem_append_right _ hw)) (hleft w hw)
  obtain ⟨b, hb, y, hy, rfl⟩ := Spelling.mem_bracketed.mp hx
  simp only [List.cons_append, List.append_assoc, List.nil_append]
  rw [record, skipSpace_cons (by decide), hset]
  have hneeded : ∀ w ∈ ws, w.field.needed = true → w ∈ is.filterMap Item.field? := by
    intro w hw hneeded
    refine (List.mem_append.mp (hperm.subset hw)).resolve_right ?_
    intro hmem
    rw [w.not_needed (hleft w hmem)] at hneeded
    exact Bool.false_ne_true hneeded
  cases is with
  | nil =>
    obtain rfl : y = [] := hy
    have hnone : (ws.map Written.field).any (·.needed) = false := by
      rw [List.any_eq_false]
      intro f hf
      obtain ⟨w, hw, rfl⟩ := List.mem_map.mp hf
      exact fun h => absurd (hneeded w hw h) List.not_mem_nil
    simp only [List.nil_append, skipSpace_append_cons hb (by decide : isSpace '\x7d' = false),
      hnone, Bool.false_eq_true, if_false, List.foldl_nil]
  | cons i is =>
    obtain ⟨first, hfirst, others, hothers, rfl⟩ := Language.mem_mul.mp hy
    have hnew : ((i :: is).flatMap Item.names ++ []).Nodup := by
      rw [List.append_nil, Item.flatMap_names]
      have happend := (hperm.map Written.name).nodup_iff.mp hnodup
      rw [List.map_append] at happend
      exact happend.of_append_left
    have hall : ∀ f ∈ ws.map Written.field, f.needed = true →
        f.name ∈ (i :: is).flatMap Item.names ++ [] := by
      intro f hf h
      obtain ⟨w, hw, rfl⟩ := List.mem_map.mp hf
      rw [List.append_nil, Item.flatMap_names]
      exact List.mem_map_of_mem (f := Written.name) (hneeded w hw h)
    have hread (fuel : Nat) (hfuel : (first ++ others).length < fuel) :=
      members_items (hnames ▸ hnodup) hfits (fun n hn => absurd hn List.not_mem_nil) hnew hall
        Spelling.nil_mem_blanks hfirst hothers blank rest hfuel
    obtain ⟨cs, rfl⟩ := Item.exists_quote hfirst
    simp only [List.nil_append, List.cons_append, List.append_assoc] at hread ⊢
    rw [skipSpace_append_cons hb (by decide)]
    refine hread _ ?_
    simp only [List.length_append, List.length_cons]
    omega

/-- A record is read from a list of its fields. -/
theorem reads_inOrder {ws : List (Written ρ)} (hindep : Independent ws) {blank : ρ}
    (hblank : ∀ w ∈ ws, w.optional → w.set blank = blank)
    (hx : x ∈ Spelling.inOrder (ws.map Written.part)) :
    Reads (record (ws.map Written.field) blank) x (Written.setAll ws blank) := by
  intro rest
  obtain ⟨kept, left, hsplit, hleft, hx⟩ := hx
  obtain ⟨kept, left, rfl, rfl, rfl⟩ := List.map_eq_append_iff.mp hsplit
  have hleft' : ∀ w ∈ left, w.optional := fun w hw => hleft w.part (List.mem_map_of_mem hw)
  have hset : Written.setAll (kept ++ left) blank = Written.setAll kept blank :=
    setAll_eq hindep (List.Perm.refl _) fun w hw =>
      hblank w (List.mem_append_right kept hw) (hleft' w hw)
  have hvalues : (kept.map Written.part).map Spelling.Part.value = kept.map Written.spelled :=
    List.map_map
  rw [hvalues] at hx
  obtain ⟨b, hb, y, hy, rfl⟩ := Spelling.mem_bracketed.mp hx
  simp only [List.cons_append, List.append_assoc, List.nil_append]
  rw [record, skipSpace_cons (by decide), hset]
  exact inOrder_separated hleft' hb hy blank rest

/-- **Records.** A record is read from each of the ways to write it, if its fields have different
names, none undoes what another one does, and those that may be missing do not change a blank
record. -/
theorem accepts_record (ws : List (Written ρ)) (hnodup : (ws.map Written.name).Nodup)
    (hindep : Independent ws) {blank : ρ} (hblank : ∀ w ∈ ws, w.optional → w.set blank = blank) :
    Accepts (record (ws.map Written.field) blank) (Spelling.record (ws.map Written.part))
      (Written.setAll ws blank) := by
  refine .of_reads ?_ ?_ ?_
  · intro cs
    simp only [record, skipSpace_skipSpace]
  · rintro x (⟨kept, left, names, members, -, -, -, -, hx⟩ | ⟨kept, left, -, -, hx⟩)
    · obtain ⟨b, -, y, -, rfl⟩ := Spelling.mem_bracketed.mp hx
      exact ⟨'\x7b', _, rfl, rfl, by decide⟩
    · obtain ⟨b, -, y, -, rfl⟩ := Spelling.mem_bracketed.mp hx
      exact ⟨'[', _, rfl, rfl, by decide⟩
  · rintro x (hx | hx)
    · exact reads_named hnodup hindep hblank hx
    · exact reads_inOrder hindep hblank hx

end IncrementalBuild.Json
