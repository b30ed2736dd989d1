import IncrementalBuild.Compilation
import IncrementalBuild.Proofs.Task
import Mathlib.Data.List.Perm.Basic
/-!
# Inputs that are worked on at the same time

The inputs of a collection are taken up in an order that nobody promises. When all of them are had,
what was got is listed as they are, and each was got once. When one cannot be had, the request fails
as the first one that was taken up and could not be had; some more may have been taken up since.

## Main definitions

* `Task.Finds` — how a task ends on a host that it leaves as it is.

## Main results

* `Schedule.arrange_perm` — the inputs that are taken up are those that are listed.
* `Task.together_eq_ok_iff`, `Task.together_eq_error_iff` — how a task for items that are worked on
  at the same time ends.
* `gatherAll_eq_ok`, `map_fst_of_gatherAll`, `gatherAll_eq_error_iff` — the same for the inputs of a
  collection.
* `finds_gatherAll`, `exists_gatherAll_eq_error` — on a host that stays as it is the order has no
  say in whether all inputs are had, and in what is had then.
-/

namespace IncrementalBuild

variable {σ α β γ η : Type}

/-! ### Orders -/

namespace Schedule

/-- Taking items by their positions takes each of them once. -/
theorem arrangeBy_perm (order : List Nat) (items : List α) :
    (arrangeBy order items).Perm items := by
  induction order generalizing items with
  | nil => exact .refl items
  | cons i order ih =>
      rw [arrangeBy]
      split
      · next a ha =>
          obtain ⟨hi, rfl⟩ := List.getElem?_eq_some_iff.mp ha
          exact ((ih _).cons _).trans (List.getElem_cons_eraseIdx_perm hi)
      · exact ih items

/-- The items that are taken up are those that are listed. -/
theorem arrange_perm (s : Schedule) (items : List α) : (s.arrange items).Perm items :=
  arrangeBy_perm s.order items

/-- An item is taken up if it is listed. -/
@[simp] theorem mem_arrange {s : Schedule} {items : List α} {a : α} :
    a ∈ s.arrange items ↔ a ∈ items :=
  (s.arrange_perm items).mem_iff

end Schedule

/-! ### How such tasks end -/

namespace Task

variable {f : α → Task σ β} {s : Schedule} {items : List α} {w w' : World σ} {values : List β}
  {e : Failure}

/-- A task that goes through every item has the values of a task for every item. -/
theorem untilFailure_eq_ok_iff {further : Nat} :
    untilFailure further f items w = (.ok values, w') ↔ forAll f items w = (.ok values, w') := by
  induction items generalizing w w' values with
  | nil => exact Iff.rfl
  | cons a rest ih =>
      rw [untilFailure_cons, forAll, bind_apply]
      rcases f a w with ⟨e | b, w₁⟩
      · simp
      dsimp only
      rw [bind_apply]
      rcases hall : forAll f rest w₁ with ⟨e | bs, w₂⟩
      · rcases hrest : untilFailure further f rest w₁ with ⟨e' | bs, w₃⟩
        · simp
        · exact absurd (hall.symm.trans (ih.mp hrest)) (by simp)
      · rw [ih.mpr hall]
        exact Iff.rfl

/-- A task that does not go through every item fails as it fails for one of them, after those before
it, and some more items are taken up then. -/
theorem untilFailure_eq_error_iff {further : Nat} :
    untilFailure further f items w = (.error e, w') ↔
      ∃ done a rest values w₁ w₂, items = done ++ a :: rest ∧
        forAll f done w = (.ok values, w₁) ∧ f a w₁ = (.error e, w₂) ∧
          w' = anyway f (rest.take further) w₂ := by
  constructor
  · intro h
    induction items generalizing w with
    | nil => exact absurd (congrArg Prod.fst h) (by simp [untilFailure, Task.done])
    | cons a rest ih =>
        rw [untilFailure_cons] at h
        rcases ha : f a w with ⟨cause | b, w₁⟩ <;> rw [ha] at h
        · obtain ⟨he, rfl⟩ := Prod.mk.inj h
          obtain rfl := Except.error.inj he
          exact ⟨[], a, rest, [], w, w₁, rfl, rfl, ha, rfl⟩
        · dsimp only at h
          rcases hrest : untilFailure further f rest w₁ with ⟨cause | bs, w₂⟩ <;> rw [hrest] at h
          · obtain ⟨done, c, later, values, w₃, w₄, rfl, hdone, hc, hw'⟩ := ih (hrest.trans h)
            refine ⟨a :: done, c, later, b :: values, w₃, w₄, rfl, ?_, hc, hw'⟩
            simp only [forAll, bind_apply, ha, hdone, pure_apply]
          · exact absurd (congrArg Prod.fst h) (by simp)
  · rintro ⟨done, a, rest, values, w₁, w₂, rfl, hdone, ha, rfl⟩
    induction done generalizing w values with
    | nil =>
        obtain ⟨-, rfl⟩ := pure_eq_ok hdone
        rw [List.nil_append, untilFailure_cons, ha]
    | cons d others ih =>
        obtain ⟨b, w₃, hb, hdone⟩ := bind_eq_ok hdone
        obtain ⟨bs, w₄, hbs, hdone⟩ := bind_eq_ok hdone
        obtain ⟨-, rfl⟩ := pure_eq_ok hdone
        rw [List.cons_append, untilFailure_cons, hb]
        dsimp only
        rw [ih bs hbs]

/-- A task for items that are worked on at the same time has the values of a task for every item, in
the order in which they are taken up. -/
theorem together_eq_ok_iff :
    together s f items w = (.ok values, w') ↔
      forAll f (s.arrange items) w = (.ok values, w') :=
  untilFailure_eq_ok_iff

/-- A task for items that are worked on at the same time fails as it fails for the first item that
is taken up and that it fails for. -/
theorem together_eq_error_iff :
    together s f items w = (.error e, w') ↔
      ∃ done a rest values w₁ w₂, s.arrange items = done ++ a :: rest ∧
        forAll f done w = (.ok values, w₁) ∧ f a w₁ = (.error e, w₂) ∧
          w' = anyway f (rest.take s.further) w₂ :=
  untilFailure_eq_error_iff

/-! ### Where such tasks lead -/

namespace Along

variable {R : World σ → World σ → Prop} [IsPreorder (World σ) R]

/-- Tasks for some items lead where they lead one after the other, whatever comes of each. -/
theorem anyway (hf : ∀ a, Along R (f a)) (items : List α) (w : World σ) :
    R w (Task.anyway f items w) := by
  induction items generalizing w with
  | nil => exact refl_of R w
  | cons a rest ih => exact trans_of R (hf a w) (ih (f a w).2)

/-- A task up to the first failure leads where the tasks for the items lead one after the other. -/
theorem untilFailure (hf : ∀ a, Along R (f a)) (further : Nat) (items : List α) :
    Along R (Task.untilFailure further f items) := by
  induction items with
  | nil => exact pure []
  | cons a rest ih =>
      intro w
      have hfirst := hf a w
      rw [untilFailure_cons]
      rcases ha : f a w with ⟨e | b, w₁⟩ <;> rw [ha] at hfirst
      · exact trans_of R hfirst (anyway hf (rest.take further) w₁)
      · have hrest := ih w₁
        dsimp only
        rcases hothers : Task.untilFailure further f rest w₁ with ⟨e | bs, w₂⟩ <;>
          rw [hothers] at hrest <;> exact trans_of R hfirst hrest

/-- A task for items that are worked on at the same time leads where the tasks for the items
lead. -/
theorem together (hf : ∀ a, Along R (f a)) (s : Schedule) (items : List α) :
    Along R (Task.together s f items) :=
  untilFailure hf s.further (s.arrange items)

end Along
end Task

/-! ### The inputs of a collection -/

/-- Getting something for every path leads where getting it for each path leads. -/
theorem Task.Along.gatherAll {R : World σ → World σ → Prop} [IsPreorder (World σ) R]
    {task : Path → Task σ η} (hf : ∀ p, Along R (task p)) (s : Schedule) (paths : List Path) :
    Along R (gatherAll s task paths) :=
  (together (fun p => (hf p).bind fun _ => pure _) s paths).bind fun _ => pure _

/-- Getting something for every path keeps what getting it for each path keeps. -/
theorem Task.Keeps.gatherAll {f : World σ → γ} {task : Path → Task σ η}
    (hf : ∀ p, Keeps f (task p)) (s : Schedule) (paths : List Path) :
    Keeps f (gatherAll s task paths) :=
  haveI : IsPreorder (World σ) fun w w' => f w' = f w :=
    { refl := fun _ => rfl, trans := fun _ _ _ h h' => h'.trans h }
  Along.gatherAll (R := fun w w' => f w' = f w) hf s paths

section Gather

variable {task : Path → Task σ η} {s : Schedule} {paths : List Path} {w w' : World σ}
  {entries : List (Path × η)} {e : Failure}

/-- Where no path is listed nothing is got. -/
@[simp] theorem gatherAll_nil : gatherAll s task [] w = (.ok [], w) := by
  rw [gatherAll, Task.together, (s.arrange_perm []).eq_nil]
  rfl

/-- Getting something for every path gets it for these paths. -/
theorem map_fst_of_forAll
    (h : Task.forAll (fun p => do return (p, ← task p)) paths w = (.ok entries, w')) :
    entries.map Prod.fst = paths := by
  induction paths generalizing w w' entries with
  | nil =>
      obtain ⟨rfl, -⟩ := Task.pure_eq_ok h
      rfl
  | cons p rest ih =>
      obtain ⟨entry, w₁, hentry, h⟩ := Task.bind_eq_ok h
      obtain ⟨others, w₂, hothers, h⟩ := Task.bind_eq_ok h
      obtain ⟨rfl, -⟩ := Task.pure_eq_ok h
      obtain ⟨y, w₃, -, hentry⟩ := Task.bind_eq_ok hentry
      obtain ⟨rfl, -⟩ := Task.pure_eq_ok hentry
      rw [List.map_cons, ih hothers]

/-- Inputs that were all got were got one after the other, in the order in which they were taken up;
then they are listed as the paths are. -/
theorem gatherAll_eq_ok (h : gatherAll s task paths w = (.ok entries, w')) :
    ∃ got, Task.forAll (fun p => do return (p, ← task p)) (s.arrange paths) w = (.ok got, w') ∧
      entries = paths.filterMap fun p => got.find? fun entry => entry.1 == p := by
  obtain ⟨got, w₁, hgot, h⟩ := Task.bind_eq_ok h
  obtain ⟨rfl, rfl⟩ := Task.pure_eq_ok h
  exact ⟨got, Task.together_eq_ok_iff.mp hgot, rfl⟩

/-- What is listed was got. -/
theorem mem_of_gatherAll (h : gatherAll s task paths w = (.ok entries, w')) :
    ∃ got, Task.forAll (fun p => do return (p, ← task p)) (s.arrange paths) w = (.ok got, w') ∧
      ∀ entry ∈ entries, entry ∈ got := by
  obtain ⟨got, hgot, rfl⟩ := gatherAll_eq_ok h
  refine ⟨got, hgot, fun entry hentry => ?_⟩
  obtain ⟨p, -, hfind⟩ := List.mem_filterMap.mp hentry
  exact List.mem_of_find?_eq_some hfind

/-- Inputs that can be had one after the other, in the order in which they are taken up, are got. -/
theorem exists_gatherAll {got : List (Path × η)}
    (h : Task.forAll (fun p => do return (p, ← task p)) (s.arrange paths) w = (.ok got, w')) :
    ∃ entries, gatherAll s task paths w = (.ok entries, w') := by
  refine ⟨paths.filterMap fun p => got.find? fun entry => entry.1 == p, ?_⟩
  rw [gatherAll, Task.bind_apply, Task.together_eq_ok_iff.mpr h]
  rfl

/-- What was got for paths is listed as they are. -/
theorem map_fst_of_gatherAll (h : gatherAll s task paths w = (.ok entries, w')) :
    entries.map Prod.fst = paths := by
  obtain ⟨got, hgot, rfl⟩ := gatherAll_eq_ok h
  have hpaths := map_fst_of_forAll hgot
  have hfound : ∀ p ∈ paths, ((got.find? fun entry => entry.1 == p).map Prod.fst) = some p := by
    intro p hp
    rw [← Schedule.mem_arrange (s := s), ← hpaths] at hp
    obtain ⟨entry, hentry, rfl⟩ := List.mem_map.mp hp
    rcases hfind : got.find? fun x => x.1 == entry.1 with _ | found
    · exact absurd (List.find?_eq_none.mp hfind entry hentry) (by simp)
    · rw [hfind, Option.map_some, eq_of_beq (List.find?_some hfind :)]
  rw [List.map_filterMap]
  exact (List.filterMap_congr hfound).trans List.filterMap_some

/-- Keeping the path with what was got for it is nothing that the world shows. -/
theorem anyway_gather (task : Path → Task σ η) (items : List Path) (w : World σ) :
    Task.anyway (fun p => do return (p, ← task p)) items w = Task.anyway task items w := by
  have hone : ∀ (v : World σ) p, ((do return (p, ← task p) : Task σ (Path × η)) v).2 =
      (task p v).2 := by
    intro v p
    rw [Task.bind_apply]
    rcases task p v with ⟨_ | _, _⟩ <;> rfl
  rw [Task.anyway, Task.anyway]
  simp only [hone]

/-- Getting something for inputs fails as it fails for the first one that is taken up and cannot be
had, after those before it; some more are taken up then. -/
theorem gatherAll_eq_error_iff :
    gatherAll s task paths w = (.error e, w') ↔
      ∃ done p rest values w₁ w₂, s.arrange paths = done ++ p :: rest ∧
        gatherAll {} task done w = (.ok values, w₁) ∧
          task p w₁ = (.error e, w₂) ∧ w' = Task.anyway task (rest.take s.further) w₂ := by
  have hlisted : ∀ done w₁, (∃ values, gatherAll {} task done w = (.ok values, w₁)) ↔
      ∃ values, Task.forAll (fun p => do return (p, ← task p)) done w = (.ok values, w₁) := by
    intro done w₁
    constructor
    · rintro ⟨values, h⟩
      obtain ⟨got, hgot, -⟩ := gatherAll_eq_ok h
      exact ⟨got, hgot⟩
    · rintro ⟨got, hgot⟩
      exact exists_gatherAll (s := {}) hgot
  have hfails : ∀ p w w', (do return (p, ← task p) : Task σ (Path × η)) w = (.error e, w') ↔
      task p w = (.error e, w') := by
    intro p w w'
    rw [Task.bind_apply]
    rcases task p w with ⟨_ | _, _⟩ <;> simp
  have htogether : gatherAll s task paths w = (.error e, w') ↔
      Task.together s (fun p => do return (p, ← task p)) paths w = (.error e, w') := by
    rw [gatherAll, Task.bind_apply]
    rcases Task.together s (fun p => do return (p, ← task p)) paths w with ⟨_ | _, _⟩ <;> simp
  rw [htogether, Task.together_eq_error_iff]
  simp only [hfails, anyway_gather]
  constructor
  · rintro ⟨done, p, rest, values, w₁, w₂, hsplit, hdone, hp, hw'⟩
    obtain ⟨listed, hdone⟩ := (hlisted done w₁).mpr ⟨values, hdone⟩
    exact ⟨done, p, rest, listed, w₁, w₂, hsplit, hdone, hp, hw'⟩
  · rintro ⟨done, p, rest, listed, w₁, w₂, hsplit, hdone, hp, hw'⟩
    obtain ⟨values, hdone⟩ := (hlisted done w₁).mp ⟨listed, hdone⟩
    exact ⟨done, p, rest, values, w₁, w₂, hsplit, hdone, hp, hw'⟩

end Gather

/-! ### Hosts that stay as they are -/

/-- A task ends with the same on a host each time, whatever the engine keeps, and leaves the host as
it is. -/
def Task.Finds (t : Task σ α) (h : Host) (r : Except Failure α) : Prop :=
  ∀ kept, (t ⟨h, kept⟩).1 = r ∧ (t ⟨h, kept⟩).2.host = h

section Finds

variable {task : Path → Task σ η} {found : Path → Except Failure η} {h : Host} {s : Schedule}
  {paths : List Path} {w w' : World σ} {entries : List (Path × η)} {e : Failure}

/-- What was had of inputs is what is found for each of them, and the host is still the same. -/
theorem found_of_gatherAll (hfound : ∀ p, (task p).Finds h (found p)) (hw : w.host = h)
    (hgot : gatherAll s task paths w = (.ok entries, w')) :
    w'.host = h ∧ (∀ p ∈ paths, ∃ a, found p = .ok a) ∧
      ∀ entry ∈ entries, found entry.1 = .ok entry.2 := by
  have hkeeps : ∀ (p : Path) (v : World σ), v.host = h →
      ((do return (p, ← task p) : Task σ (Path × η)) v).2.host = h ∧
        ∀ b, ((do return (p, ← task p) : Task σ (Path × η)) v).1 = .ok b →
          b.1 = p ∧ found p = .ok b.2 := by
    rintro p ⟨host, kept⟩ rfl
    obtain ⟨hresult, hhost⟩ := hfound p kept
    rw [Task.bind_apply]
    rcases htask : task p ⟨host, kept⟩ with ⟨e | a, v⟩ <;> rw [htask] at hresult hhost
    · exact ⟨hhost, fun b hb => absurd hb (by simp)⟩
    · refine ⟨hhost, fun b hb => ?_⟩
      obtain rfl := Except.ok.inj hb
      exact ⟨rfl, hresult.symm⟩
  obtain ⟨got, hall, hlisted⟩ := mem_of_gatherAll hgot
  obtain ⟨hitems, hvalues, hhost⟩ :=
    Task.forAll_eq_ok (I := fun v => v.host = h) (fun p v hv => (hkeeps p v hv).1) hw hall
  refine ⟨hhost, fun p hp => ?_, fun entry hentry => ?_⟩
  · obtain ⟨b, -, v, hv, hb⟩ := hitems p (Schedule.mem_arrange.mpr hp)
    exact ⟨b.2, ((hkeeps p v hv).2 b hb).2⟩
  · obtain ⟨p, -, v, hv, hb⟩ := hvalues entry (hlisted entry hentry)
    obtain ⟨rfl, hp⟩ := (hkeeps p v hv).2 entry hb
    exact hp

/-- Inputs that cannot all be had fail as one of them does, and the host is still the same. -/
theorem exists_found_error_of_gatherAll (hfound : ∀ p, (task p).Finds h (found p))
    (hw : w.host = h) (hfailed : gatherAll s task paths w = (.error e, w')) :
    w'.host = h ∧ ∃ p ∈ paths, found p = .error e := by
  have hstays : ∀ (p : Path) (v : World σ), v.host = h →
      (task p v).1 = found p ∧ (task p v).2.host = h := by
    rintro p ⟨host, kept⟩ rfl
    exact hfound p kept
  have hothers : ∀ (others : List Path) (v : World σ), v.host = h →
      (Task.anyway task others v).host = h := by
    intro others
    induction others with
    | nil => exact fun v hv => hv
    | cons q others ih => exact fun v hv => ih _ (hstays q v hv).2
  obtain ⟨done, p, rest, values, w₁, w₂, hsplit, hdone, hp, rfl⟩ :=
    gatherAll_eq_error_iff.mp hfailed
  obtain ⟨hresult, hhost⟩ := hstays p w₁ (found_of_gatherAll hfound hw hdone).1
  rw [hp] at hresult hhost
  refine ⟨?_, p, ?_, hresult.symm⟩
  · exact hothers (rest.take s.further) w₂ hhost
  · rw [← Schedule.mem_arrange (s := s), hsplit]
    exact List.mem_append_right _ List.mem_cons_self

/-- In every order the same is had of inputs that can all be had. -/
theorem finds_gatherAll (hfound : ∀ p, (task p).Finds h (found p))
    (hall : ∀ p ∈ paths, ∃ a, found p = .ok a) (s : Schedule) :
    (gatherAll s task paths).Finds h
      (.ok (paths.filterMap fun p => (found p).toOption.map (Prod.mk p))) := by
  intro kept
  rcases hgot : gatherAll s task paths ⟨h, kept⟩ with ⟨e | entries, v⟩
  · obtain ⟨-, p, hp, hfailed⟩ := exists_found_error_of_gatherAll hfound rfl hgot
    obtain ⟨a, ha⟩ := hall p hp
    exact absurd (ha.symm.trans hfailed) (by simp)
  · obtain ⟨hhost, -, hentries⟩ := found_of_gatherAll hfound rfl hgot
    refine ⟨congrArg Except.ok ?_, hhost⟩
    rw [← map_fst_of_gatherAll hgot, List.filterMap_map]
    refine (List.filterMap_some.symm.trans (List.filterMap_congr fun entry hentry => ?_))
    rw [Function.comp_apply, hentries entry hentry]
    rfl

/-- Whether inputs can all be had is the same in every order. Of those that cannot, one is told. -/
theorem exists_gatherAll_eq_error (hfound : ∀ p, (task p).Finds h (found p))
    (hnone : ¬ ∀ p ∈ paths, ∃ a, found p = .ok a) (s : Schedule) (kept : σ) :
    ∃ e, (gatherAll s task paths ⟨h, kept⟩).1 = .error e ∧
      (gatherAll s task paths ⟨h, kept⟩).2.host = h ∧ ∃ p ∈ paths, found p = .error e := by
  rcases hgot : gatherAll s task paths ⟨h, kept⟩ with ⟨e | entries, v⟩
  · obtain ⟨hhost, hfailed⟩ := exists_found_error_of_gatherAll hfound rfl hgot
    exact ⟨e, rfl, hhost, hfailed⟩
  · exact absurd (found_of_gatherAll hfound rfl hgot).2.1 hnone

end Finds
end IncrementalBuild
