import IncrementalBuild.Compilation
import IncrementalBuild.Proofs.Changes
import IncrementalBuild.Proofs.Host.Files
import IncrementalBuild.Proofs.Path.Map
/-!
# Keeping a collection in line with its files

The handles of a collection are kept by the paths of a request, while the unit keeps what they
hold by the places that the paths are resolved to. Applying the changes between two snapshots
brings the handles in line with the files again. It brings the unit in line too, unless a path
that was dropped is resolved to the place of one that is still there: the dropped path is removed
last, and takes with it what belongs to the other.

## Main definitions

* `mention?` — the first mention of a path in a list.
* `Snapshot.TakenOf` — the snapshot of a list of paths in a file tree.
* `Loader`, `Loader.Views` — a kind of handle, and what of a unit holds the handles of that kind.
* `Loader.InLine`, `Loader.Shown` — handles, and a unit, that are in line with the files.

## Main results

* `Assembly.find?_foldl_put`, `Assembly.view_foldl_put`, `Assembly.find?_foldl_take`,
  `Assembly.view_foldl_take` — what applying changes leaves of handles and unit.
* `Loader.Ready.inLine_apply`, `Loader.Ready.shown_apply` — applying changes brings them in line.
* `Loader.Ready.not_shown_apply` — a dropped path that shares its place leaves the unit out of
  line.
-/

namespace IncrementalBuild

variable {η α υ σ : Type}

/-! ### Mentions -/

/-- The first mention of a path in a list. -/
def mention? (paths : List Path) (p : Path) : Option Path := paths.find? fun q => p.same q

section Mentions

variable {paths : List Path} {p q : Path}

/-- A mention is equal to the path. -/
theorem same_of_mention? (h : mention? paths p = some q) : p.same q = true := by
  have := List.find?_some h
  exact this

/-- A mention is in the list. -/
theorem mem_of_mention? (h : mention? paths p = some q) : q ∈ paths :=
  List.mem_of_find?_eq_some h

/-- Equal paths have one first mention. -/
theorem mention?_congr (paths : List Path) (h : p.same q = true) :
    mention? paths p = mention? paths q := by
  simp only [mention?, Path.same_congr_left h]

/-- A path is mentioned when an equal one is in the list. -/
theorem exists_mention? (hq : q ∈ paths) (h : p.same q = true) :
    ∃ r, mention? paths p = some r := by
  rw [← Option.isSome_iff_exists, mention?, List.find?_isSome]
  exact ⟨q, hq, h⟩

/-- A path that is not mentioned is equal to none in the list. -/
theorem mention?_eq_none_iff : mention? paths p = none ↔ ∀ q ∈ paths, p.same q = false := by
  simp [mention?, List.find?_eq_none]

/-- Leaving repetitions out keeps first mentions. -/
theorem mention?_distinct (paths : List Path) (p : Path) :
    mention? (distinct paths) p = mention? paths p := by
  induction paths with
  | nil => rfl
  | cons q rest ih =>
      rw [distinct, mention?, mention?]
      by_cases h : p.same q = true
      · rw [List.find?_cons_of_pos h, List.find?_cons_of_pos h]
      · rw [List.find?_cons_of_neg h, List.find?_cons_of_neg h, List.find?_filter]
        rw [mention?, mention?] at ih
        rw [← ih]
        congr 1
        funext d
        by_cases hd : p.same d = true
        · have hqd : q.same d = false := by
            rw [Bool.eq_false_iff]
            exact fun hqd => h (Path.same_trans hd (Path.same_symm hqd))
          simp [hd, hqd]
        · simp [hd]

end Mentions

/-- What is left without repetitions is its own first mention. -/
theorem mention?_of_mem_distinct {paths : List Path} {q : Path} (hq : q ∈ distinct paths) :
    mention? paths q = some q := by
  induction paths with
  | nil => exact absurd hq List.not_mem_nil
  | cons p rest ih =>
      rw [mention?]
      rcases List.mem_cons.mp hq with rfl | hq
      · exact List.find?_cons_of_pos (Path.same_refl q)
      · obtain ⟨hq, hpq⟩ := List.mem_filter.mp hq
        rw [List.find?_cons_of_neg, ← mention?, ih hq]
        rw [Path.same_comm]
        simpa using hpq

/-- A first mention is left when repetitions are left out. -/
theorem mem_distinct_of_mention? {paths : List Path} {p q : Path} (h : mention? paths p = some q) :
    q ∈ distinct paths := by
  rw [← mention?_distinct] at h
  exact mem_of_mention? h

/-! ### Snapshots of lists of paths -/

/-- The snapshot of a list of paths, each of which `r` resolves, in a file tree. -/
structure Snapshot.TakenOf (s : Snapshot) (r : Path → Path) (paths : List Path) (fs : Files) :
    Prop where
  sorted : s.Sorted
  stamp : ∀ p, s.stamp? p = (mention? paths p).map fun q => ⟨q, fs.timeOf (r q)⟩

namespace Snapshot

variable {s : Snapshot} {r : Path → Path} {paths : List Path} {fs : Files} {p q : Path}

/-- The stamps of all paths make the snapshot. -/
theorem takenOf_ofStamps (r : Path → Path) (paths : List Path) (fs : Files) :
    (ofStamps (paths.map fun p => ⟨p, fs.timeOf (r p)⟩)).TakenOf r paths fs := by
  refine ⟨sorted_ofStamps _, fun p => ?_⟩
  rw [stamp?_ofStamps, FileStamp.firstFor, List.find?_map]
  rfl

/-- Repetitions do not matter for a snapshot. -/
theorem TakenOf.of_distinct (h : s.TakenOf r (distinct paths) fs) : s.TakenOf r paths fs :=
  ⟨h.sorted, fun p => by rw [h.stamp, mention?_distinct]⟩

/-- The time that a snapshot shows for a path is that of its first mention. -/
theorem TakenOf.time (h : s.TakenOf r paths fs) (p : Path) :
    s.time? p = (mention? paths p).map fun q => fs.timeOf (r q) := by
  rw [time?, h.stamp, Option.map_map]
  rfl

/-- The path of a stamp is its own first mention. -/
theorem TakenOf.mention_of_mem (h : s.TakenOf r paths fs) {stamp : FileStamp}
    (hs : stamp ∈ s.stamps) : mention? paths stamp.path = some stamp.path := by
  have hstamp := stamp?_of_mem h.sorted hs
  rw [h.stamp, Option.map_eq_some_iff] at hstamp
  obtain ⟨q, hq, heq⟩ := hstamp
  rw [hq, ← heq]

end Snapshot

/-! ### Kinds of handles -/

/-- A kind of handle: what handles hold of the contents of a file, unless they cannot be read, and
for which place. -/
structure Loader (η α : Type) where
  read : Bytes → Option α
  key : η → Path
  val : η → α

/-- What there is to load at a place. -/
def Loader.value? (l : Loader η α) (fs : Files) (x : Path) : Option α :=
  (fs.contentsOf? x).bind l.read

/-- What a unit holds of handles of a kind, place by place. -/
structure Loader.Views (l : Loader η α) (add remove : η → υ → σ → υ × σ) (view : υ → PathMap α) :
    Prop where
  add : ∀ y u e, view (add y u e).1 = (view u).insert (l.key y) (l.val y)
  remove : ∀ y u e, view (remove y u e).1 = (view u).erase (l.key y)

/-- Every handle is for the place of its path. -/
def Loader.Keyed (l : Loader η α) (r : Path → Path) (handles : PathMap η) : Prop :=
  ∀ p y, handles.find? p = some y → (l.key y).same (r p) = true

/-- A map has a handle for a path, which holds what there is to load at the path's place. -/
def Loader.Holds (l : Loader η α) (r : Path → Path) (fs : Files) (handles : PathMap η)
    (q : Path) : Prop :=
  ∃ y, handles.find? q = some y ∧ (l.key y).same (r q) = true ∧
    l.value? fs (r q) = some (l.val y)

namespace Loader

variable {l : Loader η α} {fs fs' : Files} {x y : Path}

/-- Equal places have one thing to load. -/
theorem value?_unique {v w : α} (hs : x.same y = true) (hx : l.value? fs x = some v)
    (hy : l.value? fs y = some w) : v = w := by
  obtain ⟨c, hc, hv⟩ := Option.bind_eq_some_iff.mp hx
  obtain ⟨d, hd, hw⟩ := Option.bind_eq_some_iff.mp hy
  obtain rfl := Files.contentsOf?_unique hs hc hd
  rw [hv] at hw
  exact Option.some.inj hw

/-- A place with the time that an equal one had has the same thing to load. -/
theorem value?_of_time {v : α} (hdated : Files.Dated fs fs') (hs : x.same y = true)
    (hx : l.value? fs x = some v) (htime : fs'.timeOf y = fs.timeOf x) :
    l.value? fs' y = some v := by
  obtain ⟨c, hc, hv⟩ := Option.bind_eq_some_iff.mp hx
  rw [value?, hdated.contents_eq hs hc htime]
  exact hv

end Loader

/-! ### Applying changes -/

namespace Assembly

variable {l : Loader η α} {add remove : η → υ → σ → υ × σ} {view : υ → PathMap α}
  {r : Path → Path} {a : Assembly η υ σ} {fresh : PathMap η} {p : Path} {y : η}

/-- Taking a path out leaves the handles of other paths. -/
theorem find?_take (a : Assembly η υ σ) (p q : Path) :
    (a.take remove p).handles.find? q = if q.same p then none else a.handles.find? q := by
  rw [take]
  split
  · next hnone =>
      by_cases h : q.same p = true
      · rw [if_pos h, PathMap.find?_congr h, hnone]
      · rw [if_neg h]
  · exact PathMap.find?_erase _ _ _

/-- Taking a path out leaves what the unit holds at other places. -/
theorem view_take (hviews : l.Views add remove view) (hkeyed : l.Keyed r a.handles) (p x : Path) :
    (view (a.take remove p).unit).find? x =
      if x.same (r p) = true ∧ (a.handles.find? p).isSome = true then none
      else (view a.unit).find? x := by
  rw [take]
  split
  · next hnone => simp [hnone]
  · next old hold =>
      dsimp only
      rw [hviews.remove, PathMap.find?_erase, Path.same_congr_right (hkeyed p old hold), hold]
      simp

/-- Putting a path in changes its handle only. -/
theorem find?_put (hfresh : fresh.find? p = some y) (q : Path) :
    (a.put add remove fresh p).handles.find? q =
      if q.same p then some y else a.handles.find? q := by
  rw [put, hfresh]
  dsimp only
  rw [PathMap.find?_insert, find?_take]
  by_cases h : q.same p = true
  · rw [if_pos h, if_pos h]
  · rw [if_neg h, if_neg h, if_neg h]

/-- Putting a path in changes what the unit holds at its place only. -/
theorem view_put (hviews : l.Views add remove view) (hkeyed : l.Keyed r a.handles)
    (hfresh : fresh.find? p = some y) (hy : (l.key y).same (r p) = true) (x : Path) :
    (view (a.put add remove fresh p).unit).find? x =
      if x.same (r p) then some (l.val y) else (view a.unit).find? x := by
  rw [put, hfresh]
  dsimp only
  rw [hviews.add, PathMap.find?_insert, Path.same_congr_right hy, view_take hviews hkeyed]
  by_cases h : x.same (r p) = true
  · rw [if_pos h, if_pos h]
  · rw [if_neg h, if_neg h, if_neg fun hx => h hx.1]

/-- Putting paths in keeps every handle at its place. -/
theorem keyed_put (hr : ∀ p q : Path, p.same q = true → (r p).same (r q) = true)
    (hkeyed : l.Keyed r a.handles) (hfresh : fresh.find? p = some y)
    (hy : (l.key y).same (r p) = true) : l.Keyed r (a.put add remove fresh p).handles := by
  intro q z hz
  rw [find?_put hfresh] at hz
  by_cases h : q.same p = true
  · rw [if_pos h] at hz
    obtain rfl := Option.some.inj hz
    exact Path.same_trans hy (hr p q (Path.same_symm h))
  · rw [if_neg h] at hz
    exact hkeyed q z hz

/-- Taking paths out keeps every handle at its place. -/
theorem keyed_take (hkeyed : l.Keyed r a.handles) (p : Path) :
    l.Keyed r (a.take remove p).handles := by
  intro q z hz
  rw [find?_take] at hz
  by_cases h : q.same p = true
  · rw [if_pos h] at hz
    exact absurd hz (by simp)
  · rw [if_neg h] at hz
    exact hkeyed q z hz

variable (remove) in
/-- Taking out all removed paths leaves the handles of the others. -/
theorem find?_foldl_take (removed : List Path) (a : Assembly η υ σ) (p : Path) :
    (removed.foldl (take remove) a).handles.find? p =
      if removed.any p.same then none else a.handles.find? p := by
  induction removed generalizing a with
  | nil => rfl
  | cons q rest ih =>
      rw [List.foldl_cons, ih, find?_take, List.any_cons]
      by_cases h : p.same q = true <;> by_cases h' : rest.any p.same = true <;> simp [h, h']

/-- Taking out all removed paths leaves what the unit holds at the places of none of them. -/
theorem view_foldl_take (hviews : l.Views add remove view)
    (hr : ∀ p q : Path, p.same q = true → (r p).same (r q) = true) (removed : List Path)
    (a : Assembly η υ σ) (hkeyed : l.Keyed r a.handles)
    (hpresent : ∀ q ∈ removed, (a.handles.find? q).isSome = true ∨
      ∀ x, x.same (r q) = true → (view a.unit).find? x = none) (x : Path) :
    (view (removed.foldl (take remove) a).unit).find? x =
      if removed.any fun q => x.same (r q) then none else (view a.unit).find? x := by
  induction removed generalizing a with
  | nil => rfl
  | cons q rest ih =>
      have hview := view_take hviews hkeyed q
      rw [List.foldl_cons, ih _ (keyed_take hkeyed q), List.any_cons]
      · by_cases hrest : (rest.any fun q => x.same (r q)) = true
        · simp [hrest]
        · rw [if_neg hrest, hview]
          by_cases hx : x.same (r q) = true
          · rcases hpresent q List.mem_cons_self with hsome | hnone
            · simp [hx, hsome]
            · simp [hx, hnone x hx]
          · simp [hx, hrest]
      · -- Once a path is out, nothing is left at the places of paths that are equal to it.
        intro d hd
        rw [find?_take]
        by_cases hdq : d.same q = true
        · refine .inr fun z hz => ?_
          have hzq : z.same (r q) = true := Path.same_trans hz (hr d q hdq)
          rw [hview]
          rcases hpresent q List.mem_cons_self with hsome | hnone
          · rw [if_pos ⟨hzq, hsome⟩]
          · rw [hnone z hzq, ite_self]
        · rw [if_neg hdq]
          rcases hpresent d (List.mem_cons_of_mem q hd) with hsome | hnone
          · exact .inl hsome
          · refine .inr fun z hz => ?_
            rw [hview, hnone z hz, ite_self]

/-- Putting in all touched paths changes their handles. -/
theorem find?_foldl_put (touched : List Path) (a : Assembly η υ σ)
    (hfresh : ∀ q ∈ touched, ∃ y, fresh.find? q = some y) (p : Path) :
    (touched.foldl (put add remove fresh) a).handles.find? p =
      if touched.any p.same then fresh.find? p else a.handles.find? p := by
  induction touched generalizing a with
  | nil => rfl
  | cons q rest ih =>
      obtain ⟨y, hy⟩ := hfresh q List.mem_cons_self
      rw [List.foldl_cons, ih _ fun d hd => hfresh d (List.mem_cons_of_mem q hd), find?_put hy,
        List.any_cons]
      by_cases hrest : rest.any p.same = true
      · simp [hrest]
      · by_cases h : p.same q = true
        · simp [hrest, h, PathMap.find?_congr h, hy]
        · simp [hrest, h]

/-- Putting in all touched paths keeps every handle at its place. -/
theorem keyed_foldl_put {fs : Files}
    (hr : ∀ p q : Path, p.same q = true → (r p).same (r q) = true) (touched : List Path)
    (a : Assembly η υ σ) (hkeyed : l.Keyed r a.handles)
    (hfresh : ∀ q ∈ touched, l.Holds r fs fresh q) :
    l.Keyed r (touched.foldl (put add remove fresh) a).handles := by
  induction touched generalizing a with
  | nil => exact hkeyed
  | cons q rest ih =>
      obtain ⟨y, hy, hkey, -⟩ := hfresh q List.mem_cons_self
      exact ih _ (keyed_put hr hkeyed hy hkey) fun d hd => hfresh d (List.mem_cons_of_mem q hd)

/-- Putting in all touched paths changes what the unit holds at their places. -/
theorem view_foldl_put {fs : Files} (hviews : l.Views add remove view)
    (hr : ∀ p q : Path, p.same q = true → (r p).same (r q) = true) (touched : List Path)
    (a : Assembly η υ σ) (hkeyed : l.Keyed r a.handles)
    (hfresh : ∀ q ∈ touched, l.Holds r fs fresh q) (x : Path) :
    (∃ q ∈ touched, x.same (r q) = true ∧
      (view (touched.foldl (put add remove fresh) a).unit).find? x = l.value? fs (r q)) ∨
    (∀ q ∈ touched, x.same (r q) = false) ∧
      (view (touched.foldl (put add remove fresh) a).unit).find? x = (view a.unit).find? x := by
  induction touched generalizing a with
  | nil => exact .inr ⟨fun q hq => absurd hq List.not_mem_nil, rfl⟩
  | cons q rest ih =>
      obtain ⟨y, hy, hkey, hvalue⟩ := hfresh q List.mem_cons_self
      rw [List.foldl_cons]
      rcases ih _ (keyed_put hr hkeyed hy hkey)
          fun d hd => hfresh d (List.mem_cons_of_mem q hd) with
        ⟨d, hd, hx, hfind⟩ | ⟨hnone, hfind⟩
      · exact .inl ⟨d, List.mem_cons_of_mem q hd, hx, hfind⟩
      · rw [view_put hviews hkeyed hy hkey] at hfind
        by_cases hx : x.same (r q) = true
        · rw [if_pos hx] at hfind
          exact .inl ⟨q, List.mem_cons_self, hx, hfind.trans hvalue.symm⟩
        · rw [if_neg hx] at hfind
          refine .inr ⟨fun d hd => ?_, hfind⟩
          rcases List.mem_cons.mp hd with rfl | hd
          · exact Bool.eq_false_iff.mpr hx
          · exact hnone d hd

end Assembly

/-! ### In line with the files -/

/-- Handles and a snapshot that are in line with a list of paths in a file tree. -/
structure Loader.InLine (l : Loader η α) (r : Path → Path) (paths : List Path) (fs : Files)
    (s : Snapshot) (handles : PathMap η) : Prop where
  snapshot : s.TakenOf r paths fs
  /-- Every path has a handle for what there is to load. -/
  listed : ∀ p q, mention? paths p = some q → l.Holds r fs handles q
  /-- No other path has a handle. -/
  others : ∀ p, mention? paths p = none → handles.find? p = none

/-- What a unit holds of a kind is what there is to load at the places of a list of paths. -/
def Loader.Shown (l : Loader η α) (r : Path → Path) (paths : List Path) (fs : Files)
    (view : PathMap α) : Prop :=
  ∀ x v, view.find? x = some v ↔
    ∃ q ∈ paths, x.same (r q) = true ∧ l.value? fs (r q) = some v

/-- A path of the first list is dropped in the second, and is resolved to the place of one that
is there. -/
def Clash (r : Path → Path) (paths paths' : List Path) : Prop :=
  ∃ q ∈ paths, (∀ p ∈ paths', q.same p = false) ∧ ∃ p ∈ paths', (r p).same (r q) = true

/-- What applying the changes between two snapshots starts from: handles in line with the first,
and fresh ones in line with the second. -/
structure Loader.Ready (l : Loader η α) (r : Path → Path) (paths paths' : List Path)
    (fs fs' : Files) (s s' : Snapshot) (handles fresh : PathMap η) : Prop where
  inLine : l.InLine r paths fs s handles
  taken : s'.TakenOf r paths' fs'
  dated : Files.Dated fs fs'
  resolve : ∀ p q : Path, p.same q = true → (r p).same (r q) = true
  fresh : ∀ q ∈ (Changes.between s s').touched, l.Holds r fs' fresh q

namespace Loader

variable {l : Loader η α} {r : Path → Path} {paths paths' : List Path} {fs fs' : Files}
  {s s' : Snapshot} {handles fresh : PathMap η} {p q : Path}

/-- Handles that are in line are for the places of their paths. -/
theorem InLine.keyed (h : l.InLine r paths fs s handles)
    (hr : ∀ p q : Path, p.same q = true → (r p).same (r q) = true) : l.Keyed r handles := by
  intro p y hy
  rcases hmention : mention? paths p with _ | q
  · rw [h.others p hmention] at hy
    exact absurd hy (by simp)
  · obtain ⟨z, hz, hkey, -⟩ := h.listed p q hmention
    have hs := same_of_mention? hmention
    rw [PathMap.find?_congr hs, hz] at hy
    obtain rfl := Option.some.inj hy
    exact Path.same_trans hkey (hr q p (Path.same_symm hs))

/-- What there is to load at the place of a path is there at the place of its first mention. -/
theorem InLine.value_mention {v : α} (h : l.InLine r paths fs s handles)
    (hr : ∀ p q : Path, p.same q = true → (r p).same (r q) = true) (hq : q ∈ paths)
    (hv : l.value? fs (r q) = some v) :
    ∃ d, mention? paths q = some d ∧ q.same d = true ∧ l.value? fs (r d) = some v := by
  obtain ⟨d, hd⟩ := exists_mention? hq (Path.same_refl q)
  have hqd := same_of_mention? hd
  obtain ⟨y, -, -, hvalue⟩ := h.listed q d hd
  refine ⟨d, hd, hqd, ?_⟩
  rw [hvalue, value?_unique (hr q d hqd) hv hvalue]

namespace Ready

variable (h : l.Ready r paths paths' fs fs' s s' handles fresh)

include h

/-- The touched paths are those with another time than before. -/
theorem any_touched_iff (p : Path) :
    (Changes.between s s').touched.any p.same = true ↔
      (s'.time? p).isSome = true ∧ s.time? p ≠ s'.time? p := by
  rw [List.any_eq_true, Changes.exists_touched_iff h.inLine.snapshot.sorted h.taken.sorted]

/-- The removed paths are those that are listed no more. -/
theorem any_removed_iff (p : Path) :
    (Changes.between s s').removed.any p.same = true ↔
      mention? paths' p = none ∧ (mention? paths p).isSome = true := by
  rw [List.any_eq_true, Changes.exists_removed_iff h.inLine.snapshot.sorted h.taken.sorted,
    h.taken.time, h.inLine.snapshot.time, Option.map_eq_none_iff, Option.isSome_map]

/-- A touched path is its own first mention. -/
theorem mention_of_mem_touched (hp : p ∈ (Changes.between s s').touched) :
    mention? paths' p = some p := by
  obtain ⟨stamp, hmem, rfl⟩ :=
    Changes.exists_stamp_of_mem_touched h.inLine.snapshot.sorted h.taken.sorted hp
  exact h.taken.mention_of_mem hmem

/-- **Unchanged.** A path that shows the same time has what it had, and its handle still holds
it. -/
theorem holds_of_unchanged (hmention : mention? paths' p = some q)
    (htime : s.time? p = s'.time? p) :
    l.Holds r fs' handles q ∧ ∃ d v, d ∈ paths ∧ p.same d = true ∧
      l.value? fs (r d) = some v ∧ l.value? fs' (r q) = some v := by
  have hp := same_of_mention? hmention
  rw [h.taken.time, hmention, h.inLine.snapshot.time, Option.map_some, Option.map_eq_some_iff]
    at htime
  obtain ⟨d, hd, htime⟩ := htime
  have hpd := same_of_mention? hd
  have hdq : d.same q = true := Path.same_trans (Path.same_symm hpd) hp
  obtain ⟨y, hy, hkey, hvalue⟩ := h.inLine.listed p d hd
  have hvalue' := value?_of_time h.dated (h.resolve d q hdq) hvalue htime.symm
  refine ⟨⟨y, ?_, Path.same_trans hkey (h.resolve d q hdq), hvalue'⟩, d, l.val y,
    mem_of_mention? hd, hpd, hvalue, hvalue'⟩
  rw [← PathMap.find?_congr hdq, hy]

variable {add remove : η → υ → σ → υ × σ} {view : υ → PathMap α} {u : υ} {e : σ}

/-- Every touched path has a fresh handle. -/
theorem exists_fresh : ∀ q ∈ (Changes.between s s').touched, ∃ y, fresh.find? q = some y := by
  intro q hq
  obtain ⟨y, hy, -⟩ := h.fresh q hq
  exact ⟨y, hy⟩

variable (add remove u e) in
/-- **Handles.** Applying the changes brings the handles in line with the files. -/
theorem inLine_apply :
    l.InLine r paths' fs' s' ((⟨handles, u, e⟩ : Assembly η υ σ).apply add remove
      (.between s s') fresh).handles := by
  have hfind := fun p => Assembly.find?_foldl_take remove (Changes.between s s').removed
    ((Changes.between s s').touched.foldl (Assembly.put add remove fresh) ⟨handles, u, e⟩) p
  simp only [Assembly.find?_foldl_put _ _ h.exists_fresh] at hfind
  refine ⟨h.taken, fun p q hmention => ?_, fun p hmention => ?_⟩
  · have hq : mention? paths' q = some q := by
      rw [← mention?_congr paths' (same_of_mention? hmention), hmention]
    have hremoved : ¬ (Changes.between s s').removed.any q.same = true := by
      rw [h.any_removed_iff, hq]
      simp
    rw [Holds, Assembly.apply, hfind, if_neg hremoved]
    by_cases htouched : (Changes.between s s').touched.any q.same = true
    · rw [if_pos htouched]
      obtain ⟨d, hd, hqd⟩ := List.any_eq_true.mp htouched
      have hmd := h.mention_of_mem_touched hd
      rw [← mention?_congr paths' hqd, hq] at hmd
      obtain rfl := Option.some.inj hmd
      exact h.fresh q hd
    · rw [if_neg htouched]
      rw [h.any_touched_iff, not_and_not_right] at htouched
      have hsome : (s'.time? q).isSome = true := by
        rw [h.taken.time, hq]
        rfl
      exact (h.holds_of_unchanged hq (htouched hsome)).1
  · rw [Assembly.apply, hfind]
    have htouched : ¬ (Changes.between s s').touched.any p.same = true := by
      rw [h.any_touched_iff, h.taken.time, hmention]
      simp
    rw [if_neg htouched]
    rcases hold : mention? paths p with _ | d
    · rw [h.inLine.others p hold, ite_self]
    · rw [if_pos]
      rw [h.any_removed_iff, hold]
      exact ⟨hmention, rfl⟩

/-- What the unit holds after the changes were applied, in terms of what it holds once the touched
paths were put in. -/
theorem view_apply (hviews : l.Views add remove view) (x : Path) :
    (view ((⟨handles, u, e⟩ : Assembly η υ σ).apply add remove
      (.between s s') fresh).unit).find? x =
      if (Changes.between s s').removed.any fun q => x.same (r q) then none
      else (view ((Changes.between s s').touched.foldl (Assembly.put add remove fresh)
        ⟨handles, u, e⟩).unit).find? x := by
  have hkeyed : l.Keyed r handles := h.inLine.keyed h.resolve
  refine Assembly.view_foldl_take hviews h.resolve _ _
    (Assembly.keyed_foldl_put h.resolve _ _ hkeyed h.fresh) (fun q hq => .inl ?_) x
  rw [Assembly.find?_foldl_put _ _ h.exists_fresh]
  have hremoved : (Changes.between s s').removed.any q.same = true :=
    List.any_eq_true.mpr ⟨q, hq, Path.same_refl q⟩
  obtain ⟨hnone, hsome⟩ := (h.any_removed_iff q).mp hremoved
  have htouched : ¬ (Changes.between s s').touched.any q.same = true := by
    rw [h.any_touched_iff, h.taken.time, hnone]
    simp
  rw [if_neg htouched]
  obtain ⟨d, hd⟩ := Option.isSome_iff_exists.mp hsome
  obtain ⟨y, hy, -⟩ := h.inLine.listed q d hd
  rw [PathMap.find?_congr (same_of_mention? hd), hy]
  rfl

/-- Without a clash no removed path is resolved to the place of a path that is there. -/
theorem any_removed_eq_false (hclear : ¬ Clash r paths paths') {x : Path} (hq : q ∈ paths')
    (hx : x.same (r q) = true) :
    ((Changes.between s s').removed.any fun d => x.same (r d)) = false := by
  rw [Bool.eq_false_iff, ne_eq, List.any_eq_true]
  rintro ⟨d, hd, hxd⟩
  have hremoved : (Changes.between s s').removed.any d.same = true :=
    List.any_eq_true.mpr ⟨d, hd, Path.same_refl d⟩
  obtain ⟨hnone, hsome⟩ := (h.any_removed_iff d).mp hremoved
  obtain ⟨c, hc⟩ := Option.isSome_iff_exists.mp hsome
  have hdc := same_of_mention? hc
  refine hclear ⟨c, mem_of_mention? hc, fun p hp => ?_, q, hq, ?_⟩
  · rw [← Path.same_congr_left hdc]
    exact mention?_eq_none_iff.mp hnone p hp
  · exact Path.same_trans (Path.same_trans (Path.same_symm hx) hxd) (h.resolve d c hdc)

/-- A listed path whose place no touched path shares shows the time that it showed before. -/
theorem time_eq_of_untouched {x : Path} (hmention : mention? paths' p = some q)
    (hx : x.same (r p) = true)
    (htouched : ∀ d ∈ (Changes.between s s').touched, x.same (r d) = false) :
    s.time? p = s'.time? p := by
  have hnot : ¬ (Changes.between s s').touched.any p.same = true := by
    intro hany
    obtain ⟨d, hd, hpd⟩ := List.any_eq_true.mp hany
    have hxd : x.same (r d) = true := Path.same_trans hx (h.resolve p d hpd)
    rw [htouched d hd] at hxd
    exact Bool.false_ne_true hxd
  rw [h.any_touched_iff, not_and_not_right] at hnot
  exact hnot (by rw [h.taken.time, hmention]; rfl)

/-- What a unit held before at a place that no touched and no removed path is resolved to is what
there is to load there now. -/
theorem exists_of_shown (hshown : l.Shown r paths fs (view u)) {x : Path} {v : α}
    (hremoved : ((Changes.between s s').removed.any fun d => x.same (r d)) = false)
    (htouched : ∀ d ∈ (Changes.between s s').touched, x.same (r d) = false)
    (hv : (view u).find? x = some v) :
    ∃ q ∈ paths', x.same (r q) = true ∧ l.value? fs' (r q) = some v := by
  obtain ⟨q, hq, hxq, hvalue⟩ := (hshown x v).mp hv
  obtain ⟨d, hd, hqd, hvalue⟩ := h.inLine.value_mention h.resolve hq hvalue
  -- The path is still listed: else it was removed, and its place with it.
  rcases hmention : mention? paths' q with _ | c
  · have hany : (Changes.between s s').removed.any q.same = true :=
      (h.any_removed_iff q).mpr ⟨hmention, by rw [hd]; rfl⟩
    obtain ⟨b, hb, hqb⟩ := List.any_eq_true.mp hany
    have hxb : x.same (r b) = true := Path.same_trans hxq (h.resolve q b hqb)
    rw [List.any_eq_false] at hremoved
    exact absurd hxb (hremoved b hb)
  · -- Its time is still the same: else it was touched, and its place with it.
    have htime := h.time_eq_of_untouched hmention hxq htouched
    have hqc := same_of_mention? hmention
    obtain ⟨-, b, w, hb, hqb, hold, hnew⟩ := h.holds_of_unchanged hmention htime
    have hvw : v = w := value?_unique
      (Path.same_trans (Path.same_symm (h.resolve q d hqd)) (h.resolve q b hqb)) hvalue hold
    rw [← hvw] at hnew
    exact ⟨c, mem_of_mention? hmention, Path.same_trans hxq (h.resolve q c hqc), hnew⟩

/-- **Unit.** Applying the changes brings what the unit holds in line with the files, if no dropped
path is resolved to the place of a path that is there. -/
theorem shown_apply (hviews : l.Views add remove view) (hshown : l.Shown r paths fs (view u))
    (hclear : ¬ Clash r paths paths') :
    l.Shown r paths' fs' (view ((⟨handles, u, e⟩ : Assembly η υ σ).apply add remove
      (.between s s') fresh).unit) := by
  have hkeyed : l.Keyed r handles := h.inLine.keyed h.resolve
  have hline := h.inLine_apply add remove u e
  intro x v
  rw [h.view_apply hviews]
  constructor
  · intro hfind
    split at hfind
    · exact absurd hfind (by simp)
    · next hremoved =>
        rw [Bool.not_eq_true] at hremoved
        rcases Assembly.view_foldl_put hviews h.resolve (Changes.between s s').touched
          ⟨handles, u, e⟩ hkeyed h.fresh x with ⟨q, hq, hxq, hput⟩ | ⟨htouched, hput⟩
        · rw [hput] at hfind
          exact ⟨q, mem_of_mention? (h.mention_of_mem_touched hq), hxq, hfind⟩
        · rw [hput] at hfind
          exact h.exists_of_shown hshown hremoved htouched hfind
  · rintro ⟨q, hq, hxq, hvalue⟩
    rw [if_neg (by rw [h.any_removed_eq_false hclear hq hxq]; exact Bool.false_ne_true)]
    obtain ⟨c, hc, hqc, hvalue⟩ := hline.value_mention h.resolve hq hvalue
    have hxc : x.same (r c) = true := Path.same_trans hxq (h.resolve q c hqc)
    rcases Assembly.view_foldl_put hviews h.resolve (Changes.between s s').touched
      ⟨handles, u, e⟩ hkeyed h.fresh x with ⟨d, hd, hxd, hput⟩ | ⟨htouched, hput⟩
    · obtain ⟨y, -, -, hloaded⟩ := h.fresh d hd
      rw [hput, hloaded, value?_unique (Path.same_trans (Path.same_symm hxd) hxc) hloaded hvalue]
    · have htime := h.time_eq_of_untouched hc hxq htouched
      obtain ⟨-, b, w, hb, hqb, hold, hnew⟩ := h.holds_of_unchanged hc htime
      rw [hput]
      rw [hvalue] at hnew
      obtain rfl := Option.some.inj hnew
      exact (hshown x v).mpr ⟨b, hb, Path.same_trans hxq (h.resolve q b hqb), hold⟩

/-- **Clash.** If a dropped path is resolved to the place of a path that is there, the unit lacks
what there is to load. -/
theorem not_shown_apply (hviews : l.Views add remove view) (hclash : Clash r paths paths') :
    ¬ l.Shown r paths' fs' (view ((⟨handles, u, e⟩ : Assembly η υ σ).apply add remove
      (.between s s') fresh).unit) := by
  intro hshown
  obtain ⟨q, hq, hdropped, p, hp, hpq⟩ := hclash
  have hline := h.inLine_apply add remove u e
  obtain ⟨c, hc⟩ := exists_mention? hp (Path.same_refl p)
  obtain ⟨y, -, -, hvalue⟩ := hline.listed p c hc
  have hpc := h.resolve p c (same_of_mention? hc)
  -- There is something to load at the place, but the dropped path was taken out last.
  have hfind := (hshown (r q) (l.val y)).mpr
    ⟨c, mem_of_mention? hc, Path.same_trans (Path.same_symm hpq) hpc, hvalue⟩
  have hany : (Changes.between s s').removed.any q.same = true := by
    obtain ⟨d, hd⟩ := exists_mention? hq (Path.same_refl q)
    exact (h.any_removed_iff q).mpr ⟨mention?_eq_none_iff.mpr hdropped, by rw [hd]; rfl⟩
  obtain ⟨d, hd, hqd⟩ := List.any_eq_true.mp hany
  rw [h.view_apply hviews, if_pos (List.any_eq_true.mpr ⟨d, hd, h.resolve q d hqd⟩)] at hfind
  exact absurd hfind (by simp)

end Ready
end Loader

end IncrementalBuild
