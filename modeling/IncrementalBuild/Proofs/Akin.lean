import IncrementalBuild.OutputState
import IncrementalBuild.Proofs.Collection
import IncrementalBuild.Proofs.Compilation
import IncrementalBuild.Proofs.Path.Akin
/-!
# Snapshots, changes and assemblies that are akin

Two collections that differ in the spelling of their paths at most, and show the same times, change
alike: the changes match one by one, and so do the handles and the units that they are applied to.

## Main definitions

* `Files.Finds` — a path is found among others, with a time.
* `FileStamp.Akin`, `Snapshot.Akin`, `Baseline.Akin`, `Changes.Akin` — collections that differ in
  the spelling of paths at most.
* `Loader.Akin` — handles for one place that hold the same.
* `Assembly.Akin` — akin handles in related units.

## Main results

* `Changes.akin_between` — akin collections change alike.
* `Snapshot.akin_of_found` — two listings of one collection show the same times, unless a file that
  is as old as the epoch was modified.
* `Assembly.akin_apply` — akin assemblies stay akin under akin changes.
-/

namespace IncrementalBuild

variable {σ η α υ : Type}

/-! ### Times -/

/-- A path is found among others, with a time: an equal one is found and shows it. -/
def Files.Finds (fs : Files) (r : Path → Path) (paths : List Path) (x : Path) (time : Timestamp) :
    Prop :=
  ∃ p ∈ paths, x.same p = true ∧ (fs.contentsOf? (r p)).isSome = true ∧ fs.timeOf (r p) = time

/-! ### Changes -/

/-- Stamps of equal paths with one time. -/
structure FileStamp.Akin (r s : FileStamp) : Prop where
  path : r.path.same s.path = true
  modified : r.modified = s.modified

/-- Changes of equal paths, one by one. -/
structure Changes.Akin (c d : Changes) : Prop where
  added : List.Forall₂ (fun p q => p.same q = true) c.added d.added
  changed : List.Forall₂ (fun p q => p.same q = true) c.changed d.changed
  removed : List.Forall₂ (fun p q => p.same q = true) c.removed d.removed

namespace Changes

variable {c d : Changes} {olds olds' news news' : List FileStamp}

/-- Akin stamps have equal paths. -/
theorem forall₂_paths (h : List.Forall₂ FileStamp.Akin olds news) :
    List.Forall₂ (fun p q => p.same q = true) (olds.map FileStamp.path) (news.map FileStamp.path) :=
  List.forall₂_map_left_iff.mpr (List.forall₂_map_right_iff.mpr (h.imp fun _ _ hrs => hrs.path))

/-- **Akin collections change alike.** -/
theorem akin_merge (ho : List.Forall₂ FileStamp.Akin olds olds')
    (hn : List.Forall₂ FileStamp.Akin news news') : (merge olds news).Akin (merge olds' news') := by
  induction olds, news using merge.induct generalizing olds' news' with
  | case1 news =>
      cases ho
      rw [merge, merge]
      exact ⟨forall₂_paths hn, .nil, .nil⟩
  | case2 olds hne =>
      cases hn
      cases ho with
      | nil => exact absurd rfl hne
      | cons hfirst hrest =>
          rw [merge, merge]
          · exact ⟨.nil, .nil, forall₂_paths (.cons hfirst hrest)⟩
          all_goals simp
  | case3 o olds n news hsame htime ih =>
      obtain ⟨o', olds', hfirst, hos, rfl⟩ := List.forall₂_cons_left_iff.mp ho
      obtain ⟨n', news', hfirst', hns, rfl⟩ := List.forall₂_cons_left_iff.mp hn
      have hsame' := (Path.same_congr hfirst'.path hfirst.path).symm.trans hsame
      have htime' := hfirst'.modified.symm.trans (htime.trans hfirst.modified)
      rw [merge, merge, if_pos hsame, if_pos hsame', if_pos htime, if_pos htime']
      exact ih hos hns
  | case4 o olds n news hsame htime ih =>
      obtain ⟨o', olds', hfirst, hos, rfl⟩ := List.forall₂_cons_left_iff.mp ho
      obtain ⟨n', news', hfirst', hns, rfl⟩ := List.forall₂_cons_left_iff.mp hn
      have hsame' := (Path.same_congr hfirst'.path hfirst.path).symm.trans hsame
      have htime' : ¬ n'.modified = o'.modified := by
        rwa [← hfirst'.modified, ← hfirst.modified]
      obtain ⟨hadded, hchanged, hremoved⟩ := ih hos hns
      rw [merge, merge, if_pos hsame, if_pos hsame', if_neg htime, if_neg htime']
      exact ⟨hadded, .cons hfirst'.path hchanged, hremoved⟩
  | case5 o olds n news hsame hbefore ih =>
      obtain ⟨o', olds', hfirst, hos, rfl⟩ := List.forall₂_cons_left_iff.mp ho
      obtain ⟨n', news', hfirst', hns, rfl⟩ := List.forall₂_cons_left_iff.mp hn
      have hsame' : ¬ n'.path.same o'.path = true := by
        rwa [← Path.same_congr hfirst'.path hfirst.path]
      have hbefore' := (Path.before_congr hfirst'.path hfirst.path).symm.trans hbefore
      obtain ⟨hadded, hchanged, hremoved⟩ := ih ho hns
      rw [merge, merge, if_neg hsame, if_neg hsame', if_pos hbefore, if_pos hbefore']
      exact ⟨.cons hfirst'.path hadded, hchanged, hremoved⟩
  | case6 o olds n news hsame hbefore ih =>
      obtain ⟨o', olds', hfirst, hos, rfl⟩ := List.forall₂_cons_left_iff.mp ho
      obtain ⟨n', news', hfirst', hns, rfl⟩ := List.forall₂_cons_left_iff.mp hn
      have hsame' : ¬ n'.path.same o'.path = true := by
        rwa [← Path.same_congr hfirst'.path hfirst.path]
      have hbefore' : ¬ n'.path.before o'.path = true := by
        rwa [← Path.before_congr hfirst'.path hfirst.path]
      obtain ⟨hadded, hchanged, hremoved⟩ := ih hos hn
      rw [merge, merge, if_neg hsame, if_neg hsame', if_neg hbefore, if_neg hbefore']
      exact ⟨hadded, hchanged, .cons hfirst.path hremoved⟩

/-- Lists that match one by one are empty together. -/
theorem isEmpty_of_forall₂ {β γ : Type} {R : β → γ → Prop} {a : List β} {b : List γ}
    (h : List.Forall₂ R a b) : a.isEmpty = b.isEmpty := by
  cases h <;> rfl

/-- Akin changes are empty together. -/
theorem Akin.isEmpty (h : c.Akin d) : c.isEmpty = d.isEmpty := by
  rw [Changes.isEmpty, Changes.isEmpty, isEmpty_of_forall₂ h.added, isEmpty_of_forall₂ h.changed,
    isEmpty_of_forall₂ h.removed]

/-- They leave the membership unchanged together. -/
theorem Akin.isMembershipUnchanged (h : c.Akin d) :
    c.isMembershipUnchanged = d.isMembershipUnchanged := by
  rw [Changes.isMembershipUnchanged, Changes.isMembershipUnchanged, isEmpty_of_forall₂ h.added,
    isEmpty_of_forall₂ h.removed]

/-- The paths that need a new handle match one by one. -/
theorem Akin.touched (h : c.Akin d) :
    List.Forall₂ (fun p q => p.same q = true) c.touched d.touched :=
  List.rel_append h.added h.changed

/-- No changes are akin to no changes. -/
theorem Akin.none : Akin {} {} := ⟨.nil, .nil, .nil⟩

end Changes

/-- A policy allows reuse after akin changes alike. -/
theorem ReusePolicy.allows_congr {policy : ReusePolicy} {references references' sources sources' :
    Changes} (hr : references.Akin references') (hs : sources.Akin sources') :
    policy.allows references sources = policy.allows references' sources' := by
  cases policy with
  | none => rfl
  | whenNoChange => rw [allows, allows, hr.isEmpty, hs.isEmpty]
  | whenNoSourceChange => rw [allows, allows, hr.isMembershipUnchanged, hs.isEmpty]

/-! ### Snapshots -/

/-- Snapshots with the same paths and times. -/
structure Snapshot.Akin (s s' : Snapshot) : Prop where
  sorted : s.Sorted
  sorted' : s'.Sorted
  agrees : s.Agrees s'

/-- Baselines with the same paths and times. -/
def Baseline.Akin (b b' : Baseline) : Prop :=
  ∃ s s', b.committed = some s ∧ b'.committed = some s' ∧ s.Akin s'

/-- Of the files that are listed and found, those that a snapshot shows as old as the epoch still
are. -/
def Snapshot.Rests (s : Snapshot) (r : Path → Path) (paths : List Path) (fs : Files) : Prop :=
  ∀ x time, s.time? x = some .epoch → fs.Finds r paths x time → time = .epoch

namespace Snapshot

variable {s s' n n' : Snapshot} {r : Path → Path} {paths paths' : List Path} {fs : Files}
  {p q x : Path}

/-- A stamp of one snapshot has its match in another that agrees with it. -/
theorem Agrees.exists_akin (h : s.Agrees s') (hs : s.Sorted) {stamp : FileStamp}
    (hstamp : stamp ∈ s.stamps) : ∃ other ∈ s'.stamps, stamp.Akin other := by
  have htime := h stamp.path
  rw [time?, stamp?_of_mem hs hstamp, Option.map_some] at htime
  obtain ⟨other, hother, hmodified⟩ := Option.map_eq_some_iff.mp htime.symm
  exact ⟨other, List.mem_of_find?_eq_some hother, by simpa using List.find?_some hother,
    hmodified.symm⟩

/-- The stamps of akin snapshots match one by one. -/
theorem Akin.stamps (h : s.Akin s') : List.Forall₂ FileStamp.Akin s.stamps s'.stamps := by
  refine Path.forall₂_of_ascending h.sorted h.sorted' (fun _ _ hR => hR.path) (fun _ hx => ?_)
    fun y hy => ?_
  · exact h.agrees.exists_akin h.sorted hx
  · have hback : s'.Agrees s := fun p => (h.agrees p).symm
    obtain ⟨x, hx, hyx⟩ := hback.exists_akin h.sorted' hy
    exact ⟨x, hx, Path.same_symm hyx.path, hyx.modified.symm⟩

/-- A path is mentioned in neither of two listings of one collection, or in both. -/
theorem mention?_cases (hpaths : ∀ p, p ∈ paths ↔ p ∈ paths') (x : Path) :
    mention? paths x = none ∧ mention? paths' x = none ∨ ∃ p q, mention? paths x = some p ∧
      mention? paths' x = some q ∧ x.same p = true ∧ x.same q = true := by
  rcases hp : mention? paths x with _ | p
  · refine .inl ⟨rfl, mention?_eq_none_iff.mpr fun q hq => ?_⟩
    exact mention?_eq_none_iff.mp hp q ((hpaths q).mpr hq)
  · have hxp := same_of_mention? hp
    obtain ⟨q, hq⟩ := exists_mention? ((hpaths p).mp (mem_of_mention? hp)) hxp
    exact .inr ⟨p, q, rfl, hq, hxp, same_of_mention? hq⟩

/-- The first mention of a path is found, or the path shows the time that it showed before. -/
theorem TakenOf.found_or_kept (hn : n.TakenOf r paths fs) (hs : s.Sorted)
    (hfound : ∀ q ∈ (Changes.between s n).touched, (fs.contentsOf? (r q)).isSome = true)
    (hp : mention? paths x = some p) :
    (fs.contentsOf? (r p)).isSome = true ∨ s.time? x = some (fs.timeOf (r p)) := by
  have htime : n.time? x = some (fs.timeOf (r p)) := by rw [hn.time, hp, Option.map_some]
  by_cases hkept : s.time? x = n.time? x
  · exact .inr (hkept.trans htime)
  · have hsome : (n.time? x).isSome = true := by rw [htime]; rfl
    obtain ⟨q, hq, hxq⟩ := (Changes.exists_touched_iff hs hn.sorted).mpr ⟨hsome, hkept⟩
    -- What is touched is a first mention, so it is the one of this path.
    obtain ⟨stamp, hstamp, rfl⟩ := Changes.exists_stamp_of_mem_touched hs hn.sorted hq
    have hmention := hn.mention_of_mem hstamp
    rw [← mention?_congr paths hxq, hp] at hmention
    obtain rfl := Option.some.inj hmention
    exact .inl (hfound _ hq)

/-- **Two listings** of one collection show the same times, if they are compared with akin
snapshots, everything that they touch is found, and a file that was as old as the epoch still is. -/
theorem akin_of_found (hs : s.Akin s') (hn : n.TakenOf r paths fs) (hn' : n'.TakenOf r paths' fs)
    (hpaths : ∀ p, p ∈ paths ↔ p ∈ paths')
    (hr : ∀ p q : Path, p.same q = true → (r p).same (r q) = true)
    (hfound : ∀ q ∈ (Changes.between s n).touched, (fs.contentsOf? (r q)).isSome = true)
    (hfound' : ∀ q ∈ (Changes.between s' n').touched, (fs.contentsOf? (r q)).isSome = true)
    (hrests : s.Rests r paths fs) : n.Akin n' := by
  refine ⟨hn.sorted, hn'.sorted, fun x => ?_⟩
  rw [hn.time, hn'.time]
  rcases mention?_cases hpaths x with ⟨hp, hq⟩ | ⟨p, q, hp, hq, hxp, hxq⟩
  · rw [hp, hq]
  have hpq := Path.same_trans (Path.same_symm hxp) hxq
  -- A spelling under which nothing is found shows the epoch.
  have hmissed : ∀ p q, x.same p = true → x.same q = true → p ∈ paths →
      (fs.contentsOf? (r p)).isSome = true → s.time? x = some (fs.timeOf (r q)) →
      fs.timeOf (r p) = fs.timeOf (r q) := by
    intro p q hxp hxq hmem hthere hkept
    have hsame := hr p q (Path.same_trans (Path.same_symm hxp) hxq)
    rcases Files.timeOf_same_or_epoch hsame hthere with htime | htime
    · exact htime.symm
    · rw [htime] at hkept
      rw [htime, hrests x _ hkept ⟨p, hmem, hxp, hthere, rfl⟩]
  have htimes : fs.timeOf (r p) = fs.timeOf (r q) := by
    rcases hn.found_or_kept hs.sorted hfound hp with hthere | hkept
    · rcases hn'.found_or_kept hs.sorted' hfound' hq with hthere' | hkept'
      · exact Files.timeOf_unique (hr p q hpq) hthere hthere'
      · exact hmissed p q hxp hxq (mem_of_mention? hp) hthere ((hs.agrees x).trans hkept')
    · rcases hn'.found_or_kept hs.sorted' hfound' hq with hthere' | hkept'
      · have hmem := (hpaths q).mpr (mem_of_mention? hq)
        exact (hmissed q p hxq hxp hmem hthere' hkept).symm
      · exact Option.some.inj (hkept.symm.trans ((hs.agrees x).trans hkept'))
  rw [hp, hq, Option.map_some, Option.map_some, htimes]

end Snapshot

/-- **Akin collections change alike.** -/
theorem Changes.akin_between {s s' n n' : Snapshot} (hs : s.Akin s') (hn : n.Akin n') :
    (between s n).Akin (between s' n') :=
  akin_merge hs.stamps hn.stamps

/-! ### Handles -/

namespace Loader

variable {l : Loader η α} {r : Path → Path} {paths paths' : List Path} {fs : Files}
  {s s' : Snapshot} {handles handles' : PathMap η} {p q : Path}

/-- Handles for one place that hold the same. -/
structure Akin (l : Loader η α) (y z : η) : Prop where
  key : (l.key y).same (l.key z) = true
  val : l.val y = l.val z

/-- What a map holds for a path is found there. -/
theorem Holds.found (h : l.Holds r fs handles p) : (fs.contentsOf? (r p)).isSome = true := by
  obtain ⟨y, -, -, hvalue⟩ := h
  obtain ⟨contents, hcontents, -⟩ := Option.bind_eq_some_iff.mp hvalue
  rw [hcontents]
  rfl

/-- Two maps that hold what there is to load for equal paths have akin handles. -/
theorem Holds.akin (hp : l.Holds r fs handles p) (hq : l.Holds r fs handles' q)
    (hr : ∀ p q : Path, p.same q = true → (r p).same (r q) = true) (hpq : p.same q = true) :
    Option.Rel l.Akin (handles.find? p) (handles'.find? p) := by
  obtain ⟨y, hy, hkey, hvalue⟩ := hp
  obtain ⟨z, hz, hkey', hvalue'⟩ := hq
  have hsame := hr p q hpq
  rw [PathMap.find?_congr hpq (m := handles'), hy, hz]
  exact .some ⟨Path.same_trans hkey (Path.same_trans hsame (Path.same_symm hkey')),
    value?_unique hsame hvalue hvalue'⟩

/-- The times in line with files are those of paths that are found. -/
theorem InLine.finds {x : Path} {time : Timestamp} (h : l.InLine r paths fs s handles)
    (htime : s.time? x = some time) : fs.Finds r paths x time := by
  rw [h.snapshot.time] at htime
  obtain ⟨p, hp, rfl⟩ := Option.map_eq_some_iff.mp htime
  exact ⟨p, mem_of_mention? hp, same_of_mention? hp, (h.listed x p hp).found, rfl⟩

/-- Two lists with the same paths, up to order and repetition, have akin handles in line with
them. -/
theorem InLine.akin (h : l.InLine r paths fs s handles) (h' : l.InLine r paths' fs s' handles')
    (hpaths : ∀ p, p ∈ paths ↔ p ∈ paths')
    (hr : ∀ p q : Path, p.same q = true → (r p).same (r q) = true) :
    handles.Akin l.Akin handles' ∧ s.Akin s' := by
  refine ⟨fun x => ?_, h.snapshot.sorted, h'.snapshot.sorted, fun x => ?_⟩
  · rcases Snapshot.mention?_cases hpaths x with ⟨hp, hq⟩ | ⟨p, q, hp, hq, hxp, hxq⟩
    · rw [h.others x hp, h'.others x hq]
      exact .none
    · rw [PathMap.find?_congr hxp, PathMap.find?_congr hxp]
      exact (h.listed x p hp).akin (h'.listed x q hq) hr
        (Path.same_trans (Path.same_symm hxp) hxq)
  · rw [h.snapshot.time, h'.snapshot.time]
    rcases Snapshot.mention?_cases hpaths x with ⟨hp, hq⟩ | ⟨p, q, hp, hq, hxp, hxq⟩
    · rw [hp, hq]
    · have hsame := hr p q (Path.same_trans (Path.same_symm hxp) hxq)
      have htime := Files.timeOf_unique hsame (h.listed x p hp).found (h'.listed x q hq).found
      rw [hp, hq, Option.map_some, Option.map_some, htime]

end Loader

/-! ### Assemblies -/

/-- Assemblies with akin handles and related units, for one engine. -/
structure Assembly.Akin (l : Loader η α) (U : υ → υ → Prop) (a b : Assembly η υ σ) : Prop where
  handles : a.handles.Akin l.Akin b.handles
  unit : U a.unit b.unit
  engine : a.engine = b.engine

/-- Akin handles do the same to related units. -/
def Loader.Relates (l : Loader η α) (U : υ → υ → Prop) (edit : η → υ → σ → υ × σ) : Prop :=
  ∀ y z u v e d, l.Akin y z → U u v → e = d →
    U (edit y u e).1 (edit z v d).1 ∧ (edit y u e).2 = (edit z v d).2

namespace Assembly

variable {l : Loader η α} {U : υ → υ → Prop} {add remove : η → υ → σ → υ × σ}
  {a b : Assembly η υ σ} {fresh fresh' : PathMap η} {p q : Path}

/-- Akin assemblies stay akin when equal paths are taken out. -/
theorem akin_take (hremove : l.Relates U remove) (h : a.Akin l U b) (hpq : p.same q = true) :
    (a.take remove p).Akin l U (b.take remove q) := by
  have hfind := h.handles.find? hpq
  rw [take, take]
  rcases ha : a.handles.find? p with _ | y <;> rcases hb : b.handles.find? q with _ | z <;>
    rw [ha, hb] at hfind
  · exact h
  · cases hfind
  · cases hfind
  · cases hfind with
    | some hyz =>
        obtain ⟨hunit, hengine⟩ := hremove y z _ _ _ _ hyz h.unit h.engine
        exact ⟨h.handles.erase hpq, hunit, hengine⟩

/-- They stay akin when equal paths are put in with akin handles. -/
theorem akin_put (hadd : l.Relates U add) (hremove : l.Relates U remove)
    (hfresh : fresh.Akin l.Akin fresh') (h : a.Akin l U b) (hpq : p.same q = true) :
    (a.put add remove fresh p).Akin l U (b.put add remove fresh' q) := by
  have hfind := hfresh.find? hpq
  rw [put, put]
  rcases ha : fresh.find? p with _ | y <;> rcases hb : fresh'.find? q with _ | z <;>
    rw [ha, hb] at hfind
  · exact h
  · cases hfind
  · cases hfind
  · cases hfind with
    | some hyz =>
        have htake := akin_take hremove h hpq
        obtain ⟨hunit, hengine⟩ := hadd y z _ _ _ _ hyz htake.unit htake.engine
        exact ⟨htake.handles.insert hpq hyz, hunit, hengine⟩

/-- An engine that keeps nothing for itself is left as it was. -/
theorem engine_apply (hadd : ∀ y u e, (add y u e).2 = e) (hremove : ∀ y u e, (remove y u e).2 = e)
    (changes : Changes) (fresh : PathMap η) (a : Assembly η υ σ) :
    (a.apply add remove changes fresh).engine = a.engine :=
  Assembly.apply_keeps (P := fun _ e => e = a.engine) (fun y u e he => (hadd y u e).trans he)
    (fun y u e he => (hremove y u e).trans he) changes fresh rfl

/-- **Akin assemblies stay akin** under akin changes. -/
theorem akin_apply {changes changes' : Changes} (hadd : l.Relates U add)
    (hremove : l.Relates U remove) (hfresh : fresh.Akin l.Akin fresh')
    (hchanges : changes.Akin changes') (h : a.Akin l U b) :
    (a.apply add remove changes fresh).Akin l U (b.apply add remove changes' fresh') := by
  have hput : ∀ {ps qs : List Path}, List.Forall₂ (fun p q => p.same q = true) ps qs →
      ∀ {a b : Assembly η υ σ}, a.Akin l U b →
        (ps.foldl (put add remove fresh) a).Akin l U (qs.foldl (put add remove fresh') b) := by
    intro ps qs hps
    induction hps with
    | nil => exact fun h => h
    | cons hpq _ ih => exact fun h => ih (akin_put hadd hremove hfresh h hpq)
  have htake : ∀ {ps qs : List Path}, List.Forall₂ (fun p q => p.same q = true) ps qs →
      ∀ {a b : Assembly η υ σ}, a.Akin l U b →
        (ps.foldl (take remove) a).Akin l U (qs.foldl (take remove) b) := by
    intro ps qs hps
    induction hps with
    | nil => exact fun h => h
    | cons hpq _ ih => exact fun h => ih (akin_take hremove h hpq)
  exact htake hchanges.removed (hput hchanges.touched h)

end Assembly

end IncrementalBuild
