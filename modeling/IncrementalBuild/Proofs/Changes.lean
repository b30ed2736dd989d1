import IncrementalBuild.Changes
import IncrementalBuild.Proofs.Snapshot
/-!
# What changed between two snapshots

Between two snapshots in path order, the merge finds exactly the paths of the new one only, the
paths of both with different times, and the paths of the old one only.

## Main results

* `Changes.merge_eq` — the three lists, as selections from the stamps.
* `Changes.isEmpty_iff_agrees`, `Changes.isMembershipUnchanged_iff_samePaths` — the two tests on
  changes say whether snapshots agree, and whether they have the same paths.
* `Changes.exists_changed_iff`, `Changes.exists_removed_iff`, `Changes.exists_touched_iff` — which
  paths the lists name.
-/

namespace IncrementalBuild.Changes

variable {olds news : List FileStamp} {old new : Snapshot} {p : Path}

/-- Stamps in strict path order. -/
abbrev Ascending (stamps : List FileStamp) : Prop :=
  stamps.Pairwise fun a b => a.path.before b.path = true

/-- What the new stamps have and the old ones lack. -/
def onlyIn (others stamps : List FileStamp) : List FileStamp :=
  stamps.filter fun r => (FileStamp.firstFor others r.path).isNone

/-- The new stamps whose paths the old ones show with another time. -/
def retimed (olds news : List FileStamp) : List FileStamp :=
  news.filter fun n => (FileStamp.firstFor olds n.path).any fun o => o.modified ≠ n.modified

/-! ### Looking past the first stamp -/

/-- A stamp that comes before all others says nothing about their paths. -/
theorem firstFor_cons_of_before {r s : FileStamp} {rest : List FileStamp}
    (h : r.path.before s.path = true) :
    FileStamp.firstFor (r :: rest) s.path = FileStamp.firstFor rest s.path := by
  refine FileStamp.firstFor_cons_other ?_
  rw [Path.same_comm]
  exact Path.same_eq_false_of_before h

/-- No stamp is for a path that comes before all of them. -/
theorem firstFor_eq_none_of_before {r : FileStamp} {rest : List FileStamp}
    (h : ∀ s ∈ rest, r.path.before s.path = true) : FileStamp.firstFor rest r.path = none :=
  FileStamp.firstFor_eq_none.mpr fun s hs => Path.same_eq_false_of_before (h s hs)

/-- A stamp that comes before all selected ones does not matter for what they lack. -/
theorem onlyIn_cons_of_before {r : FileStamp} {others stamps : List FileStamp}
    (h : ∀ s ∈ stamps, r.path.before s.path = true) :
    onlyIn (r :: others) stamps = onlyIn others stamps := by
  refine List.filter_congr fun s hs => ?_
  rw [firstFor_cons_of_before (h s hs)]

/-- A stamp that comes before all selected ones does not matter for their times. -/
theorem retimed_cons_of_before {o : FileStamp}
    (h : ∀ n ∈ news, o.path.before n.path = true) :
    retimed (o :: olds) news = retimed olds news := by
  refine List.filter_congr fun n hn => ?_
  rw [firstFor_cons_of_before (h n hn)]

/-- A stamp whose path the others have is not selected as new. -/
theorem onlyIn_cons_of_same {o n : FileStamp} {others stamps : List FileStamp}
    (h : n.path.same o.path = true) :
    onlyIn (o :: others) (n :: stamps) = onlyIn (o :: others) stamps := by
  rw [onlyIn, List.filter_cons_of_neg (by rw [FileStamp.firstFor_cons_same h]; simp), onlyIn]

/-- A stamp that comes before all others is selected as new. -/
theorem onlyIn_cons_of_first {n : FileStamp} {others stamps : List FileStamp}
    (h : ∀ s ∈ others, n.path.before s.path = true) :
    onlyIn others (n :: stamps) = n :: onlyIn others stamps := by
  rw [onlyIn, List.filter_cons_of_pos (by rw [firstFor_eq_none_of_before h]; rfl), onlyIn]

/-- A stamp that comes before all others shows no other time. -/
theorem retimed_cons_of_first {n : FileStamp}
    (h : ∀ o ∈ olds, n.path.before o.path = true) :
    retimed olds (n :: news) = retimed olds news := by
  rw [retimed, List.filter_cons_of_neg (by rw [firstFor_eq_none_of_before h]; simp), retimed]

/-- A stamp that comes before the first of stamps in path order comes before all of them. -/
theorem before_all_of_before {r s : FileStamp} {rest : List FileStamp}
    (hs : Ascending (s :: rest)) (h : r.path.before s.path = true) :
    ∀ x ∈ s :: rest, r.path.before x.path = true := by
  intro x hx
  rcases List.mem_cons.mp hx with rfl | hx
  · exact h
  · exact Path.before_trans h ((List.pairwise_cons.mp hs).1 x hx)

/-! ### The three lists -/

/-- **The merge.** Between stamps in path order it selects the paths that only the new ones have,
those with another time, and those that only the old ones have. -/
theorem merge_eq (ho : Ascending olds) (hn : Ascending news) :
    merge olds news =
      { added := (onlyIn olds news).map FileStamp.path
        changed := (retimed olds news).map FileStamp.path
        removed := (onlyIn news olds).map FileStamp.path } := by
  induction olds, news using merge.induct with
  | case1 news =>
      have h₁ : onlyIn [] news = news := List.filter_eq_self.mpr fun _ _ => rfl
      have h₂ : retimed [] news = [] := List.filter_eq_nil_iff.mpr fun _ _ => by
        simp [FileStamp.firstFor]
      rw [merge, h₁, h₂]
      rfl
  | case2 olds hne =>
      have h₁ : onlyIn [] olds = olds := List.filter_eq_self.mpr fun _ _ => rfl
      rw [merge, h₁]
      · rfl
      · exact hne
  | case3 o olds n news hsame htime ih =>
      obtain ⟨hoo, ho⟩ := List.pairwise_cons.mp ho
      obtain ⟨hnn, hn⟩ := List.pairwise_cons.mp hn
      have hon : ∀ s ∈ news, o.path.before s.path = true := fun s hs =>
        Path.before_congr_left hsame ▸ hnn s hs
      have hno : ∀ s ∈ olds, n.path.before s.path = true := fun s hs =>
        Path.before_congr_left hsame ▸ hoo s hs
      have hr : retimed (o :: olds) (n :: news) = retimed olds news := by
        rw [retimed, List.filter_cons_of_neg
          (by simp [FileStamp.firstFor_cons_same hsame, htime]), ← retimed,
          retimed_cons_of_before hon]
      rw [merge, if_pos hsame, if_pos htime, ih ho hn, onlyIn_cons_of_same hsame,
        onlyIn_cons_of_before hon, hr, onlyIn_cons_of_same (Path.same_symm hsame),
        onlyIn_cons_of_before hno]
  | case4 o olds n news hsame htime ih =>
      obtain ⟨hoo, ho⟩ := List.pairwise_cons.mp ho
      obtain ⟨hnn, hn⟩ := List.pairwise_cons.mp hn
      have hon : ∀ s ∈ news, o.path.before s.path = true := fun s hs =>
        Path.before_congr_left hsame ▸ hnn s hs
      have hno : ∀ s ∈ olds, n.path.before s.path = true := fun s hs =>
        Path.before_congr_left hsame ▸ hoo s hs
      have hr : retimed (o :: olds) (n :: news) = n :: retimed olds news := by
        rw [retimed, List.filter_cons_of_pos
          (by simp [FileStamp.firstFor_cons_same hsame, Ne.symm htime]), ← retimed,
          retimed_cons_of_before hon]
      rw [merge, if_pos hsame, if_neg htime, ih ho hn, onlyIn_cons_of_same hsame,
        onlyIn_cons_of_before hon, hr, onlyIn_cons_of_same (Path.same_symm hsame),
        onlyIn_cons_of_before hno]
      rfl
  | case5 o olds n news hsame hbefore ih =>
      obtain ⟨hnn, hn⟩ := List.pairwise_cons.mp hn
      have hno := before_all_of_before ho hbefore
      rw [merge, if_neg hsame, if_pos hbefore, ih ho hn, onlyIn_cons_of_first hno,
        retimed_cons_of_first hno, onlyIn_cons_of_before hno]
      rfl
  | case6 o olds n news hsame hbefore ih =>
      obtain ⟨hoo, ho⟩ := List.pairwise_cons.mp ho
      have hon := before_all_of_before hn <| Path.before_of_not_before
        (Bool.eq_false_iff.mpr hsame) (Bool.eq_false_iff.mpr hbefore)
      rw [merge, if_neg hsame, if_neg hbefore, ih ho hn, onlyIn_cons_of_before hon,
        retimed_cons_of_before hon, onlyIn_cons_of_first hon]
      rfl

/-- From a list of stamps to itself nothing changes. -/
theorem merge_self (stamps : List FileStamp) : merge stamps stamps = {} := by
  induction stamps with
  | nil => rw [merge]; rfl
  | cons r rest ih => rw [merge, if_pos (Path.same_refl r.path), if_pos rfl, ih]

/-! ### Between snapshots -/

/-- From a snapshot to itself nothing changes. -/
theorem between_self (s : Snapshot) : between s s = {} := merge_self s.stamps

/-- Every snapshot shows its own stamps. -/
theorem time?_of_mem {s : Snapshot} {r : FileStamp} (hs : s.Sorted) (hr : r ∈ s.stamps)
    (h : p.same r.path = true) : s.time? p = some r.modified := by
  rw [Snapshot.time?_congr s h, Snapshot.time?, Snapshot.stamp?_of_mem hs hr]
  rfl

/-- A path is named by the stamps that others lack when one snapshot shows it and the other
does not. -/
theorem exists_onlyIn_iff {a b : Snapshot} :
    (∃ q ∈ (onlyIn a.stamps b.stamps).map FileStamp.path, p.same q = true) ↔
      a.time? p = none ∧ (b.time? p).isSome = true := by
  simp only [List.mem_map, exists_exists_and_eq_and, onlyIn, List.mem_filter,
    Option.isNone_iff_eq_none]
  constructor
  · rintro ⟨r, ⟨hr, hnone⟩, hsame⟩
    refine ⟨?_, Snapshot.time?_isSome_iff.mpr ⟨r, hr, hsame⟩⟩
    rw [Snapshot.time?, Snapshot.stamp?, FileStamp.firstFor_congr _ hsame, hnone]
    rfl
  · rintro ⟨hnone, hsome⟩
    obtain ⟨r, hr, hsame⟩ := Snapshot.time?_isSome_iff.mp hsome
    refine ⟨r, ⟨hr, ?_⟩, hsame⟩
    rw [Snapshot.time?, Option.map_eq_none_iff] at hnone
    rw [← hnone, Snapshot.stamp?, FileStamp.firstFor_congr _ hsame]

/-- **Added.** The added paths are those that only the new snapshot has. -/
theorem exists_added_iff (ho : old.Sorted) (hn : new.Sorted) :
    (∃ q ∈ (between old new).added, p.same q = true) ↔
      old.time? p = none ∧ (new.time? p).isSome = true := by
  rw [between, merge_eq ho hn]
  exact exists_onlyIn_iff

/-- **Removed.** The removed paths are those that only the old snapshot has. -/
theorem exists_removed_iff (ho : old.Sorted) (hn : new.Sorted) :
    (∃ q ∈ (between old new).removed, p.same q = true) ↔
      new.time? p = none ∧ (old.time? p).isSome = true := by
  rw [between, merge_eq ho hn]
  exact exists_onlyIn_iff

/-- **Changed.** The changed paths are those that both snapshots have, with different times. -/
theorem exists_changed_iff (ho : old.Sorted) (hn : new.Sorted) :
    (∃ q ∈ (between old new).changed, p.same q = true) ↔
      ∃ t u, old.time? p = some t ∧ new.time? p = some u ∧ t ≠ u := by
  rw [between, merge_eq ho hn]
  simp only [List.mem_map, exists_exists_and_eq_and, retimed, List.mem_filter, Option.any_eq_true,
    decide_eq_true_eq]
  constructor
  · rintro ⟨r, ⟨hr, o, hfirst, hne⟩, hsame⟩
    refine ⟨o.modified, r.modified, ?_, time?_of_mem hn hr hsame, hne⟩
    rw [Snapshot.time?, Snapshot.stamp?, FileStamp.firstFor_congr _ hsame, hfirst]
    rfl
  · rintro ⟨t, u, hold, hnew, hne⟩
    obtain ⟨r, hr, hsame⟩ := Snapshot.time?_isSome_iff.mp (Option.isSome_of_eq_some hnew)
    rw [Snapshot.time?_congr old hsame, Snapshot.time?, Option.map_eq_some_iff] at hold
    obtain ⟨o, hfirst, rfl⟩ := hold
    rw [time?_of_mem hn hr hsame] at hnew
    obtain rfl := Option.some.inj hnew
    exact ⟨r, ⟨hr, o, hfirst, hne⟩, hsame⟩

/-- **Touched.** The touched paths are those of the new snapshot that the old one does not show
with the same time. -/
theorem exists_touched_iff (ho : old.Sorted) (hn : new.Sorted) :
    (∃ q ∈ (between old new).touched, p.same q = true) ↔
      (new.time? p).isSome = true ∧ old.time? p ≠ new.time? p := by
  simp only [touched, List.mem_append, or_and_right, exists_or]
  rw [exists_added_iff ho hn, exists_changed_iff ho hn]
  constructor
  · rintro (⟨hnone, hsome⟩ | ⟨t, u, hold, hnew, hne⟩)
    · refine ⟨hsome, fun heq => ?_⟩
      rw [← heq, hnone] at hsome
      exact Bool.false_ne_true hsome
    · rw [hold, hnew]
      exact ⟨rfl, fun heq => hne (Option.some.inj heq)⟩
  · rintro ⟨hsome, hne⟩
    obtain ⟨u, hu⟩ := Option.isSome_iff_exists.mp hsome
    rcases hold : old.time? p with _ | t
    · exact .inl ⟨rfl, hsome⟩
    · refine .inr ⟨t, u, rfl, hu, fun htu => hne ?_⟩
      rw [hold, hu, htu]

/-- A touched path is spelled as the new snapshot spells it. -/
theorem exists_stamp_of_mem_touched (ho : old.Sorted) (hn : new.Sorted)
    (h : p ∈ (between old new).touched) : ∃ r ∈ new.stamps, r.path = p := by
  rw [between, merge_eq ho hn] at h
  rcases List.mem_append.mp h with h | h
  · obtain ⟨r, hr, rfl⟩ := List.mem_map.mp h
    exact ⟨r, (List.mem_filter.mp hr).1, rfl⟩
  · obtain ⟨r, hr, rfl⟩ := List.mem_map.mp h
    exact ⟨r, (List.mem_filter.mp hr).1, rfl⟩

/-- A list of paths is empty when it names no path. -/
theorem isEmpty_iff_forall (paths : List Path) :
    paths.isEmpty = true ↔ ∀ p : Path, ¬ ∃ q ∈ paths, p.same q = true := by
  rw [List.isEmpty_iff]
  constructor
  · rintro rfl p ⟨q, hq, -⟩
    exact List.not_mem_nil hq
  · intro h
    refine List.eq_nil_iff_forall_not_mem.mpr fun q hq => ?_
    exact h q ⟨q, hq, Path.same_refl q⟩

/-- **Membership.** No path was added or removed exactly when the snapshots have the same
paths. -/
theorem isMembershipUnchanged_iff_samePaths (ho : old.Sorted) (hn : new.Sorted) :
    (between old new).isMembershipUnchanged = true ↔ old.SamePaths new := by
  rw [isMembershipUnchanged, Bool.and_eq_true, isEmpty_iff_forall, isEmpty_iff_forall]
  simp only [exists_added_iff ho hn, exists_removed_iff ho hn]
  constructor
  · rintro ⟨hadded, hremoved⟩ p
    rcases hold : old.time? p with _ | t <;> rcases hnew : new.time? p with _ | u
    · rfl
    · exact absurd ⟨hold, by rw [hnew]; rfl⟩ (hadded p)
    · exact absurd ⟨hnew, by rw [hold]; rfl⟩ (hremoved p)
    · rfl
  · intro h
    constructor
    · rintro p ⟨hnone, hsome⟩
      rw [← h p, hnone] at hsome
      exact Bool.false_ne_true hsome
    · rintro p ⟨hnone, hsome⟩
      rw [h p, hnone] at hsome
      exact Bool.false_ne_true hsome

/-- **Emptiness.** Nothing changed exactly when the snapshots agree. -/
theorem isEmpty_iff_agrees (ho : old.Sorted) (hn : new.Sorted) :
    (between old new).isEmpty = true ↔ old.Agrees new := by
  have hsplit : (between old new).isEmpty = true ↔
      (between old new).isMembershipUnchanged = true ∧
        (between old new).changed.isEmpty = true := by
    simp only [isEmpty, isMembershipUnchanged, Bool.and_eq_true]
    exact and_right_comm
  rw [hsplit, isMembershipUnchanged_iff_samePaths ho hn, isEmpty_iff_forall]
  simp only [exists_changed_iff ho hn]
  constructor
  · rintro ⟨hsame, hchanged⟩ p
    have hs := hsame p
    rcases hold : old.time? p with _ | t <;> rcases hnew : new.time? p with _ | u
    · rfl
    · simp [hold, hnew] at hs
    · simp [hold, hnew] at hs
    · by_contra hne
      exact hchanged p ⟨t, u, hold, hnew, fun htu => hne (by rw [htu])⟩
  · intro h
    refine ⟨h.samePaths, ?_⟩
    rintro p ⟨t, u, hold, hnew, hne⟩
    rw [h p, hnew] at hold
    exact hne (Option.some.inj hold).symm

end IncrementalBuild.Changes
