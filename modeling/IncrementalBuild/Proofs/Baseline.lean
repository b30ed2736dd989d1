import IncrementalBuild.Proofs.Changes
/-!
# What a baseline answers

A baseline is asked for the changes to a collection, is given a collection to compare with, or both
at once. However these calls are mixed, it compares with the collection that was committed last, and
what it answers is exactly the difference: paths are told apart by their components, of stamps for
equal paths the first one counts, and any two times that differ are a change.

## Main definitions

* `Changes.Exact` — changes that are the difference between two lists of stamps.
* `Baseline.Call`, `Baseline.after` — the calls of a baseline, and what they lead to.
* `Baseline.lastCommitted` — the stamps that were committed last.

## Main results

* `Changes.exact_between` — the changes between the snapshots of stamps are their difference.
* `Baseline.answer_exact` — what a baseline answers after any calls.
* `Reverted.going_back_is_a_change` — a file that shows an earlier time under another spelling.
-/

namespace IncrementalBuild

/-- Changes that are exactly the difference between an old and a new list of stamps, in any order
and with any repetitions. -/
structure Changes.Exact (olds news : List FileStamp) (c : Changes) : Prop where
  /-- The added paths are those that only the new stamps name. -/
  added : ∀ p : Path, (∃ q ∈ c.added, p.same q = true) ↔
    FileStamp.firstFor olds p = none ∧ (FileStamp.firstFor news p).isSome = true
  /-- The removed paths are those that only the old stamps name. -/
  removed : ∀ p : Path, (∃ q ∈ c.removed, p.same q = true) ↔
    FileStamp.firstFor news p = none ∧ (FileStamp.firstFor olds p).isSome = true
  /-- The changed paths are those that both name with different times. -/
  changed : ∀ p : Path, (∃ q ∈ c.changed, p.same q = true) ↔
    ∃ a b, FileStamp.firstFor olds p = some a ∧ FileStamp.firstFor news p = some b ∧
      a.modified ≠ b.modified
  /-- No path is in two of the lists. -/
  apart : (∀ p ∈ c.added, ∀ q ∈ c.changed, p.same q = false) ∧
    (∀ p ∈ c.added, ∀ q ∈ c.removed, p.same q = false) ∧
    ∀ p ∈ c.changed, ∀ q ∈ c.removed, p.same q = false
  /-- Each list is in strict path order. -/
  ascending : c.added.Pairwise (fun p q => p.before q = true) ∧
    c.changed.Pairwise (fun p q => p.before q = true) ∧
    c.removed.Pairwise (fun p q => p.before q = true)
  /-- Added and changed paths are spelled as the new stamps first spell them, removed ones as the
  old stamps do. -/
  spelled : (∀ p ∈ c.added, (FileStamp.firstFor news p).map FileStamp.path = some p) ∧
    (∀ p ∈ c.changed, (FileStamp.firstFor news p).map FileStamp.path = some p) ∧
    ∀ p ∈ c.removed, (FileStamp.firstFor olds p).map FileStamp.path = some p
  /-- Nothing changed exactly when both show the same paths with the same times. -/
  isEmpty_iff : c.isEmpty = true ↔ ∀ p : Path,
    (FileStamp.firstFor olds p).map FileStamp.modified =
      (FileStamp.firstFor news p).map FileStamp.modified
  /-- The membership is unchanged exactly when both show the same paths. -/
  isMembershipUnchanged_iff : c.isMembershipUnchanged = true ↔ ∀ p : Path,
    (FileStamp.firstFor olds p).isSome = (FileStamp.firstFor news p).isSome

namespace Changes

variable {old new : Snapshot} {olds news : List FileStamp} {p : Path}

/-! ### The lists of a difference -/

/-- The paths of selected stamps of a snapshot are in strict path order. -/
theorem pairwise_path_filter (hs : new.Sorted) (keep : FileStamp → Bool) :
    ((new.stamps.filter keep).map FileStamp.path).Pairwise fun p q => p.before q = true :=
  List.pairwise_map.mpr (hs.sublist List.filter_sublist)

/-- Each list of the changes between two snapshots is in strict path order. -/
theorem pairwise_between (ho : old.Sorted) (hn : new.Sorted) :
    (between old new).added.Pairwise (fun p q => p.before q = true) ∧
      (between old new).changed.Pairwise (fun p q => p.before q = true) ∧
      (between old new).removed.Pairwise (fun p q => p.before q = true) := by
  rw [between, merge_eq ho hn]
  exact ⟨pairwise_path_filter hn _, pairwise_path_filter hn _, pairwise_path_filter ho _⟩

/-- The paths of selected stamps of a snapshot are spelled as the snapshot spells them. -/
theorem stamp?_of_mem_filter (hs : new.Sorted) {keep : FileStamp → Bool}
    (h : p ∈ (new.stamps.filter keep).map FileStamp.path) :
    (new.stamp? p).map FileStamp.path = some p := by
  obtain ⟨r, hr, rfl⟩ := List.mem_map.mp h
  rw [Snapshot.stamp?_of_mem hs (List.mem_filter.mp hr).1]
  rfl

/-- The changes between two snapshots are spelled as the new one spells them; what was removed, as
the old one does. -/
theorem spelled_between (ho : old.Sorted) (hn : new.Sorted) :
    (∀ p ∈ (between old new).added, (new.stamp? p).map FileStamp.path = some p) ∧
      (∀ p ∈ (between old new).changed, (new.stamp? p).map FileStamp.path = some p) ∧
      ∀ p ∈ (between old new).removed, (old.stamp? p).map FileStamp.path = some p := by
  rw [between, merge_eq ho hn]
  exact ⟨fun p hp => stamp?_of_mem_filter hn hp, fun p hp => stamp?_of_mem_filter hn hp,
    fun p hp => stamp?_of_mem_filter ho hp⟩

/-- Two lists of paths have none in common when no path is named by both. -/
theorem apart_of_forall {a b : List Path}
    (h : ∀ p : Path, (∃ q ∈ a, p.same q = true) → ¬ ∃ q ∈ b, p.same q = true) :
    ∀ p ∈ a, ∀ q ∈ b, p.same q = false := by
  intro p hp q hq
  rw [Bool.eq_false_iff]
  exact fun hsame => h p ⟨p, hp, Path.same_refl p⟩ ⟨q, hq, hsame⟩

/-- No path is in two lists of the changes between two snapshots. -/
theorem lists_apart_between (ho : old.Sorted) (hn : new.Sorted) :
    (∀ p ∈ (between old new).added, ∀ q ∈ (between old new).changed, p.same q = false) ∧
      (∀ p ∈ (between old new).added, ∀ q ∈ (between old new).removed, p.same q = false) ∧
      ∀ p ∈ (between old new).changed, ∀ q ∈ (between old new).removed, p.same q = false := by
  refine ⟨apart_of_forall fun p => ?_, apart_of_forall fun p => ?_, apart_of_forall fun p => ?_⟩
  · rw [exists_added_iff ho hn, exists_changed_iff ho hn]
    rintro ⟨hnone, -⟩ ⟨a, b, hsome, -, -⟩
    rw [hnone] at hsome
    exact absurd hsome (by simp)
  · rw [exists_added_iff ho hn, exists_removed_iff ho hn]
    rintro ⟨hnone, -⟩ ⟨-, hsome⟩
    rw [hnone] at hsome
    exact absurd hsome (by simp)
  · rw [exists_changed_iff ho hn, exists_removed_iff ho hn]
    rintro ⟨a, b, -, hsome, -⟩ ⟨hnone, -⟩
    rw [hnone] at hsome
    exact absurd hsome (by simp)

/-- **Difference.** The changes between the snapshots of two lists of stamps are the difference
between the lists. -/
theorem exact_between (olds news : List FileStamp) :
    (between (.ofStamps olds) (.ofStamps news)).Exact olds news := by
  have ho := Snapshot.sorted_ofStamps olds
  have hn := Snapshot.sorted_ofStamps news
  have htime : ∀ (stamps : List FileStamp) (p : Path), (Snapshot.ofStamps stamps).time? p =
      (FileStamp.firstFor stamps p).map FileStamp.modified := by
    intro stamps p
    rw [Snapshot.time?, Snapshot.stamp?_ofStamps]
  have hspelled := spelled_between ho hn
  simp only [Snapshot.stamp?_ofStamps] at hspelled
  refine ⟨fun p => ?_, fun p => ?_, fun p => ?_, lists_apart_between ho hn, pairwise_between ho hn,
    hspelled, ?_, ?_⟩
  · rw [exists_added_iff ho hn, htime, htime, Option.map_eq_none_iff, Option.isSome_map]
  · rw [exists_removed_iff ho hn, htime, htime, Option.map_eq_none_iff, Option.isSome_map]
  · rw [exists_changed_iff ho hn]
    simp only [htime, Option.map_eq_some_iff]
    constructor
    · rintro ⟨_, _, ⟨a, ha, rfl⟩, ⟨b, hb, rfl⟩, hne⟩
      exact ⟨a, b, ha, hb, hne⟩
    · rintro ⟨a, b, ha, hb, hne⟩
      exact ⟨_, _, ⟨a, ha, rfl⟩, ⟨b, hb, rfl⟩, hne⟩
  · rw [isEmpty_iff_agrees ho hn]
    simp only [Snapshot.Agrees, htime]
  · rw [isMembershipUnchanged_iff_samePaths ho hn]
    simp only [Snapshot.SamePaths, htime, Option.isSome_map]

end Changes

/-! ### Calls -/

namespace Baseline

/-- A call of a baseline, with the stamps of a collection. -/
inductive Call
  /-- Asks for the changes to a collection. -/
  | preview (stamps : List FileStamp)
  /-- Gives a collection to compare with. -/
  | commit (stamps : List FileStamp)
  /-- Asks for the changes to a collection and gives it to compare with. -/
  | update (stamps : List FileStamp)

namespace Call

/-- What a call answers, and the baseline that it leaves. -/
def run : Call → Baseline → Option Changes × Baseline
  | preview stamps, b => (some (b.changesTo (.ofStamps stamps)), b)
  | commit stamps, b => (none, b.commit (.ofStamps stamps))
  | update stamps, b => ((b.advance (.ofStamps stamps)).1, (b.advance (.ofStamps stamps)).2)

/-- The stamps that a call commits. -/
def committed? : Call → Option (List FileStamp)
  | preview _ => none
  | commit stamps => some stamps
  | update stamps => some stamps

end Call

/-- The baseline after calls, the last one first. -/
def after : List Call → Baseline
  | [] => {}
  | c :: earlier => (c.run (after earlier)).2

/-- The stamps that calls committed last. -/
def lastCommitted (calls : List Call) : Option (List FileStamp) :=
  calls.findSome? Call.committed?

/-- **Run.** What a baseline compares with is the snapshot of the stamps that were committed
last. -/
theorem committed_after (calls : List Call) :
    (after calls).committed = (lastCommitted calls).map Snapshot.ofStamps := by
  induction calls with
  | nil => rfl
  | cons c earlier ih =>
      cases c with
      | preview stamps =>
          rw [after, lastCommitted, List.findSome?_cons]
          exact ih
      | commit stamps => rfl
      | update stamps => rfl

/-- Calls lead from equal baselines to equal ones. -/
theorem after_append_congr {a b : List Call} (h : after a = after b) (later : List Call) :
    after (later ++ a) = after (later ++ b) := by
  induction later with
  | nil => exact h
  | cons c rest ih => rw [List.cons_append, List.cons_append, after, after, ih]

/-- **Exact answers.** However a baseline was called before, it answers with the changes to a
collection whether or not it also commits the collection. There are none before anything was
committed; after that they are exactly the difference to what was committed last. A call that only
asks, at whatever point, has no effect on any later call. -/
theorem answer_exact (earlier : List Call) (news : List FileStamp) :
    (∃ changes, (Call.preview news).run (after earlier) = (some changes, after earlier) ∧
      (Call.update news).run (after earlier) = (some changes, after (.commit news :: earlier)) ∧
      (lastCommitted earlier = none → changes = {}) ∧
      ∀ olds, lastCommitted earlier = some olds → changes.Exact olds news) ∧
    ∀ (later : List Call) (c : Call),
      c.run (after (later ++ .preview news :: earlier)) = c.run (after (later ++ earlier)) := by
  have hcommitted := committed_after earlier
  refine ⟨⟨(after earlier).changesTo (.ofStamps news), rfl, rfl, fun hnone => ?_,
    fun olds holds => ?_⟩, fun later c => ?_⟩
  · rw [hnone] at hcommitted
    rw [changesTo, hcommitted]
    rfl
  · rw [holds] at hcommitted
    rw [changesTo, hcommitted]
    exact Changes.exact_between olds news
  · have hpreview : after (.preview news :: earlier) = after earlier := rfl
    rw [after_append_congr hpreview later]

end Baseline

/-! ### A file that goes back in time -/

namespace Reverted

/-- The stamps that are committed: one path is spelled in two ways. -/
def olds : List FileStamp := [⟨⟨"b/c"⟩, ⟨2⟩⟩, ⟨⟨"b/./c"⟩, ⟨1⟩⟩, ⟨⟨"a"⟩, ⟨1⟩⟩]

/-- The stamps that are asked about next: the path has a third spelling, and an earlier time. -/
def news : List FileStamp := [⟨⟨"d"⟩, ⟨1⟩⟩, ⟨⟨"b//c"⟩, ⟨1⟩⟩]

/-- The file that went back in time is a change, although someone asked about it before. -/
theorem going_back_is_a_change :
    ∃ changes, (Baseline.Call.preview news).run
        (Baseline.after [.preview news, .commit olds]) =
          (some changes, Baseline.after [.preview news, .commit olds]) ∧
      changes.Exact olds news ∧ ∃ q ∈ changes.changed, Path.same ⟨"b/c"⟩ q = true := by
  obtain ⟨⟨changes, hpreview, -, -, hexact⟩, -⟩ :=
    Baseline.answer_exact [.preview news, .commit olds] news
  have hchanges : changes.Exact olds news := hexact olds rfl
  refine ⟨changes, hpreview, hchanges, (hchanges.changed ⟨"b/c"⟩).mpr ?_⟩
  exact ⟨⟨⟨"b/c"⟩, ⟨2⟩⟩, ⟨⟨"b//c"⟩, ⟨1⟩⟩, by decide +kernel, by decide +kernel, by decide⟩

end Reverted
end IncrementalBuild
