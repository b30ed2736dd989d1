import IncrementalBuild.Proofs.Path.Comparison
import IncrementalBuild.Proofs.Path.Keys
import IncrementalBuild.Proofs.Snapshot
/-!
# Snapshots as canonical forms

The snapshot of stamps is their canonical form. It has the first stamp of every path and no other,
in strict order, and there is one list only of which this is true. So the order of stamps for
different paths does not matter, nor does taking the snapshot of a snapshot change anything.

What counts here as one path is said by the spellings that lead to each other, and the order by
comparing components, not by the keys that stamps are sorted by.

## Main definitions

* `FileStamp.FirstIn`, `FileStamp.Apart` — the first stamp for its path, and stamps for different
  paths.
* `Snapshot.Canonical` — the canonical form of stamps.

## Main results

* `Snapshot.Canonical.eq` — stamps have one canonical form.
* `Snapshot.ofStamps_canonicalizes` — it is their snapshot, in whatever order they come.
-/

namespace IncrementalBuild

/-- A stamp is the first one for its path: no stamp before it spells that path. -/
def FileStamp.FirstIn (stamps : List FileStamp) (r : FileStamp) : Prop :=
  ∃ before after, stamps = before ++ r :: after ∧ ∀ d ∈ before, ¬ r.path.Respelled d.path

/-- Stamps of which no two are for one path. -/
def FileStamp.Apart (stamps : List FileStamp) : Prop :=
  stamps.Pairwise fun a b => ¬ a.path.Respelled b.path

/-- The canonical form of stamps. -/
structure Snapshot.Canonical (stamps : List FileStamp) (s : Snapshot) : Prop where
  /-- The stamps are in strict order by the components of their paths. -/
  ascending : s.stamps.Pairwise fun a b => a.path.Precedes b.path
  /-- No two of them are for one path. -/
  apart : FileStamp.Apart s.stamps
  /-- They are those that are the first ones for their paths, with spelling and time. -/
  firsts : ∀ r, r ∈ s.stamps ↔ FileStamp.FirstIn stamps r
  /-- Every path has one. -/
  covers : ∀ d ∈ stamps, ∃ r ∈ s.stamps, d.path.Respelled r.path

variable {stamps others : List FileStamp} {r : FileStamp} {p : Path}

/-! ### First stamps -/

namespace FileStamp

/-- The first stamp for a path is the first one for its own. -/
theorem firstFor_eq_some_iff (stamps : List FileStamp) :
    firstFor stamps p = some r ↔ p.same r.path = true ∧ firstFor stamps r.path = some r := by
  constructor
  · intro h
    have hsame : p.same r.path = true := by simpa using List.find?_some h
    exact ⟨hsame, firstFor_congr stamps hsame ▸ h⟩
  · rintro ⟨hsame, h⟩
    rw [firstFor_congr stamps hsame, h]

/-- A stamp is the first one for its path when it is found there. -/
theorem firstIn_iff : FirstIn stamps r ↔ firstFor stamps r.path = some r := by
  simp only [FirstIn, firstFor, List.find?_eq_some_iff_append, Path.same_refl, true_and,
    Path.not_respelled_iff, Bool.not_eq_true']

/-- Among stamps that are apart, every one is the first for its path. -/
theorem Apart.firstIn_iff_mem (h : Apart stamps) : FirstIn stamps r ↔ r ∈ stamps := by
  constructor
  · rintro ⟨before, after, rfl, -⟩
    exact List.mem_append_right before List.mem_cons_self
  · intro hr
    obtain ⟨before, after, rfl⟩ := List.append_of_mem hr
    refine ⟨before, after, rfl, fun d hd hrd => ?_⟩
    exact (List.pairwise_append.mp h).2.2 d hd r List.mem_cons_self (hrd.symm _ _)

/-- Stamps are apart when their paths are. -/
theorem apart_iff : Apart stamps ↔ Path.Apart (stamps.map FileStamp.path) := by
  simp only [Apart, Path.Apart, List.Nodup, List.pairwise_map, Path.respelled_iff_same,
    Path.same_iff, ne_eq]

/-- The order does not matter for being apart. -/
theorem Apart.perm (h : Apart stamps) (hperm : stamps.Perm others) : Apart others :=
  apart_iff.mpr ((apart_iff.mp h).perm (hperm.map FileStamp.path))

end FileStamp

namespace Snapshot

variable {s : Snapshot}

/-! ### The canonical form -/

/-- Stamps in strict order by components are in path order. -/
theorem ascending_iff_sorted :
    (s.stamps.Pairwise fun a b => a.path.Precedes b.path) ↔ s.Sorted := by
  simp only [Sorted, Path.precedes_iff_before]

/-- In path order no two stamps are for one path. -/
theorem Sorted.apart_stamps (h : s.Sorted) : FileStamp.Apart s.stamps :=
  (ascending_iff_sorted.mpr h).imp fun hab => hab.not_respelled

/-- Stamps that have the same first ones have one snapshot. -/
theorem ofStamps_congr (h : ∀ r, FileStamp.FirstIn stamps r ↔ FileStamp.FirstIn others r) :
    ofStamps stamps = ofStamps others := by
  refine eq_of_stamp? (sorted_ofStamps _) (sorted_ofStamps _) fun p => ?_
  rw [stamp?_ofStamps, stamp?_ofStamps]
  refine Option.ext fun r => ?_
  rw [FileStamp.firstFor_eq_some_iff stamps, FileStamp.firstFor_eq_some_iff others,
    ← FileStamp.firstIn_iff, ← FileStamp.firstIn_iff, h]

/-- The stamps of a snapshot are the first ones for their paths. -/
theorem mem_ofStamps_iff : r ∈ (ofStamps stamps).stamps ↔ FileStamp.FirstIn stamps r := by
  rw [mem_stamps_iff (sorted_ofStamps stamps), stamp?_ofStamps, FileStamp.firstIn_iff]

/-- Every path of the stamps is in their snapshot. -/
theorem exists_mem_ofStamps {d : FileStamp} (hd : d ∈ stamps) :
    ∃ r ∈ (ofStamps stamps).stamps, d.path.Respelled r.path := by
  have hsome : ((ofStamps stamps).time? d.path).isSome = true := by
    rw [time?, Option.isSome_map, stamp?_ofStamps, FileStamp.firstFor, List.find?_isSome]
    exact ⟨d, hd, Path.same_refl _⟩
  obtain ⟨r, hr, hsame⟩ := time?_isSome_iff.mp hsome
  exact ⟨r, hr, Path.respelled_iff_same.mpr hsame⟩

/-- The snapshot of stamps is their canonical form. -/
theorem canonical_ofStamps (stamps : List FileStamp) : (ofStamps stamps).Canonical stamps where
  ascending := ascending_iff_sorted.mpr (sorted_ofStamps stamps)
  apart := (sorted_ofStamps stamps).apart_stamps
  firsts _ := mem_ofStamps_iff
  covers _ := exists_mem_ofStamps

/-- **Uniqueness.** Stamps have one canonical form. -/
theorem Canonical.eq (h : s.Canonical stamps) : s = ofStamps stamps := by
  have hs := ascending_iff_sorted.mp h.ascending
  calc s = ofStamps s.stamps := (ofStamps_stamps hs).symm
    _ = ofStamps stamps := ofStamps_congr fun r => by rw [h.apart.firstIn_iff_mem, h.firsts]

/-- Stamps that are apart have one snapshot in any order. -/
theorem ofStamps_perm (h : FileStamp.Apart stamps) (hperm : stamps.Perm others) :
    ofStamps others = ofStamps stamps :=
  ofStamps_congr fun r => by
    rw [(h.perm hperm).firstIn_iff_mem, h.firstIn_iff_mem, hperm.mem_iff]

/-- **Canonical form.** The snapshot of stamps is their one canonical form: it has the first stamp
of every path and no other, in strict order. The order of stamps for different paths does not
matter, and a snapshot is the snapshot of its own stamps. -/
theorem ofStamps_canonicalizes (stamps : List FileStamp) :
    (ofStamps stamps).Canonical stamps ∧
      (∀ s : Snapshot, s.Canonical stamps → s = ofStamps stamps) ∧
      (FileStamp.Apart stamps → ∀ others, stamps.Perm others →
        ofStamps others = ofStamps stamps) ∧
      ofStamps (ofStamps stamps).stamps = ofStamps stamps :=
  ⟨canonical_ofStamps stamps, fun _ h => h.eq, fun h _ => ofStamps_perm h,
    ofStamps_stamps (sorted_ofStamps stamps)⟩

end Snapshot

namespace Jumbled

/-- Stamps for five paths, the last one first. By their texts, the first two would stand the other
way round. -/
def folder : List FileStamp :=
  [⟨⟨"src-x.cs"⟩, ⟨3⟩⟩, ⟨⟨"src//b.cs"⟩, ⟨7⟩⟩, ⟨⟨"a.cs"⟩, ⟨1⟩⟩, ⟨⟨"./a.cs"⟩, ⟨-2⟩⟩, ⟨⟨"/a.cs"⟩, ⟨4⟩⟩]

/-- Later stamps for two of the paths in other spellings. -/
def again : List FileStamp := [⟨⟨"src/./b.cs"⟩, ⟨9⟩⟩, ⟨⟨"//a.cs/"⟩, ⟨5⟩⟩]

/-- The order of the stamps does not show in the snapshot, nor do later ones in other spellings. -/
theorem first_stamps_in_order :
    FileStamp.Apart folder ∧
      Snapshot.ofStamps folder.reverse = Snapshot.ofStamps folder ∧
      (Snapshot.ofStamps (folder ++ again)).Canonical (folder ++ again) ∧
      Snapshot.ofStamps (folder ++ again) = ⟨folder.reverse⟩ := by
  have hnodup : ((folder.map FileStamp.path).map Path.components).Nodup := by decide
  have hapart : FileStamp.Apart folder := FileStamp.apart_iff.mpr hnodup
  refine ⟨hapart, ?_, (Snapshot.ofStamps_canonicalizes (folder ++ again)).1, ?_⟩
  · exact (Snapshot.ofStamps_canonicalizes folder).2.2.1 hapart _ (List.reverse_perm folder).symm
  · rw [Snapshot.ofStamps_eq_insertionSort]
    decide

end Jumbled
end IncrementalBuild
