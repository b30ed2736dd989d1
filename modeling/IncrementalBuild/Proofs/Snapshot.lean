import IncrementalBuild.Proofs.Path.Order
import IncrementalBuild.Snapshot
import Mathlib.Data.List.Sort
/-!
# What a snapshot says

A snapshot is known from what it says of every path: the stamp it has for it, if any. Taking a
snapshot of stamps keeps what they say, where of stamps for equal paths the first one counts, and
puts them in path order with no two for equal paths.

## Main definitions

* `Snapshot.stamp?`, `Snapshot.time?` — the stamp and the time of a path.
* `Snapshot.Agrees`, `Snapshot.SamePaths` — snapshots with the same times, or the same paths.
* `Snapshot.Sorted` — the stamps are in strict path order.

## Main results

* `Snapshot.stamp?_ofStamps` — a snapshot says what the first stamp for a path says.
* `Snapshot.sorted_ofStamps` — a snapshot is in strict path order.
* `Snapshot.eq_of_stamp?` — a snapshot is known from what it says.
* `Snapshot.ofStamps_eq_of_stable` — a snapshot does not depend on the way stamps are sorted.
* `Snapshot.ofStamps_eq_insertionSort` — a snapshot is found by insertion.
-/

namespace IncrementalBuild

/-- The first stamp for a path among stamps. -/
def FileStamp.firstFor (stamps : List FileStamp) (p : Path) : Option FileStamp :=
  stamps.find? fun r => p.same r.path

/-- There is no first stamp for a path when no stamp is for an equal one. -/
theorem FileStamp.firstFor_eq_none {stamps : List FileStamp} {p : Path} :
    FileStamp.firstFor stamps p = none ↔ ∀ r ∈ stamps, p.same r.path = false := by
  simp [FileStamp.firstFor, List.find?_eq_none]

/-- Equal paths have one first stamp. -/
theorem FileStamp.firstFor_congr (stamps : List FileStamp) {p q : Path}
    (h : p.same q = true) : FileStamp.firstFor stamps p = FileStamp.firstFor stamps q := by
  simp only [FileStamp.firstFor, Path.same_congr_left h]

/-- The first stamp, when the stamp at the front is for an equal path. -/
theorem FileStamp.firstFor_cons_same {stamps : List FileStamp} {p : Path} {r : FileStamp}
    (h : p.same r.path = true) : FileStamp.firstFor (r :: stamps) p = some r := by
  simp [FileStamp.firstFor, h]

/-- The first stamp, when the stamp at the front is for another path. -/
theorem FileStamp.firstFor_cons_other {stamps : List FileStamp} {p : Path} {r : FileStamp}
    (h : p.same r.path = false) :
    FileStamp.firstFor (r :: stamps) p = FileStamp.firstFor stamps p := by
  simp [FileStamp.firstFor, h]

namespace Snapshot

/-- What a snapshot has for a path. -/
def stamp? (s : Snapshot) (p : Path) : Option FileStamp := FileStamp.firstFor s.stamps p

/-- The time that a snapshot shows for a path. -/
def time? (s : Snapshot) (p : Path) : Option Timestamp := (s.stamp? p).map FileStamp.modified

/-- Two snapshots show the same paths with the same times. -/
def Agrees (a b : Snapshot) : Prop := ∀ p, a.time? p = b.time? p

/-- Two snapshots show the same paths. -/
def SamePaths (a b : Snapshot) : Prop := ∀ p, (a.time? p).isSome = (b.time? p).isSome

/-- The stamps are in strict path order. -/
def Sorted (s : Snapshot) : Prop := s.stamps.Pairwise fun a b => a.path.before b.path = true

variable {a b c s : Snapshot} {p q : Path} {r : FileStamp}

/-- A snapshot agrees with itself. -/
theorem Agrees.refl (s : Snapshot) : s.Agrees s := fun _ => rfl

/-- Agreement carries over. -/
theorem Agrees.trans (h : a.Agrees b) (k : b.Agrees c) : a.Agrees c :=
  fun p => (h p).trans (k p)

/-- Snapshots that agree have the same paths. -/
theorem Agrees.samePaths (h : a.Agrees b) : a.SamePaths b := fun p => by rw [h p]

/-- A snapshot has its own paths. -/
theorem SamePaths.refl (s : Snapshot) : s.SamePaths s := fun _ => rfl

/-- Having the same paths carries over. -/
theorem SamePaths.trans (h : a.SamePaths b) (k : b.SamePaths c) : a.SamePaths c :=
  fun p => (h p).trans (k p)

/-- Equal paths have one time. -/
theorem time?_congr (s : Snapshot) (h : p.same q = true) : s.time? p = s.time? q := by
  rw [time?, time?, stamp?, stamp?, FileStamp.firstFor_congr _ h]

/-- A snapshot shows a time for a path when it has a stamp for an equal one. -/
theorem time?_isSome_iff : (s.time? p).isSome = true ↔ ∃ r ∈ s.stamps, p.same r.path = true := by
  rw [time?, Option.isSome_map, stamp?, FileStamp.firstFor, List.find?_isSome]

/-- In a snapshot in path order every stamp is the one for its path. -/
theorem stamp?_of_mem (hs : s.Sorted) (hr : r ∈ s.stamps) : s.stamp? r.path = some r := by
  obtain ⟨stamps⟩ := s
  simp only [Sorted, stamp?] at hs hr ⊢
  induction stamps with
  | nil => exact absurd hr List.not_mem_nil
  | cons d rest ih =>
      obtain ⟨hd, hrest⟩ := List.pairwise_cons.mp hs
      rcases List.mem_cons.mp hr with rfl | hr
      · exact FileStamp.firstFor_cons_same (Path.same_refl _)
      · have hdr : r.path.same d.path = false := by
          rw [Path.same_comm]
          exact Path.same_eq_false_of_before (hd r hr)
        rw [FileStamp.firstFor_cons_other hdr]
        exact ih hrest hr

/-- The stamps of a snapshot in path order are those that it has for their paths. -/
theorem mem_stamps_iff (hs : s.Sorted) : r ∈ s.stamps ↔ s.stamp? r.path = some r :=
  ⟨stamp?_of_mem hs, fun h => List.mem_of_find?_eq_some h⟩

/-- A snapshot in path order has no stamp twice. -/
theorem nodup_stamps (hs : s.Sorted) : s.stamps.Nodup := by
  refine hs.imp fun {x y} hbefore heq => ?_
  rw [heq] at hbefore
  exact absurd (Path.same_eq_false_of_before hbefore) (by simp [Path.same_refl])

/-- **Snapshots** in path order that say the same of every path are the same. -/
theorem eq_of_stamp? (ha : a.Sorted) (hb : b.Sorted) (h : ∀ p, a.stamp? p = b.stamp? p) :
    a = b := by
  have hperm : a.stamps.Perm b.stamps := by
    rw [List.perm_ext_iff_of_nodup (nodup_stamps ha) (nodup_stamps hb)]
    intro r
    rw [mem_stamps_iff ha, mem_stamps_iff hb, h]
  have hstamps : a.stamps = b.stamps := by
    refine hperm.eq_of_pairwise (fun x y _ _ hxy hyx => ?_) ha hb
    exact absurd (Path.same_eq_false_of_before (Path.before_trans hxy hyx))
      (by simp [Path.same_refl])
  cases a
  cases b
  exact congrArg mk hstamps

/-! ### Removing repetitions -/

/-- Nothing is made up when repetitions are removed. -/
theorem dropRepeats_sublist (stamps : List FileStamp) : (dropRepeats stamps).Sublist stamps := by
  induction stamps with
  | nil => exact List.Sublist.slnil
  | cons r rest ih =>
      rw [dropRepeats]
      split
      · exact List.singleton_sublist.mpr List.mem_cons_self
      · next s others hs =>
          rw [hs] at ih
          split
          · exact ((List.sublist_cons_self s others).trans ih).cons_cons r
          · exact ih.cons_cons r

/-- Removing repetitions keeps the first stamp of every path. -/
theorem firstFor_dropRepeats (stamps : List FileStamp) (p : Path) :
    FileStamp.firstFor (dropRepeats stamps) p = FileStamp.firstFor stamps p := by
  induction stamps with
  | nil => rfl
  | cons r rest ih =>
      by_cases hr : p.same r.path = true
      · rw [dropRepeats, FileStamp.firstFor_cons_same hr]
        split
        · exact FileStamp.firstFor_cons_same hr
        · split <;> exact FileStamp.firstFor_cons_same hr
      · have hr := Bool.eq_false_iff.mpr hr
        rw [FileStamp.firstFor_cons_other hr, ← ih, dropRepeats]
        split
        · next hnil => rw [hnil, FileStamp.firstFor_cons_other hr]
        · next s others hs =>
            rw [hs]
            split
            · next hsame =>
                have hps : p.same s.path = false := by rw [← Path.same_congr_right hsame, hr]
                rw [FileStamp.firstFor_cons_other hr, FileStamp.firstFor_cons_other hps]
            · exact FileStamp.firstFor_cons_other hr

/-- Among stamps in path order, those that stay are in strict path order. -/
theorem pairwise_before_dropRepeats {stamps : List FileStamp}
    (h : stamps.Pairwise fun a b => a.path.notAfter b.path = true) :
    (dropRepeats stamps).Pairwise fun a b => a.path.before b.path = true := by
  induction stamps with
  | nil => exact List.Pairwise.nil
  | cons r rest ih =>
      obtain ⟨hr, hrest⟩ := List.pairwise_cons.mp h
      have hd := ih hrest
      have hsub := dropRepeats_sublist rest
      rw [dropRepeats]
      split
      · exact List.pairwise_singleton _ r
      · next s others hs =>
          rw [hs] at hd hsub
          obtain ⟨hso, hothers⟩ := List.pairwise_cons.mp hd
          have hrs := Path.before_or_same_of_notAfter (hr s (hsub.subset List.mem_cons_self))
          split
          · next hsame =>
              refine List.pairwise_cons.mpr ⟨fun x hx => ?_, hothers⟩
              rw [Path.before_congr_left hsame]
              exact hso x hx
          · next hne =>
              have hb := hrs.resolve_right hne
              refine List.pairwise_cons.mpr ⟨fun x hx => ?_, hd⟩
              rcases List.mem_cons.mp hx with rfl | hx
              · exact hb
              · exact Path.before_trans hb (hso x hx)

/-! ### Snapshots of stamps -/

/-- The order that stamps are put in carries over. -/
theorem notAfter_path_trans (a b c : FileStamp) (h : a.path.notAfter b.path = true)
    (k : b.path.notAfter c.path = true) : a.path.notAfter c.path = true :=
  Path.notAfter_trans h k

/-- The order that stamps are put in is total. -/
theorem notAfter_path_total (a b : FileStamp) :
    (a.path.notAfter b.path || b.path.notAfter a.path) = true :=
  Path.notAfter_total a.path b.path

/-- Stamps for equal paths are in order as they come. -/
theorem pairwise_filter_same (stamps : List FileStamp) (p : Path) :
    (stamps.filter fun r => p.same r.path).Pairwise fun a b => a.path.notAfter b.path = true := by
  refine List.pairwise_of_forall_mem_list fun a ha b hb => ?_
  have ha := (List.mem_filter.mp ha).2
  have hb := (List.mem_filter.mp hb).2
  exact Path.notAfter_of_same (Path.same_trans (Path.same_symm ha) hb)

/-- Stamps for equal paths stay in the order they came in, if others are put between them only. -/
theorem filter_same_of_perm {stamps ordered : List FileStamp} {p : Path}
    (hperm : ordered.Perm stamps) (hsub : (stamps.filter fun r => p.same r.path).Sublist ordered) :
    ordered.filter (fun r => p.same r.path) = stamps.filter fun r => p.same r.path := by
  have hsub := hsub.filter fun r => p.same r.path
  rw [List.filter_filter] at hsub
  simp only [Bool.and_self] at hsub
  exact (hsub.eq_of_length (hperm.filter _).length_eq.symm).symm

/-- Stamps for equal paths stay in the order they came in. -/
theorem filter_mergeSort (stamps : List FileStamp) (p : Path) :
    (stamps.mergeSort fun a b => a.path.notAfter b.path).filter (fun r => p.same r.path) =
      stamps.filter fun r => p.same r.path :=
  filter_same_of_perm (List.mergeSort_perm stamps _) (List.sublist_mergeSort notAfter_path_trans
    notAfter_path_total (pairwise_filter_same stamps p) List.filter_sublist)

/-- **First stamps count.** A snapshot has for a path what the first stamp for it says. -/
theorem stamp?_ofStamps (stamps : List FileStamp) (p : Path) :
    (ofStamps stamps).stamp? p = FileStamp.firstFor stamps p := by
  rw [stamp?, ofStamps, firstFor_dropRepeats, FileStamp.firstFor, FileStamp.firstFor,
    ← List.head?_filter, filter_mergeSort, List.head?_filter]

/-- **Path order.** A snapshot is in strict path order. -/
theorem sorted_ofStamps (stamps : List FileStamp) : (ofStamps stamps).Sorted :=
  pairwise_before_dropRepeats
    (List.pairwise_mergeSort notAfter_path_trans notAfter_path_total stamps)

/-- Stamps that come in path order stay in the order they came in. -/
theorem ofStamps_of_notAfter {stamps : List FileStamp}
    (h : stamps.Pairwise fun a b => a.path.notAfter b.path = true) :
    ofStamps stamps = ⟨dropRepeats stamps⟩ := by
  rw [ofStamps, List.mergeSort_of_pairwise h]

/-- **Any stable order.** It does not matter how stamps are put in path order, as long as those for
equal paths stay in the order they came in. -/
theorem ofStamps_eq_of_stable {stamps ordered : List FileStamp}
    (hordered : ordered.Pairwise fun a b => a.path.notAfter b.path = true)
    (hstable : ∀ p : Path, ordered.filter (fun r => p.same r.path) =
      stamps.filter fun r => p.same r.path) :
    ofStamps stamps = ⟨dropRepeats ordered⟩ := by
  refine eq_of_stamp? (sorted_ofStamps _) (pairwise_before_dropRepeats hordered) fun p => ?_
  rw [stamp?_ofStamps, stamp?, firstFor_dropRepeats, FileStamp.firstFor, FileStamp.firstFor,
    ← List.head?_filter, ← List.head?_filter, hstable]

/-- A snapshot is found by insertion, stamp by stamp. -/
theorem ofStamps_eq_insertionSort (stamps : List FileStamp) :
    ofStamps stamps =
      ⟨dropRepeats (stamps.insertionSort fun a b => a.path.notAfter b.path = true)⟩ := by
  have : Std.Total fun a b : FileStamp => a.path.notAfter b.path = true :=
    ⟨fun a b => by simpa using notAfter_path_total a b⟩
  have : IsTrans FileStamp fun a b => a.path.notAfter b.path = true := ⟨notAfter_path_trans⟩
  refine ofStamps_eq_of_stable (List.pairwise_insertionSort _ stamps) fun p => ?_
  exact filter_same_of_perm (List.perm_insertionSort _ stamps)
    (List.sublist_insertionSort (pairwise_filter_same stamps p) List.filter_sublist)

/-- A snapshot in path order is the snapshot of its own stamps. -/
theorem ofStamps_stamps (hs : s.Sorted) : ofStamps s.stamps = s :=
  eq_of_stamp? (sorted_ofStamps _) hs fun p => stamp?_ofStamps s.stamps p

end Snapshot
end IncrementalBuild
