import IncrementalBuild.Proofs.Decision
import IncrementalBuild.Proofs.Host.Edits
/-!
# What a build sees of the files

Until it has its inputs a build sees the files at one moment after the other: first it takes down
the time of every listed file, then its engine reads those that it has to. Before each look others
may have saved files. So what is read of a file is never older than the time that was taken down.

## Main definitions

* `Host.moments` — the file trees that looks see.
* `Host.Steady` — a host on which others save files, and nothing else happens.
* `Engine.Reads` — an engine that reads each source at some moment of the parsing.
* `Turn.gathered`, `Turn.moments` — the world once a turn is past its inputs, and the file trees
  that it saw until then.

## Main results

* `FileStamp.of_mem_captureAll` — every time that is taken down is that of the file at some moment.
* `Engine.Reads.of_calls` — an engine reads that reads each source while it parses it.
* `Turn.readSince` — a turn that read a file no earlier than it took down its time.
-/

namespace IncrementalBuild

variable {σ ρ φ υ α : Type}

/-! ### Moments -/

namespace Host

/-- The file trees that some looks see, and the one before them, the last one first. -/
def moments : Nat → Host → List Files
  | 0, h => [h.files]
  | n + 1, h => moments n h.enter.2 ++ [h.files]

/-- Looks see the files at moments in order. -/
theorem moments_split {h : Host} {i j n : Nat} (hij : i ≤ j) (hjn : j ≤ n) :
    ∃ later earlier, h.moments n = later ++ (h.elapse j).files :: earlier ∧
      (h.elapse i).files ∈ (h.elapse j).files :: earlier := by
  induction n generalizing h i j with
  | zero =>
      obtain rfl : j = 0 := Nat.le_zero.mp hjn
      obtain rfl : i = 0 := Nat.le_zero.mp hij
      exact ⟨[], [], rfl, List.mem_cons_self⟩
  | succ n ih =>
      rcases j with _ | j
      · obtain rfl : i = 0 := Nat.le_zero.mp hij
        exact ⟨moments n h.enter.2, [], rfl, List.mem_cons_self⟩
      rcases i with _ | i
      · obtain ⟨later, earlier, hsplit, -⟩ := ih (h := h.enter.2) (Nat.zero_le j)
          (Nat.le_of_succ_le_succ hjn)
        refine ⟨later, earlier ++ [h.files], ?_, by simp [elapse]⟩
        rw [moments, hsplit, List.append_assoc]
        rfl
      · obtain ⟨later, earlier, hsplit, hmem⟩ := ih (h := h.enter.2) (Nat.le_of_succ_le_succ hij)
          (Nat.le_of_succ_le_succ hjn)
        refine ⟨later, earlier ++ [h.files], ?_, ?_⟩
        · rw [moments, hsplit, List.append_assoc]
          rfl
        · rw [elapse, elapse, ← List.cons_append]
          exact List.mem_append_left _ hmem

/-- Looks use up what happens before them. -/
theorem interference_elapse (n : Nat) (h : Host) :
    (h.elapse n).interference = h.interference.drop n := by
  induction n generalizing h with
  | zero => rfl
  | succ n ih =>
      rw [elapse, ih, enter]
      split
      · next hnil => rw [hnil, List.drop_nil, List.drop_nil]
      · next i later hcons => rw [hcons, List.drop_succ_cons]

/-- Once nothing more happens, looks change nothing. -/
theorem elapse_min (n : Nat) (h : Host) : h.elapse n = h.elapse (min n h.interference.length) := by
  rcases Nat.le_total n h.interference.length with hn | hn
  · rw [Nat.min_eq_left hn]
  · have hquiet : (h.elapse h.interference.length).interference = [] := by
      rw [interference_elapse, List.drop_length]
    rw [Nat.min_eq_right hn, ← Nat.add_sub_of_le hn, elapse_add, elapse_quiet hquiet]

/-- A host on which others save files, and no look fails for a reason that the files do not
explain. -/
def Steady (h : Host) : Prop := ∀ i ∈ h.interference, i.failure = none

/-- A steady host stays so. -/
theorem Steady.elapse {h : Host} (steady : h.Steady) (n : Nat) : (h.elapse n).Steady := by
  intro i hi
  rw [interference_elapse] at hi
  exact steady i (List.mem_of_mem_drop hi)

end Host

/-- A look at a steady host sees the files at the next moment. -/
theorem Access.look_steady (f : Files → Except FileError α) {h : Host} (steady : h.Steady) :
    look f h = (f (h.elapse 1).files, h.elapse 1) := by
  have henter : h.enter.1 = none := by
    rw [Host.enter]
    split
    · rfl
    · next i later hcons => exact steady i (hcons ▸ List.mem_cons_self)
  rw [look, Host.elapse, Host.elapse]
  split
  · next e h' he => exact absurd (henter.symm.trans (congrArg Prod.fst he)) (by simp)
  · next h' he => rw [he]

/-- A look that yields something sees it at the next moment. -/
theorem Access.look_eq_ok {f : Files → Except FileError α} {h h' : Host} {a : α}
    (hlook : look f h = (.ok a, h')) : f (h.elapse 1).files = .ok a := by
  rw [look] at hlook
  split at hlook
  · exact absurd (congrArg Prod.fst hlook) (by simp)
  · next host hhost =>
      rw [Host.elapse, Host.elapse, hhost]
      exact (Prod.mk.inj hlook).1

/-- **Times.** Every time that is taken down is that of a file at some moment. -/
theorem FileStamp.of_mem_captureAll {base : Path} {paths : List Path} {h : Host}
    (steady : h.Steady) {r : FileStamp} (hr : r ∈ (captureAll base paths h).1) :
    ∃ k ≤ paths.length, (h.elapse k).files.timeOf (base.join r.path) = r.modified := by
  induction paths generalizing h with
  | nil => exact absurd hr List.not_mem_nil
  | cons p rest ih =>
      rw [captureAll, Access.modified, Access.look_steady _ steady] at hr
      rcases List.mem_cons.mp hr with rfl | hr
      · exact ⟨1, Nat.succ_le_succ (Nat.zero_le _), rfl⟩
      · obtain ⟨k, hk, htime⟩ := ih (steady.elapse 1) hr
        rw [← Host.elapse_add] at htime
        exact ⟨1 + k, by rw [List.length_cons, Nat.add_comm]; exact Nat.succ_le_succ hk, htime⟩

/-- The stamps of a snapshot are among those that were taken down. -/
theorem Snapshot.mem_captureAll {base : Path} {paths : List Path} {h : Host} {r : FileStamp}
    (hr : r ∈ (capture base paths h).1.stamps) : r ∈ (FileStamp.captureAll base paths h).1 :=
  List.mem_mergeSort.mp ((dropRepeats_sublist _).subset hr)

/-! ### Reading -/

/-- An engine that only looks at the host while it gathers, and gets the handle of every source from
what the source's file holds at some moment of the parsing, in whatever order it parses. -/
structure Engine.Reads (engine : Engine σ ρ φ υ) (parsedFrom : φ → Bytes → Prop) : Prop where
  looks : engine.OnlyLooks
  parsed : ∀ o order paths w entries w', parseAll engine o order paths w = (.ok entries, w') →
    ∃ n, w'.host = w.host.elapse n ∧ ∀ entry ∈ entries, ∃ k ≤ n, ∃ contents,
      (w.host.elapse k).files.contentsOf? (o.resolve entry.1) = some contents ∧
        parsedFrom entry.2 contents

/-- An engine reads that reads each source while it parses it. -/
theorem Engine.Reads.of_calls {engine : Engine σ ρ φ υ} {parsedFrom : φ → Bytes → Prop}
    (looks : engine.OnlyLooks)
    (parsed : ∀ p defines w y w', engine.parseSource p defines w = (.ok y, w') →
      ∃ n, w'.host = w.host.elapse n ∧ ∃ k ≤ n, ∃ contents,
        (w.host.elapse k).files.contentsOf? p = some contents ∧ parsedFrom y contents) :
    engine.Reads parsedFrom := by
  -- What is got of sources in any order, one after the other.
  have hforAll (o : BuildOptions) (items : List Path) : ∀ w got w',
      Task.forAll (fun p => do
        return (p, ← engine.parseSource (o.resolve p) o.defines)) items w = (.ok got, w') →
      ∃ n, w'.host = w.host.elapse n ∧ ∀ entry ∈ got, ∃ k ≤ n, ∃ contents,
        (w.host.elapse k).files.contentsOf? (o.resolve entry.1) = some contents ∧
          parsedFrom entry.2 contents := by
    induction items with
    | nil =>
        intro w got w' h
        obtain ⟨rfl, rfl⟩ := Task.pure_eq_ok h
        exact ⟨0, rfl, fun entry hentry => absurd hentry List.not_mem_nil⟩
    | cons p rest ih =>
        intro w got w' h
        obtain ⟨first, w₁, hfirst, h⟩ := Task.bind_eq_ok h
        obtain ⟨others, w₂, hothers, h⟩ := Task.bind_eq_ok h
        obtain ⟨rfl, rfl⟩ := Task.pure_eq_ok h
        obtain ⟨y, w₃, hy, hfirst⟩ := Task.bind_eq_ok hfirst
        obtain ⟨rfl, rfl⟩ := Task.pure_eq_ok hfirst
        obtain ⟨n, hn, k, hk, contents, hcontents, hparsed⟩ := parsed _ _ _ _ _ hy
        obtain ⟨m, hm, hrest⟩ := ih _ _ _ hothers
        refine ⟨n + m, by rw [hm, hn, Host.elapse_add], fun entry hentry => ?_⟩
        rcases List.mem_cons.mp hentry with rfl | hentry
        · exact ⟨k, Nat.le_add_right_of_le hk, contents, hcontents, hparsed⟩
        · obtain ⟨k', hk', c, hc, hp⟩ := hrest entry hentry
          rw [hn, ← Host.elapse_add] at hc
          exact ⟨n + k', Nat.add_le_add_left hk' n, c, hc, hp⟩
  refine ⟨looks, fun o order paths w entries w' h => ?_⟩
  obtain ⟨got, hgot, hmem⟩ := mem_of_gatherAll h
  obtain ⟨n, hn, hseen⟩ := hforAll o _ w got w' hgot
  exact ⟨n, hn, fun entry hentry => hseen entry (hmem entry hentry)⟩

/-- The engine that runs a compiler reads each source while it parses it, and keeps its text. -/
theorem Command.reads (command : Compiler) :
    (engine (σ := σ) command).Reads fun y contents => contents.toString? = some y.text := by
  refine .of_calls (onlyLooks command) fun p defines w y w' h => ?_
  have hworld : w' = ⟨w.host.elapse 1, w.engine⟩ := by
    rw [← parseSource_snd p w]
    exact (congrArg Prod.snd h).symm
  obtain ⟨text, w₁, htext, h⟩ := Task.bind_eq_ok (show parseSource p w = (.ok y, w') from h)
  obtain ⟨rfl, -⟩ := Task.pure_eq_ok h
  have hread : (w.host.elapse 1).files.readText p = .ok text := by
    rw [Task.access, Task.onHost, Access.readText] at htext
    rcases hlook : Access.look (fun fs => fs.readText p) w.host with ⟨e | seen, host⟩
    · rw [hlook] at htext
      exact absurd (congrArg Prod.fst htext) (by simp)
    · rw [hlook] at htext
      obtain rfl := Except.ok.inj (Prod.mk.inj htext).1
      exact Access.look_eq_ok hlook
  obtain ⟨contents, hcontents, hdecoded⟩ :=
    Option.bind_eq_some_iff.mp (readText_eq_ok_iff.mp hread)
  exact ⟨1, by rw [hworld], 1, Nat.le_refl 1, contents, hcontents, hdecoded⟩

/-! ### What a turn sees -/

namespace Turn

/-- The world once a turn is past its inputs, or was refused. -/
def gathered (t : Toolchain σ ρ φ υ) (u : Turn σ ρ φ υ) : World σ :=
  match u.state.continued? u.options with
  | some c => (c.update t.engine u.options u.world).2
  | none => (Compilation.create t.engine u.options u.world).2

/-- The file trees that a turn sees until it is past its inputs, the last one first: one for every
interference that it meets, and the one before. -/
def moments (t : Toolchain σ ρ φ υ) (u : Turn σ ρ φ υ) : List Files :=
  u.world.host.moments
    (u.world.host.interference.length - (u.gathered t).host.interference.length)

variable {t : Toolchain σ ρ φ υ} {u : Turn σ ρ φ υ} {i j n : Nat} {p : Path} {contents : Bytes}

/-- The looks of a turn see the files at its moments, in order. -/
theorem moments_split (hn : (u.gathered t).host = u.world.host.elapse n) (hij : i ≤ j)
    (hjn : j ≤ n) : ∃ later earlier,
      u.moments t = later ++ (u.world.host.elapse j).files :: earlier ∧
        (u.world.host.elapse i).files ∈ (u.world.host.elapse j).files :: earlier := by
  rw [moments, hn, Host.interference_elapse, List.length_drop, Host.elapse_min i,
    Host.elapse_min j]
  exact Host.moments_split (by omega) (by omega)

/-- **Order.** A turn that read a file no earlier than it took down its time. -/
theorem readSince (hn : (u.gathered t).host = u.world.host.elapse n) (hij : i ≤ j) (hjn : j ≤ n)
    (hcontents : (u.world.host.elapse j).files.contentsOf? p = some contents) :
    Files.ReadSince (u.moments t) p ((u.world.host.elapse i).files.timeOf p) contents := by
  obtain ⟨later, earlier, hsplit, hmem⟩ := moments_split hn hij hjn
  exact ⟨later, _, earlier, hsplit, hcontents, _, hmem, rfl⟩

end Turn
end IncrementalBuild
