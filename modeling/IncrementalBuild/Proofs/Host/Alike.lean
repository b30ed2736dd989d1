import IncrementalBuild.Proofs.Host.Sockets
/-!
# Trees that are alike for a path

What happens at a path whose directory exists depends on the directories of the tree and on what
stands at the place of the path. In two trees that agree on these the same happens there, whatever
else the trees hold; files that others save at any place keep them alike.

## Main definitions

* `Entry.bare` — an entry without what a file holds.
* `Files.Replaced` — a tree in which one place got another entry.
* `Files.Alike`, `Host.Alike` — trees, and hosts, that are alike for a path.
* `Host.Likewise` — an action that has one outcome on hosts that are alike.

## Main results

* `Files.save_eq_or_replaced` — what a save leaves.
* `Files.Alike.save` — saves keep trees alike.
* `Host.likewise_look`, `Host.likewise_change` — accesses that have one outcome on alike hosts.
-/

namespace IncrementalBuild

/-- An entry without what a file holds. -/
def Entry.bare : Entry → Entry
  | .file _ _ _ => .file [] .epoch false
  | e => e

/-- Entries of one kind are the same, or both are files. -/
theorem Entry.eq_or_files {e e' : Option Entry} (h : e.map bare = e'.map bare) :
    e = e' ∨ (∃ contents time executable, e = some (.file contents time executable)) ∧
      ∃ contents time executable, e' = some (.file contents time executable) := by
  rcases e with _ | (_ | ⟨contents, time, executable⟩ | server) <;>
    rcases e' with _ | (_ | ⟨contents', time', executable'⟩ | server') <;>
    simp_all [bare]

namespace Files

variable {fs a b a' b' : Files} {p q : Path} {loc other : Location} {e e' : Option Entry}

/-! ### Another entry at one place -/

/-- A tree that has another entry at one place, where neither tree has a directory. -/
structure Replaced (fs : Files) (loc : Location) (e : Option Entry) (a : Files) : Prop where
  workDir : a.workDir = fs.workDir
  free : fs.isDirectoryAt loc = false
  kept : e ≠ some .directory
  at? : ∀ other, a.at? other = if other = loc then e else fs.at? other

namespace Replaced

/-- It has the same directories. -/
theorem isDirectoryAt_eq (h : Replaced fs loc e a) (other : Location) :
    a.isDirectoryAt other = fs.isDirectoryAt other := by
  by_cases hother : other = loc
  · subst hother
    rw [h.free, isDirectoryAt, h.at?, if_pos rfl, beq_eq_false_iff_ne]
    exact h.kept
  · rw [isDirectoryAt, isDirectoryAt, h.at?, if_neg hother]

/-- The entry of the place was taken away. -/
theorem drop (hfree : fs.isDirectoryAt loc = false) : Replaced fs loc none (fs.drop loc) :=
  ⟨rfl, hfree, by simp, at?_drop (ne_nil_of_isDirectoryAt hfree)⟩

/-- Something was put at the place. -/
theorem put {x : Entry} (hfree : fs.isDirectoryAt loc = false) (hx : x ≠ .directory) :
    Replaced fs loc (some x) (fs.put loc x) :=
  ⟨rfl, hfree, by simpa using hx, at?_put (ne_nil_of_isDirectoryAt hfree) x⟩

end Replaced

/-- A save leaves the tree, or puts a file at the place of its path. -/
theorem save_eq_or_replaced (fs : Files) (s : Save) :
    fs.save s = fs ∧ (∀ loc, fs.writable s.path ≠ .ok loc) ∨
      fs.writable s.path = .ok (fs.place s.path) ∧ ∃ time executable,
        Replaced fs (fs.place s.path) (some (.file s.contents time executable)) (fs.save s) := by
  rcases hwritable : fs.writable s.path with cause | loc
  · refine .inl ⟨?_, fun _ => by simp⟩
    rw [save, write, hwritable]
    rfl
  obtain ⟨rfl, hopen⟩ := writable_eq_ok hwritable
  have hwrite : fs.write s.path s.contents = .ok (fs.putFile (fs.place s.path) s.contents) := by
    rw [write, hwritable]
    rfl
  have hnil := ne_nil_of_isDirectoryAt hopen.free
  obtain ⟨executable, hput⟩ : ∃ executable, ∀ other,
      (fs.putFile (fs.place s.path) s.contents).at? other =
        if other = fs.place s.path then some (.file s.contents fs.clock executable)
        else fs.at? other := by
    rw [putFile]
    exact ⟨_, fun other => at?_put hnil _ other⟩
  refine .inr ⟨rfl, ?_⟩
  rw [save, hwrite]
  dsimp only
  rcases hmodified : (fs.putFile (fs.place s.path) s.contents).setModified s.path s.modified
    with cause | dated
  · exact ⟨fs.clock, executable, rfl, hopen.free, by simp, hput⟩
  · obtain ⟨loc, hlocate, hmodified⟩ := exists_of_bind hmodified
    obtain rfl := (locate_eq_ok hlocate).trans (place_congr (b := fs) rfl s.path)
    rw [hput, if_pos rfl] at hmodified
    obtain rfl := Except.ok.inj hmodified
    refine ⟨s.modified, executable, rfl, hopen.free, by simp, fun other => ?_⟩
    have hagain : ((fs.putFile (fs.place s.path) s.contents).put (fs.place s.path)
        (.file s.contents s.modified executable)).at? other = _ := at?_put hnil _ other
    rw [hput] at hagain
    refine hagain.trans ?_
    split <;> rfl

/-! ### Alike for a path -/

/-- Trees with the same directories, among them that of a path, and with entries of one kind at the
place of the path. -/
structure Alike (p : Path) (a b : Files) : Prop where
  named : p.HasName
  workDir : a.workDir = b.workDir
  directories : ∀ loc, a.isDirectoryAt loc = b.isDirectoryAt loc
  leads : Leads a p (a.place p)
  there : (a.at? (a.place p)).map Entry.bare = (b.at? (a.place p)).map Entry.bare

namespace Alike

/-- The path names one place. -/
theorem place_eq (h : Alike p a b) : b.place p = a.place p := place_congr h.workDir.symm p

/-- The path leads to its place in the second tree too. -/
theorem leads_right (h : Alike p a b) : Leads b p (a.place p) :=
  h.leads.of_directories h.workDir fun loc hloc => (h.directories loc).symm.trans hloc

/-- The trees can be taken in either order. -/
theorem symm (h : Alike p a b) : Alike p b a := by
  have hleads : Leads b p (b.place p) := by
    rw [h.place_eq]
    exact h.leads_right
  have hthere : (b.at? (b.place p)).map Entry.bare = (a.at? (b.place p)).map Entry.bare := by
    rw [h.place_eq]
    exact h.there.symm
  exact ⟨h.named, h.workDir.symm, fun loc => (h.directories loc).symm, hleads, hthere⟩

/-- A tree with another entry at a place that is not the path's is alike. -/
theorem of_replaced (hnamed : p.HasName) (hleads : Leads fs p (fs.place p))
    (ha : Replaced fs loc e a) (hloc : fs.place p ≠ loc) : Alike p fs a := by
  refine ⟨hnamed, ha.workDir.symm, fun other => (ha.isDirectoryAt_eq other).symm, hleads, ?_⟩
  rw [ha.at?, if_neg hloc]

/-- Trees alike one after the other are alike. -/
theorem trans {c : Files} (h : Alike p a b) (h' : Alike p b c) : Alike p a c := by
  have hthere := h'.there
  rw [h.place_eq] at hthere
  exact ⟨h.named, h.workDir.trans h'.workDir,
    fun loc => (h.directories loc).trans (h'.directories loc), h.leads, h.there.trans hthere⟩

/-- Trees stay alike when both get another entry of one kind at a place. -/
theorem replaced (h : Alike p a b) (ha : Replaced a loc e a') (hb : Replaced b loc e' b')
    (he : e.map Entry.bare = e'.map Entry.bare) : Alike p a' b' := by
  have hplace : a'.place p = a.place p := place_congr ha.workDir p
  have hdirs : ∀ other, a.isDirectoryAt other = true → a'.isDirectoryAt other = true :=
    fun other hother => (ha.isDirectoryAt_eq other).trans hother
  refine ⟨h.named, ?_, fun other => ?_, ?_, ?_⟩
  · rw [ha.workDir, hb.workDir, h.workDir]
  · rw [ha.isDirectoryAt_eq, hb.isDirectoryAt_eq, h.directories]
  · rw [hplace]
    exact h.leads.of_directories ha.workDir.symm hdirs
  · rw [hplace, ha.at?, hb.at?]
    by_cases hloc : a.place p = loc
    · rw [if_pos hloc, if_pos hloc, he]
    · rw [if_neg hloc, if_neg hloc, h.there]

/-- One of two alike trees may get another entry at a place that is not the path's. -/
theorem replaced_left (h : Alike p a b) (ha : Replaced a loc e a') (hloc : a.place p ≠ loc) :
    Alike p a' b :=
  (of_replaced h.named h.leads ha hloc).symm.trans h

/-- A path that is written to in one tree can be written to in the other one, if it names the same
place. -/
theorem writable (h : Alike p a b) (hplace : a.place q = a.place p)
    (hq : a.writable q = .ok (a.place q)) : b.writable q = .ok (a.place q) := by
  obtain ⟨-, hopen⟩ := writable_eq_ok hq
  have hleads : Leads b q (a.place q) :=
    hopen.leads.of_directories h.workDir fun loc hloc => (h.directories loc).symm.trans hloc
  have hthere := h.there
  rw [writable_eq_of_leads hopen.named hopen.leads] at hq
  rw [writable_eq_of_leads hopen.named hleads]
  rw [← hplace] at hthere
  rcases Entry.eq_or_files hthere with heq | ⟨-, contents, time, executable, hfile⟩
  · rw [← heq]
    exact hq
  · rw [hfile]

/-- Files that others save keep trees alike. -/
theorem save (h : Alike p a b) (s : Save) : Alike p (a.save s) (b.save s) := by
  have hsaved : b.place s.path = a.place s.path := place_congr h.workDir.symm s.path
  rcases a.save_eq_or_replaced s with ⟨hkeptA, hrefusedA⟩ | ⟨hwrittenA, time, executable, hA⟩
  · rcases b.save_eq_or_replaced s with ⟨hkeptB, -⟩ | ⟨hwrittenB, time', executable', hB⟩
    · rw [hkeptA, hkeptB]
      exact h
    · have hne : b.place p ≠ b.place s.path := by
        intro heq
        have hwritten := h.symm.writable heq.symm hwrittenB
        exact hrefusedA _ hwritten
      rw [hkeptA]
      exact (h.symm.replaced_left hB hne).symm
  · rcases b.save_eq_or_replaced s with ⟨hkeptB, hrefusedB⟩ | ⟨hwrittenB, time', executable', hB⟩
    · have hne : a.place p ≠ a.place s.path := by
        intro heq
        have hwritten := h.writable heq.symm hwrittenA
        exact hrefusedB _ hwritten
      rw [hkeptB]
      exact h.replaced_left hA hne
    · rw [hsaved] at hB
      exact h.replaced hA hB rfl

end Alike

/-! ### What happens at the path -/

/-- Changes that fail for one reason, or leave trees that are alike. -/
inductive Likewise (p : Path) : Except FileError Files → Except FileError Files → Prop
  | error (cause : FileError) : Likewise p (.error cause) (.error cause)
  | ok {a b : Files} (h : Alike p a b) : Likewise p (.ok a) (.ok b)

namespace Alike

/-- Something stands at the path in both trees, or in none. -/
theorem toBool_stat (h : Alike p a b) : (a.stat p).toBool = (b.stat p).toBool := by
  rw [h.leads.stat_eq, h.leads_right.stat_eq]
  rcases Entry.eq_or_files h.there with heq | ⟨⟨_, _, _, ha⟩, _, _, _, hb⟩
  · rw [heq]
  · rw [ha, hb]
    rfl

/-- The path leads to one server. -/
theorem connect_eq (h : Alike p a b) : a.connect p = b.connect p := by
  rw [connect, connect, h.leads.stat_eq, h.leads_right.stat_eq]
  rcases Entry.eq_or_files h.there with heq | ⟨⟨_, _, _, ha⟩, _, _, _, hb⟩
  · rw [heq]
  · rw [ha, hb]

/-- Removing what stands at the path keeps trees alike. -/
theorem remove (h : Alike p a b) : Likewise p (a.remove p) (b.remove p) := by
  have hdrop (hfree : a.isDirectoryAt (a.place p) = false) :
      Alike p (a.drop (a.place p)) (b.drop (a.place p)) :=
    h.replaced (.drop hfree) (.drop ((h.directories _).symm.trans hfree)) rfl
  rw [remove_of_leads h.named h.leads, remove_of_leads h.named h.leads_right]
  rcases Entry.eq_or_files h.there with heq | ⟨⟨_, _, _, ha⟩, _, _, _, hb⟩
  · rw [← heq]
    rcases hat : a.at? (a.place p) with _ | (_ | _ | _)
    · exact .error _
    · exact .error _
    · exact .ok (hdrop (by rw [isDirectoryAt, hat]; rfl))
    · exact .ok (hdrop (by rw [isDirectoryAt, hat]; rfl))
  · rw [ha, hb]
    exact .ok (hdrop (by rw [isDirectoryAt, ha]; rfl))

/-- So does the socket file of a new server at the path. -/
theorem listen (h : Alike p a b) (n : Nat) : Likewise p (a.listen p n) (b.listen p n) := by
  have hput (hfree : a.isDirectoryAt (a.place p) = false) :
      Alike p (a.put (a.place p) (.socket (some n))) (b.put (a.place p) (.socket (some n))) :=
    h.replaced (.put hfree (by simp)) (.put ((h.directories _).symm.trans hfree) (by simp)) rfl
  rw [listen_of_leads h.named h.leads, listen_of_leads h.named h.leads_right]
  have htaken : (b.at? (a.place p)).isSome = (a.at? (a.place p)).isSome := by
    simpa using (congrArg Option.isSome h.there).symm
  rw [htaken]
  split
  · exact .error _
  · split
    · exact .error _
    · next hfree =>
      rw [Option.not_isSome_iff_eq_none] at hfree
      exact .ok (hput (by rw [isDirectoryAt, hfree]; rfl))

end Alike

/-! ### The directory of a path -/

/-- Where a path leads into a directory with a name, the directory is found by its own path. -/
theorem Leads.parent {dir : Option (List Char)} {folder name : List Char} (h : Leads fs p loc)
    (hp : p.EndsIn dir folder name) :
    ∃ mid, Leads fs ⟨String.ofList (Path.textIn dir folder)⟩ mid ∧
      fs.isDirectoryAt mid = true := by
  obtain ⟨mid, segment, hwalk, -, hstep⟩ := h.step
  refine ⟨mid, ?_, isDirectoryAt_of_stepTo hstep⟩
  have htext : p.text.toList = Path.textIn dir folder ++ '/' :: name := hp.named.text
  have hnil : Path.textIn dir folder ≠ [] := Path.textIn_ne_nil dir hp.isFolder
  have hstart : fs.start p.text.toList = fs.start (Path.textIn dir folder) := by
    rw [start, start, htext, List.head?_append_of_ne_nil _ hnil]
  have hsteps : (steps p.text.toList).dropLast = steps (Path.textIn dir folder) := by
    rw [steps, hp.named.text, Path.segments_textIn _ hp.named.separator, List.filter_append]
    simp [hp.isName.ne_nil, steps]
  have hlast : (steps (Path.textIn dir folder)).getLast? = some folder := by
    rw [steps, Path.segments_textIn dir hp.separator, List.filter_append]
    simp [hp.isFolder.ne_nil]
  rw [hstart, hsteps, ← List.dropLast_append_getLast? folder hlast] at hwalk
  obtain ⟨above, habove, hfolder⟩ := exists_of_walk_concat hwalk
  refine ⟨?_, ?_, above, folder, ?_, ?_, hfolder⟩
  · obtain ⟨hnul, -, hshort⟩ := checkPath_iff.mp h.check
    rw [htext] at hnul hshort
    rw [Path.byteLength_append] at hshort
    have hcheck : checkPath ⟨String.ofList (Path.textIn dir folder)⟩ =
        .ok (String.ofList (Path.textIn dir folder)).toList := by
      rw [checkPath_iff, String.toList_ofList]
      exact ⟨fun hmem => hnul (List.mem_append_left _ hmem), hnil, by omega⟩
    exact hcheck
  · simpa [endsInSeparator] using Path.getLast?_textIn dir hp.isFolder hp.separator
  · simpa using habove
  · simpa using hlast

/-- Into a directory that is found by its own path, the paths of its names lead. -/
theorem Leads.child {dir : Option (List Char)} {folder name : List Char}
    (h : Leads fs ⟨String.ofList (Path.textIn dir folder)⟩ loc)
    (hdir : fs.isDirectoryAt loc = true) (hp : p.EndsIn dir folder name)
    (hcheck : checkPath p = .ok p.text.toList) (hshort : Path.byteLength name ≤ maxName) :
    Leads fs p (fs.place p) := by
  have hat : (fs.at? loc).isSome = true := by
    rw [show fs.at? loc = some .directory by simpa [isDirectoryAt] using hdir]
    rfl
  obtain ⟨cs, hcs, hwalk⟩ := walk_of_locate (h.locate hat)
  obtain ⟨rfl, hnil⟩ := checkPath_eq_ok hcs
  rw [String.toList_ofList] at hwalk hnil
  have htext : p.text.toList = Path.textIn dir folder ++ '/' :: name := hp.named.text
  have hstart : fs.start p.text.toList = fs.start (Path.textIn dir folder) := by
    rw [start, start, htext, List.head?_append_of_ne_nil _ hnil]
  have hsteps : steps p.text.toList = steps (Path.textIn dir folder) ++ [name] := by
    rw [steps, hp.named.text, Path.segments_textIn _ hp.named.separator, List.filter_append]
    simp [hp.isName.ne_nil, steps]
  have hends : endsInSeparator p.text.toList = false := by
    have hlast := Path.getLast?_textIn (some (Path.textIn dir folder)) hp.isName hp.named.separator
    rw [← hp.named.text] at hlast
    simpa [endsInSeparator] using hlast
  have hstep : fs.stepTo loc name = .ok (loc ++ [String.ofList name]) := by
    rw [stepTo, hdir, if_neg (by simp), if_neg hp.isName.ne_here, if_neg hp.isName.ne_up,
      if_neg (Nat.not_lt.mpr hshort)]
  have hleads : Leads fs p (loc ++ [String.ofList name]) := by
    refine ⟨hcheck, hends, loc, name, ?_, ?_, hstep⟩
    · rw [hstart, hsteps, List.dropLast_concat]
      exact hwalk
    · rw [hsteps, List.getLast?_concat]
  have hplace := hleads.eq_place
  rw [hplace] at hleads
  exact hleads

/-- A directory that is there is not made again. -/
theorem createDirectory_of_leads (hname : p.HasName) (h : Leads fs p loc)
    (hsome : (fs.at? loc).isSome = true) : fs.createDirectory p = .error .alreadyExists := by
  obtain ⟨t, segment, htarget, hsegment, -, hstep⟩ := target_of_leads hname h
  rw [createDirectory, htarget]
  simp only [bind, Except.bind, hsegment, entryOf, hstep]
  rw [if_pos hsome]

/-- To make the directory of a path that leads into it changes nothing. -/
theorem createDirectories_parent {dir : Option (List Char)} {folder name : List Char}
    (h : Leads fs p loc) (hp : p.EndsIn dir folder name) :
    fs.createDirectories ⟨String.ofList (Path.textIn dir folder)⟩ = (none, fs) := by
  obtain ⟨mid, hmid, hdir⟩ := h.parent hp
  have hat : fs.at? mid = some .directory := by simpa [isDirectoryAt] using hdir
  have hname : Path.HasName ⟨String.ofList (Path.textIn dir folder)⟩ :=
    ⟨dir, folder, ⟨String.toList_ofList, hp.separator⟩, hp.isFolder⟩
  have hmade := createDirectory_of_leads hname hmid (by rw [hat]; rfl)
  have hthere : fs.isDirectory ⟨String.ofList (Path.textIn dir folder)⟩ = true := by
    rw [isDirectory, hmid.stat_eq, hat]
  rw [createDirectories, createDirectoriesWithin, hmade]
  dsimp only
  rw [if_pos hthere]
  split <;> rfl

end Files

/-! ### Hosts -/

namespace Host

variable {p : Path} {h h' : Host} {α β : Type}

/-- Hosts that differ in their trees only, which are alike for a path. -/
structure Alike (p : Path) (h h' : Host) : Prop where
  files : h.files.Alike p h'.files
  rest : h' = { h with files := h'.files }

/-- An action that has one outcome on hosts that are alike for a path, and leaves them alike. -/
def Likewise (p : Path) (f : Host → α × Host) : Prop :=
  ∀ h h', Alike p h h' → ∃ v after after', f h = (v, after) ∧ f h' = (v, after') ∧
    Alike p after after'

/-- Hosts with other trees that are alike. -/
theorem Alike.on (hh : Alike p h h') {a b : Files} (hab : a.Alike p b) :
    Alike p { h with files := a } { h' with files := b } := by
  refine ⟨hab, ?_⟩
  have hrest := hh.rest
  rw [hrest]

/-- What happens before an access keeps hosts alike, and the access fails on both or on none. -/
theorem likewise_enter : Likewise p enter := by
  intro h h' hh
  have hsaves (saves : List Save) (a b : Files) (hab : a.Alike p b) :
      (saves.foldl Files.save a).Alike p (saves.foldl Files.save b) := by
    induction saves generalizing a b with
    | nil => exact hab
    | cons s rest ih => exact ih _ _ (hab.save s)
  have hrest := hh.rest
  have hsame : h'.interference = h.interference := by rw [hrest]
  rw [enter, enter, hsame]
  cases h.interference with
  | nil => exact ⟨none, h, h', rfl, rfl, hh⟩
  | cons i later =>
      refine ⟨i.failure, _, _, rfl, rfl, hsaves i.saves _ _ hh.files, ?_⟩
      rw [hrest]

/-- A look that shows the same of trees that are alike, by what is read off it. -/
theorem likewise_look {f : Files → Except FileError α} {g : Except FileError α → β}
    (hf : ∀ a b : Files, a.Alike p b → g (f a) = g (f b)) :
    Likewise p fun h => (g (Access.look f h).1, (Access.look f h).2) := by
  intro h h' hh
  obtain ⟨failure, after, after', hv, hv', hhosts⟩ := likewise_enter h h' hh
  simp only [Access.look, hv, hv']
  cases failure with
  | some cause => exact ⟨_, _, _, rfl, rfl, hhosts⟩
  | none =>
      refine ⟨_, _, _, rfl, ?_, hhosts⟩
      rw [hf _ _ hhosts.files]

/-- A change that does the same to trees that are alike. -/
theorem likewise_change {f : Files → Except FileError Files}
    (hf : ∀ a b : Files, a.Alike p b → Files.Likewise p (f a) (f b)) :
    Likewise p (Access.change f) := by
  intro h h' hh
  obtain ⟨failure, after, after', hv, hv', hhosts⟩ := likewise_enter h h' hh
  simp only [Access.change, hv, hv']
  cases failure with
  | some cause => exact ⟨_, _, _, rfl, rfl, hhosts⟩
  | none =>
      dsimp only
      have hchanged := hf _ _ hhosts.files
      generalize f after.files = x at hchanged ⊢
      generalize f after'.files = y at hchanged ⊢
      cases hchanged with
      | error cause => exact ⟨_, _, _, rfl, rfl, hhosts⟩
      | ok hab => exact ⟨_, _, _, rfl, rfl, hhosts.on hab⟩

end Host
end IncrementalBuild
