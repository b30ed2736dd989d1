import IncrementalBuild.Endpoint
import IncrementalBuild.Host.Sockets
import IncrementalBuild.Proofs.Host
import IncrementalBuild.Proofs.Host.Places
/-!
# Sockets in the file tree

A server that begins to listen at a socket file puts the file at a free place. From then on a path
leads to the server as long as the file is there, and as long as the server accepts. Neither
depends on how the path is spelled, except that a socket address has no room for a long one.

## Main definitions

* `Access.connect` — a connection to an endpoint.

## Main results

* `Files.place_same` — equal paths name one place.
* `Files.listen_eq_ok` — what a new socket file leaves.
* `Files.connect_of_leads`, `Files.at?_of_connect` — which server accepts a connection.
* `Files.at?_abandon` — what is left of a server that stopped.
-/

namespace IncrementalBuild

namespace Files

variable {fs a : Files} {p q : Path} {loc : Location} {n m : Nat}

/-! ### Places -/

/-- Equal paths name one place. -/
theorem place_same (h : p.same q = true) : fs.place p = fs.place q := by
  have hcomponents : Path.componentsOf p.text.toList = Path.componentsOf q.text.toList :=
    Path.same_iff.mp h
  have habsolute : p.text.toList.head? = some '/' ↔ q.text.toList.head? = some '/' := by
    rw [← Path.head?_componentsOf_iff, ← Path.head?_componentsOf_iff, hcomponents]
  have hstart : fs.start p.text.toList = fs.start q.text.toList := by
    rw [start, start]
    by_cases hp : p.text.toList.head? = some '/'
    · rw [if_pos hp, if_pos (habsolute.mp hp)]
    · rw [if_neg hp, if_neg fun hq => hp (habsolute.mpr hq)]
  rw [place, place, hstart, Path.stepsOf_eq_filter, Path.stepsOf_eq_filter q.text.toList,
    hcomponents]

/-- What a path shows stands at its place. -/
theorem at?_of_stat {e : Entry} (h : fs.stat p = .ok e) : fs.at? (fs.place p) = some e := by
  obtain ⟨loc, hlocate, hat⟩ := stat_eq_ok h
  obtain rfl : loc = fs.place p := locate_eq_ok hlocate
  exact hat

/-- What stands where a path leads is shown by it. -/
theorem stat_of_leads {e : Entry} (hleads : Leads fs p loc) (hat : fs.at? loc = some e) :
    fs.stat p = .ok e := by
  rw [stat_of_locate (hleads.locate (by rw [hat]; rfl)), hat]
  rfl

/-- What stands at a path is led to, unless it is a directory. -/
theorem leads_or_directory {e : Entry} (h : fs.stat p = .ok e) :
    Leads fs p (fs.place p) ∨ fs.isDirectoryAt (fs.place p) = true := by
  obtain ⟨loc, hlocate, -⟩ := stat_eq_ok h
  obtain rfl : loc = fs.place p := locate_eq_ok hlocate
  by_cases hdirectory : fs.isDirectoryAt (fs.place p) = true
  · exact .inr hdirectory
  · rw [Bool.not_eq_true] at hdirectory
    obtain ⟨cs, hcheck, h⟩ := exists_of_bind hlocate
    obtain ⟨rfl, hnil⟩ := checkPath_eq_ok hcheck
    obtain ⟨dir, name, hp⟩ := Path.exists_named p
    -- A path that ends in a separator names a directory.
    have hname : name ≠ [] := by
      rintro rfl
      cases dir with
      | none => exact hnil hp.text
      | some dir =>
        have hends : endsInSeparator p.text.toList = true := by
          rw [endsInSeparator, hp.text, Path.textIn, List.getLast?_concat]
          rfl
        obtain ⟨loc, -, h⟩ := exists_of_bind h
        rw [hends] at h
        split at h
        · exact absurd h (by simp)
        · next hfree =>
          obtain rfl := Except.ok.inj h
          exact hfree (by rw [hdirectory]; rfl)
    exact .inl (leads_of_locate hlocate hdirectory (getLast?_steps hp hname))

/-! ### Listening -/

/-- A path that can be looked up holds no NUL, so it is not apart from files. -/
theorem not_apart_of_leads (h : Leads fs p loc) : p.isApartFromFiles = false := by
  have hcheck := h.check
  rw [checkPath] at hcheck
  split at hcheck
  · exact absurd hcheck (by simp)
  · next hnul =>
    rw [Path.isApartFromFiles, beq_eq_false_iff_ne]
    exact fun hhead => hnul (List.mem_of_mem_head? hhead)

/-- A path that fits a socket address is short. -/
theorem byteLength_lt_of_fits (hfits : p.socketFault? = none) (hleads : Leads fs p loc) :
    Path.byteLength p.text.toList < socketRoom := by
  rw [Path.socketFault?, not_apart_of_leads hleads, if_neg (by simp)] at hfits
  split at hfits
  · exact absurd hfits (by simp)
  · split at hfits
    · exact absurd hfits (by simp)
    · next hshort => exact Nat.lt_of_not_le hshort

/-- What a server leaves that began to listen at a socket file. -/
structure Listens (fs : Files) (p : Path) (n : Nat) (a : Files) : Prop where
  fits : p.socketFault? = none
  leads : Leads fs p (fs.place p)
  free : fs.at? (fs.place p) = none
  eq_put : a = fs.put (fs.place p) (.socket (some n))

/-- A socket file is put at a free place. -/
theorem listen_eq_ok (h : fs.listen p n = .ok a) : Listens fs p n a := by
  rw [listen] at h
  split at h
  · exact absurd h (by simp)
  · next hfits =>
    obtain ⟨t, ht, h⟩ := exists_of_bind h
    have htarget := target_eq_ok ht
    split at h
    · exact absurd h (by simp)
    · next segment hname =>
      obtain ⟨⟨place, entry⟩, hentry, h⟩ := exists_of_bind h
      obtain ⟨next, hstep, hentry⟩ := exists_of_bind hentry
      obtain ⟨rfl, rfl⟩ := Prod.mk.inj (Except.ok.inj hentry)
      dsimp only at h
      split at h
      · exact absurd h (by simp)
      · next hfree =>
        split at h
        · exact absurd h (by simp)
        · next hseparated =>
          rw [Bool.not_eq_true] at hfree hseparated
          have hleads := htarget.leads hname hseparated hstep
          obtain rfl := hleads.eq_place
          exact ⟨hfits, hleads, by simpa using hfree, (Except.ok.inj h).symm⟩

/-- Where a path with a name leads, a socket file is put if the place is free. -/
theorem listen_of_leads (hname : p.HasName) (h : Leads fs p loc) :
    fs.listen p n = match p.socketFault? with
      | some e => .error e
      | none =>
        if (fs.at? loc).isSome then .error .addressInUse
        else .ok (fs.put loc (.socket (some n))) := by
  obtain ⟨t, segment, htarget, hsegment, hseparated, hstep⟩ := target_of_leads hname h
  rw [listen, htarget]
  simp only [bind, Except.bind, hsegment, entryOf, hstep]
  rw [hseparated]
  rfl

namespace Listens

variable (h : Listens fs p n a)
include h

/-- The place of the file is no directory. -/
theorem not_directory : fs.isDirectoryAt (fs.place p) = false := by
  rw [isDirectoryAt, h.free]
  rfl

/-- The file is there. -/
theorem at?_place : a.at? (fs.place p) = some (.socket (some n)) := by
  rw [h.eq_put, at?_put (ne_nil_of_isDirectoryAt h.not_directory), if_pos rfl]

/-- Nothing else changes. -/
theorem spares : Spares [fs.place p] fs a := by
  rw [h.eq_put]
  refine spares_of_at? h.not_directory rfl fun other hother => ?_
  rw [at?_put (ne_nil_of_isDirectoryAt h.not_directory), if_neg hother]

end Listens

/-- A server whose file is where a path leads accepts connections there. -/
theorem connect_of_leads (hfits : p.socketFault? = none) (hleads : Leads fs p loc)
    (hat : fs.at? loc = some (.socket (some n))) : fs.connect p = .ok n := by
  rw [connect, hfits]
  dsimp only
  rw [not_apart_of_leads hleads, stat_of_leads hleads hat]
  rfl

/-- A path at which a server accepts a connection leads to its file, and fits a socket address. -/
theorem connect_eq_ok (h : fs.connect p = .ok n) : p.socketFault? = none ∧
    Leads fs p (fs.place p) ∧ fs.at? (fs.place p) = some (.socket (some n)) := by
  rw [connect] at h
  split at h
  · exact absurd h (by simp)
  · next hfits =>
    split at h
    · exact absurd h (by simp)
    · split at h
      · next hstat =>
        have hat := at?_of_stat hstat
        rw [← Except.ok.inj h]
        refine ⟨hfits, (leads_or_directory hstat).resolve_right ?_, hat⟩
        rw [isDirectoryAt, hat]
        simp
      · exact absurd h (by simp)
      · exact absurd h (by simp)

/-- The file of a server that accepts a connection is at the place of the path. -/
theorem at?_of_connect (h : fs.connect p = .ok n) :
    fs.at? (fs.place p) = some (.socket (some n)) := (connect_eq_ok h).2.2

/-! ### Stopping -/

/-- What is left of an entry when a server stopped. -/
def abandoned (n : Nat) (e : Entry) : Entry := if e = .socket (some n) then .socket none else e

/-- Stopping turns the socket files of a server into files that accept nothing. -/
theorem at?_abandon (fs : Files) (n : Nat) (loc : Location) :
    (fs.abandon n).at? loc = (fs.at? loc).map (abandoned n) := by
  have hlookup (entries : List (Location × Entry)) :
      (entries.map fun x =>
        if x.2 = .socket (some n) then (x.1, .socket none) else x).lookup loc =
      (entries.lookup loc).map (abandoned n) := by
    induction entries with
    | nil => rfl
    | cons x rest ih =>
      obtain ⟨place, e⟩ := x
      have hhead : (if e = .socket (some n) then (place, Entry.socket none) else (place, e)) =
          (place, abandoned n e) := by
        rw [abandoned]
        split <;> rfl
      simp only [List.map_cons, hhead, List.lookup_cons]
      split
      · rfl
      · exact ih
  rw [at?, at?]
  by_cases hroot : loc = []
  · rw [if_pos hroot, if_pos hroot]
    rfl
  · rw [if_neg hroot, if_neg hroot]
    exact hlookup fs.entries

/-- Stopping leaves the shape of the tree. -/
theorem sameShape_abandon (fs : Files) (n : Nat) : SameShape fs (fs.abandon n) := by
  refine ⟨rfl, fun loc => ?_, fun loc => ?_⟩
  · rw [at?_abandon, Option.isSome_map]
  · rw [isDirectoryAt, isDirectoryAt, at?_abandon]
    rcases fs.at? loc with _ | (_ | _ | server)
    · rfl
    · rfl
    · rfl
    · rw [Option.map_some, abandoned]
      split <;> rfl

/-- Stopping changes nothing but entries of the tree. -/
theorem spares_abandon (fs : Files) (n : Nat) :
    Spares (fs.entries.map Prod.fst) fs (fs.abandon n) := by
  refine ⟨rfl, fun loc hloc => ?_, fun loc hloc => .inl ?_⟩
  · rw [← (sameShape_abandon fs n).directory]
    exact hloc
  · rw [at?_abandon, at?]
    by_cases hroot : loc = []
    · rw [if_pos hroot]
      rfl
    · rw [if_neg hroot]
      have hnone : fs.entries.lookup loc = none := by
        rw [List.lookup_eq_none_iff]
        intro x hx
        rw [bne_iff_ne]
        rintro rfl
        exact hloc (List.mem_map_of_mem hx)
      rw [hnone]
      rfl

/-- Socket files of other servers stay as they are. -/
theorem at?_abandon_of_ne (hne : m ≠ n) :
    (fs.abandon n).at? loc = some (.socket (some m)) ↔
      fs.at? loc = some (.socket (some m)) := by
  rw [at?_abandon]
  constructor
  · intro h
    obtain ⟨e, hat, he⟩ := Option.map_eq_some_iff.mp h
    rw [abandoned] at he
    split at he
    · exact absurd he (by simp)
    · rw [hat, he]
  · intro h
    rw [h, Option.map_some, abandoned, if_neg (by simpa using hne)]

end Files

/-! ### Connections -/

namespace Access

variable {h : Host}

/-- The server that accepts a connection to an endpoint. -/
def connect (e : Endpoint) : Access Nat :=
  match e with
  | .localSocket _ path => connectSocket path
  | .loopbackHttp _ port => connectPort port

/-- Whatever happens before a connection is made, making it changes nothing. -/
theorem connect_snd (e : Endpoint) (h : Host) : (connect e h).2 = h.enter.2 := by
  cases e with
  | localSocket owner path =>
    rw [connect, connectSocket, look]
    rcases h.enter with ⟨_ | cause, h'⟩ <;> rfl
  | loopbackHttp owner port =>
    rw [connect, connectPort]
    rcases h.enter with ⟨_ | cause, h'⟩
    · cases hport : h'.ports.lookup port <;> simp only [hport]
    · rfl

end Access
end IncrementalBuild
