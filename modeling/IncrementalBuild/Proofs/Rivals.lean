import IncrementalBuild.Proofs.Contest
/-!
# Servers of one socket file

Servers of one owner look for each other at one socket file. Before a server binds the file, it
knocks, and removes the file if nobody answers; when it closes, it removes the file by its name.
Between the look and the removal others may have come, so that it removes the file of a server
that listens, which nobody can reach any more.

Where this happens can be read off the log. Either a server cleared away a file although it knocked
before the owner of the file began to listen, or knocked in vain because its path has no room in a
socket address. Or a server removed a file when it closed that was bound after it stopped.

## Main definitions

* `Contest.Rivals` — servers whose socket files are one file.
* `Contest.Lost` — the file of a server was taken away.
* `Contest.Overtaken`, `Contest.Outlived` — the two ways to race.
* `Contest.Moves` — what a step does on a quiet host.
* `Contest.InLine`, `Contest.Unraced` — what is true at any time, and as long as nobody races.

## Main results

* `Contest.step_moves` — what a step does, case by case.
* `Contest.inLine_run` — what steps in any order keep.
* `Contest.own_unless_raced` — a server that listens is where its endpoint leads, unless it was
  raced.
-/

namespace IncrementalBuild.Server

open Files (Leads Spares Listens)

/-- Where a stage stands in a life. -/
def Stage.rank : Stage → Nat
  | .coming => 0
  | .looking => 1
  | .knocking => 2
  | .clearing => 3
  | .binding => 4
  | .bound _ => 5
  | .listening _ => 6
  | .closing => 7
  | .ended => 8

/-- The stage at which a server has done a deed. -/
def Act.rank : Act → Nat
  | .knocked => 3
  | .cleared => 4
  | .bound => 5
  | .began => 6
  | .stopped => 7
  | .removed => 8

namespace Contest

variable {servers : Nat → Server} {path : Nat → Path} {c c' : Contest} {i j n m : Nat}
  {loc : Location} {log : List Deed} {p : Path}

/-- Servers whose socket files are one file. -/
structure Rivals (servers : Nat → Server) (path : Nat → Path) : Prop where
  socket : ∀ i, ∃ owner, (servers i).endpoint = .localSocket owner (path i)
  same : ∀ i j, (path i).same (path j) = true

/-! ### What a step does -/

/-- What a step of a server on a quiet host does, where `p` is the path of its socket file. -/
inductive Moves (p : Path) (c : Contest) (i : Nat) : Contest → Prop
  /-- It goes on, or ends; at most, directories are made. -/
  | passes (files : Files) (x : Stage) (hspares : Spares [] c.host.files files)
      (hidle : (c.stage i).number? = none) (hx : x = .looking ∨ x = .binding ∨ x = .ended)
      (hrank : (c.stage i).rank ≤ x.rank) :
      Moves p c i (({ c with host := { c.host with files } } : Contest).move i x)
  /-- It finds that something stands at the path. -/
  | finds (entry : Entry) (hstage : c.stage i = .looking)
      (hthere : c.host.files.stat p = .ok entry) : Moves p c i (c.move i .knocking)
  /-- Nobody answers. -/
  | knocks (hstage : c.stage i = .knocking)
      (hrefused : ∀ n, c.host.files.connect p = .ok n → c.silent n = true) :
      Moves p c i ((c.move i .clearing).note i .knocked)
  /-- It removes what stands at the path. -/
  | clears (hstage : c.stage i = .clearing)
      (hdirectory : c.host.files.isDirectoryAt (c.host.files.place p) = false) :
      Moves p c i ((({ c with host := { c.host with
        files := c.host.files.drop (c.host.files.place p) } } : Contest).move i .binding).note i
        .cleared)
  /-- It puts its socket file at the path. -/
  | binds (files : Files) (hstage : c.stage i = .binding)
      (hlistens : Listens c.host.files p c.host.servers files) :
      Moves p c i ((({ c with
        host := { c.host with files, servers := c.host.servers + 1 }
        numbers := (c.host.servers, i) :: c.numbers } : Contest).move i
        (.bound c.host.servers)).note i .bound)
  /-- It listens. -/
  | begins (n : Nat) (hstage : c.stage i = .bound n) :
      Moves p c i ((c.move i (.listening n)).note i .began)
  /-- It does not listen any more. -/
  | stops (n : Nat) (hstage : c.stage i = .listening n) :
      Moves p c i ((({ c with host := c.host.stopListening n } : Contest).move i .closing).note i
        .stopped)
  /-- It removes what stands at the path, and ends. -/
  | removes (hstage : c.stage i = .closing)
      (hdirectory : c.host.files.isDirectoryAt (c.host.files.place p) = false) :
      Moves p c i ((({ c with host := { c.host with
        files := c.host.files.drop (c.host.files.place p) } } : Contest).move i .ended).note i
        .removed)

/-- A server that stays at its stage changes nothing. -/
theorem move_self {x : Stage} (h : c.stage i = x) : c.move i x = c := by
  have hstage : (fun j => if j = i then x else c.stage j) = c.stage := by
    funext j
    split
    · next heq => rw [heq, h]
    · rfl
  rw [move, hstage]

/-- A server that leaves the files alone passes on. -/
theorem Moves.on {x : Stage} (hidle : (c.stage i).number? = none)
    (hx : x = .looking ∨ x = .binding ∨ x = .ended) (hrank : (c.stage i).rank ≤ x.rank) :
    Moves p c i (c.move i x) :=
  .passes c.host.files x (.refl [] _) hidle hx hrank

/-- The directory of a socket file is made where it is missing. -/
theorem makeDirectory_quiet {h : Host} (quiet : h.interference = []) (p : Path) :
    ∃ files, Spares [] h.files files ∧ (makeDirectory p h).2 = { h with files } := by
  rw [makeDirectory]
  rcases p.parent? with _ | dir
  · exact ⟨h.files, .refl [] _, rfl⟩
  · dsimp only
    rw [Access.createDirectories_quiet dir quiet]
    have hspares := Files.spares_createDirectories h.files dir
    rcases hmake : h.files.createDirectories dir with ⟨_ | cause, files⟩
    · exact ⟨files, by rwa [hmake] at hspares, rfl⟩
    · exact ⟨files, by rwa [hmake] at hspares, rfl⟩

/-- Removing a socket file empties its place, or fails and changes nothing. -/
theorem remove_quiet {h : Host} (quiet : h.interference = []) (p : Path) :
    (Access.remove p h = (.ok (), { h with files := h.files.drop (h.files.place p) }) ∧
      h.files.isDirectoryAt (h.files.place p) = false) ∨
    ∃ cause, Access.remove p h = (.error cause, h) := by
  rw [Access.remove, Access.change_quiet _ quiet]
  rcases hremove : h.files.remove p with cause | files
  · exact .inr ⟨cause, rfl⟩
  · obtain ⟨hdirectory, rfl⟩ := Files.remove_eq_ok hremove
    exact .inl ⟨rfl, hdirectory⟩

/-- A socket file is put at its place, or it fails and changes nothing. -/
theorem bind_quiet {h : Host} {owner : Nat} (quiet : h.interference = []) (p : Path) :
    (∃ files, bind (.localSocket owner p) h =
        (.ok h.servers, { h with files, servers := h.servers + 1 }) ∧
      Listens h.files p h.servers files) ∨
    ∃ cause, bind (.localSocket owner p) h = (.error cause, h) := by
  rw [bind, Access.listenSocket, Access.change_quiet _ quiet]
  rcases hlisten : h.files.listen p h.servers with cause | files
  · exact .inr ⟨cause, rfl⟩
  · exact .inl ⟨files, rfl, Files.listen_eq_ok hlisten⟩

/-- A connection on a quiet host is made to a server that is not silent, and changes nothing. -/
theorem connect_quiet (quiet : c.host.interference = []) (owner : Nat) (p : Path) :
    (∃ n, c.connect (.localSocket owner p) = (.ok n, c.host) ∧
      c.host.files.connect p = .ok n ∧ c.silent n = false) ∨
    ((∃ cause, c.connect (.localSocket owner p) = (.error cause, c.host)) ∧
      ∀ n, c.host.files.connect p = .ok n → c.silent n = true) := by
  rw [connect, Access.connect, Access.connectSocket, Access.look_quiet _ quiet]
  rcases c.host.files.connect p with cause | n
  · exact .inr ⟨⟨cause, rfl⟩, by simp⟩
  · dsimp only
    rcases hsilent : c.silent n with _ | _
    · exact .inl ⟨n, rfl, rfl, hsilent⟩
    · refine .inr ⟨⟨_, rfl⟩, fun m hm => ?_⟩
      obtain rfl := Except.ok.inj hm
      exact hsilent

/-- **Steps.** What a step does that a server takes on a quiet host. -/
theorem step_moves {owner : Nat} (hsocket : (servers i).endpoint = .localSocket owner p)
    (quiet : c.host.interference = []) : Moves p c i (c.step servers i) := by
  have hfile : (servers i).endpoint.file? = some p := by rw [hsocket]; rfl
  rw [step, hfile]
  dsimp only
  split
  · next hstage =>
    have hidle : (c.stage i).number? = none := by rw [hstage]; rfl
    have hrank : (c.stage i).rank = 0 := by rw [hstage]; rfl
    split
    · exact .on hidle (by simp) (by omega)
    · rw [hsocket, show prepare (.localSocket owner p) = makeDirectory p from rfl]
      obtain ⟨files, hspares, hmade⟩ := makeDirectory_quiet quiet p
      rcases hmake : makeDirectory p c.host with ⟨cause | _, host⟩
      · rw [hmake] at hmade
        obtain rfl : host = _ := hmade
        exact .passes files _ hspares hidle (by simp) (by omega)
      · rw [hmake] at hmade
        obtain rfl : host = _ := hmade
        exact .passes files _ hspares hidle (by simp) (by omega)
  · next hstage =>
    have hidle : (c.stage i).number? = none := by rw [hstage]; rfl
    rw [isThere, Access.stat, Access.look_quiet _ quiet]
    rcases hstat : c.host.files.stat p with cause | entry
    · exact .on hidle (by simp) (by rw [hstage]; decide)
    · exact .finds entry hstage hstat
  · next hstage =>
    rw [hsocket]
    rcases connect_quiet quiet owner p with ⟨n, hconnect, -, -⟩ | ⟨⟨cause, hconnect⟩, hrefused⟩
    · rw [hconnect]
      exact .on (by rw [hstage]; rfl) (by simp) (by rw [hstage]; decide)
    · rw [hconnect]
      exact .knocks hstage hrefused
  · next hstage =>
    rcases remove_quiet quiet p with ⟨hremove, hdirectory⟩ | ⟨cause, hremove⟩
    · rw [hremove]
      exact .clears hstage hdirectory
    · rw [hremove]
      exact .on (by rw [hstage]; rfl) (by simp) (by rw [hstage]; decide)
  · next hstage =>
    rw [hsocket]
    rcases bind_quiet quiet p with ⟨files, hbind, hlistens⟩ | ⟨cause, hbind⟩
    · rw [hbind]
      exact .binds files hstage hlistens
    · rw [hbind]
      exact .on (by rw [hstage]; rfl) (by simp) (by rw [hstage]; decide)
  · next n hstage => exact .begins n hstage
  · next n hstage => exact .stops n hstage
  · next hstage =>
    rcases remove_quiet quiet p with ⟨hremove, hdirectory⟩ | ⟨cause, hremove⟩
    · rw [hremove]
      exact .removes hstage hdirectory
    · rw [hremove]
      exact .on (by rw [hstage]; rfl) (by simp) (by rw [hstage]; decide)
  · next hstage =>
    have hself : Moves p c i (c.move i .ended) :=
      .on (by rw [hstage]; rfl) (by simp) (by rw [hstage])
    rwa [move_self hstage] at hself

/-! ### Who holds the file -/

/-- Another server took the socket file of a server away. -/
def Lost (log : List Deed) (i : Nat) : Prop :=
  ∃ j, j ≠ i ∧ (After log ⟨j, .cleared⟩ ⟨i, .bound⟩ ∨ After log ⟨j, .removed⟩ ⟨i, .bound⟩)

/-- What a deed takes away. -/
theorem lost_cons {d : Deed} : Lost (d :: log) i ↔ Lost log i ∨
    d.server ≠ i ∧ (d.act = .cleared ∨ d.act = .removed) ∧ ⟨i, .bound⟩ ∈ log := by
  simp only [Lost, after_cons]
  constructor
  · rintro ⟨j, hj, (h | ⟨rfl, h⟩) | (h | ⟨rfl, h⟩)⟩
    · exact .inl ⟨j, hj, .inl h⟩
    · exact .inr ⟨hj, .inl rfl, h⟩
    · exact .inl ⟨j, hj, .inr h⟩
    · exact .inr ⟨hj, .inr rfl, h⟩
  · obtain ⟨k, a⟩ := d
    rintro (⟨j, hj, h | h⟩ | ⟨hk, rfl | rfl, h⟩)
    · exact ⟨j, hj, .inl (.inl h)⟩
    · exact ⟨j, hj, .inr (.inl h)⟩
    · exact ⟨k, hk, .inl (.inr ⟨rfl, h⟩)⟩
    · exact ⟨k, hk, .inr (.inr ⟨rfl, h⟩)⟩

/-- What is true of a server that has a number, where `p` is the path of its socket file. -/
structure Holds (p : Path) (loc : Location) (c : Contest) (i n : Nat) : Prop where
  noted : ⟨i, .bound⟩ ∈ c.log
  counted : n < c.host.servers
  known : c.numbers.lookup n = some i
  fits : p.socketFault? = none
  leads : Leads c.host.files p loc
  file : c.host.files.at? loc = some (.socket (some n)) ↔ ¬Lost c.log i

/-- What is true of servers whose socket files are one, at the place `loc`, at any time. -/
structure InLine (path : Nat → Path) (loc : Location) (c : Contest) : Prop where
  quiet : c.host.interference = []
  place : ∀ i, c.host.files.place (path i) = loc
  ranked : ∀ d ∈ c.log, d.act.rank ≤ (c.stage d.server).rank
  stopped : ∀ i, c.stage i = .closing → ⟨i, .stopped⟩ ∈ c.log
  found : ∀ i, c.stage i = .knocking →
    Leads c.host.files (path i) loc ∨ c.host.files.isDirectoryAt loc = true
  holds : ∀ i n, (c.stage i).number? = some n → Holds (path i) loc c i n

/-- Nobody has another one's number. -/
theorem InLine.distinct (h : InLine path loc c) (hi : (c.stage i).number? = some n)
    (hj : (c.stage j).number? = some n) : i = j :=
  Option.some.inj ((h.holds i n hi).known.symm.trans (h.holds j n hj).known)

/-- A server listens where its endpoint leads, as long as nobody took its file. -/
theorem InLine.connect_iff (h : InLine path loc c) {owner : Nat}
    (hlistens : c.stage i = .listening n) :
    (c.connect (.localSocket owner (path i))).1 = .ok n ↔ ¬Lost c.log i := by
  have hholds := h.holds i n (by rw [hlistens]; rfl)
  rw [← hholds.file]
  constructor
  · intro hconnect
    rcases connect_quiet h.quiet owner (path i) with ⟨m, hm, hfiles, -⟩ | ⟨⟨_, hm⟩, -⟩
    · rw [hm] at hconnect
      obtain rfl := Except.ok.inj hconnect
      rw [← h.place i]
      exact Files.at?_of_connect hfiles
    · rw [hm] at hconnect
      exact absurd hconnect (by simp)
  · intro hat
    have hfiles := Files.connect_of_leads hholds.fits hholds.leads hat
    have hsilent : c.silent n = false := by
      rw [silent, hholds.known]
      dsimp only
      rw [hlistens]
      rfl
    rcases connect_quiet h.quiet owner (path i) with ⟨m, hm, hm', -⟩ | ⟨-, hrefused⟩
    · rw [hm]
      exact hm'.symm.trans hfiles
    · exact absurd (hrefused n hfiles) (by simp [hsilent])

/-- Of two servers that listen, one has lost its file. -/
theorem InLine.lost_or_lost (h : InLine path loc c) (hne : i ≠ j)
    (hi : (c.stage i).number? = some n) (hj : (c.stage j).number? = some m) :
    Lost c.log i ∨ Lost c.log j := by
  by_contra hkept
  rw [not_or] at hkept
  have hati := (h.holds i n hi).file.mpr hkept.1
  have hatj := (h.holds j m hj).file.mpr hkept.2
  rw [hati] at hatj
  obtain rfl : n = m := by simpa using hatj
  exact hne (h.distinct hi hj)

/-- A server has not done what belongs to a later stage. -/
theorem InLine.not_mem_of_rank (h : InLine path loc c) {a : Act}
    (hrank : (c.stage i).rank < a.rank) : ⟨i, a⟩ ∉ c.log :=
  fun hmem => absurd (h.ranked _ hmem) (Nat.not_le_of_lt hrank)

/-- Who has a number is about to listen, or listens. -/
theorem Stage.number?_eq_some {x : Stage} (h : x.number? = some n) :
    x = .bound n ∨ x = .listening n := by
  cases x <;> simp_all [Stage.number?]

/-- Nobody takes a file before it is there. -/
theorem InLine.not_lost_of_binding (h : InLine path loc c) (hstage : c.stage i = .binding) :
    ¬Lost c.log i := by
  have hnew : ⟨i, .bound⟩ ∉ c.log :=
    h.not_mem_of_rank (by simp [hstage, Stage.rank, Act.rank])
  rintro ⟨j, -, hlost | hlost⟩ <;> exact hnew hlost.mem

/-! ### Steps keep servers in line -/

/-- What another step leaves of what is true of a server with a number. -/
theorem Holds.next {places : List Location} (h : Holds p loc c i n) (hlog : c.log ⊆ c'.log)
    (hservers : c.host.servers ≤ c'.host.servers)
    (hknown : c'.numbers.lookup n = c.numbers.lookup n)
    (hspares : Spares places c.host.files c'.host.files)
    (hfile : c'.host.files.at? loc = some (.socket (some n)) ↔ ¬Lost c'.log i) :
    Holds p loc c' i n where
  noted := hlog h.noted
  counted := Nat.lt_of_lt_of_le h.counted hservers
  known := hknown.trans h.known
  fits := h.fits
  leads := h.leads.spares hspares
  file := hfile

/-- What there is to show of a step of server `i`, so that servers stay in line: what it does to
the host, and to the files of others. -/
structure Turn (path : Nat → Path) (loc : Location) (c : Contest) (i : Nat) (c' : Contest) :
    Prop where
  quiet : c'.host.interference = []
  spares : ∃ places, Spares places c.host.files c'.host.files
  others : ∀ j, j ≠ i → c'.stage j = c.stage j
  rank : (c.stage i).rank ≤ (c'.stage i).rank
  log : c'.log = c.log ∨ ∃ a : Act, c'.log = ⟨i, a⟩ :: c.log ∧ a.rank ≤ (c'.stage i).rank
  stopped : c'.stage i = .closing → ⟨i, .stopped⟩ ∈ c'.log
  found : c'.stage i = .knocking →
    Leads c'.host.files (path i) loc ∨ c'.host.files.isDirectoryAt loc = true
  servers : c.host.servers ≤ c'.host.servers
  known : ∀ n, n < c.host.servers → c'.numbers.lookup n = c.numbers.lookup n
  files : ∀ j n, j ≠ i → (c.stage j).number? = some n →
    (c'.host.files.at? loc = some (.socket (some n)) ↔ ¬Lost c'.log j)
  holds : ∀ n, (c'.stage i).number? = some n → Holds (path i) loc c' i n

/-- Servers stay in line at a turn. -/
theorem InLine.next (h : InLine path loc c) (hturn : Turn path loc c i c') :
    InLine path loc c' := by
  obtain ⟨places, hspares⟩ := hturn.spares
  have hlog : c.log ⊆ c'.log := by
    rcases hturn.log with heq | ⟨a, heq, -⟩
    · rw [heq]
      exact List.Subset.refl _
    · rw [heq]
      exact List.subset_cons_self _ _
  refine ⟨hturn.quiet, fun j => ?_, fun d hd => ?_, fun j hj => ?_, fun j hj => ?_,
    fun j n hj => ?_⟩
  · rw [Files.place_congr hspares.workDir.symm]
    exact h.place j
  · have hold : ∀ d ∈ c.log, d.act.rank ≤ (c'.stage d.server).rank := by
      intro d hd
      by_cases hi : d.server = i
      · have := h.ranked d hd
        rw [hi] at this ⊢
        exact this.trans hturn.rank
      · rw [hturn.others _ hi]
        exact h.ranked d hd
    rcases hturn.log with heq | ⟨a, heq, ha⟩
    · rw [heq] at hd
      exact hold d hd
    · rw [heq] at hd
      rcases List.mem_cons.mp hd with rfl | hd
      · exact ha
      · exact hold d hd
  · by_cases hi : j = i
    · rw [hi] at hj ⊢
      exact hturn.stopped hj
    · rw [hturn.others j hi] at hj
      exact hlog (h.stopped j hj)
  · by_cases hi : j = i
    · rw [hi] at hj ⊢
      exact hturn.found hj
    · rw [hturn.others j hi] at hj
      rcases h.found j hj with hleads | hdirectory
      · exact .inl (hleads.spares hspares)
      · exact .inr (hspares.directories loc hdirectory)
  · by_cases hi : j = i
    · rw [hi] at hj ⊢
      exact hturn.holds n hj
    · rw [hturn.others j hi] at hj
      have hholds := h.holds j n hj
      exact hholds.next hlog hturn.servers (hturn.known n hholds.counted) hspares
        (hturn.files j n hi hj)

/-- A tree that keeps a place has a socket file there exactly if it had it before. -/
theorem at?_socket_iff {a b : Files} (h : Spares [] a b) :
    b.at? loc = some (.socket (some n)) ↔ a.at? loc = some (.socket (some n)) := by
  rcases h.elsewhere loc (by simp) with heq | ⟨hnone, hdirectory⟩
  · rw [heq]
  · rw [hnone, hdirectory]
    simp

/-- When a file is removed, everybody else has lost it. -/
theorem InLine.lost_of_drop (h : InLine path loc c) {a : Act} (ha : a = .cleared ∨ a = .removed)
    (hdirectory : c.host.files.isDirectoryAt loc = false) (hne : j ≠ i)
    (hj : (c.stage j).number? = some n) :
    (c.host.files.drop loc).at? loc = some (.socket (some n)) ↔ ¬Lost (⟨i, a⟩ :: c.log) j := by
  rw [Files.at?_drop (Files.ne_nil_of_isDirectoryAt hdirectory), if_pos rfl]
  simp only [reduceCtorEq, false_iff, not_not]
  exact lost_cons.mpr (.inr ⟨hne.symm, ha, (h.holds j n hj).noted⟩)

/-- A deed that removes nothing leaves everybody's file. -/
theorem lost_cons_of_ne {d : Deed} (hc : d.act ≠ .cleared) (hr : d.act ≠ .removed) :
    Lost (d :: log) i ↔ Lost log i := by
  rw [lost_cons]
  simp [hc, hr]

/-- A server puts its file where nothing stands, so everybody else had lost theirs. -/
theorem InLine.turn_binds (h : InLine path loc c) {files : Files} (hstage : c.stage i = .binding)
    (hlistens : Listens c.host.files (path i) c.host.servers files) :
    Turn path loc c i ((({ c with
      host := { c.host with files, servers := c.host.servers + 1 }
      numbers := (c.host.servers, i) :: c.numbers } : Contest).move i
      (.bound c.host.servers)).note i .bound) := by
  have hplace := h.place i
  have hfree : c.host.files.at? loc = none := by rw [← hplace]; exact hlistens.free
  have hat : files.at? loc = some (.socket (some c.host.servers)) := by
    rw [← hplace]
    exact hlistens.at?_place
  have hkept : ¬Lost (⟨i, .bound⟩ :: c.log) i := by
    rw [lost_cons_of_ne (by simp) (by simp)]
    exact h.not_lost_of_binding hstage
  exact
    { quiet := h.quiet
      spares := ⟨_, hlistens.spares⟩
      others := fun j hj => stage_move_of_ne _ i _ hj
      rank := by simp [hstage, Stage.rank]
      log := .inr ⟨_, rfl, by simp [Act.rank, Stage.rank]⟩
      stopped := by simp
      found := by simp
      servers := Nat.le_succ _
      known := fun n hn => by
        change ((c.host.servers, i) :: c.numbers).lookup n = _
        rw [List.lookup_cons, beq_eq_false_iff_ne.mpr hn.ne]
      files := fun j n hj hn => by
        have hholds := h.holds j n hn
        have hlost : Lost c.log j := by
          have hfile := hholds.file
          rw [hfree] at hfile
          simpa using hfile
        change files.at? loc = some (.socket (some n)) ↔ ¬Lost (⟨i, .bound⟩ :: c.log) j
        rw [hat, lost_cons_of_ne (by simp) (by simp)]
        simp [hlost, hholds.counted.ne']
      holds := fun n hn => by
        obtain rfl : c.host.servers = n := by simpa [Stage.number?] using hn
        exact
          { noted := List.mem_cons_self
            counted := Nat.lt_succ_self _
            known := List.lookup_cons_self
            fits := hlistens.fits
            leads := by
              rw [← hplace]
              exact hlistens.leads.spares hlistens.spares
            file := iff_of_true hat hkept } }

/-- A server that goes on, or ends, leaves files where they are. -/
theorem InLine.turn_passes (h : InLine path loc c) {files : Files} {x : Stage}
    (hspares : Spares [] c.host.files files) (hx : x = .looking ∨ x = .binding ∨ x = .ended)
    (hrank : (c.stage i).rank ≤ x.rank) :
    Turn path loc c i (({ c with host := { c.host with files } } : Contest).move i x) where
  quiet := h.quiet
  spares := ⟨[], hspares⟩
  others _ hj := stage_move_of_ne _ i x hj
  rank := by simpa using hrank
  log := .inl rfl
  stopped := by rcases hx with rfl | rfl | rfl <;> simp
  found := by rcases hx with rfl | rfl | rfl <;> simp
  servers := Nat.le_refl _
  known _ _ := rfl
  files j n _ hn := (at?_socket_iff hspares).trans (h.holds j n hn).file
  holds := by rcases hx with rfl | rfl | rfl <;> simp [Stage.number?]

/-- A server finds something at its path, so that the path leads there, or a directory stands
there. -/
theorem InLine.turn_finds (h : InLine path loc c) {entry : Entry} (hstage : c.stage i = .looking)
    (hthere : c.host.files.stat (path i) = .ok entry) :
    Turn path loc c i (c.move i .knocking) where
  quiet := h.quiet
  spares := ⟨[], .refl [] _⟩
  others _ hj := stage_move_of_ne _ i _ hj
  rank := by simp [hstage, Stage.rank]
  log := .inl rfl
  stopped := by simp
  found _ := h.place i ▸ Files.leads_or_directory hthere
  servers := Nat.le_refl _
  known _ _ := rfl
  files j n _ hn := (h.holds j n hn).file
  holds := by simp [Stage.number?]

/-- A server knocks in vain. -/
theorem InLine.turn_knocks (h : InLine path loc c) (hstage : c.stage i = .knocking) :
    Turn path loc c i ((c.move i .clearing).note i .knocked) where
  quiet := h.quiet
  spares := ⟨[], .refl [] _⟩
  others _ hj := stage_move_of_ne c i _ hj
  rank := by simp [hstage, Stage.rank]
  log := .inr ⟨_, rfl, by simp [Act.rank, Stage.rank]⟩
  stopped := by simp
  found := by simp
  servers := Nat.le_refl _
  known _ _ := rfl
  files j n _ hn :=
    (h.holds j n hn).file.trans (not_congr (lost_cons_of_ne (by simp) (by simp)).symm)
  holds := by simp [Stage.number?]

/-- A server removes the file at its path, before it binds its own or when it closes. -/
theorem InLine.turn_drops (h : InLine path loc c) {x : Stage} {a : Act}
    (hx : x = .binding ∨ x = .ended) (ha : a = .cleared ∨ a = .removed)
    (hrank : (c.stage i).rank ≤ x.rank) (hdeed : a.rank ≤ x.rank)
    (hdirectory : c.host.files.isDirectoryAt (c.host.files.place (path i)) = false) :
    Turn path loc c i ((({ c with host := { c.host with
      files := c.host.files.drop (c.host.files.place (path i)) } } : Contest).move i x).note i
      a) := by
  rw [h.place i] at hdirectory ⊢
  exact
    { quiet := h.quiet
      spares := ⟨[loc], Files.spares_drop hdirectory⟩
      others := fun _ hj => stage_move_of_ne _ i _ hj
      rank := by simpa using hrank
      log := .inr ⟨_, rfl, by simpa using hdeed⟩
      stopped := by rcases hx with rfl | rfl <;> simp
      found := by rcases hx with rfl | rfl <;> simp
      servers := Nat.le_refl _
      known := fun _ _ => rfl
      files := fun _ _ hj hn => h.lost_of_drop ha hdirectory hj hn
      holds := by rcases hx with rfl | rfl <;> simp [Stage.number?] }

/-- A server that has bound its endpoint begins to listen. -/
theorem InLine.turn_begins (h : InLine path loc c) (hstage : c.stage i = .bound n) :
    Turn path loc c i ((c.move i (.listening n)).note i .began) where
  quiet := h.quiet
  spares := ⟨[], .refl [] _⟩
  others _ hj := stage_move_of_ne c i _ hj
  rank := by simp [hstage, Stage.rank]
  log := .inr ⟨_, rfl, by simp [Act.rank, Stage.rank]⟩
  stopped := by simp
  found := by simp
  servers := Nat.le_refl _
  known _ _ := rfl
  files j m _ hm :=
    (h.holds j m hm).file.trans (not_congr (lost_cons_of_ne (by simp) (by simp)).symm)
  holds m hm := by
    obtain rfl : n = m := by simpa [Stage.number?] using hm
    have hholds := h.holds i n (by rw [hstage]; rfl)
    exact hholds.next (List.subset_cons_self _ _) (Nat.le_refl _) rfl (.refl [] _)
      (hholds.file.trans (not_congr (lost_cons_of_ne (by simp) (by simp)).symm))

/-- A server stops, and leaves the files of others, since they have other numbers. -/
theorem InLine.turn_stops (h : InLine path loc c) (hstage : c.stage i = .listening n) :
    Turn path loc c i ((({ c with host := c.host.stopListening n } : Contest).move i
      .closing).note i .stopped) where
  quiet := h.quiet
  spares := ⟨_, Files.spares_abandon _ n⟩
  others _ hj := stage_move_of_ne _ i _ hj
  rank := by simp [hstage, Stage.rank]
  log := .inr ⟨_, rfl, by simp [Act.rank, Stage.rank]⟩
  stopped _ := List.mem_cons_self
  found := by simp
  servers := Nat.le_refl _
  known _ _ := rfl
  files j m hj hm := by
    have hne : m ≠ n := by
      rintro rfl
      exact hj (h.distinct hm (by rw [hstage]; rfl))
    exact ((Files.at?_abandon_of_ne hne).trans (h.holds j m hm).file).trans
      (not_congr (lost_cons_of_ne (by simp) (by simp)).symm)
  holds := by simp [Stage.number?]

/-- **Turns.** What any step does is a turn. -/
theorem InLine.turn (h : InLine path loc c) (hmoves : Moves (path i) c i c') :
    Turn path loc c i c' := by
  cases hmoves with
  | passes files x hspares hidle hx hrank => exact h.turn_passes hspares hx hrank
  | finds entry hstage hthere => exact h.turn_finds hstage hthere
  | knocks hstage hrefused => exact h.turn_knocks hstage
  | clears hstage hdirectory =>
    exact h.turn_drops (.inl rfl) (.inl rfl) (by simp [hstage, Stage.rank]) (by decide) hdirectory
  | binds files hstage hlistens => exact h.turn_binds hstage hlistens
  | begins n hstage => exact h.turn_begins hstage
  | stops n hstage => exact h.turn_stops hstage
  | removes hstage hdirectory =>
    exact h.turn_drops (.inr rfl) (.inr rfl) (by simp [hstage, Stage.rank]) (by decide) hdirectory

/-! ### Races -/

/-- A server cleared away the file of one that had bound it and had not stopped: it had knocked
before that one began to listen, or the spelling of its own path leaves no room to knock. -/
def Overtaken (path : Nat → Path) (log : List Deed) (i j : Nat) : Prop :=
  ∃ later earlier, log = later ++ ⟨j, .cleared⟩ :: earlier ∧
    ⟨i, .bound⟩ ∈ earlier ∧ ⟨i, .stopped⟩ ∉ earlier ∧
    (¬After earlier ⟨j, .knocked⟩ ⟨i, .began⟩ ∨ (path j).socketFault? ≠ none)

/-- A server that had stopped removed the file of one that bound it since then, and had not
stopped. -/
def Outlived (log : List Deed) (i j : Nat) : Prop :=
  ∃ later earlier, log = later ++ ⟨j, .removed⟩ :: earlier ∧
    After earlier ⟨i, .bound⟩ ⟨j, .stopped⟩ ∧ ⟨i, .stopped⟩ ∉ earlier

/-- Somewhere in a log one server raced another. -/
def Raced (path : Nat → Path) (log : List Deed) : Prop :=
  ∃ i j, i ≠ j ∧ (Overtaken path log i j ∨ Outlived log i j)

/-- A race stays in the log. -/
theorem Raced.cons {d : Deed} (h : Raced path log) : Raced path (d :: log) := by
  obtain ⟨i, j, hne, ⟨later, earlier, rfl, h⟩ | ⟨later, earlier, rfl, h⟩⟩ := h
  · exact ⟨i, j, hne, .inl ⟨d :: later, earlier, rfl, h⟩⟩
  · exact ⟨i, j, hne, .inr ⟨d :: later, earlier, rfl, h⟩⟩

/-- What is true, besides, as long as nobody raced another: who has a number has its file, who
closes has no successor that does not know it, and who clears found nobody at the door. -/
structure Unraced (path : Nat → Path) (c : Contest) : Prop where
  kept : ∀ i n, (c.stage i).number? = some n → ¬Lost c.log i
  followed : ∀ i j n, c.stage i = .closing → (c.stage j).number? = some n →
    After c.log ⟨j, .bound⟩ ⟨i, .stopped⟩
  unanswered : ∀ i j n, c.stage j = .clearing → (path j).socketFault? = none →
    c.stage i = .listening n → ¬After c.log ⟨j, .knocked⟩ ⟨i, .began⟩

/-- What there is to show of a step of server `i`, so that it is without a race. -/
structure Fair (path : Nat → Path) (c : Contest) (i : Nat) (c' : Contest) : Prop where
  others : ∀ j, j ≠ i → c'.stage j = c.stage j
  log : c'.log = c.log ∨ ∃ a, c'.log = ⟨i, a⟩ :: c.log
  keep : ∀ j n, j ≠ i → (c.stage j).number? = some n → ¬Lost c'.log j
  kept : ∀ n, (c'.stage i).number? = some n → ¬Lost c'.log i
  follows : ∀ j n, c.stage j = .closing → (c'.stage i).number? = some n →
    After c'.log ⟨i, .bound⟩ ⟨j, .stopped⟩
  followed : ∀ k n, c'.stage i = .closing → k ≠ i → (c.stage k).number? = some n →
    After c'.log ⟨k, .bound⟩ ⟨i, .stopped⟩
  unanswered : ∀ k n, c'.stage i = .clearing → (path i).socketFault? = none →
    c.stage k = .listening n → ¬After c'.log ⟨i, .knocked⟩ ⟨k, .began⟩
  unheard : ∀ j n, j ≠ i → c'.stage i = .listening n → ¬After c'.log ⟨j, .knocked⟩ ⟨i, .began⟩

/-- Who has knocked is the only one of whom a new deed can say so. -/
theorem not_after_knocked {d : Deed} {a b : Deed} (hne : a ≠ d) (h : ¬After log a b) :
    ¬After (d :: log) a b := by
  rw [after_cons]
  simp [hne, h]

/-- A step without a race leaves no race. -/
theorem Unraced.of_fair (h : Unraced path c) (hfair : Fair path c i c') : Unraced path c' := by
  refine ⟨fun j n hj => ?_, fun j k n hj hk => ?_, fun k j n hj hfits hk => ?_⟩
  · by_cases hji : j = i
    · subst hji
      exact hfair.kept n hj
    · rw [hfair.others j hji] at hj
      exact hfair.keep j n hji hj
  · by_cases hji : j = i
    · subst hji
      have hkj : k ≠ j := by
        rintro rfl
        rw [hj] at hk
        exact absurd hk (by simp [Stage.number?])
      rw [hfair.others k hkj] at hk
      exact hfair.followed k n hj hkj hk
    · rw [hfair.others j hji] at hj
      by_cases hki : k = i
      · subst hki
        exact hfair.follows j n hj hk
      · rw [hfair.others k hki] at hk
        have hafter := h.followed j k n hj hk
        rcases hfair.log with heq | ⟨a, heq⟩
        · rwa [heq]
        · rw [heq]
          exact hafter.cons
  · by_cases hji : j = i
    · subst hji
      have hkj : k ≠ j := by
        rintro rfl
        rw [hj] at hk
        exact absurd hk (by simp)
      rw [hfair.others k hkj] at hk
      exact hfair.unanswered k n hj hfits hk
    · by_cases hki : k = i
      · subst hki
        exact hfair.unheard j n hji hk
      · rw [hfair.others j hji] at hj
        rw [hfair.others k hki] at hk
        have hafter := h.unanswered k j n hj hfits hk
        rcases hfair.log with heq | ⟨a, heq⟩
        · rwa [heq]
        · rw [heq]
          exact not_after_knocked (by simp [hji]) hafter

/-- Who finds a door where nobody answers does not stand at that of a server that listens. -/
theorem Unraced.silent_of_listening (h : Unraced path c) (hline : InLine path loc c)
    (hstage : c.stage i = .knocking) (hfits : (path i).socketFault? = none)
    (hj : c.stage j = .listening n) :
    c.host.files.connect (path i) = .ok n ∧ c.silent n = false := by
  have hnumber : (c.stage j).number? = some n := by rw [hj]; rfl
  have hholds := hline.holds j n hnumber
  have hat := hholds.file.mpr (h.kept j n hnumber)
  have hleads : Leads c.host.files (path i) loc := by
    refine (hline.found i hstage).resolve_right ?_
    rw [Files.isDirectoryAt, hat]
    simp
  refine ⟨Files.connect_of_leads hfits hleads hat, ?_⟩
  rw [silent, hholds.known]
  dsimp only
  rw [hj]
  rfl

/-- Who has a number has not stopped. -/
theorem InLine.stopped_not_mem (h : InLine path loc c) (hi : (c.stage i).number? = some n) :
    ⟨i, .stopped⟩ ∉ c.log := by
  refine h.not_mem_of_rank ?_
  rcases Stage.number?_eq_some hi with hstage | hstage <;> simp [hstage, Stage.rank, Act.rank]

/-- Who clears the file of a server that has a number away overtakes it. -/
theorem Unraced.overtaken (h : Unraced path c) (hline : InLine path loc c)
    (hstage : c.stage j = .clearing) (hi : (c.stage i).number? = some n) :
    Overtaken path (⟨j, .cleared⟩ :: c.log) i j := by
  refine ⟨[], c.log, rfl, (hline.holds i n hi).noted, hline.stopped_not_mem hi, ?_⟩
  by_cases hfits : (path j).socketFault? = none
  · refine .inl ?_
    rcases Stage.number?_eq_some hi with hbound | hlistens
    · exact fun hafter =>
        hline.not_mem_of_rank (by simp [hbound, Stage.rank, Act.rank]) hafter.mem
    · exact h.unanswered i j n hstage hfits hlistens
  · exact .inr hfits

/-- A step is without a race if nobody else loses a file by it, and it leads to a stage at which
that bears on nobody: there the server has no number, and neither clears nor closes. -/
theorem Fair.of_idle {x : Stage} (hstage : c'.stage i = x)
    (hothers : ∀ j, j ≠ i → c'.stage j = c.stage j)
    (hlog : c'.log = c.log ∨ ∃ a, c'.log = ⟨i, a⟩ :: c.log)
    (hkeep : ∀ j n, j ≠ i → (c.stage j).number? = some n → ¬Lost c'.log j)
    (hx : x = .looking ∨ x = .knocking ∨ x = .binding ∨ x = .ended) : Fair path c i c' where
  others := hothers
  log := hlog
  keep := hkeep
  kept := by rcases hx with rfl | rfl | rfl | rfl <;> simp [hstage, Stage.number?]
  follows := by rcases hx with rfl | rfl | rfl | rfl <;> simp [hstage, Stage.number?]
  followed := by rcases hx with rfl | rfl | rfl | rfl <;> simp [hstage]
  unanswered := by rcases hx with rfl | rfl | rfl | rfl <;> simp [hstage]
  unheard := by rcases hx with rfl | rfl | rfl | rfl <;> simp [hstage]

/-- Who knocks in vain did not knock at the door of a server that listens. -/
theorem Unraced.fair_knocks (h : Unraced path c) (hline : InLine path loc c)
    (hstage : c.stage i = .knocking)
    (hrefused : ∀ n, c.host.files.connect (path i) = .ok n → c.silent n = true) :
    Fair path c i ((c.move i .clearing).note i .knocked) where
  others _ hj := stage_move_of_ne c i _ hj
  log := .inr ⟨_, rfl⟩
  keep j n _ hj := (lost_cons_of_ne (by simp) (by simp)).not.mpr (h.kept j n hj)
  kept := by simp [Stage.number?]
  follows := by simp [Stage.number?]
  followed := by simp
  unanswered k n _ hfits hk := by
    obtain ⟨hconnect, hsilent⟩ := h.silent_of_listening hline hstage hfits hk
    exact absurd (hrefused n hconnect) (by simp [hsilent])
  unheard := by simp

/-- Who binds its endpoint does so after all who are about to remove a file have stopped. -/
theorem Unraced.fair_binds (h : Unraced path c) (hline : InLine path loc c) {files : Files}
    (hstage : c.stage i = .binding) :
    Fair path c i ((({ c with
      host := { c.host with files, servers := c.host.servers + 1 }
      numbers := (c.host.servers, i) :: c.numbers } : Contest).move i
      (.bound c.host.servers)).note i .bound) where
  others _ hj := stage_move_of_ne _ i _ hj
  log := .inr ⟨_, rfl⟩
  keep j n _ hj := (lost_cons_of_ne (by simp) (by simp)).not.mpr (h.kept j n hj)
  kept _ _ := (lost_cons_of_ne (by simp) (by simp)).not.mpr (hline.not_lost_of_binding hstage)
  follows j _ hj _ := after_cons.mpr (.inr ⟨rfl, hline.stopped j hj⟩)
  followed := by simp
  unanswered := by simp
  unheard := by simp

/-- Who begins to listen was not knocked at as one that listens. -/
theorem Unraced.fair_begins (h : Unraced path c) (hline : InLine path loc c)
    (hstage : c.stage i = .bound n) :
    Fair path c i ((c.move i (.listening n)).note i .began) where
  others _ hj := stage_move_of_ne c i _ hj
  log := .inr ⟨_, rfl⟩
  keep j m _ hj := (lost_cons_of_ne (by simp) (by simp)).not.mpr (h.kept j m hj)
  kept _ _ := (lost_cons_of_ne (by simp) (by simp)).not.mpr (h.kept i n (by rw [hstage]; rfl))
  follows j _ hj _ := (h.followed j i n hj (by rw [hstage]; rfl)).cons
  followed := by simp
  unanswered := by simp
  unheard _ _ _ _ := not_after_knocked (by simp) fun hafter =>
    hline.not_mem_of_rank (by simp [hstage, Stage.rank, Act.rank]) hafter.mem

/-- Who stops has its file, so nobody else has a number. -/
theorem Unraced.fair_stops (h : Unraced path c) (hline : InLine path loc c)
    (hstage : c.stage i = .listening n) :
    Fair path c i ((({ c with host := c.host.stopListening n } : Contest).move i
      .closing).note i .stopped) where
  others _ hj := stage_move_of_ne _ i _ hj
  log := .inr ⟨_, rfl⟩
  keep j m _ hj := (lost_cons_of_ne (by simp) (by simp)).not.mpr (h.kept j m hj)
  kept := by simp [Stage.number?]
  follows := by simp [Stage.number?]
  followed k m _ hk hm := by
    have hi : (c.stage i).number? = some n := by rw [hstage]; rfl
    rcases hline.lost_or_lost hk hm hi with hlost | hlost
    · exact absurd hlost (h.kept k m hm)
    · exact absurd hlost (h.kept i n hi)
  unanswered := by simp
  unheard := by simp

/-- **A step without a race.** Who removes the file of another one races it. -/
theorem Unraced.fair (h : Unraced path c) (hline : InLine path loc c)
    (hmoves : Moves (path i) c i c') (hraced : ¬Raced path c'.log) : Fair path c i c' := by
  cases hmoves with
  | passes files x hspares hidle hx hrank =>
    exact .of_idle (stage_move _ i x) (fun _ hj => stage_move_of_ne _ i x hj) (.inl rfl)
      (fun j n _ hj => h.kept j n hj) (by rcases hx with rfl | rfl | rfl <;> simp)
  | finds entry hstage hthere =>
    exact .of_idle (stage_move _ i _) (fun _ hj => stage_move_of_ne _ i _ hj) (.inl rfl)
      (fun j n _ hj => h.kept j n hj) (by simp)
  | knocks hstage hrefused => exact h.fair_knocks hline hstage hrefused
  | clears hstage hdirectory =>
    exact .of_idle (stage_move _ i _) (fun _ hj => stage_move_of_ne _ i _ hj) (.inr ⟨_, rfl⟩)
      (fun j n hji hj _ => hraced ⟨j, i, hji, .inl (h.overtaken hline hstage hj)⟩) (by simp)
  | binds files hstage hlistens => exact h.fair_binds hline hstage
  | begins n hstage => exact h.fair_begins hline hstage
  | stops n hstage => exact h.fair_stops hline hstage
  | removes hstage hdirectory =>
    have houtlived : ∀ j n, (c.stage j).number? = some n → Outlived (⟨i, .removed⟩ :: c.log) j i :=
      fun j n hj => ⟨[], c.log, rfl, h.followed i j n hstage hj, hline.stopped_not_mem hj⟩
    exact .of_idle (stage_move _ i _) (fun _ hj => stage_move_of_ne _ i _ hj) (.inr ⟨_, rfl⟩)
      (fun j n hji hj _ => hraced ⟨j, i, hji, .inr (houtlived j n hj)⟩) (by simp)

/-- A step leaves all races in the log. -/
theorem Moves.raced (hmoves : Moves p c i c') (h : Raced path c.log) : Raced path c'.log := by
  cases hmoves <;> first | exact h | exact h.cons

/-! ### Runs -/

section Runs

variable {host : Host}

/-- Before anybody has begun, servers are in line. -/
theorem InLine.initial (rivals : Rivals servers path) (quiet : host.interference = []) :
    InLine path (host.files.place (path 0)) { host } where
  quiet := quiet
  place i := Files.place_same (rivals.same i 0)
  ranked := by simp
  stopped := by simp
  found := by simp
  holds := by simp [Stage.number?]

/-- A step keeps servers in line. -/
theorem InLine.step (rivals : Rivals servers path) (h : InLine path loc c) (i : Nat) :
    InLine path loc (c.step servers i) := by
  obtain ⟨owner, hsocket⟩ := rivals.socket i
  exact h.next (h.turn (step_moves hsocket h.quiet))

/-- **Runs.** Servers stay in line, and as long as nobody races another, nobody loses a file. -/
theorem inLine_run (rivals : Rivals servers path) (h : InLine path loc c)
    (hunraced : Raced path c.log ∨ Unraced path c) (schedule : List Nat) :
    InLine path loc (run servers schedule c) ∧
      (Raced path (run servers schedule c).log ∨ Unraced path (run servers schedule c)) := by
  induction schedule generalizing c with
  | nil => exact ⟨h, hunraced⟩
  | cons i rest ih =>
    rw [run_cons]
    obtain ⟨owner, hsocket⟩ := rivals.socket i
    have hmoves := step_moves hsocket h.quiet
    refine ih (h.step rivals i) ?_
    by_cases hraced : Raced path (c.step servers i).log
    · exact .inl hraced
    · rcases hunraced with hold | hold
      · exact absurd (hmoves.raced hold) hraced
      · exact .inr (hold.of_fair (hold.fair h hmoves hraced))

/-- Who is raced loses its file. -/
theorem lost_of_raced (hne : i ≠ j) (h : Overtaken path log i j ∨ Outlived log i j) :
    Lost log i := by
  have hlater {d : Deed} {later earlier : List Deed} (hlog : log = later ++ d :: earlier)
      (hbound : ⟨i, .bound⟩ ∈ earlier) : After log d ⟨i, .bound⟩ := by
    have hhere : After (d :: earlier) d ⟨i, .bound⟩ := after_cons.mpr (.inr ⟨rfl, hbound⟩)
    rw [hlog]
    exact hhere.trans (List.sublist_append_right later _)
  rcases h with ⟨later, earlier, hlog, hbound, -⟩ | ⟨later, earlier, hlog, hafter, -⟩
  · exact ⟨j, hne.symm, .inl (hlater hlog hbound)⟩
  · exact ⟨j, hne.symm, .inr (hlater hlog (List.Sublist.mem (by simp) hafter))⟩

/-- **One live server per file.** Servers of one socket file start and close side by side in steps
of any order. At any time a server that listens is where its endpoint leads, unless another one
took its file away; of two that listen, one has lost its file. Nobody loses one as long as there is
no race, and who is raced loses it. -/
theorem own_unless_raced (rivals : Rivals servers path) (quiet : host.interference = [])
    (schedule : List Nat) :
    let c := run servers schedule { host }
    (∀ i n, c.stage i = .listening n →
      ((c.connect (servers i).endpoint).1 = .ok n ↔ ¬Lost c.log i)) ∧
    (∀ i j n m, i ≠ j → c.stage i = .listening n → c.stage j = .listening m →
      Lost c.log i ∨ Lost c.log j) ∧
    ((∃ i n, c.stage i = .listening n ∧ Lost c.log i) →
      ∃ i j, i ≠ j ∧ (Overtaken path c.log i j ∨ Outlived c.log i j)) ∧
    ∀ i j, i ≠ j → Overtaken path c.log i j ∨ Outlived c.log i j → Lost c.log i := by
  intro c
  obtain ⟨hline, hunraced⟩ := inLine_run rivals (.initial rivals quiet)
    (.inr ⟨by simp [Stage.number?], by simp, by simp⟩) schedule
  refine ⟨fun i n hlistens => ?_, fun i j n m hne hi hj => ?_, ?_, fun i j => lost_of_raced⟩
  · obtain ⟨owner, hsocket⟩ := rivals.socket i
    rw [hsocket]
    exact hline.connect_iff hlistens
  · exact hline.lost_or_lost hne (by rw [hi]; rfl) (by rw [hj]; rfl)
  · rintro ⟨i, n, hlistens, hlost⟩
    rcases hunraced with hraced | hkept
    · exact hraced
    · exact absurd hlost (hkept.kept i n (by rw [hlistens]; rfl))

end Runs

end Contest

namespace SideBySide

open Contest

/-- The directory of sockets, spelled short. -/
def short : Path := ⟨"/s"⟩

/-- The directory of sockets, spelled so that a socket address has no room for a file in it. -/
def long : Path := ⟨String.ofList (List.replicate 89 '/' ++ ['s'])⟩

/-- Servers of one owner. The third one spells its directory long. -/
def servers (i : Nat) : Server :=
  { owner := 0, transport := { socketDir := some (if i = 2 then long else short) } }

/-- The path of the socket file of each. -/
def path (i : Nat) : Path :=
  Endpoint.socketPath { socketDir := some (if i = 2 then long else short) } 0

/-- The second server knocks before the first one listens, and clears its file away after. -/
def overtaking : List Nat := [0, 0, 0, 1, 1, 1, 0, 1, 1, 1]

/-- The second server starts while the first one closes. -/
def outliving : List Nat := [0, 0, 0, 0, 0, 1, 1, 1, 1, 1, 1, 0]

/-- The third server comes while the first one listens. -/
def misspelling : List Nat := [0, 0, 0, 0, 2, 2, 2, 2, 2]

/-- Their socket files are one file. -/
theorem rivals : Rivals servers path := by
  have hfirst (i : Nat) : (path i).same (path 0) = true := by
    rw [path]
    split <;> decide +kernel
  exact ⟨fun i => ⟨0, rfl⟩, fun i j =>
    Path.same_iff.mpr ((Path.same_iff.mp (hfirst i)).trans (Path.same_iff.mp (hfirst j)).symm)⟩

/-- What the steps of a schedule lead to on an empty host. -/
def after (schedule : List Nat) : Contest := Contest.run servers schedule { host := {} }

/-- When a server is overtaken, both listen, and one has lost its file. -/
theorem lost_when_overtaken :
    Rivals servers path ∧ ({} : Host).interference = [] ∧
      (Lost (after overtaking).log 0 ∨ Lost (after overtaking).log 1) :=
  ⟨rivals, rfl, (own_unless_raced rivals rfl overtaking).2.1 0 1 0 1 (by decide)
    (by decide +kernel) (by decide +kernel)⟩

/-- **Live servers lose their files.** To an overtaking server, to one that closes, and to one
whose path has no room in a socket address. -/
theorem files_lost :
    ((after overtaking).stage 0 = .listening 0 ∧ (after overtaking).stage 1 = .listening 1 ∧
      ((after overtaking).connect (servers 0).endpoint).1 = .ok 1) ∧
    ((after outliving).stage 1 = .listening 1 ∧
      ((after outliving).connect (servers 1).endpoint).1 = .error .notFound) ∧
    ((after misspelling).stage 0 = .listening 0 ∧
      ((after misspelling).connect (servers 0).endpoint).1 = .error .notFound) := by
  decide +kernel

end SideBySide
end IncrementalBuild.Server
