import IncrementalBuild.Host.Shell.Pattern
import IncrementalBuild.Host.Shell.Printing
import IncrementalBuild.Host.Shell.Tool.Options
/-!
# Tools for the file tree

The tools that make, remove, copy, move and list files and directories.

## Main definitions

* `Shell.Tool.mkdir`, `Shell.Tool.rmdir`, `Shell.Tool.rm`, `Shell.Tool.touch`, `Shell.Tool.chmod`,
  `Shell.Tool.mktemp`, `Shell.Tool.truncate`.
* `Shell.Tool.cp`, `Shell.Tool.mv`, `Shell.Tool.ln`.
* `Shell.Tool.ls`, `Shell.Tool.realpath`, `Shell.Tool.readlink`, `Shell.Tool.cmp`,
  `Shell.Tool.stat`.

Each returns its status. Several of them go on after a failure, which the status then tells.
-/

namespace IncrementalBuild.Shell.Tool

/-- Does something for each of several names; the status tells whether all went well. -/
def forEach (names : List Text) (step : Text → Run Bool) : Run Nat := do
  let mut status := 0
  for name in names do
    if !(← step name) then status := 1
  return status

/-- Changes the tree; a failure is told of with the given words. -/
def change (said : Text) (f : Files → Except FileError Files) : Run Bool := do
  match f (← get).files with
  | .ok files => do
    modify fun st => { st with files }
    return true
  | .error e => do
    complain (said ++ lit ": " ++ cause e)
    return false

/-- Refuses a call without operands. -/
def needed (words : String) (names : List Text) : Run Unit := do
  if names.isEmpty then misused 1 (lit words)

/-- The location of what stands at a path. -/
def placeOf (name : Text) : Run (Except FileError Location) := do
  return (← get).files.locate (Text.toPath name)

/-- What stands at a path. -/
def entryAt (name : Text) : Run (Except FileError Entry) := do
  return (← get).files.stat (Text.toPath name)

/-- Whether a directory stands at a path. -/
def isDirectory (name : Text) : Run Bool := do
  return (← get).files.isDirectory (Text.toPath name)

/-! ### Trees -/

/-- The names in a directory, in order. -/
def namesIn (files : Files) (place : Location) : List Text :=
  let names := files.entries.filterMap fun e =>
    if e.1.length == place.length + 1 && e.1.take place.length == place then
      e.1.getLast?.map Text.ofString
    else none
  names.mergeSort fun a b => !Text.before b a

/-- Everything at and below a location with its depth, each directory before what it holds. -/
def everything (files : Files) : Nat → (depth : Nat) → (shown : Text) → Location →
    List (Nat × Text × Location)
  | 0, _, _, _ => []
  | fuel + 1, depth, shown, place =>
    (depth, shown, place) :: (if files.isDirectoryAt place then
      (namesIn files place).flatMap fun n =>
        let next := if shown.getLast? == some '/' then shown ++ n else shown ++ '/' :: n
        everything files fuel (depth + 1) next (place ++ [Text.toString n])
      else [])

/-- What is removed with a tree, what a directory holds before it; the flag says whether it is a
directory. -/
def treeBelow (files : Files) (name : Text) (p : Path) : List (Text × Bool) :=
  match files.locate p with
  | .ok place =>
    ((everything files (files.entries.length + 1) 0 name place).map fun e =>
      (e.2.1, files.isDirectoryAt e.2.2)).reverse
  | .error _ => []

/-! ### Permissions -/

/-- Whether a mode makes a file executable, given whether it is so before; none if it is no
mode. -/
def executableBy (mode : Text) (before : Bool) : Option Bool :=
  if !mode.isEmpty && mode.all fun c => '0' ≤ c && c ≤ '7' then
    let n := valueIn 8 mode
    some (n % 2 == 1 || n / 8 % 2 == 1 || n / 64 % 2 == 1)
  else
    (Text.splitAt ',' mode).foldlM (fun now clause => do
      let body := clause.dropWhile fun c => "ugoa".toList.contains c
      match body with
      | sign :: letters =>
        if !"+-=".toList.contains sign || !letters.all fun c => "rwxXst".toList.contains c then none
        else
          let named := letters.contains 'x' || (letters.contains 'X' && now)
          match sign with
          | '+' => some (now || named)
          | '-' => some (now && !named)
          | _ => some named
      | [] => none) before

/-! ### Making and removing -/

/-- The directories on the way to a path, from the first one on, with the path itself. -/
def ancestors (name : Text) : List Text :=
  let starts := (List.range (name.length + 1)).filter fun n =>
    0 < n && (n == name.length || name[n]? == some '/') && name[n - 1]? != some '/'
  starts.map name.take

/-- Makes a directory with those above it. -/
def makeAll (name : Text) (tell : Bool) : Run Bool := do
  let mut fine := true
  for step in ancestors name do
    if fine then
      let st ← get
      let p := Text.toPath step
      let failure (e : FileError) : Run Unit :=
        complain (lit "cannot create directory " ++ inQuotes step ++ lit ": " ++ cause e)
      match st.files.stat p with
      | .ok .directory => pure ()
      | .ok _ =>
        failure (if step == name then .alreadyExists else .notADirectory)
        fine := false
      | .error _ =>
        match st.files.createDirectory p with
        | .ok files =>
          set { st with files }
          if tell then
            Run.print ((← get).zero ++ lit ": created directory " ++ inQuotes step ++ ['\n'])
        | .error e =>
          failure e
          fine := false
  return fine

/-- Makes directories. -/
def mkdir (args : List Text) : Run Nat := do
  let (given, names) ← options 1
    [⟨'p', "parents", .nothing⟩, ⟨'m', "mode", .argument⟩, ⟨'v', "verbose", .nothing⟩] args
  needed "missing operand" names
  if let some mode := given.value? 'm' then
    if (executableBy mode false).isNone then stop 1 (lit "invalid mode " ++ inQuotes mode)
  forEach names fun name => do
    if given.has 'p' then makeAll name (given.has 'v')
    else do
      let made ← change (lit "cannot create directory " ++ inQuotes name)
        fun files => files.createDirectory (Text.toPath name)
      if made && given.has 'v' then
        Run.print ((← get).zero ++ lit ": created directory " ++ inQuotes name ++ ['\n'])
      return made

/-- The tree without an empty directory. -/
def removeDirectory (files : Files) (p : Path) : Except FileError Files := do
  if (Path.segments p.text.toList).getLast? == some ['.'] then throw .invalidArgument
  let place ← files.locate p
  if !files.isDirectoryAt place then throw .notADirectory
  if files.entries.any fun e => place.length < e.1.length && e.1.take place.length == place then
    throw .notEmpty
  return files.drop place

/-- Removes empty directories. -/
def rmdir (args : List Text) : Run Nat := do
  let (given, names) ← options 1
    [⟨'p', "parents", .nothing⟩, ⟨'v', "verbose", .nothing⟩,
     ⟨'i', "ignore-fail-on-non-empty", .nothing⟩] args
  needed "missing operand" names
  forEach names fun name => do
    let steps := if given.has 'p' then (ancestors name).reverse else [name]
    let mut fine := true
    let mut going := true
    for step in steps do
      if going then
        if given.has 'v' then
          Run.print ((← get).zero ++ lit ": removing directory, " ++ inQuotes step ++ ['\n'])
        let files := (← get).files
        match removeDirectory files (Text.toPath step) with
        | .ok files => modify fun st => { st with files }
        | .error e =>
          going := false
          if !(given.has 'i' && e == .notEmpty) then
            let noun := if step == name then "failed to remove " else "failed to remove directory "
            complain (lit noun ++ inQuotes step ++ lit ": " ++ cause e)
            fine := false
    return fine

/-- The last part of a path. -/
def lastPart (name : Text) : Text :=
  let trimmed := (name.reverse.dropWhile (· == '/')).reverse
  (trimmed.reverse.takeWhile (· != '/')).reverse

/-- Removes files, and directories where that is asked for. -/
def rm (args : List Text) : Run Nat := do
  let (given, names) ← options 1
    [⟨'f', "force", .nothing⟩, ⟨'r', "recursive", .nothing⟩, ⟨'R', "", .nothing⟩,
     ⟨'d', "dir", .nothing⟩, ⟨'v', "verbose", .nothing⟩, ⟨'i', "", .nothing⟩, ⟨'I', "", .nothing⟩]
    args
  let forced := given.has 'f'
  let whole := given.has 'r' || given.has 'R'
  if !forced then needed "missing operand" names
  forEach names fun name => do
    let last := lastPart name
    let p := Text.toPath name
    if whole && !name.isEmpty && last.isEmpty then
      complain (lit "it is dangerous to operate recursively on '/'")
      complain (lit "use --no-preserve-root to override this failsafe")
      return false
    else if whole && (last == ['.'] || last == ['.', '.']) then
      complain (lit "refusing to remove '.' or '..' directory: skipping " ++ inQuotes name)
      return false
    else
      match ← entryAt name with
      | .error e =>
        if forced && (e == .notFound || e == .notADirectory) then return true
        else do
          complain (lit "cannot remove " ++ inQuotes name ++ lit ": " ++ cause e)
          return false
      | .ok entry => do
        let inside := treeBelow (← get).files name p
        let removed ← change (lit "cannot remove " ++ inQuotes name) fun files =>
          if entry == .directory then
            if whole then files.removeTree p
            else if given.has 'd' then removeDirectory files p
            else .error .isADirectory
          else files.remove p
        if removed && given.has 'v' then
          for (shown, isTree) in inside do
            Run.print (lit (if isTree then "removed directory " else "removed ") ++ inQuotes shown
              ++ ['\n'])
        return removed

/-! ### Changing files -/

/-- The time that a number of seconds after a sign stands for. -/
def timeOf? (cs : Text) : Option Timestamp :=
  match cs with
  | '@' :: rest =>
    match integer? false rest with
    | some n => some ⟨n * 1000000000⟩
    | none => none
  | _ => none

/-- Creates files or marks them as changed now. -/
def touch (args : List Text) : Run Nat := do
  let (given, names) ← options 1
    [⟨'c', "no-create", .nothing⟩, ⟨'a', "", .nothing⟩, ⟨'m', "", .nothing⟩,
     ⟨'d', "date", .argument⟩, ⟨'t', "", .argument⟩, ⟨'r', "reference", .argument⟩,
     ⟨'f', "", .nothing⟩, ⟨'h', "no-dereference", .nothing⟩] args
  let time : Option Timestamp ← (
    match given.value? 'r', given.value? 'd' with
    | some reference, _ => do
      match (← get).files.modified (Text.toPath reference) with
      | .ok t => pure (some t)
      | .error e =>
        stop 1 (lit "failed to get attributes of " ++ inQuotes reference ++ lit ": " ++ cause e)
    | none, some date =>
      match timeOf? date with
      | some t => pure (some t)
      | none => stop 1 (lit "invalid date format " ++ inQuotes date)
    | none, none => pure none)
  needed "missing file operand" names
  forEach names fun name => do
    let p := Text.toPath name
    let there := (← get).files.exists? p
    if given.has 'c' && !there then return true
    else if !there && name.getLast? == some '/' then
      complain (lit "setting times of " ++ inQuotes name ++ lit ": No such file or directory")
      return false
    else
      change (lit "cannot touch " ++ inQuotes name) fun files =>
        let stamped (files : Files) := files.setModified p (time.getD files.clock)
        if files.exists? p then stamped files else do
          let made ← files.append p []
          if time.isSome then stamped made else return made

/-- Changes whether files may be executed. -/
def chmod (args : List Text) : Run Nat := do
  -- A mode may start with a minus sign.
  let isMode (a : Text) : Bool := match a with
    | '-' :: rest => !rest.isEmpty && rest.all fun c => "rwxXst".toList.contains c
    | _ => false
  let marked := args.filter isMode
  let (given, rest) ← options 1
    [⟨'R', "recursive", .nothing⟩, ⟨'v', "verbose", .nothing⟩, ⟨'f', "silent", .nothing⟩,
     ⟨'c', "changes", .nothing⟩] (args.filter fun a => !isMode a)
  match marked.take 1 ++ rest with
  | [] => misused 1 (lit "missing operand")
  | [mode] => misused 1 (lit "missing operand after " ++ inQuotes mode)
  | mode :: names => do
    if (executableBy mode false).isNone then misused 1 (lit "invalid mode: " ++ inQuotes mode)
    let changed (files : Files) (place : Location) : Files :=
      match files.at? place with
      | some (.file contents time executable) =>
        files.put place (.file contents time ((executableBy mode executable).getD executable))
      | _ => files
    forEach names fun name =>
      change (lit "cannot access " ++ inQuotes name) fun files => do
        let place ← files.locate (Text.toPath name)
        let places := if given.has 'R' then
            (everything files (files.entries.length + 1) 0 name place).map fun e => e.2.2
          else [place]
        return places.foldl changed files

/-- Makes a file or directory with a name that is still free. -/
def mktemp (args : List Text) : Run Nat := do
  let (given, names) ← options 1
    [⟨'d', "directory", .nothing⟩, ⟨'q', "quiet", .nothing⟩, ⟨'u', "dry-run", .nothing⟩,
     ⟨'p', "tmpdir", .argument⟩, ⟨'t', "", .nothing⟩] args
  let template := names.headD (lit "tmp.XXXXXXXXXX")
  let marks := (template.reverse.takeWhile (· == 'X')).length
  if marks < 3 then stop 1 (lit "too few X's in template " ++ inQuotes template)
  let st ← get
  let ds := Text.ofNat (st.files.entries.length + st.nextProcess)
  let filled := template.take (template.length - marks)
    ++ (List.replicate (marks - ds.length) 'a' ++ ds).take marks
  let inTemporary := names.isEmpty || given.has 't' || given.has 'p'
  let dir := (given.value? 'p').getD ((st.value? (lit "TMPDIR")).getD (lit "/tmp"))
  let name := if inTemporary then dir ++ '/' :: filled else filled
  let made : Except FileError Files :=
    if given.has 'u' then .ok st.files
    else if given.has 'd' then st.files.createDirectory (Text.toPath name)
    else st.files.create (Text.toPath name)
  match made with
  | .ok files => do
    set { st with files }
    Run.print (name ++ ['\n'])
    return 0
  | .error e => do
    if !given.has 'q' then
      let noun := if given.has 'd' then "directory" else "file"
      let shown := if inTemporary then dir ++ '/' :: template else template
      complain (lit ("failed to create " ++ noun ++ " via template ") ++ inQuotes shown ++ lit ": "
        ++ cause e)
    return 1

/-- The length that a file is given by a size, from the length that it has; none if the size is no
number. -/
def newLength (size : Text) (old : Nat) : Option Nat :=
  match size with
  | '+' :: rest => (amount? rest).map (old + ·)
  | '-' :: rest => (amount? rest).map (old - ·)
  | '<' :: rest => (amount? rest).map (min old)
  | '>' :: rest => (amount? rest).map (max old)
  | _ => amount? size

/-- Changes the length of files. -/
def truncate (args : List Text) : Run Nat := do
  let (given, names) ← options 1
    [⟨'s', "size", .argument⟩, ⟨'c', "no-create", .nothing⟩] args
  match given.value? 's' with
  | none => misused 1 (lit "you must specify either '--size' or '--reference'")
  | some size => do
    if (newLength size 0).isNone then stop 1 (lit "Invalid number: " ++ inQuotes size)
    needed "missing file operand" names
    forEach names fun name =>
      change (lit "cannot open " ++ inQuotes name ++ lit " for writing") fun files => do
        let p := Text.toPath name
        if given.has 'c' && !files.exists? p then return files
        let old := (files.read p).toOption.getD []
        let n := (newLength size old.length).getD 0
        files.write p (old.take n ++ List.replicate (n - old.length) 0)

/-! ### Copying and moving -/

/-- Where a file goes: into a directory under its own name, or to a path. -/
def goalOf (target name : Text) (inside : Bool) : Text :=
  if inside then
    if target.getLast? == some '/' then target ++ lastPart name else target ++ '/' :: lastPart name
  else target

/-- The tree with everything at and below a location put at another one as well. -/
def copyTree (files : Files) (source goal : Location) : Files :=
  let found := files.entries.filter fun e => e.1.take source.length == source
  found.reverse.foldl (fun files e =>
    match e.2 with
    | .file contents _ executable =>
      let place := goal ++ e.1.drop source.length
      { files.put place (.file contents files.clock executable) with clock := files.clock.next }
    | other => files.put (goal ++ e.1.drop source.length) other) files

/-- The tree with everything at and below a location moved to another one. -/
def moveTree (files : Files) (source goal : Location) : Files :=
  { files with entries := (files.entries.filter fun e => e.1 != goal).map fun e =>
      if e.1.take source.length == source then (goal ++ e.1.drop source.length, e.2) else e }

/-- The location that a path names, whether or not something stands there. -/
def goalPlace (files : Files) (p : Path) : Except FileError (Location × Option Entry) := do
  match files.locate p with
  | .ok place => return (place, files.at? place)
  | .error .notFound => do
    let t ← files.target p
    match t.name? with
    | some name => files.entryOf t name
    | none => .error .notFound
  | .error e => .error e

/-- The operands of a copy or a move: what is copied, where to, and whether into a directory. -/
def transfer (given : Given) (names : List Text) : Run (List Text × Text × Bool) := do
  match given.value? 't' with
  | some dir => do
    needed "missing file operand" names
    return (names, dir, true)
  | none => do
    match names.reverse with
    | [] => misused 1 (lit "missing file operand")
    | [only] => misused 1 (lit "missing destination file operand after " ++ inQuotes only)
    | [target, source] => return ([source], target, !given.has 'T' && (← isDirectory target))
    | target :: sources => do
      match ← entryAt target with
      | .ok .directory => return (sources.reverse, target, true)
      | .ok _ => stop 1 (lit "target " ++ inQuotes target ++ lit ": Not a directory")
      | .error e => stop 1 (lit "target " ++ inQuotes target ++ lit ": " ++ cause e)

/-- Copies files, and directories where that is asked for. -/
def cp (args : List Text) : Run Nat := do
  let (given, names) ← options 1
    [⟨'r', "recursive", .nothing⟩, ⟨'R', "", .nothing⟩, ⟨'a', "archive", .nothing⟩,
     ⟨'f', "force", .nothing⟩, ⟨'p', "", .nothing⟩, ⟨'n', "no-clobber", .nothing⟩,
     ⟨'v', "verbose", .nothing⟩, ⟨'i', "interactive", .nothing⟩, ⟨'u', "update", .nothing⟩,
     ⟨'d', "", .nothing⟩, ⟨'L', "dereference", .nothing⟩, ⟨'P', "no-dereference", .nothing⟩,
     ⟨'T', "no-target-directory", .nothing⟩, ⟨'t', "target-directory", .argument⟩,
     ⟨'x', "one-file-system", .nothing⟩, ⟨'l', "link", .nothing⟩, ⟨'s', "symbolic-link", .nothing⟩]
    args
  let whole := given.has 'r' || given.has 'R' || given.has 'a'
  let (sources, target, inside) ← transfer given names
  forEach sources fun name => do
    let goal := goalOf target name inside
    let fail (message : Text) : Run Bool := do
      complain message
      return false
    let st ← get
    match st.files.locate (Text.toPath name) with
    | .error e => fail (lit "cannot stat " ++ inQuotes name ++ lit ": " ++ cause e)
    | .ok source =>
      let entry := (st.files.at? source).getD .directory
      let both := inQuotes name ++ lit " and " ++ inQuotes goal ++ lit " are the same file"
      if entry == .directory then
        if !whole then fail (lit "-r not specified; omitting directory " ++ inQuotes name)
        else
          match goalPlace st.files (Text.toPath goal) with
          | .error e =>
            fail (lit "cannot create directory " ++ inQuotes goal ++ lit ": " ++ cause e)
          | .ok (place, old) =>
            if place.take source.length == source then do
              set { st with files := copyTree st.files source place }
              fail (lit "cannot copy a directory, " ++ inQuotes name ++ lit ", into itself, "
                ++ inQuotes goal)
            else if old.isSome && old != some .directory then
              fail (lit "cannot overwrite non-directory " ++ inQuotes goal ++ lit " with directory "
                ++ inQuotes name)
            else do
              set { st with files := copyTree st.files source place }
              return true
      else
        let absent := goal.getLast? == some '/' && !st.files.exists? (Text.toPath goal)
        match (if absent then .error .notADirectory else goalPlace st.files (Text.toPath goal)) with
        | .ok (place, some .directory) =>
          if place == source then fail both
          else
            fail (lit "cannot overwrite directory " ++ inQuotes goal ++ lit " with non-directory")
        | .ok (place, old) =>
          if place == source then fail both
          else if given.has 'n' && old.isSome then return true
          else do
            let contents := (st.contents name).1.toOption.getD []
            let isNull := place == Program.nullPlace
            let executable := match old, entry with
              | some (.file _ _ x), _ => x
              | _, .file _ _ x => x
              | _, _ => false
            let time := match entry with
              | .file _ t _ => if given.has 'p' || given.has 'a' then t else st.files.clock
              | _ => st.files.clock
            if !isNull then
              let files := st.files.put place (.file (Text.toBytes contents) time executable)
              set { st with files := { files with clock := files.clock.next } }
            if given.has 'v' then
              Run.print (inQuotes name ++ lit " -> " ++ inQuotes goal ++ ['\n'])
            return true
        | .error .notADirectory =>
          if goal.getLast? == some '/' then
            fail (lit "cannot create regular file " ++ inQuotes goal ++ lit ": Not a directory")
          else fail (lit "cannot stat " ++ inQuotes goal ++ lit ": Not a directory")
        | .error e =>
          fail (lit "cannot create regular file " ++ inQuotes goal ++ lit ": " ++ cause e)

/-- Moves files and directories. -/
def mv (args : List Text) : Run Nat := do
  let (given, names) ← options 1
    [⟨'f', "force", .nothing⟩, ⟨'n', "no-clobber", .nothing⟩, ⟨'v', "verbose", .nothing⟩,
     ⟨'i', "interactive", .nothing⟩, ⟨'u', "update", .nothing⟩,
     ⟨'T', "no-target-directory", .nothing⟩, ⟨'t', "target-directory", .argument⟩] args
  let (sources, target, inside) ← transfer given names
  forEach sources fun name => do
    let goal := goalOf target name inside
    let fail (message : Text) : Run Bool := do
      complain message
      return false
    let st ← get
    match st.files.locate (Text.toPath name) with
    | .error e => fail (lit "cannot stat " ++ inQuotes name ++ lit ": " ++ cause e)
    | .ok source =>
      let entry := (st.files.at? source).getD .directory
      let isTree := entry == .directory
      let absent := !isTree && goal.getLast? == some '/' && !st.files.exists? (Text.toPath goal)
      match goalPlace st.files (Text.toPath goal) with
      | .error .notADirectory =>
        fail (lit "cannot stat " ++ inQuotes goal ++ lit ": Not a directory")
      | .error e =>
        fail (lit "cannot move " ++ inQuotes name ++ lit " to " ++ inQuotes goal ++ lit ": "
          ++ cause e)
      | .ok (place, old) =>
        if absent then
          fail (lit "cannot move " ++ inQuotes name ++ lit " to " ++ inQuotes goal
            ++ lit ": Not a directory")
        else if place == source then
          fail (inQuotes name ++ lit " and " ++ inQuotes goal ++ lit " are the same file")
        else if isTree && place.take source.length == source then
          fail (lit "cannot move " ++ inQuotes name ++ lit " to a subdirectory of itself, "
            ++ inQuotes goal)
        else if old == some .directory && !isTree then
          fail (lit "cannot overwrite directory " ++ inQuotes goal ++ lit " with non-directory")
        else if isTree && old.isSome && old != some .directory then
          fail (lit "cannot overwrite non-directory " ++ inQuotes goal ++ lit " with directory "
            ++ inQuotes name)
        else if old == some .directory && st.files.entries.any fun e =>
            place.length < e.1.length && e.1.take place.length == place then
          fail (lit "cannot overwrite " ++ inQuotes goal ++ lit ": Directory not empty")
        else if given.has 'n' && old.isSome then return true
        else do
          set { st with
            files := moveTree st.files source place
            names := st.names.move source place }
          if given.has 'v' then
            Run.print (lit "renamed " ++ inQuotes name ++ lit " -> " ++ inQuotes goal ++ ['\n'])
          return true

/-- Gives files another name as well. A symbolic link is a copy. -/
def ln (args : List Text) : Run Nat := do
  let (given, names) ← options 1
    [⟨'s', "symbolic", .nothing⟩, ⟨'f', "force", .nothing⟩, ⟨'n', "no-dereference", .nothing⟩,
     ⟨'v', "verbose", .nothing⟩] args
  needed "missing file operand" names
  let (sources, target) : List Text × Text := match names.reverse with
    | [only] => ([only], lit "./" ++ lastPart only)
    | target :: sources => (sources.reverse, target)
    | [] => ([], [])
  let inside ← isDirectory target
  if 1 < sources.length && !inside then
    let why := if (← get).files.exists? (Text.toPath target) then "Not a directory"
      else "No such file or directory"
    stop 1 (lit "target " ++ inQuotes target ++ lit (": " ++ why))
  forEach sources fun name => do
    let goal := goalOf target name inside
    let st ← get
    match st.files.locate (Text.toPath name) with
    | .error e =>
      complain (lit "failed to access " ++ inQuotes name ++ lit ": " ++ cause e)
      return false
    | .ok source =>
      if !given.has 's' && st.files.isDirectoryAt source then
        complain (name ++ lit ": hard link not allowed for directory")
        return false
      else if st.files.exists? (Text.toPath goal) && !given.has 'f' then
        complain (lit (if given.has 's' then "failed to create symbolic link "
          else "failed to create hard link ") ++ inQuotes goal ++ lit ": File exists")
        return false
      else
        match goalPlace st.files (Text.toPath goal) with
        | .ok (place, _) => do
          if given.has 's' then set { st with files := copyTree st.files source place }
          else
            let entry := (st.files.at? source).getD .directory
            set { st with
              files := st.files.put place entry, names := st.names.link source place }
          return true
        | .error e =>
          complain (lit "failed to create link " ++ inQuotes goal ++ lit ": " ++ cause e)
          return false

/-! ### Looking -/

/-- Lists a directory, and those below it where that is asked for. -/
def listing (given : Given) (files : Files) :
    Nat → (titled : Bool) → (name : Text) → Location → Text
  | 0, _, _, _ => []
  | fuel + 1, titled, name, place =>
    let plain := (namesIn files place).filter fun n =>
      given.has 'a' || given.has 'A' || n.head? != some '.'
    let all := if given.has 'a' then ['.'] :: ['.', '.'] :: plain else plain
    let all := if given.has 'r' then all.reverse else all
    let below := all.filter fun n =>
      n != ['.'] && n != ['.', '.'] && files.isDirectoryAt (place ++ [Text.toString n])
    let mark (n : Text) : Text :=
      if (given.has 'F' || given.has 'p') && (files.isDirectoryAt (place ++ [Text.toString n])
        || n == ['.'] || n == ['.', '.']) then n ++ ['/']
      else n
    (if titled then name ++ [':', '\n'] else []) ++ all.flatMap (fun n => mark n ++ ['\n'])
      ++ (if given.has 'R' then below.flatMap fun n =>
          '\n' :: listing given files fuel true (name ++ '/' :: n) (place ++ [Text.toString n])
        else [])

/-- Lists files and directories. -/
def ls (args : List Text) : Run Nat := do
  let (given, names) ← options 2
    [⟨'a', "all", .nothing⟩, ⟨'A', "almost-all", .nothing⟩, ⟨'1', "", .nothing⟩,
     ⟨'d', "directory", .nothing⟩, ⟨'r', "reverse", .nothing⟩, ⟨'R', "recursive", .nothing⟩,
     ⟨'F', "classify", .attached⟩, ⟨'p', "", .nothing⟩, ⟨'q', "", .nothing⟩, ⟨'t', "", .nothing⟩,
     ⟨'S', "", .nothing⟩, ⟨'U', "", .nothing⟩, ⟨'f', "", .nothing⟩] args
  let names := if names.isEmpty then [['.']] else names
  let mut status := 0
  let mut found : List (Text × Location) := []
  for name in names do
    match ← placeOf name with
    | .ok place => found := found ++ [(name, place)]
    | .error e =>
      complain (lit "cannot access " ++ inQuotes name ++ lit ": " ++ cause e)
      status := 2
  let files := (← get).files
  let sorted := found.mergeSort fun a b => !Text.before b.1 a.1
  let sorted := if given.has 'r' then sorted.reverse else sorted
  let isTree (f : Text × Location) : Bool := files.isDirectoryAt f.2 && !given.has 'd'
  let single := sorted.filter fun f => !isTree f
  let trees := sorted.filter isTree
  let titled := 1 < names.length || given.has 'R'
  let parts := trees.map fun f =>
    listing given files (files.entries.length + 1) titled f.1 f.2
  let start := single.flatMap fun f => f.1 ++ ['\n']
  let all := if single.isEmpty then parts else start :: parts
  Run.print (Text.joinWith ['\n'] all)
  return status

/-- The path from the root to a location. -/
def rootPath (place : Location) : Text := lit ("/" ++ "/".intercalate place)

/-- The location that a path names where parts of it need not exist. -/
def likelyPlace (files : Files) (p : Path) : Location :=
  let cs := p.text.toList
  (Files.steps cs).foldl (fun place step =>
    if step == ['.'] then place
    else if step == ['.', '.'] then place.dropLast
    else place ++ [String.ofList step]) (files.start cs)

/-- Prints paths from the root. -/
def realpath (args : List Text) : Run Nat := do
  let (given, names) ← options 1
    [⟨'e', "canonicalize-existing", .nothing⟩, ⟨'m', "canonicalize-missing", .nothing⟩,
     ⟨'q', "quiet", .nothing⟩, ⟨'s', "strip", .nothing⟩] args
  needed "missing operand" names
  forEach names fun name => do
    let files := (← get).files
    let p := Text.toPath name
    let place := if given.has 'e' then files.locate p
      else if given.has 'm' then .ok (likelyPlace files p)
      else (goalPlace files p).map Prod.fst
    match place with
    | .ok place => do
      Run.print (rootPath place ++ ['\n'])
      return true
    | .error e => do
      if !given.has 'q' then tellPlainly name e
      return false

/-- Prints what links lead to; nothing in the tree is a link. -/
def readlink (args : List Text) : Run Nat := do
  let (given, names) ← options 1
    [⟨'f', "canonicalize", .nothing⟩, ⟨'e', "canonicalize-existing", .nothing⟩,
     ⟨'m', "canonicalize-missing", .nothing⟩, ⟨'n', "no-newline", .nothing⟩,
     ⟨'q', "quiet", .nothing⟩] args
  needed "missing operand" names
  forEach names fun name => do
    let files := (← get).files
    let p := Text.toPath name
    let place := if given.has 'e' then files.locate p
      else if given.has 'm' then .ok (likelyPlace files p)
      else if given.has 'f' then (goalPlace files p).map Prod.fst
      else .error .invalidArgument
    match place with
    | .ok place => do
      Run.print (rootPath place ++ (if given.has 'n' then [] else ['\n']))
      return true
    | .error _ => return false

/-- Compares two files. -/
def cmp (args : List Text) : Run Nat := do
  let refuse (message : Text) : Run (Given × List Text) := do
    complain message
    stop 2 (lit "Try '" ++ (← get).zero ++ lit " --help' for more information.")
  let (given, names) ← match readFrom false
      [⟨'s', "quiet", .nothing⟩, ⟨'s', "silent", .nothing⟩, ⟨'l', "verbose", .nothing⟩,
       ⟨'n', "bytes", .argument⟩] (args.length + 1) args with
    | .ok r => pure r
    | .error message => refuse message
  let (first, second) ← match names with
    | [] => do
      let _ ← refuse (lit "missing operand after 'cmp'")
      pure ([], [])
    | [a] => pure (a, ['-'])
    | a :: b :: _ => pure (a, b)
  let read (name : Text) : Run Text := do
    match ← contents name with
    | .ok cs => return cs
    | .error e => if given.has 's' then Run.stop 2 .exit else stop 2 (name ++ lit ": " ++ cause e)
  let most := (given.value? 'n').bind amount?
  let a := (fun cs => (most.map cs.take).getD cs) (← read first)
  let b := (fun cs => (most.map cs.take).getD cs) (← read second)
  if a == b then return 0
  else do
    let same := ((a.zip b).takeWhile fun p => p.1 == p.2).length
    let line := ((a.take same).count '\n') + 1
    if given.has 'l' then
      let octal (width n : Nat) : Text :=
        let ds := Nat.toDigits 8 n
        List.replicate (width - ds.length) ' ' ++ ds
      let width := (Text.ofNat (min a.length b.length)).length
      Run.print ((a.zip b).zipIdx.flatMap fun p =>
        if p.1.1 == p.1.2 then []
        else
          let place := Text.ofNat (p.2 + 1)
          List.replicate (width - place.length) ' ' ++ place ++ ' ' :: octal 3 p.1.1.toNat ++ ' '
            :: octal 3 p.1.2.toNat ++ ['\n'])
      if a.length != b.length then
        let (shorter, size) := if a.length < b.length then (first, a.length)
          else (second, b.length)
        complain (lit "EOF on " ++ shorter ++ lit " after byte " ++ Text.ofNat size)
    else if !given.has 's' then
      if same == a.length || same == b.length then
        let (shorter, size) := if same == a.length then (first, a.length) else (second, b.length)
        if size = 0 then complain (lit "EOF on " ++ shorter ++ lit " which is empty")
        else
          complain (lit "EOF on " ++ shorter ++ lit " after byte " ++ Text.ofNat size
            ++ lit ", in line " ++ Text.ofNat line)
      else
        Run.print (first ++ ' ' :: second ++ lit " differ: char " ++ Text.ofNat (same + 1)
          ++ lit ", line " ++ Text.ofNat line ++ ['\n'])
    return 1

/-- What a letter in a format says of a file. -/
def detail (name : Text) (e : Entry) (clock : Timestamp) (letter : Char) : Text :=
  match letter with
  | 'n' => name
  | 's' => match e with
    | .file contents _ _ => Text.ofNat contents.length
    | _ => lit "4096"
  | 'F' => match e with
    | .file [] _ _ => lit "regular empty file"
    | .file _ _ _ => lit "regular file"
    | .directory => lit "directory"
    | .socket _ => lit "socket"
  | 'a' => match e with
    | .file _ _ false => lit "644"
    | _ => lit "755"
  | 'Y' => match e with
    | .file _ t _ => Text.ofInt (t.nanos.fdiv 1000000000)
    | _ => Text.ofInt (clock.nanos.fdiv 1000000000)
  | 'A' => match e with
    | .file _ _ false => lit "-rw-r--r--"
    | .file _ _ true => lit "-rwxr-xr-x"
    | _ => lit "drwxr-xr-x"
  | 'U' | 'G' => lit "root"
  | 'u' | 'g' => ['0']
  | 'h' => ['1']
  | '%' => ['%']
  | _ => ['?']

/-- A format with what it asks for filled in. -/
def filled (name : Text) (e : Entry) (clock : Timestamp) : Text → Text
  | '%' :: c :: rest => detail name e clock c ++ filled name e clock rest
  | c :: rest => c :: filled name e clock rest
  | [] => []

/-- Prints what a format asks of files. -/
def stat (args : List Text) : Run Nat := do
  let (given, names) ← options 1
    [⟨'c', "format", .argument⟩, ⟨'p', "printf", .argument⟩, ⟨'L', "dereference", .nothing⟩] args
  let asked := match given.last? ['c', 'p'] with
    | some 'p' => (Escape.all true ((given.value? 'p').getD [])).1
    | some _ => (given.value? 'c').getD [] ++ ['\n']
    | none => lit "%n\n"
  needed "missing operand" names
  forEach names fun name => do
    let st ← get
    match st.files.stat (Text.toPath name) with
    | .ok e => do
      Run.print (filled name e st.files.clock asked)
      return true
    | .error e => do
      complain (lit "cannot statx " ++ inQuotes name ++ lit ": " ++ cause e)
      return false

end IncrementalBuild.Shell.Tool
