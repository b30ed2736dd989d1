import IncrementalBuild.Arguments
import IncrementalBuild.Proofs.Text.Blank
/-!
# Response files are transparent

A response file stands for its lines: the argument that names it can be replaced by them, where it
stands. Replacing goes on until no argument names a file; what is left is the expansion, and taking
it in is what taking in the arguments amounts to. Only how deeply files may be nested is lost on
the way.

## Main definitions

* `Arguments.Opens` — an argument names a response file that can be read, with its lines.
* `Arguments.Expands` — arguments, their expansion, and how deeply their files are nested.
* `Arguments.TooDeep` — reading ended because files were nested too deeply.

## Main results

* `Argument.of_at`, `Arguments.opens_at` — which file an argument after an `@` names.
* `Arguments.takeAll_succ` — more room for nested files changes no other outcome.
* `Arguments.takeAll_of_expands`, `Arguments.exists_expands` — arguments that are taken in are those
  with an expansion, and what they add up to is what it adds up to.
* `Arguments.response_files_transparent` — reading arguments is reading their expansion.
-/

namespace IncrementalBuild

/-! ### The name of a response file -/

/-- An argument that starts with `@` names the file that follows, without blanks and quotes at its
ends. -/
theorem Argument.of_at (file : List Char) :
    Argument.of ('@' :: file) = .responseFile (String.ofList (unquote file)) := by
  have hfile : unquote (file.rdropWhile Blank.isBlank) = unquote file := by
    rw [unquote, unquote, Blank.trim_rdropWhile]
  rw [Argument.of, Blank.trim_cons (by decide), ← hfile]
  rfl

namespace Arguments

variable {fs : Files} {workDir : Path} {a b : Arguments} {arg : String}
  {args others lines expansion : List String} {depth : Nat}

/-! ### Response files and expansions -/

/-- An argument names a response file that can be read as text, and these are its lines. -/
def Opens (fs : Files) (workDir : Path) (arg : String) (lines : List String) : Prop :=
  ∃ file text, Argument.of arg.toList = .responseFile file ∧
    fs.readText (workDir.join ⟨file⟩) = .ok text ∧
    lines = (Blank.lines text.toList).map String.ofList

/-- What follows an `@` names a response file, without blanks and quotes at its ends. -/
theorem opens_at {file text : String}
    (htext : fs.readText (workDir.join ⟨String.ofList (Argument.unquote file.toList)⟩) = .ok text) :
    Opens fs workDir ("@" ++ file) ((Blank.lines text.toList).map String.ofList) := by
  refine ⟨_, text, ?_, htext, rfl⟩
  rw [String.toList_append, show "@".toList = ['@'] from rfl, List.singleton_append,
    Argument.of_at]

/-- An argument names a response file. -/
def NamesFile (arg : String) : Prop := ∃ file, Argument.of arg.toList = .responseFile file

/-- The expansion of arguments: in place of every one that names a response file stands the
expansion of the file's lines. Files are nested as deeply as `depth` says. -/
inductive Expands (fs : Files) (workDir : Path) :
    (depth : Nat) → (args expansion : List String) → Prop
  | nil : Expands fs workDir 0 [] []
  | plain {depth : Nat} {arg : String} {args expansion : List String} (plain : ¬ NamesFile arg)
      (rest : Expands fs workDir depth args expansion) :
      Expands fs workDir depth (arg :: args) (arg :: expansion)
  | file {inside depth : Nat} {arg : String} {lines args inner expansion : List String}
      (opens : Opens fs workDir arg lines) (within : Expands fs workDir inside lines inner)
      (rest : Expands fs workDir depth args expansion) :
      Expands fs workDir (max (inside + 1) depth) (arg :: args) (inner ++ expansion)

/-- Arguments without response files are their own expansion. -/
theorem expands_self (h : ∀ arg ∈ args, ¬ NamesFile arg) : Expands fs workDir 0 args args := by
  induction args with
  | nil => exact .nil
  | cons arg rest ih =>
      obtain ⟨hplain, hrest⟩ := List.forall_mem_cons.mp h
      exact .plain hplain (ih hrest)

/-- A file has the lines that it has. -/
theorem Opens.unique (h : Opens fs workDir arg lines) (h' : Opens fs workDir arg others) :
    lines = others := by
  obtain ⟨file, text, hfile, htext, rfl⟩ := h
  obtain ⟨file', text', hfile', htext', rfl⟩ := h'
  obtain rfl := Argument.responseFile.inj (hfile.symm.trans hfile')
  rw [Except.ok.inj (htext.symm.trans htext')]

/-- An argument that opens a file names it. -/
theorem Opens.namesFile (h : Opens fs workDir arg lines) : NamesFile arg :=
  h.imp fun _ ⟨_, hfile, _⟩ => hfile

namespace Expands

/-- An expansion names no response file. -/
theorem plain_of_mem (h : Expands fs workDir depth args expansion) :
    ∀ arg ∈ expansion, ¬ NamesFile arg := by
  induction h with
  | nil => exact fun _ h => absurd h List.not_mem_nil
  | plain plain _ ih => exact List.forall_mem_cons.mpr ⟨plain, ih⟩
  | file _ _ _ hinner hrest => exact List.forall_mem_append.mpr ⟨hinner, hrest⟩

/-- Arguments have one expansion. -/
theorem unique {depth' : Nat} (h : Expands fs workDir depth args expansion)
    (h' : Expands fs workDir depth' args others) : expansion = others := by
  induction h generalizing depth' others with
  | nil =>
      cases h' with
      | nil => rfl
  | plain plain _ ih =>
      cases h' with
      | plain _ rest => rw [ih rest]
      | file opens _ _ => exact absurd opens.namesFile plain
  | file opens _ _ hinner hrest =>
      cases h' with
      | plain plain _ => exact absurd opens.namesFile plain
      | file opens' within rest =>
          obtain rfl := opens.unique opens'
          rw [hinner within, hrest rest]

end Expands

/-! ### Taking arguments in -/

/-- Takes arguments in, one after the other. -/
def takeAll (fs : Files) (workDir : Path) (depth : Nat) (a : Arguments) (args : List String) :
    Except ArgumentError Arguments :=
  (args.map String.toList).foldlM (take fs workDir depth) a

/-- What arguments add up to that name no response file. -/
def addAll (a : Arguments) (args : List String) : Arguments :=
  args.foldl (fun a arg => a.add (Argument.of arg.toList)) a

/-- Files were nested too deeply. -/
def TooDeep {α : Type} (outcome : Except ArgumentError α) : Prop :=
  ∃ file, outcome = .error (.nestedTooDeeply file)

/-- Reading is taking all arguments in, and then looking at what there is. -/
theorem parse_eq (fs : Files) (workDir : Path) (args : List String) :
    parse fs workDir args = (takeAll fs workDir maxDepth {} args).bind finish := by
  rw [parse, takeAll]
  cases (args.map String.toList).foldlM (take fs workDir maxDepth) {} <;> rfl

/-- The first argument is taken in first. -/
theorem takeAll_cons (fs : Files) (workDir : Path) (depth : Nat) (a : Arguments) (arg : String)
    (args : List String) : takeAll fs workDir depth a (arg :: args) =
      (take fs workDir depth a arg.toList).bind fun a => takeAll fs workDir depth a args := by
  rw [takeAll, List.map_cons, List.foldlM_cons]
  rfl

/-- Arguments are taken in part by part. -/
theorem takeAll_append (fs : Files) (workDir : Path) (depth : Nat) (a : Arguments)
    (args more : List String) : takeAll fs workDir depth a (args ++ more) =
      (takeAll fs workDir depth a args).bind fun a => takeAll fs workDir depth a more := by
  rw [takeAll, List.map_append, List.foldlM_append]
  rfl

/-- An argument that names no response file is added. -/
theorem take_of_plain (h : ¬ NamesFile arg) :
    take fs workDir depth a arg.toList = .ok (a.add (Argument.of arg.toList)) := by
  cases depth <;>
  · rw [take]
    split
    · next file hfile => exact absurd ⟨file, hfile⟩ h
    · rfl

/-- Without room for another file none is opened. -/
theorem take_zero_of_namesFile (fs : Files) (workDir : Path) (a : Arguments)
    (h : NamesFile arg) : TooDeep (take fs workDir 0 a arg.toList) := by
  obtain ⟨file, hfile⟩ := h
  exact ⟨file, by rw [take, hfile]⟩

/-- A response file is taken in line by line. -/
theorem take_of_opens (h : Opens fs workDir arg lines) :
    take fs workDir (depth + 1) a arg.toList = takeAll fs workDir depth a lines := by
  obtain ⟨file, text, hfile, htext, rfl⟩ := h
  have hlines : ((Blank.lines text.toList).map String.ofList).map String.toList =
      Blank.lines text.toList := by
    simp [Function.comp_def]
  rw [take, hfile]
  dsimp only
  rw [htext, takeAll, hlines]

/-- An argument that names a response file opens it, or the file cannot be read. -/
theorem NamesFile.opens_or_unreadable (h : NamesFile arg) (fs : Files) (workDir : Path) :
    (∃ lines, Opens fs workDir arg lines) ∨
      ∃ path cause, ∀ depth a, take fs workDir (depth + 1) a arg.toList =
        .error (.unreadable path cause) := by
  obtain ⟨file, hfile⟩ := h
  rcases htext : fs.readText (workDir.join ⟨file⟩) with cause | text
  · refine .inr ⟨workDir.join ⟨file⟩, cause, fun depth a => ?_⟩
    rw [take, hfile]
    dsimp only
    rw [htext]
  · exact .inl ⟨_, file, text, hfile, htext, rfl⟩

/-! ### Room for nested files -/

/-- A failure at the first of two parts is a failure. -/
theorem TooDeep.bind {α β : Type} {outcome : Except ArgumentError α} (h : TooDeep outcome)
    (next : α → Except ArgumentError β) : TooDeep (outcome.bind next) := by
  obtain ⟨file, rfl⟩ := h
  exact ⟨file, rfl⟩

/-- What one more level changes for no argument, it changes for no list of arguments. -/
theorem takeAll_succ_of_take
    (step : ∀ (a : Arguments) (arg : String), ¬ TooDeep (take fs workDir depth a arg.toList) →
      take fs workDir (depth + 1) a arg.toList = take fs workDir depth a arg.toList)
    (h : ¬ TooDeep (takeAll fs workDir depth a args)) :
    takeAll fs workDir (depth + 1) a args = takeAll fs workDir depth a args := by
  induction args generalizing a with
  | nil => rfl
  | cons arg rest ih =>
      rw [takeAll_cons] at h
      rw [takeAll_cons, takeAll_cons, step a arg fun hdeep => h (hdeep.bind _)]
      cases htaken : take fs workDir depth a arg.toList with
      | error e => rfl
      | ok taken =>
          rw [htaken] at h
          exact ih h

/-- **One more level** changes nothing for an argument whose files are not nested too deeply. -/
theorem take_succ (h : ¬ TooDeep (take fs workDir depth a arg.toList)) :
    take fs workDir (depth + 1) a arg.toList = take fs workDir depth a arg.toList := by
  induction depth generalizing a arg with
  | zero =>
      have hplain : ¬ NamesFile arg := fun hnames => h (take_zero_of_namesFile fs workDir a hnames)
      rw [take_of_plain hplain, take_of_plain hplain]
  | succ depth ih =>
      by_cases hnames : NamesFile arg
      · rcases hnames.opens_or_unreadable fs workDir with
          ⟨lines, hopens⟩ | ⟨path, cause, hunreadable⟩
        · rw [take_of_opens hopens] at h
          rw [take_of_opens hopens, take_of_opens hopens]
          exact takeAll_succ_of_take (fun _ _ => ih) h
        · rw [hunreadable, hunreadable]
      · rw [take_of_plain hnames, take_of_plain hnames]

/-- **More room** for nested files changes no other outcome. -/
theorem takeAll_succ (h : ¬ TooDeep (takeAll fs workDir depth a args)) :
    takeAll fs workDir (depth + 1) a args = takeAll fs workDir depth a args :=
  takeAll_succ_of_take (fun _ _ => take_succ) h

/-- A response file can be replaced by its lines, unless files are nested too deeply. -/
theorem takeAll_replaced {room : Nat} (hroom : 0 < room) (hopens : Opens fs workDir arg lines)
    (post : List String) (h : ¬ TooDeep (takeAll fs workDir room a (arg :: post))) :
    takeAll fs workDir room a (arg :: post) = takeAll fs workDir room a (lines ++ post) := by
  obtain ⟨depth, rfl⟩ := Nat.exists_eq_add_one.mpr hroom
  rw [takeAll_cons, take_of_opens hopens] at h
  rw [takeAll_cons, take_of_opens hopens, takeAll_append,
    takeAll_succ fun hdeep => h (hdeep.bind _)]

/-! ### Taking an expansion in -/

/-- **Expansions.** Arguments whose files are not nested too deeply add up to what their expansion
adds up to. -/
theorem takeAll_of_expands {room : Nat} (h : Expands fs workDir depth args expansion)
    (hroom : depth ≤ room) : takeAll fs workDir room a args = .ok (a.addAll expansion) := by
  induction h generalizing room a with
  | nil => rfl
  | plain plain _ ih =>
      rw [takeAll_cons, take_of_plain plain]
      exact ih hroom
  | @file inside depth arg lines args inner expansion opens _ _ hinner hrest =>
      obtain ⟨hinside, hdepth⟩ := Nat.max_le.mp hroom
      obtain ⟨room, rfl⟩ := Nat.exists_eq_add_one.mpr (Nat.lt_of_lt_of_le inside.succ_pos hinside)
      have hsplit : a.addAll (inner ++ expansion) = (a.addAll inner).addAll expansion :=
        List.foldl_append
      rw [takeAll_cons, take_of_opens opens, hinner (Nat.le_of_succ_le_succ hinside), hsplit]
      exact hrest hdepth

/-- Files that are nested more deeply than there is room are nested too deeply. -/
theorem tooDeep_of_expands {room : Nat} (h : Expands fs workDir depth args expansion)
    (hroom : room < depth) : TooDeep (takeAll fs workDir room a args) := by
  induction h generalizing room a with
  | nil => exact absurd hroom (Nat.not_lt_zero room)
  | plain plain _ ih =>
      rw [takeAll_cons, take_of_plain plain]
      exact ih hroom
  | @file inside depth arg lines args inner expansion opens within _ hinner hrest =>
      rw [takeAll_cons]
      cases room with
      | zero => exact (take_zero_of_namesFile fs workDir a opens.namesFile).bind _
      | succ room =>
          rw [take_of_opens opens]
          by_cases hinside : room < inside
          · exact (hinner hinside).bind _
          · rw [takeAll_of_expands within (Nat.le_of_not_lt hinside)]
            exact hrest (by omega)

/-- **Arguments that are taken in** have an expansion. -/
theorem exists_expands {room : Nat} (h : takeAll fs workDir room a args = .ok b) :
    ∃ depth ≤ room, ∃ expansion, Expands fs workDir depth args expansion := by
  induction room generalizing a b args with
  | zero =>
      have hplain : ∀ arg ∈ args, ¬ NamesFile arg := by
        induction args generalizing a with
        | nil => exact fun _ h => absurd h List.not_mem_nil
        | cons arg rest ih =>
            rw [takeAll_cons] at h
            by_cases hnames : NamesFile arg
            · obtain ⟨file, hdeep⟩ := take_zero_of_namesFile fs workDir a hnames
              rw [hdeep] at h
              exact absurd h (by simp [Except.bind])
            · rw [take_of_plain hnames] at h
              exact List.forall_mem_cons.mpr ⟨hnames, ih h⟩
      exact ⟨0, Nat.le_refl 0, args, expands_self hplain⟩
  | succ room within =>
      induction args generalizing a with
      | nil => exact ⟨0, Nat.zero_le _, [], .nil⟩
      | cons arg rest ih =>
          rw [takeAll_cons] at h
          cases htaken : take fs workDir (room + 1) a arg.toList with
          | error e =>
              rw [htaken] at h
              exact absurd h (by simp [Except.bind])
          | ok taken =>
              rw [htaken] at h
              obtain ⟨depth, hdepth, expansion, hrest⟩ := ih h
              by_cases hnames : NamesFile arg
              · rcases hnames.opens_or_unreadable fs workDir with
                  ⟨lines, hopens⟩ | ⟨path, cause, hunreadable⟩
                · rw [take_of_opens hopens] at htaken
                  obtain ⟨inside, hinside, inner, hinner⟩ := within htaken
                  exact ⟨_, Nat.max_le.mpr ⟨Nat.succ_le_succ hinside, hdepth⟩, _,
                    .file hopens hinner hrest⟩
                · rw [hunreadable] at htaken
                  exact absurd htaken (by simp)
              · exact ⟨depth, hdepth, _, .plain hnames hrest⟩

/-! ### Reading arguments -/

/-- An expansion is read without any file. -/
theorem parse_expansion (h : Expands fs workDir depth args expansion) (fs' : Files)
    (workDir' : Path) : parse fs' workDir' expansion = (addAll {} expansion).finish := by
  rw [parse_eq, takeAll_of_expands (expands_self h.plain_of_mem) (Nat.zero_le _)]
  rfl

/-- **Response files are transparent.** The argument that names a readable response file can be
replaced by the lines of the file, between any other arguments: reading ends alike, with the same
arguments or the same error, unless it ended because files are nested too deeply. Arguments that
have an expansion are read as the expansion is, if their files are nested at most as deeply as
allowed, and fail for that reason if not. Arguments that are accepted have an expansion, and only
one; it is accepted with the same outcome, whatever files there are. -/
theorem response_files_transparent (fs : Files) (workDir : Path) :
    (∀ (pre post : List String) (arg : String) (lines : List String),
      Opens fs workDir arg lines → ¬ TooDeep (parse fs workDir (pre ++ [arg] ++ post)) →
        parse fs workDir (pre ++ [arg] ++ post) = parse fs workDir (pre ++ lines ++ post)) ∧
    (∀ (depth : Nat) (args expansion : List String), Expands fs workDir depth args expansion →
      (depth ≤ maxDepth → parse fs workDir args = parse fs workDir expansion) ∧
        (maxDepth < depth → TooDeep (parse fs workDir args))) ∧
    ∀ (args : List String) (a : Arguments), parse fs workDir args = .ok a →
      ∃ depth ≤ maxDepth, ∃ expansion, Expands fs workDir depth args expansion ∧
        (∀ depth' other, Expands fs workDir depth' args other → other = expansion) ∧
        ∀ fs' workDir', parse fs' workDir' expansion = .ok a := by
  have hread {depth : Nat} {args expansion : List String}
      (h : Expands fs workDir depth args expansion) (hdepth : depth ≤ maxDepth) :
      parse fs workDir args = (addAll {} expansion).finish := by
    rw [parse_eq, takeAll_of_expands h hdepth]
    rfl
  refine ⟨fun pre post arg lines hopens hdeep => ?_, fun depth args expansion h =>
    ⟨fun hdepth => ?_, fun hdepth => ?_⟩, fun args a hparsed => ?_⟩
  · rw [parse_eq, List.append_assoc, takeAll_append] at hdeep
    rw [parse_eq, parse_eq, List.append_assoc, List.append_assoc, takeAll_append, takeAll_append]
    cases htaken : takeAll fs workDir maxDepth {} pre with
    | error e => rfl
    | ok taken =>
        rw [htaken] at hdeep
        have hreplaced := takeAll_replaced (show 0 < maxDepth by decide) hopens post
          fun h => hdeep (h.bind finish)
        exact congrArg (·.bind finish) hreplaced
  · rw [hread h hdepth, parse_expansion h]
  · rw [parse_eq]
    exact (tooDeep_of_expands h hdepth).bind finish
  · have htaken : ∃ b, takeAll fs workDir maxDepth {} args = .ok b := by
      rw [parse_eq] at hparsed
      cases htaken : takeAll fs workDir maxDepth {} args with
      | error e =>
          rw [htaken] at hparsed
          exact absurd hparsed (by simp [Except.bind])
      | ok b => exact ⟨b, rfl⟩
    obtain ⟨b, hb⟩ := htaken
    obtain ⟨depth, hdepth, expansion, h⟩ := exists_expands hb
    refine ⟨depth, hdepth, expansion, h, fun depth' other h' => h'.unique h, fun fs' workDir' => ?_⟩
    rw [parse_expansion h, ← hread h hdepth, hparsed]

/-! ### Files that name each other -/

namespace Chained

/-- The name of a file. -/
def name (n : Nat) : String := String.ofList (List.replicate (n + 1) 'n')

/-- Seventeen files, each of which names the one before it. The first one holds two arguments. -/
def files : Files :=
  { entries := (List.range 17).map fun n =>
      ([name n], .file (Bytes.ofString (if n = 0 then "-out:G.dll\r\na.cs" else "@" ++ name (n - 1)))
        ⟨1⟩ false) }

/-- The directory of the files. -/
def root : Path := ⟨"/"⟩

/-- Every file but the first holds one argument. -/
theorem opens_next {n : Nat} (hn : n < 16) :
    Opens files root ("@" ++ name (n + 1)) ["@" ++ name n] := by
  have hall : ∀ n < 16,
      files.readText (root.join ⟨String.ofList (Argument.unquote (name (n + 1)).toList)⟩) =
        .ok ("@" ++ name n) ∧
      (Blank.lines ("@" ++ name n).toList).map String.ofList = ["@" ++ name n] := by
    decide +kernel
  obtain ⟨htext, hlines⟩ := hall n hn
  rw [← hlines]
  exact opens_at htext

/-- The first file holds the arguments that all others come to. -/
theorem expands_chain {n : Nat} (hn : n ≤ 16) :
    Expands files root (n + 1) ["@" ++ name n] ["-out:G.dll", "a.cs"] := by
  induction n with
  | zero =>
      have hopens : Opens files root ("@" ++ name 0) ["-out:G.dll", "a.cs"] :=
        ⟨name 0, "-out:G.dll\r\na.cs", by decide +kernel⟩
      have hplain : ∀ arg ∈ ["-out:G.dll", "a.cs"], ¬ NamesFile arg := by
        rintro arg harg ⟨file, hfile⟩
        have hall : ∀ arg ∈ ["-out:G.dll", "a.cs"],
            Argument.of arg.toList = .output "G.dll" ∨ Argument.of arg.toList = .source "a.cs" := by
          decide +kernel
        rcases hall arg harg with h | h <;> exact absurd (h.symm.trans hfile) (by simp)
      exact .file hopens (expands_self hplain) .nil
  | succ n ih => exact .file (opens_next hn) (ih (Nat.le_of_succ_le hn)) .nil

/-- A file between other arguments, the most files that may be nested, one too many, and what two
files come to without them. -/
theorem chained_files_transparent :
    Opens files root "@nn" ["@n"] ∧
      parse files root (["-define:X"] ++ ["@nn"] ++ ["b.cs"]) =
        parse files root (["-define:X"] ++ ["@n"] ++ ["b.cs"]) ∧
      parse files root ["@" ++ name 15] = parse files root ["-out:G.dll", "a.cs"] ∧
      TooDeep (parse files root ["@" ++ name 16]) ∧
      ∃ expansion, parse {} ⟨"/elsewhere"⟩ expansion =
        .ok { output := some "G.dll", assemblyName := "G", files := ["a.cs", "b.cs"] } := by
  obtain ⟨hreplaced, hexpanded, haccepted⟩ := response_files_transparent files root
  have hopens : Opens files root "@nn" ["@n"] := opens_next (show 0 < 16 by decide)
  have hread : parse files root (["-define:X"] ++ ["@nn"] ++ ["b.cs"]) =
      .ok { output := some "G.dll", assemblyName := "G", defines := ["X"],
            files := ["a.cs", "b.cs"] } := by
    decide +kernel
  have hshallow : ¬ TooDeep (parse files root (["-define:X"] ++ ["@nn"] ++ ["b.cs"])) := by
    rintro ⟨file, hdeep⟩
    exact absurd (hread.symm.trans hdeep) (by simp)
  obtain ⟨-, -, expansion, -, -, hexpansion⟩ := haccepted ["@nn", "b.cs"]
    { output := some "G.dll", assemblyName := "G", files := ["a.cs", "b.cs"] } (by decide +kernel)
  exact ⟨hopens, hreplaced _ _ _ _ hopens hshallow,
    (hexpanded 16 _ _ (expands_chain (by decide))).1 (by decide),
    (hexpanded 17 _ _ (expands_chain (by decide))).2 (by decide), expansion, hexpansion _ _⟩

end Chained
end Arguments
end IncrementalBuild
