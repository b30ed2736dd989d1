import IncrementalBuild.Owner
import IncrementalBuild.Proofs.Arguments.Meaning
import IncrementalBuild.Proofs.Arguments.Nesting
import IncrementalBuild.Proofs.Text.Decimal
/-!
# The owner that a command line names

A marker among the defines of a request names its owner. It may stand in any list of defines, in any
response file, among other items and in quotes; the first one with a number of a process is the one
that counts.

## Main definitions

* `Owner.Marks` — an item of the defines that names a process.
* `Argument.Defines` — an argument is a list of defines in which an item stands after others.

## Main results

* `Owner.ofDefines_eq_some` — the first item that names a process decides.
* `Arguments.defines_of_expands` — the defines of accepted arguments, in the order of expansion.
* `Owner.marker_survives` — a marker on the command line is the owner that is found.
-/

namespace IncrementalBuild

/-! ### Markers -/

namespace Owner

variable {define : String} {defines : List String} {process : Nat}

/-- An item of the defines that names a process: the marker, followed by the number of the process
in decimal. The number has to fit into 32 bits. -/
def Marks (define : String) (process : Nat) : Prop :=
  process < Decimal.word ∧
    ∃ number, define.toList = marker.toList ++ number ∧ Decimal.Denotes number process

/-- What is dropped stands in front. -/
theorem dropFront?_eq_some {front cs rest : List Char} :
    dropFront? front cs = some rest ↔ cs = front ++ rest := by
  induction front generalizing cs with
  | nil => simp [dropFront?]
  | cons a front ih =>
      cases cs with
      | nil => simp [dropFront?]
      | cons b cs =>
          rw [dropFront?, Option.ite_none_right_eq_some, ih, List.cons_append, List.cons.injEq,
            eq_comm]

/-- An item that names a process is not empty. -/
theorem Marks.ne_empty (h : Marks define process) : define ≠ "" := by
  rintro rfl
  obtain ⟨-, number, htext, -⟩ := h
  exact absurd (congrArg List.length htext) (by simp [marker])

/-- An item carries the process that it names, and no other. -/
theorem ofDefine?_eq_some : ofDefine? define = some process ↔ Marks define process := by
  rw [ofDefine?, Option.bind_eq_some_iff, Marks, and_comm, ← exists_and_right]
  refine exists_congr fun number => ?_
  rw [dropFront?_eq_some, Decimal.read?_eq_some, and_assoc]

/-- An item carries none if it names none. -/
theorem ofDefine?_eq_none : ofDefine? define = none ↔ ∀ process, ¬ Marks define process := by
  rw [Option.eq_none_iff_forall_ne_some]
  exact forall_congr' fun process => not_congr ofDefine?_eq_some

/-- **The first item that names a process** decides, whatever stands after it. -/
theorem ofDefines_eq_some : ofDefines defines = some process ↔
    ∃ earlier define later, defines = earlier ++ define :: later ∧ Marks define process ∧
      ∀ other ∈ earlier, ∀ process, ¬ Marks other process := by
  rw [ofDefines, List.findSome?_eq_some_iff]
  simp only [ofDefine?_eq_some, ofDefine?_eq_none]

/-- A marker that was written for a process names it. -/
theorem marks_marker (h : process < Decimal.word) : Marks (marker ++ toString process) process := by
  rw [← ofDefine?_eq_some, ofDefine?, String.toList_append, dropFront?_eq_some.mpr rfl]
  exact Decimal.read?_toString h

end Owner

/-! ### Items on the command line -/

namespace Argument

variable {arg item : String} {names earlier : List String}

/-- An argument is a list of defines in which an item stands after others: a flag with one of the
two names, and between two separators, or one of them and an end, the item, perhaps in quotes and
among blanks. -/
def Defines (arg : String) (earlier : List String) (item : String) : Prop :=
  ∃ name value before piece after, IsFlag arg name value ∧
    (Called name "d" ∨ Called name "define") ∧
    value.splitOnP isSeparator = before ++ piece :: after ∧
    List.Forall₂ Unquotes before earlier ∧ Unquotes piece item

/-- An item that is not empty stands in the list that is read, after those of the others that are
not empty. -/
theorem Defines.of_eq (h : Defines arg earlier item) (hitem : item ≠ "") :
    ∃ later, of arg.toList = .defines (earlier.filter (· ≠ "") ++ item :: later) := by
  obtain ⟨name, value, before, piece, after, hflag, hcalled, hsplit, hbefore, hpiece⟩ := h
  obtain ⟨texts, hafter⟩ : ∃ texts, List.Forall₂ Unquotes after texts := by
    refine ⟨after.map fun cs => String.ofList (unquote cs), ?_⟩
    exact List.forall₂_map_right_iff.mpr (List.forall₂_same.mpr fun _ _ => unquotes_iff.mpr rfl)
  have hall : List.Forall₂ Unquotes (before ++ piece :: after) (earlier ++ item :: texts) :=
    List.rel_append hbefore (.cons hpiece hafter)
  refine ⟨texts.filter (· ≠ ""), (Means.defines hflag hcalled ⟨_, hsplit ▸ hall, ?_⟩).of_eq⟩
  rw [List.filter_append, List.filter_cons_of_pos (by simpa using hitem)]

/-- What is read from a list of defines stands in it. -/
theorem Defines.of_mem (h : of arg.toList = .defines names) (hplain : Plain arg)
    (hitem : item ∈ names) : ∃ earlier, Defines arg earlier item := by
  cases (means_iff hplain).mpr h with
  | @defines name value _ flag called lists =>
      obtain ⟨texts, htexts, rfl⟩ := lists
      obtain ⟨earlier, later, rfl⟩ := List.append_of_mem (List.mem_of_mem_filter hitem)
      have hbefore := List.forall₂_take_append _ _ _ htexts
      have hrest := List.forall₂_drop_append _ _ _ htexts
      obtain ⟨piece, after, hpiece, -, hdrop⟩ := List.forall₂_cons_right_iff.mp hrest
      refine ⟨earlier, name, value, _, piece, after, flag, called, ?_, hbefore, hpiece⟩
      rw [← hdrop, List.take_append_drop]

end Argument

namespace Arguments

variable {fs : Files} {workDir : Path} {a : Arguments} {arg : String}
  {args expansion : List String} {depth : Nat}

/-- What names no response file is plain. -/
theorem plain_of_not_namesFile (h : ¬ NamesFile arg) : Argument.Plain arg := by
  rintro ⟨file, hstrips⟩
  refine h ⟨String.ofList (Argument.unquote file), ?_⟩
  rw [Argument.of, Blank.trim, hstrips.eq]
  rfl

/-- **The defines** of accepted arguments are those of their expansion, in its order. -/
theorem defines_of_expands (hparsed : parse fs workDir args = .ok a)
    (h : Expands fs workDir depth args expansion) :
    a.defines = (readings expansion).flatMap (added .defines) := by
  rw [parse_eq] at hparsed
  cases htaken : takeAll fs workDir maxDepth {} args with
  | error e =>
      rw [htaken] at hparsed
      cases hparsed
  | ok b =>
      obtain ⟨depth', hdepth, expansion', h'⟩ := exists_expands htaken
      obtain rfl := h.unique h'
      rw [takeAll_of_expands h' hdepth, addAll] at hparsed
      refine (asks_of_finish ?_).defines
      rw [readings, List.foldl_map]
      exact hparsed

end Arguments

/-! ### The owner of a request -/

namespace Owner

variable {fs : Files} {workDir : Path} {a : Arguments} {args before after earlier : List String}
  {arg : String} {depth process : Nat}

/-- Items before which no item names a process decide. -/
theorem ofDefines_of_expands (hparsed : Arguments.parse fs workDir args = .ok a)
    (h : Arguments.Expands fs workDir depth args (before ++ arg :: after)) {item : String}
    (hmarks : Marks item process) (hitem : Argument.Defines arg earlier item)
    (hbefore : ∀ other ∈ before, ∀ others define, Argument.Defines other others define →
      ∀ process, ¬ Marks define process)
    (hearlier : ∀ define ∈ earlier, ∀ process, ¬ Marks define process) :
    ofDefines a.defines = some process := by
  obtain ⟨later, hof⟩ := hitem.of_eq hmarks.ne_empty
  have hdefines : a.defines =
      ((Arguments.readings before).flatMap (Arguments.added .defines) ++
        earlier.filter (· ≠ "")) ++
      item :: (later ++ (Arguments.readings after).flatMap (Arguments.added .defines)) := by
    rw [Arguments.defines_of_expands hparsed h, Arguments.readings, List.map_append, List.map_cons,
      List.flatMap_append, List.flatMap_cons, hof]
    simp [Arguments.readings, Arguments.added]
  rw [ofDefines_eq_some]
  refine ⟨_, item, _, hdefines, hmarks, List.forall_mem_append.mpr ⟨fun define hdefine => ?_,
    fun define hdefine => hearlier define (List.mem_of_mem_filter hdefine)⟩⟩
  obtain ⟨m, hm, hadded⟩ := List.mem_flatMap.mp hdefine
  obtain ⟨other, hother, rfl⟩ := List.mem_map.mp hm
  cases hread : Argument.of other.toList with
  | defines names =>
      rw [hread] at hadded
      have hplain := Arguments.plain_of_not_namesFile
        (h.plain_of_mem other (List.mem_append_left _ hother))
      obtain ⟨others, hdefines⟩ := Argument.Defines.of_mem hread hplain hadded
      exact hbefore other hother others define hdefines
  | _ =>
      rw [hread] at hadded
      exact absurd hadded List.not_mem_nil

/-- **The marker survives the command line.** Of accepted arguments, with any nesting of response
files, some argument of the expansion is a list of defines, and in it, quoted or not, stands the
marker with the number of a process. If no item of a list of defines before it names a process, then
that process is the owner, whatever runs on the host and whatever name is looked for. Markers with
malformed numbers, or with numbers that do not fit, name none. A number that is given explicitly
counts more than any marker. -/
theorem marker_survives (hparsed : Arguments.parse fs workDir args = .ok a)
    (hexpands : Arguments.Expands fs workDir depth args (before ++ arg :: after))
    (hfits : process < Decimal.word)
    (hitem : Argument.Defines arg earlier (marker ++ toString process))
    (hbefore : ∀ other ∈ before, ∀ others define, Argument.Defines other others define →
      ∀ process, ¬ Marks define process)
    (hearlier : ∀ define ∈ earlier, ∀ process, ¬ Marks define process)
    (h : Host) (name : Option String) :
    resolve h none a.defines name = .ok process ∧
      ∀ explicit, resolve h (some explicit) a.defines name = .ok explicit := by
  refine ⟨?_, fun explicit => rfl⟩
  have hfound := ofDefines_of_expands hparsed hexpands (marks_marker hfits) hitem hbefore hearlier
  rw [resolve.eq_def, hfound]
  rfl

/-! ### A marker two files deep -/

namespace Hidden

/-- A file that names another one, which holds a list of defines among other arguments. -/
def files : Files :=
  { entries := [
      (["a.rsp"], .file (Bytes.ofString "-unsafe\n@b.rsp") ⟨1⟩ false),
      (["b.rsp"], .file (Bytes.ofString
        "a.cs\r\n -Define: A ; \"__OWNER_PROCESS_ID__4242\" ,B \r\n") ⟨1⟩ false)] }

/-- The directory of the files. -/
def root : Path := ⟨"/"⟩

/-- Markers without a number that fits, the files, and one more marker. -/
def request : List String :=
  ["-d:__OWNER_PROCESS_ID__1x,__OWNER_PROCESS_ID__4294967296", "@a.rsp", "-out:G.dll",
    "-d:__OWNER_PROCESS_ID__7"]

/-- The arguments before the list of defines, with the files in the places of their names. -/
def leading : List String :=
  ["-d:__OWNER_PROCESS_ID__1x,__OWNER_PROCESS_ID__4294967296", "-unsafe", "a.cs"]

/-- The list of defines. -/
def list : String := " -Define: A ; \"__OWNER_PROCESS_ID__4242\" ,B "

/-- The arguments after it. -/
def trailing : List String := ["-out:G.dll", "-d:__OWNER_PROCESS_ID__7"]

/-- An editor is running. -/
def host : Host := { processes := [(99, "editor")] }

/-- What the arguments ask for. -/
def asked : Arguments :=
  { output := some "G.dll", assemblyName := "G", files := ["a.cs"], allowUnsafe := true,
    defines := ["__OWNER_PROCESS_ID__1x", "__OWNER_PROCESS_ID__4294967296", "A",
      "__OWNER_PROCESS_ID__4242", "B", "__OWNER_PROCESS_ID__7"] }

/-- What the arguments come to. -/
theorem expands_request :
    Arguments.Expands files root 2 request (leading ++ list :: trailing) := by
  have hplain : ∀ arg ∈ leading ++ list :: trailing, ¬ Arguments.NamesFile arg := by
    intro arg harg
    refine Arguments.not_namesFile ?_
    rintro ⟨file, hstrips⟩
    have hall : ∀ arg ∈ leading ++ list :: trailing, (Blank.trim arg.toList).head? ≠ some '@' := by
      decide +kernel
    exact hall arg harg (by rw [Blank.trim, hstrips.eq, List.head?_cons])
  have hfirst : Arguments.Opens files root "@a.rsp" ["-unsafe", "@b.rsp"] :=
    ⟨"a.rsp", "-unsafe\n@b.rsp", by decide +kernel⟩
  have hsecond : Arguments.Opens files root "@b.rsp" ["a.cs", list] :=
    ⟨"b.rsp", "a.cs\r\n -Define: A ; \"__OWNER_PROCESS_ID__4242\" ,B \r\n", by decide +kernel⟩
  have hinner : Arguments.Expands files root 1 ["-unsafe", "@b.rsp"] ["-unsafe", "a.cs", list] :=
    .plain (hplain _ (by decide)) (.file hsecond
      (Arguments.expands_self fun arg harg => hplain arg (by revert arg; decide)) .nil)
  have hrest : Arguments.Expands files root 0 trailing trailing :=
    Arguments.expands_self fun arg harg => hplain arg (by revert arg; decide)
  exact .plain (hplain _ (by decide)) (.file hfirst hinner hrest)

/-- The items of the first list name no process. -/
theorem not_marks_leading : ∀ other ∈ leading, ∀ others define,
    Argument.Defines other others define → ∀ process, ¬ Marks define process := by
  intro other hother others define hdefines process hmarks
  obtain ⟨later, hof⟩ := hdefines.of_eq hmarks.ne_empty
  have hall : ∀ other ∈ leading,
      ofDefines (Arguments.added .defines (Argument.of other.toList)) = none := by
    decide +kernel
  have hnone := hall other hother
  rw [hof, ofDefines, Arguments.added, List.findSome?_eq_none_iff] at hnone
  exact ofDefine?_eq_none.mp (hnone define (by simp)) process hmarks

/-- The editor is not the owner, and neither is any other process that the arguments mention. -/
theorem hidden_marker_found :
    Arguments.Expands files root 2 request (leading ++ list :: trailing) ∧
    ∃ a, Arguments.parse files root request = .ok a ∧
      resolve host none a.defines (some "editor") = .ok 4242 ∧
      resolve host (some 5) a.defines (some "editor") = .ok 5 := by
  have ha : Arguments.parse files root request = .ok asked := by decide +kernel
  have hflag : Argument.IsFlag list "Define".toList " A ; \"__OWNER_PROCESS_ID__4242\" ,B".toList :=
    Argument.isFlag_iff.mpr ⟨_, rfl, by decide +kernel⟩
  have hcalled : Argument.Called "Define".toList "define" :=
    (Argument.called_iff (by decide)).mpr (by decide +kernel)
  have hfirst : List.Forall₂ Argument.Unquotes [" A ".toList] ["A"] :=
    .cons (Argument.unquotes_iff.mpr (by decide +kernel)) .nil
  have hitem : Argument.Defines list ["A"] (marker ++ toString 4242) :=
    ⟨_, _, [" A ".toList], " \"__OWNER_PROCESS_ID__4242\" ".toList, ["B".toList], hflag,
      .inr hcalled, by decide +kernel, hfirst, Argument.unquotes_iff.mpr (by decide +kernel)⟩
  have hearlier : ∀ define ∈ ["A"], ∀ process, ¬ Marks define process := by
    intro define hdefine
    rw [List.mem_singleton.mp hdefine]
    exact ofDefine?_eq_none.mp (by decide +kernel)
  obtain ⟨hfound, hexplicit⟩ := marker_survives ha expands_request (by decide) hitem
    not_marks_leading hearlier host (some "editor")
  exact ⟨expands_request, asked, ha, hfound, hexplicit 5⟩

end Hidden
end Owner
end IncrementalBuild
