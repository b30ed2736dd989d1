import IncrementalBuild.Proofs.Arguments
import Mathlib.Data.List.Forall2
/-!
# What arguments ask for

What one argument means is told by its text alone, and what arguments ask for by what each of them
means. Both are said here without the functions that read them: which characters are gone from the
ends of a text, how a flag is called, which of its outputs counts.

## Main definitions

* `Argument.Unquotes`, `Argument.Lists`, `Argument.IsFlag`, `Argument.Called` — items, lists of
  items, flags and their names in any mix of cases.
* `Argument.Plain`, `Argument.Means` — an argument that names no response file, and its meaning.
* `Arguments.Part`, `Arguments.partOf` — the parts of what arguments ask for, and the one that an
  argument has to do with.
* `Arguments.FirstsOf` — texts without repetitions, in the order of their first mentions.
* `Arguments.Asks` — what arguments ask for, part by part, told from what they mean.

## Main results

* `Argument.means_iff` — every argument that names no response file means one thing, and that is
  what is read from it.
* `Arguments.list_foldl`, `Arguments.agrees_foldl` — lists grow, and the last argument counts that
  has to do with a part.
* `Arguments.firstsOf_firstMentions` — repetitions are left out.
* `Arguments.parse_meets` — reading arguments without response files gives what they ask for.
-/

namespace IncrementalBuild

/-! ### What an argument means -/

namespace Argument

open Blank (Strips)

variable {arg item : String} {cs name value : List Char} {list : List String} {m : Argument}

/-- An item without the blanks at its ends, and then without the quotes. -/
def Unquotes (cs : List Char) (item : String) : Prop :=
  ∃ trimmed, Strips Blank.isBlank cs trimmed ∧ Strips (· == '"') trimmed item.toList

/-- The items of a list: what stands between separators, unquoted, unless that is nothing. -/
def Lists (value : List Char) (list : List String) : Prop :=
  ∃ texts, List.Forall₂ Unquotes (value.splitOnP isSeparator) texts ∧ list = texts.filter (· ≠ "")

/-- A flag: between its dash and its first colon, if it has one, stands its name, and after that
its value. -/
structure IsFlag (arg : String) (name value : List Char) : Prop where
  written : Strips Blank.isBlank arg.toList ('-' :: name) ∧ value = [] ∨
    Strips Blank.isBlank arg.toList ('-' :: name ++ ':' :: value)
  colon : ':' ∉ name

/-- A name is a word, in any mix of cases. -/
def Called (name : List Char) (word : String) : Prop :=
  name.map Char.toLower = word.toList.map Char.toLower

/-- It names no response file: behind its blanks stands no `@`. -/
def Plain (arg : String) : Prop := ¬ ∃ file, Strips Blank.isBlank arg.toList ('@' :: file)

/-- The names of flags that are understood. -/
def words : List String :=
  ["r", "reference", "d", "define", "out", "nowarn", "unsafe", "unsafe+", "unsafe-"]

/-- What an argument means that names no response file. -/
inductive Means : String → Argument → Prop
  | blank {arg : String} (strips : Strips Blank.isBlank arg.toList []) : Means arg .blank
  | source {arg path : String} {c : Char} {rest : List Char}
      (strips : Strips Blank.isBlank arg.toList (c :: rest)) (noFlag : c ≠ '-') (noFile : c ≠ '@')
      (unquotes : Unquotes arg.toList path) : Means arg (.source path)
  | references {arg : String} {name value : List Char} {paths : List String}
      (flag : IsFlag arg name value) (called : Called name "r" ∨ Called name "reference")
      (lists : Lists value paths) : Means arg (.references paths)
  | defines {arg : String} {name value : List Char} {names : List String}
      (flag : IsFlag arg name value) (called : Called name "d" ∨ Called name "define")
      (lists : Lists value names) : Means arg (.defines names)
  | output {arg path : String} {name value : List Char} (flag : IsFlag arg name value)
      (called : Called name "out") (unquotes : Unquotes value path) : Means arg (.output path)
  | suppress {arg : String} {name value : List Char} {codes : List String}
      (flag : IsFlag arg name value) (called : Called name "nowarn") (lists : Lists value codes) :
      Means arg (.suppress codes)
  | allowUnsafe {arg : String} {name value : List Char} (flag : IsFlag arg name value)
      (called : Called name "unsafe" ∨ Called name "unsafe+") : Means arg (.allowUnsafe true)
  | forbidUnsafe {arg : String} {name value : List Char} (flag : IsFlag arg name value)
      (called : Called name "unsafe-") : Means arg (.allowUnsafe false)
  | flag {arg text : String} {name value : List Char} (flag : IsFlag arg name value)
      (unknown : ∀ word ∈ words, ¬ Called name word)
      (strips : Strips Blank.isBlank arg.toList text.toList) : Means arg (.flag text)

/-- Items are unquoted as they are read. -/
theorem unquotes_iff : Unquotes cs item ↔ String.ofList (unquote cs) = item := by
  rw [unquote, ← String.toList_inj, String.toList_ofList]
  constructor
  · rintro ⟨trimmed, htrim, hquotes⟩
    rw [Blank.trim, htrim.eq, hquotes.eq]
  · intro h
    exact ⟨_, Blank.strips_trimWhere _ _, Blank.strips_iff.mpr h⟩

/-- Lists have the items that are read from them. -/
theorem lists_iff : Lists value list ↔ items value = list := by
  have htexts : ∀ texts, List.Forall₂ Unquotes (value.splitOnP isSeparator) texts ↔
      (value.splitOnP isSeparator).map (fun cs => String.ofList (unquote cs)) = texts := by
    intro texts
    have hone : Unquotes = fun cs item => String.ofList (unquote cs) = item := by
      funext cs item
      exact propext unquotes_iff
    rw [hone, ← List.forall₂_map_left_iff, List.forall₂_eq_eq_eq]
  have hitems : items value =
      ((value.splitOnP isSeparator).map fun cs => String.ofList (unquote cs)).filter (· ≠ "") := by
    rw [items, Blank.pieces_eq_splitOnP, List.filter_map, List.map_map, List.filter_map]
    congr 2
    funext cs
    simp
  constructor
  · rintro ⟨texts, htext, rfl⟩
    rw [hitems, (htexts texts).mp htext]
  · intro h
    exact ⟨_, (htexts _).mpr rfl, by rw [← h, hitems]⟩

/-- Flags are taken apart as they are read. -/
theorem isFlag_iff : IsFlag arg name value ↔ ∃ rest, Blank.trim arg.toList = '-' :: rest ∧
    name = rest.takeWhile (· != ':') ∧ value = (rest.dropWhile (· != ':')).drop 1 := by
  constructor
  · rintro ⟨hwritten, hcolon⟩
    have hname : ∀ c ∈ name, (c != ':') = true := fun c hc => by
      simpa using fun heq : c = ':' => hcolon (heq ▸ hc)
    rcases hwritten with ⟨hstrips, rfl⟩ | hstrips
    · refine ⟨name, hstrips.eq, ?_, ?_⟩
      · rw [List.takeWhile_eq_self_iff.mpr hname]
      · rw [List.dropWhile_eq_nil_iff.mpr hname]
        rfl
    · refine ⟨name ++ ':' :: value, hstrips.eq, ?_, ?_⟩
      · rw [List.takeWhile_append_of_pos hname]
        simp
      · rw [List.dropWhile_append_of_pos hname]
        simp
  · rintro ⟨rest, htrim, rfl, rfl⟩
    have hname : ':' ∉ rest.takeWhile (· != ':') := by
      intro hmem
      exact absurd (List.mem_takeWhile_imp hmem) (by simp)
    refine ⟨?_, hname⟩
    have hstrips : Strips Blank.isBlank arg.toList
        ('-' :: (rest.takeWhile (· != ':') ++ rest.dropWhile (· != ':'))) := by
      rw [List.takeWhile_append_dropWhile, ← htrim]
      exact Blank.strips_trimWhere _ _
    have hdrop := List.head?_dropWhile_not (· != ':') rest
    cases hrest : rest.dropWhile (· != ':') with
    | nil =>
        rw [hrest, List.append_nil] at hstrips
        exact .inl ⟨hstrips, rfl⟩
    | cons c others =>
        rw [hrest] at hstrips hdrop
        obtain rfl : c = ':' := by simpa using hdrop
        exact .inr hstrips

/-- Names are looked up in lower case. -/
theorem called_iff {word : String} (hword : word ∈ words) :
    Called name word ↔ String.ofList (name.map Char.toLower) = word := by
  have hlower : ∀ word ∈ words, word.toList.map Char.toLower = word.toList := by decide
  rw [Called, hlower word hword, ← String.toList_inj, String.toList_ofList]

/-- What a flag means depends on its name and its value. -/
theorem of_isFlag (h : IsFlag arg name value) :
    ∃ rest, Blank.trim arg.toList = '-' :: rest ∧ of arg.toList = ofFlag ('-' :: rest) rest ∧
      nameAndValue rest = (name.map Char.toLower, value) := by
  obtain ⟨rest, htrim, rfl, rfl⟩ := isFlag_iff.mp h
  exact ⟨rest, htrim, by rw [of, htrim]; rfl, rfl⟩

/-- What an argument means is what is read from it. -/
theorem Means.of_eq (h : Means arg m) : of arg.toList = m := by
  have hflag {name value : List Char} {word : String} (hflag : IsFlag arg name value)
      (hcalled : Called name word) (hword : word ∈ words) : ∃ text flag,
        of arg.toList = ofFlag text flag ∧ String.ofList (nameAndValue flag).1 = word ∧
          (nameAndValue flag).2 = value := by
    obtain ⟨rest, -, hof, hname⟩ := of_isFlag hflag
    exact ⟨_, rest, hof, by rw [hname]; exact (called_iff hword).mp hcalled, by rw [hname]⟩
  cases h with
  | blank strips => rw [of, Blank.trim, strips.eq]
  | @source path c rest strips noFlag noFile unquotes =>
      have hpath := unquotes_iff.mp unquotes
      rw [unquote, Blank.trim, strips.eq] at hpath
      have hself : Blank.trim (c :: rest) = c :: rest := strips.eq ▸ Blank.trim_trim arg.toList
      rw [of, Blank.trim, strips.eq]
      split
      · next h => exact absurd h (List.cons_ne_nil c rest)
      · next h => exact absurd (List.cons.inj h).1 noFile
      · next h => exact absurd (List.cons.inj h).1 noFlag
      · rw [unquote, hself, hpath]
  | references flag called lists =>
      obtain called | called := called <;>
      · obtain ⟨text, rest, hof, hname, rfl⟩ := hflag flag called (by decide)
        simp only [hof, ofFlag, hname, lists_iff.mp lists]
  | defines flag called lists =>
      obtain called | called := called <;>
      · obtain ⟨text, rest, hof, hname, rfl⟩ := hflag flag called (by decide)
        simp only [hof, ofFlag, hname, lists_iff.mp lists]
  | output flag called unquotes =>
      obtain ⟨text, rest, hof, hname, rfl⟩ := hflag flag called (by decide)
      simp only [hof, ofFlag, hname, unquotes_iff.mp unquotes]
  | suppress flag called lists =>
      obtain ⟨text, rest, hof, hname, rfl⟩ := hflag flag called (by decide)
      simp only [hof, ofFlag, hname, lists_iff.mp lists]
  | allowUnsafe flag called =>
      obtain called | called := called <;>
      · obtain ⟨text, rest, hof, hname, rfl⟩ := hflag flag called (by decide)
        simp only [hof, ofFlag, hname]
  | forbidUnsafe flag called =>
      obtain ⟨text, rest, hof, hname, rfl⟩ := hflag flag called (by decide)
      simp only [hof, ofFlag, hname]
  | @flag text name value flag unknown strips =>
      obtain ⟨rest, htrim, hof, hname⟩ := of_isFlag flag
      have hword : ∀ word ∈ words, String.ofList (nameAndValue rest).1 ≠ word := by
        intro word hword h
        rw [hname] at h
        exact unknown word hword ((called_iff hword).mpr h)
      have htext : String.ofList ('-' :: rest) = text := by
        rw [← htrim, Blank.trim, strips.eq, String.ofList_toList]
      rw [hof, ofFlag]
      dsimp only
      split
      all_goals first
        | exact congrArg _ htext
        | next h => exact absurd h (hword _ (by decide))

/-- An argument that names no response file means what is read from it. -/
theorem means_of (hplain : Plain arg) :
    Means arg (of arg.toList) := by
  have hstrips : Strips Blank.isBlank arg.toList (Blank.trim arg.toList) :=
    Blank.strips_trimWhere _ _
  rw [of]
  split
  · next htrim => exact .blank (htrim ▸ hstrips)
  · next file htrim => exact absurd ⟨file, htrim ▸ hstrips⟩ hplain
  · next rest htrim =>
      have hflag := isFlag_iff.mpr ⟨rest, htrim, rfl, rfl⟩
      rw [ofFlag]
      dsimp only
      have hcalled {word : String} (hword : word ∈ words)
          (h : String.ofList (nameAndValue rest).1 = word) :
          Called (rest.takeWhile (· != ':')) word := (called_iff hword).mpr h
      split
      · next h => exact .references hflag (.inl (hcalled (by decide) h)) (lists_iff.mpr rfl)
      · next h => exact .references hflag (.inr (hcalled (by decide) h)) (lists_iff.mpr rfl)
      · next h => exact .defines hflag (.inl (hcalled (by decide) h)) (lists_iff.mpr rfl)
      · next h => exact .defines hflag (.inr (hcalled (by decide) h)) (lists_iff.mpr rfl)
      · next h => exact .output hflag (hcalled (by decide) h) (unquotes_iff.mpr rfl)
      · next h => exact .suppress hflag (hcalled (by decide) h) (lists_iff.mpr rfl)
      · next h => exact .allowUnsafe hflag (.inl (hcalled (by decide) h))
      · next h => exact .allowUnsafe hflag (.inr (hcalled (by decide) h))
      · next h => exact .forbidUnsafe hflag (hcalled (by decide) h)
      · refine .flag hflag (fun word hword h => ?_) ?_
        · have hname : String.ofList (nameAndValue rest).1 = word := (called_iff hword).mp h
          simp only [words, List.mem_cons, List.not_mem_nil, or_false] at hword
          rcases hword with rfl | rfl | rfl | rfl | rfl | rfl | rfl | rfl | rfl <;> contradiction
        · rw [String.toList_ofList, ← htrim]
          exact hstrips
  · next hblank hfile hflag =>
      obtain ⟨c, rest, htrim⟩ := List.exists_cons_of_ne_nil hblank
      have hpath : unquote (Blank.trim arg.toList) = unquote arg.toList := by
        rw [unquote, Blank.trim_trim, unquote]
      rw [hpath]
      exact .source (htrim ▸ hstrips) (fun hc => hflag rest (hc ▸ htrim))
        (fun hc => hfile rest (hc ▸ htrim)) (unquotes_iff.mpr rfl)

/-- **Meanings.** An argument that names no response file means one thing, and that is what is read
from it. -/
theorem means_iff (hplain : Plain arg) :
    Means arg m ↔ of arg.toList = m :=
  ⟨Means.of_eq, fun h => h ▸ means_of hplain⟩

/-- An argument that names an output, with a path or without one. -/
def NamesOutput (arg : String) : Prop := ∃ name value, IsFlag arg name value ∧ Called name "out"

/-- Arguments that name an output are read as such. -/
theorem namesOutput_iff (hplain : Plain arg) :
    NamesOutput arg ↔ ∃ path, of arg.toList = .output path := by
  constructor
  · rintro ⟨name, value, hflag, hcalled⟩
    exact ⟨_, (Means.output hflag hcalled (unquotes_iff.mpr rfl)).of_eq⟩
  · rintro ⟨path, hof⟩
    cases (means_iff hplain).mpr hof with
    | output flag called _ => exact ⟨_, _, flag, called⟩

end Argument

namespace Arguments

variable {fs : Files} {workDir : Path} {a b c : Arguments} {arg : String} {args : List String}
  {meanings : List Argument} {m : Argument}

/-! ### The parts of what arguments ask for -/

/-- The parts of what arguments ask for. The assembly name comes with the output. -/
inductive Part
  | output
  | allowUnsafe
  | defines
  | references
  | files
  | suppressed
  | extraFlags
  deriving DecidableEq, Repr

/-- The same is asked for in a part. -/
def Part.Agrees : Part → Arguments → Arguments → Prop
  | .output, a, b => a.output = b.output ∧ a.assemblyName = b.assemblyName
  | .allowUnsafe, a, b => a.allowUnsafe = b.allowUnsafe
  | .defines, a, b => a.defines = b.defines
  | .references, a, b => a.references = b.references
  | .files, a, b => a.files = b.files
  | .suppressed, a, b => a.suppressed = b.suppressed
  | .extraFlags, a, b => a.extraFlags = b.extraFlags

/-- The list in a part that is one. -/
def Part.list : Part → Arguments → List String
  | .output, _ | .allowUnsafe, _ => []
  | .defines, a => a.defines
  | .references, a => a.references
  | .files, a => a.files
  | .suppressed, a => a.suppressed
  | .extraFlags, a => a.extraFlags

/-- The part that an argument has to do with. -/
def partOf : Argument → Option Part
  | .blank | .responseFile _ => none
  | .source _ => some .files
  | .references _ => some .references
  | .defines _ => some .defines
  | .output _ => some .output
  | .suppress _ => some .suppressed
  | .allowUnsafe _ => some .allowUnsafe
  | .flag _ => some .extraFlags

/-- What an argument adds to the list in a part. -/
def added : Part → Argument → List String
  | .files, .source path => [path]
  | .references, .references paths => paths
  | .defines, .defines names => names
  | .suppressed, .suppress codes => codes
  | .extraFlags, .flag text => [text]
  | _, _ => []

/-- The last one of the meanings that have to do with a part. -/
def IsLast (part : Part) (meanings : List Argument) (m : Argument) : Prop :=
  partOf m = some part ∧ ∃ before after, meanings = before ++ m :: after ∧
    ∀ other ∈ after, partOf other ≠ some part

/-- Texts without repetitions, in the order of their first mentions. -/
structure FirstsOf (all kept : List String) : Prop where
  nodup : kept.Nodup
  mem_iff : ∀ s, s ∈ kept ↔ s ∈ all
  order : kept.Pairwise fun s t => all.idxOf s < all.idxOf t

/-- What arguments ask for, told from what they mean. Of outputs and switches the last one counts,
lists are put together, and references and sources are kept once. -/
structure Asks (meanings : List Argument) (a : Arguments) : Prop where
  output : ∃ path, IsLast .output meanings (.output path) ∧ a.output = some path ∧
    a.assemblyName = (Path.stem? ⟨path⟩).getD ""
  allowUnsafe : IsLast .allowUnsafe meanings (.allowUnsafe a.allowUnsafe) ∨
    (∀ m ∈ meanings, partOf m ≠ some .allowUnsafe) ∧ a.allowUnsafe = false
  defines : a.defines = meanings.flatMap (added .defines)
  suppressed : a.suppressed = meanings.flatMap (added .suppressed)
  extraFlags : a.extraFlags = meanings.flatMap (added .extraFlags)
  references : FirstsOf (meanings.flatMap (added .references)) a.references
  files : FirstsOf (meanings.flatMap (added .files)) a.files

namespace Part

variable {part : Part}

/-- What is asked for agrees with itself. -/
theorem Agrees.refl (part : Part) (a : Arguments) : part.Agrees a a := by
  cases part <;> first | rfl | exact ⟨rfl, rfl⟩

/-- What agrees with the same agrees. -/
theorem Agrees.trans (hab : part.Agrees a b) (hbc : part.Agrees b c) : part.Agrees a c := by
  cases part <;> first | exact Eq.trans hab hbc | exact ⟨hab.1.trans hbc.1, hab.2.trans hbc.2⟩

end Part

/-- The parts that an argument has nothing to do with stay as they are. -/
theorem agrees_add {part : Part} (h : partOf m ≠ some part) : part.Agrees (a.add m) a := by
  cases m <;> cases part <;> first | rfl | exact ⟨rfl, rfl⟩ | exact absurd rfl h

/-- An argument that has to do with a part changes it alike, whatever it was before. -/
theorem agrees_add_add {part : Part} (h : part.Agrees a b) : part.Agrees (a.add m) (b.add m) := by
  cases m <;> cases part <;>
    first
    | exact h
    | exact ⟨rfl, rfl⟩
    | rfl
    | exact congrArg (· ++ _) h

/-- A list grows by what an argument adds to it. -/
theorem list_add (part : Part) (a : Arguments) (m : Argument) :
    part.list (a.add m) = part.list a ++ added part m := by
  cases m <;> cases part <;> first | rfl | exact (List.append_nil _).symm

/-- **Lists** grow by what the arguments add to them, in their order. -/
theorem list_foldl (part : Part) (a : Arguments) (meanings : List Argument) :
    part.list (meanings.foldl add a) = part.list a ++ meanings.flatMap (added part) := by
  induction meanings generalizing a with
  | nil => exact (List.append_nil _).symm
  | cons m rest ih =>
      rw [List.foldl_cons, ih, list_add, List.flatMap_cons, List.append_assoc]

/-- **The last one counts.** A part is as it was, or as the last argument makes it that has to do
with it. -/
theorem agrees_foldl (part : Part) (a : Arguments) (meanings : List Argument) :
    (∀ m ∈ meanings, partOf m ≠ some part) ∧ part.Agrees (meanings.foldl add a) a ∨
      ∃ m b, IsLast part meanings m ∧ part.Agrees (meanings.foldl add a) (add b m) := by
  induction meanings using List.reverseRecOn with
  | nil => exact .inl ⟨fun _ h => absurd h List.not_mem_nil, .refl part a⟩
  | append_singleton before m ih =>
      rw [List.foldl_append, List.foldl_cons, List.foldl_nil]
      by_cases hpart : partOf m = some part
      · exact .inr ⟨m, _, ⟨hpart, before, [], rfl, fun _ h => absurd h List.not_mem_nil⟩,
          .refl part _⟩
      · rcases ih with ⟨hnone, hagrees⟩ | ⟨last, b, ⟨hlast, first, after, rfl, hafter⟩, hagrees⟩
        · refine .inl ⟨?_, (agrees_add hpart).trans hagrees⟩
          exact List.forall_mem_append.mpr ⟨hnone, List.forall_mem_singleton.mpr hpart⟩
        · refine .inr ⟨last, b, ⟨hlast, first, after ++ [m], by simp, ?_⟩,
            (agrees_add hpart).trans hagrees⟩
          exact List.forall_mem_append.mpr ⟨hafter, List.forall_mem_singleton.mpr hpart⟩

/-- **Repetitions** are left out. -/
theorem firstsOf_firstMentions (all : List String) : FirstsOf all (firstMentions all) := by
  induction all with
  | nil => exact ⟨List.nodup_nil, fun _ => Iff.rfl, List.Pairwise.nil⟩
  | cons s rest ih =>
      have hne : ∀ t ∈ (firstMentions rest).filter (· != s), t ≠ s := fun t ht => by
        simpa using (List.mem_filter.mp ht).2
      have hidx : ∀ t, t ≠ s → (s :: rest).idxOf t = rest.idxOf t + 1 := fun t ht =>
        List.idxOf_cons_ne rest (Ne.symm ht)
      refine ⟨?_, fun t => ?_, ?_⟩
      · exact List.nodup_cons.mpr ⟨fun h => hne s h rfl, ih.nodup.filter _⟩
      · by_cases ht : t = s <;> simp [firstMentions, ht, ih.mem_iff]
      · refine List.pairwise_cons.mpr ⟨fun t ht => ?_, ?_⟩
        · rw [hidx t (hne t ht), List.idxOf_cons_self]
          exact Nat.succ_pos _
        · refine (ih.order.filter _).imp_of_mem fun {t u} ht hu hlt => ?_
          rw [hidx t (hne t ht), hidx u (hne u hu)]
          exact Nat.succ_lt_succ hlt

/-! ### Reading what arguments ask for -/

/-- What arguments mean that name no response files. -/
def readings (args : List String) : List Argument := args.map fun arg => Argument.of arg.toList

/-- Agreement lasts when the same is taken in. -/
theorem agrees_foldl_foldl {part : Part} (h : part.Agrees a b) (meanings : List Argument) :
    part.Agrees (meanings.foldl add a) (meanings.foldl add b) := by
  induction meanings generalizing a b with
  | nil => exact h
  | cons m rest ih => exact ih (agrees_add_add h)

/-- Arguments are accepted if there is an output, without what is there repeatedly. -/
theorem finish_eq_ok : a.finish = .ok b ↔ a.output ≠ none ∧
    b = { a with references := firstMentions a.references, files := firstMentions a.files } := by
  cases houtput : a.output <;> simp [finish, houtput, eq_comm]

/-- What agrees before repetitions are left out agrees after that. -/
theorem agrees_finish {part : Part} {a' b' : Arguments} (h : part.Agrees a b)
    (ha : a.finish = .ok a') (hb : b.finish = .ok b') : part.Agrees a' b' := by
  obtain ⟨-, rfl⟩ := finish_eq_ok.mp ha
  obtain ⟨-, rfl⟩ := finish_eq_ok.mp hb
  cases part <;> first | exact h | exact congrArg firstMentions h

/-- What names no response file is not read as one. -/
theorem not_namesFile (hplain : Argument.Plain arg) : ¬ NamesFile arg := by
  rintro ⟨file, hfile⟩
  cases (Argument.means_iff hplain).mpr hfile

/-- Arguments without response files are read one by one. -/
theorem parse_plain (hplain : ∀ arg ∈ args, Argument.Plain arg) :
    parse fs workDir args = ((readings args).foldl add {}).finish := by
  have hself : Expands fs workDir 0 args args := expands_self fun arg harg =>
    not_namesFile (hplain arg harg)
  rw [parse_expansion hself, readings, List.foldl_map, addAll]

/-- Arguments without response files have one meaning each. -/
theorem means_readings (hplain : ∀ arg ∈ args, Argument.Plain arg) :
    List.Forall₂ Argument.Means args meanings ↔ meanings = readings args := by
  induction args generalizing meanings with
  | nil => exact List.forall₂_nil_left_iff
  | cons arg rest ih =>
      obtain ⟨harg, hrest⟩ := List.forall_mem_cons.mp hplain
      rw [List.forall₂_cons_left_iff, readings, List.map_cons]
      constructor
      · rintro ⟨m, others, hm, hothers, rfl⟩
        rw [(Argument.means_iff harg).mp hm, (ih hrest).mp hothers, readings]
      · intro h
        exact ⟨_, _, (Argument.means_iff harg).mpr rfl, (ih hrest).mpr rfl, h⟩

/-- What arguments with these meanings are read as is what they ask for. -/
theorem asks_of_finish (h : (meanings.foldl add {}).finish = .ok a) : Asks meanings a := by
  obtain ⟨houtput, rfl⟩ := finish_eq_ok.mp h
  have hlist (part : Part) : part.list (meanings.foldl add {}) = meanings.flatMap (added part) := by
    rw [list_foldl]
    cases part <;> rfl
  constructor
  case output =>
    rcases agrees_foldl .output {} meanings with ⟨-, hagrees⟩ | ⟨m, b, hlast, hagrees⟩
    · exact absurd hagrees.1 houtput
    · cases m with
      | output path => exact ⟨path, hlast, hagrees⟩
      | _ => exact absurd hlast.1 (by simp [partOf])
  case allowUnsafe =>
    rcases agrees_foldl .allowUnsafe {} meanings with ⟨hnone, hagrees⟩ | ⟨m, b, hlast, hagrees⟩
    · exact .inr ⟨hnone, hagrees⟩
    · cases m with
      | allowUnsafe allowed => exact .inl (hagrees ▸ hlast)
      | _ => exact absurd hlast.1 (by simp [partOf])
  case defines => exact hlist .defines
  case suppressed => exact hlist .suppressed
  case extraFlags => exact hlist .extraFlags
  case references => exact hlist .references ▸ firstsOf_firstMentions _
  case files => exact hlist .files ▸ firstsOf_firstMentions _

/-- An output is read if one is named. -/
theorem output_foldl_eq_none :
    (meanings.foldl add {}).output = none ↔ ∀ m ∈ meanings, partOf m ≠ some .output := by
  rcases agrees_foldl .output {} meanings with ⟨hnone, hagrees⟩ | ⟨m, b, hlast, hagrees⟩
  · exact ⟨fun _ => hnone, fun _ => hagrees.1⟩
  · obtain ⟨hpart, before, after, rfl, -⟩ := hlast
    refine ⟨fun h => ?_, fun h => absurd hpart (h m (by simp))⟩
    cases m with
    | output path => exact absurd (hagrees.1.symm.trans h) (by simp [add])
    | _ => exact absurd hpart (by simp [partOf])

/-- Outputs are named in arguments. -/
theorem exists_namesOutput_iff (hplain : ∀ arg ∈ args, Argument.Plain arg) :
    (∃ arg ∈ args, Argument.NamesOutput arg) ↔ ((readings args).foldl add {}).output ≠ none := by
  rw [ne_eq, output_foldl_eq_none, not_forall]
  constructor
  · rintro ⟨arg, harg, hnames⟩
    obtain ⟨path, hof⟩ := (Argument.namesOutput_iff (hplain arg harg)).mp hnames
    refine ⟨.output path, fun h => h (List.mem_map.mpr ⟨arg, harg, hof⟩) rfl⟩
  · rintro ⟨m, hm⟩
    obtain ⟨hmem, hpart⟩ := Classical.not_imp.mp hm
    obtain ⟨arg, harg, rfl⟩ := List.mem_map.mp hmem
    refine ⟨arg, harg, (Argument.namesOutput_iff (hplain arg harg)).mpr ?_⟩
    cases hof : Argument.of arg.toList with
    | output path => exact ⟨path, rfl⟩
    | _ => exact absurd (hof ▸ hpart) (by simp [partOf])

/-- **What arguments ask for.** Arguments none of which starts with `@` each mean one thing. They
are refused for want of an output exactly if none of them names one, and otherwise read as what
they ask for. A blank argument could as well be missing, and every other one has a say in one part
only: without it, all others are read alike. -/
theorem parse_meets (fs : Files) (workDir : Path) (args : List String)
    (hplain : ∀ arg ∈ args, Argument.Plain arg) :
    (∃ meanings, (∀ others, List.Forall₂ Argument.Means args others ↔ others = meanings) ∧
      ((∃ arg ∈ args, Argument.NamesOutput arg) →
        ∃ a, parse fs workDir args = .ok a ∧ Asks meanings a)) ∧
    (parse fs workDir args = .error .noOutput ↔ ¬ ∃ arg ∈ args, Argument.NamesOutput arg) ∧
    ∀ pre arg post m, args = pre ++ arg :: post → Argument.Means arg m →
      (m = .blank → parse fs workDir args = parse fs workDir (pre ++ post)) ∧
      ∀ part a b, partOf m ≠ some part → parse fs workDir args = .ok a →
        parse fs workDir (pre ++ post) = .ok b → part.Agrees a b := by
  refine ⟨⟨readings args, fun others => means_readings hplain, fun hnames => ?_⟩, ?_, ?_⟩
  · rw [parse_plain hplain]
    have hok := finish_eq_ok.mpr ⟨(exists_namesOutput_iff hplain).mp hnames, rfl⟩
    exact ⟨_, hok, asks_of_finish hok⟩
  · rw [parse_plain hplain, exists_namesOutput_iff hplain, not_not]
    cases houtput : ((readings args).foldl add {}).output <;> simp [finish, houtput]
  · rintro pre arg post m rfl hm
    have hless : ∀ arg ∈ pre ++ post, Argument.Plain arg := by
      intro other hother
      rcases List.mem_append.mp hother with h | h <;> exact hplain other (by simp [h])
    have hwith : (readings (pre ++ arg :: post)).foldl add {} =
        (readings post).foldl add (((readings pre).foldl add {}).add m) := by
      rw [readings, List.map_append, List.map_cons, hm.of_eq, List.foldl_append, List.foldl_cons]
      rfl
    have hwithout : (readings (pre ++ post)).foldl add {} =
        (readings post).foldl add ((readings pre).foldl add {}) := by
      rw [readings, List.map_append, List.foldl_append]
      rfl
    rw [parse_plain hplain, parse_plain hless, hwith, hwithout]
    refine ⟨?_, fun part a b hpart ha hb => ?_⟩
    · rintro rfl
      rfl
    · exact agrees_finish (agrees_foldl_foldl (agrees_add hpart) _) ha hb

/-! ### One request of each kind -/

namespace Mixed

/-- Arguments of every kind, with quotes, blanks, empty items, repetitions and names in several
mixes of cases. -/
def request : List String :=
  [" -OUT:\"Old.dll\" ", "a.cs", "-Define:A;;\"B\",A", " ", "-unsafe", "-r:x.dll;\" \",y:z.dll",
    "\"a.cs\"", "-Reference: y:z.dll ,x.dll", "-nowarn", "-UNSAFE-", "-Out:Lib/G.dll", "-lang:9 "]

/-- What they ask for. -/
def asked : Arguments :=
  { output := some "Lib/G.dll", assemblyName := "G", defines := ["A", "B", "A"],
    references := ["x.dll", " ", "y:z.dll"], files := ["a.cs"], extraFlags := ["-lang:9"] }

/-- They ask for it by what each of them means, and for an output as well. -/
theorem mixed_asked :
    (∀ arg ∈ request, Argument.Plain arg) ∧
      (∃ arg ∈ request, Argument.NamesOutput arg) ∧
      ∃ meanings, List.Forall₂ Argument.Means request meanings ∧ Asks meanings asked := by
  have hplain : ∀ arg ∈ request, Argument.Plain arg := by
    rintro arg harg ⟨file, hstrips⟩
    have hall : ∀ arg ∈ request, (Blank.trim arg.toList).head? ≠ some '@' := by decide +kernel
    exact hall arg harg (by rw [Blank.trim, hstrips.eq, List.head?_cons])
  have hread : parse {} ⟨"/"⟩ request = .ok asked := by decide +kernel
  obtain ⟨⟨meanings, hmeans, hasked⟩, hrefused, -⟩ := parse_meets {} ⟨"/"⟩ request hplain
  have hnames : ∃ arg ∈ request, Argument.NamesOutput arg := by
    by_contra hnone
    exact absurd (hread.symm.trans (hrefused.mpr hnone)) (by simp)
  obtain ⟨a, ha, hasks⟩ := hasked hnames
  obtain rfl := Except.ok.inj (hread.symm.trans ha)
  exact ⟨hplain, hnames, meanings, (hmeans meanings).mpr rfl, hasks⟩

end Mixed
end Arguments
end IncrementalBuild
