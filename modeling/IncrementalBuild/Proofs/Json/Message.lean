import IncrementalBuild.Json.Message
import IncrementalBuild.Proofs.Json.Record
/-!
# Messages are read as they were written

Build options, calls, results and answers come back from their JSON texts as they were, with every
field. A text in them may hold any characters, and a list may have any length. They come back from
every other way to write them, too: what a peer sends need not be what this encoder writes.

## Main definitions

* `Json.Spelling.options`, `Json.Spelling.request`, `Json.Spelling.result`,
  `Json.Spelling.response` — the ways to write a message.
* `Json.RoundTrips` — an encoder and a decoder that agree on all the ways to write a value.

## Main results

* `Json.decode_ofRequest`, `Json.decode_ofResponse` — calls and answers.
* `Json.round_trip` — all four kinds of messages, in each of the ways to write them.
-/

namespace IncrementalBuild.Json

/-! ### The ways to write a message -/

namespace Spelling

/-- The parts of build options. Those that have their default value may be left out. -/
def optionParts (o : BuildOptions) : List Part := [
  ⟨"work_directory", text o.workDirectory, o.workDirectory = ""⟩,
  ⟨"assembly_name", text o.assemblyName, o.assemblyName = ""⟩,
  ⟨"output", text o.output, o.output = ""⟩,
  ⟨"defines", texts o.defines, o.defines = []⟩,
  ⟨"references", texts o.references, o.references = []⟩,
  ⟨"files", texts o.files, o.files = []⟩,
  ⟨"debug_symbols", choice o.debugSymbols.name, o.debugSymbols = .none⟩,
  ⟨"output_reuse", choice o.outputReuse.name, o.outputReuse = .none⟩,
  ⟨"allow_unsafe", bool o.allowUnsafe, o.allowUnsafe = false⟩,
  ⟨"extra_flags", texts o.extraFlags, o.extraFlags = []⟩,
  ⟨"suppressed", texts o.suppressed, o.suppressed = []⟩]

/-- The ways to write build options. -/
def options (o : BuildOptions) : Language Char := record (optionParts o)

/-- The ways to write a call. -/
def request (r : BuildCall) : Language Char :=
  record [⟨"project", text r.project, False⟩, ⟨"options", options r.options, False⟩]

/-- The ways to write a build result. -/
def result (r : BuildResult) : Language Char :=
  record [⟨"succeeded", bool r.succeeded, False⟩, ⟨"warnings", texts r.warnings, False⟩,
    ⟨"errors", texts r.errors, False⟩]

/-- The ways to write the message of a failure. -/
def failure (message : String) : Language Char := record [⟨"message", text message, False⟩]

/-- The ways to write an answer. -/
def response : Reply → Language Char
  | .built r => object [member "Built" (result r)]
  | .failed message => object [member "Failed" (failure message)]

end Spelling

/-! ### What the encoder writes -/

section Encoder

open Spelling

theorem text_mem (s : String) : (Value.text s).chars ∈ Spelling.text s := by
  rw [Value.chars]
  exact quote_mem s

theorem name_mem (s : String) : (Value.text s).chars ∈ Spelling.choice s := Or.inl (text_mem s)

theorem bool_mem (v : Bool) : (Value.bool v).chars ∈ Spelling.bool v := by
  cases v <;> exact Set.mem_singleton _

/-- Build options are written in one of their ways. -/
theorem ofOptions_mem (o : BuildOptions) : (ofOptions o).chars ∈ Spelling.options o :=
  record_mem (.cons ⟨rfl, text_mem _⟩ (.cons ⟨rfl, text_mem _⟩ (.cons ⟨rfl, text_mem _⟩
    (.cons ⟨rfl, texts_mem _⟩ (.cons ⟨rfl, texts_mem _⟩ (.cons ⟨rfl, texts_mem _⟩
    (.cons ⟨rfl, name_mem _⟩ (.cons ⟨rfl, name_mem _⟩ (.cons ⟨rfl, bool_mem _⟩
    (.cons ⟨rfl, texts_mem _⟩ (.cons ⟨rfl, texts_mem _⟩ .nil)))))))))))

/-- A call is written in one of its ways. -/
theorem ofRequest_mem (r : BuildCall) : (ofRequest r).chars ∈ Spelling.request r :=
  record_mem (.cons ⟨rfl, text_mem _⟩ (.cons ⟨rfl, ofOptions_mem _⟩ .nil))

/-- A build result is written in one of its ways. -/
theorem ofResult_mem (r : BuildResult) : (ofResult r).chars ∈ Spelling.result r :=
  record_mem (.cons ⟨rfl, bool_mem _⟩ (.cons ⟨rfl, texts_mem _⟩ (.cons ⟨rfl, texts_mem _⟩ .nil)))

/-- An answer is written in one of its ways. -/
theorem ofResponse_mem (r : Reply) : (ofResponse r).chars ∈ Spelling.response r := by
  cases r with
  | built r =>
    have hpart : List.Forall₂ (fun m p => m.1 = p.name ∧ m.2.chars ∈ p.value)
        [("Built", ofResult r)] [Spelling.Part.mk "Built" (Spelling.result r) False] :=
      .cons ⟨rfl, ofResult_mem r⟩ .nil
    exact object_mem hpart
  | failed message =>
    have hmessage : (Value.object [("message", .text message)]).chars ∈ Spelling.failure message :=
      record_mem (.cons ⟨rfl, text_mem message⟩ .nil)
    have hpart : List.Forall₂ (fun m p => m.1 = p.name ∧ m.2.chars ∈ p.value)
        [("Failed", Value.object [("message", .text message)])]
        [Spelling.Part.mk "Failed" (Spelling.failure message) False] :=
      .cons ⟨rfl, hmessage⟩ .nil
    exact object_mem hpart

end Encoder

/-! ### Calls -/

/-- A mode of symbols is read. -/
theorem accepts_symbolMode (m : SymbolMode) : Accepts symbolMode (Spelling.choice m.name) m := by
  cases m <;> exact accepts_choice rfl

/-- A policy is read. -/
theorem accepts_reusePolicy (p : ReusePolicy) : Accepts reusePolicy (Spelling.choice p.name) p := by
  cases p <;> exact accepts_choice rfl

/-- Build options with the values of their fields. -/
def writtenOptions (o : BuildOptions) : List (Written BuildOptions) := [
  .of "work_directory" (accepts_text o.workDirectory) "" fun v o => { o with workDirectory := v },
  .of "assembly_name" (accepts_text o.assemblyName) "" fun v o => { o with assemblyName := v },
  .of "output" (accepts_text o.output) "" fun v o => { o with output := v },
  .of "defines" (accepts_texts o.defines) [] fun v o => { o with defines := v },
  .of "references" (accepts_texts o.references) [] fun v o => { o with references := v },
  .of "files" (accepts_texts o.files) [] fun v o => { o with files := v },
  .of "debug_symbols" (accepts_symbolMode o.debugSymbols) .none
    fun v o => { o with debugSymbols := v },
  .of "output_reuse" (accepts_reusePolicy o.outputReuse) .none
    fun v o => { o with outputReuse := v },
  .of "allow_unsafe" (accepts_bool o.allowUnsafe) false fun v o => { o with allowUnsafe := v },
  .of "extra_flags" (accepts_texts o.extraFlags) [] fun v o => { o with extraFlags := v },
  .of "suppressed" (accepts_texts o.suppressed) [] fun v o => { o with suppressed := v }]

/-- No field of build options undoes another one. -/
theorem independent_writtenOptions (o : BuildOptions) : Independent (writtenOptions o) := by
  intro v hv w hw r
  simp only [writtenOptions, List.mem_cons, List.not_mem_nil, or_false] at hv hw
  rcases hv with rfl | rfl | rfl | rfl | rfl | rfl | rfl | rfl | rfl | rfl | rfl <;>
    rcases hw with rfl | rfl | rfl | rfl | rfl | rfl | rfl | rfl | rfl | rfl | rfl <;> rfl

/-- Build options are read from each of the ways to write them. -/
theorem accepts_options (o : BuildOptions) : Accepts options (Spelling.options o) o := by
  have hnames : ((writtenOptions o).map Written.name).Nodup :=
    (by decide : (optionFields.map Field.name).Nodup)
  have hblank : ∀ w ∈ writtenOptions o, w.optional → w.set {} = {} := by
    simp only [writtenOptions, List.forall_mem_cons]
    exact ⟨Written.set_blank rfl, Written.set_blank rfl, Written.set_blank rfl,
      Written.set_blank rfl, Written.set_blank rfl, Written.set_blank rfl, Written.set_blank rfl,
      Written.set_blank rfl, Written.set_blank rfl, Written.set_blank rfl, Written.set_blank rfl,
      fun w hw => absurd hw List.not_mem_nil⟩
  have hfields : (writtenOptions o).map Written.field = optionFields := rfl
  have hparts : (writtenOptions o).map Written.part = Spelling.optionParts o := rfl
  have hset : Written.setAll (writtenOptions o) {} = o := by
    simp only [Written.setAll, writtenOptions, List.foldl_cons, List.foldl_nil, Written.of]
  have haccepts := accepts_record (writtenOptions o) hnames (independent_writtenOptions o) hblank
  rwa [hfields, hparts, hset] at haccepts

/-- A call with the values of its fields. -/
def writtenRequest (r : BuildCall) : List (Written BuildCall) := [
  .must "project" (accepts_text r.project) fun v r => { r with project := v },
  .must "options" (accepts_options r.options) fun v r => { r with options := v }]

/-- A call is read from each of the ways to write it. -/
theorem accepts_request (r : BuildCall) : Accepts request (Spelling.request r) r := by
  have hindep : Independent (writtenRequest r) := by
    intro v hv w hw s
    simp only [writtenRequest, List.mem_cons, List.not_mem_nil, or_false] at hv hw
    rcases hv with rfl | rfl <;> rcases hw with rfl | rfl <;> rfl
  have hblank : ∀ w ∈ writtenRequest r, w.optional → w.set {} = {} := by
    simp only [writtenRequest, List.forall_mem_cons]
    exact ⟨False.elim, False.elim, fun w hw => absurd hw List.not_mem_nil⟩
  exact accepts_record (writtenRequest r) (by decide : ["project", "options"].Nodup) hindep hblank

/-! ### Answers -/

/-- A build result with the values of its fields. -/
def writtenResult (r : BuildResult) : List (Written BuildResult) := [
  .must "succeeded" (accepts_bool r.succeeded) fun v r => { r with succeeded := v },
  .must "warnings" (accepts_texts r.warnings) fun v r => { r with warnings := v },
  .must "errors" (accepts_texts r.errors) fun v r => { r with errors := v }]

/-- A build result is read from each of the ways to write it. -/
theorem accepts_result (r : BuildResult) : Accepts result (Spelling.result r) r := by
  have hindep : Independent (writtenResult r) := by
    intro v hv w hw s
    simp only [writtenResult, List.mem_cons, List.not_mem_nil, or_false] at hv hw
    rcases hv with rfl | rfl | rfl <;> rcases hw with rfl | rfl | rfl <;> rfl
  have hblank : ∀ w ∈ writtenResult r, w.optional → w.set {} = {} := by
    simp only [writtenResult, List.forall_mem_cons]
    exact ⟨False.elim, False.elim, False.elim, fun w hw => absurd hw List.not_mem_nil⟩
  exact accepts_record (writtenResult r) (by decide : ["succeeded", "warnings", "errors"].Nodup)
    hindep hblank

/-- The message of a failure with its value. -/
def writtenFailure (message : String) : List (Written String) :=
  [.must "message" (accepts_text message) fun v _ => v]

/-- The message of a failure is read from each of the ways to write it. -/
theorem accepts_failure (message : String) :
    Accepts failure (Spelling.failure message) message := by
  have hindep : Independent (writtenFailure message) := by
    intro v hv w hw s
    rw [List.mem_singleton.mp hv, List.mem_singleton.mp hw]
  have hblank : ∀ w ∈ writtenFailure message, w.optional → w.set "" = "" := by
    simp only [writtenFailure, List.forall_mem_cons]
    exact ⟨False.elim, fun w hw => absurd hw List.not_mem_nil⟩
  exact accepts_record (writtenFailure message) (by decide : ["message"].Nodup) hindep hblank

/-- An object whose one member has the name of a kind of answer is read as the answer. -/
theorem accepts_response_of_part {name : String} {part : Decoder Reply} {l : Language Char}
    {r : Reply} (hname : responsePart name = some part) (h : Accepts part l r) :
    Accepts response (Spelling.object [Spelling.member name l]) r := by
  refine .of_reads ?_ ?_ ?_
  · intro cs
    simp only [response, skipSpace_skipSpace]
  · intro x hx
    obtain ⟨b, -, y, -, e, -, rfl⟩ := Spelling.mem_bracketed_singleton hx
    exact ⟨'\x7b', _, rfl, rfl, by decide⟩
  · intro x hx rest
    obtain ⟨b, hb, y, hy, e, he, rfl⟩ := Spelling.mem_bracketed_singleton hx
    obtain ⟨n, hn, b₁, hb₁, b₂, hb₂, v, hv, rfl⟩ := Spelling.mem_member.mp hy
    have htext := (accepts_text name).reads b hb n hn
      (b₁ ++ ':' :: (b₂ ++ (v ++ (e ++ '\x7d' :: rest))))
    have hpart := h.reads b₂ hb₂ v hv (e ++ '\x7d' :: rest)
    simp only [List.cons_append, List.nil_append, List.append_assoc] at htext hpart ⊢
    rw [response, skipSpace_cons (by decide)]
    simp only [htext, hname, skipSpace_append_cons hb₁ (by decide : isSpace ':' = false), hpart,
      skipSpace_append_cons he (by decide : isSpace '\x7d' = false)]

/-- An answer is read from each of the ways to write it. -/
theorem accepts_response (r : Reply) : Accepts response (Spelling.response r) r := by
  cases r with
  | built result => exact accepts_response_of_part rfl ((accepts_result result).map _)
  | failed message => exact accepts_response_of_part rfl ((accepts_failure message).map _)

/-! ### Round trips -/

/-- An encoder and a decoder that agree: what the encoder writes is among the ways to write a
value, it is read as that value, and so are all the other ways, with blanks around them. -/
structure RoundTrips {α : Type} (encode : α → Value) (d : Decoder α) (spelled : α → Language Char) :
    Prop where
  encoded (a : α) : (encode a).render.toList ∈ Spelling.whole (spelled a)
  decoded (a : α) : decode d (encode a).render.toList = .ok a
  tolerant (a : α) : ∀ x ∈ Spelling.whole (spelled a), decode d x = .ok a

/-- What is written in one of the ways that a decoder accepts comes back. -/
theorem RoundTrips.of_accepts {α : Type} {encode : α → Value} {d : Decoder α}
    {spelled : α → Language Char} (hmem : ∀ a, (encode a).chars ∈ spelled a)
    (haccepts : ∀ a, Accepts d (spelled a) a) : RoundTrips encode d spelled := by
  have hencoded (a : α) : (encode a).render.toList ∈ Spelling.whole (spelled a) := by
    rw [Value.render, String.toList_ofList]
    exact Spelling.mem_whole (hmem a)
  exact ⟨hencoded, fun a => (haccepts a).decode (hencoded a), fun a x hx => (haccepts a).decode hx⟩

/-- **Calls.** The text of a call is read as that call. -/
theorem decode_ofRequest (r : BuildCall) : decode request (ofRequest r).render.toList = .ok r :=
  (RoundTrips.of_accepts ofRequest_mem accepts_request).decoded r

/-- **Answers.** The text of an answer is read as that answer. -/
theorem decode_ofResponse (r : Reply) : decode response (ofResponse r).render.toList = .ok r :=
  (RoundTrips.of_accepts ofResponse_mem accepts_response).decoded r

/-- **Messages.** Build options, calls, results and answers come back from what is written, and from
every text that says the same: with blanks between the tokens, with other escapes in the strings,
with fields in another order or as a list, with foreign scalars, and without the options that have
their default value. -/
theorem round_trip :
    RoundTrips ofOptions options Spelling.options ∧ RoundTrips ofRequest request Spelling.request ∧
      RoundTrips ofResult result Spelling.result ∧
      RoundTrips ofResponse response Spelling.response :=
  ⟨.of_accepts ofOptions_mem accepts_options, .of_accepts ofRequest_mem accepts_request,
    .of_accepts ofResult_mem accepts_result, .of_accepts ofResponse_mem accepts_response⟩

example :
    decode response
      (word "\x7b\"Failed\": \x7b\"at\":-1e+3 ,\"m\\u0065ssage\": \"\\ud83d\\uDE00\\/\"\x7d\x7d") =
      .ok (.failed "😀/") := by
  cbv

end IncrementalBuild.Json
