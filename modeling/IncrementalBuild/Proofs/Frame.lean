import IncrementalBuild.Frame
import IncrementalBuild.Proofs.Archive
import Mathlib.Data.List.Forall2
/-!
# Frames on a stream

A reader takes the next message from a stream exactly when the stream starts with a frame: four
bytes that hold a length within the limit, and a body of that length that is decoded. How the
stream is cut into pieces does not matter, and what follows the frame is left alone.

The writer knows of another limit. It refuses a body whose length does not fit into four bytes,
and so it also writes frames that no reader takes.

## Main definitions

* `Frame.StartsWith` — a stream that starts with the frame of a message.
* `Frame.decoding` — a decoder of bodies.
* `Frame.readAll`, `Frame.ReadBack` — several messages, one after the other.

## Main results

* `Frame.requestOf_pack`, `Frame.replyOf_pack` — bodies within the limit are decoded.
* `Frame.read_eq_ok_iff`, `Frame.read_eq_error` — what is read, and what is refused.
* `Frame.readBack_of_forall₂` — frames back to back.
* `Frame.written_is_read` — what becomes of the frames that are written.
-/

namespace IncrementalBuild.Frame

open Archive

/-! ### Bodies -/

/-- A truth value is read back. -/
theorem reads_flag (b : Bool) : Reads (flag b) readBool b := by
  cases b <;> exact reads_byte rfl

/-- A mode of symbols is read back. -/
theorem reads_symbolMode (m : SymbolMode) :
    Reads (byte (indexIn SymbolMode.all m)) (readIndex SymbolMode.all) m := by
  cases m <;> exact reads_byte rfl

/-- A policy is read back. -/
theorem reads_reusePolicy (p : ReusePolicy) :
    Reads (byte (indexIn ReusePolicy.all p)) (readIndex ReusePolicy.all) p := by
  cases p <;> exact reads_byte rfl

/-- Build options are read back. -/
theorem reads_options (o : BuildOptions) : Reads (optionsLayout o) readOptions o :=
  (reads_text _).bind <| (reads_text _).bind <| (reads_text _).bind <|
  (reads_texts _).bind <| (reads_texts _).bind <| (reads_texts _).bind <|
  (reads_symbolMode _).bind <| (reads_reusePolicy _).bind <| (reads_flag _).bind <|
  (Reads.skip 1).bind <| (reads_texts _).bind <| (reads_texts _).bind <| Reads.pure _

/-- A call is read back. -/
theorem reads_request (r : BuildCall) : Reads (requestLayout r) readRequest r :=
  (reads_text _).bind <| (reads_options _).bind <| Reads.pure _

/-- A build result is read back. -/
theorem reads_result (r : BuildResult) : Reads (resultLayout r) readResult r :=
  (reads_flag _).bind <| (Reads.skip 3).bind <| (reads_texts _).bind <|
  (reads_texts _).bind <| Reads.pure _

/-- An answer is read back. -/
theorem reads_reply (r : Reply) : Reads (replyLayout r) readReply r := by
  cases r with
  | built result =>
    exact (reads_flag false).bind <| (Reads.skip 3).bind <| (reads_result result).bind <|
      Reads.pure _
  | failed message =>
    exact (reads_flag true).bind <| (Reads.skip 3).bind <| (reads_text message).bind <|
      (Reads.skip 12).bind <| Reads.pure _

/-- A body within the limit is decoded as the message that was written. -/
theorem decoded_unpack_pack {α : Type} {l : Layout} {reader : Reader α} {x : α}
    (h : Reads l reader x) (hlimit : l.wholeSize 0 ≤ maxLength) :
    decoded (unpack l.size reader (pack l)) = .ok x := by
  rw [unpack_pack h (Nat.le_trans hlimit (by decide)), decoded]

/-- The body of a call within the limit is decoded as the call. -/
theorem requestOf_pack {r : BuildCall} (h : (requestLayout r).wholeSize 0 ≤ maxLength) :
    requestOf (pack (requestLayout r)) = .ok r :=
  decoded_unpack_pack (reads_request r) h

/-- The body of an answer within the limit is decoded as the answer. -/
theorem replyOf_pack {r : Reply} (h : (replyLayout r).wholeSize 0 ≤ maxLength) :
    replyOf (pack (replyLayout r)) = .ok r := by
  have hsize : (replyLayout r).size = replySize := by cases r <;> rfl
  rw [replyOf, ← hsize]
  exact decoded_unpack_pack (reads_reply r) h

/-! ### Streams -/

section Streams

variable {α : Type} {decode : Bytes → Except CallError α} {pieces : List Bytes} {n : Nat}

/-- The next bytes of a stream that has so many, however it is cut. -/
theorem take?_eq_some (h : n ≤ pieces.flatten.length) :
    ∃ left, take? n pieces = some (pieces.flatten.take n, left) ∧
      left.flatten = pieces.flatten.drop n := by
  induction pieces generalizing n with
  | nil =>
    obtain rfl : n = 0 := Nat.le_zero.mp h
    exact ⟨[], rfl, rfl⟩
  | cons piece rest ih =>
    rw [List.flatten_cons, List.length_append] at h
    rw [take?, List.flatten_cons]
    split
    case isTrue hle =>
      refine ⟨piece.drop n :: rest, ?_, ?_⟩
      · rw [List.take_append_of_le_length hle]
      · rw [List.flatten_cons, List.drop_append_of_le_length hle]
    case isFalse hlt =>
      obtain ⟨left, htake, hleft⟩ := ih (n := n - piece.length) (by omega)
      have hpiece : piece.take n = piece := List.take_of_length_le (by omega)
      have hnone : piece.drop n = [] := List.drop_of_length_le (by omega)
      refine ⟨left, ?_, ?_⟩
      · rw [htake, List.take_append, hpiece]
        rfl
      · rw [hleft, List.drop_append, hnone, List.nil_append]

/-- The bytes that a stream begins with are the next ones. -/
theorem take?_of_flatten_eq {front rest : Bytes} (h : pieces.flatten = front ++ rest) :
    ∃ left, take? front.length pieces = some (front, left) ∧ left.flatten = rest := by
  have hlength : front.length ≤ pieces.flatten.length := by
    rw [h, List.length_append]
    exact Nat.le_add_right _ _
  obtain ⟨left, htake, hleft⟩ := take?_eq_some hlength
  rw [h, List.take_left] at htake
  rw [h, List.drop_left] at hleft
  exact ⟨left, htake, hleft⟩

/-- A stream that is too short does not have the next bytes. -/
theorem take?_eq_none (h : pieces.flatten.length < n) : take? n pieces = none := by
  induction pieces generalizing n with
  | nil => exact if_neg (Nat.ne_of_gt h)
  | cons piece rest ih =>
    rw [List.flatten_cons, List.length_append] at h
    rw [take?, if_neg (by omega), ih (by omega)]
    rfl

/-- The stream starts with the frame of a message: four bytes hold the length of a body within the
limit, and the body that follows is decoded as the message. -/
def StartsWith (decode : Bytes → Except CallError α) (stream : Bytes) (x : α) (rest : Bytes) :
    Prop :=
  ∃ size body, stream = size ++ (body ++ rest) ∧ size.length = 4 ∧ ofLe32 size = body.length ∧
    body.length ≤ maxLength ∧ decode body = .ok x

/-- More bytes behind a frame are left. -/
theorem StartsWith.append {stream rest : Bytes} {x : α} (h : StartsWith decode stream x rest)
    (more : Bytes) : StartsWith decode (stream ++ more) x (rest ++ more) := by
  obtain ⟨size, body, rfl, h⟩ := h
  exact ⟨size, body, by simp only [List.append_assoc], h⟩

/-- What a stream starts with is read, and what follows is left. -/
theorem read_of_startsWith {x : α} {rest : Bytes} (h : StartsWith decode pieces.flatten x rest) :
    ∃ left, read decode pieces = .ok (x, left) ∧ left.flatten = rest := by
  obtain ⟨size, body, hstream, hsize, hlength, hlimit, hdecode⟩ := h
  obtain ⟨middle, htake, hmiddle⟩ := take?_of_flatten_eq hstream
  obtain ⟨left, hbody, hleft⟩ := take?_of_flatten_eq hmiddle
  refine ⟨left, ?_, hleft⟩
  rw [read, ← hsize, htake]
  simp only [hlength, if_neg (Nat.not_lt.mpr hlimit), hbody, hdecode, Except.map]

/-- A frame whose length is beyond the limit is refused, whatever follows. -/
theorem read_of_too_long {size rest : Bytes} (hstream : pieces.flatten = size ++ rest)
    (hsize : size.length = 4) (hlong : maxLength < ofLe32 size) :
    read decode pieces = .error (.protocol s!"Message too large: {ofLe32 size} bytes") := by
  obtain ⟨middle, htake, -⟩ := take?_of_flatten_eq hstream
  rw [read, ← hsize, htake]
  exact if_pos hlong

/-- A reader either takes the message that the stream starts with, or fails for a fault of the
stream or a body that is not decoded. -/
theorem read_cases (decode : Bytes → Except CallError α) (pieces : List Bytes) :
    (∃ x left, read decode pieces = .ok (x, left) ∧
      StartsWith decode pieces.flatten x left.flatten) ∨
    ∃ cause, read decode pieces = .error cause ∧
      ((∃ reason, cause = .protocol reason) ∨ ∃ body, decode body = .error cause) := by
  by_cases hshort : pieces.flatten.length < 4
  · exact .inr ⟨_, by rw [read, take?_eq_none hshort], .inl ⟨_, rfl⟩⟩
  obtain ⟨middle, htake, hmiddle⟩ := take?_eq_some (Nat.not_lt.mp hshort)
  rw [read, htake]
  generalize hsize : pieces.flatten.take 4 = size
  by_cases hlong : maxLength < ofLe32 size
  · exact .inr ⟨_, if_pos hlong, .inl ⟨_, rfl⟩⟩
  by_cases hend : middle.flatten.length < ofLe32 size
  · have hnone : take? (ofLe32 size) middle = none := take?_eq_none hend
    refine .inr ⟨.protocol "Failed to read message body: early eof", ?_, .inl ⟨_, rfl⟩⟩
    simp only [if_neg hlong, hnone]
  obtain ⟨left, hbody, hleft⟩ := take?_eq_some (Nat.not_lt.mp hend)
  simp only [if_neg hlong, hbody]
  generalize hof : middle.flatten.take (ofLe32 size) = body
  have hlength : body.length = ofLe32 size := by
    rw [← hof, List.length_take]
    omega
  cases hdecode : decode body with
  | error cause => exact .inr ⟨cause, rfl, .inr ⟨body, hdecode⟩⟩
  | ok x =>
    refine .inl ⟨x, left, rfl, size, body, ?_, ?_, hlength.symm, by omega, hdecode⟩
    · rw [← hsize, ← hof, hleft, List.take_append_drop, hmiddle, List.take_append_drop]
    · rw [← hsize, List.length_take]
      omega

/-- **Acceptance.** A message is read from a stream exactly if the stream starts with its frame, and
what follows the frame is left. -/
theorem read_eq_ok_iff {x : α} {rest : Bytes} :
    (∃ left, read decode pieces = .ok (x, left) ∧ left.flatten = rest) ↔
      StartsWith decode pieces.flatten x rest := by
  constructor
  · rintro ⟨left, hread, rfl⟩
    obtain ⟨x', left', hok, hstarts⟩ | ⟨cause, herror, -⟩ := read_cases decode pieces
    · obtain ⟨rfl, rfl⟩ := Prod.mk.inj (Except.ok.inj (hread.symm.trans hok))
      exact hstarts
    · rw [hread] at herror
      cases herror
  · exact read_of_startsWith

/-- A decoder of bodies, from the messages that they hold. -/
abbrev decoding (message : Bytes → Option α) (body : Bytes) : Except CallError α :=
  decoded (message body)

/-- A reader fails for a fault of the protocol only. -/
theorem protocol_of_read {message : Bytes → Option α} {cause : CallError}
    (h : read (decoding message) pieces = .error cause) :
    ∃ reason, cause = .protocol reason := by
  obtain ⟨x, left, hok, -⟩ | ⟨cause', herror, hcause⟩ := read_cases _ pieces
  · cases hok.symm.trans h
  obtain rfl : cause' = cause := Except.error.inj (herror.symm.trans h)
  obtain hprotocol | ⟨body, hdecode⟩ := hcause
  · exact hprotocol
  · rw [decoding] at hdecode
    cases hmessage : message body with
    | some x =>
      rw [hmessage] at hdecode
      cases hdecode
    | none =>
      rw [hmessage] at hdecode
      exact ⟨_, (Except.error.inj hdecode).symm⟩

/-- **Refusal.** A stream that starts with no frame is refused for a fault of the protocol. -/
theorem read_eq_error {message : Bytes → Option α}
    (h : ∀ x rest, ¬ StartsWith (decoding message) pieces.flatten x rest) :
    ∃ reason, read (decoding message) pieces = .error (.protocol reason) := by
  obtain ⟨x, left, -, hstarts⟩ | ⟨cause, herror, -⟩ :=
    read_cases (decoding message) pieces
  · exact absurd hstarts (h x _)
  · obtain ⟨reason, rfl⟩ := protocol_of_read herror
    exact ⟨reason, herror⟩

/-! ### Several messages -/

/-- Reads so many messages, one after the other. -/
def readAll (decode : Bytes → Except CallError α) :
    Nat → List Bytes → Except CallError (List α × List Bytes)
  | 0, pieces => .ok ([], pieces)
  | count + 1, pieces => do
    let (x, pieces) ← read decode pieces
    let (xs, pieces) ← readAll decode count pieces
    return (x :: xs, pieces)

/-- The frames are read back as the messages, however a stream that begins with them is cut, and
what follows them is left. -/
def ReadBack (decode : Bytes → Except CallError α) (frames : List Bytes) (xs : List α) : Prop :=
  ∀ (pieces : List Bytes) (tail : Bytes), pieces.flatten = frames.flatten ++ tail →
    ∃ left, readAll decode xs.length pieces = .ok (xs, left) ∧ left.flatten = tail

/-- **Back to back.** Frames that follow each other are read as their messages. -/
theorem readBack_of_forall₂ {frames : List Bytes} {xs : List α}
    (h : List.Forall₂ (fun frame x => StartsWith decode frame x []) frames xs) :
    ReadBack decode frames xs := by
  induction h with
  | nil => exact fun pieces tail hstream => ⟨pieces, rfl, hstream⟩
  | @cons frame x frames xs hframe _ ih =>
    intro pieces tail hstream
    have hstarts : StartsWith decode pieces.flatten x (frames.flatten ++ tail) := by
      rw [hstream, List.flatten_cons, List.append_assoc]
      exact hframe.append _
    obtain ⟨middle, hread, hmiddle⟩ := read_of_startsWith hstarts
    obtain ⟨left, hrest, hleft⟩ := ih middle tail hmiddle
    refine ⟨left, ?_, hleft⟩
    rw [List.length_cons, readAll, hread]
    simp only [bind, Except.bind, hrest, pure, Except.pure]

end Streams

/-! ### Written frames -/

section Written

variable {α : Type} {decode : Bytes → Except CallError α} {pieces : List Bytes} {l : Layout}
  {frame tail : Bytes} {x : α} {n : Nat}

/-- A body within the limit is written. -/
theorem lengthOf_of_le (h : l.wholeSize 0 ≤ maxLength) : lengthOf l = .ok (l.wholeSize 0) := by
  have hlongest : l.longest ≤ longestText := by
    have hextent : l.extent 0 ≤ l.wholeSize 0 := Nat.le_add_right _ _
    calc l.longest
      _ ≤ l.extent 0 + inlineSize := l.longest_le 0
      _ ≤ maxLength + inlineSize := by omega
      _ ≤ longestText := by decide
  have hfits : l.wholeSize 0 < 4294967296 := Nat.lt_of_le_of_lt h (by decide)
  rw [lengthOf, if_neg (Nat.not_lt.mpr hlongest), if_neg (Nat.not_le.mpr hfits)]

/-- A length that is written is that of the body, and fits into four bytes. -/
theorem eq_of_lengthOf (h : lengthOf l = .ok n) : l.wholeSize 0 = n ∧ ofLe32 (le32 n) = n := by
  rw [lengthOf] at h
  split at h
  · cases h
  split at h
  · cases h
  · obtain rfl := Except.ok.inj h
    refine ⟨rfl, ?_⟩
    rw [ofLe32_le32]
    omega

/-- A message that is not written is refused for a fault of the protocol. -/
theorem protocol_of_ofLayout {cause : CallError} (h : ofLayout l = .error cause) :
    ∃ reason, cause = .protocol reason := by
  rw [ofLayout, lengthOf] at h
  split at h
  · exact ⟨_, (Except.error.inj h).symm⟩
  split at h
  · exact ⟨_, (Except.error.inj h).symm⟩
  · cases h

/-- A frame is written if its length is. -/
theorem ofLayout_of_lengthOf (h : lengthOf l = .ok n) : ofLayout l = .ok (le32 n ++ pack l) := by
  rw [ofLayout, h, Except.map]

/-- What is written, if anything is: four bytes with the length of the body, and the body. -/
theorem eq_of_ofLayout (h : ofLayout l = .ok frame) :
    frame = le32 (l.wholeSize 0) ++ pack l ∧ ofLe32 (le32 (l.wholeSize 0)) = l.wholeSize 0 := by
  cases hlength : lengthOf l with
  | error cause =>
    rw [ofLayout, hlength] at h
    cases h
  | ok n =>
    obtain ⟨rfl, hn⟩ := eq_of_lengthOf hlength
    rw [ofLayout_of_lengthOf hlength] at h
    exact ⟨(Except.ok.inj h).symm, hn⟩

/-- The frame of a body within the limit. -/
theorem ofLayout_of_le (h : l.wholeSize 0 ≤ maxLength) :
    ofLayout l = .ok (le32 (l.wholeSize 0) ++ pack l) :=
  ofLayout_of_lengthOf (lengthOf_of_le h)

/-- The length of a frame. -/
theorem length_of_ofLayout (h : ofLayout l = .ok frame) : frame.length = 4 + l.wholeSize 0 := by
  obtain ⟨rfl, -⟩ := eq_of_ofLayout h
  rw [List.length_append, pack, Layout.length_whole]
  rfl

/-- A frame is within the limit if its body is. -/
theorem length_le_iff (h : ofLayout l = .ok frame) :
    frame.length ≤ 4 + maxLength ↔ l.wholeSize 0 ≤ maxLength := by
  rw [length_of_ofLayout h]
  exact Nat.add_le_add_iff_left

/-- A stream that begins with a written frame starts with its message, if the frame is within the
limit and its body is then decoded. -/
theorem startsWith_of_ofLayout (h : ofLayout l = .ok frame)
    (hdecode : l.wholeSize 0 ≤ maxLength → decode (pack l) = .ok x)
    (hshort : frame.length ≤ 4 + maxLength) (tail : Bytes) :
    StartsWith decode (frame ++ tail) x tail := by
  have hlimit := (length_le_iff h).mp hshort
  have hbody : (pack l).length = l.wholeSize 0 := l.length_whole 0
  obtain ⟨rfl, hsize⟩ := eq_of_ofLayout h
  exact ⟨le32 (l.wholeSize 0), pack l, List.append_assoc _ _ _, rfl, hsize.trans hbody.symm,
    hbody ▸ hlimit, hdecode hlimit⟩

/-- **Round trip.** What becomes of a written frame whose body is decoded if it is within the
limit. -/
theorem read_of_ofLayout (h : ofLayout l = .ok frame)
    (hdecode : l.wholeSize 0 ≤ maxLength → decode (pack l) = .ok x)
    (hstream : pieces.flatten = frame ++ tail) :
    (frame.length ≤ 4 + maxLength →
      ∃ left, read decode pieces = .ok (x, left) ∧ left.flatten = tail) ∧
    (4 + maxLength < frame.length →
      read decode pieces = .error (.protocol s!"Message too large: {frame.length - 4} bytes")) := by
  constructor
  · intro hshort
    refine read_of_startsWith ?_
    rw [hstream]
    exact startsWith_of_ofLayout h hdecode hshort tail
  · intro hlong
    have hlength := length_of_ofLayout h
    obtain ⟨rfl, hsize⟩ := eq_of_ofLayout h
    rw [hlength, Nat.add_sub_cancel_left, ← hsize]
    exact read_of_too_long (hstream.trans (List.append_assoc _ _ _)) rfl (by omega)

/-- Messages that are written one after the other are read back, if every frame is within the
limit. -/
theorem readBack_of_ofLayout {layoutOf : α → Layout} {frames : List Bytes} {xs : List α}
    (hdecode : ∀ x, (layoutOf x).wholeSize 0 ≤ maxLength → decode (pack (layoutOf x)) = .ok x)
    (h : List.Forall₂ (fun frame x => ofLayout (layoutOf x) = .ok frame ∧
      frame.length ≤ 4 + maxLength) frames xs) : ReadBack decode frames xs := by
  refine readBack_of_forall₂ (h.imp fun frame x hframe => ?_)
  have hstarts := startsWith_of_ofLayout hframe.1 (hdecode x) hframe.2 []
  rwa [List.append_nil] at hstarts

end Written

/-- **What is written is read, up to the limit.** The frame of a call or an answer is read as that
message, however the stream is cut, and what follows is left. The writer also writes frames beyond
the reader's limit; those are refused with the length of their bodies. -/
theorem written_is_read (call : BuildCall) (reply : Reply) {pieces : List Bytes}
    {frame tail : Bytes} (hstream : pieces.flatten = frame ++ tail) :
    (ofRequest call = .ok frame →
      (frame.length ≤ 4 + maxLength →
        ∃ left, read requestOf pieces = .ok (call, left) ∧ left.flatten = tail) ∧
      (4 + maxLength < frame.length → read requestOf pieces =
        .error (.protocol s!"Message too large: {frame.length - 4} bytes"))) ∧
    (ofReply reply = .ok frame →
      (frame.length ≤ 4 + maxLength →
        ∃ left, read replyOf pieces = .ok (reply, left) ∧ left.flatten = tail) ∧
      (4 + maxLength < frame.length → read replyOf pieces =
        .error (.protocol s!"Message too large: {frame.length - 4} bytes"))) :=
  ⟨fun hframe => read_of_ofLayout hframe requestOf_pack hstream,
    fun hframe => read_of_ofLayout hframe replyOf_pack hstream⟩

end IncrementalBuild.Frame

/-! ### Within and beyond the limit -/

namespace IncrementalBuild.Oversized

open Archive IncrementalBuild.Frame

/-- A text that is as long as a body may be. -/
def longText : String := String.ofList (List.replicate maxLength 'a')

/-- A call that carries it. -/
def call : BuildCall := { project := longText }

/-- The size of the long text. -/
theorem utf8ByteSize_longText : longText.utf8ByteSize = maxLength := by
  rw [← Bytes.length_ofString, Bytes.ofString_eq_flatMap, longText, String.toList_ofList,
    List.length_flatMap, List.map_replicate, List.sum_replicate_nat]
  rfl

/-- The body of a call that carries nothing but such a text: the text and the head. -/
theorem lengthOf_project {s : String} (h : s.utf8ByteSize = maxLength) :
    lengthOf (requestLayout { project := s }) = .ok (maxLength + requestSize) := by
  rw [maxLength] at h
  simp [lengthOf, requestLayout, optionsLayout, Archive.sequence, items, texts, text, byte, gap,
    flag, Layout.pair, Layout.wholeSize, fillSize, headSize, inlineSize, longestText, requestSize,
    maxLength, h]

/-- The body of the call is beyond the limit. -/
theorem lengthOf_call : lengthOf (requestLayout call) = .ok (maxLength + requestSize) :=
  lengthOf_project utf8ByteSize_longText

/-- The call is written. -/
theorem ofRequest_call :
    ofRequest call = .ok (le32 (maxLength + requestSize) ++ pack (requestLayout call)) :=
  ofLayout_of_lengthOf lengthOf_call

/-- The reader refuses what was written. -/
theorem call_refused : ∃ frame, ofRequest call = .ok frame ∧
    read requestOf [frame] = .error (.protocol "Message too large: 104857676 bytes") := by
  refine ⟨_, ofRequest_call, ?_⟩
  have hlong : maxLength < ofLe32 (le32 (maxLength + requestSize)) := by decide
  exact read_of_too_long (List.append_nil _) rfl hlong

/-- A call that is read back. -/
def shortCall : BuildCall := { project := "/p", options := { output := "Game.dll" } }

/-- An answer that is read back. -/
def shortReply : Reply := .failed "no output"

/-- Short messages are read, in two pieces or in one, with a byte that follows; the long call is
not. -/
theorem short_is_read :
    (∃ frame, ofRequest shortCall = .ok frame ∧
      ∃ left, read requestOf [frame.take 3, frame.drop 3 ++ [7]] = .ok (shortCall, left) ∧
        left.flatten = [7]) ∧
    (∃ frame, ofReply shortReply = .ok frame ∧
      ∃ left, read replyOf [frame ++ [7]] = .ok (shortReply, left) ∧ left.flatten = [7]) ∧
    (∃ frame, ofRequest call = .ok frame ∧ read requestOf [frame] =
      .error (.protocol s!"Message too large: {frame.length - 4} bytes")) := by
  have hcall : ofRequest shortCall = .ok _ := ofLayout_of_le (by decide)
  have hreply : ofReply shortReply = .ok _ := ofLayout_of_le (by decide)
  refine ⟨⟨_, hcall, ?_⟩, ⟨_, hreply, ?_⟩, ⟨_, ofRequest_call, ?_⟩⟩
  · refine ((written_is_read shortCall shortReply ?_).1 hcall).1 ?_
    · simp only [List.flatten_cons, List.flatten_nil, List.append_nil, ← List.append_assoc,
        List.take_append_drop]
    · exact (length_le_iff hcall).mpr (by decide)
  · exact ((written_is_read shortCall shortReply (List.append_nil _)).2 hreply).1
      ((length_le_iff hreply).mpr (by decide))
  · refine ((written_is_read call shortReply rfl).1 ofRequest_call).2 ?_
    rw [length_of_ofLayout ofRequest_call, (eq_of_lengthOf lengthOf_call).1]
    decide

end IncrementalBuild.Oversized
