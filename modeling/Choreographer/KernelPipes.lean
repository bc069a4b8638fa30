import Choreographer.JsonFrames
import Choreographer.KernelPages
import Choreographer.Lib.Lines
import Choreographer.Lib.Runs

namespace Choreographer.KernelPipes

open Choreographer.Lib.SortedMaps Choreographer.Lib.Updates Choreographer.Lib.ByteStrings
open Choreographer.Lib.Lines
open Choreographer.Texts Choreographer.Values Choreographer.JsonTexts Choreographer.KernelPages
open Choreographer.EvidenceGates Choreographer.Fences Choreographer.JsonFrames
open Choreographer.Documents

section Messages

variable (floats : Floats) (serde : SerdeJson)

def protocolVersion : String := "2025-06-18"

def request (id : U64) (method : String) (params : Value) : Value :=
  json [("jsonrpc", .string "2.0"), ("id", .number (.posInt id)), ("method", .string method),
    ("params", params)]

def notification (method : String) : Value :=
  json [("jsonrpc", .string "2.0"), ("method", .string method)]

def idOf (message : Value) : Option U64 := (get message "id").bind Value.asU64

def textPart (part : Value) : Option String :=
  if getStr part "type" = some "text" then getStr part "text" else none

def readAnswer (response : Value) : Except KernelTransportError KernelAnswer :=
  match get response "error" with
  | some error => .error (.unreadable (String.ofList (write floats error)))
  | none => do
    let result ← okOr (get response "result") (.unreadable "a response with no result")
    let text := "\n".intercalate ((getItems result "content").filterMap textPart)
    if (get result "isError").bind Value.asBool = some true then .ok (.refused text)
    else
      match serde.fromStr text with
      | .ok document => .ok (.returned document)
      | .error error => .error (.unreadable ("tool content was not a document: " ++ error))

end Messages

section Reading

variable (serde : SerdeJson) (id : U64)

def newline : Byte := 10

/-- What one line means to whoever waits for the response bearing the id. -/
inductive Verdict
  | skip
  | answer (message : Value)
  | broken (error : KernelTransportError)

/-- A line that is no text at all ends the conversation. -/
def judge (line : List Byte) : Verdict :=
  match decode line with
  | none => .broken .gone
  | some text =>
    if trim text = "" then .skip
    else
      match serde.fromStr (trim text) with
      | .error error => .broken (.unreadable ("a line that was not JSON: " ++ error))
      | .ok message => if idOf message = some id then .answer message else .skip

/-- What happens to a read when nothing more arrives: the deadline passes, or the
kernel has closed its end. -/
inductive Ending
  | deadline
  | closed
deriving DecidableEq

variable (callTimeout : U64) (ending : Ending)

/-- Read until the response bearing the id arrives, with what is read of a line
already in hand, and what is left unread. The part of a line in hand when the deadline
passes is lost. -/
def readResponse : List Byte → List Byte → Except KernelTransportError Value × List Byte
  | line, [] =>
    match ending with
    | .deadline => (.error (.silent callTimeout), [])
    | .closed =>
      if line = [] then (.error .gone, [])
      else
        match judge serde id line with
        | .skip => (.error .gone, [])
        | .answer message => (.ok message, [])
        | .broken error => (.error error, [])
  | line, b :: bytes =>
    if b = newline then
      match judge serde id line with
      | .skip => readResponse [] bytes
      | .answer message => (.ok message, bytes)
      | .broken error => (.error error, bytes)
    else readResponse (line ++ [b]) bytes

end Reading

section Calls

/-- The two ends of a conversation with a kernel: the messages written to it, each on
a line of its own, what has arrived from it and is not read, and what is still on its
way. -/
structure Pipes where
  stdin : List Value
  stdout : List Byte
  wire : List Byte
  nextId : U64

/-- What the kernel does while one request is out: the lines it writes, how much of what
it wrote arrives in time, and whether it still takes anything. -/
structure Turn where
  takes : Bool
  speaks : List String
  arrives : Nat
  ending : Ending

def Turn.written (turn : Turn) : List Byte := lines newline (turn.speaks.map utf8)

/-- All that was written arrives before the end of it is seen. -/
def Turn.arriving (turn : Turn) (wire : List Byte) : Nat :=
  match turn.ending with
  | .deadline => turn.arrives
  | .closed => wire.length

variable (floats : Floats) (serde : SerdeJson) (callTimeout : U64)

def exchange (pipes : Pipes) (method : String) (params : Value) (turn : Turn) :
    Except KernelTransportError Value × Pipes :=
  let id := pipes.nextId + 1
  let wire := pipes.wire ++ turn.written
  if turn.takes then
    let arriving := turn.arriving wire
    let answered :=
      readResponse serde id callTimeout turn.ending [] (pipes.stdout ++ wire.take arriving)
    (answered.1, ⟨pipes.stdin ++ [request id method params], answered.2, wire.drop arriving, id⟩)
  else (.error .gone, { pipes with wire := wire, nextId := id })

def Pipes.fresh : Pipes := ⟨[], [], [], 0⟩

def clientInfo (version : String) : Value :=
  json [("name", .string "choreographer"), ("version", .string version)]

def handshakeParams (version : String) : Value :=
  json [("protocolVersion", .string protocolVersion), ("capabilities", .object []),
    ("clientInfo", clientInfo version)]

def handshake (version : String) (turn : Turn) (takesNote : Bool) :
    Except KernelTransportError Pipes :=
  match exchange serde callTimeout Pipes.fresh "initialize" (handshakeParams version) turn with
  | (.error error, _) => .error error
  | (.ok answer, pipes) =>
    match get answer "error" with
    | some error => .error (.unwelcoming (String.ofList (write floats error)))
    | none =>
      if takesNote then
        .ok { pipes with stdin := pipes.stdin ++ [notification "notifications/initialized"] }
      else .error .gone

/-- A tool called, and what the kernel does meanwhile. -/
structure Call where
  tool : String
  arguments : Value
  turn : Turn

def Call.params (call : Call) : Value :=
  json [("name", .string call.tool), ("arguments", call.arguments)]

def call (pipes : Pipes) (c : Call) : Except KernelTransportError KernelAnswer × Pipes :=
  let answered := exchange serde callTimeout pipes "tools/call" c.params c.turn
  (answered.1.bind (readAnswer floats serde), answered.2)

def after (pipes : Pipes) (calls : List Call) : Pipes :=
  calls.foldl (fun pipes c => (call floats serde callTimeout pipes c).2) pipes

end Calls

section Lines

variable {floats : Floats} {serde : SerdeJson} {id callTimeout : U64} {ending : Ending}
  {bound : Nat} {said : List String}

/-- What a kernel may write on a line: nothing, or one message, and no answer to a
request that was not made. -/
structure Spoken (serde : SerdeJson) (bound : Nat) (text : String) : Prop where
  oneLine : '\n' ∉ text.toList
  message : trim text = "" ∨ ∃ fields, serde.fromStr (trim text) = .ok (.object fields)
  issued : ∀ message id, serde.fromStr (trim text) = .ok message → idOf message = some id →
    id.val ≤ bound

theorem Spoken.mono {text : String} {bound' : Nat} (h : Spoken serde bound text)
    (hle : bound ≤ bound') : Spoken serde bound' text :=
  ⟨h.oneLine, h.message, fun message id hread hid => (h.issued message id hread hid).trans hle⟩

theorem object_of_idOf {message : Value} (h : idOf message = some id) :
    ∃ fields, message = .object fields := by
  cases message with
  | object fields => exact ⟨fields, rfl⟩
  | _ => simp [idOf, KernelPages.get, Value.asObject] at h

theorem trim_eq_empty {text : String} :
    trim text = "" ↔ ∀ c ∈ text.toList, isWhitespace c = true := by
  rw [← String.toList_inj, toList_trim]
  exact Lib.Padding.strip_eq_nil

theorem read_of_fromStr (hserde : ReadsJson floats serde) {text : String} {value : Value}
    (h : serde.fromStr text = .ok value) : read floats text = some value := by
  rw [← hserde, h]
  rfl

theorem judge_eq_answer {line : List Byte} {message : Value} :
    judge serde id line = .answer message ↔
      ∃ text, decode line = some text ∧ trim text ≠ "" ∧ serde.fromStr (trim text) = .ok message ∧
        idOf message = some id := by
  unfold judge
  cases decode line with
  | none => simp
  | some text =>
    by_cases hblank : trim text = ""
    · simp [hblank]
    · cases hread : serde.fromStr (trim text) with
      | error error => simp [hblank, hread]
      | ok value =>
        by_cases hid : idOf value = some id
        · simp only [hblank, if_false, hread, hid, if_true, Verdict.answer.injEq]
          constructor
          · rintro rfl
            exact ⟨text, rfl, hblank, hread, hid⟩
          · rintro ⟨text', htext', -, hread', -⟩
            obtain rfl := Option.some.inj htext'
            exact Except.ok.inj (hread.symm.trans hread')
        · simp only [hblank, if_false, hread, hid, reduceCtorEq, false_iff]
          rintro ⟨text', htext', -, hread', hid'⟩
          obtain rfl := Option.some.inj htext'
          obtain rfl := Except.ok.inj (hread.symm.trans hread')
          exact hid hid'

/-- What is left of a line that lost its front answers a request only if what it lost
was blank. -/
theorem judge_suffix (hserde : ReadsJson floats serde) {text : String} {line : List Byte}
    {message : Value} (hspoken : Spoken serde bound text) (hline : line <:+ utf8 text)
    (h : judge serde id line = .answer message) :
    serde.fromStr (trim text) = .ok message ∧ idOf message = some id := by
  obtain ⟨rest, hdecode, hblank, hread, hid⟩ := judge_eq_answer.mp h
  have hsuffix : rest.toList <:+ text.toList :=
    suffix_of_utf8 ((toByteArray_of_decode hdecode).symm ▸ hline)
  obtain hempty | ⟨fields, hfields⟩ := hspoken.message
  · exfalso
    apply hblank
    rw [trim_eq_empty] at hempty ⊢
    exact fun c hc => hempty c (hsuffix.subset hc)
  · obtain ⟨fields', rfl⟩ := object_of_idOf hid
    have hsame := trim_eq_of_cut (read_of_fromStr hserde hfields) (read_of_fromStr hserde hread)
      hsuffix
    exact ⟨hsame ▸ hread, hid⟩

theorem utf8_oneLine (hsaid : ∀ text ∈ said, Spoken serde bound text) :
    ∀ l ∈ said.map utf8, newline ∉ l := by
  intro l hl
  obtain ⟨text, htext, rfl⟩ := List.mem_map.mp hl
  exact newline_notMem_utf8 (hsaid text htext).oneLine

/-- Of what was said, all that is unread begins with a new line. -/
def Uncut (said : List String) (unread : List Byte) : Prop :=
  ∃ before rest, said = before ++ rest ∧ unread = lines newline (rest.map utf8)

theorem Uncut.suffix {unread : List Byte} (h : Uncut said unread) :
    unread <:+ lines newline (said.map utf8) := by
  obtain ⟨before, rest, rfl, rfl⟩ := h
  rw [List.map_append, lines_append]
  exact List.suffix_append _ _

theorem uncut_nil (said : List String) : Uncut said [] := ⟨said, [], by simp, rfl⟩

theorem first_line (hsaid : ∀ text ∈ said, Spoken serde bound text) {line rest : List Byte}
    (hline : newline ∉ line) (h : line ++ newline :: rest <:+ lines newline (said.map utf8)) :
    (∃ text ∈ said, line <:+ utf8 text) ∧ Uncut said rest := by
  obtain ⟨before, l, later, hsplit, hsuffix, hrest⟩ := line_of_suffix (utf8_oneLine hsaid) hline h
  obtain ⟨saidBefore, others, rfl, rfl, hothers⟩ := List.map_eq_append_iff.mp hsplit
  obtain ⟨text, saidLater, rfl, rfl, rfl⟩ := List.map_eq_cons_iff.mp hothers
  exact ⟨⟨text, by simp, hsuffix⟩, saidBefore ++ [text], saidLater, by simp, hrest⟩

theorem eq_nil_of_unended {line : List Byte} (hline : newline ∉ line)
    (h : line <:+ lines newline (said.map utf8)) : line = [] := by
  by_contra hne
  obtain ⟨cut, hcut⟩ := h
  induction said using List.reverseRecOn with
  | nil => simp at hcut; exact hne hcut.2
  | append_singleton said text _ =>
    rw [List.map_append, lines_append, List.map_singleton, lines_cons, lines_nil] at hcut
    have hlast := congrArg List.getLast? hcut
    obtain ⟨front, last, rfl⟩ := (List.eq_nil_or_concat' line).resolve_left hne
    simp at hlast
    exact hline (by simp [hlast])

/-- What comes of reading on: an answer is one of the messages said and bears the id,
and unless the deadline passes what is unread begins with a new line. -/
theorem readResponse_spec (id callTimeout : U64) (hserde : ReadsJson floats serde)
    (hsaid : ∀ text ∈ said, Spoken serde bound text) {line bytes beyond : List Byte}
    (hline : newline ∉ line)
    (hunread : line ++ (bytes ++ beyond) <:+ lines newline (said.map utf8))
    (hend : ending = .closed → beyond = []) :
    (∀ message, (readResponse serde id callTimeout ending line bytes).1 = .ok message →
      idOf message = some id ∧ ∃ text ∈ said, serde.fromStr (trim text) = .ok message) ∧
    (readResponse serde id callTimeout ending line bytes).2 ++ beyond <:+
      lines newline (said.map utf8) ∧
    (Uncut said ((readResponse serde id callTimeout ending line bytes).2 ++ beyond) ∨
      (readResponse serde id callTimeout ending line bytes).2 = [] ∧ ending = .deadline) := by
  induction bytes generalizing line with
  | nil =>
    have hbeyond : beyond <:+ lines newline (said.map utf8) :=
      (List.suffix_append line _).trans (by simpa using hunread)
    cases ending with
    | deadline => simp [readResponse, hbeyond]
    | closed =>
      obtain rfl := hend rfl
      have hempty : line = [] := eq_nil_of_unended hline (by simpa using hunread)
      simp [readResponse, hempty, uncut_nil]
  | cons b bytes ih =>
    by_cases hb : b = newline
    · subst hb
      obtain ⟨⟨text, htext, hsuffix⟩, huncut⟩ := first_line hsaid hline (by simpa using hunread)
      cases hjudge : judge serde id line with
      | skip =>
        simp only [readResponse, if_true, hjudge]
        exact ih (by simp) huncut.suffix
      | answer message =>
        simp only [readResponse, if_true, hjudge]
        refine ⟨?_, huncut.suffix, .inl huncut⟩
        intro message' hmessage
        obtain rfl := Except.ok.inj hmessage
        obtain ⟨hread, hid⟩ := judge_suffix hserde (hsaid text htext) hsuffix hjudge
        exact ⟨hid, text, htext, hread⟩
      | broken error =>
        simp only [readResponse, if_true, hjudge]
        exact ⟨fun _ h => by simp at h, huncut.suffix, .inl huncut⟩
    · simp only [readResponse, if_neg hb]
      apply ih
      · simp [hline, Ne.symm hb]
      · simpa using hunread

theorem readResponse_line (line : List Byte) {l : List Byte} (hl : newline ∉ l) (rest : List Byte) :
    readResponse serde id callTimeout ending line (l ++ newline :: rest) =
      readResponse serde id callTimeout ending (line ++ l) (newline :: rest) := by
  induction l generalizing line with
  | nil => simp
  | cons b l ih =>
    have hb : b ≠ newline := fun he => hl (he ▸ List.mem_cons_self)
    rw [List.cons_append, readResponse, if_neg hb, ih _ fun hm => hl (List.mem_cons_of_mem _ hm),
      List.append_assoc, List.singleton_append]

theorem judge_spoken (id : U64) {text : String} (h : Spoken serde bound text) :
    judge serde id (utf8 text) = .skip ∧
        (∀ message, serde.fromStr (trim text) = .ok message → trim text ≠ "" →
          idOf message ≠ some id) ∨
      ∃ message, judge serde id (utf8 text) = .answer message := by
  unfold judge
  rw [decode_utf8]
  by_cases hblank : trim text = ""
  · simp [hblank]
  · obtain ⟨fields, hfields⟩ := h.message.resolve_left hblank
    by_cases hid : idOf (.object fields) = some id
    · simp [hblank, hfields, hid]
    · simp [hblank, hfields, hid]

theorem readResponse_uncut (hsaid : ∀ text ∈ said, Spoken serde bound text)
    (h : ∃ text ∈ said, trim text ≠ "" ∧ ∃ message, serde.fromStr (trim text) = .ok message ∧
      idOf message = some id) :
    ∃ message, (readResponse serde id callTimeout ending [] (lines newline (said.map utf8))).1 =
      .ok message := by
  induction said with
  | nil => simp at h
  | cons text said ih =>
    have hspoken := hsaid text List.mem_cons_self
    rw [List.map_cons, lines_cons, readResponse_line _ (newline_notMem_utf8 hspoken.oneLine),
      List.nil_append, readResponse, if_pos rfl]
    obtain ⟨hskip, hother⟩ | ⟨message, hanswer⟩ := judge_spoken id hspoken
    · rw [hskip]
      apply ih fun text' htext' => hsaid text' (List.mem_cons_of_mem _ htext')
      obtain ⟨text', htext', hblank, message, hread, hid⟩ := h
      obtain rfl | htext' := List.mem_cons.mp htext'
      · exact absurd hid (hother message hread hblank)
      · exact ⟨text', htext', hblank, message, hread, hid⟩
    · rw [hanswer]
      exact ⟨message, rfl⟩

end Lines

section Exchanges

variable {floats : Floats} {serde : SerdeJson} {callTimeout : U64} {said : List String}
  {pipes : Pipes} {turn : Turn} {method : String} {params : Value}

theorem idOf_request (id : U64) (method : String) (params : Value) :
    idOf (request id method params) = some id := by
  simp [idOf, request, get_json, OrdMap.ofList, OrdMap.get?_insert, Value.asU64]

theorem idOf_notification (method : String) : idOf (notification method) = none := by
  simp [idOf, notification, get_json, OrdMap.ofList, OrdMap.get?_insert]

/-- The pipes to a kernel that has said these things, no more than it was asked. -/
structure Sound (serde : SerdeJson) (said : List String) (pipes : Pipes) : Prop where
  spoken : ∀ text ∈ said, Spoken serde pipes.nextId.val text
  unread : pipes.stdout ++ pipes.wire <:+ lines newline (said.map utf8)

/-- A kernel writes messages, a line each, and answers nothing it was not asked. -/
def Honest (serde : SerdeJson) (pipes : Pipes) (turn : Turn) : Prop :=
  ∀ text ∈ turn.speaks, Spoken serde (pipes.nextId + 1).val text

/-- All that the kernel wrote arrives in time. -/
def Prompt (pipes : Pipes) (turn : Turn) : Prop :=
  turn.takes = true ∧
    (pipes.wire ++ turn.written).length ≤ turn.arriving (pipes.wire ++ turn.written)

/-- The kernel answers the request that is made. -/
def Answered (serde : SerdeJson) (pipes : Pipes) (turn : Turn) : Prop :=
  ∃ text ∈ turn.speaks, trim text ≠ "" ∧ ∃ message, serde.fromStr (trim text) = .ok message ∧
    idOf message = some (pipes.nextId + 1)

theorem val_succ {n : U64} (h : n.val + 1 < 2 ^ 64) : (n + 1).val = n.val + 1 :=
  Fin.val_add_one_of_lt' h

theorem sound_fresh : Sound serde [] Pipes.fresh where
  spoken := by simp
  unread := by simp [Pipes.fresh]

theorem written_suffix (hsound : Sound serde said pipes) (turn : Turn) :
    pipes.stdout ++ (pipes.wire ++ turn.written) <:+
      lines newline ((said ++ turn.speaks).map utf8) := by
  rw [List.map_append, lines_append, ← List.append_assoc]
  obtain ⟨cut, hcut⟩ := hsound.unread
  exact ⟨cut, by rw [← hcut, Turn.written]; simp⟩

theorem spoken_concat (hsound : Sound serde said pipes) (hnext : pipes.nextId.val + 1 < 2 ^ 64)
    (honest : Honest serde pipes turn) :
    ∀ text ∈ said ++ turn.speaks, Spoken serde (pipes.nextId + 1).val text := by
  intro text htext
  obtain htext | htext := List.mem_append.mp htext
  · exact (hsound.spoken text htext).mono (by rw [val_succ hnext]; omega)
  · exact honest text htext

theorem nextId_exchange :
    (exchange serde callTimeout pipes method params turn).2.nextId = pipes.nextId + 1 := by
  unfold exchange
  dsimp only
  split_ifs <;> rfl

/-- An exchange keeps the pipes sound, and what it comes back with was said meanwhile in
answer to its own request. -/
theorem exchange_spec (callTimeout : U64) (method : String) (params : Value)
    (hserde : ReadsJson floats serde) (hsound : Sound serde said pipes)
    (hnext : pipes.nextId.val + 1 < 2 ^ 64) (honest : Honest serde pipes turn) :
    Sound serde (said ++ turn.speaks) (exchange serde callTimeout pipes method params turn).2 ∧
      ∀ message, (exchange serde callTimeout pipes method params turn).1 = .ok message →
        idOf message = some (pipes.nextId + 1) ∧
        (exchange serde callTimeout pipes method params turn).2.stdin =
          pipes.stdin ++ [request (pipes.nextId + 1) method params] ∧
        ∃ text ∈ turn.speaks, serde.fromStr (trim text) = .ok message := by
  have hval := val_succ hnext
  have hspoken := spoken_concat hsound hnext honest
  have hsuffix := written_suffix hsound turn
  unfold exchange
  dsimp only
  by_cases htakes : turn.takes = true
  · rw [if_pos htakes]
    generalize hwire : pipes.wire ++ turn.written = wire at hsuffix
    generalize harrive : turn.arriving wire = n
    have hbeyond : turn.ending = .closed → wire.drop n = [] := by
      intro hclosed
      rw [← harrive, Turn.arriving, hclosed]
      simp
    have hpart : [] ++ ((pipes.stdout ++ wire.take n) ++ wire.drop n) <:+
        lines newline ((said ++ turn.speaks).map utf8) := by
      simpa using hsuffix
    obtain ⟨hanswer, hunread, -⟩ := readResponse_spec (pipes.nextId + 1) callTimeout hserde hspoken
      (by simp) hpart hbeyond
    refine ⟨⟨hspoken, hunread⟩, ?_⟩
    intro message hmessage
    obtain ⟨hid, text, htext, hread⟩ := hanswer message hmessage
    refine ⟨hid, rfl, text, ?_, hread⟩
    -- Nothing said before bears an id that is given only now.
    obtain htext | htext := List.mem_append.mp htext
    · have hold := (hsound.spoken text htext).issued message _ hread hid
      omega
    · exact htext
  · rw [if_neg htakes]
    exact ⟨⟨hspoken, hsuffix⟩, fun _ h => by simp at h⟩

theorem exchange_prompt (hprompt : Prompt pipes turn) :
    exchange serde callTimeout pipes method params turn =
      ((readResponse serde (pipes.nextId + 1) callTimeout turn.ending []
          (pipes.stdout ++ (pipes.wire ++ turn.written))).1,
        ⟨pipes.stdin ++ [request (pipes.nextId + 1) method params],
          (readResponse serde (pipes.nextId + 1) callTimeout turn.ending []
            (pipes.stdout ++ (pipes.wire ++ turn.written))).2, [], pipes.nextId + 1⟩) := by
  unfold exchange
  dsimp only
  rw [if_pos hprompt.1, List.take_of_length_le hprompt.2, List.drop_of_length_le hprompt.2]

theorem exchange_uncut (callTimeout : U64) (method : String) (params : Value)
    (hserde : ReadsJson floats serde) (hsound : Sound serde said pipes)
    (hnext : pipes.nextId.val + 1 < 2 ^ 64) (honest : Honest serde pipes turn)
    (hprompt : Prompt pipes turn) :
    Uncut (said ++ turn.speaks)
      ((exchange serde callTimeout pipes method params turn).2.stdout ++
        (exchange serde callTimeout pipes method params turn).2.wire) := by
  have hpart : [] ++ ((pipes.stdout ++ (pipes.wire ++ turn.written)) ++ []) <:+
      lines newline ((said ++ turn.speaks).map utf8) := by
    simpa using written_suffix hsound turn
  have hend : turn.ending = .closed → ([] : List Byte) = [] := fun _ => rfl
  obtain ⟨-, -, huncut⟩ := readResponse_spec (pipes.nextId + 1) callTimeout hserde
    (spoken_concat hsound hnext honest) (by simp) hpart hend
  rw [exchange_prompt hprompt]
  obtain huncut | ⟨hempty, -⟩ := huncut
  · exact huncut
  · dsimp only
    rw [hempty]
    exact uncut_nil _

theorem exchange_answers (callTimeout : U64) (method : String) (params : Value)
    (hsound : Sound serde said pipes)
    (hnext : pipes.nextId.val + 1 < 2 ^ 64) (honest : Honest serde pipes turn)
    (huncut : Uncut said (pipes.stdout ++ pipes.wire)) (hprompt : Prompt pipes turn)
    (hanswered : Answered serde pipes turn) :
    ∃ message, (exchange serde callTimeout pipes method params turn).1 = .ok message := by
  obtain ⟨before, rest, rfl, hunread⟩ := huncut
  have hlines : pipes.stdout ++ (pipes.wire ++ turn.written) =
      lines newline ((rest ++ turn.speaks).map utf8) := by
    rw [← List.append_assoc, hunread, Turn.written, List.map_append, lines_append]
  have hspoken : ∀ text ∈ rest ++ turn.speaks, Spoken serde (pipes.nextId + 1).val text := by
    intro text htext
    apply spoken_concat hsound hnext honest
    rw [List.append_assoc]
    exact List.mem_append_right _ htext
  rw [exchange_prompt hprompt, hlines]
  apply readResponse_uncut hspoken
  obtain ⟨text, htext, hanswer⟩ := hanswered
  exact ⟨text, List.mem_append_right _ htext, hanswer⟩

/-- Requests are written in the order of their ids, none of them twice. -/
structure Ordered (pipes : Pipes) : Prop where
  increasing : (pipes.stdin.filterMap idOf).Pairwise (· < ·)
  issued : ∀ id ∈ pipes.stdin.filterMap idOf, id.val ≤ pipes.nextId.val

theorem ordered_exchange {method : String} {params : Value} {turn : Turn} (h : Ordered pipes)
    (hnext : pipes.nextId.val + 1 < 2 ^ 64) :
    Ordered (exchange serde callTimeout pipes method params turn).2 := by
  have hval := val_succ hnext
  have hbelow : ∀ id ∈ pipes.stdin.filterMap idOf, id < pipes.nextId + 1 := by
    intro id hid
    have hle := h.issued id hid
    rw [Fin.lt_def]
    omega
  unfold exchange
  dsimp only
  split_ifs with htakes
  · constructor
    · rw [List.filterMap_append, List.pairwise_append]
      simpa [idOf_request] using ⟨h.increasing, by simpa using hbelow⟩
    · intro id hid
      rw [List.filterMap_append] at hid
      obtain hid | hid := List.mem_append.mp hid
      · exact (Fin.lt_def.mp (hbelow id hid)).le
      · simp only [List.filterMap_cons, List.filterMap_nil, idOf_request, List.mem_singleton] at hid
        rw [hid]
  · exact ⟨h.increasing, fun id hid => (Fin.lt_def.mp (hbelow id hid)).le⟩

end Exchanges

section Runs

variable {floats : Floats} {serde : SerdeJson} {callTimeout : U64} {version : String}
  {opening : Turn} {note : Bool} {pipes : Pipes} {calls : List Call}

/-- Throughout some calls, the kernel writes messages and answers nothing it was not
asked. -/
def HonestAlong (floats : Floats) (serde : SerdeJson) (callTimeout : U64) (pipes : Pipes)
    (calls : List Call) : Prop :=
  ∀ before c later, calls = before ++ c :: later →
    Honest serde (after floats serde callTimeout pipes before) c.turn

theorem after_concat (c : Call) :
    after floats serde callTimeout pipes (calls ++ [c]) =
      (call floats serde callTimeout (after floats serde callTimeout pipes calls) c).2 := by
  simp [after]

theorem handshake_eq_ok (h : handshake floats serde callTimeout version opening note = .ok pipes) :
    ∃ greeted, (exchange serde callTimeout Pipes.fresh "initialize" (handshakeParams version)
        opening).2 = greeted ∧
      pipes = { greeted with
        stdin := greeted.stdin ++ [notification "notifications/initialized"] } := by
  unfold handshake at h
  generalize exchange serde callTimeout Pipes.fresh "initialize" (handshakeParams version) opening =
    answered at h ⊢
  obtain ⟨answer, greeted⟩ := answered
  cases answer with
  | error error => simp at h
  | ok answer =>
    dsimp only at h
    cases hrefused : KernelPages.get answer "error" with
    | some error => simp [hrefused] at h
    | none =>
      cases note with
      | false => simp [hrefused] at h
      | true =>
        simp only [hrefused, if_true] at h
        exact ⟨greeted, rfl, (Except.ok.inj h).symm⟩

theorem nextId_handshake (h : handshake floats serde callTimeout version opening note = .ok pipes) :
    pipes.nextId.val = 1 := by
  obtain ⟨greeted, hgreeted, rfl⟩ := handshake_eq_ok h
  rw [← hgreeted, nextId_exchange]
  rfl

theorem sound_handshake (hserde : ReadsJson floats serde) (honest : Honest serde Pipes.fresh opening)
    (h : handshake floats serde callTimeout version opening note = .ok pipes) :
    Sound serde opening.speaks pipes := by
  obtain ⟨greeted, hgreeted, rfl⟩ := handshake_eq_ok h
  obtain ⟨hsound, -⟩ := exchange_spec callTimeout "initialize" (handshakeParams version) hserde
    sound_fresh (by decide) honest
  rw [hgreeted] at hsound
  exact ⟨hsound.spoken, hsound.unread⟩

theorem ordered_handshake (h : handshake floats serde callTimeout version opening note = .ok pipes) :
    Ordered pipes := by
  obtain ⟨greeted, hgreeted, rfl⟩ := handshake_eq_ok h
  have hfresh : Ordered Pipes.fresh := ⟨by simp [Pipes.fresh], by simp [Pipes.fresh]⟩
  have hordered : Ordered (exchange serde callTimeout Pipes.fresh "initialize"
      (handshakeParams version) opening).2 :=
    ordered_exchange hfresh (by decide)
  rw [hgreeted] at hordered
  constructor
  · simpa [List.filterMap_append, idOf_notification] using hordered.increasing
  · simpa [List.filterMap_append, idOf_notification] using hordered.issued

theorem nextId_after (hbegan : handshake floats serde callTimeout version opening note = .ok pipes)
    (hcalls : calls.length + 1 < 2 ^ 64) :
    (after floats serde callTimeout pipes calls).nextId.val = calls.length + 1 := by
  induction calls using List.reverseRecOn with
  | nil => simpa [after] using nextId_handshake hbegan
  | append_singleton calls c ih =>
    rw [List.length_append, List.length_singleton] at hcalls ⊢
    have hnext := ih (by omega)
    rw [after_concat, call, nextId_exchange, val_succ (by omega), hnext]

theorem ordered_after (hbegan : handshake floats serde callTimeout version opening note = .ok pipes)
    (hcalls : calls.length + 1 < 2 ^ 64) :
    Ordered (after floats serde callTimeout pipes calls) := by
  induction calls using List.reverseRecOn with
  | nil => exact ordered_handshake hbegan
  | append_singleton calls c ih =>
    rw [List.length_append, List.length_singleton] at hcalls
    have hnext : (after floats serde callTimeout pipes calls).nextId.val = calls.length + 1 :=
      nextId_after hbegan (by omega)
    rw [after_concat]
    exact ordered_exchange (ih (by omega)) (by omega)

def saidBy (opening : Turn) (calls : List Call) : List String :=
  opening.speaks ++ calls.flatMap fun c => c.turn.speaks

theorem sound_after (hserde : ReadsJson floats serde) (hopening : Honest serde Pipes.fresh opening)
    (hbegan : handshake floats serde callTimeout version opening note = .ok pipes)
    (hcalls : calls.length + 1 < 2 ^ 64) (honest : HonestAlong floats serde callTimeout pipes calls) :
    Sound serde (saidBy opening calls) (after floats serde callTimeout pipes calls) := by
  induction calls using List.reverseRecOn with
  | nil => simpa [saidBy, after] using sound_handshake hserde hopening hbegan
  | append_singleton calls c ih =>
    rw [List.length_append, List.length_singleton] at hcalls
    obtain ⟨hearlier, hlast⟩ := Lib.Runs.forall_split_concat.mp honest
    have hnext : (after floats serde callTimeout pipes calls).nextId.val = calls.length + 1 :=
      nextId_after hbegan (by omega)
    have hsaid : saidBy opening (calls ++ [c]) = saidBy opening calls ++ c.turn.speaks := by
      simp [saidBy]
    rw [after_concat, hsaid]
    exact (exchange_spec _ _ _ hserde (ih (by omega) hearlier) (by omega) hlast).1

/-- A call that comes back with an answer, after any number of calls that timed out,
failed or were cut off in the middle of a line, comes back with what the kernel said
during that call, in answer to the request that the call made and no other made. -/
theorem call_answers_own_request (hserde : ReadsJson floats serde)
    (hopening : Honest serde Pipes.fresh opening)
    (hbegan : handshake floats serde callTimeout version opening note = .ok pipes)
    (hcalls : calls.length + 1 < 2 ^ 64) (honest : HonestAlong floats serde callTimeout pipes calls) :
    ∀ before c later, calls = before ++ c :: later →
      ∀ answer, (call floats serde callTimeout (after floats serde callTimeout pipes before) c).1 =
        .ok answer →
      ∃ id, (call floats serde callTimeout (after floats serde callTimeout pipes before) c).2.stdin =
          (after floats serde callTimeout pipes before).stdin ++ [request id "tools/call" c.params] ∧
        (∀ message ∈ (after floats serde callTimeout pipes before).stdin, idOf message ≠ some id) ∧
        ∃ text ∈ c.turn.speaks, ∃ message, serde.fromStr (trim text) = .ok message ∧
          idOf message = some id ∧ readAnswer floats serde message = .ok answer := by
  rintro before c later rfl answer hanswer
  have hlength : before.length + 1 + 1 < 2 ^ 64 := by
    simp only [List.length_append, List.length_cons] at hcalls
    omega
  have hbefore : HonestAlong floats serde callTimeout pipes before :=
    fun before' d later' hsplit => honest before' d (later' ++ c :: later) (by simp [hsplit])
  have hsound := sound_after hserde hopening hbegan (by omega) hbefore
  have hnext : (after floats serde callTimeout pipes before).nextId.val = before.length + 1 :=
    nextId_after hbegan (by omega)
  have hroom : (after floats serde callTimeout pipes before).nextId.val + 1 < 2 ^ 64 := by omega
  obtain ⟨message, hmessage, hread⟩ := except_bind_eq_ok.mp hanswer
  obtain ⟨-, hspec⟩ := exchange_spec callTimeout "tools/call" c.params hserde hsound hroom
    (honest before c later rfl)
  obtain ⟨hid, hstdin, text, htext, hfrom⟩ := hspec message hmessage
  refine ⟨_, hstdin, ?_, text, htext, message, hfrom, hid, hread⟩
  intro earlier hearlier hsame
  have hold := (ordered_after hbegan (by omega)).issued _
    (List.mem_filterMap.mpr ⟨earlier, hearlier, hsame⟩)
  rw [val_succ hroom] at hold
  omega

def Turn.saying (text : String) : Turn := ⟨true, [text], 1000, .deadline⟩

def helloText : String := "\x7b\"id\":1,\"result\":\x7b\x7d\x7d"

def sevenText : String :=
  "\x7b\"id\":2,\"result\":\x7b\"content\":[\x7b\"type\":\"text\",\"text\":\"7\"\x7d]\x7d\x7d"

theorem spoken_of_read {bound : Nat} {text : String} {fields : List (String × Value)} {id : U64}
    (hline : '\n' ∉ text.toList) (hread : serde.fromStr (trim text) = .ok (.object fields))
    (hid : idOf (.object fields) = some id) (hle : id.val ≤ bound) : Spoken serde bound text := by
  refine ⟨hline, .inr ⟨fields, hread⟩, ?_⟩
  intro message id' hread' hid'
  obtain rfl := Except.ok.inj (hread.symm.trans hread')
  rwa [← Option.some.inj (hid.symm.trans hid')]

theorem spoken_hello : Spoken jsonSerde 1 helloText :=
  spoken_of_read (by decide) rfl rfl (Nat.le_refl 1)

theorem spoken_seven : Spoken jsonSerde 2 sevenText :=
  spoken_of_read (by decide) rfl rfl (Nat.le_refl 2)

theorem written_saying (text : String) :
    (Turn.saying text).written = utf8 text ++ newline :: [] := by
  simp [Turn.written, Turn.saying, lines]

theorem prompt_saying {text : String} (hsize : pipes.wire.length + text.utf8ByteSize < 1000) :
    Prompt pipes (.saying text) := by
  refine ⟨rfl, ?_⟩
  rw [written_saying, List.length_append, List.length_append, length_utf8, ← Nat.add_assoc]
  exact hsize

theorem readResponse_answer {id : U64} {ending : Ending} {text : String} {message : Value}
    {rest : List Byte} (hline : '\n' ∉ text.toList) (hblank : trim text ≠ "")
    (hread : serde.fromStr (trim text) = .ok message) (hid : idOf message = some id) :
    readResponse serde id callTimeout ending [] (utf8 text ++ newline :: rest) =
      (.ok message, rest) := by
  have hanswer : judge serde id (utf8 text) = .answer message :=
    judge_eq_answer.mpr ⟨text, decode_utf8 text, hblank, hread, hid⟩
  rw [readResponse_line _ (newline_notMem_utf8 hline), List.nil_append, readResponse, if_pos rfl,
    hanswer]

def greeted : Pipes :=
  ⟨[request 1 "initialize" (handshakeParams "0.1.0"), notification "notifications/initialized"],
    [], [], 1⟩

theorem handshake_hello :
    handshake zeroFloats jsonSerde 30 "0.1.0" (.saying helloText) true = .ok greeted := by
  have hprompt : Prompt Pipes.fresh (.saying helloText) := prompt_saying (by decide)
  unfold handshake
  rw [exchange_prompt hprompt, written_saying, Pipes.fresh, List.nil_append, List.nil_append,
    readResponse_answer (by decide) (by decide) rfl rfl]
  rfl

theorem honest_hello : Honest jsonSerde Pipes.fresh (.saying helloText) := by
  intro text htext
  obtain rfl := List.mem_singleton.mp htext
  exact spoken_hello

def eightText : String :=
  "\x7b\"id\":3,\"result\":\x7b\"content\":[\x7b\"type\":\"text\",\"text\":\"8\"\x7d]\x7d\x7d"

def nineText : String :=
  "\x7b\"id\":4,\"result\":\x7b\"content\":[\x7b\"type\":\"text\",\"text\":\"9\"\x7d]\x7d\x7d"

def daysOf (span : String) : Value := json [("of", .string span)]

/-- Five bytes of the answer arrive in time. -/
def cutOff : Call := ⟨"count", daysOf "week", ⟨true, [sevenText], 5, .deadline⟩⟩

def askEight : Call := ⟨"count", daysOf "octave", .saying eightText⟩

def askNine : Call := ⟨"count", daysOf "novena", .saying nineText⟩

def counted (id : U64) (days : String) : List (String × Value) :=
  [("id", .number (.posInt id)), ("result", .object [("content",
    .array [.object [("text", .string days), ("type", .string "text")]])])]

theorem read_eight : jsonSerde.fromStr (trim eightText) = .ok (.object (counted 3 "8")) := by
  rfl

theorem read_nine : jsonSerde.fromStr (trim nineText) = .ok (.object (counted 4 "9")) := by
  rfl

theorem spoken_eight : Spoken jsonSerde 3 eightText :=
  spoken_of_read (by decide) read_eight rfl (Nat.le_refl 3)

theorem spoken_nine : Spoken jsonSerde 4 nineText :=
  spoken_of_read (by decide) read_nine rfl (Nat.le_refl 4)

def lateText : String :=
  ":2,\"result\":\x7b\"content\":[\x7b\"type\":\"text\",\"text\":\"7\"\x7d]\x7d\x7d"

theorem utf8_seven : utf8 sevenText = [123, 34, 105, 100, 34] ++ utf8 lateText := by
  have hseven : sevenText = "\x7b\"id\"" ++ lateText := rfl
  have hcut : utf8 "\x7b\"id\"" = [123, 34, 105, 100, 34] := by decide
  rw [hseven, utf8_append, hcut]

theorem call_cutOff : call zeroFloats jsonSerde 30 greeted cutOff =
    (.error (.silent 30), ⟨greeted.stdin ++ [request 2 "tools/call" cutOff.params], [],
      utf8 lateText ++ newline :: [], 2⟩) := by
  have hwritten : cutOff.turn.written =
      [123, 34, 105, 100, 34] ++ (utf8 lateText ++ newline :: []) := by
    simp [Turn.written, cutOff, lines, utf8_seven]
  unfold call exchange
  rw [hwritten]
  rfl

theorem call_late : (call zeroFloats jsonSerde 30
    ⟨greeted.stdin ++ [request 2 "tools/call" cutOff.params], [], utf8 lateText ++ newline :: [], 2⟩
    askEight) = (.error (.unreadable "a line that was not JSON: expected value"),
      ⟨greeted.stdin ++ [request 2 "tools/call" cutOff.params] ++
        [request 3 "tools/call" askEight.params], utf8 eightText ++ newline :: [], [], 3⟩) := by
  have hbroken : judge jsonSerde 3 (utf8 lateText) =
      .broken (.unreadable "a line that was not JSON: expected value") := by
    unfold judge
    rw [decode_utf8]
    rfl
  have hprompt : Prompt ⟨greeted.stdin ++ [request 2 "tools/call" cutOff.params], [],
      utf8 lateText ++ newline :: [], 2⟩ askEight.turn := by
    apply prompt_saying
    rw [List.length_append, length_utf8]
    decide
  unfold call
  rw [exchange_prompt hprompt, askEight, written_saying, List.nil_append, List.append_assoc,
    List.cons_append, List.nil_append, readResponse_line _ (newline_notMem_utf8 (by decide)),
    List.nil_append, readResponse, if_pos rfl]
  have hid : (2 : U64) + 1 = 3 := rfl
  rw [hid, hbroken]
  rfl

/-- The pipes after a call that was cut off in the middle of a line and one that met the rest. -/
def muddled : Pipes := after zeroFloats jsonSerde 30 greeted [cutOff, askEight]

theorem muddled_eq : muddled = ⟨greeted.stdin ++ [request 2 "tools/call" cutOff.params] ++
    [request 3 "tools/call" askEight.params], utf8 eightText ++ newline :: [], [], 3⟩ := by
  change (call zeroFloats jsonSerde 30 (call zeroFloats jsonSerde 30 greeted cutOff).2 askEight).2 = _
  rw [call_cutOff, call_late]

theorem honest_muddled :
    HonestAlong zeroFloats jsonSerde 30 greeted [cutOff, askEight, askNine] := by
  refine Lib.Runs.forall_split_cons.mpr ⟨?_, Lib.Runs.forall_split_cons.mpr ⟨?_,
    Lib.Runs.forall_split_cons.mpr ⟨?_, ?_⟩⟩⟩
  · intro text htext
    obtain rfl := List.mem_singleton.mp htext
    exact spoken_seven
  · intro text htext
    obtain rfl := List.mem_singleton.mp htext
    change Spoken jsonSerde ((call zeroFloats jsonSerde 30 greeted cutOff).2.nextId + 1).val _
    rw [call_cutOff]
    exact spoken_eight
  · intro text htext
    obtain rfl := List.mem_singleton.mp htext
    change Spoken jsonSerde (muddled.nextId + 1).val _
    rw [muddled_eq]
    exact spoken_nine
  · exact Lib.Runs.forall_split_nil

theorem call_nine : (call zeroFloats jsonSerde 30 muddled askNine).1 = .ok (.returned (jsonNat 9)) := by
  have hprompt : Prompt muddled askNine.turn := by
    rw [muddled_eq]
    exact prompt_saying (by decide)
  have hskip : judge jsonSerde 4 (utf8 eightText) = .skip := by
    have hblank : trim eightText ≠ "" := by decide
    simp only [judge, decode_utf8, if_neg hblank, read_eight]
    rfl
  have hunread : muddled.stdout ++ (muddled.wire ++ askNine.turn.written) =
      utf8 eightText ++ newline :: (utf8 nineText ++ newline :: []) := by
    rw [muddled_eq, askNine, written_saying]
    simp
  have hid : muddled.nextId + 1 = 4 := by rw [muddled_eq]; rfl
  unfold call
  rw [exchange_prompt hprompt, hunread, hid, readResponse_line _ (newline_notMem_utf8 (by decide)),
    List.nil_append, readResponse, if_pos rfl, hskip]
  dsimp only
  rw [readResponse_answer (by decide) (by decide) read_nine rfl]
  rfl

/-- The one that is answered comes after one that was cut off and one that failed for it. -/
theorem call_answers_own_request_nine :
    (call zeroFloats jsonSerde 30 greeted cutOff).1 = .error (.silent 30) ∧
      (call zeroFloats jsonSerde 30 muddled askNine).1 = .ok (.returned (jsonNat 9)) ∧
      ∃ id, (call zeroFloats jsonSerde 30 muddled askNine).2.stdin =
          muddled.stdin ++ [request id "tools/call" askNine.params] ∧
        (∀ message ∈ muddled.stdin, idOf message ≠ some id) ∧
        ∃ text ∈ askNine.turn.speaks, ∃ message, jsonSerde.fromStr (trim text) = .ok message ∧
          idOf message = some id ∧
          readAnswer zeroFloats jsonSerde message = .ok (.returned (jsonNat 9)) :=
  ⟨congrArg Prod.fst call_cutOff, call_nine, call_answers_own_request readsJson_jsonSerde honest_hello
    handshake_hello (by decide) honest_muddled [cutOff, askEight] askNine [] rfl _ call_nine⟩

/-- However the calls before it went, a call that all the kernel wrote arrives for puts
the conversation right: the next one that is answered in time returns its answer. -/
theorem call_after_prompt_answers (hserde : ReadsJson floats serde)
    (hopening : Honest serde Pipes.fresh opening)
    (hbegan : handshake floats serde callTimeout version opening note = .ok pipes)
    (hcalls : calls.length + 1 < 2 ^ 64) (honest : HonestAlong floats serde callTimeout pipes calls) :
    ∀ before first c later, calls = before ++ first :: c :: later →
      Prompt (after floats serde callTimeout pipes before) first.turn →
      Prompt (after floats serde callTimeout pipes (before ++ [first])) c.turn →
      Answered serde (after floats serde callTimeout pipes (before ++ [first])) c.turn →
      ∃ text ∈ c.turn.speaks, ∃ message, serde.fromStr (trim text) = .ok message ∧
        idOf message =
          some ((after floats serde callTimeout pipes (before ++ [first])).nextId + 1) ∧
        (call floats serde callTimeout
            (after floats serde callTimeout pipes (before ++ [first])) c).1 =
          readAnswer floats serde message := by
  rintro before first c later rfl hfirst hprompt hanswered
  have hlength : before.length + 1 + 1 + 1 < 2 ^ 64 := by
    simp only [List.length_append, List.length_cons] at hcalls
    omega
  have hbefore : HonestAlong floats serde callTimeout pipes before :=
    fun before' d later' hsplit =>
      honest before' d (later' ++ first :: c :: later) (by simp [hsplit])
  have hsound := sound_after hserde hopening hbegan (by omega) hbefore
  have hnext : (after floats serde callTimeout pipes before).nextId.val = before.length + 1 :=
    nextId_after hbegan (by omega)
  have hroom : (after floats serde callTimeout pipes before).nextId.val + 1 < 2 ^ 64 := by omega
  have honestFirst := honest before first (c :: later) rfl
  have huncut := exchange_uncut callTimeout "tools/call" first.params hserde hsound hroom
    honestFirst hfirst
  have hsound' :=
    (exchange_spec callTimeout "tools/call" first.params hserde hsound hroom honestFirst).1
  have honestLast := honest (before ++ [first]) c later (by simp)
  rw [after_concat] at hprompt hanswered honestLast ⊢
  have hroom' : (call floats serde callTimeout (after floats serde callTimeout pipes before)
      first).2.nextId.val + 1 < 2 ^ 64 := by
    rw [call, nextId_exchange, val_succ hroom]
    omega
  obtain ⟨message, hmessage⟩ := exchange_answers callTimeout "tools/call" c.params hsound' hroom'
    honestLast huncut hprompt hanswered
  obtain ⟨hid, -, text, htext, hfrom⟩ :=
    (exchange_spec _ _ _ hserde hsound' hroom' honestLast).2 message hmessage
  exact ⟨text, htext, message, hfrom, hid,
    congrArg (Except.bind · (readAnswer floats serde)) hmessage⟩

theorem call_after_prompt_answers_nine :
    ∃ text ∈ askNine.turn.speaks, ∃ message, jsonSerde.fromStr (trim text) = .ok message ∧
      idOf message = some (muddled.nextId + 1) ∧
      (call zeroFloats jsonSerde 30 muddled askNine).1 = readAnswer zeroFloats jsonSerde message := by
  have hfirst : Prompt (after zeroFloats jsonSerde 30 greeted [cutOff]) askEight.turn := by
    change Prompt (call zeroFloats jsonSerde 30 greeted cutOff).2 _
    rw [call_cutOff]
    apply prompt_saying
    rw [List.length_append, length_utf8]
    decide
  have hprompt : Prompt muddled askNine.turn := by
    rw [muddled_eq]
    exact prompt_saying (by decide)
  have hanswered : Answered jsonSerde muddled askNine.turn := by
    rw [muddled_eq]
    exact ⟨nineText, List.mem_singleton.mpr rfl, by decide, _, read_nine, rfl⟩
  exact call_after_prompt_answers readsJson_jsonSerde honest_hello handshake_hello (by decide)
    honest_muddled [cutOff] askEight askNine [] rfl hfirst hprompt hanswered

end Runs

section Requests

variable {floats : Floats} {serde : SerdeJson} {callTimeout : U64} {version : String}
  {opening : Turn} {note : Bool} {pipes : Pipes} {calls : List Call}

def Pipes.stdinBytes (floats : Floats) (pipes : Pipes) : List Byte :=
  lines newline (pipes.stdin.map fun message => utf8 (String.ofList (write floats message)))

theorem entries_json {fields : List (String × Value)} {e : String × Value}
    (h : e ∈ (OrdMap.ofList fields).entries) : e ∈ fields := by
  have hget := OrdMap.mem_entries.mp h
  obtain ⟨v, hv, hfiled⟩ | ⟨-, hnone⟩ := OrdMap.get?_foldl_insert fields OrdMap.empty e.1
  · rw [OrdMap.ofList, hfiled] at hget
    obtain rfl := Option.some.inj hget
    exact hv
  · rw [OrdMap.ofList, hnone] at hget
    cases hget

theorem keyed_json {fields : List (String × Value)} (h : ∀ e ∈ fields, Keyed e.2) :
    Keyed (json fields) := by
  unfold Keyed json
  rw [forall_lies_object]
  refine ⟨?_, fun e he n part hlies => h e (entries_json he) n part hlies⟩
  intro entries hentries
  obtain rfl := Value.object.inj hentries
  exact (OrdMap.ofList fields).sorted

theorem returns_json {depth : Nat} {fields : List (String × Value)}
    (h : ∀ e ∈ fields, Returns floats depth e.2) : Returns floats (depth + 1) (json fields) :=
  returns_object.mpr fun e he => h e (entries_json he)

/-- A message that is read as it was written. -/
structure Legible (floats : Floats) (depth : Nat) (message : Value) : Prop where
  keyed : Keyed message
  returns : Returns floats depth message

theorem legible_json {depth : Nat} {fields : List (String × Value)}
    (h : ∀ e ∈ fields, Legible floats depth e.2) : Legible floats (depth + 1) (json fields) :=
  ⟨keyed_json fun e he => (h e he).keyed, returns_json fun e he => (h e he).returns⟩

theorem legible_string (depth : Nat) (text : String) : Legible floats depth (.string text) := by
  refine ⟨?_, (reread_scalar rfl depth).mp (by simp [reread])⟩
  intro n part hlies
  cases hlies
  simp

theorem legible_id (depth : Nat) (id : U64) :
    Legible floats depth (.number (.posInt id)) := by
  refine ⟨?_, (reread_scalar rfl depth).mp ?_⟩
  · intro n part hlies
    cases hlies
    simp
  · simp [reread, readNumber_writeNumber]

theorem legible_request {depth : Nat} {id : U64} {method : String} {params : Value}
    (h : Legible floats depth params) : Legible floats (depth + 1) (request id method params) := by
  apply legible_json
  simp only [List.forall_mem_cons, List.not_mem_nil, false_imp_iff, implies_true, and_true]
  exact ⟨legible_string _ _, legible_id _ _, legible_string _ _, h⟩

theorem mem_stdin_exchange {method : String} {params message : Value} {turn : Turn}
    (h : message ∈ (exchange serde callTimeout pipes method params turn).2.stdin) :
    message ∈ pipes.stdin ∨ message = request (pipes.nextId + 1) method params := by
  unfold exchange at h
  dsimp only at h
  split_ifs at h with htakes
  · obtain hold | hnew := List.mem_append.mp h
    · exact .inl hold
    · exact .inr (List.mem_singleton.mp hnew)
  · exact .inl h

theorem legible_handshake
    (hbegan : handshake floats serde callTimeout version opening note = .ok pipes) :
    ∀ message ∈ pipes.stdin, Legible floats maxNesting message := by
  obtain ⟨greeted, hgreeted, rfl⟩ := handshake_eq_ok hbegan
  intro message hmessage
  obtain hold | hnote := List.mem_append.mp hmessage
  · rw [← hgreeted] at hold
    obtain hnone | rfl := mem_stdin_exchange hold
    · exact absurd hnone List.not_mem_nil
    · apply legible_request
      apply legible_json
      simp only [List.forall_mem_cons, List.not_mem_nil, false_imp_iff, implies_true, and_true]
      refine ⟨legible_string _ _, @legible_json floats _ [] (by simp), legible_json ?_⟩
      simp [legible_string]
  · obtain rfl := List.mem_singleton.mp hnote
    apply legible_json
    simp [legible_string]

theorem legible_after
    (hbegan : handshake floats serde callTimeout version opening note = .ok pipes)
    (hlegible : ∀ c ∈ calls, Legible floats (maxNesting - 2) c.arguments) :
    ∀ message ∈ (after floats serde callTimeout pipes calls).stdin,
      Legible floats maxNesting message := by
  induction calls using List.reverseRecOn with
  | nil => exact legible_handshake hbegan
  | append_singleton calls c ih =>
    intro message hmessage
    rw [after_concat] at hmessage
    obtain hold | rfl := mem_stdin_exchange hmessage
    · exact ih (fun c' hc' => hlegible c' (List.mem_append_left _ hc')) message hold
    · apply legible_request
      apply legible_json
      simp only [List.forall_mem_cons, List.not_mem_nil, false_imp_iff, implies_true, and_true]
      exact ⟨legible_string _ _, hlegible c (by simp)⟩

/-- Whoever takes what is written to the kernel apart at its line breaks, and reads each
line as a document, reads each message as its text gives it back, in their order, and never
two requests of one id. Where the arguments nest no deeper than a request leaves room for and
their numbers come back, these are the messages that were written. -/
theorem requests_read_back
    (hbegan : handshake floats serde callTimeout version opening note = .ok pipes)
    (hcalls : calls.length + 1 < 2 ^ 64) :
    (((after floats serde callTimeout pipes calls).stdin.filterMap idOf).Pairwise (· < ·)) ∧
      ∀ ls : List (List Byte), (∀ l ∈ ls, newline ∉ l) →
        lines newline ls = (after floats serde callTimeout pipes calls).stdinBytes floats →
        ls.map (fun l => (decode l).bind (read floats)) =
          (after floats serde callTimeout pipes calls).stdin.map (reread floats maxNesting) ∧
        ((∀ c ∈ calls, Keyed c.arguments ∧ Returns floats (maxNesting - 2) c.arguments) →
          ls.map (fun l => (decode l).bind (read floats)) =
            (after floats serde callTimeout pipes calls).stdin.map some) := by
  refine ⟨(ordered_after hbegan hcalls).increasing, ?_⟩
  intro ls hls hlines
  have hwritten : ∀ l ∈ (after floats serde callTimeout pipes calls).stdin.map
      (fun message => utf8 (String.ofList (write floats message))), newline ∉ l := by
    intro l hl
    obtain ⟨message, -, rfl⟩ := List.mem_map.mp hl
    apply newline_notMem_utf8
    rw [String.toList_ofList]
    exact newline_notMem_write floats message
  have hread : ls.map (fun l => (decode l).bind (read floats)) =
      (after floats serde callTimeout pipes calls).stdin.map (reread floats maxNesting) := by
    rw [lines_injective hls hwritten hlines, List.map_map]
    apply List.map_congr_left
    intro message _
    simp only [Function.comp_apply, decode_utf8, Option.bind_some]
    exact read_write message
  refine ⟨hread, fun harguments => hread.trans (List.map_congr_left fun message hmessage => ?_)⟩
  have hlegible := legible_after hbegan
    (fun c hc => ⟨(harguments c hc).1, (harguments c hc).2⟩) message hmessage
  exact (reread_eq_self hlegible.keyed).mpr hlegible.returns

theorem requests_read_back_muddled :
    (muddled.stdin.filterMap idOf).Pairwise (· < ·) ∧
      ∀ ls : List (List Byte), (∀ l ∈ ls, newline ∉ l) →
        lines newline ls = muddled.stdinBytes zeroFloats →
        ls.map (fun l => (decode l).bind (read zeroFloats)) = muddled.stdin.map some := by
  obtain ⟨hincreasing, hread⟩ := requests_read_back handshake_hello
    (show [cutOff, askEight].length + 1 < 2 ^ 64 by decide)
  refine ⟨hincreasing, fun ls hls hlines => (hread ls hls hlines).2 ?_⟩
  have hdays (span : String) : Legible zeroFloats (maxNesting - 2) (daysOf span) := by
    apply @legible_json zeroFloats (maxNesting - 3)
    simp [legible_string]
  intro c hc
  obtain rfl | rfl : c = cutOff ∨ c = askEight := by simpa using hc
  · exact ⟨(hdays "week").keyed, (hdays "week").returns⟩
  · exact ⟨(hdays "octave").keyed, (hdays "octave").returns⟩

end Requests

end Choreographer.KernelPipes
