import Entailment.Proofs.Sessions.Loading
import Entailment.Proofs.Sessions.Operations

/-!
# Documents by their lines

What loading a document does is a matter of its first four lines. Each has a requirement to meet:
there is such a line, it is a text (`lineText?_eq_some_iff`), and the text is accepted. Reading a
document is reading as many lines as there are requirements, each against its own (`read_eq`), and
that fails with the first requirement that is not met, looked at in the lines of the whole stream
(`readAll_eq`). So the line that is at fault, the texts that are told and asked, and all that does
not matter can be read off the lines (`load_performAll`).
-/

namespace Entailment

namespace Document

variable {bytes bytes' line rest : List UInt8} {text : String} {k number : Nat} {d : Document}

/-! ## Lines -/

/-- The lines of a stream. A newline ends a line, and so does the end of the stream if any bytes
come after the last newline. -/
def lines : List UInt8 → List (List UInt8)
  | [] => []
  | byte :: bytes =>
    if byte = newline then [] :: lines bytes
    else (byte :: (lines bytes).headD []) :: (lines bytes).tail

theorem lines_append_newline (h : newline ∉ line) (rest : List UInt8) :
    lines (line ++ newline :: rest) = line :: lines rest := by
  induction line with
  | nil => exact if_pos rfl
  | cons byte line ih =>
    obtain ⟨hb, hl⟩ := List.ne_and_not_mem_of_not_mem_cons h
    rw [List.cons_append, lines, if_neg hb.symm, ih hl]
    rfl

theorem lines_of_newline_not_mem (h : newline ∉ line) (ne : line ≠ []) : lines line = [line] := by
  induction line with
  | nil => exact absurd rfl ne
  | cons byte line ih =>
    obtain ⟨hb, hl⟩ := List.ne_and_not_mem_of_not_mem_cons h
    rw [lines, if_neg hb.symm]
    cases line with
    | nil => rfl
    | cons byte' line =>
      rw [ih hl (List.cons_ne_nil byte' line)]
      rfl

/-- As many lines as there are newlines stay what they are, whatever bytes come behind. -/
theorem take_lines_append {n : Nat} (h : n ≤ bytes.count newline) (behind : List UInt8) :
    (lines (bytes ++ behind)).take n = (lines bytes).take n := by
  induction n generalizing bytes with
  | zero => rw [List.take_zero, List.take_zero]
  | succ n ih =>
    obtain ⟨line, rest, rfl, hl⟩ :=
      List.eq_append_cons_of_mem (List.count_pos_iff.1 (Nat.zero_lt_of_lt h))
    rw [List.count_append, List.count_eq_zero_of_not_mem hl, List.count_cons_self] at h
    rw [List.append_assoc, List.cons_append, lines_append_newline hl, lines_append_newline hl,
      List.take_succ_cons, List.take_succ_cons, ih (by omega)]

theorem bne_newline_of_mem (h : newline ∉ line) : ∀ byte ∈ line, (byte != newline) = true := by
  intro byte hb
  exact bne_iff_ne.2 fun same => h (same ▸ hb)

theorem splitLine_append_newline (h : newline ∉ line) (rest : List UInt8) :
    splitLine (line ++ newline :: rest) = some (line, rest) := by
  simp [splitLine, List.takeWhile_append_of_pos (bne_newline_of_mem h),
    List.dropWhile_append_of_pos (bne_newline_of_mem h)]

theorem splitLine_of_newline_not_mem (h : newline ∉ line) (ne : line ≠ []) :
    splitLine line = some (line, []) := by
  have front := @List.takeWhile_append_of_pos _ _ line [] (bne_newline_of_mem h)
  have behind := @List.dropWhile_append_of_pos _ _ line [] (bne_newline_of_mem h)
  rw [List.append_nil] at front behind
  simp [splitLine, ne, front, behind]

/-- What is split off a stream is its first line, and the lines behind it remain. -/
theorem splitLine_eq (bytes : List UInt8) :
    splitLine bytes = none ∧ lines bytes = [] ∨
      ∃ line rest, splitLine bytes = some (line, rest) ∧ lines bytes = line :: lines rest := by
  by_cases ends : newline ∈ bytes
  · obtain ⟨line, rest, rfl, hl⟩ := List.eq_append_cons_of_mem ends
    exact .inr ⟨line, rest, splitLine_append_newline hl rest, lines_append_newline hl rest⟩
  · by_cases ne : bytes = []
    · subst ne
      exact .inl ⟨rfl, rfl⟩
    · exact .inr ⟨bytes, [], splitLine_of_newline_not_mem ends ne, lines_of_newline_not_mem ends ne⟩

/-- The line of a number, counted from one, if there is one. -/
def line? (number : Nat) (bytes : List UInt8) : Option (List UInt8) :=
  (lines bytes)[number - 1]?

/-- The text of a line without the blanks around it, if the line is there and is a text. -/
def lineText? (number : Nat) (bytes : List UInt8) : Option String :=
  (line? number bytes).bind decodeLine

theorem decodeLine_eq_some_iff : decodeLine line = some text ↔
    ∃ whole : String, whole.toUTF8.data.toList = line ∧
      String.ofList (Text.trimBlanks whole.toList) = text := by
  unfold decodeLine String.fromUTF8?
  constructor
  · intro h
    obtain ⟨whole, decoded, trimmed⟩ := Option.map_eq_some_iff.1 h
    split at decoded
    · cases decoded
      exact ⟨_, rfl, trimmed⟩
    · cases decoded
  · rintro ⟨whole, rfl, rfl⟩
    exact congrArg _ (dif_pos whole.isValidUTF8)

/-- A line is a text if its bytes are the UTF-8 form of one. -/
theorem lineText?_eq_some_iff : lineText? number bytes = some text ↔
    ∃ whole : String, line? number bytes = some whole.toUTF8.data.toList ∧
      String.ofList (Text.trimBlanks whole.toList) = text := by
  simp only [lineText?, Option.bind_eq_some_iff, decodeLine_eq_some_iff]
  constructor
  · rintro ⟨_, there, whole, rfl, trimmed⟩
    exact ⟨whole, there, trimmed⟩
  · rintro ⟨whole, there, trimmed⟩
    exact ⟨_, there, whole, rfl, trimmed⟩

/-! ## Requirements -/

/-- What is required of a line, besides being a text. -/
structure Requirement where
  accepts : String → Bool
  /-- The error if there is no line or its text is not accepted. -/
  missing : DocumentError

namespace Requirement

variable {r : Requirement}

/-- The line is a keyword. -/
def keyword (word : String) (missing : DocumentError) : Requirement :=
  ⟨(· == word), missing⟩

/-- What is wrong with the line of a number. -/
def fault? (r : Requirement) (number : Nat) (bytes : List UInt8) : Option DocumentError :=
  match line? number bytes with
  | none => some r.missing
  | some line =>
    match decodeLine line with
    | none => some (.unreadableLine number)
    | some text => if r.accepts text then none else some r.missing

theorem fault?_eq_none_iff : r.fault? number bytes = none ↔
    ∃ text, lineText? number bytes = some text ∧ r.accepts text = true := by
  unfold fault? lineText?
  cases line? number bytes with
  | none => simp
  | some line =>
    cases hd : decodeLine line with
    | none => simp [hd]
    | some text => simp [hd]

/-- Reads a line against the requirement. -/
def read (r : Requirement) (number : Nat) (bytes : List UInt8) :
    Except DocumentError (String × List UInt8) := do
  match ← readLine number bytes with
  | (some text, rest) => if r.accepts text then .ok (text, rest) else .error r.missing
  | (none, _) => .error r.missing

/-- Reading a line and then failing if it does not meet the requirement. -/
theorem bind_read {α : Type} {f : Option String × List UInt8 → Except DocumentError α}
    {g : String × List UInt8 → Except DocumentError α}
    (missing : ∀ rest, f (none, rest) = .error r.missing)
    (refused : ∀ text rest, r.accepts text = false → f (some text, rest) = .error r.missing)
    (accepted : ∀ text rest, r.accepts text = true → f (some text, rest) = g (text, rest))
    (number : Nat) (bytes : List UInt8) :
    readLine number bytes >>= f = r.read number bytes >>= g := by
  unfold Requirement.read
  cases readLine number bytes with
  | error e => rfl
  | ok found =>
    obtain ⟨line, rest⟩ := found
    cases line with
    | none => exact missing rest
    | some text =>
      show f (some text, rest) =
        (if r.accepts text then .ok (text, rest) else .error r.missing) >>= g
      cases h : r.accepts text with
      | false => exact refused text rest h
      | true => exact accepted text rest h

/-- Reading a line and then failing if it is not the keyword. -/
theorem bind_read_keyword {α : Type} {word : String} {missing : DocumentError}
    {f : Option String × List UInt8 → Except DocumentError α}
    {g : String × List UInt8 → Except DocumentError α} {later : List UInt8 → Except DocumentError α}
    (guarded : ∀ line rest,
      f (line, rest) = if line = some word then later rest else .error missing)
    (h : ∀ text rest, later rest = g (text, rest)) (number : Nat) (bytes : List UInt8) :
    readLine number bytes >>= f = (keyword word missing).read number bytes >>= g := by
  refine bind_read (fun rest => ?_) (fun text rest other => ?_) (fun text rest same => ?_) _ _
  · rw [guarded]
    rfl
  · rw [keyword, beq_eq_false_iff_ne] at other
    rw [guarded, if_neg (mt Option.some.inj other)]
    rfl
  · rw [keyword, beq_iff_eq] at same
    rw [guarded, if_pos (congrArg some same), h text rest]

/-- Reading a line against a requirement, by the lines of the whole stream. Further reading goes on
with the line behind it. -/
theorem read_eq (r : Requirement) (at' : lines rest = (lines bytes).drop k) :
    (∃ fault, r.fault? (k + 1) bytes = some fault ∧ r.read (k + 1) rest = .error fault) ∨
      ∃ text behind, r.fault? (k + 1) bytes = none ∧ lineText? (k + 1) bytes = some text ∧
        r.read (k + 1) rest = .ok (text, behind) ∧ lines behind = (lines bytes).drop (k + 1) := by
  have here : line? (k + 1) bytes = (lines rest).head? := by
    rw [at', List.head?_drop]
    rfl
  obtain ⟨ended, empty⟩ | ⟨line, behind, split, parts⟩ := splitLine_eq rest
  · rw [empty] at here
    refine .inl ⟨r.missing, ?_, ?_⟩
    · rw [fault?, here]
      rfl
    · rw [read, readLine, ended]
      rfl
  · rw [parts, List.head?_cons] at here
    cases decoded : decodeLine line with
    | none =>
      refine .inl ⟨.unreadableLine (k + 1), ?_, ?_⟩
      · simp only [fault?, here, decoded]
      · rw [read, readLine, split]
        simp only [decoded]
        rfl
    | some text =>
      have reads : r.read (k + 1) rest =
          if r.accepts text then .ok (text, behind) else .error r.missing := by
        rw [read, readLine, split]
        simp only [decoded]
        rfl
      cases accepted : r.accepts text with
      | false =>
        refine .inl ⟨r.missing, ?_, ?_⟩
        · simp only [fault?, here, decoded, accepted, Bool.false_eq_true, if_false]
        · rw [reads, accepted]
          rfl
      | true =>
        refine .inr ⟨text, behind, ?_, ?_, ?_, ?_⟩
        · simp only [fault?, here, decoded, accepted, if_true]
        · rw [lineText?, here]
          exact decoded
        · rw [reads, accepted]
          rfl
        · rw [← List.tail_drop, ← at', parts, List.tail_cons]

end Requirement

/-- What is required of the first lines of a document. -/
def requirements : List Requirement :=
  [.keyword "TELL" .missingTell, ⟨fun _ => true, .missingAsk⟩, .keyword "ASK" .missingAsk,
   ⟨(!·.isEmpty), .missingQuery⟩]

/-- Reads lines, from the one of a number on, each against its requirement. -/
def readAll (number : Nat) : List Requirement → List UInt8 → Except DocumentError (List String)
  | [], _ => return []
  | r :: rs, bytes => do
    let (text, rest) ← r.read number bytes
    return text :: (← readAll (number + 1) rs rest)

/-- The document with the given texts of its lines. -/
def ofTexts (texts : List String) : Document :=
  ⟨texts.getD 1 "", texts.getD 3 ""⟩

/-- Reading a document is reading its lines against their requirements. -/
theorem read_eq (bytes : List UInt8) : read bytes = ofTexts <$> readAll 1 requirements bytes := by
  simp only [requirements, readAll, map_bind, bind_assoc, pure_bind, map_pure]
  refine Requirement.bind_read_keyword (fun _ _ => rfl) (fun _ rest => ?_) 1 bytes
  refine Requirement.bind_read (fun _ => rfl) (fun _ _ h => by cases h) ?_ 2 rest
  intro sentences rest _
  refine Requirement.bind_read_keyword (fun _ _ => rfl) (fun _ rest => ?_) 3 rest
  refine Requirement.bind_read (fun _ => rfl) ?_ ?_ 4 rest
  · intro text rest h
    exact if_pos (by simpa using h)
  · intro query rest h
    exact if_neg (by simpa using h)

/-- What is wrong with lines, from the one of a number on, each by its requirement. -/
def faultsAgainst (number : Nat) (rs : List Requirement) (bytes : List UInt8) :
    List DocumentError :=
  (rs.zipIdx number).filterMap fun (r, number) => r.fault? number bytes

/-- The texts of lines, from the one of a number on, as many as there are requirements. -/
def textsFor (number : Nat) (rs : List Requirement) (bytes : List UInt8) : List String :=
  (rs.zipIdx number).filterMap fun (_, number) => lineText? number bytes

/-- Lines are read if each meets its requirement. Otherwise the first that does not is at fault. -/
theorem readAll_eq (rs : List Requirement) (at' : lines rest = (lines bytes).drop k) :
    readAll (k + 1) rs rest =
      (faultsAgainst (k + 1) rs bytes).head?.elim (.ok (textsFor (k + 1) rs bytes)) .error := by
  -- What is left of the stream always has the lines of the whole stream from some number on.
  induction rs generalizing k rest with
  | nil => rfl
  | cons r rs ih =>
    rw [faultsAgainst, textsFor, List.zipIdx_cons, List.filterMap_cons, List.filterMap_cons,
      readAll]
    obtain ⟨fault, found, failed⟩ | ⟨text, behind, fine, here, done, at'⟩ := r.read_eq at'
    · simp only [found, failed]
      rfl
    · simp only [fine, here, done]
      show (readAll (k + 1 + 1) rs behind >>= fun texts => .ok (text :: texts)) =
        (faultsAgainst (k + 1 + 1) rs bytes).head?.elim
          (.ok (text :: textsFor (k + 1 + 1) rs bytes)) .error
      rw [ih at']
      cases (faultsAgainst (k + 1 + 1) rs bytes).head? <;> rfl

/-! ## The document that a stream starts with -/

/-- What is wrong with the lines of a document, in their order. -/
def lineFaults (bytes : List UInt8) : List DocumentError :=
  faultsAgainst 1 requirements bytes

/-- A stream starts with the lines of a document. -/
structure WrittenIn (d : Document) (bytes : List UInt8) : Prop where
  tell : lineText? 1 bytes = some "TELL"
  sentences : lineText? 2 bytes = some d.sentences
  ask : lineText? 3 bytes = some "ASK"
  query : lineText? 4 bytes = some d.query
  asks : d.query ≠ ""

/-- Nothing is wrong with the lines just if they are those of a document. -/
theorem lineFaults_eq_nil_iff : lineFaults bytes = [] ↔ ∃ d : Document, d.WrittenIn bytes := by
  simp only [lineFaults, faultsAgainst, requirements, Requirement.keyword, List.zipIdx_cons,
    List.zipIdx_nil, List.filterMap_eq_nil_iff, List.forall_mem_cons,
    Requirement.fault?_eq_none_iff, beq_iff_eq, Bool.not_eq_true', String.isEmpty_eq_false_iff]
  constructor
  · rintro ⟨⟨_, tell, rfl⟩, ⟨sentences, told, -⟩, ⟨_, ask, rfl⟩, ⟨query, asked, asks⟩, -⟩
    exact ⟨⟨sentences, query⟩, tell, told, ask, asked, asks⟩
  · rintro ⟨d, h⟩
    exact ⟨⟨_, h.tell, rfl⟩, ⟨_, h.sentences, trivial⟩, ⟨_, h.ask, rfl⟩, ⟨_, h.query, h.asks⟩,
      List.forall_mem_nil _⟩

/-- Reading, by the lines of the stream. -/
theorem read_eq_elim (bytes : List UInt8) : read bytes =
    ofTexts <$> (lineFaults bytes).head?.elim (.ok (textsFor 1 requirements bytes)) .error := by
  have start : lines bytes = (lines bytes).drop 0 := rfl
  rw [read_eq]
  exact congrArg (ofTexts <$> ·) (readAll_eq requirements start)

theorem read_eq_error_iff {fault : DocumentError} :
    read bytes = .error fault ↔ (lineFaults bytes).head? = some fault := by
  rw [read_eq_elim]
  cases (lineFaults bytes).head? <;> simp

/-- All that is wrong is listed, but only the first of it is the error. -/
example : lineFaults "TELL \na".toUTF8.data.toList = [.missingAsk, .missingQuery] := by
  decide

theorem WrittenIn.read_eq (h : d.WrittenIn bytes) : read bytes = .ok d := by
  rw [read_eq_elim, lineFaults_eq_nil_iff.2 ⟨d, h⟩]
  simp only [textsFor, requirements, List.zipIdx_cons, List.zipIdx_nil, List.filterMap_cons, h.tell,
    h.sentences, h.ask, h.query]
  rfl

/-- The document that is read is the one that the stream starts with. -/
theorem read_eq_ok_iff : read bytes = .ok d ↔ d.WrittenIn bytes := by
  constructor
  · intro h
    cases hf : lineFaults bytes with
    | nil =>
      obtain ⟨d', written⟩ := lineFaults_eq_nil_iff.1 hf
      cases written.read_eq.symm.trans h
      exact written
    | cons fault faults =>
      rw [read_eq_error_iff.2 (congrArg List.head? hf)] at h
      cases h
  · exact WrittenIn.read_eq

/-- Only the first four lines are read. -/
theorem read_congr (h : (lines bytes).take 4 = (lines bytes').take 4) :
    read bytes = read bytes' := by
  have same : ∀ place ∈ requirements.zipIdx 1, line? place.2 bytes = line? place.2 bytes' := by
    intro place hp
    have early : place.2 < 4 + 1 := List.snd_lt_of_mem_zipIdx hp
    have at' := congrArg (·[place.2 - 1]?) h
    simpa only [line?, List.getElem?_take_of_lt (show place.2 - 1 < 4 by omega)] using at'
  have faults : lineFaults bytes = lineFaults bytes' := by
    unfold lineFaults faultsAgainst
    refine List.filterMap_congr fun place hp => ?_
    show place.1.fault? place.2 bytes = place.1.fault? place.2 bytes'
    rw [Requirement.fault?, Requirement.fault?, same place hp]
  have texts : textsFor 1 requirements bytes = textsFor 1 requirements bytes' := by
    unfold textsFor
    refine List.filterMap_congr fun place hp => ?_
    show lineText? place.2 bytes = lineText? place.2 bytes'
    rw [lineText?, lineText?, same place hp]
  rw [read_eq_elim, read_eq_elim, faults, texts]

end Document

/-! ## Loading by lines -/

namespace Session

variable {s : Session} {bytes bytes' : List UInt8} {document : Document}
  {sentences : List Sentence} {query : Sentence}

/-- The error of reading a text, if it cannot be read. -/
def parseFault? {α : Type} (read : String → Except ParseError α) (text : String) : Option Error :=
  match read text with
  | .ok _ => none
  | .error fault => some (.parse fault)

/-- What is wrong with a document: with its lines in order, with its sentences, with its query. -/
def loadFaults (bytes : List UInt8) : List Error :=
  (Document.lineFaults bytes).map .document ++
    ((Document.lineText? 2 bytes).bind (parseFault? KnowledgeBase.sentencesIn)).toList ++
    ((Document.lineText? 4 bytes).bind (parseFault? Sentence.ofText)).toList

/-- A stream starts with a document that tells the sentences and asks the query. -/
def Says (bytes : List UInt8) (sentences : List Sentence) (query : Sentence) : Prop :=
  ∃ document : Document, document.WrittenIn bytes ∧
    KnowledgeBase.sentencesIn document.sentences = .ok sentences ∧
    Sentence.ofText document.query = .ok query

theorem parseFault?_eq_none_iff {α : Type} {read : String → Except ParseError α} {text : String} :
    parseFault? read text = none ↔ ∃ a, read text = .ok a := by
  unfold parseFault?
  cases read text <;> simp

theorem loadFaults_of_writtenIn (h : document.WrittenIn bytes) : loadFaults bytes =
    (parseFault? KnowledgeBase.sentencesIn document.sentences).toList ++
      (parseFault? Sentence.ofText document.query).toList := by
  rw [loadFaults, Document.lineFaults_eq_nil_iff.2 ⟨document, h⟩, h.sentences, h.query]
  rfl

/-- Nothing is wrong with a document just if it says something. -/
theorem loadFaults_eq_nil_iff :
    loadFaults bytes = [] ↔ ∃ sentences query, Says bytes sentences query := by
  constructor
  · intro none
    have fine := none
    rw [loadFaults, List.append_eq_nil_iff, List.append_eq_nil_iff, List.map_eq_nil_iff] at fine
    obtain ⟨document, written⟩ := Document.lineFaults_eq_nil_iff.1 fine.1.1
    rw [loadFaults_of_writtenIn written, List.append_eq_nil_iff, Option.toList_eq_nil_iff,
      Option.toList_eq_nil_iff, parseFault?_eq_none_iff, parseFault?_eq_none_iff] at none
    obtain ⟨⟨sentences, told⟩, query, asked⟩ := none
    exact ⟨sentences, query, document, written, told, asked⟩
  · rintro ⟨sentences, query, document, written, told, asked⟩
    rw [loadFaults_of_writtenIn written, parseFault?_eq_none_iff.2 ⟨sentences, told⟩,
      parseFault?_eq_none_iff.2 ⟨query, asked⟩]
    rfl

/-- The result of a load is decided by the first thing that is wrong with the document. -/
theorem load_eq (canonical : s.kb.symbols.Canonical) (bytes : List UInt8) :
    (s.load bytes).1 = (loadFaults bytes).head?.elim (.ok ()) .error := by
  have steps := loaded s bytes
  generalize s.load bytes = outcome at steps ⊢
  cases steps with
  | unreadable read =>
    rw [loadFaults, List.append_assoc, List.head?_append, List.head?_map,
      Document.read_eq_error_iff.1 read]
    rfl
  | untold read told =>
    rw [KnowledgeBase.tell_result canonical] at told
    rw [loadFaults_of_writtenIn (Document.read_eq_ok_iff.1 read), parseFault?,
      map_eq_error.1 told]
    rfl
  | unasked read told asked =>
    rw [KnowledgeBase.tell_result canonical] at told
    obtain ⟨sentences, told, -⟩ := map_eq_ok.1 told
    rw [loadFaults_of_writtenIn (Document.read_eq_ok_iff.1 read),
      parseFault?_eq_none_iff.2 ⟨sentences, told⟩, parseFault?, asked]
    rfl
  | done read told asked =>
    rw [KnowledgeBase.tell_result canonical] at told
    obtain ⟨sentences, told, -⟩ := map_eq_ok.1 told
    rw [loadFaults_eq_nil_iff.2 ⟨sentences, _, _, Document.read_eq_ok_iff.1 read, told, asked⟩]
    rfl

/-- A document that says something adds its sentences and sets its query. -/
theorem load_of_says (canonical : s.kb.symbols.Canonical) (h : Says bytes sentences query) :
    (s.load bytes).2.kb.sentences = s.kb.sentences ++ sentences ∧
      (s.load bytes).2.query = some query := by
  obtain ⟨document, written, said, asked⟩ := h
  obtain ⟨later, tells, grown⟩ := KnowledgeBase.tell_eq_ok canonical said
  have steps : s.load bytes = (.ok (), { s with kb := later, query := some query }) := by
    rw [load, written.read_eq]
    simp only [tell_eq, tells]
    exact ask_of_ok asked
  rw [steps]
  exact ⟨grown, rfl⟩

/-- Only the first four lines of a stream matter. -/
theorem load_congr (s : Session)
    (h : (Document.lines bytes).take 4 = (Document.lines bytes').take 4) :
    s.load bytes = s.load bytes' := by
  rw [load, load, Document.read_congr h]

/-- What a load does, by the lines of the stream. It succeeds just if the stream starts with a
document that says something, and then what it says is told and asked. Otherwise it fails with the
first thing that is wrong with the document. No byte behind the fourth line matters. -/
theorem load_performAll (settings : Settings) (operations : List Operation) (bytes : List UInt8) :
    let s := performAll { settings } operations
    (∀ e, (s.load bytes).1 = .error e ↔ (loadFaults bytes).head? = some e) ∧
    ((s.load bytes).1 = .ok () ↔ ∃ sentences query, Says bytes sentences query) ∧
    (∀ sentences query, Says bytes sentences query →
      (s.load bytes).2.kb.sentences = s.kb.sentences ++ sentences ∧
        (s.load bytes).2.query = some query) ∧
    ∀ behind, 4 ≤ bytes.count Document.newline → s.load (bytes ++ behind) = s.load bytes := by
  intro s
  have canonical : s.kb.symbols.Canonical := by
    obtain ⟨texts, told⟩ := exists_kb_performAll { settings } operations
    rw [told]
    exact (KnowledgeBase.coherent_told texts).canonical
  refine ⟨fun e => ?_, ?_, fun sentences query => load_of_says canonical, fun behind enough => ?_⟩
  · rw [load_eq canonical]
    cases (loadFaults bytes).head? <;> simp
  · rw [load_eq canonical, ← loadFaults_eq_nil_iff, ← List.head?_eq_none_iff]
    cases (loadFaults bytes).head? <;> simp
  · exact load_congr s (Document.take_lines_append enough behind)

end Session

end Entailment
