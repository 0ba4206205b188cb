import ScriptLens.Editor.Session
import ScriptLens.Proofs.Text.LineEndings

/-! # Sessions and line endings
An editor that ends its lines with a carriage return and a line feed is answered as one that ends
them with a line feed alone.
Main definitions:
* `Request.withReturns`: a request with a carriage return before every line feed of its texts.
* `Session.Matches`: two sessions that hold the same documents in the two forms.
Main statements:
* `Session.Matches.after`, `Session.Matches.answer_eq`: one request keeps sessions matched and is
  answered in the same way.
* `run_withReturns`: so is every series of requests. -/

namespace ScriptLens

/-! ## Documents -/

/-- A text with a carriage return before every line feed. -/
def withReturns (text : String) : String :=
  String.ofList (Text.withReturns text.toList)

/-- A text without carriage returns. -/
def IsPlain (text : String) : Prop :=
  '\r' ∉ text.toList

/-- Both forms of a text have the same tokens. -/
theorem tokenize_withReturns {text : String} (plain : IsPlain text) :
    tokenize (withReturns text) = tokenize text := by
  -- Only the contents of the lines are looked at.
  have asMapped (source : List Char) : readLines 1 source =
      (((Text.lines source).map Text.content).zipIdx 1).map fun numbered =>
        lineTokens numbered.2 numbered.1 := by
    unfold readLines
    rw [List.zipIdx_map, List.map_map]
    rfl
  unfold tokenize withReturns
  rw [String.toList_ofList, asMapped, asMapped, Text.map_content_lines_withReturns plain]

/-- The document of a converted text differs from that of the text in its text only. -/
theorem parse_withReturns {text : String} (plain : IsPlain text) :
    Document.parse (withReturns text) = { Document.parse text with text := withReturns text } := by
  simp only [Document.parse, tokenize_withReturns plain]

/-- Splicing converted characters into a converted text gives the converted result. -/
theorem ofList_splice_withReturns {text : String} (plain : IsPlain text) (range : Text.TextRange)
    (replacement : String) :
    String.ofList (Text.splice (withReturns text).toList range (withReturns replacement).toList) =
      withReturns (String.ofList (Text.splice text.toList range replacement.toList)) := by
  simp only [withReturns, String.toList_ofList]
  rw [Text.splice_withReturns plain]

/-- Splicing plain characters into a plain text gives a plain text. -/
theorem isPlain_splice {text replacement : String} (range : Text.TextRange) (plain : IsPlain text)
    (plainReplacement : IsPlain replacement) :
    IsPlain (String.ofList (Text.splice text.toList range replacement.toList)) := by
  unfold IsPlain
  rw [String.toList_ofList]
  exact fun found => (Text.mem_of_mem_splice found).elim plain plainReplacement

/-! ## Requests -/

/-- A change with a carriage return before every line feed of its text. -/
def Change.withReturns (change : Change) : Change :=
  { change with text := ScriptLens.withReturns change.text }

namespace Request

/-- The texts that a request brings. -/
def texts : Request → List String
  | openDocument _ text => [text]
  | changeDocument _ changes => changes.map (·.text)
  | closeDocument _ => []
  | hover _ _ => []
  | complete _ _ _ => []

/-- A request with a carriage return before every line feed of its texts. Its positions stay. -/
def withReturns : Request → Request
  | openDocument name text => openDocument name (ScriptLens.withReturns text)
  | changeDocument name changes => changeDocument name (changes.map Change.withReturns)
  | closeDocument name => closeDocument name
  | hover name position => hover name position
  | complete name position trigger => complete name position trigger

end Request

/-! ## Sessions -/

namespace Session

/-- Of two sessions the second one holds the documents of the first one with carriage returns before
their line feeds. The documents of the first one are plain. -/
structure Matches (plain marked : Session) : Prop where
  /-- Both hold documents of the same names, in the two forms. -/
  find?_eq : ∀ name, marked.find? name =
    (plain.find? name).map fun document => .parse (withReturns document.text)
  /-- The documents of the first session are those of plain texts. -/
  plain_text : ∀ name document, plain.find? name = some document →
    document = .parse document.text ∧ IsPlain document.text

/-- The document of a name after a document is stored. -/
@[simp] theorem find?_insert (session : Session) (name other : String) (document : Document) :
    find? { documents := session.documents.insert name document } other =
      if name = other then some document else session.find? other := by
  simp only [find?, Std.HashMap.getElem?_insert, beq_iff_eq]

/-- The document of a name after a document is closed. -/
@[simp] theorem find?_close (session : Session) (name other : String) :
    (session.close name).find? other = if name = other then none else session.find? other := by
  simp only [find?, close, Std.HashMap.getElem?_erase, beq_iff_eq]

/-- Sessions stay matched when a plain text and its other form are stored under one name. -/
theorem Matches.insert {plain marked : Session} (matched : Matches plain marked) (name : String)
    {text : String} (h : IsPlain text) :
    Matches { documents := plain.documents.insert name (.parse text) }
      { documents := marked.documents.insert name (.parse (withReturns text)) } := by
  refine ⟨fun other => ?_, fun other document found => ?_⟩
  · rw [find?_insert, find?_insert]
    split
    · rfl
    · exact matched.find?_eq other
  · rw [find?_insert] at found
    split at found
    · cases found
      exact ⟨rfl, h⟩
    · exact matched.plain_text other document found

/-- The text of a document that may not be open yet. -/
theorem Matches.getD {plain marked : Session} (matched : Matches plain marked) (name : String) :
    IsPlain ((plain.find? name).getD .blank).text ∧
      ((marked.find? name).getD .blank).text =
        withReturns ((plain.find? name).getD .blank).text := by
  rw [matched.find?_eq name]
  cases h : plain.find? name with
  | none => exact ⟨by simp [IsPlain, Document.blank], rfl⟩
  | some document => exact ⟨(matched.plain_text name document h).2, rfl⟩

/-- A change with a plain text keeps sessions matched. -/
theorem Matches.apply {plain marked : Session} (matched : Matches plain marked) (name : String)
    {change : Change} (h : IsPlain change.text) :
    Matches (plain.apply name change) (marked.apply name change.withReturns) := by
  obtain ⟨text, range⟩ := change
  cases range with
  | none => exact matched.insert name h
  | some range =>
    -- The text may be that of a document that was never opened; it is then blank in both sessions.
    obtain ⟨plainBefore, marked_eq⟩ := matched.getD name
    have spliced := matched.insert name (isPlain_splice range plainBefore h)
    rw [← ofList_splice_withReturns plainBefore, ← marked_eq] at spliced
    exact spliced

/-- Changes with plain texts keep sessions matched. -/
theorem Matches.foldl_apply {plain marked : Session} (matched : Matches plain marked)
    (name : String) {changes : List Change} (h : ∀ change ∈ changes, IsPlain change.text) :
    Matches (changes.foldl (·.apply name ·) plain)
      ((changes.map Change.withReturns).foldl (·.apply name ·) marked) := by
  induction changes generalizing plain marked with
  | nil => exact matched
  | cons change changes ih =>
    obtain ⟨here, later⟩ := List.forall_mem_cons.mp h
    exact ih (matched.apply name here) later

/-- A request with plain texts keeps sessions matched. -/
theorem Matches.after {plain marked : Session} (matched : Matches plain marked)
    {request : Request} (h : ∀ text ∈ request.texts, IsPlain text) :
    Matches (plain.after request) (marked.after request.withReturns) := by
  cases request with
  | openDocument name text => exact matched.insert name (h text List.mem_cons_self)
  | changeDocument name changes =>
    exact matched.foldl_apply name fun change listed => h _ (List.mem_map_of_mem listed)
  | closeDocument name =>
    refine ⟨fun other => ?_, fun other document found => ?_⟩
    · show (marked.close name).find? other = ((plain.close name).find? other).map _
      rw [find?_close, find?_close]
      split
      · rfl
      · exact matched.find?_eq other
    · change (plain.close name).find? other = some document at found
      rw [find?_close] at found
      split at found
      · cases found
      · exact matched.plain_text other document found
  | hover name position => exact matched
  | complete name position trigger => exact matched

/-- Matched sessions answer a request in the same way. -/
theorem Matches.answer_eq {plain marked : Session} (matched : Matches plain marked)
    (request : Request) : marked.answer request.withReturns = plain.answer request := by
  -- Cards and offers are made from the tokens and the outline, which both forms share.
  have shared (name : String) : marked.find? name =
      (plain.find? name).map fun document =>
        { document with text := withReturns document.text } := by
    rw [matched.find?_eq name]
    refine Option.map_congr fun document found => ?_
    obtain ⟨parsed, plainText⟩ := matched.plain_text name document found
    rw [parse_withReturns plainText, ← parsed]
  cases request with
  | openDocument name text => rfl
  | changeDocument name changes => rfl
  | closeDocument name => rfl
  | hover name position =>
    simp only [Request.withReturns, answer, shared name]
    cases plain.find? name <;> rfl
  | complete name position trigger =>
    simp only [Request.withReturns, answer, shared name]
    cases plain.find? name <;> rfl

/-- Matched sessions answer a series of requests in the same way, and stay matched. -/
theorem Matches.run {plain marked : Session} (matched : Matches plain marked)
    {requests : List Request} (h : ∀ request ∈ requests, ∀ text ∈ request.texts, IsPlain text) :
    (marked.run (requests.map Request.withReturns)).1 = (plain.run requests).1 ∧
      Matches (plain.run requests).2 (marked.run (requests.map Request.withReturns)).2 := by
  induction requests generalizing plain marked with
  | nil => exact ⟨rfl, matched⟩
  | cons request requests ih =>
    obtain ⟨here, later⟩ := List.forall_mem_cons.mp h
    obtain ⟨answers, final⟩ := ih (matched.after here) later
    refine ⟨?_, final⟩
    show marked.answer request.withReturns :: _ = plain.answer request :: _
    rw [matched.answer_eq request, answers]

/-- Sessions without documents match. -/
theorem matches_empty : Matches {} {} := by
  refine ⟨fun name => ?_, fun name document found => ?_⟩
  · simp [find?]
  · simp [find?] at found

end Session

/-- **Line endings make no difference**: a series of requests without carriage returns is answered
in the same way when a carriage return is put before every line feed of its texts, and after any
number of requests the open documents are the same ones with their texts in that other form. -/
theorem run_withReturns {requests : List Request}
    (plain : ∀ request ∈ requests, ∀ text ∈ request.texts, IsPlain text) :
    (Session.run {} (requests.map Request.withReturns)).1 = (Session.run {} requests).1 ∧
      ∀ steps name,
        ((Session.run {} ((requests.map Request.withReturns).take steps)).2.find? name).map
            (·.text) =
          ((Session.run {} (requests.take steps)).2.find? name).map
            fun document => withReturns document.text := by
  refine ⟨(Session.matches_empty.run plain).1, fun steps name => ?_⟩
  have plainSteps : ∀ request ∈ requests.take steps, ∀ text ∈ request.texts, IsPlain text :=
    fun request found => plain request (List.mem_of_mem_take found)
  have matched := (Session.matches_empty.run plainSteps).2
  rw [← List.map_take, matched.find?_eq name, Option.map_map]
  rfl

/-- A document that is opened, changed in a stretch across two lines and asked about. -/
def editing : List Request :=
  [.openDocument "main" "class A \x7b\n  public: var size;\n\x7d\nvar a A;\n",
    .changeDocument "main"
      [{ text := "length\n;", range := some { start := ⟨1, 14⟩, stop := ⟨2, 0⟩ } },
        { text := "\na.", range := some { start := ⟨9, 9⟩, stop := ⟨0, 0⟩ } }],
    .complete "main" ⟨5, 2⟩ none,
    .hover "main" ⟨1, 15⟩,
    .closeDocument "main"]

/-- The requests of `editing` have plain texts, so they are answered as with carriage returns. -/
theorem run_withReturns_editing :
    (∀ request ∈ editing, ∀ text ∈ request.texts, IsPlain text) ∧
      (Session.run {} (editing.map Request.withReturns)).1 = (Session.run {} editing).1 :=
  have plain : ∀ request ∈ editing, ∀ text ∈ request.texts, IsPlain text := by
    simp [editing, Request.texts, IsPlain]
  ⟨plain, (run_withReturns plain).1⟩

end ScriptLens
