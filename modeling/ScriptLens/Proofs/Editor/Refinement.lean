import Mathlib.Logic.Function.Basic
import ScriptLens.Proofs.Editor.LineEndings

/-! # Sessions as maps of texts
All that a session remembers of its requests is the text of each open document. Tokens and outlines
are always those of the text, and so are all answers.
Main definitions:
* `Texts`, `Texts.after`, `Texts.answer`: the texts of the open documents, what becomes of them by a
  request, and the answer to a request that they give.
* `Session.Holds`: a session holds exactly the documents of some texts.
* `Session.FollowsTexts`: a series of requests leaves a session that its texts determine.
Main statements:
* `Session.Holds.after`, `Session.Holds.answer_eq`: one request.
* `Session.Holds.run`: a series of requests.
* `Session.find?_after_of_ne`: a request leaves the other documents alone.
* `run_eq_texts`: a session does what its texts do, whatever has led to them. -/

namespace ScriptLens

/-! ## Texts -/

/-- The document that a request is about. -/
def Request.name : Request → String
  | openDocument name _ => name
  | changeDocument name _ => name
  | closeDocument name => name
  | hover name _ => name
  | complete name _ _ => name

/-- A text after a change. -/
def Change.result (change : Change) (text : String) : String :=
  match change.range with
  | none => change.text
  | some range => String.ofList (Text.splice text.toList range change.text.toList)

/-- The texts of the open documents by name. -/
abbrev Texts := String → Option String

namespace Texts

/-- The texts before any request: no document is open. -/
def initial : Texts :=
  fun _ => none

/-- The texts after a request. A document that is not open is changed like an empty text, and a
request without changes does nothing. -/
def after (texts : Texts) : Request → Texts
  | .openDocument name text => Function.update texts name (some text)
  | .changeDocument name changes =>
    if changes.isEmpty then texts
    else
      Function.update texts name
        (some (changes.foldl (fun text change => change.result text) ((texts name).getD "")))
  | .closeDocument name => Function.update texts name none
  | .hover _ _ => texts
  | .complete _ _ _ => texts

/-- The texts after a series of requests. -/
def afterAll (texts : Texts) (requests : List Request) : Texts :=
  requests.foldl after texts

/-- The answer to a request, read off the text of its document. -/
def answer (texts : Texts) : Request → Response
  | .openDocument _ _ => .done
  | .changeDocument _ _ => .done
  | .closeDocument _ => .done
  | .hover name position =>
    .card ((texts name).bind fun text => (Document.parse text).hover? position)
  | .complete name position trigger =>
    .offers ((texts name).map fun text => (Document.parse text).complete position trigger)

/-- The answers to a series of requests. -/
def answers (texts : Texts) : List Request → List Response
  | [] => []
  | request :: requests => texts.answer request :: (texts.after request).answers requests

end Texts

/-! ## Steps -/

/-- The document that stands in for one that is not open is that of the text without characters. -/
theorem Document.blank_eq : Document.blank = .parse "" := by
  have noTokens : tokenize "" = [] := by decide
  rw [Document.parse, noTokens, Outline.ofTokens, Reader.read]
  rfl

/-- The text of a document after a change is that of the changed text. -/
theorem Document.edit_eq (document : Document) (range : Text.TextRange) (replacement : String) :
    document.edit range replacement =
      .parse (Change.result { text := replacement, range := some range } document.text) :=
  rfl

namespace Session

/-- A session holds exactly the documents of some texts, with what is read off them. -/
def Holds (session : Session) (texts : Texts) : Prop :=
  ∀ name, session.find? name = (texts name).map .parse

/-- A session before any request holds no documents. -/
theorem holds_initial : Holds {} .initial := by
  intro name
  simp [find?, Texts.initial]

/-- Storing a text gives a session the document of that text. -/
theorem Holds.insert {session : Session} {texts : Texts} (holds : session.Holds texts)
    (name text : String) :
    Holds { documents := session.documents.insert name (.parse text) }
      (Function.update texts name (some text)) := by
  intro other
  rw [find?_insert, Function.update_apply]
  by_cases same : name = other
  · rw [if_pos same, if_pos same.symm]
    rfl
  · rw [if_neg same, if_neg (Ne.symm same)]
    exact holds other

/-- The text that a change starts from. -/
theorem Holds.text_getD {session : Session} {texts : Texts} (holds : session.Holds texts)
    (name : String) :
    ((session.find? name).getD .blank).text = (texts name).getD "" := by
  rw [holds name, Document.blank_eq, Option.getD_map]
  rfl

/-- A change gives a session the document of the changed text. -/
theorem Holds.apply {session : Session} {texts : Texts} (holds : session.Holds texts)
    (name : String) (change : Change) :
    (session.apply name change).Holds
      (Function.update texts name (some (change.result ((texts name).getD "")))) := by
  obtain ⟨text, range⟩ := change
  cases range with
  | none => exact holds.insert name text
  | some range =>
    have stored := holds.insert name
      (Change.result { text, range := some range } ((texts name).getD ""))
    rw [← holds.text_getD name, ← Document.edit_eq] at stored
    rw [← holds.text_getD name]
    exact stored

/-- Changes give a session the document of the text after all of them. -/
theorem Holds.foldl_apply {session : Session} {texts : Texts} (name : String) {text : String}
    (holds : session.Holds (Function.update texts name (some text))) (changes : List Change) :
    (changes.foldl (·.apply name ·) session).Holds
      (Function.update texts name
        (some (changes.foldl (fun text change => change.result text) text))) := by
  induction changes generalizing session text with
  | nil => exact holds
  | cons change changes ih =>
    have applied := holds.apply name change
    rw [Function.update_self, Option.getD_some, Function.update_idem] at applied
    exact ih applied

/-- A request keeps a session in step with its texts. -/
theorem Holds.after {session : Session} {texts : Texts} (holds : session.Holds texts)
    (request : Request) : (session.after request).Holds (texts.after request) := by
  cases request with
  | openDocument name text => exact holds.insert name text
  | changeDocument name changes =>
    cases changes with
    | nil => exact holds
    | cons change changes =>
      -- The first change may open the document; the others find it open.
      exact (holds.apply name change).foldl_apply name changes
  | closeDocument name =>
    intro other
    show (session.close name).find? other = (Function.update texts name none other).map _
    rw [find?_close, Function.update_apply]
    by_cases same : name = other
    · rw [if_pos same, if_pos same.symm]
      rfl
    · rw [if_neg same, if_neg (Ne.symm same)]
      exact holds other
  | hover name position => exact holds
  | complete name position trigger => exact holds

/-- A session answers a request from its texts. -/
theorem Holds.answer_eq {session : Session} {texts : Texts} (holds : session.Holds texts)
    (request : Request) : session.answer request = texts.answer request := by
  cases request with
  | openDocument name text => rfl
  | changeDocument name changes => rfl
  | closeDocument name => rfl
  | hover name position =>
    rw [answer, Texts.answer, holds name]
    cases texts name <;> rfl
  | complete name position trigger =>
    rw [answer, Texts.answer, holds name]
    cases texts name <;> rfl

/-- A change leaves the other documents alone. -/
theorem find?_apply_of_ne (session : Session) {name other : String} (change : Change)
    (differs : name ≠ other) : (session.apply name change).find? other = session.find? other := by
  obtain ⟨text, range⟩ := change
  cases range with
  | none => exact (find?_insert _ _ _ _).trans (if_neg differs)
  | some range => exact (find?_insert _ _ _ _).trans (if_neg differs)

/-- A request leaves the documents that it is not about alone. -/
theorem find?_after_of_ne (session : Session) {request : Request} {other : String}
    (differs : request.name ≠ other) :
    (session.after request).find? other = session.find? other := by
  cases request with
  | openDocument name text => exact (find?_insert _ _ _ _).trans (if_neg differs)
  | changeDocument name changes =>
    change name ≠ other at differs
    show (changes.foldl (·.apply name ·) session).find? other = _
    induction changes generalizing session with
    | nil => rfl
    | cons change changes ih =>
      rw [List.foldl_cons, ih (session.apply name change),
        find?_apply_of_ne session change differs]
  | closeDocument name => exact (find?_close _ _ _).trans (if_neg differs)
  | hover name position => rfl
  | complete name position trigger => rfl

/-! ## Runs -/

/-- A series of requests keeps a session in step with its texts and is answered from them. -/
theorem Holds.run {session : Session} {texts : Texts} (holds : session.Holds texts)
    (requests : List Request) :
    (session.run requests).1 = texts.answers requests ∧
      (session.run requests).2.Holds (texts.afterAll requests) := by
  induction requests generalizing session texts with
  | nil => exact ⟨rfl, holds⟩
  | cons request requests ih =>
    obtain ⟨answers, final⟩ := ih (holds.after request)
    refine ⟨?_, final⟩
    rw [Session.run, Texts.answers, holds.answer_eq request, answers]

end Session

/-- What a request asks about a document depends on the text of that document only. -/
theorem Texts.answer_congr {texts other : Texts} {request : Request}
    (same : texts request.name = other request.name) :
    texts.answer request = other.answer request := by
  cases request with
  | openDocument name text => rfl
  | changeDocument name changes => rfl
  | closeDocument name => rfl
  | hover name position =>
    change texts name = other name at same
    rw [answer, answer, same]
  | complete name position trigger =>
    change texts name = other name at same
    rw [answer, answer, same]

/-- How a session that has got a series of requests is determined by its texts. -/
structure Session.FollowsTexts (requests : List Request) : Prop where
  /-- The requests are answered as the texts answer them. -/
  answers : (Session.run {} requests).1 = Texts.initial.answers requests
  /-- After any number of requests the session holds exactly the documents of its texts, with the tokens
  and the outline of each text. -/
  documents : ∀ steps name, (Session.run {} (requests.take steps)).2.find? name =
    (Texts.initial.afterAll (requests.take steps) name).map fun text =>
      { text, tokens := tokenize text, outline := .ofTokens (tokenize text) }
  /-- A request leaves the documents that it is not about alone. -/
  frame : ∀ (session : Session) (request : Request) (other : String), request.name ≠ other →
    (session.after request).find? other = session.find? other
  /-- Another series of requests after which a document has the same text is followed by the same
  answers about it. -/
  history : ∀ (others : List Request) (request : Request),
    Texts.initial.afterAll requests request.name = Texts.initial.afterAll others request.name →
    (Session.run {} requests).2.answer request = (Session.run {} others).2.answer request

/-- **A session is a map of texts**: it answers every series of requests as its texts do, and after
any number of requests it holds exactly the documents of its texts, with the tokens and the outline
of each text. A request leaves the documents that it is not about alone. Two series of requests after
which a document has the same text are followed by the same answers about it. -/
theorem run_eq_texts (requests : List Request) : Session.FollowsTexts requests := by
  have holds (requests : List Request) := (Session.holds_initial.run requests).2
  exact
    { answers := (Session.holds_initial.run requests).1
      documents := fun steps name => holds _ name
      frame := fun session request other differs => session.find?_after_of_ne differs
      history := by
        intro others request same
        rw [(holds requests).answer_eq, (holds others).answer_eq]
        exact Texts.answer_congr same }

/-- A document that is opened and changed in a stretch. -/
def opening : List Request :=
  [.openDocument "main" "var a;\r\nvar b;",
    .changeDocument "main" [{ text := "total", range := some { start := ⟨1, 4⟩, stop := ⟨1, 5⟩ } }],
    .changeDocument "main" [],
    .openDocument "side" "var c;"]

/-- A document that is changed without ever having been opened, and changed again. -/
def appearing : List Request :=
  [.changeDocument "main"
      [{ text := "\r\nvar total;", range := some { start := ⟨7, 3⟩, stop := ⟨0, 0⟩ } },
        { text := "var a;", range := some { start := ⟨0, 0⟩, stop := ⟨0, 9⟩ } }],
    .closeDocument "side"]

/-- Both `opening` and `appearing` leave the same text, so that hovering gives the same card. -/
theorem answer_opening_eq_appearing :
    Texts.initial.afterAll opening "main" = Texts.initial.afterAll appearing "main" ∧
      (Session.run {} opening).2.answer (.hover "main" ⟨1, 5⟩) =
        (Session.run {} appearing).2.answer (.hover "main" ⟨1, 5⟩) ∧
      (Session.run {} opening).2.find? "side" = some (.parse "var c;") ∧
      (Session.run {} appearing).2.find? "side" = none := by
  have same : Texts.initial.afterAll opening "main" = Texts.initial.afterAll appearing "main" := by
    decide +kernel
  exact ⟨same, (run_eq_texts opening).history appearing (.hover "main" ⟨1, 5⟩) same,
    (run_eq_texts opening).documents 4 "side", (run_eq_texts appearing).documents 4 "side"⟩

end ScriptLens
