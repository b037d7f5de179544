import Mathlib
import Premise.Validation
import Premise.Yaml.Reader

/-!
Files that cannot be read. Validating the scenario in a file ends in one error if there is no file, if its
text is no document, or if the document is no mapping. Bytes that are no text are left out: they end the
validation itself. All this holds whatever reads the YAML. Main statement:
`Validation.validation_answers`.
-/
namespace Premise

variable {path : String} {source : Source} {f : Failure} {limit : Option Nat}
  {yaml : String → Option Value}

namespace Source

/-- The text that the bytes of a file stand for, with every line break as a line feed. -/
def text? (content : ByteArray) : Option String :=
  (String.fromUTF8? content).map fun text => String.ofList (unifyBreaks text.toList)

theorem document?_undecodable {content : ByteArray} (undecodable : text? content = none) :
    document? path (.file content yaml) = .error (.fault .undecodable) := by
  simp only [document?, Option.map_eq_none_iff.mp undecodable]

theorem document?_decoded {content : ByteArray} {text : String} (decoded : text? content = some text) :
    document? path (.file content yaml) =
      match yaml text with
      | none => .error (.scenario (.invalidYaml path))
      | some value =>
        if value.anyInt isTooLong then .error (.fault .numberTooLong) else .ok value := by
  unfold text? at decoded
  unfold document?
  dsimp only
  revert decoded
  cases String.fromUTF8? content with
  | none =>
    intro decoded
    cases decoded
  | some raw =>
    intro decoded
    cases decoded
    rfl

/-- The bytes are no text, or the document in it has a number of too many digits. -/
def Faulty (content : ByteArray) (yaml : String → Option Value) (f : Failure) : Prop :=
  (text? content = none ∧ f = .fault .undecodable) ∨
    ∃ text value, text? content = some text ∧ yaml text = some value ∧
      value.anyInt isTooLong = true ∧ f = .fault .numberTooLong

theorem document?_error (failed : document? path source = .error f) : (∃ e, f = .scenario e) ∨
    ∃ content yaml, source = .file content yaml ∧ Faulty content yaml f := by
  cases source with
  | blocked why =>
    cases failed
    exact Or.inl ⟨_, rfl⟩
  | document value => cases failed
  | file content yaml =>
    cases decoded : text? content with
    | none =>
      rw [document?_undecodable decoded] at failed
      cases failed
      exact Or.inr ⟨content, yaml, rfl, Or.inl ⟨decoded, rfl⟩⟩
    | some text =>
      rw [document?_decoded decoded] at failed
      split at failed
      · cases failed
        exact Or.inl ⟨_, rfl⟩
      · rename_i value found
        split at failed
        · rename_i long
          cases failed
          exact Or.inr ⟨content, yaml, rfl, Or.inr ⟨text, value, decoded, found, long, rfl⟩⟩
        · cases failed

theorem read_of_failed (failed : document? path source = .error f) : read path source = .error f := by
  unfold read
  rw [failed]

/-- Reading fails with the file, or because what is in it is no mapping. -/
theorem read_error (failed : read path source = .error f) : (∃ e, f = .scenario e) ∨
    ∃ content yaml, source = .file content yaml ∧ Faulty content yaml f := by
  unfold read at failed
  split at failed
  · rename_i e loading
    cases failed
    exact document?_error loading
  · cases failed
  · cases failed
  · cases failed
    exact Or.inl ⟨_, rfl⟩

end Source

namespace Validation

/-- What is said of a scenario that cannot be read. -/
def unreadable (e : ScenarioError) : Validation :=
  error ("Failed to parse scenario file: " ++ e.message)

theorem ofSource_unreadable {e : ScenarioError} (failed : source.read path = .error (.scenario e)) :
    ofSource limit path source = .ok (unreadable e) := by
  rw [ofSource, failed]
  rfl

theorem ofSource_fault {fault : Fault} (failed : source.read path = .error (.fault fault)) :
    ofSource limit path source = .error (.fault fault) := by
  rw [ofSource, failed]

/-- Whatever stands at the path, and whatever document is read in a file, validating it gives a result: the
findings in the document, or the one error that says why there is no document. The exceptions are files
whose bytes are no text, and files that hold a number of too many digits; the former always end the
validation without a result. -/
theorem validation_answers (limit : Option Nat) (path : String) (source : Source) :
    (∀ f, ofSource limit path source = .error f →
      ∃ content yaml, source = .file content yaml ∧ Source.Faulty content yaml f) ∧
    (∀ v, ofSource limit path source = .ok v →
      (∃ document, source.read path = .ok document ∧ v = ofDocument limit document) ∨
      ∃ e, source.read path = .error (.scenario e) ∧ v = unreadable e ∧
        v.errors.length = 1 ∧ v.warnings = []) ∧
    (∀ why, source = .blocked why →
      ofSource limit path source = .ok (unreadable (.unreadable path why))) ∧
    (∀ content yaml text, source = .file content yaml → Source.text? content = some text →
      yaml text = none → ofSource limit path source = .ok (unreadable (.invalidYaml path))) ∧
    ∀ content yaml, source = .file content yaml → Source.text? content = none →
      ofSource limit path source = .error (.fault .undecodable) := by
  refine ⟨fun f failed => ?_, fun v answered => ?_, ?_, ?_, ?_⟩
  · cases read : source.read path with
    | ok document => simp [ofSource, read] at failed
    | error why =>
      rcases Source.read_error read with ⟨e, rfl⟩ | ⟨content, yaml, file, faulty⟩
      · rw [ofSource_unreadable read] at failed
        cases failed
      · have ended : ∃ fault, why = .fault fault := by
          rcases faulty with ⟨-, same⟩ | ⟨-, -, -, -, -, same⟩
          · exact ⟨_, same⟩
          · exact ⟨_, same⟩
        obtain ⟨fault, rfl⟩ := ended
        rw [ofSource_fault read] at failed
        cases failed
        exact ⟨content, yaml, file, faulty⟩
  · unfold ofSource at answered
    split at answered
    · rename_i document read
      cases answered
      exact Or.inl ⟨document, read, rfl⟩
    · rename_i e read
      cases answered
      exact Or.inr ⟨e, read, rfl, rfl, rfl⟩
    · cases answered
  · rintro why rfl
    exact ofSource_unreadable rfl
  · rintro content yaml text rfl decoded refused
    refine ofSource_unreadable (Source.read_of_failed ?_)
    rw [Source.document?_decoded decoded, refused]
  · rintro content yaml rfl undecodable
    exact ofSource_fault (Source.read_of_failed (Source.document?_undecodable undecodable))

/-- A control character, which no document may hold. -/
def bell : ByteArray := ⟨#[7]⟩

theorem unreadable_file_reported :
    ofSource none "scenario.yaml" (.blocked .absent) =
      .ok (unreadable (.unreadable "scenario.yaml" .absent)) ∧
    Source.text? bell = some "\x07" ∧ Yaml.read? "\x07" = none ∧
    ofSource none "scenario.yaml" (.file bell Yaml.read?) =
      .ok (unreadable (.invalidYaml "scenario.yaml")) := by
  have decoded : Source.text? bell = some "\x07" := by cbv
  have refused : Yaml.read? "\x07" = none := by decide
  have absent := (validation_answers none "scenario.yaml" (.blocked .absent)).2.2.1 .absent rfl
  have invalid := (validation_answers none "scenario.yaml" (.file bell Yaml.read?)).2.2.2.1
    bell Yaml.read? "\x07" rfl decoded refused
  exact ⟨absent, decoded, refused, invalid⟩

/-- The single byte is no text, and nothing is said of the file, whatever reads the YAML. -/
theorem undecodable_file_unreported : ¬ ∃ yaml v,
    ofSource Formula.standardLimit "scenario.yaml" (.file ⟨#[0xff]⟩ yaml) = .ok v := by
  have undecodable : Source.text? ⟨#[0xff]⟩ = none := by cbv
  rintro ⟨yaml, v, answered⟩
  rw [ofSource_fault (Source.read_of_failed (Source.document?_undecodable undecodable))] at answered
  cases answered

end Validation

end Premise
