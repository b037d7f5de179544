import Premise.Failure
/-!
Scenario files. What reads the YAML in a file comes with the file. Main definition: `Source.read`, the
mapping that a file holds; an empty file holds an empty mapping.
-/
namespace Premise

/-- What stands at a path: no file, a file of bytes, or a file whose YAML document is known
already. `yaml` is the document of a text, if there is one. -/
inductive Source where
  | blocked (why : Obstacle)
  | file (content : ByteArray) (yaml : String → Option Value)
  | document (value : Value)

namespace Source

def unifyBreaks : List Char → List Char
  | '\r' :: '\n' :: rest => '\n' :: unifyBreaks rest
  | '\r' :: rest => '\n' :: unifyBreaks rest
  | c :: rest => c :: unifyBreaks rest
  | [] => []

/-- Whole numbers of too many digits cannot be read. -/
def isTooLong (n : Int) : Bool :=
  Nat.pow 10 Text.maxDigits ≤ n.natAbs

def document? (path : String) : Source → Except Failure Value
  | blocked why => .error (.scenario (.unreadable path why))
  | file content yaml =>
    match String.fromUTF8? content with
    | none => .error (.fault .undecodable)
    | some text =>
      match yaml (String.ofList (unifyBreaks text.toList)) with
      | none => .error (.scenario (.invalidYaml path))
      | some value =>
        if value.anyInt isTooLong then .error (.fault .numberTooLong) else .ok value
  | document value => .ok value

def read (path : String) (source : Source) : Except Failure Value :=
  match source.document? path with
  | .error e => .error e
  | .ok .null => .ok (.map [])
  | .ok (.map entries) => .ok (.map entries)
  | .ok value => .error (.scenario (.notMapping path value))

end Source

end Premise
