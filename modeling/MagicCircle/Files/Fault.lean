/-!
# Faults of reading a file
-/

namespace MagicCircle.Files

inductive FileFault
  | missing
  | nulInName
  | nameTooLong
  | notAFolder
  | isAFolder
  | notUtf8
  | other (text : String)
  deriving DecidableEq, Repr

def FileFault.text : FileFault → String
  | missing => "No such file or directory (os error 2)"
  | nulInName => "file name contained an unexpected NUL byte"
  | nameTooLong => "File name too long (os error 36)"
  | notAFolder => "Not a directory (os error 20)"
  | isAFolder => "Is a directory (os error 21)"
  | notUtf8 => "stream did not contain valid UTF-8"
  | other text => text

/-- What reading gave, as text. -/
def asText (content : Except FileFault ByteArray) : Except FileFault String :=
  match content with
  | .error cause => .error cause
  | .ok bytes =>
    match String.fromUTF8? bytes with
    | none => .error .notUtf8
    | some text => .ok text

theorem asText_eq_ok_iff {content : Except FileFault ByteArray} {text : String} :
    asText content = .ok text ↔ ∃ bytes, content = .ok bytes ∧ String.fromUTF8? bytes = some text := by
  unfold asText
  rcases content with cause | bytes
  · simp
  · rcases h : String.fromUTF8? bytes with _ | text' <;> simp [h]

theorem asText_eq_error {content : Except FileFault ByteArray} {cause : FileFault}
    (h : asText content = .error cause) : content = .error cause ∨ cause = .notUtf8 := by
  unfold asText at h
  split at h
  · cases h
    exact .inl rfl
  · split at h <;> cases h
    exact .inr rfl

end MagicCircle.Files
