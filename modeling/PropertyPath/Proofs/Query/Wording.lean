import PropertyPath.Query.Log

/-!
# What lines and messages quote

A line of the log and the message of a fault quote texts of the path, of the caller and of the
value that was found. All the rest is the same for every record or fault of one kind. It is the
`frame`, for a line from its level on, and `quoted` are the texts that stand between its parts.
-/

namespace PropertyPath

/-- Words with a text behind each of them, as long as there are texts. -/
def quoting : List String → List String → String
  | word :: words, text :: texts => word ++ text ++ quoting words texts
  | words, _ => String.join words

/-! ## Lines of the log -/

namespace LogRecord

def frame : LogRecord → List String
  | .parsed _ _ => ["DEBUG parsed `", "` into ", " segment(s)"]
  | .built _ _ =>
    ["DEBUG built accessor for `", "` with Options \x7b on_missing_intermediate: ", " \x7d"]
  | .step _ (.found _) => ["TRACE `", "` -> Found(", ")"]
  | .step _ .absent => ["TRACE `", "` -> Absent"]
  | .step _ (.mismatch _ _) => ["TRACE `", "` -> Mismatch(", ", ", ")"]
  | .passedOver _ _ => ["DEBUG `", "` is missing in `", "`, returning nothing"]

def quoted : LogRecord → List String
  | .parsed text segmentCount => [text, toString segmentCount]
  | .built text options => [text, policyText options.absence]
  | .step segment (.found typeName) => [segment.text, typeName]
  | .step segment .absent => [segment.text]
  | .step segment (.mismatch expected actual) => [segment.text, expected.phrase, actual]
  | .passedOver segment source => [segment.text, source]

/-- A line quotes what its record holds, and holds nothing else that the record does not say by
its kind. -/
theorem line_eq_quoting (record : LogRecord) :
    record.line = quoting record.frame record.quoted := by
  apply String.toList_inj.mp
  cases record with
  | parsed text segmentCount =>
    simp [line, level, message.eq_def, quoting, frame, quoted]
  | built text options =>
    simp [line, level, message.eq_def, optionsListing, Listing.fields, Listing.oneLine,
      Listing.oneLineItems, quoting, frame, quoted]
  | step segment outcome =>
    cases outcome <;> simp [line, level, message.eq_def, outcomeText, quoting, frame, quoted]
  | passedOver segment source => simp [line, level, message.eq_def, quoting, frame, quoted]

end LogRecord

/-! ## Messages of faults -/

namespace ArgumentFault

def frame : ArgumentFault → List String
  | .pathRequired => ["path is required"]
  | .dotBounded => ["path should not start nor end with a dot"]
  | .noSegments => ["a path needs at least one segment"]
  | .invalidName _ => ["`", "` is not a valid property name"]
  | .keyHasParen _ => ["key `", "` can't contain `)`"]
  | .nameNeeded _ => ["segment `", "` needs a name when it follows a plain property"]
  | .objectRequired => ["object is required"]
  | .other _ => [""]

def quoted : ArgumentFault → List String
  | .invalidName name => [name]
  | .keyHasParen key => [key]
  | .nameNeeded segment => [segment.text]
  | .other text => [text]
  | _ => []

theorem message_eq_quoting (fault : ArgumentFault) :
    fault.message = quoting fault.frame fault.quoted := by
  apply String.toList_inj.mp
  cases fault <;> simp [message.eq_def, quoting, frame, quoted]

end ArgumentFault

namespace Misfit

def frame : Misfit → List String
  | .nameExpected => ["expected name at position "]
  | .integerExpected | .integerOutOfRange => ["could not parse index as integer at position "]
  | .bracketMissing => ["missing `]` at position "]
  | .parenMissing => ["missing `)` at position "]
  | .unexpectedChar _ => ["unexpected token `", "` at position "]
  | .unexpectedToken _ => ["unexpected token ", " at position "]
  | .other _ => [""]

def quoted (position : Nat) : Misfit → List String
  | .unexpectedChar c => [c.toString, toString position]
  | .unexpectedToken token => [token, toString position]
  | .other text => [text]
  | _ => [toString position]

theorem message_eq_quoting (fault : Misfit) (position : Nat) :
    fault.message position = quoting fault.frame (fault.quoted position) := by
  apply String.toList_inj.mp
  cases fault <;> simp [message.eq_def, message.place, quoting, frame, quoted]

end Misfit

namespace TypeFault

def frame : TypeFault → List String
  | .mismatch (some _) _ _ => ["property `", "` is expected to be ", ", got `", "` instead"]
  | .mismatch none _ _ => ["value is expected to be ", ", got `", "` instead"]
  | .other _ => [""]

def quoted : TypeFault → List String
  | .mismatch name expected actual => name.toList ++ [expected.phrase, actual]
  | .other text => [text]

theorem message_eq_quoting (fault : TypeFault) :
    fault.message = quoting fault.frame fault.quoted := by
  apply String.toList_inj.mp
  rcases fault with ⟨_ | name, expected, actual⟩ | text <;>
    simp [message.eq_def, quoting, frame, quoted]

end TypeFault

namespace Fault

def frame : Fault → List String
  | .argument fault => fault.frame
  | .malformed fault _ => fault.frame
  | .noSuchProperty _ _ => ["unexpected nil value for property `", "` in path `", "`"]
  | .type fault => fault.frame

def quoted : Fault → List String
  | .argument fault => fault.quoted
  | .malformed fault position => fault.quoted position
  | .noSuchProperty segment path => [segment, path]
  | .type fault => fault.quoted

/-- A message quotes what its fault holds. -/
theorem message_eq_quoting (fault : Fault) : fault.message = quoting fault.frame fault.quoted := by
  cases fault with
  | argument fault => exact fault.message_eq_quoting
  | malformed fault position => exact fault.message_eq_quoting position
  | noSuchProperty segment path =>
    apply String.toList_inj.mp
    simp [message.eq_def, quoting, frame, quoted]
  | type fault => exact fault.message_eq_quoting

end Fault

end PropertyPath
