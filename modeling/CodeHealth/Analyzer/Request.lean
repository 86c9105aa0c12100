import CodeHealth.Analyzer.Basic
import CodeHealth.Json.Parser
import CodeHealth.Json.Printer
import CodeHealth.Text.Encoding

/-!
# Requests

A request is a JSON object whose member `code` is the source. Other members mean nothing. It is
answered with the payload of the profile, with a refusal if the request is malformed, or with the
failure that ended the analysis; in the last two cases the answer holds nothing but a message. The
diagnostics count each of the three.

A configuration may limit the number of characters of a source. A limit that is no number ends the
request itself, since it can neither be kept nor reported to the one who made the request. So does a
limit that is not kept and has more digits than the report may show, and a number in the text of the
body with more digits than are read.
-/

namespace CodeHealth

inductive RequestBody where
  /-- A value. A text among these is the text of a JSON value. -/
  | value (v : Value)
  /-- The bytes of the text of a JSON value. -/
  | bytes (b : Bytes)

namespace RequestBody

def decode : RequestBody → Except Json.Defect Value
  | .value (.text s) => Value.ofJson s.toList
  | .value v => .ok v
  | .bytes b => Json.expect b.jsonText? >>= Value.ofJson

end RequestBody

inductive Response where
  | accepted (payload : Profile.Payload)
  | refused (p : Problem)
  | failed (p : Problem)

namespace Response

def status : Response → Value
  | .accepted _ => .int 200
  | .refused p | .failed p => p.status

end Response

namespace Problem

def toValue (p : Problem) : Value :=
  .object [("error", p.message)]

end Problem

namespace Response

def toValue : Response → Value
  | .accepted payload => payload.toValue
  | .refused p | .failed p => p.toValue

end Response

namespace Analyzer

def tooLongMessage (limit : String) : String :=
  "Invalid input: code exceeds " ++ limit ++ " characters"

/-- Refuses a source that is longer than the limit. A limit that counts as false is none. -/
def checkLength (a : Analyzer) (code : String) : Except Failure Unit := do
  let limit := a.config.performance.maxInputChars
  if limit.truthy then
    if ← (Value.nat code.length).gt limit then
      let message := tooLongMessage (← limit.shown)
      throw <| .problem <| .invalidRequest (.text message) (some [("length", .nat code.length)])

/-- The source in the body of a request. -/
def parseRequest (a : Analyzer) (body : RequestBody) : Except Failure String := do
  match body.decode with
  | .error (.tooLong digits) => throw (.fault (.tooLongToRead digits))
  | .ok (.object members) =>
    match Entries.get? "code" members with
    | some (.text code) =>
      a.checkLength code
      return code
    | _ => throw (.problem .invalidRequest)
  | _ => throw (.problem (.invalidRequest (.text Problem.bodyNotObject)))

/-- Whether a failure says that a request is malformed. -/
def isRefusal : Failure → Option Problem
  | .problem p => if p.category = .validation then some p else none
  | _ => none

/-- Answers a request, and records how many milliseconds the analysis took. -/
def handleRequest (a : Analyzer) (d : Diagnostics) (body : RequestBody)
    (elapsed : Value := .int 0) : Step Response :=
  match a.parseRequest body with
  | .error e =>
    match isRefusal e with
    | some p => (.ok (.refused p), d.add .refused 1)
    | none => (.error e, d)
  | .ok code =>
    let (profile, d) := a.analyze d (.text code.toList) .null elapsed
    match (do Fault.lift (← profile).payload : Except Failure Profile.Payload) with
    | .ok payload => (.ok (.accepted payload), d.add .accepted 1)
    | .error e => (.ok (.failed e.toProblem), d.add .failed 1)

end Analyzer

end CodeHealth
