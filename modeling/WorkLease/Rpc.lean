import WorkLease.WorkUnit
import WorkLease.Node.Issue
import WorkLease.Node.Submit

/-!
# Remote calls

Two methods: one issues a candidate and answers with its view, the other takes a solution and
answers `true` or the reason of the refusal. The fields of a solution are those of an object,
which may stand alone or first in an array; what else is given is passed over. The first bad
field, in the order id, coinbase, version, nonce, time, is the error.
-/

namespace WorkLease

open Json

namespace Submission

/-- An optional unsigned 32-bit field of a solution. -/
def optionalUInt32 (name : String) (value : Option Json) :
    Except ProtocolError (Option UInt32) :=
  match optional uint32? value with
  | some result => .ok result
  | none => .error (.invalidArgument (.notUnsigned32 name))

/-- The fields of a solution, whether sent by name or by position. -/
def fieldsOf? : Json → Option (List (String × Json))
  | .object fields => some fields
  | .array (.object fields :: _) => some fields
  | _ => none

/-- Reads the id, which must be there. -/
def readId : Option Json → Except ProtocolError String
  | none | some .null => .error (.missingInput "id")
  | some (.text id) => .ok id
  | some _ => .error (.invalidArgument .idNotText)

/-- Reads the coinbase; what is no text is no coinbase. -/
def readCoinbase (value : Option Json) : Except ProtocolError (Option String) :=
  match optional text? value with
  | some result => .ok result
  | none => .error .invalidCoinbase

def readVersion (value : Option Json) : Except ProtocolError (Option Int32) :=
  match optional int32? value with
  | some result => .ok result
  | none => .error (.invalidArgument .versionNotSigned32)

/-- Reads the parameters of a solution. A missing nonce is no mistake yet, so that an unknown
id is reported first. -/
def ofParams (params : Json) : Except ProtocolError Submission :=
  match fieldsOf? params with
  | none => .error (.invalidArgument .notSolutionObject)
  | some fields => do
      let id ← readId (fields.lookup "id")
      let coinbase ← readCoinbase (fields.lookup "coinbase")
      let version ← readVersion (fields.lookup "version")
      let nonce ← optionalUInt32 "nonce" (fields.lookup "nonce")
      let time ← optionalUInt32 "time" (fields.lookup "time")
      return ⟨id, nonce, coinbase, time, version⟩

end Submission

namespace Rpc

/-- What a remote caller receives in place of a result. -/
structure Fault where
  code : Int
  message : String
  deriving DecidableEq

namespace Fault

/-- An error of the protocol as a remote caller receives it. -/
def ofError (error : ProtocolError) : Fault := ⟨error.code, error.message⟩

def methodNotFound (method : String) : Fault := ⟨-32601, s!"Method not found: {method}"⟩

def text (fault : Fault) : String := s!"RPC Error {fault.code}: {fault.message}"

end Fault

/-- The answer to an outcome: `true`, or the reason of the refusal. -/
def outcomeToJson (outcome : Outcome) : Json :=
  match outcome.reason with
  | none => .bool true
  | some reason => .text reason

/-- The flag of a request for a candidate, wherever it may stand. -/
def flagOf : Json → Except ProtocolError (Option Json)
  | .null => .ok none
  | .bool flag => .ok (some (.bool flag))
  | .array items => .ok items.head?
  | .object fields => .ok (fields.lookup "coinbase")
  | _ => .error (.invalidArgument .flagShape)

/-- Whether a request for a candidate asks for a coinbase. -/
def wantsCoinbase (params : Json) : Except ProtocolError Bool := do
  match ← flagOf params with
  | none | some .null => return false
  | some (.bool flag) => return flag
  | some _ => .error (.invalidArgument .flagNotBool)

def handle (node : Node) (method : String) (params : Json) (drawn : CandidateId) (now : Instant) :
    Except Fault Json × Node :=
  if method = "getminingcandidate" then
    match wantsCoinbase params with
    | .error error => (.error (Fault.ofError error), node)
    | .ok withCoinbase =>
        match node.issue withCoinbase drawn now with
        | (.ok candidate, node) => (.ok (WorkUnit.ofCandidate candidate).toJson, node)
        | (.error error, node) => (.error (Fault.ofError error), node)
  else if method = "submitminingsolution" then
    match Submission.ofParams params with
    | .error error => (.error (Fault.ofError error), node)
    | .ok submission =>
        match node.submit submission with
        | (.ok outcome, node) => (.ok (outcomeToJson outcome), node)
        | (.error error, node) => (.error (Fault.ofError error), node)
  else (.error (Fault.methodNotFound method), node)

end Rpc

end WorkLease
