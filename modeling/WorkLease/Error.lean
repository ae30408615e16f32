import WorkLease.Bytes.Hex

/-!
# Errors of the protocol

Only mistakes of the caller, failures of a collaborator and internal faults are errors; a
refused solution is an outcome. Each error is a cause; `ProtocolError.message` is the only
place that knows the wording, and `ProtocolError.code` the only one that knows the numbers.
-/

namespace WorkLease

inductive ArgumentFault where
  | digestLength (length : Nat)
  | digestHex (fault : HexError)
  | negativeTarget (bits : UInt32)
  | overflowingTarget (bits : UInt32)
  | zeroTarget (bits : UInt32)
  | notSolutionObject
  | idNotText
  | notUnsigned32 (field : String)
  | versionNotSigned32
  | flagShape
  | flagNotBool
  /-- A fault in the words of whoever found it. -/
  | stated (text : String)
  deriving DecidableEq

namespace ArgumentFault

def message : ArgumentFault → String
  | digestLength length => s!"hash must be 32 bytes, got {length}"
  | digestHex fault => s!"bad hash hex: {fault.message}"
  | negativeTarget bits => s!"negative compact target {Hex.ofNat 8 bits.toNat}"
  | overflowingTarget bits => s!"compact target {Hex.ofNat 8 bits.toNat} overflows 256 bits"
  | zeroTarget bits => s!"zero compact target {Hex.ofNat 8 bits.toNat}"
  | notSolutionObject => "expected a solution object"
  | idNotText => "id must be a string"
  | notUnsigned32 field => s!"{field} must be a 32-bit unsigned integer"
  | versionNotSigned32 => "version must be a 32-bit integer"
  | flagShape => "expected [coinbase] or \x7b\"coinbase\": bool\x7d"
  | flagNotBool => "coinbase must be a boolean"
  | stated text => text

end ArgumentFault

inductive ConfigFault where
  | zeroTimeout
  | zeroLeases
  | blockTooSmall (reserve : Nat)
  | payoutScript (fault : HexError)
  | powLimit (fault : ArgumentFault)
  /-- A fault in the words of whoever found it. -/
  | stated (text : String)
  deriving DecidableEq

/-- Why a request could not be served. -/
inductive ProtocolError where
  /-- The id was never issued, is no longer held, or does not parse. -/
  | unknownCandidate
  | invalidCoinbase
  /-- A required field of a submission is absent. -/
  | missingInput (field : String)
  | invalidArgument (fault : ArgumentFault)
  | mempool (text : String)
  | chainState (text : String)
  | templateRejected (text : String)
  /-- The test before issue did not finish in time. -/
  | validationTimeout
  | serialization (text : String)
  | invalidConfig (fault : ConfigFault)
  | internal (text : String)
  /-- A sum did not fit, and the program broke off there. The caller is left without an answer,
  and this stands in its place. -/
  | overflow
  deriving DecidableEq

/-- The wording of a fault in an argument, as a caller reads it. -/
def ArgumentFault.report (fault : ArgumentFault) : String :=
  s!"Invalid argument: {fault.message}"

def ConfigFault.message : ConfigFault → String
  | zeroTimeout => "validation_timeout_ms must be positive"
  | zeroLeases => "lease.max_leases must be positive"
  | blockTooSmall reserve => s!"block.max_block_size must exceed {reserve} bytes"
  | payoutScript fault => s!"payout_script: {fault.message}"
  | powLimit fault => s!"pow_limit_bits: {fault.report}"
  | stated text => text

namespace ProtocolError

/-- The tip has no next height. -/
def heightOverflow : ProtocolError := chainState "tip height overflow"

/-- The selected fees do not fit in 64 bits. -/
def feeOverflow : ProtocolError := mempool "fee total overflows u64"

/-- Subsidy and fees together do not fit in 64 bits. -/
def valueOverflow : ProtocolError := mempool "coinbase value overflows u64"

/-- The wording of an error, as a caller reads it. -/
def message : ProtocolError → String
  | unknownCandidate => "Block candidate ID not found"
  | invalidCoinbase => "coinbase decode failed"
  | missingInput field => s!"{field} not found"
  | invalidArgument fault => fault.report
  | mempool text => s!"Mempool error: {text}"
  | chainState text => s!"Chain state error: {text}"
  | templateRejected text => s!"Block candidate rejected: {text}"
  | validationTimeout => "Block validation timed out"
  | serialization text => s!"Serialization error: {text}"
  | invalidConfig fault => s!"Invalid configuration: {fault.message}"
  | internal text => s!"Internal error: {text}"
  | overflow => "attempt to add with overflow"

/-- The number that callers tell kinds of errors apart by. -/
def code : ProtocolError → Int
  | unknownCandidate | invalidCoinbase | missingInput _ | serialization _ => -22
  | invalidArgument _ | invalidConfig _ => -8
  | mempool _ | chainState _ | templateRejected _ | validationTimeout => -1
  | internal _ | overflow => -32603

/-- Whether the caller caused the error, so that the same request fails again. -/
def isCallerError : ProtocolError → Bool
  | unknownCandidate | invalidCoinbase | missingInput _ | invalidArgument _
  | serialization _ => true
  | _ => false

/-- Whether a fresh request may succeed. -/
def isRecoverable : ProtocolError → Bool
  | mempool _ | chainState _ | validationTimeout => true
  | _ => false

/-- Whether the error is a fault of the program. -/
def isInternal : ProtocolError → Bool
  | internal _ | overflow => true
  | _ => false

end ProtocolError

/-! ## Results in sequence -/

section Sequence

variable {ε α β : Type} {x : Except ε α} {f : α → Except ε β}

theorem bind_eq_ok_iff {b : β} : x >>= f = .ok b ↔ ∃ a, x = .ok a ∧ f a = .ok b := by
  constructor
  · intro h
    cases x with
    | error error => cases h
    | ok a => exact ⟨a, rfl, h⟩
  · rintro ⟨a, rfl, h⟩
    exact h

theorem bind_eq_error_iff {error : ε} :
    x >>= f = .error error ↔ x = .error error ∨ ∃ a, x = .ok a ∧ f a = .error error := by
  constructor
  · intro h
    cases x with
    | error first =>
      cases h
      exact .inl rfl
    | ok a => exact .inr ⟨a, rfl, h⟩
  · rintro (rfl | ⟨a, rfl, h⟩)
    · rfl
    · exact h

end Sequence

end WorkLease
