import WorkLease.BlockRules
import WorkLease.Chain
import WorkLease.Config

/-!
# Block validators

A node asks a block validator about every template before it is issued, where its depth demands
it, and about every solved block before the tip is extended. A validator takes its time, may
fail, and the tip may move while it works. `byRules` is the validator that knows the rules
of the block alone; the others behave in one particular way and are made from it.
-/

namespace WorkLease

/-- When a block is handed to the validator. -/
inductive Stage where
  /-- Before a template is issued; the block is not solved. -/
  | template
  /-- Before a solved block extends the tip. -/
  | submission
  deriving DecidableEq

inductive Verdict where
  | valid
  | invalid (reason : String)
  deriving DecidableEq

structure TipMove where
  hash : Digest
  height : UInt64
  time : UInt32

/-- One answer of a validator. -/
structure ValidatorReply where
  verdict : Except ProtocolError Verdict
  elapsedMillis : Nat := 0
  /-- How the tip was moved meanwhile. -/
  tipMoves : List TipMove := []

abbrev Validator := Stage → ValidationDepth → Block → ValidatorReply

/-- The rule that a transaction beside the coinbase breaks by lacking inputs or outputs. -/
def Transaction.emptinessReason? (tx : Transaction) : Option String :=
  if tx.inputs.isEmpty then some "bad-txns-vin-empty"
  else if tx.outputs.isEmpty then some "bad-txns-vout-empty"
  else none

namespace Validator

/-- The verdict by the rules that need nothing but the block; at full depth also every
transaction beside the coinbase must have inputs and outputs. -/
def rulesVerdict (depth : ValidationDepth) (block : Block) : Verdict :=
  match BlockRules.standalone block with
  | .error violation => .invalid violation.reason
  | .ok () =>
      match depth with
      | .fast => .valid
      | .full =>
          match block.transactions.tail.findSome? Transaction.emptinessReason? with
          | some reason => .invalid reason
          | none => .valid

/-- Answers by the rules of the block alone. -/
def byRules : Validator := fun _ depth block =>
  { verdict := .ok (rulesVerdict depth block) }

def rejecting (reason : String) : Validator := fun _ _ _ =>
  { verdict := .ok (.invalid reason) }

def failing (error : ProtocolError) : Validator := fun _ _ _ =>
  { verdict := .error error }

/-- Answers as `validator` does, but later. -/
def delayed (millis : Nat) (validator : Validator) : Validator :=
  fun stage depth block =>
    let reply := validator stage depth block
    { reply with elapsedMillis := millis + reply.elapsedMillis }

/-- Answers as `validator` does after the tip has moved. -/
def racing (move : TipMove) (validator : Validator) : Validator :=
  fun stage depth block =>
    let reply := validator stage depth block
    { reply with tipMoves := move :: reply.tipMoves }

/-- Answers as `validator` does at one stage, and by the rules at the other. -/
def onlyAt (stage : Stage) (validator : Validator) : Validator :=
  fun asked depth block =>
    if asked = stage then validator asked depth block else byRules asked depth block

end Validator

end WorkLease
