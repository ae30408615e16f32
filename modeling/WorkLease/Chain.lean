import WorkLease.Amount
import WorkLease.Block

/-!
# The chain

Only the tip, the last block times and the last accepted blocks are held. `extend` is the one
gate through which a block becomes the tip: it compares the parent of the block with the tip,
and nothing else. The height of the new tip is one more, and where that does not fit the attempt
is broken off with nothing done. `moveTo` replaces the tip from outside, as a reorganisation does.
-/

namespace WorkLease

/-- The tip of the chain, with what the next block has to respect. -/
structure Tip where
  hash : Digest
  height : UInt64
  time : UInt32
  /-- The median of the last block times; the next block must be later. -/
  medianTimePast : UInt32
  nextBits : UInt32
  deriving DecidableEq

/-- The earliest time of the next block, or the greatest time there is. -/
def Tip.earliestTime (tip : Tip) : UInt32 :=
  if tip.medianTimePast = 0xffffffff then tip.medianTimePast else tip.medianTimePast + 1

/-- How an attempt to extend the tip ended. -/
inductive Extension where
  | extended (tip : Tip)
  /-- The tip had already moved; it is `current`. -/
  | stale (current : Tip)
  /-- The height after that of the tip does not fit, and the attempt was broken off. -/
  | overflow
  deriving DecidableEq

def keepLast {α : Type} (n : Nat) (xs : List α) : List α :=
  xs.drop (xs.length - n)

/-- The element in the middle of the sorted list, the upper one of two. -/
def medianTime (times : List UInt32) : UInt32 :=
  (times.mergeSort (· ≤ ·)).getD (times.length / 2) 0

structure Chain where
  tip : Tip
  /-- The times of the last tips, oldest first. -/
  recentTimes : List UInt32
  /-- The last blocks that extended the tip, oldest first. -/
  accepted : List Block
  /-- The compact target of every block. -/
  nextBits : UInt32

namespace Chain

/-- How many block times the median is taken over. -/
def medianSpan : Nat := 11

def acceptedHistory : Nat := 64

def advance (chain : Chain) (hash : Digest) (height : UInt64) (time : UInt32) : Chain :=
  let times := keepLast medianSpan (chain.recentTimes ++ [time])
  { chain with
    tip := ⟨hash, height, time, medianTime times, chain.nextBits⟩
    recentTimes := times }

/-- The chain whose tip is a single block. -/
def start (hash : Digest) (height : UInt64) (time nextBits : UInt32) : Chain :=
  advance ⟨⟨hash, height, time, time, nextBits⟩, [], [], nextBits⟩ hash height time

/-- Replaces the tip from outside. -/
def moveTo (chain : Chain) (hash : Digest) (height : UInt64) (time : UInt32) : Chain :=
  chain.advance hash height time

/-- Makes a block the tip if its parent is the tip. -/
def extend (chain : Chain) (block : Block) : Extension × Chain :=
  if block.header.parent = chain.tip.hash then
    match Amount.add? chain.tip.height 1 with
    | none => (.overflow, chain)
    | some height =>
      let next := chain.advance block.hash height block.header.time
      (.extended next.tip,
        { next with accepted := keepLast acceptedHistory (chain.accepted ++ [block]) })
  else
    (.stale chain.tip, chain)

end Chain

/-- A chain behind a connection that can fail. -/
structure ChainLink where
  chain : Chain
  tipDown : Bool
  extendDown : Bool
  /-- The next extension that gets through makes the tip unreadable. -/
  tipDownAfterExtend : Bool

namespace ChainLink

def sound (chain : Chain) : ChainLink := ⟨chain, false, false, false⟩

def setFaults (link : ChainLink) (tip extend tipAfterExtend : Option Bool) : ChainLink :=
  { link with
    tipDown := tip.getD link.tipDown
    extendDown := extend.getD link.extendDown
    tipDownAfterExtend := tipAfterExtend.getD link.tipDownAfterExtend }

def readTip (link : ChainLink) : Except ProtocolError Tip :=
  if link.tipDown then .error (.chainState "tip unavailable") else .ok link.chain.tip

/-- Hands a block to the chain. -/
def extend (link : ChainLink) (block : Block) : Except ProtocolError Extension × ChainLink :=
  if link.extendDown then
    (.error (.chainState "extend failed"), link)
  else
    match link.chain.extend block with
    | (.overflow, _) => (.ok .overflow, link)
    | (result, chain) =>
        (.ok result, { link with chain, tipDown := link.tipDown || link.tipDownAfterExtend })

end ChainLink

end WorkLease
