import WorkLease.Error
import WorkLease.Text.Blank

/-!
# Candidate ids

An id is 128 bits, written as thirty-two lower-case hexadecimal digits in groups of 8, 4, 4, 4
and 12 with hyphens between. Reading also accepts the digits without hyphens, the groups in
braces or after `urn:uuid:`, and blanks around all of it; letters count in either case, those
of `urn:uuid:` too, because resource names start without regard to case.
-/

namespace WorkLease

structure CandidateId where
  bits : BitVec 128
  deriving DecidableEq

namespace CandidateId

/-- The id after this one; the last is followed by the first. -/
def next (id : CandidateId) : CandidateId := ⟨id.bits + 1⟩

def groupLengths : List Nat := [8, 4, 4, 4, 12]

/-- Digits in groups of the given lengths, with hyphens between. -/
def group : List Nat → List Char → List Char
  | [], _ => []
  | [n], digits => digits.take n
  | n :: ns, digits => digits.take n ++ '-' :: group ns (digits.drop n)

/-- The digits of groups of the given lengths, if hyphens stand between them. -/
def ungroup : List Nat → List Char → Option (List Char)
  | [], text => if text.isEmpty then some [] else none
  | [n], text => if text.length = n then some text else none
  | n :: ns, text =>
      match text.drop n with
      | '-' :: rest => (ungroup ns rest).map (text.take n ++ ·)
      | _ => none

def ofDigits? (digits : List Char) : Option CandidateId :=
  if digits.length = 32 then (Hex.toNat? digits).map fun n => ⟨BitVec.ofNat 128 n⟩ else none

def ofGroups? (text : List Char) : Option CandidateId :=
  (ungroup groupLengths text).bind ofDigits?

/-- What stands before the groups in the form of a resource name, in lower case. -/
def urnStart : List Char := "urn:uuid:".toList

/-- The text after the start of a resource name, whose letters may be of either case. -/
def afterUrnStart? (text : List Char) : Option (List Char) :=
  if (text.take urnStart.length).map Char.toLower = urnStart then
    some (text.drop urnStart.length)
  else none

/-- The id written in one of the four forms. -/
def ofChars? (text : List Char) : Option CandidateId :=
  if text.length = 32 then ofDigits? text
  else if text.length = 36 then ofGroups? text
  else if text.length = 38 then
    if text.head? = some '\x7b' ∧ text.getLast? = some '\x7d' then
      ofGroups? (text.drop 1).dropLast
    else none
  else if text.length = 45 then (afterUrnStart? text).bind ofGroups?
  else none

/-- Reads an id; a text that is none cannot name a candidate. -/
def ofText (text : String) : Except ProtocolError CandidateId :=
  match ofChars? (Text.trimChars text.toList) with
  | some id => .ok id
  | none => .error .unknownCandidate

/-- The id in groups of lower-case digits. -/
def toText (id : CandidateId) : String :=
  String.ofList (group groupLengths (Hex.digitsOfNat 32 id.bits.toNat))

end CandidateId

end WorkLease
