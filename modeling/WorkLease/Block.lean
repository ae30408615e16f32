import WorkLease.Transaction.Encoding

/-!
# Blocks

A header of 80 bytes commits to its parent, to the identifiers of the transactions and to the
work; its double hash is the identity of the block. The coinbase stands first.
-/

namespace WorkLease

structure Header where
  version : Int32
  parent : Digest
  merkleRoot : Digest
  time : UInt32
  bits : UInt32
  nonce : UInt32
  deriving DecidableEq

namespace Header

def size : Nat := 80

/-- The wire form of a header. -/
def encode (header : Header) : Bytes :=
  Bytes.ofNatLE 4 header.version.toUInt32.toNat ++ header.parent.bytes ++
    header.merkleRoot.bytes ++ Bytes.ofNatLE 4 header.time.toNat ++
    Bytes.ofNatLE 4 header.bits.toNat ++ Bytes.ofNatLE 4 header.nonce.toNat

/-- The identity of a block, which is also its proof of work. -/
def hash (header : Header) : Digest :=
  Sha256.double header.encode

@[simp] theorem length_encode (header : Header) : header.encode.length = size := by
  simp [encode, size, Digest.size_eq]

end Header

/-- A header and its transactions, the coinbase first. -/
structure Block where
  header : Header
  transactions : List Transaction
  deriving DecidableEq

namespace Block

def hash (block : Block) : Digest :=
  block.header.hash

def coinbase? (block : Block) : Option Transaction :=
  block.transactions.head?

def txids (block : Block) : List Digest :=
  block.transactions.map Transaction.txid

/-- The number of bytes of the wire form. -/
def size (block : Block) : Nat :=
  Header.size + CompactSize.width block.transactions.length +
    block.transactions.foldr (·.size + ·) 0

end Block

end WorkLease
