import GraphReasoner.Storage.FileTree

/-!
# A file with two tables

A small database lies in one file: a table of payloads and a table that describes them, both from
text keys to bytes. The file starts with a signature that no text starts with; then each table is
written as the number of its entries and, for each entry, the key and the value with their lengths
in front. A number takes eight bytes, the least significant first.

* `GraphReasoner.Tables.toBytes`, `GraphReasoner.Tables.ofBytes?` – writing and reading the file. A
  file without contents holds two empty tables, and any other file without the signature holds none.
-/

namespace GraphReasoner

/-- Two tables from text keys to bytes. -/
structure Tables where
  payloads : Table Bytes
  index : Table Bytes

namespace Tables

/-- Both tables without entries. -/
def empty : Tables := ⟨[], []⟩

instance : Inhabited Tables := ⟨empty⟩

/-- The bytes at the beginning of every file. -/
def signature : Bytes := [0xff, 0x6b, 0x67, 0x00]

/-! ### Writing -/

/-- The number of bytes of a number. -/
def numberWidth : Nat := 8

/-- A number in so many bytes, the least significant first. -/
def writeNumber : Nat → Nat → Bytes
  | 0, _ => []
  | width + 1, n => (n % 256).toUInt8 :: writeNumber width (n / 256)

/-- Bytes with their number in front. -/
def writeBytes (bytes : Bytes) : Bytes :=
  writeNumber numberWidth bytes.length ++ bytes

/-- A table with the number of its entries in front. -/
def writeTable (t : Table Bytes) : Bytes :=
  writeNumber numberWidth t.length ++
    t.flatMap fun (key, value) => writeBytes (Bytes.ofText key) ++ writeBytes value

/-- The file of two tables. -/
def toBytes (t : Tables) : Bytes :=
  signature ++ writeTable t.payloads ++ writeTable t.index

/-! ### Reading -/

/-- The number in front, and the rest. -/
def readNumber : Nat → Bytes → Option (Nat × Bytes)
  | 0, rest => some (0, rest)
  | _ + 1, [] => none
  | width + 1, b :: rest => (readNumber width rest).map fun (n, rest) => (b.toNat + 256 * n, rest)

/-- The bytes whose number is in front, and the rest. -/
def readBytes (bytes : Bytes) : Option (Bytes × Bytes) := do
  let (n, rest) ← readNumber numberWidth bytes
  if n ≤ rest.length then some (rest.take n, rest.drop n) else none

/-- So many entries, and the rest. -/
def readEntries : Nat → Bytes → Option (Table Bytes × Bytes)
  | 0, rest => some ([], rest)
  | n + 1, bytes => do
    let (key, rest) ← readBytes bytes
    let (value, rest) ← readBytes rest
    let (entries, rest) ← readEntries n rest
    return ((← key.text?, value) :: entries, rest)

/-- The table in front, and the rest. -/
def readTable (bytes : Bytes) : Option (Table Bytes × Bytes) := do
  let (n, rest) ← readNumber numberWidth bytes
  readEntries n rest

/-- The tables of a file. -/
def ofBytes? (bytes : Bytes) : Option Tables :=
  if bytes.isEmpty then some empty
  else if bytes.take signature.length = signature then do
    let (payloads, rest) ← readTable (bytes.drop signature.length)
    let (index, rest) ← readTable rest
    if rest.isEmpty then some ⟨payloads, index⟩ else none
  else none

end Tables

end GraphReasoner
