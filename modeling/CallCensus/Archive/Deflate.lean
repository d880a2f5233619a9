import CallCensus.Bytes

namespace CallCensus.Deflate

structure Progress where
  -- The bits left of a byte that is read in part, and the bytes after it.
  pending : List Bool
  rest : List UInt8
  -- What the bits before stand for.
  out : Array UInt8

inductive Halt where
  | cutShort
  | corrupt
  deriving DecidableEq, Repr

-- A read from the bits. What was read before it stops is kept.
abbrev Reading := ExceptT Halt (StateM Progress)

-- The next bit. The bits of a byte come from the lowest to the highest.
def bit : Reading Bool := fun progress =>
  match progress with
  | ⟨first :: pending, rest, out⟩ => (.ok first, ⟨pending, rest, out⟩)
  | ⟨[], [], out⟩ => (.error .cutShort, ⟨[], [], out⟩)
  | ⟨[], byte :: rest, out⟩ =>
    (.ok (byte.toNat.testBit 0),
      ⟨(List.range 7).map fun i => byte.toNat.testBit (i + 1), rest, out⟩)

def number : (width : Nat) → Reading Nat
  | 0 => pure 0
  | width + 1 => do
    let low ← bit
    return low.toNat + 2 * (← number width)

def wholeBytes : Reading Unit := modify fun progress => { progress with pending := [] }

def emit (change : Array UInt8 → Array UInt8) : Reading Unit :=
  modify fun progress => { progress with out := change progress.out }

def verbatim (count : Nat) : Reading Unit := fun progress =>
  let front := progress.rest.take count
  (if front.length = count then .ok () else .error .cutShort,
    { progress with rest := progress.rest.drop count, out := progress.out ++ front })

-- A code: how many symbols have codes of one bit, of two bits and so on up to the longest, and the
-- symbols by the length of their codes and then by size. Codes of one length are consecutive
-- numbers, and follow the shorter ones.
structure Code where
  counts : List Nat
  symbols : Array Nat
  deriving DecidableEq, Repr

def Code.ofLengths (lengths : List Nat) : Code :=
  let sizes := (List.range (lengths.foldr max 1)).map (· + 1)
  let numbered := lengths.zipIdx
  let symbols := sizes.flatMap fun size =>
    (numbered.filter fun (length, _) => length = size).map fun (_, symbol) => symbol
  ⟨sizes.map fun size => lengths.count size, symbols.toArray⟩

-- How many sequences of so many bits as the longest code has begin with a code.
def Code.share (code : Code) : Nat := code.counts.foldl (fun share count => 2 * share + count) 0

-- Whether the codes use up all sequences of bits, and none of them twice.
def Code.isComplete (code : Code) : Bool := code.share = 1 <<< code.counts.length

def Code.isEmpty (code : Code) : Bool := code.counts = [0]

def Code.isSingle (code : Code) : Bool := code.counts = [1]

-- The next symbol. `first` is the least code of the current length, `index` the number of symbols
-- with shorter ones, and `prior` the bits read so far.
def symbolFrom (symbols : Array Nat) : (counts : List Nat) → (prior first index : Nat) →
    Reading Nat
  | [], _, _, _ => throw .corrupt
  | count :: counts, prior, first, index => do
    let code := 2 * prior + (← bit).toNat
    if code < first + count then
      match symbols[index + (code - first)]? with
      | some symbol => return symbol
      | none => throw .corrupt
    else symbolFrom symbols counts code (2 * (first + count)) (index + count)

def symbol (code : Code) : Reading Nat := symbolFrom code.symbols code.counts 0 0 0

-- The least length of a copy for each of its symbols, and the number of bits added to it.
def copyLengths : Array (Nat × Nat) :=
  #[(3, 0), (4, 0), (5, 0), (6, 0), (7, 0), (8, 0), (9, 0), (10, 0), (11, 1), (13, 1), (15, 1),
    (17, 1), (19, 2), (23, 2), (27, 2), (31, 2), (35, 3), (43, 3), (51, 3), (59, 3), (67, 4),
    (83, 4), (99, 4), (115, 4), (131, 5), (163, 5), (195, 5), (227, 5), (258, 0)]

def copyDistances : Array (Nat × Nat) :=
  #[(1, 0), (2, 0), (3, 0), (4, 0), (5, 1), (7, 1), (9, 2), (13, 2), (17, 3), (25, 3), (33, 4),
    (49, 4), (65, 5), (97, 5), (129, 6), (193, 6), (257, 7), (385, 7), (513, 8), (769, 8),
    (1025, 9), (1537, 9), (2049, 10), (3073, 10), (4097, 11), (6145, 11), (8193, 12),
    (12289, 12), (16385, 13), (24577, 13)]

def tabled (table : Array (Nat × Nat)) (symbol : Nat) : Reading Nat := do
  match table[symbol]? with
  | some (least, width) => return least + (← number width)
  | none => throw .corrupt

-- Repeats `length` bytes from `distance` bytes back, among them those that it adds.
def copyBack (distance : Nat) : (length : Nat) → Array UInt8 → Array UInt8
  | 0, out => out
  | length + 1, out =>
    copyBack distance length (out.push (out.getD (out.size - distance) 0))

def copy (distances : Code) (lengthSymbol : Nat) : Reading Unit := do
  let length ← tabled copyLengths lengthSymbol
  let distance ← tabled copyDistances (← symbol distances)
  if distance ≤ (← get).out.size then emit (copyBack distance length) else throw .corrupt

def endOfBlock : Nat := 256

-- The symbols of a block. Each takes at least one bit, which bounds their number.
def symbols (literals distances : Code) : (fuel : Nat) → Reading Unit
  | 0 => throw .cutShort
  | fuel + 1 => do
    let next ← symbol literals
    if next < endOfBlock then
      emit fun out => out.push next.toUInt8
      symbols literals distances fuel
    else if next = endOfBlock then return
    else
      copy distances (next - endOfBlock - 1)
      symbols literals distances fuel

def fixedLiterals : Code :=
  Code.ofLengths
    (List.replicate 144 8 ++ List.replicate 112 9 ++ List.replicate 24 7 ++ List.replicate 8 8)

def fixedDistances : Code := Code.ofLengths (List.replicate 32 5)

def lengthOrder : List Nat := [16, 17, 18, 0, 8, 7, 9, 6, 10, 5, 11, 4, 12, 3, 13, 2, 14, 1, 15]

def lengthRun (code : Code) (last : Option Nat) : Reading (List Nat) := do
  let next ← symbol code
  if next < 16 then return [next]
  else if next = 16 then
    let count := 3 + (← number 2)
    match last with
    | some length => return List.replicate count length
    | none => throw .corrupt
  else if next = 17 then return List.replicate (3 + (← number 3)) 0
  else return List.replicate (11 + (← number 7)) 0

-- Exactly `count` lengths, of which the last stand first in `done`. A run adds at least one.
def lengthRuns (code : Code) (count : Nat) : (fuel : Nat) → List Nat → Reading (List Nat)
  | 0, done => if done.length = count then return done.reverse else throw .corrupt
  | fuel + 1, done =>
    if done.length = count then return done.reverse
    else if count < done.length then throw .corrupt
    else do
      let run ← lengthRun code done.head?
      lengthRuns code count fuel (run.reverse ++ done)

def threeBits : (count : Nat) → Reading (List Nat)
  | 0 => pure []
  | count + 1 => do
    let first ← number 3
    return first :: (← threeBits count)

-- The code for lengths. It is complete, or each bit stands for a length of zero.
def lengthCode (lengths : List Nat) : Reading Code :=
  let code := Code.ofLengths lengths
  if code.isEmpty then return ⟨[2], #[0, 0]⟩
  else if code.isComplete then return code
  else throw .corrupt

-- A code for the symbols of a block. It is complete, or has at most one symbol.
def symbolCode (lengths : List Nat) : Reading Code :=
  let code := Code.ofLengths lengths
  if code.isComplete || code.isEmpty || code.isSingle then return code else throw .corrupt

-- The codes of a block that says which codes it uses. The end of the block has to have one.
def writtenCodes : Reading (Code × Code) := do
  let literals := 257 + (← number 5)
  let distances := 1 + (← number 5)
  let given := 4 + (← number 4)
  if literals > 286 ∨ distances > 30 then throw .corrupt
  let lengths := lengthOrder.zip (← threeBits given)
  let code ← lengthCode ((List.range 19).map fun symbol => (lengths.lookup symbol).getD 0)
  let all ← lengthRuns code (literals + distances) (literals + distances) []
  if all[endOfBlock]? = some 0 then throw .corrupt
  return (← symbolCode (all.take literals), ← symbolCode (all.drop literals))

def storedBlock : Reading Unit := do
  wholeBytes
  let size ← number 16
  let inverse ← number 16
  if size + inverse = 0xFFFF then verbatim size else throw .corrupt

def block (fuel : Nat) : Reading Unit := do
  match ← number 2 with
  | 0 => storedBlock
  | 1 => symbols fixedLiterals fixedDistances fuel
  | 2 =>
    let (literals, distances) ← writtenCodes
    symbols literals distances fuel
  | _ => throw .corrupt

def blocks (total : Nat) : (fuel : Nat) → Reading Unit
  | 0 => throw .cutShort
  | fuel + 1 => do
    let last ← bit
    block total
    if last then return else blocks total fuel

-- What the data stands for, unless it is corrupt. Bytes after the last block are not looked at. Data
-- that is cut short stands for what its beginning does; a checksum tells whether that is all.
def inflate? (data : List UInt8) : Option (List UInt8) :=
  let total := 8 * data.length + 1
  match (blocks total total).run.run ⟨[], data, #[]⟩ with
  | (.error .corrupt, _) => none
  | (_, progress) => some progress.out.toList

end CallCensus.Deflate
