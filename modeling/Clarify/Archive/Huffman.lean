import Clarify.Archive.Bits

/-!
# Huffman codes

A code gives each symbol a row of bits, none of which begins another one. It is written as the
lengths of the rows alone: shorter rows come first, and rows of one length follow the order of
their symbols.
-/

namespace Clarify

/-- A code as a tree: each bit chooses a side. -/
inductive Huffman where
  | unused
  | symbol (value : Nat)
  | branch (zero one : Huffman)

namespace Huffman

/-- What is found at the front of bits. -/
inductive Found where
  | symbol (value : Nat) (rest : Bits)
  /-- The bits begin no row of the code. -/
  | unused
  /-- The bits end within a row. -/
  | noBits

/-- The next symbol and the bits behind it. -/
def next : Huffman → Bits → Found
  | unused, _ => .unused
  | symbol value, s => .symbol value s
  | branch zero one, s =>
    match s.next? with
    | some (false, s) => zero.next s
    | some (true, s) => one.next s
    | none => .noBits

/-- The code with one more row of bits, unless it begins another row or is begun by one. -/
def insert? (value : Nat) : List Bool → Huffman → Option Huffman
  | [], unused => some (symbol value)
  | [], _ => none
  | _ :: _, symbol _ => none
  | false :: bits, unused => (insert? value bits unused).map fun zero => branch zero unused
  | true :: bits, unused => (insert? value bits unused).map fun one => branch unused one
  | false :: bits, branch zero one => (insert? value bits zero).map fun zero => branch zero one
  | true :: bits, branch zero one => (insert? value bits one).map fun one => branch zero one

/-- The lowest `length` bits of a number, the highest of them first. -/
def row (length number : Nat) : List Bool :=
  ((List.range length).map fun i => number.testBit i).reverse

/-- The symbols that have rows of the given length, in order. -/
def symbolsOf (lengths : List Nat) (length : Nat) : List Nat :=
  (lengths.zipIdx.filter fun (l, _) => l == length).map Prod.snd

/-- Adds the rows of all symbols of one length, numbered from `first` on. -/
def addRows? (length first : Nat) (symbols : List Nat) (code : Huffman) : Option Huffman :=
  symbols.zipIdx.foldlM (fun code (value, i) => insert? value (row length (first + i)) code) code

/-- The longest row that a code may have. -/
def maxLength : Nat := 15

/-- The code with the given lengths of rows; a symbol of length 0 has none. -/
def ofLengths? (lengths : List Nat) : Option Huffman :=
  let step (state : Nat × Huffman) (length : Nat) : Option (Nat × Huffman) := do
    let symbols := symbolsOf lengths length
    let code ← if state.1 + symbols.length ≤ Nat.pow 2 length then
      addRows? length state.1 symbols state.2 else none
    return (2 * (state.1 + symbols.length), code)
  (((List.range maxLength).map (· + 1)).foldlM step (0, unused)).map Prod.snd

/-! ## Gaps -/

/-- Whether there are no bits that begin no row. -/
def isComplete : Huffman → Bool
  | unused => false
  | symbol _ => true
  | branch zero one => zero.isComplete && one.isComplete

/-- Whether there is at most one row, and that of a single bit. -/
def isTrivial : Huffman → Bool
  | unused => true
  | branch (symbol _) unused => true
  | _ => false

end Huffman

end Clarify
