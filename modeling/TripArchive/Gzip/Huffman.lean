import TripArchive.Gzip.Bits
import TripArchive.Number.Width

/-!
# Canonical prefix codes

A code is kept as a tree of its words. It is built from the lengths of the words alone: shorter
words come first, words of one length in the order of their symbols.
-/

namespace TripArchive.Gzip

/-- The words of a code that share a beginning. -/
inductive Tree
  /-- No word begins so. -/
  | empty
  /-- The word that ends here. -/
  | leaf (symbol : Nat)
  /-- The words that go on with a zero and with a one. -/
  | node (zero one : Tree)

namespace Tree

/-- Adds a word, given from its first bit on. -/
def insert (symbol : Nat) : List Bool → Tree → Tree
  | [], _ => .leaf symbol
  | false :: word, .node zero one => .node (insert symbol word zero) one
  | true :: word, .node zero one => .node zero (insert symbol word one)
  | false :: word, _ => .node (insert symbol word .empty) .empty
  | true :: word, _ => .node .empty (insert symbol word .empty)

/-- Follows the bits of one word down to its symbol. -/
def walk : Tree → Bits → Except Fault (Nat × Bits)
  | .empty, _ => .error .corrupt
  | .leaf symbol, s => .ok (symbol, s)
  | .node zero one, s =>
    match s.next? with
    | none => .error .truncated
    | some (false, s) => walk zero s
    | some (true, s) => walk one s

/-- The number of bits in the longest word that a code may have. -/
def longest : Nat := 15

/-- Reads one word and gives its symbol. Bits that begin no word may be cut short if fewer are left
than the longest word has. -/
def read (tree : Tree) (s : Bits) : Except Fault (Nat × Bits) :=
  match tree.walk s with
  | .error .corrupt => .error (if s.left < longest then .truncated else .corrupt)
  | result => result

/-- The `length` lowest bits of a number, the highest first. -/
def word : (length : Nat) → Nat → List Bool
  | 0, _ => []
  | length + 1, n => n.testBit length :: word length n

/-- The symbols whose word has the given length. -/
def symbolsOf (lengths : List Nat) (length : Nat) : List Nat :=
  lengths.zipIdx.filterMap fun (l, symbol) => if l = length then some symbol else none

/-- Gives the words of one length to its symbols, starting with the word `first`. -/
def insertAll (length : Nat) (first : Nat) (symbols : List Nat) (tree : Tree) : Tree :=
  symbols.zipIdx.foldl (fun tree (symbol, i) => tree.insert symbol (word length (first + i))) tree

/-- Gives out the words of the lengths from `length` on; `first` is the first free one. -/
def assign (lengths : List Nat) : (count length first : Nat) → Tree → Tree
  | 0, _, _, tree => tree
  | count + 1, length, first, tree =>
    let symbols := symbolsOf lengths length
    assign lengths count (length + 1) (2 * (first + symbols.length))
      (insertAll length first symbols tree)

/-- The tree of the words with the given lengths, from one to fifteen bits; zero stands for a
symbol without a word. -/
def ofLengths (lengths : List Nat) : Tree := assign lengths longest 1 0 (.node .empty .empty)

end Tree

/-- How much of the code space the words use, in units of a word of fifteen bits. -/
def codeSpace (lengths : List Nat) : Nat :=
  lengths.foldr (fun l room => (if l = 0 then 0 else span (Tree.longest - l)) + room) 0

/-- The code of the given lengths. The words have to use the whole code space, but where `lone` is
allowed a code of at most one word may leave some of it. -/
def Tree.ofLengths? (lone : Bool) (lengths : List Nat) : Except Fault Tree :=
  let used := (lengths.filter (· ≠ 0)).length
  if codeSpace lengths = span longest ∨ (lone ∧ used ≤ 1) then .ok (Tree.ofLengths lengths)
  else .error .corrupt

end TripArchive.Gzip
