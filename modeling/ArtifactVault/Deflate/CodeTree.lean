import ArtifactVault.Deflate.Bits

/-!
Canonical codes as trees. A code is given by the length of each symbol's word: at every depth the
symbols of that length stand first, in order, and the parents of deeper nodes after them. A tree
with too many words does not exist; one with too few has dead ends.
-/
namespace ArtifactVault.Deflate

inductive Fault
  | corrupt
  | truncated
  deriving DecidableEq, Repr

inductive CodeTree
  | dead
  | leaf (symbol : Nat)
  | branch (zero one : CodeTree)
  deriving DecidableEq, Repr

namespace CodeTree

def longest : Nat := 15

def pairUp : List CodeTree → List CodeTree
  | zero :: one :: rest => branch zero one :: pairUp rest
  | [zero] => [branch zero dead]
  | [] => []

def leaves (lengths : List Nat) (length : Nat) : List CodeTree :=
  (lengths.zipIdx.filter (·.1 = length)).map fun entry => leaf entry.2

def nodes (lengths : List Nat) : Nat → List CodeTree
  | 0 => leaves lengths longest
  | height + 1 => leaves lengths (longest - (height + 1)) ++ pairUp (nodes lengths height)

def ofLengths? (lengths : List Nat) : Option CodeTree :=
  match pairUp (nodes lengths (longest - 1)) with
  | [] => some dead
  | [tree] => some tree
  | _ => none

def isComplete : CodeTree → Bool
  | dead => false
  | leaf _ => true
  | branch zero one => zero.isComplete && one.isComplete

def complete? (lengths : List Nat) : Option CodeTree :=
  (ofLengths? lengths).filter isComplete

/-- Bits of a lone word that are checked. What agrees in them and differs behind them is taken for
symbol 0. -/
def checkedBits : Nat := 10

def fill (depth : Nat) : CodeTree → CodeTree
  | dead => if depth = 0 then leaf 0 else dead
  | leaf symbol => leaf symbol
  | branch zero one => branch (zero.fill (depth - 1)) (one.fill (depth - 1))

def usable? (lengths : List Nat) : Option CodeTree := do
  let tree ← ofLengths? lengths
  if tree.isComplete then some tree
  else if (lengths.filter (· ≠ 0)).length ≤ 1 then some (tree.fill (checkedBits + 1))
  else none

def walk : CodeTree → Bits → Except Fault (Nat × Bits)
  | leaf symbol, bits => .ok (symbol, bits)
  | dead, _ => .error .corrupt
  | branch _ _, [] => .error .truncated
  | branch zero one, bit :: bits => walk (if bit then one else zero) bits

def read (tree : CodeTree) (bits : Bits) : Except Fault (Nat × Bits) :=
  if bits.isEmpty then .error .truncated else tree.walk bits

def wordsBelow (path : Bits) : CodeTree → List (Nat × Bits)
  | dead => []
  | leaf symbol => [(symbol, path)]
  | branch zero one => wordsBelow (path ++ [false]) zero ++ wordsBelow (path ++ [true]) one

def words (tree : CodeTree) : List (Nat × Bits) := wordsBelow [] tree

def word (tree : CodeTree) (symbol : Nat) : Bits := (tree.words.lookup symbol).getD []

end CodeTree

end ArtifactVault.Deflate
