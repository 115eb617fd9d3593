/-!
An endless row of 32-bit words for every seed text: blocks of the ChaCha permutation with eight
rounds, under a key that is drawn from a hash of the text.
-/

namespace Scenario.Stream

abbrev Block := Vector UInt32 16

def rotateLeft (x k : UInt32) : UInt32 := (x <<< k) ||| (x >>> (32 - k))

def quarterRound (b : Block) (i j k l : Fin 16) : Block :=
  let b := b.set i (b[i] + b[j])
  let b := b.set l (rotateLeft (b[l] ^^^ b[i]) 16)
  let b := b.set k (b[k] + b[l])
  let b := b.set j (rotateLeft (b[j] ^^^ b[k]) 12)
  let b := b.set i (b[i] + b[j])
  let b := b.set l (rotateLeft (b[l] ^^^ b[i]) 8)
  let b := b.set k (b[k] + b[l])
  b.set j (rotateLeft (b[j] ^^^ b[k]) 7)

/-- A round on the columns and one on the diagonals. -/
def doubleRound (b : Block) : Block :=
  let b := quarterRound b 0 4 8 12
  let b := quarterRound b 1 5 9 13
  let b := quarterRound b 2 6 10 14
  let b := quarterRound b 3 7 11 15
  let b := quarterRound b 0 5 10 15
  let b := quarterRound b 1 6 11 12
  let b := quarterRound b 2 7 8 13
  quarterRound b 3 4 9 14

/-- The hash of a text: its bytes, one after the other, by exclusive or and multiplication. -/
def hash (seed : String) : UInt64 :=
  seed.toUTF8.foldl (fun h byte => (h ^^^ byte.toUInt64) * 0x100000001b3) 0xcbf29ce484222325

def advance (s : UInt64) : UInt64 := s * 6364136223846793005 + 11634580027462260723

/-- The word that a state yields: some of its bits, rotated by others. -/
def mix (s : UInt64) : UInt32 :=
  let x := (((s >>> 18) ^^^ s) >>> 27).toUInt32
  let r := (s >>> 59).toUInt32
  (x >>> r) ||| (x <<< ((32 - r) % 32))

def key (seed : String) : List UInt32 :=
  let rec draw : Nat → UInt64 → List UInt32
    | 0, _ => []
    | n + 1, s => let s := advance s; mix s :: draw n s
  draw 8 (hash seed)

def constants : List UInt32 := [0x61707865, 0x3320646e, 0x79622d32, 0x6b206574]

def start (key : List UInt32) (number : Nat) : Block :=
  Vector.ofFn fun i =>
    (constants ++ key ++ [UInt32.ofNat number, UInt32.ofNat (number >>> 32), 0, 0]).getD i 0

def block (key : List UInt32) (number : Nat) : Block :=
  let b := start key number
  (doubleRound (doubleRound (doubleRound (doubleRound b)))).zipWith (· + ·) b

/-- Positions start again after this many words. -/
def period : Nat := 0x100000000000000000

def word (seed : String) (position : Nat) : UInt32 :=
  let position := position % period
  (block (key seed) (position / 16)).get ⟨position % 16, Nat.mod_lt _ (by decide)⟩

end Scenario.Stream
