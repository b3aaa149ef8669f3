/-!
What the digests of this library share: a message is padded to whole blocks, and its blocks are
folded into a state, one after the other. Words are read with the first byte highest.
-/
namespace ContractTwins.Digest

def chunks {α : Type} (size : Nat) (items : List α) : List (List α) :=
  match items with
  | [] => []
  | first :: rest => (first :: rest).take (size + 1) :: chunks size (rest.drop size)
termination_by items.length
decreasing_by simp only [List.length_drop, List.length_cons]; omega

def bigEndian (count n : Nat) : List UInt8 :=
  (List.range count).reverse.map fun i => UInt8.ofNat (n / Nat.pow 256 i)

def ofBigEndian (bytes : List UInt8) : Nat :=
  bytes.foldl (fun n byte => n * 256 + byte.toNat) 0

/-- The bytes that complete a message: a single one bit, zeros, and its length in bits. -/
def padding (blockSize lengthSize length : Nat) : List UInt8 :=
  let used := length + 1 + lengthSize
  0x80 :: List.replicate ((blockSize - used % blockSize) % blockSize) 0 ++
    bigEndian lengthSize (8 * length)

def words (width : Nat) (block : List UInt8) : List (BitVec width) :=
  (chunks (width / 8 - 1) block).map fun bytes => BitVec.ofNat width (ofBigEndian bytes)

def wordBytes {width : Nat} (state : List (BitVec width)) : List UInt8 :=
  state.flatMap fun word => bigEndian (width / 8) word.toNat

def chain {σ : Type} (blockSize lengthSize : Nat) (compress : σ → List UInt8 → σ) (start : σ)
    (message : List UInt8) : σ :=
  (chunks (blockSize - 1) (message ++ padding blockSize lengthSize message.length)).foldl compress
    start

def schedule {width : Nat} (next : List (BitVec width) → BitVec width) :
    Nat → List (BitVec width) → List (BitVec width)
  | 0, _ => []
  | _ + 1, [] => []
  | count + 1, first :: rest => first :: schedule next count (rest ++ [next (first :: rest)])

end ContractTwins.Digest
