import ContractTwins.Digest.Blocks

/-!
Keccak-256 as Ethereum uses it: the sponge over the permutation of 1600 bits, with the padding that
starts with a one bit.
-/
namespace ContractTwins.Digest.Keccak

/-- Twenty-five lanes. Lane `x + 5 y` stands in column `x` of row `y`. -/
abbrev State := Vector UInt64 25

def lane (s : State) (x y : Nat) : UInt64 :=
  s.get ⟨x % 5 + 5 * (y % 5), by omega⟩

def build (f : Nat → Nat → UInt64) : State :=
  Vector.ofFn fun i => f (i.val % 5) (i.val / 5)

def turnLeft (x : UInt64) (amount : Nat) : UInt64 :=
  (x <<< UInt64.ofNat amount) ||| (x >>> UInt64.ofNat ((64 - amount) % 64))

def offsets : Vector Nat 25 :=
  #v[0, 1, 62, 28, 27, 36, 44, 6, 55, 20, 3, 10, 43, 25, 39, 41, 45, 15, 21, 8, 18, 2, 61, 56, 14]

def constants : List UInt64 :=
  [0x0000000000000001, 0x0000000000008082, 0x800000000000808a, 0x8000000080008000,
   0x000000000000808b, 0x0000000080000001, 0x8000000080008081, 0x8000000000008009,
   0x000000000000008a, 0x0000000000000088, 0x0000000080008009, 0x000000008000000a,
   0x000000008000808b, 0x800000000000008b, 0x8000000000008089, 0x8000000000008003,
   0x8000000000008002, 0x8000000000000080, 0x000000000000800a, 0x800000008000000a,
   0x8000000080008081, 0x8000000000008080, 0x0000000080000001, 0x8000000080008008]

def theta (s : State) : State :=
  let parity : Vector UInt64 5 := Vector.ofFn fun x =>
    lane s x 0 ^^^ lane s x 1 ^^^ lane s x 2 ^^^ lane s x 3 ^^^ lane s x 4
  let column (x : Nat) : UInt64 := parity.get ⟨x % 5, Nat.mod_lt _ (by decide)⟩
  build fun x y => lane s x y ^^^ column (x + 4) ^^^ turnLeft (column (x + 1)) 1

def rhoPi (s : State) : State :=
  build fun x y =>
    let source := (x + 3 * y) % 5 + 5 * x
    if h : source < 25 then turnLeft s[source] offsets[source] else 0

def chi (s : State) : State :=
  build fun x y => lane s x y ^^^ (~~~lane s (x + 1) y &&& lane s (x + 2) y)

def round (s : State) (constant : UInt64) : State :=
  let t := chi (rhoPi (theta s))
  t.set 0 (t[0] ^^^ constant)

def permute (s : State) : State := constants.foldl round s

def rate : Nat := 136

/-- The lanes of a block, with the first byte lowest. -/
def lanes (block : List UInt8) : List UInt64 :=
  (chunks 7 block).map fun bytes => UInt64.ofNat (ofBigEndian bytes.reverse)

def absorb (s : State) (block : List UInt8) : State :=
  let taken := lanes block
  permute (Vector.ofFn fun i => s[i] ^^^ taken.getD i 0)

def spongePadding (length : Nat) : List UInt8 :=
  let missing := rate - length % rate
  if missing = 1 then [0x81] else 0x01 :: List.replicate (missing - 2) 0 ++ [0x80]

def digest (message : List UInt8) : List UInt8 :=
  let blocks := chunks (rate - 1) (message ++ spongePadding message.length)
  let s := blocks.foldl absorb (Vector.replicate 25 0)
  [s[0], s[1], s[2], s[3]].flatMap fun word => (bigEndian 8 word.toNat).reverse

end ContractTwins.Digest.Keccak
