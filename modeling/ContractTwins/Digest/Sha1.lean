import ContractTwins.Digest.Blocks

namespace ContractTwins.Digest.Sha1

abbrev Word := BitVec 32

structure State where
  a : Word
  b : Word
  c : Word
  d : Word
  e : Word

def start : State := ⟨0x67452301, 0xefcdab89, 0x98badcfe, 0x10325476, 0xc3d2e1f0⟩

def nextWord (window : List Word) : Word :=
  (window.getD 13 0 ^^^ window.getD 8 0 ^^^ window.getD 2 0 ^^^ window.getD 0 0).rotateLeft 1

def stage (round : Nat) (b c d : Word) : Word × Word :=
  if round < 20 then ((b &&& c) ||| (~~~b &&& d), 0x5a827999)
  else if round < 40 then (b ^^^ c ^^^ d, 0x6ed9eba1)
  else if round < 60 then ((b &&& c) ||| (b &&& d) ||| (c &&& d), 0x8f1bbcdc)
  else (b ^^^ c ^^^ d, 0xca62c1d6)

def turn (s : State) (scheduled : Word × Nat) : State :=
  let (mixed, constant) := stage scheduled.2 s.b s.c s.d
  ⟨s.a.rotateLeft 5 + mixed + s.e + constant + scheduled.1, s.a, s.b.rotateLeft 30, s.c, s.d⟩

def compress (s : State) (block : List UInt8) : State :=
  let t := ((schedule nextWord 80 (words 32 block)).zipIdx).foldl turn s
  ⟨s.a + t.a, s.b + t.b, s.c + t.c, s.d + t.d, s.e + t.e⟩

def digest (message : List UInt8) : List UInt8 :=
  let s := chain 64 8 compress start message
  wordBytes [s.a, s.b, s.c, s.d, s.e]

end ContractTwins.Digest.Sha1
