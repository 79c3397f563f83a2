import IronDirectory.Defs.Base.Loop
import IronDirectory.Defs.Base.Regions

namespace IronDirectory.Crypto.Md4

open Base

def f (x y z : UInt32) : UInt32 := (x &&& y) ||| (~~~x &&& z)

def g (x y z : UInt32) : UInt32 := (x &&& y) ||| (x &&& z) ||| (y &&& z)

def h (x y z : UInt32) : UInt32 := x ^^^ y ^^^ z

def rotateLeft (x : UInt32) (s : Nat) : UInt32 := ⟨x.toBitVec.rotateLeft s⟩

structure Registers where
  a : UInt32
  b : UInt32
  c : UInt32
  d : UInt32
  deriving DecidableEq

abbrev Mix := Registers → UInt32 → UInt32

def mix1 : Mix := fun r x => r.a + f r.b r.c r.d + x

def mix2 : Mix := fun r x => r.a + g r.b r.c r.d + x + 0x5A827999

def mix3 : Mix := fun r x => r.a + h r.b r.c r.d + x + 0x6ED9EBA1

def turn (mix : Mix) (x : List UInt32) (r : Registers) (k s : Nat) : Registers :=
  ⟨r.d, rotateLeft (mix r (x.getD k 0)) s, r.b, r.c⟩

def round (mix : Mix) (shifts order : List Nat) (x : List UInt32) (r : Registers) : Registers :=
  (List.range 16).foldl (fun r i => turn mix x r (order.getD i 0) (shifts.getD (i % 4) 0)) r

def round1 : List UInt32 → Registers → Registers := round mix1 [3, 7, 11, 19] (List.range 16)

def round2Order : List Nat := [0, 4, 8, 12, 1, 5, 9, 13, 2, 6, 10, 14, 3, 7, 11, 15]

def round2 : List UInt32 → Registers → Registers := round mix2 [3, 5, 9, 13] round2Order

def round3Order : List Nat := [0, 8, 4, 12, 2, 10, 6, 14, 1, 9, 5, 13, 3, 11, 7, 15]

def round3 : List UInt32 → Registers → Registers := round mix3 [3, 9, 11, 15] round3Order

def fromLeBytes (chunk : Bytes) : UInt32 := UInt32.ofNat (Bytes.ofLe chunk)

def processBlock (r : Registers) (block : Bytes) : Registers :=
  let x := (Bytes.chunksExact 4 block).map fromLeBytes
  let r' := round3 x (round2 x (round1 x r))
  ⟨r.a + r'.a, r.b + r'.b, r.c + r'.c, r.d + r'.d⟩

def initial : Registers := ⟨0x67452301, 0xefcdab89, 0x98badcfe, 0x10325476⟩

def pad (fuel : Nat) (message : Bytes) : Option Bytes :=
  (whileLoop (fun padded => padded.length % 64 != 56) (fun padded => padded ++ [0]) fuel
    (message ++ [0x80])).map (· ++ Bytes.le 8 (message.length * 8))

def output (r : Registers) : Bytes :=
  Bytes.le 4 r.a.toNat ++ Bytes.le 4 r.b.toNat ++ Bytes.le 4 r.c.toNat ++ Bytes.le 4 r.d.toNat

def md4 (fuel : Nat) (message : Bytes) : Option Bytes :=
  (pad fuel message).map fun padded =>
    output ((Bytes.chunksExact 64 padded).foldl processBlock initial)

end IronDirectory.Crypto.Md4
