import IronDirectory.Defs.Base.Loop
import IronDirectory.Defs.Base.Regions

/-! The n-fold operation on byte strings.  An outcome is missing where the code
panics or a loop does not end in its turns. -/

namespace IronDirectory.Crypto.NFold

open Base

def gcd (a b : Nat) : Nat := if b = 0 then a else gcd b (a % b)
termination_by b
decreasing_by exact Nat.mod_lt _ (by omega)

/-- A `usize` computed as `n`: past 64 bits a build with overflow checks panics
and any other wraps. -/
def word (checked : Bool) (n : Nat) : Option Nat :=
  if n < 2 ^ 64 then some n else if checked then none else some (n % 2 ^ 64)

def div (a b : Nat) : Option Nat := if b = 0 then none else some (a / b)

def lcm (checked : Bool) (a b : Nat) : Option Nat := do
  let q ← div a (gcd a b)
  word checked (q * b)

def bitAt (buf : Bytes) (srcBit : Nat) : Option UInt8 :=
  buf[srcBit / 8]?.map fun b => (b >>> UInt8.ofNat (7 - srcBit % 8)) &&& 1

def extractBits (checked : Bool) (buf : Bytes) (startBit nbits : Nat) : Option Bytes :=
  (List.range nbits).foldlM (fun out i =>
    ((word checked (startBit + i)).bind (bitAt buf)).map fun bit =>
      out.modify (i / 8) fun b => b ||| bit <<< UInt8.ofNat (7 - i % 8))
    (List.replicate ((nbits + 7) / 8) 0)

def rotateRight (checked : Bool) (buf : Bytes) (k : Nat) : Option Bytes := do
  let totalBits ← word checked (buf.length * 8)
  if totalBits = 0 then none
  else
    let k := k % totalBits
    if k = 0 then some buf else extractBits checked (buf ++ buf) (totalBits - k) totalBits

def addLoop : List (UInt8 × UInt8) → Nat → Bytes × Nat
  | [], carry => ([], carry)
  | (x, y) :: rest, carry =>
    let sum := x.toNat + y.toNat + carry
    (UInt8.ofNat sum :: (addLoop rest (sum / 256)).1, (addLoop rest (sum / 256)).2)

def carryLoop : Bytes → Nat → Bytes × Nat
  | [], carry => ([], carry)
  | x :: rest, carry =>
    if 0 < carry then
      let sum := x.toNat + carry
      (UInt8.ofNat sum :: (carryLoop rest (sum / 256)).1, (carryLoop rest (sum / 256)).2)
    else (x :: rest, carry)

def onesComplementAdd (fuel : Nat) (a b : Bytes) : Option Bytes :=
  if b.length < a.length then none
  else
    (whileLoop (fun s => 0 < s.2) (fun s => carryLoop s.1 s.2) fuel
      (addLoop (a.zip b).reverse 0)).map fun s => s.1.reverse

def copies (checked : Bool) (input : Bytes) (numReps : Nat) : Option (Bytes × Bytes) :=
  (List.range (numReps - 1)).foldlM (fun s _ =>
    (rotateRight checked s.2 13).map fun current => (s.1 ++ current, current)) (input, input)

def chunkAt (checked : Bool) (big : Bytes) (outBytes c : Nat) : Option Bytes := do
  let start ← word checked (c * outBytes)
  let stop ← word checked ((c + 1) * outBytes)
  if start ≤ stop ∧ stop ≤ big.length then some (Bytes.slice start (stop - start) big) else none

def nFold (checked : Bool) (fuel : Nat) (input : Bytes) (outBytes : Nat) : Option Bytes :=
  if input.isEmpty then none
  else do
    let inBits ← word checked (input.length * 8)
    let outBits ← word checked (outBytes * 8)
    let lcmBits ← lcm checked inBits outBits
    let numReps ← div lcmBits inBits
    let (big, _) ← copies checked input numReps
    let numChunks ← div lcmBits outBits
    (List.range numChunks).foldlM (fun acc c => do
      let chunk ← chunkAt checked big outBytes c
      onesComplementAdd fuel acc chunk) (List.replicate outBytes 0)

end IronDirectory.Crypto.NFold
