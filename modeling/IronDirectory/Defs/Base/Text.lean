import Mathlib

namespace IronDirectory.Base

abbrev Str := List Char

abbrev Bytes := List UInt8

namespace Str

def ofString (s : String) : Str := s.toList

instance : Coe String Str := ⟨ofString⟩

instance lawfulBEq : LawfulBEq Str := inferInstance

def asciiLower (s : Str) : Str := s.map Char.toLower

def asciiUpper (s : Str) : Str := s.map Char.toUpper

def eqIgnoreAsciiCase (s t : Str) : Bool := s.asciiLower == t.asciiLower

def isWhitespace (c : Char) : Bool :=
  let n := c.toNat
  (0x09 ≤ n && n ≤ 0x0D) || n == 0x20 || n == 0x85 || n == 0xA0 || n == 0x1680 ||
    (0x2000 ≤ n && n ≤ 0x200A) || n == 0x2028 || n == 0x2029 || n == 0x202F ||
    n == 0x205F || n == 0x3000

def trim (s : Str) : Str := (s.dropWhile isWhitespace).rdropWhile isWhitespace

def splitOn (s : Str) (c : Char) : List Str := List.splitOn c s

def join (sep : Char) (parts : List Str) : Str := List.intercalate [sep] parts

def stripPrefix (s pfx : Str) : Option Str :=
  if pfx.isPrefixOf s then some (s.drop pfx.length) else none

def trimEndMatches (s : Str) (c : Char) : Str := s.rdropWhile (· == c)

def replace (s : Str) (c : Char) (text : Str) : Str :=
  s.flatMap fun d => if d = c then text else [d]

def toUtf8 (s : Str) : Bytes := s.flatMap String.utf8EncodeChar

@[simp] theorem asciiLower_asciiLower (s : Str) : s.asciiLower.asciiLower = s.asciiLower := by
  simp [asciiLower, Function.comp_def]

@[simp] theorem stripPrefix_append (pfx s : Str) : stripPrefix (pfx ++ s) pfx = some s := by
  rw [stripPrefix, if_pos (by simp), List.drop_left]

theorem append_sep_inj {c : Char} {s t x y : Str} (hs : c ∉ s) (ht : c ∉ t) :
    s ++ c :: x = t ++ c :: y ↔ s = t ∧ x = y := by
  induction s generalizing t with
  | nil =>
    cases t with
    | nil => simp
    | cons b t =>
      have : c ≠ b := fun h => ht (h ▸ List.mem_cons_self)
      simp [this]
  | cons a s ih =>
    have ha : a ≠ c := fun h => hs (h ▸ List.mem_cons_self)
    cases t with
    | nil => simp [ha]
    | cons b t =>
      simp [ih (fun h => hs (List.mem_cons_of_mem _ h)) (fun h => ht (List.mem_cons_of_mem _ h)),
        and_assoc]

theorem append_sep_isPrefix {c : Char} {s t x y : Str} (hs : c ∉ s) (ht : c ∉ t) :
    s ++ c :: x <+: t ++ c :: y ↔ s = t ∧ x <+: y := by
  constructor
  · intro ⟨z, hz⟩
    rw [List.append_assoc, List.cons_append, append_sep_inj hs ht] at hz
    exact ⟨hz.1, z, hz.2⟩
  · intro ⟨h, z, hz⟩
    exact ⟨z, by simp [h, hz]⟩

end Str

namespace Utf8

/-- Progress through one encoded scalar value: how many bytes are still due,
the bits seen so far, and the range the next byte must lie in. -/
structure Partial where
  due : Nat
  acc : Nat
  lo : UInt8
  hi : UInt8

inductive Step
  | char (c : Char)
  | more (p : Partial)
  | bad

def start (b : UInt8) : Step :=
  if b < 0x80 then .char (Char.ofNat b.toNat)
  else if 0xC2 ≤ b && b ≤ 0xDF then .more ⟨1, b.toNat - 0xC0, 0x80, 0xBF⟩
  else if b == 0xE0 then .more ⟨2, 0, 0xA0, 0xBF⟩
  else if b == 0xED then .more ⟨2, 0xD, 0x80, 0x9F⟩
  else if 0xE1 ≤ b && b ≤ 0xEF then .more ⟨2, b.toNat - 0xE0, 0x80, 0xBF⟩
  else if b == 0xF0 then .more ⟨3, 0, 0x90, 0xBF⟩
  else if b == 0xF4 then .more ⟨3, 4, 0x80, 0x8F⟩
  else if 0xF1 ≤ b && b ≤ 0xF3 then .more ⟨3, b.toNat - 0xF0, 0x80, 0xBF⟩
  else .bad

def Partial.next (p : Partial) (b : UInt8) : Step :=
  if p.lo ≤ b && b ≤ p.hi then
    let acc := p.acc * 64 + (b.toNat - 0x80)
    if p.due ≤ 1 then .char (Char.ofNat acc) else .more ⟨p.due - 1, acc, 0x80, 0xBF⟩
  else .bad

def replacement : Char := Char.ofNat 0xFFFD

-- A byte that breaks a sequence ends it with one replacement character and is
-- then read again as the start of the next one.
def lossy : Option Partial → Bytes → Str
  | none, [] => []
  | some _, [] => [replacement]
  | none, b :: bs =>
    match start b with
    | .char c => c :: lossy none bs
    | .more p => lossy (some p) bs
    | .bad => replacement :: lossy none bs
  | some p, b :: bs =>
    match p.next b with
    | .char c => c :: lossy none bs
    | .more q => lossy (some q) bs
    | .bad =>
      match start b with
      | .char c => replacement :: c :: lossy none bs
      | .more q => replacement :: lossy (some q) bs
      | .bad => replacement :: replacement :: lossy none bs

def fromUtf8Lossy (bs : Bytes) : Str := lossy none bs

end Utf8

end IronDirectory.Base
