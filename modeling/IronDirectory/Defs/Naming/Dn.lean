import Mathlib.Data.List.Sort
import IronDirectory.Defs.Base.Numeral

/-! Distinguished names: the string form, its parser, and the normalised form
that equality and storage keys use. -/

namespace IronDirectory.Naming

open Base

inductive DnFault
  | emptyRdn
  | noEquals (ava : Str)
  | emptyAttributeType
  | notUnderTreeRoot
  deriving DecidableEq

inductive PartitionError
  | invalidDn (input : Str) (reason : DnFault)
  | invalidId (id : Str)
  | invalidForestId (id : Str)
  | unknownPartition (id : Str)
  | noOwningPartition (dn : Str)
  | duplicateId (id : Str)
  deriving DecidableEq

/-- One attribute-value assertion.  The folded value the source stores beside
`value` is a function of it, so it is `normValue` here. -/
structure Ava where
  attr : Str
  value : Str
  deriving DecidableEq

def Ava.normValue (a : Ava) : Str := a.value.trim.asciiLower

def Ava.norm (a : Ava) : Str × Str := (a.attr, a.normValue)

def Ava.le (a b : Ava) : Bool :=
  a.attr < b.attr || (a.attr == b.attr && a.normValue ≤ b.normValue)

structure Rdn where
  avas : List Ava
  deriving DecidableEq

def Rdn.norm (r : Rdn) : List (Str × Str) := r.avas.map Ava.norm

def Rdn.normalizedString (r : Rdn) : Str :=
  Str.join '+' (r.avas.map fun a => a.attr ++ '=' :: a.normValue)

structure Dn where
  rdns : List Rdn
  deriving DecidableEq, Inhabited

def Dn.norm (d : Dn) : List (List (Str × Str)) := d.rdns.map Rdn.norm

/-- `PartialEq for Dn`: attribute types and folded values agree. -/
def Dn.Same (d e : Dn) : Prop := d.norm = e.norm

instance (d e : Dn) : Decidable (d.Same e) := inferInstanceAs (Decidable (d.norm = e.norm))

@[refl] theorem Dn.Same.refl (d : Dn) : d.Same d := rfl

theorem Dn.Same.symm {d e : Dn} (h : d.Same e) : e.Same d := Eq.symm h

theorem Dn.Same.trans {d e f : Dn} (h : d.Same e) (h' : e.Same f) : d.Same f := Eq.trans h h'

def isSpecial (c : Char) : Bool :=
  c == '\\' || c == ',' || c == '+' || c == '=' || c == '<' || c == '>' || c == '#' ||
    c == ';' || c == '"'

def escapeChar (edge : Bool) (c : Char) : Str :=
  if isSpecial c || (c == ' ' && edge) then ['\\', c] else [c]

def escapeFrom (first : Bool) : Str → Str
  | [] => []
  | c :: cs => escapeChar (first || cs.isEmpty) c ++ escapeFrom false cs

def escapeValue (v : Str) : Str := escapeFrom true v

def Rdn.display (r : Rdn) : Str :=
  Str.join '+' (r.avas.map fun a => a.attr ++ '=' :: escapeValue a.value)

def Dn.display (d : Dn) : Str := Str.join ',' (d.rdns.map Rdn.display)

def splitUnescapedFrom (delim : Char) : Bool → Str → Str → List Str
  | true, cur, [] => [cur ++ ['\\']]
  | false, cur, [] => [cur]
  | true, cur, c :: cs => splitUnescapedFrom delim false (cur ++ ['\\', c]) cs
  | false, cur, c :: cs =>
    if c = '\\' then splitUnescapedFrom delim true cur cs
    else if c = delim then cur :: splitUnescapedFrom delim false [] cs
    else splitUnescapedFrom delim false (cur ++ [c]) cs

def splitUnescaped (s : Str) (delim : Char) : List Str := splitUnescapedFrom delim false [] s

def findUnescapedFrom (delim : Char) : Bool → Nat → Str → Option Nat
  | _, _, [] => none
  | true, i, _ :: cs => findUnescapedFrom delim false (i + 1) cs
  | false, i, c :: cs =>
    if c = '\\' then findUnescapedFrom delim true (i + 1) cs
    else if c = delim then some i
    else findUnescapedFrom delim false (i + 1) cs

def findUnescaped (s : Str) (delim : Char) : Option Nat := findUnescapedFrom delim false 0 s

-- A lone hex digit after the backslash, and any other escaped character, are
-- taken literally; a hex pair is one byte read as a character.
def unescape : Str → Str
  | [] => []
  | '\\' :: [] => ['\\']
  | '\\' :: h₁ :: [] => [h₁]
  | '\\' :: h₁ :: h₂ :: cs =>
    match Str.hexDigit? h₁, Str.hexDigit? h₂ with
    | some a, some b => Char.ofNat (16 * a + b) :: unescape cs
    | _, _ => h₁ :: unescape (h₂ :: cs)
  | c :: cs => c :: unescape cs

def parseAva (s full : Str) : Except PartitionError Ava :=
  match findUnescaped s '=' with
  | none => .error (.invalidDn full (.noEquals s))
  | some eq =>
    let attr := (Str.trim (s.take eq)).asciiLower
    if attr.isEmpty then .error (.invalidDn full .emptyAttributeType)
    else .ok ⟨attr, unescape (Str.trim (s.drop (eq + 1)))⟩

def parseRdn (full rdn : Str) : Except PartitionError Rdn :=
  let rdn := rdn.trim
  if rdn.isEmpty then .error (.invalidDn full .emptyRdn)
  else do
    let avas ← (splitUnescaped rdn '+').mapM fun ava => parseAva (Str.trim ava) full
    return ⟨avas.insertionSort fun a b => a.le b⟩

namespace Dn

def root : Dn := ⟨[]⟩

def parse (s : Str) : Except PartitionError Dn :=
  let trimmed := s.trim
  if trimmed.isEmpty then .ok root
  else do
    let rdns ← (splitUnescaped trimmed ',').mapM (parseRdn s)
    return ⟨rdns⟩

def isEmpty (d : Dn) : Bool := d.rdns.isEmpty

def depth (d : Dn) : Nat := d.rdns.length

def parent (d : Dn) : Option Dn :=
  match d.rdns with
  | [] => none
  | _ :: rdns => some ⟨rdns⟩

def isWithin (d base : Dn) : Bool :=
  if base.depth > d.depth then false
  else d.norm.drop (d.depth - base.depth) == base.norm

def isStrictDescendantOf (d base : Dn) : Bool := d.depth > base.depth && d.isWithin base

def reversedComponents (d : Dn) : List Str := d.rdns.reverse.map Rdn.normalizedString

/-- The name survives being displayed and parsed again. -/
def Displays (d : Dn) : Prop := ∃ e, parse d.display = .ok e ∧ e.Same d

theorem Displays.same {d e : Dn} (hd : d.Displays) (he : e.Displays)
    (h : d.display = e.display) : d.Same e := by
  obtain ⟨d', hpd, hd'⟩ := hd
  obtain ⟨e', hpe, he'⟩ := he
  rw [h, hpe] at hpd
  obtain rfl : e' = d' := by simpa using hpd
  exact hd'.symm.trans he'

end Dn

end IronDirectory.Naming
