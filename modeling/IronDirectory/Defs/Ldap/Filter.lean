import IronDirectory.Defs.Storage.Entry

namespace IronDirectory.Ldap

open Base Storage

structure Unicode where
  toLowercase : Str → Str
  charToLowercase : Char → Str

def Unicode.ascii : Unicode := ⟨Str.asciiLower, fun c => [c.toLower]⟩

structure AttributeValueAssertion where
  attributeDesc : Str
  assertionValue : Bytes

inductive SubstringChoice
  | initial (value : Bytes)
  | any (value : Bytes)
  | final (value : Bytes)
  | unrecognized

structure SubstringFilter where
  type : Str
  substrings : List SubstringChoice

structure MatchingRuleAssertion where
  matchingRule : Option Str
  type : Option Str
  matchValue : Bytes

inductive Filter
  | and (filters : List Filter)
  | or (filters : List Filter)
  | not (inner : Filter)
  | present (attr : Str)
  | equalityMatch (ava : AttributeValueAssertion)
  | approxMatch (ava : AttributeValueAssertion)
  | substrings (sf : SubstringFilter)
  | greaterOrEqual (ava : AttributeValueAssertion)
  | lessOrEqual (ava : AttributeValueAssertion)
  | extensibleMatch (mra : MatchingRuleAssertion)
  | unrecognized

inductive Tri
  | true
  | false
  | undefined
  deriving DecidableEq

def Tri.ofBool (b : Bool) : Tri := if b then .true else .false

def Tri.not : Tri → Tri
  | .true => .false
  | .false => .true
  | .undefined => .undefined

namespace Filter

section Text

variable (u : Unicode)

def splitWhitespace (s : Str) : List Str :=
  (s.splitOnP Str.isWhitespace).filter fun w => !w.isEmpty

def fold (s : Str) : Str := u.toLowercase (Str.join ' ' (splitWhitespace s))

def foldComponentFrom : Bool → Str → Str
  | _, [] => []
  | inSpace, c :: cs =>
    if Str.isWhitespace c then
      if inSpace then foldComponentFrom true cs else ' ' :: foldComponentFrom true cs
    else u.charToLowercase c ++ foldComponentFrom false cs

def foldComponent (s : Str) : Str := foldComponentFrom u false s

def afterFirst (needle : Str) : Str → Option Str
  | [] => Str.stripPrefix [] needle
  | c :: s =>
    match Str.stripPrefix (c :: s) needle with
    | some rest => some rest
    | none => afterFirst needle s

structure Components where
  initial : Option Str
  any : List Str
  final : Option Str

-- At most one initial, first; at most one final, last.
def componentsFrom (n : Nat) : Nat → Components → List SubstringChoice → Option Components
  | _, acc, [] => some acc
  | i, acc, choice :: rest =>
    match choice with
    | .initial v =>
      if i = 0 then
        componentsFrom n (i + 1)
          { acc with initial := some (foldComponent u (Utf8.fromUtf8Lossy v)) } rest
      else none
    | .any v =>
      componentsFrom n (i + 1)
        { acc with any := acc.any ++ [foldComponent u (Utf8.fromUtf8Lossy v)] } rest
    | .final v =>
      if i = n - 1 then
        componentsFrom n (i + 1)
          { acc with final := some (foldComponent u (Utf8.fromUtf8Lossy v)) } rest
      else none
    | .unrecognized => none

def components (choices : List SubstringChoice) : Option Components :=
  componentsFrom u choices.length 0 ⟨none, [], none⟩ choices

def substringMatch (value : Str) (c : Components) : Bool :=
  let rest? := do
    let rest ← match c.initial with
      | some i => value.stripPrefix i
      | none => some value
    c.any.foldlM (fun rest a => afterFirst a rest) rest
  match rest? with
  | none => false
  | some rest =>
    match c.final with
    | some f => f.isSuffixOf rest
    | none => true

def order (value assertion : Str) : Ordering :=
  match Str.signed? 128 value.trim, Str.signed? 128 assertion.trim with
  | some a, some b => compareOfLessAndEq a b
  | _, _ => compareOfLessAndEq (fold u value) (fold u assertion)

def int (s : Str) : Option (BitVec 64) := (Str.signed? 64 s.trim).map (BitVec.ofInt 64)

/-- Compares one value with the assertion; none if either is not of the rule's
form. -/
abbrev Rule := Str → Str → Option Bool

def bitRule (test : BitVec 64 → BitVec 64 → Bool) : Rule := fun v a => do
  let v ← int v
  let a ← int a
  return test v a

def rule (name : Option Str) : Option Rule :=
  match name with
  | none => some fun v a => some (fold u v == fold u a)
  | some name =>
    let is (names : List Str) : Bool := names.contains name.asciiLower
    if is ["1.2.840.113556.1.4.803", "ldap_matching_rule_bit_and"] then
      some (bitRule fun v a => v &&& a == a)
    else if is ["1.2.840.113556.1.4.804", "ldap_matching_rule_bit_or"] then
      some (bitRule fun v a => v &&& a != 0)
    else if is ["2.5.13.2", "caseignorematch"] then
      some fun v a => some (fold u v == fold u a)
    else if is ["2.5.13.5", "caseexactmatch"] then
      some fun v a => some (v == a)
    else if is ["2.5.13.14", "integermatch"] then
      some (bitRule fun v a => v == a)
    else if is ["2.5.13.0", "objectidentifiermatch"] then
      some fun v a => some (v.trim.eqIgnoreAsciiCase a.trim)
    else none

end Text

section Evaluate

variable (u : Unicode) (entry : Entry)

def anyValue (attr : Str) (test : Str → Bool) : Tri :=
  .ofBool ((entry.get attr).any fun vals => vals.any test)

def substringsMatch (sf : SubstringFilter) : Tri :=
  match components u sf.substrings with
  | none => .undefined
  | some c => anyValue entry sf.type fun v => substringMatch (fold u v) c

-- A value the rule cannot read only counts if its attribute was named.
def extensibleFrom (rule : Rule) (assertion : Str) (typed : Bool) : Tri → List Str → Tri
  | result, [] => result
  | result, v :: vs =>
    match rule v assertion with
    | some true => .true
    | some false => extensibleFrom rule assertion typed result vs
    | none => extensibleFrom rule assertion typed (if typed then .undefined else result) vs

def extensible (mra : MatchingRuleAssertion) : Tri :=
  match rule u mra.matchingRule with
  | none => .undefined
  | some r =>
    let assertion := Utf8.fromUtf8Lossy mra.matchValue
    match mra.type with
    | some t => extensibleFrom r assertion true .false (entry.valuesOf t)
    | none =>
      if mra.matchingRule.isSome then
        extensibleFrom r assertion false .false (entry.attrNames.flatMap entry.valuesOf)
      else .undefined

mutual

def evaluate : Filter → Tri
  | .and filters => evaluateAnd .true filters
  | .or filters => evaluateOr .false filters
  | .not inner => (evaluate inner).not
  | .present attr => .ofBool ((entry.get attr).any fun v => !v.isEmpty)
  | .equalityMatch ava =>
    let want := fold u (Utf8.fromUtf8Lossy ava.assertionValue)
    anyValue entry ava.attributeDesc fun v => fold u v == want
  | .approxMatch ava =>
    let want := fold u (Utf8.fromUtf8Lossy ava.assertionValue)
    anyValue entry ava.attributeDesc fun v => fold u v == want
  | .substrings sf => substringsMatch u entry sf
  | .greaterOrEqual ava =>
    let want := Utf8.fromUtf8Lossy ava.assertionValue
    anyValue entry ava.attributeDesc fun v => order u v want != .lt
  | .lessOrEqual ava =>
    let want := Utf8.fromUtf8Lossy ava.assertionValue
    anyValue entry ava.attributeDesc fun v => order u v want != .gt
  | .extensibleMatch mra => extensible u entry mra
  | .unrecognized => .undefined

def evaluateAnd (result : Tri) : List Filter → Tri
  | [] => result
  | f :: fs =>
    match evaluate f with
    | .false => .false
    | .undefined => evaluateAnd .undefined fs
    | .true => evaluateAnd result fs

def evaluateOr (result : Tri) : List Filter → Tri
  | [] => result
  | f :: fs =>
    match evaluate f with
    | .true => .true
    | .undefined => evaluateOr .undefined fs
    | .false => evaluateOr result fs

end

def matchesEntry (filter : Filter) : Bool := evaluate u entry filter == .true

end Evaluate

end Filter

end IronDirectory.Ldap
