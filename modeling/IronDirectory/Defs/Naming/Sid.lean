import IronDirectory.Defs.Base.Numeral

namespace IronDirectory.Naming

open Base

structure Sid where
  revision : UInt8
  authority : UInt64
  subAuthorities : List UInt32
  deriving DecidableEq

namespace Sid

def ntAuthority : UInt64 := 5

def new (authority : UInt64) (subAuthorities : List UInt32) : Sid := ⟨1, authority, subAuthorities⟩

def withSubAuthority (s : Sid) (extra : UInt32) : Sid :=
  { s with subAuthorities := s.subAuthorities ++ [extra] }

def encode (s : Sid) : Bytes :=
  s.revision :: UInt8.ofNat s.subAuthorities.length :: (Bytes.be 8 s.authority.toNat).drop 2 ++
    s.subAuthorities.flatMap fun sa => Bytes.le 4 sa.toNat

def decodeSubAuthorities : Bytes → List UInt32
  | a :: b :: c :: d :: rest => UInt32.ofNat (Bytes.ofLe [a, b, c, d]) :: decodeSubAuthorities rest
  | _ => []

def decode (bytes : Bytes) : Option Sid :=
  match bytes with
  | revision :: count :: a :: b :: c :: d :: e :: f :: rest =>
    if rest.length = 4 * count.toNat then
      some ⟨revision, UInt64.ofNat (Bytes.ofBe [a, b, c, d, e, f]), decodeSubAuthorities rest⟩
    else none
  | _ => none

def parse (s : Str) : Option Sid :=
  match s.splitOn '-' with
  | tag :: revision :: authority :: rest =>
    if tag = "S" then do
      let revision ← Str.unsigned? (2 ^ 8) revision
      let authority ← Str.unsigned? (2 ^ 64) authority
      let subs ← rest.mapM (Str.unsigned? (2 ^ 32))
      some ⟨UInt8.ofNat revision, UInt64.ofNat authority, subs.map UInt32.ofNat⟩
    else none
  | _ => none

def display (s : Sid) : Str :=
  "S-" ++ Str.ofNat s.revision.toNat ++ '-' :: Str.ofNat s.authority.toNat ++
    s.subAuthorities.flatMap fun sa => '-' :: Str.ofNat sa.toNat

def rid (s : Sid) : Option UInt32 := s.subAuthorities.getLast?

theorem decodeSubAuthorities_encode (sas : List UInt32) :
    decodeSubAuthorities (sas.flatMap fun sa => Bytes.le 4 sa.toNat) = sas := by
  induction sas with
  | nil => rfl
  | cons sa sas ih =>
    rw [List.flatMap_cons]
    exact congrArg₂ List.cons (Bytes.ofNat_ofLe_le sa) ih

theorem decode_encode {s : Sid} (h : s.subAuthorities.length < 256) :
    decode s.encode = some { s with authority := UInt64.ofNat (s.authority.toNat % 256 ^ 6) } := by
  have hlen : (s.subAuthorities.flatMap fun sa => Bytes.le 4 sa.toNat).length =
      4 * (UInt8.ofNat s.subAuthorities.length).toNat := by
    rw [UInt8.toNat_ofNat_of_lt' h]
    simp [List.length_flatMap, Nat.mul_comm]
  have hsub := decodeSubAuthorities_encode s.subAuthorities
  rw [← Bytes.ofLe_le, encode]
  generalize (s.subAuthorities.flatMap fun sa => Bytes.le 4 sa.toNat) = rest at hlen hsub ⊢
  simp only [decode, Bytes.be, Bytes.le, List.reverse_cons, List.reverse_nil, List.nil_append,
    List.cons_append, List.drop_succ_cons, List.drop_zero]
  rw [if_pos hlen, hsub]
  rfl

end Sid

namespace SecurityDescriptor

def seDaclPresent : Nat := 0x0004

def seSelfRelative : Nat := 0x8000

def accessAllowedAceType : UInt8 := 0

def genericAll : Nat := 0x10000000

def genericRead : Nat := 0x80000000

def authenticatedUsers : Sid := .new Sid.ntAuthority [11]

def buildAce (mask : Nat) (trustee : Sid) : Bytes :=
  let sidBytes := trustee.encode
  accessAllowedAceType :: 0 :: Bytes.le 2 (8 + sidBytes.length) ++ Bytes.le 4 mask ++ sidBytes

def buildDacl (aces : List (Nat × Sid)) : Bytes :=
  let bodies := aces.map fun ace => buildAce ace.1 ace.2
  let aclSize := 8 + bodies.flatten.length
  2 :: 0 :: Bytes.le 2 aclSize ++ Bytes.le 2 aces.length ++ Bytes.le 2 0 ++ bodies.flatten

def headerLen : Nat := 1 + 1 + 2 + 4 * 4

def defaultDescriptor (domainSid : Sid) : Bytes :=
  let domainAdmins := domainSid.withSubAuthority 512
  let dacl := buildDacl [(genericAll, domainAdmins), (genericRead, authenticatedUsers)]
  let owner := domainAdmins.encode
  let group := domainAdmins.encode
  let offsetOwner := headerLen + dacl.length
  let offsetGroup := offsetOwner + owner.length
  1 :: 0 :: Bytes.le 2 (seDaclPresent + seSelfRelative) ++ Bytes.le 4 offsetOwner ++
    Bytes.le 4 offsetGroup ++ Bytes.le 4 0 ++ Bytes.le 4 headerLen ++ dacl ++ owner ++ group

end SecurityDescriptor

end IronDirectory.Naming
