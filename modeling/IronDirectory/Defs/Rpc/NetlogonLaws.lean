import IronDirectory.Defs.Rpc.Netlogon
import IronDirectory.Defs.Rpc.NdrLaws

/-! What the handshake reads of a request that NDR's own rule lays out: each
parameter at its natural alignment, counted from the start of the stub. -/

namespace IronDirectory.Rpc

open Base

inductive Param
  | u16 (v : UInt16)
  | u32 (v : UInt32)
  | octets (b : Bytes)
  | wide (s : Str)

namespace Param

def align : Param → Nat
  | u16 _ => 2
  | u32 _ => 4
  | octets _ => 1
  | wide _ => 4

def bytes : Param → Bytes
  | u16 v => Bytes.le 2 v.toNat
  | u32 v => Bytes.le 4 v.toNat
  | octets b => b
  | wide s => wideBytes s

def marshal : Bytes → List Param → Bytes
  | _, [] => []
  | out, p :: ps =>
    let placed := List.replicate (padding p.align out.length) 0 ++ p.bytes
    placed ++ marshal (out ++ placed) ps

def Encodable : Param → Prop
  | wide s => s.encodeUtf16.length < 2 ^ 32
  | _ => True

instance (p : Param) : Decidable p.Encodable :=
  match p with
  | wide s => inferInstanceAs (Decidable (s.encodeUtf16.length < 2 ^ 32))
  | u16 _ => inferInstanceAs (Decidable True)
  | u32 _ => inferInstanceAs (Decidable True)
  | octets _ => inferInstanceAs (Decidable True)

section Marshal

variable (out : Bytes) (ps : List Param)

theorem marshal_append (qs : List Param) : marshal out (ps ++ qs) =
    marshal out ps ++ marshal (out ++ marshal out ps) qs := by
  induction ps generalizing out with
  | nil =>
    rw [marshal, List.append_nil]
    rfl
  | cons p ps ih =>
    rw [List.cons_append, marshal, ih, marshal]
    simp only [List.append_assoc]

theorem marshal_wide (s : Str) : marshal out (.wide s :: ps) =
    List.replicate (padding 4 out.length) 0 ++ (wideBytes s ++
      marshal (out ++ List.replicate (padding 4 out.length) 0 ++ wideBytes s) ps) := by
  rw [marshal, List.append_assoc, List.append_assoc out]
  rfl

theorem marshal_u32 (v : UInt32) : marshal out (.u32 v :: ps) =
    List.replicate (padding 4 out.length) 0 ++ (Bytes.le 4 v.toNat ++
      marshal (out ++ List.replicate (padding 4 out.length) 0 ++ Bytes.le 4 v.toNat) ps) := by
  rw [marshal, List.append_assoc, List.append_assoc out]
  rfl

theorem marshal_u16 {out : Bytes} (h : out.length % 2 = 0) (v : UInt16) :
    marshal out (.u16 v :: ps) =
      Bytes.le 2 v.toNat ++ marshal (out ++ Bytes.le 2 v.toNat) ps := by
  have hpad : padding 2 out.length = 0 := by
    rw [padding, h]
  rw [marshal, align, hpad]
  rfl

theorem marshal_octets (b : Bytes) :
    marshal out (.octets b :: ps) = b ++ marshal (out ++ b) ps := by
  have hpad : padding 1 out.length = 0 := Nat.mod_one _
  rw [marshal, align, hpad]
  rfl

end Marshal

end Param

namespace Netlogon

def nul : Char := Char.ofNat 0

/-- A call of `NetrServerAuthenticate3`.  Names are sent with any number of
terminators. -/
structure Authenticate3Call where
  primary : Option Str
  account : Str
  terminators : Nat
  channelType : UInt16
  computer : Str
  credential : Vector UInt8 8
  flags : UInt32

namespace Authenticate3Call

def primaryParams (call : Authenticate3Call) : List Param :=
  match call.primary with
  | none => [.u32 0]
  | some name => [.u32 NdrWriter.firstReferentId, .wide name]

def accountText (call : Authenticate3Call) : Str :=
  call.account ++ List.replicate call.terminators nul

def params (call : Authenticate3Call) : List Param :=
  call.primaryParams ++ [.wide call.accountText, .u16 call.channelType, .wide call.computer,
    .octets call.credential.toList, .u32 call.flags]

def encode (call : Authenticate3Call) : Option Bytes :=
  if ∀ p ∈ call.params, p.Encodable then some (Param.marshal [] call.params) else none

section Layout

variable (call : Authenticate3Call)

def lead : Bytes :=
  let first := Param.marshal [] call.primaryParams
  first ++ List.replicate (padding 4 first.length) 0

theorem length_lead_mod : call.lead.length % 4 = 0 := by
  rw [lead, List.length_append, List.length_replicate, add_padding_mod]

def innerPad : Bytes :=
  List.replicate (padding 4 (2 + (wideBytes call.accountText).length)) 0

def flagsPad : Bytes := List.replicate (padding 4 (wideBytes call.computer).length) 0

def rest : Bytes :=
  wideBytes call.accountText ++ (Bytes.le 2 call.channelType.toNat ++ (call.innerPad ++
    (wideBytes call.computer ++ (call.credential.toList ++ (call.flagsPad ++
      Bytes.le 4 call.flags.toNat)))))

theorem length_innerPad : call.innerPad.length =
    padding 4 (call.lead ++ wideBytes call.accountText ++
      Bytes.le 2 call.channelType.toNat).length := by
  rw [List.append_assoc, List.length_append, padding_add call.length_lead_mod, List.length_append,
    Bytes.length_le, Nat.add_comm]
  exact List.length_replicate

theorem length_flagsPad : call.flagsPad.length =
    if call.computer.encodeUtf16.length % 2 = 0 then 0 else 2 := by
  rw [flagsPad, List.length_replicate, length_wideBytes, padding]
  split <;> omega

theorem marshal_params : Param.marshal [] call.params = call.lead ++ call.rest := by
  set first := Param.marshal [] call.primaryParams with hfirst
  have hlead : first ++ List.replicate (padding 4 first.length) 0 = call.lead := rfl
  have haligned := call.length_lead_mod
  have hwide := length_wideBytes call.accountText
  have heven : (call.lead ++ wideBytes call.accountText).length % 2 = 0 := by
    rw [List.length_append, hwide]
    omega
  have hinner : List.replicate (padding 4 (call.lead ++ wideBytes call.accountText ++
      Bytes.le 2 call.channelType.toNat).length) 0 = call.innerPad := by
    rw [← length_innerPad, innerPad, List.length_replicate]
  set before := call.lead ++ wideBytes call.accountText ++ Bytes.le 2 call.channelType.toNat ++
    call.innerPad with hbefore
  have hbeforeMod : before.length % 4 = 0 := by
    rw [hbefore, List.length_append, length_innerPad, add_padding_mod]
  have hflags : padding 4 (before ++ wideBytes call.computer ++ call.credential.toList).length =
      padding 4 (wideBytes call.computer).length := by
    rw [List.append_assoc, List.length_append, padding_add hbeforeMod, List.length_append,
      Vector.length_toList, Nat.add_comm, padding_add rfl]
  rw [params, Param.marshal_append, List.nil_append, ← hfirst, Param.marshal_wide, hlead,
    Param.marshal_u16 _ heven, Param.marshal_wide, hinner, ← hbefore, Param.marshal_octets,
    Param.marshal_u32, hflags, ← hlead, rest, Param.marshal, List.append_nil, List.append_assoc]
  rfl

end Layout

section Reading

/-- The flags the server sees: as they are, or moved by the padding that it does
not skip. -/
def seenFlags (call : Authenticate3Call) : UInt32 :=
  if call.computer.encodeUtf16.length % 2 = 0 then call.flags
  else UInt32.ofNat (65536 * (call.flags.toNat % 65536))

theorem exists_flagsWord (call : Authenticate3Call) :
    ∃ word post : Bytes, call.flagsPad ++ Bytes.le 4 call.flags.toNat = word ++ post ∧
      word.length = 4 ∧ UInt32.ofNat (Bytes.ofLe word) = call.seenFlags := by
  have hpad : call.flagsPad = List.replicate call.flagsPad.length 0 := by
    rw [flagsPad, List.length_replicate]
  rw [hpad, length_flagsPad, seenFlags]
  split
  · exact ⟨Bytes.le 4 call.flags.toNat, [], (List.append_nil _).symm, Bytes.length_le _ _,
      Bytes.ofNat_ofLe_le _⟩
  · refine ⟨[0, 0] ++ Bytes.le 2 call.flags.toNat,
      Bytes.le 2 (call.flags.toNat / 256 / 256), rfl, rfl, ?_⟩
    rw [Bytes.ofLe_append, Bytes.ofLe_le]
    refine congrArg UInt32.ofNat ?_
    change 0 + 256 * (0 + 256 * 0) + 256 ^ 2 * (call.flags.toNat % 256 ^ 2) = _
    omega

variable {call : Authenticate3Call} (hfits : ∀ p ∈ call.params, p.Encodable)

include hfits

theorem reads_primaryName : NdrRead.Reads primaryName [] call.lead () := by
  cases hprimary : call.primary with
  | none =>
    have hlead : call.lead = Bytes.le 4 (0 : UInt32).toNat ++ [] := by
      rw [lead, primaryParams, hprimary]
      rfl
    rw [hlead]
    exact (NdrRead.reads_u32 [] 0).bind (.pure _ ())
  | some name =>
    have hname : name.encodeUtf16.length < 2 ^ 32 := by
      refine hfits (.wide name) ?_
      rw [params, primaryParams, hprimary]
      exact List.mem_append_left _ (List.mem_cons_of_mem _ List.mem_cons_self)
    set referent := Bytes.le 4 NdrWriter.firstReferentId.toNat
    have hfirst : Param.marshal [] call.primaryParams = referent ++ wideBytes name := by
      rw [primaryParams, hprimary]
      simp [Param.marshal, Param.bytes, Param.align, padding, referent]
    rw [lead, hfirst, List.append_assoc]
    exact (NdrRead.reads_u32 [] NdrWriter.firstReferentId).bind
      ((NdrRead.reads_unicodeStringDeferred referent hname).bind
        (NdrRead.reads_padTo4 _ List.length_replicate))

theorem run_args : NdrRead.run serverAuthenticate3Args (call.lead ++ call.rest) =
    some ⟨call.accountText.trimEndMatches nul, call.credential.toList, call.seenFlags⟩ := by
  obtain ⟨word, post, hsplit, hword, hflags⟩ := call.exists_flagsWord
  have haccount : call.accountText.encodeUtf16.length < 2 ^ 32 :=
    hfits (.wide call.accountText) (List.mem_append_right _ List.mem_cons_self)
  have hcomputer : call.computer.encodeUtf16.length < 2 ^ 32 :=
    hfits (.wide call.computer) (List.mem_append_right _
      (List.mem_cons_of_mem _ (List.mem_cons_of_mem _ List.mem_cons_self)))
  have hseen : ∀ pre, NdrRead.Reads NdrRead.u32 pre word call.seenFlags := by
    intro pre
    rw [← hflags]
    exact NdrRead.reads_u32_bytes pre hword
  have hargs : NdrRead.Reads serverAuthenticate3Args [] (call.lead ++ (wideBytes call.accountText ++
      (Bytes.le 2 call.channelType.toNat ++ (call.innerPad ++ (wideBytes call.computer ++
        (call.credential.toList ++ word))))))
      ⟨call.accountText.trimEndMatches nul, call.credential.toList, call.seenFlags⟩ :=
    (reads_primaryName hfits).bind ((NdrRead.reads_unicodeStringDeferred _ haccount).bind
      ((NdrRead.reads_u16 _ _).bind ((NdrRead.reads_padTo4 _ call.length_innerPad).bind
        ((NdrRead.reads_unicodeStringDeferred _ hcomputer).bind
          ((NdrRead.reads_bytes_of_length call.credential.length_toList _).bind
            (hseen _).map)))))
  have hstub := NdrRead.run_of_reads hargs post
  rw [rest, hsplit]
  simp only [List.append_assoc] at hstub
  exact hstub

end Reading

section Names

theorem trimEndMatches_append_replicate (s : Str) (n : Nat) :
    Str.trimEndMatches (s ++ List.replicate n nul) nul = s.trimEndMatches nul := by
  induction n with
  | zero => rw [List.replicate_zero, List.append_nil]
  | succ n ih =>
    rw [List.replicate_succ', ← List.append_assoc, Str.trimEndMatches,
      List.rdropWhile_concat_pos (· == nul) _ nul (beq_self_eq_true nul)]
    exact ih

theorem trimEndMatches_eq_self_iff {s : Str} :
    s.trimEndMatches nul = s ↔ s.getLast? ≠ some nul := by
  rw [Str.trimEndMatches, List.rdropWhile_eq_self_iff]
  cases s using List.reverseRecOn with
  | nil => exact iff_of_true (fun h => absurd rfl h) nofun
  | append_singleton s c => simp

end Names

theorem seenFlags_eq_iff (call : Authenticate3Call) : call.seenFlags = call.flags ↔
    call.computer.encodeUtf16.length % 2 = 0 ∨ call.flags = 0 := by
  unfold seenFlags
  split
  · next h => simp [h]
  · next h =>
    have hlt := call.flags.toNat_lt
    rw [← UInt32.toNat_inj, ← UInt32.toNat_inj, UInt32.toNat_ofNat', UInt32.toNat_zero]
    omega

end Authenticate3Call

/-- The server recovers the account, the credential and the flags of a call
exactly when the account does not end in the terminator and the computer's name
has an even number of units, unless no flag is set. -/
theorem authenticate3_recovered_iff {call : Authenticate3Call} {stub : Bytes}
    (h : call.encode = some stub) :
    NdrRead.run serverAuthenticate3Args stub =
        some ⟨call.account, call.credential.toList, call.flags⟩ ↔
      call.account.getLast? ≠ some nul ∧
        (call.computer.encodeUtf16.length % 2 = 0 ∨ call.flags = 0) := by
  unfold Authenticate3Call.encode at h
  split at h
  case isFalse => cases h
  case isTrue hfits =>
    rw [← Option.some.inj h, call.marshal_params, Authenticate3Call.run_args hfits,
      Option.some.injEq, Authenticate3.mk.injEq, ← Authenticate3Call.seenFlags_eq_iff,
      ← Authenticate3Call.trimEndMatches_eq_self_iff, Authenticate3Call.accountText,
      Authenticate3Call.trimEndMatches_append_replicate]
    simp only [true_and]

def sampleCall (computer : Str) : Authenticate3Call :=
  ⟨some "\\\\dc1", "WS1$", 1, 2, computer, Vector.replicate 8 7, netlogonNegSupportsAes⟩

theorem authenticate3_recovered_sample :
    NdrRead.run serverAuthenticate3Args (Param.marshal [] (sampleCall "WS12").params) =
      some ⟨"WS1$", List.replicate 8 7, netlogonNegSupportsAes⟩ := by
  have hencode : (sampleCall "WS12").encode =
      some (Param.marshal [] (sampleCall "WS12").params) := if_pos (by decide +kernel)
  exact (authenticate3_recovered_iff hencode).mpr ⟨by decide, by decide⟩

/-- After a name of three units the server takes the padding for half of the
flags, and does not see that the client offers AES. -/
theorem not_authenticate3_recovered :
    (sampleCall "WS1").encode = some (Param.marshal [] (sampleCall "WS1").params) ∧
      NdrRead.run serverAuthenticate3Args (Param.marshal [] (sampleCall "WS1").params) =
        some ⟨"WS1$", List.replicate 8 7, 0⟩ ∧
      (sampleCall "WS1").flags ≠ 0 := by
  have hfits : ∀ p ∈ (sampleCall "WS1").params, p.Encodable := by decide +kernel
  refine ⟨if_pos hfits, ?_, by decide⟩
  rw [Authenticate3Call.marshal_params, Authenticate3Call.run_args hfits]
  rfl

end Netlogon

end IronDirectory.Rpc
