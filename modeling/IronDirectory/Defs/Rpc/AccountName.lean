import IronDirectory.Defs.Rpc.Samr
import IronDirectory.Defs.Storage.IndexHistory

namespace IronDirectory.Rpc.Samr

open Base Naming Storage Escape

theorem statusOf_append (head : Bytes) (status : UInt32) :
    statusOf (head ++ Bytes.le 4 status.toNat) = status := by
  have hdrop : (head ++ Bytes.le 4 status.toNat).length - 4 = head.length := by simp
  rw [statusOf, hdrop, List.drop_left, Bytes.ofNat_ofLe_le]

theorem ridField_append (head : Bytes) (rid status : UInt32) :
    ridField (head ++ Bytes.le 4 rid.toNat ++ Bytes.le 4 status.toNat) = rid := by
  have hdrop : (head ++ Bytes.le 4 rid.toNat ++ Bytes.le 4 status.toNat).length - 8 =
      head.length := by simp
  rw [ridField, hdrop, List.append_assoc, List.drop_left, List.take_left' (Bytes.length_le _ _),
    Bytes.ofNat_ofLe_le]

@[simp] theorem statusOf_createUser2Response (rid status : UInt32) :
    statusOf (createUser2Response rid status) = status :=
  statusOf_append _ status

@[simp] theorem ridField_createUser2Response (rid status : UInt32) :
    ridField (createUser2Response rid status) = rid :=
  ridField_append _ rid status

def Succeeds (reply : Reply) : Prop :=
  ∃ response ∈ reply.response, statusOf response = NtStatus.success

instance Succeeds.decidable (reply : Reply) : Decidable (Succeeds reply) :=
  inferInstanceAs (Decidable (∃ response ∈ reply.response, statusOf response = NtStatus.success))

def CreatesChild (state : SamrState) (domainSid : Sid) (stub : Bytes) (name : Str) : Prop :=
  ∃ dn e, (createUser2InDomain state domainSid stub).created = [(dn, e)] ∧
    state.store.Created dn e (createUser2InDomain state domainSid stub).store ∧
    dn.Same ⟨⟨[⟨"cn", name⟩]⟩ :: state.baseDn.rdns⟩

theorem createAccount_of_succeeds {state : SamrState} {domainSid : Sid} {name : Str} {dn : Dn}
    (h : Succeeds (createAccount state domainSid name dn)) :
    ∃ e, (createAccount state domainSid name dn).created = [(dn, e)] ∧
      state.store.Created dn e (createAccount state domainSid name dn).store := by
  unfold createAccount at h ⊢
  split at h
  · obtain ⟨response, hr, hstatus⟩ := h
    obtain rfl := Option.some.inj hr
    simp [NtStatus.success, NtStatus.internalDbError] at hstatus
  next rid store halloc =>
  dsimp only at h ⊢
  split at h
  · next store' hcreate =>
    exact ⟨_, rfl, (Store.created_createEntry hcreate).of_alike (Store.alike_allocateRid halloc)⟩
  · obtain ⟨response, hr, hstatus⟩ := h
    obtain rfl := Option.some.inj hr
    simp [NtStatus.success, NtStatus.userExists] at hstatus
  · obtain ⟨response, hr, hstatus⟩ := h
    obtain rfl := Option.some.inj hr
    simp [NtStatus.success, NtStatus.internalDbError] at hstatus

theorem plainAttr_cn : PlainAttr "cn" where
  ne_nil := by decide
  lower := by decide
  plain := by
    intro c hc
    change c ∈ ['c', 'n'] at hc
    simp only [List.mem_cons, List.not_mem_nil, or_false] at hc
    rcases hc with rfl | rfl <;> decide

section Samples

open Tracked (corp mailSpec)

def corpState : SamrState where
  store := ⟨.singleton corp, fun _ => .empty⟩
  baseDn := corp.baseDn
  baseWf := Dn.parse_wf (s := "dc=corp") rfl
  indexSpec := mailSpec

def corpSid : Sid := .new Sid.ntAuthority [21, 1, 2, 3]

def createStub (name : Str) : Bytes :=
  let w := (((NdrWriter.new.handle domainHandle).u16 0).u16 0).referentId
  (((w.embeddedWstr name).padTo4.u32 0).u32 0).buf

end Samples

end IronDirectory.Rpc.Samr
