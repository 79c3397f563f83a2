import IronDirectory.Defs.Kdc.Issuer

namespace IronDirectory.Kdc.TgsExchange

open Base Crypto Kerberos Naming Storage Outcome

section Readings

/-- A ticket counted from the readings `t` and `u` is cut at `endTime`: either the
presented ticket lives on for a whole lifetime, or both readings lie in one
second, and the presented ticket has not ended by a fraction of one. -/
def Steady (t u endTime : Int) : Prop :=
  (now u).1 + ticketLifetimeSecs * nanosPerSec ≤ endTime ∨
    (now t).1 = (now u).1 ∧ ((now t).1 ≤ endTime ∨ nanosPerSec ∣ endTime)

instance (t u endTime : Int) : Decidable (Steady t u endTime) := inferInstanceAs (Decidable (_ ∨ _))

theorem plusSeconds_eq (t s : Int) : plusSeconds t s = (now t).1 + s * nanosPerSec := by
  rw [plusSeconds, now, Int.add_mul_ediv_right t s (by decide), add_mul]

theorem plusSeconds_le_iff {t u : Int} (htu : t ≤ u) (endTime : Int) :
    plusSeconds u (min ticketLifetimeSecs (diffSeconds (now t).1 endTime)) ≤ endTime ↔
      Steady t u endTime := by
  rw [plusSeconds_eq, Steady, diffSeconds]
  obtain hlater | hpast := le_total 0 (endTime - (now t).1)
  · rw [Int.tdiv_eq_ediv_of_nonneg hlater]
    simp only [now, nanosPerSec, ticketLifetimeSecs] at *
    omega
  · rw [← Int.neg_neg (endTime - (now t).1), Int.neg_tdiv,
      Int.tdiv_eq_ediv_of_nonneg (Int.neg_nonneg_of_nonpos hpast)]
    simp only [now, nanosPerSec, ticketLifetimeSecs] at *
    omega

theorem plusSeconds_le_lifetime (u s : Int) :
    plusSeconds u (min ticketLifetimeSecs s) ≤ u + ticketLifetimeSecs * nanosPerSec := by
  rw [plusSeconds_eq]
  simp only [now, nanosPerSec, ticketLifetimeSecs]
  omega

end Readings

section Issue

variable {P : Platform} {env : Env} {app : AppState} {req : KdcReq} {p : Presented}
  {issued : Issued}

theorem Grant.part_of_seal {g : Grant} {nonce : UInt32} {draw : Nat → Nat}
    (h : g.seal P p nonce draw = .ok issued) : issued.part = g.part p.tgt := by
  simp only [Grant.seal, bind_eq_ok, mapError_eq_ok, pure_eq_ok] at h
  obtain ⟨_, _, _, _, _, _, _, _, _, _, rfl⟩ := h
  rfl

theorem endTime_of_referral (h : referral P env app req p = .ok (some issued)) :
    issued.part.endTime = endTime env 1 p.tgt := by
  obtain ⟨key, _, hticket⟩ := referral_eq_ok.mp h
  obtain ⟨k, _, hissued⟩ := Option.bind_eq_some_iff.mp hticket
  simp only [referralTicket, Option.bind_eq_bind, Option.bind_eq_some_iff, toOption_eq_some]
    at hissued
  obtain ⟨_, _, hseal⟩ := hissued
  rw [Grant.part_of_seal hseal]
  rfl

theorem endTime_of_service (h : serviceTgsRep P env app req p = .ok issued) :
    issued.part.endTime = endTime env 3 p.tgt := by
  simp only [serviceTgsRep, bind_eq_ok, require_eq_ok, keysOrStop_eq_ok, mapError_eq_ok] at h
  obtain ⟨_, _, _, _, _, _, _, _, _, _, _, _, hseal⟩ := h
  rw [Grant.part_of_seal hseal]
  rfl

def dated (P : Platform) (env : Env) (app : AppState) (req : KdcReq) (p : Presented) : Nat :=
  match referral P env app req p with
  | .ok (some _) => 1
  | _ => 3

theorem endTime_of_exchange (hp : authenticate P env app req = .ok p)
    (h : exchange P env app req = .ok issued) :
    issued.part.endTime = endTime env (dated P env app req p) p.tgt := by
  simp only [exchange, bind_eq_ok, hp] at h
  obtain ⟨_, hsame, r, hreferral, hanswer⟩ := h
  cases hsame
  rw [dated, hreferral]
  cases r with
  | some r =>
    cases hanswer
    exact endTime_of_referral hreferral
  | none => exact endTime_of_service hanswer

structure Within (issued presented : EncTicketPart) (t : Int) : Prop where
  presented : issued.endTime ≤ presented.endTime
  lifetime : issued.endTime ≤ t + ticketLifetimeSecs * nanosPerSec

/-- An issued ticket keeps within the presented one exactly if it was counted
from steady readings. -/
theorem within_iff_steady (hmono : Monotone env.clock.reading)
    (hp : authenticate P env app req = .ok p) (h : exchange P env app req = .ok issued) :
    Within issued.part p.tgt (env.clock.reading (dated P env app req p + 1)) ↔
      Steady (env.clock.reading (dated P env app req p))
        (env.clock.reading (dated P env app req p + 1)) p.tgt.endTime := by
  rw [← plusSeconds_le_iff (hmono (Nat.le_succ _))]
  have hend := endTime_of_exchange hp h
  rw [endTime] at hend
  constructor
  · intro hwithin
    exact hend ▸ hwithin.presented
  · intro hle
    exact ⟨hend ▸ hle, hend ▸ plusSeconds_le_lifetime _ _⟩

end Issue

theorem exists_exchange_peer (clock : Clock) (hfirst : clock.reading 0 < nanosPerSec)
    (hsoon : ∀ i, clock.reading i < 3 * nanosPerSec) :
    ∃ s req p issued, authenticate Platform.ideal ⟨clock, fun _ => s⟩ sampleApp req = .ok p ∧
      p.tgt.endTime = 0 ∧
      exchange Platform.ideal ⟨clock, fun _ => s⟩ sampleApp req = .ok issued := by
  obtain ⟨c, b, hopen, htgt⟩ := Platform.ideal_lawful.exists_sealed (ideal_opens_sampleKey 3)
    reservedFlags ⟨17, List.replicate 16 0⟩ (stringToGstring "PEER.LO")
    (stringToPrincipalName "bob")
  have hname : principalFqn (principalNameToString (stringToPrincipalName "krbtgt/IRON.LO"))
      (realmToString (stringToGstring "PEER.LO")) = "krbtgt/IRON.LO@PEER.LO" := by decide +kernel
  have hkey : sampleApp.HasKey (issuerPrincipal ⟨5, stringToGstring "PEER.LO",
      stringToPrincipalName "krbtgt/IRON.LO", ⟨17, none, c⟩⟩) .aes128CtsHmacSha1_96
      (sampleKey 3) := by
    rw [issuerPrincipal, hname]
    exact sampleApp_peer
  have hnow : (now (clock.reading 0)).1 = 0 := by
    have hsane := clock.sane 0
    simp only [now, nanosPerSec] at *
    omega
  have hend : ∀ s i, TimeOk (endTime ⟨clock, fun _ => s⟩ i
      (.atEpoch reservedFlags ⟨17, List.replicate 16 0⟩ (stringToGstring "PEER.LO")
        (stringToPrincipalName "bob"))) := by
    intro s i
    have hsane := clock.sane i
    have hsane' := clock.sane (i + 1)
    have hi := hsoon i
    have hi' := hsoon (i + 1)
    have hdiff : -3 ≤ diffSeconds (now (clock.reading i)).1 0 := by
      rw [diffSeconds, ← Int.neg_neg (0 - _), Int.neg_tdiv, Int.tdiv_eq_ediv_of_nonneg]
      · simp only [now, nanosPerSec] at *
        omega
      · simp only [now, nanosPerSec] at *
        omega
    simp only [endTime, EncTicketPart.atEpoch, TimeOk, plusSeconds_eq]
    simp only [now, nanosPerSec, ticketLifetimeSecs] at *
    omega
  obtain ⟨s, req, p, issued, hp, _, hptgt, hissued⟩ := exists_exchange_at Platform.ideal_lawful clock
    ⟨5, stringToGstring "PEER.LO", stringToPrincipalName "krbtgt/IRON.LO", ⟨17, none, c⟩⟩ rfl
    hkey hopen htgt (by rw [hnow]; decide) hend timeOk_zero
    (Cipher.ideal_lawful.opens_of_length 7 List.length_replicate) sampleApp_servable
  exact ⟨s, req, p, issued, hp, by rw [hptgt]; rfl, hissued⟩

theorem within_stopped :
    ∃ env req p issued, authenticate Platform.ideal env sampleApp req = .ok p ∧
      exchange Platform.ideal env sampleApp req = .ok issued ∧
      (Within issued.part p.tgt
          (env.clock.reading (dated Platform.ideal env sampleApp req p + 1)) ↔
        Steady (env.clock.reading (dated Platform.ideal env sampleApp req p))
          (env.clock.reading (dated Platform.ideal env sampleApp req p + 1)) p.tgt.endTime) := by
  obtain ⟨s, req, p, issued, hp, _, hissued⟩ :=
    exists_exchange_peer Clock.epoch (by decide)
      fun _ => show (0 : Int) < 3 * nanosPerSec by decide
  exact ⟨_, req, p, issued, hp, hissued, within_iff_steady (fun _ _ _ => le_rfl) hp hissued⟩

def straddling : Clock where
  reading i := if i ≤ 1 then 900000000 else if i ≤ 3 then 1900000000 else 2100000000
  sane i := by
    split_ifs <;> decide

theorem straddling_monotone : Monotone straddling.reading := by
  intro i j hij
  simp only [straddling]
  split_ifs <;> omega

/-- A ticket dated across the end of a second outlives the presented one. -/
theorem not_within_straddling :
    Monotone straddling.reading ∧ ∃ s req p issued,
      authenticate Platform.ideal ⟨straddling, fun _ => s⟩ sampleApp req = .ok p ∧
      exchange Platform.ideal ⟨straddling, fun _ => s⟩ sampleApp req = .ok issued ∧
      p.tgt.endTime < issued.part.endTime := by
  refine ⟨straddling_monotone, ?_⟩
  obtain ⟨s, req, p, issued, hp, hptgt, hissued⟩ := exists_exchange_peer straddling (by decide) (by
    intro i
    simp only [straddling]
    split_ifs <;> decide)
  refine ⟨s, req, p, issued, hp, hissued, ?_⟩
  rw [← not_le, endTime_of_exchange hp hissued, endTime,
    plusSeconds_le_iff (straddling_monotone (Nat.le_succ _)), hptgt, dated]
  split
  · decide
  · decide

end IronDirectory.Kdc.TgsExchange
