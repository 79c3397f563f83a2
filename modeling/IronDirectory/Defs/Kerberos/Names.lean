import IronDirectory.Defs.Kerberos.Messages

namespace IronDirectory.Kerberos

open Base

def gstringToString (g : GeneralString) : Str := Utf8.fromUtf8Lossy g.bytes

def stringToGstring (s : Str) : GeneralString where
  bytes := s.toUtf8.map fun b => if permittedByte b then b else 0x3F
  permitted := by
    simp only [List.all_map, List.all_eq_true, Function.comp_apply]
    intro b _
    split
    · assumption
    · decide

def realmToString (realm : Realm) : Str := gstringToString realm

def stringToPrincipalName (name : Str) : PrincipalName :=
  let parts := (name.splitOn '/').map stringToGstring
  ⟨if parts.length > 1 then 2 else 1, parts⟩

def principalNameToString (pn : PrincipalName) : Str :=
  Str.join '/' (pn.string.map gstringToString)

def krbtgtPrincipalName (realm : Str) : PrincipalName :=
  stringToPrincipalName ("krbtgt/" ++ realm)

def isChangepw (pn : PrincipalName) : Bool :=
  (principalNameToString pn).eqIgnoreAsciiCase "kadmin/changepw"

def principalFqn (name realm : Str) : Str := name ++ '@' :: realm

def flagInitial : Nat := 9

def flagPreAuthent : Nat := 10

def ticketFlags (bits : List Nat) : TicketFlags :=
  ⟨bits.foldl (fun b i => b.set i true) (List.replicate 32 false)⟩

def reservedFlags : TicketFlags := ⟨List.replicate 8 false⟩

def hasFlag (flags : KerberosFlags) (bit : Nat) : Bool := (flags.bits[bit]?).getD false

def ticketLifetimeSecs : Int := 10 * 3600

def clockSkewSecs : Int := 300

def nanosPerSec : Int := 1000000000

/-- Clock readings in the order they are taken, between 1970 and 9999. -/
structure Clock where
  reading : Nat → Int
  sane : ∀ i, 0 ≤ reading i ∧ reading i < 253370764800 * nanosPerSec

def now (t : Int) : Int × Int :=
  (t / nanosPerSec * nanosPerSec, t % nanosPerSec / 1000)

def plusSeconds (t seconds : Int) : Int :=
  (t + seconds * nanosPerSec) / nanosPerSec * nanosPerSec

def diffSeconds (a b : Int) : Int := (b - a).tdiv nanosPerSec

def timestamp (t : Int) : Int := t / nanosPerSec

/-- The times a `GeneralizedTime` can carry: the years 0 to 9999. -/
def TimeOk (t : Int) : Prop :=
  -62167219200 * nanosPerSec ≤ t ∧ t < 253402300800 * nanosPerSec

@[simp] theorem diffSeconds_self (t : Int) : diffSeconds t t = 0 := by
  simp [diffSeconds]

theorem timeOk_zero : TimeOk 0 := by
  unfold TimeOk
  decide

theorem timeOk_now (c : Clock) (i : Nat) : TimeOk (now (c.reading i)).1 := by
  have h := c.sane i
  simp only [TimeOk, now, nanosPerSec] at h ⊢
  omega

theorem timeOk_plusSeconds (c : Clock) (i : Nat) {s : Int} (h₀ : 0 ≤ s)
    (h : s ≤ ticketLifetimeSecs) : TimeOk (plusSeconds (c.reading i) s) := by
  have hc := c.sane i
  simp only [TimeOk, plusSeconds, nanosPerSec, ticketLifetimeSecs] at hc h ⊢
  omega

theorem diffSeconds_plusSeconds_le (t : Int) {s : Int} (h : 0 ≤ s) :
    diffSeconds (plusSeconds t s) (now t).1 ≤ 0 := by
  have hle : (now t).1 ≤ plusSeconds t s := by
    simp only [now, plusSeconds, nanosPerSec]
    omega
  rw [diffSeconds, ← Int.neg_nonneg, ← Int.neg_tdiv, Int.neg_sub]
  exact Int.tdiv_nonneg (by omega) (by decide)

end IronDirectory.Kerberos
