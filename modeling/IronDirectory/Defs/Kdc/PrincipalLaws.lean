import IronDirectory.Defs.Kdc.Principal
import IronDirectory.Defs.Storage.EntryLaws

namespace IronDirectory.Base.Str

def isCharBoundary : Str → Nat → Bool
  | _, 0 => true
  | [], _ + 1 => false
  | c :: cs, n => c.utf8Size ≤ n && isCharBoundary cs (n - c.utf8Size)

@[simp] theorem isCharBoundary_zero (s : Str) : s.isCharBoundary 0 = true := by
  cases s <;> rfl

theorem isCharBoundary_cons (c : Char) (cs : Str) (n : Nat) : isCharBoundary (c :: cs) (n + 1) =
    (decide (c.utf8Size ≤ n + 1) && cs.isCharBoundary (n + 1 - c.utf8Size)) := rfl

section Splitn

variable {sep : Char}

theorem splitn_of_not_mem {s : Str} (h : sep ∉ s) (n : Nat) : splitn sep (n + 2) s = [s] := by
  have hall : ∀ c ∈ s, (c != sep) = true := fun c hc => bne_iff_ne.mpr fun heq => h (heq ▸ hc)
  rw [splitn, List.span_eq_takeWhile_dropWhile, List.takeWhile_eq_self_iff.mpr hall,
    List.dropWhile_eq_nil_iff.mpr hall]

theorem splitn_append {a : Str} (h : sep ∉ a) (s : Str) (n : Nat) :
    splitn sep (n + 2) (a ++ sep :: s) = a :: splitn sep (n + 1) s := by
  have hall : ∀ c ∈ a, (c != sep) = true := fun c hc => bne_iff_ne.mpr fun heq => h (heq ▸ hc)
  rw [splitn, List.span_eq_takeWhile_dropWhile, List.takeWhile_append_of_pos hall,
    List.dropWhile_append_of_pos hall]
  simp

theorem splitn_three_iff {s a b c : Str} : splitn sep 3 s = [a, b, c] ↔
    s = a ++ sep :: (b ++ sep :: c) ∧ sep ∉ a ∧ sep ∉ b := by
  constructor
  · intro h
    by_cases hs : sep ∈ s
    case neg =>
      rw [splitn_of_not_mem hs] at h
      cases h
    case pos =>
      obtain ⟨x, y, rfl, hx⟩ := List.eq_append_cons_of_mem hs
      rw [splitn_append hx] at h
      by_cases hy : sep ∈ y
      case neg =>
        rw [splitn_of_not_mem hy] at h
        cases h
      case pos =>
        obtain ⟨z, w, rfl, hz⟩ := List.eq_append_cons_of_mem hy
        rw [splitn_append hz] at h
        cases h
        exact ⟨rfl, hx, hz⟩
  · rintro ⟨rfl, ha, hb⟩
    rw [splitn_append ha, splitn_append hb]
    rfl

end Splitn

end IronDirectory.Base.Str

namespace IronDirectory.Kdc

open Base Crypto Storage

section Hex

def unread : Str → Str
  | [] => []
  | [c] => [c]
  | a :: b :: cs => if (hexPair? a b).isSome then unread cs else a :: b :: cs

theorem utf8Size_of_le {c : Char} (h : c ≤ 'z') : c.utf8Size = 1 := by
  exact Char.utf8Size_eq_one_iff.mpr (UInt32.le_trans h (by decide))

theorem utf8Size_of_hexDigit {c : Char} {n : Nat} (h : Str.hexDigit? c = some n) :
    c.utf8Size = 1 := by
  unfold Str.hexDigit? at h
  split_ifs at h with hdigit hlower hupper
  · exact utf8Size_of_le (Char.le_trans (Bool.and_eq_true_iff.mp hdigit |>.2 |> of_decide_eq_true)
      (by decide))
  · exact utf8Size_of_le (Char.le_trans (Bool.and_eq_true_iff.mp hlower |>.2 |> of_decide_eq_true)
      (by decide))
  · exact utf8Size_of_le (Char.le_trans (Bool.and_eq_true_iff.mp hupper |>.2 |> of_decide_eq_true)
      (by decide))

theorem utf8Size_of_hexPair {a b : Char} (h : (hexPair? a b).isSome) :
    a.utf8Size = 1 ∧ b.utf8Size = 1 := by
  unfold hexPair? at h
  split at h
  case h_1 x y ha hb => exact ⟨utf8Size_of_hexDigit ha, utf8Size_of_hexDigit hb⟩
  case h_2 y ha hb =>
    split_ifs at h with hplus
    · exact ⟨hplus ▸ rfl, utf8Size_of_hexDigit hb⟩
    · cases h
  case h_3 => cases h

theorem fromHexPairs_of_unread_nil {s : Str} (h : unread s = []) :
    ∃ bs, fromHexPairs s = .ok bs := by
  induction s using unread.induct with
  | case1 => exact ⟨[], rfl⟩
  | case2 c => cases h
  | case3 a b cs hpair ih =>
    rw [unread, if_pos hpair] at h
    obtain ⟨bs, hbs⟩ := ih h
    obtain ⟨x, hx⟩ := Option.isSome_iff_exists.mp hpair
    obtain ⟨ha, hb⟩ := utf8Size_of_hexPair hpair
    refine ⟨x :: bs, ?_⟩
    rw [fromHexPairs, if_pos ha, if_pos hb, hx, hbs]
    rfl
  | case4 a b cs hpair =>
    rw [unread, if_neg hpair] at h
    cases h

theorem isCharBoundary_one (b : Char) (cs : Str) :
    Str.isCharBoundary (b :: cs) 1 = decide (b.utf8Size = 1) := by
  have hpos := b.utf8Size_pos
  rw [Str.isCharBoundary_cons]
  by_cases hb : b.utf8Size = 1
  · simp [hb]
  · rw [decide_eq_false hb, decide_eq_false (by omega), Bool.false_and]

theorem isCharBoundary_two (a : Char) (cs : Str) : Str.isCharBoundary (a :: cs) 2 =
    if a.utf8Size = 1 then cs.isCharBoundary 1 else decide (a.utf8Size = 2) := by
  have hpos := a.utf8Size_pos
  rw [Str.isCharBoundary_cons]
  by_cases hone : a.utf8Size = 1
  · simp [hone]
  · by_cases htwo : a.utf8Size = 2
    · simp [htwo]
    · rw [if_neg hone, decide_eq_false htwo, decide_eq_false (by omega), Bool.false_and]

theorem fromHexPairs_singleton (c : Char) :
    fromHexPairs [c] = .error (if Str.isCharBoundary [c] 2 then .error () else .panic) := by
  rw [fromHexPairs, isCharBoundary_two]
  split_ifs <;> simp_all [Str.isCharBoundary]

theorem fromHexPairs_of_none {a b : Char} (h : hexPair? a b = none) (cs : Str) :
    fromHexPairs (a :: b :: cs) =
      .error (if Str.isCharBoundary (a :: b :: cs) 2 then .error () else .panic) := by
  rw [fromHexPairs, isCharBoundary_two, isCharBoundary_one, h]
  split_ifs <;> simp_all

theorem fromHexPairs_of_unread {s : Str} (h : unread s ≠ []) :
    fromHexPairs s = .error (if (unread s).isCharBoundary 2 then .error () else .panic) := by
  induction s using unread.induct with
  | case1 => exact absurd rfl h
  | case2 c => exact fromHexPairs_singleton c
  | case3 a b cs hpair ih =>
    rw [unread, if_pos hpair] at h
    obtain ⟨x, hx⟩ := Option.isSome_iff_exists.mp hpair
    obtain ⟨ha, hb⟩ := utf8Size_of_hexPair hpair
    rw [fromHexPairs, if_pos ha, if_pos hb, hx, unread, if_pos hpair, ih h]
    rfl
  | case4 a b cs hpair =>
    rw [unread, if_neg hpair]
    exact fromHexPairs_of_none (Option.not_isSome_iff_eq_none.mp hpair) cs

theorem even_of_unread_nil {s : Str} (h : unread s = []) : s.toUtf8.length % 2 = 0 := by
  induction s using unread.induct with
  | case1 => rfl
  | case2 c => cases h
  | case3 a b cs hpair ih =>
    rw [unread, if_pos hpair] at h
    obtain ⟨ha, hb⟩ := utf8Size_of_hexPair hpair
    have hcs := ih h
    simp only [Str.toUtf8, List.flatMap_cons, List.length_append, String.length_utf8EncodeChar, ha,
      hb] at hcs ⊢
    omega
  | case4 a b cs hpair =>
    rw [unread, if_neg hpair] at h
    cases h

def HexText (s : Str) : Prop := s.length % 2 = 0 ∧ ∀ c ∈ s, (Str.hexDigit? c).isSome

theorem isSome_hexPair_iff {a b : Char} : (hexPair? a b).isSome ↔
    ((Str.hexDigit? a).isSome ∨ a = '+') ∧ (Str.hexDigit? b).isSome := by
  unfold hexPair?
  cases ha : Str.hexDigit? a with
  | some x => cases Str.hexDigit? b <;> simp
  | none =>
    cases Str.hexDigit? b with
    | none => simp
    | some y =>
      by_cases hplus : a = '+'
      · simp [hplus]
      · simp [hplus]

theorem hexText_cons_cons {a b : Char} {cs : Str} : HexText (a :: b :: cs) ↔
    (Str.hexDigit? a).isSome ∧ (Str.hexDigit? b).isSome ∧ HexText cs := by
  simp only [HexText, List.length_cons, List.forall_mem_cons, Nat.add_assoc, Nat.add_mod_right]
  tauto

theorem hexText_iff {s : Str} : HexText s ↔ unread s = [] ∧ '+' ∉ s := by
  have hplus : Str.hexDigit? '+' = none := rfl
  induction s using unread.induct with
  | case1 => simp [HexText, unread]
  | case2 c => simp [HexText, unread]
  | case3 a b cs hpair ih =>
    have hrest : HexText cs ↔ unread cs = [] ∧ '+' ∉ cs := ih
    rw [hexText_cons_cons, hrest, unread, if_pos hpair]
    obtain ⟨ha, hb⟩ := isSome_hexPair_iff.mp hpair
    have hbne : '+' ≠ b := by
      rintro rfl
      rw [hplus] at hb
      cases hb
    have hane : (Str.hexDigit? a).isSome ↔ '+' ≠ a := by
      constructor
      · rintro h rfl
        rw [hplus] at h
        cases h
      · exact fun hne => ha.resolve_right hne.symm
    rw [List.mem_cons, List.mem_cons, hane]
    tauto
  | case4 a b cs hpair =>
    rw [hexText_cons_cons, unread, if_neg hpair]
    refine iff_of_false ?_ (fun h => List.cons_ne_nil _ _ h.1)
    rintro ⟨ha, hb, -⟩
    exact hpair (isSome_hexPair_iff.mpr ⟨.inl ha, hb⟩)

theorem hexDigit?_hexChar : ∀ n < 16, Str.hexDigit? (Bytes.hexChar n) = some n := by decide

theorem hexPair?_hexChar (b : UInt8) :
    hexPair? (Bytes.hexChar (b.toNat / 16)) (Bytes.hexChar (b.toNat % 16)) = some b := by
  have hlt := b.toNat_lt
  have hb : 16 * (b.toNat / 16) + b.toNat % 16 = b.toNat := Nat.div_add_mod _ _
  rw [hexPair?, hexDigit?_hexChar _ (by omega), hexDigit?_hexChar _ (Nat.mod_lt _ (by decide))]
  simp only [hb, UInt8.ofNat_toNat]

theorem fromHexPairs_toHex (bs : Bytes) : fromHexPairs (Bytes.toHex bs) = .ok bs := by
  induction bs with
  | nil => rfl
  | cons b bs ih =>
    have hpair := hexPair?_hexChar b
    obtain ⟨hhigh, hlow⟩ := utf8Size_of_hexPair (Option.isSome_iff_exists.mpr ⟨b, hpair⟩)
    change fromHexPairs (_ :: _ :: Bytes.toHex bs) = _
    rw [fromHexPairs, if_pos hhigh, if_pos hlow, hpair, ih]
    rfl

theorem unread_toHex (bs : Bytes) : unread (Bytes.toHex bs) = [] := by
  induction bs with
  | nil => rfl
  | cons b bs ih =>
    change unread (_ :: _ :: Bytes.toHex bs) = _
    rw [unread, if_pos (Option.isSome_iff_exists.mpr ⟨b, hexPair?_hexChar b⟩), ih]

theorem fromHex_toHex (bs : Bytes) : fromHex (Bytes.toHex bs) = .ok bs := by
  rw [fromHex, if_neg (not_not.mpr (even_of_unread_nil (unread_toHex bs))), fromHexPairs_toHex]

end Hex

section Values

def keyParts? (v : Str) : Option (Enctype × UInt32 × Str) :=
  match Str.splitn ':' 3 v with
  | [etypeStr, kvnoStr, text] => do
    let etypeNum ← Str.signed? 32 etypeStr
    let enctype ← Enctype.ofNumber (Int32.ofInt etypeNum)
    let kvno ← Str.unsigned? (2 ^ 32) kvnoStr
    return (enctype, UInt32.ofNat kvno, text)
  | _ => none

def KeyForm (v : Str) : Prop :=
  ∃ etypeStr kvnoStr text, v = etypeStr ++ ':' :: (kvnoStr ++ ':' :: text) ∧
    ':' ∉ etypeStr ∧ ':' ∉ kvnoStr ∧
    (∃ n e, Str.signed? 32 etypeStr = some n ∧ Enctype.ofNumber (Int32.ofInt n) = some e) ∧
    (Str.unsigned? (2 ^ 32) kvnoStr).isSome ∧ HexText text

theorem keyForm_iff {v : Str} :
    KeyForm v ↔ ∃ e kvno text, keyParts? v = some (e, kvno, text) ∧ HexText text := by
  constructor
  · rintro ⟨etypeStr, kvnoStr, text, hv, hetype, hkvno, ⟨n, e, hn, he⟩, hk, htext⟩
    obtain ⟨k, hk⟩ := Option.isSome_iff_exists.mp hk
    refine ⟨e, UInt32.ofNat k, text, ?_, htext⟩
    rw [keyParts?, Str.splitn_three_iff.mpr ⟨hv, hetype, hkvno⟩]
    simp only [hn, he, hk, Option.bind_eq_bind, Option.bind_some, Option.pure_def]
  · rintro ⟨e, kvno, text, hparts, htext⟩
    unfold keyParts? at hparts
    split at hparts
    case h_2 => cases hparts
    case h_1 etypeStr kvnoStr text' hsplit =>
      obtain ⟨hv, hetype, hkvno⟩ := Str.splitn_three_iff.mp hsplit
      simp only [Option.bind_eq_bind, Option.bind_eq_some_iff, Option.pure_def, Option.some.injEq,
        Prod.mk.injEq] at hparts
      obtain ⟨n, hn, e', he, k, hk, -, -, rfl⟩ := hparts
      exact ⟨etypeStr, kvnoStr, text', hv, hetype, hkvno, ⟨n, e', hn, he⟩,
        Option.isSome_iff_exists.mpr ⟨k, hk⟩, htext⟩

theorem parseKey_eq (v : Str) : parseKey v =
    match keyParts? v with
    | none => .error (.error (.malformed attrKey v))
    | some (e, kvno, text) =>
      match fromHex text with
      | .ok key => .ok ⟨e, kvno, key⟩
      | .error (.error _) => .error (.error (.malformed attrKey v))
      | .error .panic => .error .panic := by
  unfold parseKey keyParts?
  generalize Str.splitn ':' 3 v = parts
  rcases parts with _ | ⟨etypeStr, _ | ⟨kvnoStr, _ | ⟨text, _ | ⟨_, _⟩⟩⟩⟩
  case cons.cons.cons.nil =>
    dsimp only
    cases Str.signed? 32 etypeStr with
    | none => rfl
    | some n =>
      cases he : Enctype.ofNumber (Int32.ofInt n) with
      | none => simp [Outcome.require, he, bind, Except.bind]
      | some e =>
        cases Str.unsigned? (2 ^ 32) kvnoStr with
        | none => simp [Outcome.require, he, bind, Except.bind]
        | some k =>
          simp only [Outcome.require_some, Outcome.ok_bind, he, Option.bind_eq_bind,
            Option.bind_some, Option.pure_def]
          cases fromHex text with
          | ok key => rfl
          | error fault => cases fault <;> rfl
  all_goals rfl

def readable (v : Str) : Bool :=
  match keyParts? v with
  | none => false
  | some (_, _, text) => (unread text).isEmpty

def cut (v : Str) : Bool :=
  match keyParts? v with
  | none => false
  | some (_, _, text) => text.toUtf8.length % 2 = 0 && !(unread text).isCharBoundary 2

def keyText (v : Str) : Str :=
  match keyParts? v with
  | none => []
  | some (_, _, text) => text

theorem parseKey_of_readable {v : Str} (h : readable v = true) : ∃ k, parseKey v = .ok k := by
  unfold readable at h
  rw [parseKey_eq]
  split at h
  case h_1 => cases h
  case h_2 e kvno text hparts =>
    have hall : unread text = [] := List.isEmpty_iff.mp h
    obtain ⟨key, hkey⟩ := fromHexPairs_of_unread_nil hall
    refine ⟨⟨e, kvno, key⟩, ?_⟩
    rw [fromHex, if_neg (not_not.mpr (even_of_unread_nil hall)), hkey]

theorem parseKey_of_not_readable {v : Str} (h : readable v = false) : parseKey v =
    .error (if cut v then .panic else .error (.malformed attrKey v)) := by
  unfold readable at h
  rw [parseKey_eq, cut]
  split at h
  case h_1 => rfl
  case h_2 e kvno text hparts =>
    have hsome : unread text ≠ [] := fun heq => by
      rw [heq] at h
      cases h
    simp only [fromHex]
    by_cases heven : text.toUtf8.length % 2 = 0
    · rw [if_neg (not_not.mpr heven), fromHexPairs_of_unread hsome]
      by_cases hboundary : (unread text).isCharBoundary 2
      · simp [hboundary]
      · simp [hboundary, heven]
    · rw [if_pos heven]
      simp [heven]

theorem keyForm_iff_of_readable {v : Str} (h : readable v = true) :
    KeyForm v ↔ '+' ∉ keyText v := by
  unfold readable at h
  rw [keyForm_iff, keyText]
  split at h
  case h_1 => cases h
  case h_2 e kvno text hparts =>
    have hall : unread text = [] := List.isEmpty_iff.mp h
    rw [hparts]
    simp only [Option.some.injEq, Prod.mk.injEq]
    constructor
    · rintro ⟨_, _, _, ⟨rfl, rfl, rfl⟩, htext⟩
      exact (hexText_iff.mp htext).2
    · exact fun hplus => ⟨e, kvno, text, ⟨rfl, rfl, rfl⟩, hexText_iff.mpr ⟨hall, hplus⟩⟩

theorem parseKey_keyValue (e : Enctype) (key : Bytes) :
    parseKey (keyValue e key) = .ok ⟨e, 1, key⟩ := by
  have hparts : keyParts? (keyValue e key) = some (e, 1, Bytes.toHex key) := by
    cases e <;> rfl
  rw [parseKey_eq, hparts]
  simp only [fromHex_toHex]

end Values

section Entries

/-- The first value that is not readable is refused and not cut; if there is
none, no key has a sign in it. -/
def Legible (values : List Str) : Prop :=
  match values.find? fun v => !readable v with
  | none => ∀ v ∈ values, '+' ∉ keyText v
  | some v => cut v = false

theorem mapM_parseKey_of_readable {values : List Str} (h : ∀ v ∈ values, readable v = true) :
    ∃ ks, values.mapM parseKey = .ok ks :=
  Outcome.exists_mapM_eq_ok fun v hv => parseKey_of_readable (h v hv)

theorem mapM_parseKey_of_find {values : List Str} {v : Str}
    (h : values.find? (fun v => !readable v) = some v) : values.mapM parseKey =
      .error (if cut v then .panic else .error (.malformed attrKey v)) := by
  induction values with
  | nil => cases h
  | cons u values ih =>
    rw [List.mapM_cons]
    cases hu : readable u with
    | true =>
      obtain ⟨k, hk⟩ := parseKey_of_readable hu
      rw [List.find?_cons_of_neg (by simp [hu])] at h
      rw [hk, ih h]
      rfl
    | false =>
      rw [List.find?_cons_of_pos (by simp [hu])] at h
      cases h
      rw [parseKey_of_not_readable hu]
      rfl

theorem mapM_parseKey_faithful_iff {values : List Str} :
    (values.mapM parseKey ≠ .error .panic ∧
      ∀ ks, values.mapM parseKey = .ok ks → ∀ v ∈ values, KeyForm v) ↔ Legible values := by
  unfold Legible
  split
  case h_1 hfind =>
    have hall : ∀ v ∈ values, readable v = true := by
      simpa using List.find?_eq_none.mp hfind
    obtain ⟨ks, hks⟩ := mapM_parseKey_of_readable hall
    rw [hks]
    constructor
    · exact fun h v hv => (keyForm_iff_of_readable (hall v hv)).mp (h.2 ks rfl v hv)
    · intro h
      refine ⟨(by simp), fun _ _ v hv => ?_⟩
      exact (keyForm_iff_of_readable (hall v hv)).mpr (h v hv)
  case h_2 v hfind =>
    rw [mapM_parseKey_of_find hfind]
    cases cut v <;> simp

def HoldsDerived (c : Cipher) (secret : Bytes) (entry : Entry) : Prop :=
  ∃ s derived, salt entry = .ok s ∧
    defaultEnctypes.mapM (fun e => c.stringToKey e secret s none) = .ok derived ∧
    keys entry = .ok (List.zipWith (fun e key => ⟨e, 1, key⟩) defaultEnctypes derived)

theorem mapM_parseKey_keyValue {c : Cipher} {secret s : Bytes} {es : List Enctype}
    {values : List Str}
    (h : es.mapM (fun e => do
      let key ← (c.stringToKey e secret s none).mapError PrincipalError.crypto
      return keyValue e key) = .ok values) :
    ∃ derived, es.mapM (fun e => c.stringToKey e secret s none) = .ok derived ∧
      values.mapM parseKey = .ok (List.zipWith (fun e key => ⟨e, 1, key⟩) es derived) := by
  induction es generalizing values with
  | nil =>
    cases h
    exact ⟨[], rfl, rfl⟩
  | cons e es ih =>
    obtain ⟨value, rest, hvalue, hrest, rfl⟩ := Outcome.mapM_cons_eq_ok.mp h
    obtain ⟨key, hkey, hvalue⟩ := Outcome.bind_eq_ok.mp hvalue
    obtain ⟨derived, hderived, hread⟩ := ih hrest
    cases hvalue
    exact ⟨key :: derived,
      Outcome.mapM_cons_eq_ok.mpr ⟨key, derived, Outcome.mapError_eq_ok.mp hkey, hderived, rfl⟩,
      Outcome.mapM_cons_eq_ok.mpr ⟨_, _, parseKey_keyValue e key, hread, rfl⟩⟩

theorem storeKeys_eq_ok {c : Cipher} {e e' : Entry} {name s : Str} {secret : Bytes}
    (h : storeKeys c e name secret s = .ok e') :
    ∃ values, ∀ e₀, storeKeys c e₀ name secret s =
      .ok (((e₀.set attrPrincipalName [name]).set attrSalt [s]).set attrKey values) := by
  obtain ⟨values, hvalues, -⟩ := Outcome.bind_eq_ok.mp h
  refine ⟨values, fun e₀ => ?_⟩
  rw [storeKeys, hvalues]
  rfl

theorem setPassword_eq_ok {c : Cipher} {draw : Nat} {e e' : Entry} {name : Str} {password : Bytes}
    (h : setPassword c draw e name password = .ok e') :
    ∃ salt values, ∀ e₀, setPassword c draw e₀ name password =
      .ok (((e₀.set attrPrincipalName [name]).set attrSalt [salt]).set attrKey values) := by
  obtain ⟨random, hrandom, h⟩ := Outcome.bind_eq_ok.mp h
  obtain ⟨values, hall⟩ := storeKeys_eq_ok h
  refine ⟨Bytes.toHex random, values, fun e₀ => ?_⟩
  rw [setPassword, hrandom]
  exact hall e₀

theorem holdsDerived_of_storeKeys {c : Cipher} {entry entry' : Entry} {name s : Str}
    {secret : Bytes} (h : storeKeys c entry name secret s = .ok entry') :
    HoldsDerived c secret entry' := by
  obtain ⟨values, hvalues, hentry⟩ := Outcome.bind_eq_ok.mp h
  obtain ⟨derived, hderived, hread⟩ := mapM_parseKey_keyValue hvalues
  cases hentry
  refine ⟨s.toUtf8, derived, ?_, hderived, ?_⟩
  · rw [salt, Entry.get_set, if_neg (by decide), Entry.get_set, if_pos rfl]
    rfl
  · rw [keys, Entry.get_set, if_pos rfl]
    exact hread

theorem keys_of_get {entry : Entry} {values : List Str} (h : entry.get attrKey = some values) :
    keys entry = values.mapM parseKey := by
  rw [keys, h]
  rfl

/-- Stored keys are read without a panic and only in their form exactly when
they are legible; derived keys are read back. -/
theorem keys_faithful_iff (c : Cipher) (entry : Entry) :
    ((keys entry ≠ .error .panic ∧
        ∀ ks, keys entry = .ok ks → ∀ v ∈ entry.valuesOf attrKey, KeyForm v) ∧
      (∀ draw name password entry', setPassword c draw entry name password = .ok entry' →
        HoldsDerived c password entry') ∧
      ∀ name secret entry', setSharedKey c entry name secret = .ok entry' →
        HoldsDerived c secret entry') ↔
      ∀ values, entry.get attrKey = some values → Legible values := by
  have hpassword : ∀ draw name password entry', setPassword c draw entry name password =
      .ok entry' → HoldsDerived c password entry' := by
    intro draw name password entry' h
    obtain ⟨random, hrandom, hstore⟩ := Outcome.bind_eq_ok.mp h
    exact holdsDerived_of_storeKeys hstore
  have hshared : ∀ name secret entry', setSharedKey c entry name secret = .ok entry' →
      HoldsDerived c secret entry' := fun name secret entry' h => holdsDerived_of_storeKeys h
  rw [and_iff_left ⟨hpassword, hshared⟩, Entry.valuesOf]
  cases hget : entry.get attrKey with
  | none =>
    have hmissing : keys entry = .error (.error (.missingAttr attrKey)) := by
      rw [keys, hget]
      rfl
    simp [hmissing]
  | some values =>
    rw [keys_of_get hget, Option.getD_some, mapM_parseKey_faithful_iff]
    simp

def entryWithKey (value : Str) : Entry := Entry.new.set attrKey [value]

/-- The first pair of the one key ends inside a character; the other is not
hexadecimal. -/
theorem keys_entryWithKey :
    keys (entryWithKey "18:1:a€") = .error .panic ∧
      keys (entryWithKey "18:1:+1") = .ok [⟨.aes256CtsHmacSha1_96, 1, [1]⟩] ∧
      ¬ KeyForm "18:1:+1" := by
  refine ⟨by decide +kernel, by decide +kernel, ?_⟩
  have hreadable : readable "18:1:+1" = true := by decide +kernel
  rw [keyForm_iff_of_readable hreadable]
  decide +kernel

end Entries

end IronDirectory.Kdc
