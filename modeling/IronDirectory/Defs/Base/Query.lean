import IronDirectory.Defs.Base.Numeral
import IronDirectory.Defs.Base.TextLaws

namespace IronDirectory.Base.Query

section Percent

def octet? : Str → Option UInt8
  | a :: b :: _ =>
    match Str.hexDigit? a, Str.hexDigit? b with
    | some x, some y => some (UInt8.ofNat (16 * x + y))
    | _, _ => none
  | _ => none

def percentDecode : Str → Bytes
  | [] => []
  | c :: cs =>
    if c = '%' then
      match octet? cs with
      | some b => b :: percentDecode (cs.drop 2)
      | none => 0x25 :: percentDecode cs
    else String.utf8EncodeChar c ++ percentDecode cs
termination_by s => s.length
decreasing_by
  all_goals
    simp only [List.length_drop, List.length_cons]
    omega

@[simp] theorem percentDecode_nil : percentDecode [] = [] := by
  rw [percentDecode]

theorem percentDecode_cons {c : Char} (hc : c ≠ '%') (cs : Str) :
    percentDecode (c :: cs) = String.utf8EncodeChar c ++ percentDecode cs := by
  rw [percentDecode, if_neg hc]

theorem percentDecode_octet {cs : Str} {b : UInt8} (h : octet? cs = some b) :
    percentDecode ('%' :: cs) = b :: percentDecode (cs.drop 2) := by
  rw [percentDecode, if_pos rfl, h]

theorem percentDecode_percent {cs : Str} (h : octet? cs = none) :
    percentDecode ('%' :: cs) = 0x25 :: percentDecode cs := by
  rw [percentDecode, if_pos rfl, h]

theorem percentDecode_of_not_mem {s : Str} (h : '%' ∉ s) : percentDecode s = s.toUtf8 := by
  induction s with
  | nil => exact percentDecode_nil
  | cons c s ih =>
    rw [List.mem_cons, not_or] at h
    rw [percentDecode_cons (Ne.symm h.1), ih h.2]
    rfl

variable {c : Char} (hc : Str.hexDigit? c = none)

include hc

theorem octet?_append (cs rest : Str) : octet? (cs ++ c :: rest) = octet? cs := by
  cases cs with
  | nil =>
    cases rest with
    | nil => rfl
    | cons d rest => simp [octet?, hc]
  | cons x cs =>
    cases cs with
    | nil => simp [octet?, hc]
    | cons y cs => rfl

theorem not_mem_of_octet {x y : Char} {b : UInt8} (h : octet? [x, y] = some b) : c ∉ [x, y] := by
  intro hm
  rw [List.mem_pair] at hm
  obtain rfl | rfl := hm
  · simp [octet?, hc] at h
  · simp [octet?, hc] at h

omit hc in
theorem length_of_octet {cs : Str} {b : UInt8} (h : octet? cs = some b) : 2 ≤ cs.length := by
  cases cs with
  | nil => cases h
  | cons x cs =>
    cases cs with
    | nil => cases h
    | cons y cs => exact Nat.le_add_left 2 _

theorem percentDecode_append (s rest : Str) :
    percentDecode (s ++ c :: rest) = percentDecode s ++ percentDecode (c :: rest) := by
  induction s using percentDecode.induct with
  | case1 => rw [percentDecode_nil, List.nil_append, List.nil_append]
  | case2 cs b hoctet ih =>
    rw [List.cons_append, percentDecode_octet ((octet?_append hc cs rest).trans hoctet),
      List.drop_append_of_le_length (length_of_octet hoctet), ih, percentDecode_octet hoctet, List.cons_append]
  | case3 cs hoctet ih =>
    rw [List.cons_append, percentDecode_percent ((octet?_append hc cs rest).trans hoctet), ih,
      percentDecode_percent hoctet, List.cons_append]
  | case4 d cs hd ih =>
    rw [List.cons_append, percentDecode_cons hd, ih, percentDecode_cons hd, List.append_assoc]

end Percent

section Parameters

def query (url : Str) : Str := ((url.takeWhile (· != '#')).dropWhile (· != '?')).drop 1

def param (piece : Str) : Bytes × Bytes :=
  (percentDecode (piece.takeWhile (· != '=')),
    percentDecode ((piece.dropWhile (· != '=')).drop 1))

def paramsOf (pieces : List Str) : List (Bytes × Bytes) :=
  (pieces.filter (· ≠ [])).map param

def params (url : Str) : List (Bytes × Bytes) := paramsOf ((query url).splitOn '&')

theorem takeWhile_of_not_mem {c : Char} {s : Str} (h : c ∉ s) :
    s.takeWhile (· != c) = s := by
  rw [List.takeWhile_eq_self_iff]
  exact fun d hd => bne_iff_ne.mpr fun heq => h (heq ▸ hd)

theorem dropWhile_of_not_mem {c : Char} {s : Str} (h : c ∉ s) : s.dropWhile (· != c) = [] := by
  rw [List.dropWhile_eq_nil_iff]
  exact fun d hd => bne_iff_ne.mpr fun heq => h (heq ▸ hd)

theorem takeWhile_append_cons {c : Char} {s : Str} (h : c ∉ s) (t : Str) :
    (s ++ c :: t).takeWhile (· != c) = s := by
  have hall : ∀ d ∈ s, (d != c) = true := fun d hd => bne_iff_ne.mpr fun heq => h (heq ▸ hd)
  rw [List.takeWhile_append_of_pos hall]
  simp

theorem dropWhile_append_cons {c : Char} {s : Str} (h : c ∉ s) (t : Str) :
    (s ++ c :: t).dropWhile (· != c) = c :: t := by
  have hall : ∀ d ∈ s, (d != c) = true := fun d hd => bne_iff_ne.mpr fun heq => h (heq ▸ hd)
  rw [List.dropWhile_append_of_pos hall]
  simp

theorem query_append {base : Str} (hfragment : '#' ∉ base) (hmark : '?' ∉ base) {q : Str}
    (hq : '#' ∉ q) : query (base ++ '?' :: q) = q := by
  have hwhole : '#' ∉ base ++ '?' :: q := by
    rw [List.mem_append, List.mem_cons, not_or, not_or]
    exact ⟨hfragment, by decide, hq⟩
  rw [query, takeWhile_of_not_mem hwhole, dropWhile_append_cons hmark]
  rfl

theorem query_append_of_mem {uri : Str} (hfragment : '#' ∉ uri) (hmark : '?' ∈ uri) {t : Str}
    (ht : '#' ∉ t) : query (uri ++ t) = query uri ++ t := by
  obtain ⟨base, q, rfl, hbase⟩ := List.eq_append_cons_of_mem hmark
  rw [List.mem_append, List.mem_cons, not_or, not_or] at hfragment
  obtain ⟨hfront, -, hq⟩ := hfragment
  have hqt : '#' ∉ q ++ t := by
    rw [List.mem_append, not_or]
    exact ⟨hq, ht⟩
  rw [List.append_assoc, List.cons_append, query_append hfront hbase hqt,
    query_append hfront hbase hq]

theorem params_of_not_mem {uri : Str} (hmark : '?' ∉ uri) : params uri = [] := by
  have hnone : '?' ∉ uri.takeWhile (· != '#') := fun h => hmark (List.takeWhile_subset _ h)
  rw [params, query, dropWhile_of_not_mem hnone]
  rfl

theorem param_append {name : Str} (h : '=' ∉ name) (value : Str) :
    param (name ++ '=' :: value) = (percentDecode name, percentDecode value) := by
  rw [param, takeWhile_append_cons h, dropWhile_append_cons h]
  rfl

theorem join_append_last {c : Char} (ps : List Str) (p x y : Str) :
    Str.join c (ps ++ [p ++ x, y]) = Str.join c (ps ++ [p]) ++ (x ++ c :: y) := by
  cases ps with
  | nil =>
    rw [List.nil_append, List.nil_append, Str.join_cons_cons, Str.join_singleton,
      Str.join_singleton, List.append_assoc]
  | cons r ps =>
    rw [Str.join_append (List.cons_ne_nil _ _) (List.cons_ne_nil _ _),
      Str.join_append (List.cons_ne_nil _ _) (List.cons_ne_nil _ _), Str.join_cons_cons,
      Str.join_singleton, Str.join_singleton]
    simp only [List.append_assoc, List.cons_append]

theorem exists_splitOn_append {c : Char} {x y : Str} (q : Str) (hx : c ∉ x) (hy : c ∉ y) :
    ∃ ps p, q.splitOn c = ps ++ [p] ∧
      Str.splitOn (q ++ (x ++ c :: y)) c = ps ++ [p ++ x, y] := by
  have hne : q.splitOn c ≠ [] := List.splitOn_ne_nil c q
  have hlast : q.splitOn c = (q.splitOn c).dropLast ++ [(q.splitOn c).getLast hne] :=
    (List.dropLast_append_getLast hne).symm
  generalize (q.splitOn c).dropLast = ps, (q.splitOn c).getLast hne = p at hlast
  have hparts : ∀ r ∈ ps ++ [p], c ∉ r := by
    intro r hr
    exact Str.not_mem_of_mem_splitOn (hlast ▸ hr)
  have hq : q = Str.join c (ps ++ [p]) := by
    rw [← hlast]
    exact (List.intercalate_splitOn c).symm
  have hnew : ∀ r ∈ ps ++ [p ++ x, y], c ∉ r := by
    intro r hr
    simp only [List.mem_append, List.mem_cons, List.not_mem_nil, or_false] at hr hparts
    obtain hr | rfl | rfl := hr
    · exact hparts r (.inl hr)
    · rw [List.mem_append, not_or]
      exact ⟨hparts p (.inr rfl), hx⟩
    · exact hy
  refine ⟨ps, p, hlast, ?_⟩
  rw [hq, ← join_append_last]
  exact List.splitOn_intercalate c hnew (by simp)

theorem paramsOf_append (ps qs : List Str) : paramsOf (ps ++ qs) = paramsOf ps ++ paramsOf qs := by
  rw [paramsOf, List.filter_append, List.map_append]
  rfl

theorem paramsOf_cons {p : Str} (hp : p ≠ []) (ps : List Str) :
    paramsOf (p :: ps) = param p :: paramsOf ps := by
  rw [paramsOf, List.filter_cons_of_pos (by simpa using hp)]
  rfl

theorem params_pair {base p q : Str} (hfragment : '#' ∉ base) (hmark : '?' ∉ base)
    (hp : '#' ∉ p ∧ '&' ∉ p ∧ p ≠ []) (hq : '#' ∉ q ∧ '&' ∉ q ∧ q ≠ []) :
    params (base ++ '?' :: (p ++ '&' :: q)) = [param p, param q] := by
  have hquery : '#' ∉ p ++ '&' :: q := by
    rw [List.mem_append, List.mem_cons, not_or, not_or]
    exact ⟨hp.1, by decide, hq.1⟩
  have hsplit : Str.splitOn (Str.join '&' [p, q]) '&' = [p, q] :=
    List.splitOn_intercalate '&' (by simpa using ⟨hp.2.1, hq.2.1⟩) (by simp)
  rw [Str.join_cons_cons, Str.join_singleton] at hsplit
  rw [params, query_append hfragment hmark hquery, hsplit, paramsOf_cons hp.2.2,
    paramsOf_cons hq.2.2]
  rfl

theorem exists_params_append {uri x y : Str} (hfragment : '#' ∉ uri) (hmark : '?' ∈ uri)
    (hx : '#' ∉ x ∧ '&' ∉ x) (hy : '#' ∉ y ∧ '&' ∉ y) :
    ∃ ps p, params uri = paramsOf ps ++ paramsOf [p] ∧
      params (uri ++ (x ++ '&' :: y)) = paramsOf ps ++ (paramsOf [p ++ x] ++ paramsOf [y]) := by
  have htail : '#' ∉ x ++ '&' :: y := by
    rw [List.mem_append, List.mem_cons, not_or, not_or]
    exact ⟨hx.1, by decide, hy.1⟩
  obtain ⟨ps, p, hsplit, happend⟩ := exists_splitOn_append (query uri) hx.2 hy.2
  refine ⟨ps, p, ?_, ?_⟩
  · rw [params, hsplit, paramsOf_append]
  · rw [params, query_append_of_mem hfragment hmark htail, happend, paramsOf_append]
    exact congrArg _ (paramsOf_append [p ++ x] [y])

theorem countP_name_append_le {name : Str} (hname : '=' ∉ name) (p v : Str) :
    (paramsOf [p ++ '?' :: (name ++ '=' :: v)]).countP (·.1 == percentDecode name) ≤
      (paramsOf [p]).countP (·.1 == percentDecode name) := by
  rw [paramsOf_cons (by simp)]
  by_cases heq : '=' ∈ p
  · obtain ⟨a, b, rfl, ha⟩ := List.eq_append_cons_of_mem heq
    rw [paramsOf_cons (by simp), List.append_assoc, List.cons_append, param_append ha,
      param_append ha, List.countP_cons, List.countP_cons]
  · have hfront : '=' ∉ p ++ '?' :: name := by
      rw [List.mem_append, List.mem_cons, not_or, not_or]
      exact ⟨heq, by decide, hname⟩
    have hlonger : (param (p ++ '?' :: (name ++ '=' :: v))).1 ≠ percentDecode name := by
      rw [← List.cons_append, ← List.append_assoc, param_append hfront,
        percentDecode_append (by decide), percentDecode_cons (by decide)]
      intro h
      have hlen := congrArg List.length h
      simp only [List.length_append] at hlen
      have hmark : (String.utf8EncodeChar '?').length = 1 := rfl
      omega
    rw [List.countP_cons_of_neg (by simpa using hlonger)]
    exact Nat.zero_le _

end Parameters

end IronDirectory.Base.Query
