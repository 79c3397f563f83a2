import IronDirectory.Defs.Storage.Program

namespace IronDirectory.Storage

open Base Naming Prog

def entryAt (s : Clusters) (ref : ClusterRef) (pid : PartitionId) (dn : Dn) : Option Value :=
  (s ref).find? (Key.entryKey pid dn)

def readsAnswered (answers : List (Sigma Request.Reply)) : Bool :=
  answers.all fun r => !r.1.isRead || r.2.isOk

@[simp] theorem readsAnswered_nil : readsAnswered [] = true := rfl

@[simp] theorem readsAnswered_append (first rest : List (Sigma Request.Reply)) :
    readsAnswered (first ++ rest) = (readsAnswered first && readsAnswered rest) :=
  List.all_append

def storeOf (reg : PartitionRegistry) (s : Clusters) : Store :=
  ⟨reg, fun ref => ⟨s ref, fun _ => none, fun _ => none⟩⟩

def Stores (ref : ClusterRef) (pid : PartitionId) (dn : Dn) (e : Entry) (s t : Clusters) : Prop :=
  ∀ ref' pid' dn', entryAt t ref' pid' dn' =
    if ref' = ref ∧ Key.entryKey pid' dn' = Key.entryKey pid dn then some (.entry e)
    else entryAt s ref' pid' dn'

theorem entryAt_update_putOps (s : Clusters) (ref : ClusterRef) (pid : PartitionId) (dn : Dn)
    (old : Option Entry) (e : Entry) (spec : IndexSpec) :
    Stores ref pid dn e s (Function.update s ref
      (TxnOp.applyAll (Index.putOps pid dn old e spec) (s ref))) := by
  intro ref' pid' dn'
  have hindex : ∀ e, Key.entryKey pid' dn' ∉ Index.keysOf pid dn e spec := by
    intro e he
    obtain ⟨attr, v, hk⟩ := Index.exists_of_mem_keysOf he
    exact Key.entryKey_ne_indexKey _ _ _ _ _ _ hk
  by_cases href : ref' = ref
  · subst href
    rw [entryAt, Function.update_self, Index.find?_putOps, if_neg (hindex _), if_neg (hindex _),
      entryAt]
    simp
  · simp [entryAt, href]

section Exec

variable {s t : Clusters} {answers : List (Sigma Request.Reply)}

theorem exec_ofExcept {ε α : Type} {x r : Except ε α} :
    Exec (Serves Free) s (Calls.ofExcept x).run answers t r ↔ answers = [] ∧ t = s ∧ r = x :=
  exec_done

@[simp] theorem ofExcept_ok_bind {ε α β : Type} (a : α) (f : α → Calls ε β) :
    (Calls.ofExcept (.ok a) >>= f) = f a := rfl

theorem exec_ofExcept_bind_ok {ε α β : Type} {x : Except ε α} {f : α → Calls ε β} {b : β} :
    Exec (Serves Free) s (Calls.ofExcept x >>= f).run answers t (.ok b) ↔
      ∃ a, x = .ok a ∧ Exec (Serves Free) s (f a).run answers t (.ok b) := by
  rw [exec_bind_ok]
  constructor
  · rintro ⟨_, _, a, _, rfl, hx, hf⟩
    obtain ⟨rfl, rfl, hx'⟩ := exec_ofExcept.mp hx
    exact ⟨a, hx'.symm, hf⟩
  · rintro ⟨a, rfl, hf⟩
    exact ⟨[], s, a, answers, rfl, .done _ _, hf⟩

theorem exec_send {q : Request} {r : q.Reply} :
    Exec (Serves Free) s (Calls.send q) answers t r ↔
      answers = [⟨q, r⟩] ∧ Serves Free s q r t := by
  rw [Calls.send, Prog.request, exec_ask]
  constructor
  · rintro ⟨x, u, rest, rfl, hserve, hdone⟩
    obtain ⟨rfl, rfl, rfl⟩ := exec_done.mp hdone
    exact ⟨rfl, hserve⟩
  · rintro ⟨rfl, hserve⟩
    exact ⟨r, t, [], rfl, hserve, .done _ _⟩

theorem serves_ok {guard : Clusters → Request → Prop} {q : Request} {x : q.Answer} :
    Serves guard s q (.ok x) t ↔ guard s q ∧ x = (q.result s).1 ∧ t = (q.result s).2 := by
  constructor
  · intro h
    cases h with
    | answered hg => exact ⟨hg, rfl, rfl⟩
  · rintro ⟨hg, rfl, rfl⟩
    exact .answered hg

theorem Serves.state_eq {guard : Clusters → Request → Prop} {q : Request} {x : q.Reply}
    (h : Serves guard s q x t) : t = s ∨ t = (q.result s).2 := by
  cases h with
  | answered => exact .inr rfl
  | refused => exact .inl rfl
  | lost => exact .inr rfl

theorem serves_read {guard : Clusters → Request → Prop} {q : Request} {x : q.Reply}
    (hread : q.isRead = true) (h : Serves guard s q x t) :
    t = s ∧ (x.isOk = true → ∀ reg, (storeOf reg s).answer q = (x, storeOf reg s)) := by
  have hkeeps : (q.result s).2 = s ∧
      ∀ reg, (storeOf reg s).answer q = (.ok (q.result s).1, storeOf reg s) := by
    cases q with
    | get => exact ⟨rfl, fun _ => rfl⟩
    | getPrefix => exact ⟨rfl, fun _ => rfl⟩
    | connect => cases hread
    | txn => cases hread
    | txnIfAbsent => cases hread
  cases h with
  | answered => exact ⟨hkeeps.1, fun _ => hkeeps.2⟩
  | refused => exact ⟨rfl, nofun⟩
  | lost => exact ⟨hkeeps.1, nofun⟩

/-- A program that only reads leaves the clusters alone, and if its reads are
answered it returns what the store's model does. -/
theorem exec_of_asks_isRead (reg : PartitionRegistry) {α : Type}
    {p : Prog Request Request.Reply α} {a : α} (hp : p.Asks fun q => q.isRead = true)
    (h : Exec (Serves Free) s p answers t a) :
    t = s ∧ (readsAnswered answers = true →
      p.eval Store.answer (storeOf reg s) = (a, storeOf reg s)) := by
  induction h with
  | done s a => exact ⟨rfl, fun _ => rfl⟩
  | @ask s t u q x k answers a hserve _ ih =>
    obtain ⟨hread, hk⟩ := hp
    obtain ⟨rfl, hx⟩ := serves_read hread hserve
    obtain ⟨rfl, heval⟩ := ih (hk x)
    refine ⟨rfl, fun hanswered => ?_⟩
    simp only [readsAnswered, List.all_cons, hread, Bool.not_true, Bool.false_or,
      Bool.and_eq_true] at hanswered
    rw [eval, hx hanswered.1 reg]
    exact heval hanswered.2

theorem exec_unwrapOr_ok {ε ε' α : Type} {d a : α} {p : Calls ε α} :
    Exec (Serves Free) s (Calls.unwrapOr d p : Calls ε' α).run answers t (.ok a) ↔
      ∃ r, Exec (Serves Free) s p.run answers t r ∧ a = r.toOption.getD d := by
  refine exec_bind.trans ?_
  constructor
  · rintro ⟨_, _, r, _, rfl, hp, hdone⟩
    obtain ⟨rfl, rfl, ha⟩ := exec_done.mp hdone
    rw [List.append_nil]
    exact ⟨r, hp, Except.ok.inj ha⟩
  · rintro ⟨r, hp, rfl⟩
    exact ⟨answers, t, r, [], (List.append_nil _).symm, hp, .done _ _⟩

theorem exec_unwrapOr_bind {ε ε' α β : Type} {d : α} {p : Calls ε α} {f : α → Calls ε' β}
    {r : Except ε' β}
    (h : Exec (Serves Free) s ((Calls.unwrapOr d p : Calls ε' α) >>= f).run answers t r) :
    ∃ first u x rest, answers = first ++ rest ∧ Exec (Serves Free) s p.run first u x ∧
      Exec (Serves Free) u (f (x.toOption.getD d)).run rest t r := by
  cases exec_bind_except h with
  | inl h =>
    obtain ⟨_, -, h⟩ := h
    obtain ⟨_, _, _, _, -, -, hdone⟩ := exec_bind.mp h
    obtain ⟨-, -, hok⟩ := exec_done.mp hdone
    cases hok
  | inr h =>
    obtain ⟨first, u, a, rest, rfl, hp, hf⟩ := h
    obtain ⟨x, hx, rfl⟩ := exec_unwrapOr_ok.mp hp
    exact ⟨first, u, x, rest, rfl, hx, hf⟩

theorem exec_get_ok {ref : ClusterRef} {key : Str} {v : Option Value} :
    Exec (Serves Free) s (Calls.get ref key).run answers t (.ok v) ↔
      answers = [⟨.get ref key, .ok v⟩] ∧ v = (s ref).find? key ∧ t = s :=
  exec_send.trans (and_congr_right fun _ => serves_ok.trans (and_iff_right trivial))

theorem exec_getPrefix_ok {ref : ClusterRef} {pfx : Str} {rows : List (Str × Value)} :
    Exec (Serves Free) s (Calls.getPrefix ref pfx).run answers t (.ok rows) ↔
      answers = [⟨.getPrefix ref pfx, .ok rows⟩] ∧
        rows = ((s ref).scan fun k => pfx.isPrefixOf k) ∧ t = s :=
  exec_send.trans (and_congr_right fun _ => serves_ok.trans (and_iff_right trivial))

theorem exec_dial_ok {ref : ClusterRef} :
    Exec (Serves Free) s (Calls.dial ref).run answers t (.ok ()) ↔
      answers = [⟨.connect ref, .ok ()⟩] ∧ t = s :=
  exec_send.trans (and_congr_right fun _ => serves_ok.trans
    ((and_iff_right trivial).trans (and_iff_right rfl)))

theorem exec_txn_ok {ref : ClusterRef} {ops : List (TxnOp Str Value)} :
    Exec (Serves Free) s (Calls.txn ref ops).run answers t (.ok ()) ↔
      answers = [⟨.txn ref ops, .ok ()⟩] ∧
        t = Function.update s ref (TxnOp.applyAll ops (s ref)) :=
  exec_send.trans (and_congr_right fun _ => serves_ok.trans
    ((and_iff_right trivial).trans (and_iff_right rfl)))

theorem exec_txn {ref : ClusterRef} {ops : List (TxnOp Str Value)} {r : Except StoreError Unit}
    (h : Exec (Serves Free) s (Calls.txn ref ops).run answers t r) :
    t = s ∨ t = Function.update s ref (TxnOp.applyAll ops (s ref)) := by
  obtain ⟨-, hserve⟩ := (exec_send (q := .txn ref ops)).mp h
  exact hserve.state_eq

theorem exec_dial {ref : ClusterRef} {r : Except StoreError Unit}
    (h : Exec (Serves Free) s (Calls.dial ref).run answers t r) : t = s := by
  obtain ⟨-, hserve⟩ := (exec_send (q := .connect ref)).mp h
  exact hserve.state_eq.elim id id

theorem asks_readEntry (ref : ClusterRef) (pid : PartitionId) (dn : Dn) :
    (Calls.readEntry ref pid dn).run.Asks fun q => q.isRead = true := by
  refine Asks.bind_except ⟨rfl, fun _ => trivial⟩ fun v => ?_
  cases v with
  | none => trivial
  | some v => exact Asks.bind_except trivial fun _ => trivial

theorem exec_readEntry_ok {ref : ClusterRef} {pid : PartitionId} {dn : Dn} {e : Option Entry}
    (h : Exec (Serves Free) s (Calls.readEntry ref pid dn).run answers t (.ok e)) :
    t = s ∧ readsAnswered answers = true := by
  obtain ⟨_, _, v, _, rfl, hget, h'⟩ := exec_bind_ok.mp h
  obtain ⟨rfl, -, rfl⟩ := exec_get_ok.mp hget
  cases v with
  | none =>
    obtain ⟨rfl, rfl, -⟩ := exec_done.mp h'
    exact ⟨rfl, rfl⟩
  | some v =>
    obtain ⟨_, _, _, _, rfl, hdecode, h''⟩ := exec_bind_ok.mp h'
    obtain ⟨rfl, rfl, -⟩ := exec_ofExcept.mp hdecode
    obtain ⟨rfl, rfl, -⟩ := exec_done.mp h''
    exact ⟨rfl, rfl⟩

theorem exec_putEntry_ok {reg : PartitionRegistry} {dn : Dn} {e : Entry} {spec : IndexSpec}
    (h : Exec (Serves Free) s (Calls.putEntry reg dn e spec).run answers t (.ok ())) :
    ∃ pid ref, Calls.locate reg dn = .ok (pid, ref) ∧ Stores ref pid dn e s t ∧
      readsAnswered answers = true := by
  obtain ⟨_, _, ⟨pid, ref⟩, _, rfl, hlocate, hrest⟩ := exec_bind_ok.mp h
  obtain ⟨rfl, rfl, hplace⟩ := exec_ofExcept.mp hlocate
  obtain ⟨_, _, old, _, rfl, hread, htxn⟩ := exec_bind_ok.mp hrest
  obtain ⟨rfl, hanswered⟩ := exec_readEntry_ok hread
  obtain ⟨rfl, rfl⟩ := exec_txn_ok.mp htxn
  refine ⟨pid, ref, hplace.symm, entryAt_update_putOps _ ref pid dn old e spec, ?_⟩
  rw [List.nil_append, readsAnswered_append, hanswered]
  rfl

theorem exec_putEntry {reg : PartitionRegistry} {dn : Dn} {e : Entry} {spec : IndexSpec}
    {r : Except StoreError Unit}
    (h : Exec (Serves Free) s (Calls.putEntry reg dn e spec).run answers t r) :
    t = s ∨ ∃ pid ref, Calls.locate reg dn = .ok (pid, ref) ∧ Stores ref pid dn e s t := by
  cases exec_bind_except h with
  | inl h =>
    obtain ⟨_, -, hlocate⟩ := h
    exact .inl (exec_ofExcept.mp hlocate).2.1
  | inr h =>
    obtain ⟨_, _, ⟨pid, ref⟩, _, rfl, hlocate, hrest⟩ := h
    obtain ⟨rfl, rfl, hplace⟩ := exec_ofExcept.mp hlocate
    cases exec_bind_except hrest with
    | inl h =>
      obtain ⟨_, -, hread⟩ := h
      exact .inl (exec_of_asks_isRead reg (asks_readEntry ref pid dn) hread).1
    | inr h =>
      obtain ⟨_, _, old, _, rfl, hread, htxn⟩ := h
      obtain ⟨rfl, -⟩ := exec_of_asks_isRead reg (asks_readEntry ref pid dn) hread
      refine (exec_txn htxn).imp_right fun ht => ⟨pid, ref, hplace.symm, ?_⟩
      exact ht ▸ entryAt_update_putOps _ ref pid dn old e spec

theorem exec_scanSubtree_ok {reg : PartitionRegistry} {dn : Dn} {rows : List (Dn × Entry)}
    (h : Exec (Serves Free) s (Calls.scanSubtree reg dn).run answers t (.ok rows)) :
    readsAnswered answers = true := by
  obtain ⟨_, _, ⟨pid, ref⟩, _, rfl, hlocate, hscan⟩ := exec_bind_ok.mp h
  obtain ⟨rfl, -, -⟩ := exec_ofExcept.mp hlocate
  obtain ⟨_, _, out, _, rfl, hrange, hrest⟩ := exec_bind_ok.mp hscan
  obtain ⟨rfl, -, -⟩ := exec_getPrefix_ok.mp hrange
  obtain ⟨_, _, base, _, rfl, hbase, hrows⟩ := exec_bind_ok.mp hrest
  obtain ⟨rfl, -, -⟩ := exec_get_ok.mp hbase
  obtain ⟨rfl, -, -⟩ := exec_ofExcept.mp hrows
  rfl

theorem asks_scanSubtree (reg : PartitionRegistry) (dn : Dn) :
    (Calls.scanSubtree reg dn).run.Asks fun q => q.isRead = true := by
  refine Asks.bind_except trivial fun located => ?_
  obtain ⟨pid, ref⟩ := located
  refine Asks.bind_except ⟨rfl, fun _ => trivial⟩ fun out => ?_
  exact Asks.bind_except ⟨rfl, fun _ => trivial⟩ fun base => trivial

theorem asks_lookupByIndex (reg : PartitionRegistry) (dn : Dn) (attr value : Str) :
    (Calls.lookupByIndex reg dn attr value).run.Asks fun q => q.isRead = true := by
  refine Asks.bind_except trivial fun located => ?_
  exact Asks.bind_except ⟨rfl, fun _ => trivial⟩ fun rows => trivial

theorem asks_getEntry (reg : PartitionRegistry) (dn : Dn) :
    (Calls.getEntry reg dn).run.Asks fun q => q.isRead = true :=
  Asks.bind_except trivial fun located => asks_readEntry located.2 located.1 dn

end Exec

section Safe

variable {guard : Clusters → Request → Prop} {R : Clusters → Clusters → Prop} {s : Clusters}

theorem safe_ofExcept {ε α : Type} {x : Except ε α} {P : Clusters → α → Prop}
    (h : ∀ a, x = .ok a → ∀ t, R s t → P t a) :
    Safe (Serves guard) R (WhenOk P) (Calls.ofExcept x).run s :=
  fun t hst a ha => h a ha t hst

theorem safe_pure {ε α : Type} {a : α} {P : Clusters → α → Prop}
    (h : ∀ t, R s t → P t a) : Safe (Serves guard) R (WhenOk P) (pure a : Calls ε α).run s :=
  safe_ofExcept (x := .ok a) fun _ hb t hst => Except.ok.inj hb ▸ h t hst

theorem safe_ofExcept_bind {ε α β : Type} {x : Except ε α} {f : α → Calls ε β}
    {P : Clusters → β → Prop}
    (h : ∀ a, x = .ok a → Safe (Serves guard) R (WhenOk P) (f a).run s) :
    Safe (Serves guard) R (WhenOk P) (Calls.ofExcept x >>= f).run s := by
  cases x with
  | error e => exact fun _ _ _ ha => nomatch ha
  | ok a => exact h a rfl

variable [Std.Refl R]

/-- A request is safe if its effect is allowed, and what it answers is good for
as long as only such effects follow. -/
theorem safe_send {q : Request} {P : Clusters → q.Answer → Prop}
    (h : ∀ t, R s t → guard t q →
      R t (q.result t).2 ∧ ∀ u, R (q.result t).2 u → P u (q.result t).1) :
    Safe (Serves guard) R (WhenOk P) (Calls.send q) s := by
  intro t hst x u hserve
  cases hserve with
  | answered hg =>
    obtain ⟨htu, hpost⟩ := h t hst hg
    refine ⟨htu, fun v huv a ha => ?_⟩
    cases ha
    exact hpost v huv
  | refused e => exact ⟨refl_of R t, fun _ _ _ ha => nomatch ha⟩
  | lost e hg => exact ⟨(h t hst hg).1, fun _ _ _ ha => nomatch ha⟩

theorem safe_get {ref : ClusterRef} {key : Str} {P : Clusters → Option Value → Prop}
    (h : ∀ t u, R s t → R t u → P u ((t ref).find? key)) :
    Safe (Serves guard) R (WhenOk P) (Calls.get ref key).run s :=
  safe_send (q := .get ref key) fun t hst _ => ⟨refl_of R t, fun u htu => h t u hst htu⟩

theorem safe_getPrefix {ref : ClusterRef} {pfx : Str} {P : Clusters → List (Str × Value) → Prop}
    (h : ∀ t u, R s t → R t u → P u ((t ref).scan fun k => pfx.isPrefixOf k)) :
    Safe (Serves guard) R (WhenOk P) (Calls.getPrefix ref pfx).run s :=
  safe_send (q := .getPrefix ref pfx) fun t hst _ => ⟨refl_of R t, fun u htu => h t u hst htu⟩

theorem safe_of_asks {ε α : Type} {p : Prog Request Request.Reply (Except ε α)}
    (hp : p.Asks fun q => q.isRead = true) :
    Safe (Serves guard) R (WhenOk fun _ _ => True) p s := by
  induction p generalizing s with
  | done r => exact fun _ _ _ _ => trivial
  | ask q k ih =>
    intro t hst x u hserve
    obtain ⟨rfl, -⟩ := serves_read hp.1 hserve
    exact ⟨refl_of R u, ih x (hp.2 x)⟩

variable [IsTrans Clusters R] {reg : PartitionRegistry} {dn : Dn} {e : Entry} {spec : IndexSpec}

theorem safe_createEntry {pid : PartitionId} {ref : ClusterRef} {P : Clusters → Prop}
    (hlocate : Calls.locate reg dn = .ok (pid, ref))
    (h : ∀ t u, R s t → entryAt t ref pid dn = none → Stores ref pid dn e t u → R t u)
    (hpost : ∀ t u, R s t → R t u → entryAt t ref pid dn ≠ none → P u) :
    Safe (Serves guard) R (WhenOk fun u _ => P u) (Calls.createEntry reg dn e spec).run s := by
  rw [Calls.createEntry, hlocate]
  refine safe_send (q := .txnIfAbsent ref (Key.entryKey pid dn) (Index.createOps pid dn e spec))
    fun t hst _ => ?_
  cases hfound : (t ref).find? (Key.entryKey pid dn) with
  | some v =>
    simp only [Request.result, hfound]
    refine ⟨refl_of R t, fun u htu => hpost t u hst htu ?_⟩
    rw [entryAt, hfound]
    exact Option.some_ne_none v
  | none =>
    simp only [Request.result, hfound, Index.createOps_eq]
    have hstores := entryAt_update_putOps t ref pid dn none e spec
    have hstep := h t _ hst hfound hstores
    refine ⟨hstep, fun u hu => hpost _ u (trans_of R hst hstep) hu ?_⟩
    rw [hstores, if_pos ⟨rfl, rfl⟩]
    exact Option.some_ne_none _

theorem safe_scanSubtree {P : Clusters → List (Dn × Entry) → Prop}
    (h : ∀ pid ref, Calls.locate reg dn = .ok (pid, ref) → ∀ t u base entries, R s t → R t u →
      (Calls.withBase (Key.entryKey pid dn) base
        ((t ref).scan fun k => (Key.subtreePrefix pid dn).isPrefixOf k)).mapM (Tree.readRow pid) =
          .ok entries → P u entries) :
    Safe (Serves guard) R (WhenOk P) (Calls.scanSubtree reg dn).run s := by
  refine safe_ofExcept_bind fun located hlocate => ?_
  refine safe_bind_ok (safe_getPrefix (P := fun u rows => ∃ t, R s t ∧ R t u ∧
    rows = (t located.2).scan fun k => (Key.subtreePrefix located.1 dn).isPrefixOf k)
    fun t u hst htu => ⟨t, hst, htu, rfl⟩) ?_
  rintro u rows - ⟨t, hst, htu, rfl⟩
  refine safe_bind_ok (safe_get (P := fun _ _ => True) fun _ _ _ _ => trivial) ?_
  intro v base huv _
  exact safe_ofExcept fun entries hentries w hvw =>
    h located.1 located.2 hlocate t w base entries hst
      (trans_of R htu (trans_of R huv hvw)) hentries

end Safe

def serveAll (s : Clusters) (q : Request) : q.Reply × Clusters :=
  (.ok (q.result s).1, (q.result s).2)

theorem exec_serveAll {α : Type} (p : Prog Request Request.Reply α) (s : Clusters) :
    Exec (Serves Free) s p (p.replies serveAll s) (p.eval serveAll s).2 (p.eval serveAll s).1 :=
  exec_eval id (fun _ _ => .answered trivial) p s

theorem readsAnswered_serveAll {α : Type} (p : Prog Request Request.Reply α) (s : Clusters) :
    readsAnswered (p.replies serveAll s) = true := by
  induction p generalizing s with
  | done a => rfl
  | ask q k ih =>
    rw [replies, readsAnswered, List.all_cons, ← readsAnswered, ih]
    simp [serveAll, Except.isOk, Except.toBool]

end IronDirectory.Storage
