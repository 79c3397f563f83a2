import IronDirectory.Defs.Gc.WatchLaws
import IronDirectory.Defs.Ldap.Search

namespace IronDirectory.Gc

open Base Naming Storage Ldap

structure AppState where
  registry : PartitionRegistry
  aggregate : Aggregate

-- No attribute is held back here: what may not be shown never came in.
def projectAttributes (req : SearchRequest) (entry : Entry) : List PartialAttribute :=
  req.projectWith (fun name => req.wantAll || req.explicitlyRequested name)
    (fun _ value => value.toUtf8) entry

def candidates (order : List MapOp → List Str) (a : Aggregate) (scope : Scope) (baseDn : Dn) :
    Except LdapResult (List (Dn × Entry)) :=
  let within := (a.snapshot order).filter fun row => row.1.isWithin baseDn
  match scope with
  | .baseObject =>
    match a.get baseDn with
    | some e => .ok [(baseDn, e)]
    | none => .error (.new .noSuchObject "")
  | .singleLevel => .ok (within.filter fun row => row.1.depth = baseDn.depth + 1)
  | .wholeSubtree => .ok within
  | .unrecognized => .error (.new .protocolError "unrecognized search scope")

def handleSearch (u : Unicode) (order : List MapOp → List Str) (app : AppState)
    (req : SearchRequest) : List SearchOp :=
  match Dn.parse req.baseObject with
  | .error _ => done .invalidDnSyntax "invalid base DN"
  | .ok baseDn =>
    if baseDn.isEmpty ∧ req.scope = .baseObject then
      .entry (Rootdse.build app.registry false) :: done .success ""
    else
      match candidates order app.aggregate req.scope baseDn with
      | .error result => [.done result]
      | .ok rows => req.answer u (projectAttributes req) 0 rows

inductive Fed
  | row (p : Partition) (row : Str × Value)
  | change (p : Partition) (change : Watch.EntryChange)
  | ready (pid : PartitionId)

def Fed.apply (whitelist : List Str) (a : Aggregate) : Fed → Aggregate
  | .row p r => applyRow p whitelist r a
  | .change p c => applyChange p whitelist c a
  | .ready pid => a.markReady pid

def replica (whitelist : List Str) (history : List Fed) : Aggregate :=
  history.foldl (Fed.apply whitelist) .new

/-- The same key, with values that the projection does not tell apart. -/
inductive Fed.Alike (whitelist : List Str) : Fed → Fed → Prop
  | row {p : Partition} {key : Str} {v v' : Value} : kept whitelist v = kept whitelist v' →
    Alike whitelist (.row p (key, v)) (.row p (key, v'))
  | put {p : Partition} {key : Str} {e e' : Entry} : project e whitelist = project e' whitelist →
    Alike whitelist (.change p (.put key e)) (.change p (.put key e'))
  | delete {p : Partition} {key : Str} :
    Alike whitelist (.change p (.delete key)) (.change p (.delete key))
  | ready {pid : PartitionId} : Alike whitelist (.ready pid) (.ready pid)

variable {whitelist : List Str}

theorem applyRow_eq (p : Partition) (key : Str) (v : Value) (a : Aggregate) :
    applyRow p whitelist (key, v) a =
      match kept whitelist v, Tree.dnFromTreeKey p.id key with
      | some e, .ok dn => a.upsert dn e
      | _, _ => a := by
  cases v with
  | text s => rfl
  | entry e =>
    rw [applyRow, applyPut, Value.decode, Outcome.ok_bind, applyEntry, kept]
    cases Tree.dnFromTreeKey p.id key with
    | ok dn => rfl
    | error e => rfl

theorem applyEntry_congr {p : Partition} {key : Str} {e e' : Entry} {a : Aggregate}
    (h : project e whitelist = project e' whitelist) :
    applyEntry p whitelist key e a = applyEntry p whitelist key e' a := by
  rw [applyEntry, applyEntry, h]

theorem Fed.Alike.apply {f f' : Fed} (h : Fed.Alike whitelist f f') (a : Aggregate) :
    f.apply whitelist a = f'.apply whitelist a := by
  cases h with
  | row hkept => rw [Fed.apply, Fed.apply, applyRow_eq, applyRow_eq, hkept]
  | put hproject =>
    simp only [Fed.apply, applyChange]
    rw [applyEntry_congr hproject]
  | delete => rfl
  | ready => rfl

theorem replica_eq {history history' : List Fed}
    (h : List.Forall₂ (Fed.Alike whitelist) history history') :
    replica whitelist history = replica whitelist history' := by
  rw [replica, replica]
  generalize Aggregate.new = a
  induction h generalizing a with
  | nil => rfl
  | cons hf _ ih =>
    rw [List.foldl_cons, List.foldl_cons, hf.apply]
    exact ih _

section Whitelisted

def Whitelisted (whitelist : List Str) (e : Entry) : Prop :=
  ∀ name ∈ e.attrNames, (whitelist.any fun w => w.eqIgnoreAsciiCase name) = true

theorem eqIgnoreAsciiCase_asciiLower (w name : Str) :
    w.eqIgnoreAsciiCase name.asciiLower = w.eqIgnoreAsciiCase name := by
  simp [Str.eqIgnoreAsciiCase]

theorem whitelisted_project (e : Entry) (whitelist : List Str) :
    Whitelisted whitelist (project e whitelist) := by
  refine List.foldlRecOn e.attrNames _ (fun _ h => nomatch h) fun projected ih name _ => ?_
  rw [projectStep]
  split
  · next hname =>
    split
    · intro name' hname'
      obtain ⟨⟨k, v⟩, hmem, rfl⟩ := List.mem_map.mp hname'
      obtain heq | hold := OrderedMap.mem_insertList hmem
      · cases heq
        simpa only [eqIgnoreAsciiCase_asciiLower] using hname
      · exact ih _ (List.mem_map.mpr ⟨_, hold, rfl⟩)
    · exact ih
  · exact ih

def Projected (whitelist : List Str) (a : Aggregate) : Prop :=
  ∀ text dn e, a.entries.find? text = some (dn, e) → Whitelisted whitelist e

theorem Projected.upsert {a : Aggregate} (h : Projected whitelist a) (dn : Dn) {e : Entry}
    (he : Whitelisted whitelist e) : Projected whitelist (a.upsert dn e) := by
  intro text dn' e' hfind
  rw [Aggregate.upsert, OrderedMap.find?_insert] at hfind
  split at hfind
  · cases hfind
    exact he
  · exact h text dn' e' hfind

theorem Projected.remove {a : Aggregate} (h : Projected whitelist a) (dn : Dn) :
    Projected whitelist (a.remove dn) := by
  intro text dn' e hfind
  rw [Aggregate.remove, OrderedMap.find?_erase] at hfind
  split at hfind
  · cases hfind
  · exact h text dn' e hfind

theorem Projected.applyEntry {a : Aggregate} (h : Projected whitelist a) (p : Partition)
    (key : Str) (e : Entry) :
    Projected whitelist (((applyEntry p whitelist key e a).toOption).getD a) := by
  rw [Gc.applyEntry]
  cases Tree.dnFromTreeKey p.id key with
  | error e => exact h
  | ok dn => exact h.upsert dn (whitelisted_project e whitelist)

theorem Projected.apply {a : Aggregate} (h : Projected whitelist a) (f : Fed) :
    Projected whitelist (f.apply whitelist a) := by
  cases f with
  | row p r =>
    obtain ⟨key, v⟩ := r
    cases v with
    | text s => exact h
    | entry e => exact h.applyEntry p key e
  | change p c =>
    cases c with
    | put key e => exact h.applyEntry p key e
    | delete key =>
      simp only [Fed.apply, applyChange]
      split
      · exact h.remove _
      · exact h
  | ready pid => exact h

/-- Nothing outside the whitelist ever enters the replica. -/
theorem projected_replica (whitelist : List Str) (history : List Fed) :
    Projected whitelist (replica whitelist history) :=
  List.foldlRecOn history _ (fun _ _ _ h => nomatch h) fun _ h f _ => h.apply f

end Whitelisted

section Watcher

variable {p : Partition}

def fedBy (p : Partition) (x : System × Action) : List Fed :=
  match x.2, x.1.stage with
  | .load, .loading (row :: _) => [.row p row]
  | .ready, _ => [.ready p.id]
  | .deliver, _ =>
    match Watch.nextEntryChange x.1.stream with
    | .ok (some c, _) => [.change p c]
    | _ => []
  | _, _ => []

theorem Step.fed {s s' : System} {act : Action} (h : Step p whitelist s act s') :
    s'.aggregate = (fedBy p (s, act)).foldl (Fed.apply whitelist) s.aggregate := by
  cases h with
  | write _ => rfl
  | subscribe _ => rfl
  | range _ => rfl
  | base _ => rfl
  | load hstage => simp [fedBy, hstage, Fed.apply]
  | ready hstage => simp [fedBy, Fed.apply]
  | deliver hstage hnext => simp [fedBy, hnext, Fed.apply]
  | disconnect => rfl

theorem aggregate_of_run {s t : System} {steps : List (System × Action)}
    (h : Run (Step p whitelist) s steps t) :
    t.aggregate = (steps.flatMap (fedBy p)).foldl (Fed.apply whitelist) s.aggregate := by
  induction h with
  | nil s => rfl
  | cons hstep _ ih => rw [List.flatMap_cons, List.foldl_append, ← hstep.fed, ih]

end Watcher

/-- Two histories that the projection does not tell apart give the same answer
to every search. -/
theorem handleSearch_confidential (u : Unicode) (order : List MapOp → List Str)
    (registry : PartitionRegistry) (whitelist : List Str) {history history' : List Fed}
    (h : List.Forall₂ (Fed.Alike whitelist) history history') (req : SearchRequest) :
    handleSearch u order ⟨registry, replica whitelist history⟩ req =
      handleSearch u order ⟨registry, replica whitelist history'⟩ req := by
  rw [replica_eq h]

section Samples

open Tracked (corp corpPerson withMail)

def secretPut (password : Str) : Fed :=
  .change corp
    (.put (Key.entryKey corp.id (corpPerson "Alice"))
      ((withMail "alice@corp").set "userpassword" [password]))

def allBelowCorp : SearchRequest :=
  ⟨"dc=corp", .wholeSubtree, 0, false, .present "mail", ["*"]⟩

theorem handleSearch_secretPut :
    (handleSearch Unicode.ascii (fun _ => ["cn=alice,dc=corp"])
      ⟨.new, replica ["mail"] [secretPut "one"]⟩ allBelowCorp).length = 2 ∧
    handleSearch Unicode.ascii (fun _ => ["cn=alice,dc=corp"])
      ⟨.new, replica ["mail"] [secretPut "one"]⟩ allBelowCorp =
    handleSearch Unicode.ascii (fun _ => ["cn=alice,dc=corp"])
      ⟨.new, replica ["mail"] [secretPut "two"]⟩ allBelowCorp :=
  ⟨by decide +kernel, handleSearch_confidential Unicode.ascii _ .new ["mail"]
    (.cons (.put rfl) .nil) allBelowCorp⟩

end Samples

end IronDirectory.Gc
