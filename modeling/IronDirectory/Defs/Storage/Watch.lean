import IronDirectory.Defs.Storage.Store

namespace IronDirectory.Storage.Watch

open Base Naming

inductive EventType
  | put
  | delete
  deriving DecidableEq

structure KeyValue where
  key : Option Str
  value : Value

structure Event where
  eventType : EventType
  kv : Option KeyValue

structure Response where
  events : List Event

structure SubtreeEvent where
  key : Str
  kind : EventType
  value : Value

def Event.subtreeEvent (e : Event) : Option SubtreeEvent :=
  e.kv.map fun kv => ⟨kv.key.getD [], e.eventType, kv.value⟩

abbrev Stream := List (Except StoreError Response)

def nextSubtreeEvent : Stream → Except StoreError (Option SubtreeEvent × Stream)
  | [] => .ok (none, [])
  | .error e :: _ => .error e
  | .ok resp :: stream =>
    match resp.events.head?.bind Event.subtreeEvent with
    | some event => .ok (some event, stream)
    | none => nextSubtreeEvent stream

inductive EntryChange
  | put (key : Str) (entry : Entry)
  | delete (key : Str)

def SubtreeEvent.change (event : SubtreeEvent) : Except StoreError EntryChange :=
  match event.kind with
  | .delete => .ok (.delete event.key)
  | .put => do return .put event.key (← event.value.decode)

def nextEntryChange (stream : Stream) : Except StoreError (Option EntryChange × Stream) := do
  match ← nextSubtreeEvent stream with
  | (none, stream) => return (none, stream)
  | (some event, stream) => return (some (← event.change), stream)

def deliveries : Nat → Stream → List SubtreeEvent
  | 0, _ => []
  | n + 1, stream =>
    match nextSubtreeEvent stream with
    | .ok (some event, stream) => event :: deliveries n stream
    | _ => []

def eventsOf (responses : List Response) : List SubtreeEvent :=
  responses.flatMap fun resp => resp.events.filterMap Event.subtreeEvent

def Lossless (responses : List Response) : Prop :=
  ∀ n ≥ (eventsOf responses).length, deliveries n (responses.map .ok) = eventsOf responses

def Response.first (resp : Response) : Option SubtreeEvent :=
  resp.events.head?.bind Event.subtreeEvent

theorem nextSubtreeEvent_ok (resp : Response) (stream : Stream) :
    nextSubtreeEvent (.ok resp :: stream) =
      match resp.first with
      | some event => .ok (some event, stream)
      | none => nextSubtreeEvent stream := rfl

theorem deliveries_eq {n : Nat} {responses : List Response}
    (h : (responses.filterMap Response.first).length ≤ n) :
    deliveries n (responses.map .ok) = responses.filterMap Response.first := by
  induction responses generalizing n with
  | nil => cases n <;> rfl
  | cons resp responses ih =>
    rw [List.filterMap_cons] at h ⊢
    cases n with
    | zero => rw [deliveries, List.eq_nil_of_length_eq_zero (Nat.le_zero.mp h)]
    | succ n =>
      rw [List.map_cons, deliveries, nextSubtreeEvent_ok]
      cases hfirst : resp.first with
      | some event =>
        rw [hfirst] at h
        simp only [ih (Nat.le_of_succ_le_succ h)]
      | none =>
        rw [hfirst] at h
        exact ih h

theorem filterMap_events (resp : Response) :
    resp.events.filterMap Event.subtreeEvent =
      resp.first.toList ++ resp.events.tail.filterMap Event.subtreeEvent := by
  obtain ⟨events⟩ := resp
  cases events with
  | nil => rfl
  | cons e events =>
    simp only [Response.first, List.head?_cons, Option.bind_some, List.tail_cons,
      List.filterMap_cons]
    cases e.subtreeEvent with
    | none => rfl
    | some event => rfl

theorem eventsOf_cons (resp : Response) (responses : List Response) :
    eventsOf (resp :: responses) = resp.first.toList ++
      (resp.events.tail.filterMap Event.subtreeEvent ++ eventsOf responses) := by
  rw [eventsOf, List.flatMap_cons, filterMap_events, List.append_assoc]
  rfl

theorem filterMap_first_cons (resp : Response) (responses : List Response) :
    (resp :: responses).filterMap Response.first =
      resp.first.toList ++ responses.filterMap Response.first := by
  rw [List.filterMap_cons]
  cases resp.first with
  | none => rfl
  | some event => rfl

theorem length_filterMap_first_le (responses : List Response) :
    (responses.filterMap Response.first).length ≤ (eventsOf responses).length := by
  induction responses with
  | nil => simp
  | cons resp responses ih =>
    rw [filterMap_first_cons, eventsOf_cons]
    simp only [List.length_append]
    omega

/-- No event is lost exactly when those after the first of a response carry no
key. -/
theorem lossless_iff (responses : List Response) :
    Lossless responses ↔ ∀ resp ∈ responses, ∀ e ∈ resp.events.tail, e.kv = none := by
  have hlossless : Lossless responses ↔
      responses.filterMap Response.first = eventsOf responses :=
    ⟨fun h => (deliveries_eq (length_filterMap_first_le responses)).symm.trans
        (h _ (Nat.le_refl _)),
      fun h n hn => (deliveries_eq ((length_filterMap_first_le responses).trans hn)).trans h⟩
  rw [hlossless]
  clear hlossless
  induction responses with
  | nil => simp [eventsOf]
  | cons resp responses ih =>
    have htail : resp.events.tail.filterMap Event.subtreeEvent = [] ↔
        ∀ e ∈ resp.events.tail, e.kv = none := by
      simp [List.filterMap_eq_nil_iff, Event.subtreeEvent]
    rw [filterMap_first_cons, eventsOf_cons, List.append_cancel_left_eq, List.forall_mem_cons]
    refine Iff.trans ?_ (and_congr htail ih)
    constructor
    · intro h
      -- the rest has at least as many events as it delivers
      have hlen := congrArg List.length h
      have hle := length_filterMap_first_le responses
      rw [List.length_append] at hlen
      have hnil : resp.events.tail.filterMap Event.subtreeEvent = [] :=
        List.eq_nil_of_length_eq_zero (by omega)
      exact ⟨hnil, by simpa [hnil] using h⟩
    · rintro ⟨hnil, h⟩
      rw [hnil, h, List.nil_append]

def pairResponse : Response :=
  ⟨[⟨.put, some ⟨some "/iron/corp/tree/dc=corp/cn=a", .entry .new⟩⟩,
    ⟨.put, some ⟨some "/iron/corp/tree/dc=corp/cn=b", .entry .new⟩⟩]⟩

theorem second_event_lost :
    (deliveries 2 [.ok pairResponse]).map SubtreeEvent.key = ["/iron/corp/tree/dc=corp/cn=a"] ∧
      (eventsOf [pairResponse]).map SubtreeEvent.key =
        ["/iron/corp/tree/dc=corp/cn=a", "/iron/corp/tree/dc=corp/cn=b"] ∧
      ¬ Lossless [pairResponse] := by
  refine ⟨rfl, rfl, fun h => ?_⟩
  have hlen := congrArg List.length (h 2 (Nat.le_refl _))
  exact absurd hlen (by decide)

end IronDirectory.Storage.Watch
