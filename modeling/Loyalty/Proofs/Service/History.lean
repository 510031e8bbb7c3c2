import Loyalty.Proofs.Action
import Loyalty.Proofs.Value.Tree
import Loyalty.Service.About
import Loyalty.Service.Booking
import Loyalty.Service.Reload
import Loyalty.Service.RuleSet
import Loyalty.Service.Startup

/-!
# Histories of the service

A history is what a service did from its fresh state on: the calls it served, in
any order, each at an instant of its own, and what each of them came to. Starts
and reloads come to no answer, the other requests to one; any of them can also
end in a fault, which keeps what was changed before it.
-/

namespace Loyalty

/-- The posted body of a request: an object, which has no key twice. -/
structure Payload where
  fields : Fields
  wellFormed : (Value.object fields).WellFormed

/-- What is posted under a name is well-formed. -/
theorem Payload.wellFormed_get (payload : Payload) (name : String) :
    (payload.fields.get name).WellFormed :=
  Fields.get_of_forall trivial (Value.wellFormed_object.mp payload.wellFormed).2 name

/-- What a service can be asked to do. -/
inductive Request where
  /-- To start, with a rule file and the seconds between reloads. -/
  | startup (file : RuleFile) (reloadSeconds : Value)
  /-- To take posted rules into use. -/
  | updateRules (payload : Payload) (nan : Identity)
  /-- To check posted rules. -/
  | validate (payload : Payload)
  /-- To calculate the discount of a booking. -/
  | calculate (payload : Payload) (now : Moment)
  /-- To say how it is. -/
  | health
  /-- To show the rules. -/
  | getRules
  /-- To bring its engine to the stored rules; the database may be out of order. -/
  | reload (name : RuleSetName) (outOfOrder : Option String)

/-- What is done for a request, and the answer if there is one. -/
def Request.run : Request → Action Service (Option Response)
  | .startup file reloadSeconds => do
    Service.startup file reloadSeconds
    return none
  | .updateRules payload nan => do return some (← Service.updateRules payload.fields nan)
  | .validate payload => do return some (← Service.validate payload.fields)
  | .calculate payload now => do return some (← Service.calculate payload.fields now)
  | .health => do return some (← Service.health)
  | .getRules => do return some (← Service.getRules)
  | .reload name outOfOrder => do
    let _ ← Service.reload name outOfOrder
    return none

/-- A request and the instant at which it comes. -/
structure Call where
  instant : Instant
  request : Request

/-- What a call comes to, and the state of the service after it. -/
def Call.serve (call : Call) (s : Service) : Except Fault (Option Response) × Service :=
  call.request.run.result { s with now := call.instant }

/-- A request that was served at an instant, and what it came to. -/
structure Served where
  instant : Instant
  request : Request
  outcome : Except Fault (Option Response)

namespace Served

/-- Whether a request was answered with the status of success. -/
def succeeded (e : Served) : Bool :=
  match e.outcome with
  | .ok (some response) => response.status == 200
  | _ => false

/-- Whether the rules were shown. -/
def showedRules (e : Served) : Bool :=
  match e.request with
  | .getRules => e.succeeded
  | _ => false

/-- The rules were shown from the store, and by that put into the cache. -/
def FilledCache (e : Served) : Prop :=
  e.request = .getRules ∧
    ∃ document, e.outcome = .ok (some (Service.documentFrom "db" document))

/-- Whether posted rules were taken into use. -/
def updatedRules (e : Served) : Bool :=
  match e.request with
  | .updateRules .. => e.succeeded
  | _ => false

end Served

/-- A state of the service, and the events that led to it in their order. -/
structure History where
  state : Service
  events : List Served

namespace History

/-- A fresh service has no history. -/
def fresh (start : Instant) : History := ⟨.fresh start, []⟩

/-- The history after one more call. -/
def extend (h : History) (call : Call) : History :=
  ⟨(call.serve h.state).2, h.events ++ [⟨call.instant, call.request, (call.serve h.state).1⟩]⟩

/-- The history of a service that served some calls. -/
def of (start : Instant) (calls : List Call) : History := calls.foldl extend (fresh start)

/-- What holds of a fresh service and is kept by every call holds of every history. -/
theorem induction {P : History → Prop} {start : Instant} (hfresh : P (fresh start))
    (hextend : ∀ h call, P h → P (h.extend call)) (calls : List Call) : P (of start calls) := by
  have hfold : ∀ h, P h → P (calls.foldl extend h) := by
    induction calls with
    | nil => exact fun _ h => h
    | cons call calls ih => exact fun h hh => ih _ (hextend h call hh)
  exact hfold _ hfresh

end History

/-- The rules were shown, and no posted rules were taken into use since. -/
def ShownSinceUpdate (events : List Served) : Prop :=
  ∃ before e after, events = before ++ e :: after ∧ e.showedRules = true ∧
    ∀ other ∈ after, other.updatedRules = false

/-- When the cache was last filled its lifetime reached to an instant, and no posted rules were
taken into use since. -/
def KeptSinceUpdate (now : Instant) (events : List Served) : Prop :=
  ∃ before e after, events = before ++ e :: after ∧ e.FilledCache ∧
    (Lifetime.mk e.instant Cache.documentLifetime).reaches now = true ∧
    ∀ other ∈ after, ¬ other.FilledCache ∧ other.updatedRules = false

/-- At first nothing was kept. -/
theorem not_keptSinceUpdate_nil {now : Instant} : ¬ KeptSinceUpdate now [] := by
  rintro ⟨before, e, after, h, -⟩
  simp at h

/-- One more event fills the cache anew, or leaves it filled, or is an update. -/
theorem keptSinceUpdate_append {now : Instant} {events : List Served} {e : Served} :
    KeptSinceUpdate now (events ++ [e]) ↔
      (e.FilledCache ∧ (Lifetime.mk e.instant Cache.documentLifetime).reaches now = true) ∨
      (¬ e.FilledCache ∧ e.updatedRules = false ∧ KeptSinceUpdate now events) := by
  constructor
  · rintro ⟨before, filling, after, hevents, hfilled, hreaches, hafter⟩
    rcases List.eq_nil_or_concat after with rfl | ⟨after, last, rfl⟩
    · have hlast := (List.append_inj' hevents rfl).2
      cases hlast
      exact .inl ⟨hfilled, hreaches⟩
    · have hsplit : events ++ [e] = (before ++ filling :: after) ++ [last] := by
        rw [hevents]
        simp
      obtain ⟨rfl, hlast⟩ := List.append_inj' hsplit rfl
      cases hlast
      obtain ⟨hnot, hupdate⟩ := hafter e (by simp)
      exact .inr ⟨hnot, hupdate, before, filling, after, rfl, hfilled, hreaches,
        fun other hother => hafter other (by simp [hother])⟩
  · rintro (⟨hfilled, hreaches⟩ | ⟨hnot, hupdate, before, filling, after, rfl, hfilled, hreaches,
      hafter⟩)
    · exact ⟨events, e, [], rfl, hfilled, hreaches, by simp⟩
    · refine ⟨before, filling, after ++ [e], by simp, hfilled, hreaches, ?_⟩
      intro other hother
      rcases List.mem_append.mp hother with hother | hother
      · exact hafter other hother
      · rw [List.mem_singleton.mp hother]
        exact ⟨hnot, hupdate⟩

end Loyalty
