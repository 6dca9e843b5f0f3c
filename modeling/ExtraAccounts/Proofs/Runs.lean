import ExtraAccounts.Plan.Run
import ExtraAccounts.Plan.Serving

/-!
# Facts about runs

A run of one plan followed by another is the two runs one after the other, where the second
starts with everything asked for in the first (`run_bind`). Against a store that does not change,
what was asked for before makes no difference (`run_fixed_asked`), so runs compose without it
(`run_fixed_bind`).

Requesting the addresses of a batch one at a time is the same run, whatever the store
(`run_sequenced`): the store sees the same addresses in the same order. Delivery matters only to
what stands between a plan and its store.
-/

namespace ExtraAccounts

/-- Events of one kind are dropped by whatever picks those of another. -/
theorem filterMap_map_of_none {α β γ : Type} {f : β → Option γ} {g : α → β}
    (h : ∀ a, f (g a) = none) (as : List α) : (as.map g).filterMap f = [] := by
  rw [List.filterMap_map, List.filterMap_eq_nil_iff]
  exact fun a _ => h a

/-! ## Outcomes -/

namespace Outcome

variable {α β : Type}

@[simp] theorem value_after (outcome : Outcome α) (earlier : List Event) :
    (outcome.after earlier).value = outcome.value := rfl

@[simp] theorem events_after (outcome : Outcome α) (earlier : List Event) :
    (outcome.after earlier).events = earlier ++ outcome.events := rfl

@[simp] theorem after_nil (outcome : Outcome α) : outcome.after [] = outcome := rfl

theorem after_after (outcome : Outcome α) (earlier later : List Event) :
    (outcome.after later).after earlier = outcome.after (earlier ++ later) := by
  simp [after]

/-! The requests and derivations after the events of another run, or after one kind of event. -/

@[simp] theorem requests_after_events (outcome : Outcome α) (before : Outcome β) :
    (outcome.after before.events).requests = before.requests ++ outcome.requests := by
  simp [requests]

@[simp] theorem derivations_after_events (outcome : Outcome α) (before : Outcome β) :
    (outcome.after before.events).derivations = before.derivations ++ outcome.derivations := by
  simp [derivations]

@[simp] theorem requests_after_requested (outcome : Outcome α) (addresses : List Address) :
    (outcome.after (addresses.map .requested)).requests = addresses ++ outcome.requests := by
  rw [requests, events_after, List.filterMap_append, List.filterMap_map]
  exact congrArg (· ++ outcome.requests) List.filterMap_some

@[simp] theorem derivations_after_requested (outcome : Outcome α) (addresses : List Address) :
    (outcome.after (addresses.map .requested)).derivations = outcome.derivations := by
  rw [derivations, events_after, List.filterMap_append, filterMap_map_of_none fun _ => rfl]
  rfl

@[simp] theorem requests_after_logged (outcome : Outcome α) (entries : List LogEntry) :
    (outcome.after (entries.map .logged)).requests = outcome.requests := by
  rw [requests, events_after, List.filterMap_append, filterMap_map_of_none fun _ => rfl]
  rfl

@[simp] theorem derivations_after_logged (outcome : Outcome α) (entries : List LogEntry) :
    (outcome.after (entries.map .logged)).derivations = outcome.derivations := by
  rw [derivations, events_after, List.filterMap_append, filterMap_map_of_none fun _ => rfl]
  rfl

@[simp] theorem requests_after_entry (outcome : Outcome α) (entry : LogEntry) :
    (outcome.after [.logged entry]).requests = outcome.requests := by
  simp [requests]

@[simp] theorem derivations_after_entry (outcome : Outcome α) (entry : LogEntry) :
    (outcome.after [.logged entry]).derivations = outcome.derivations := by
  simp [derivations]

@[simp] theorem requests_after_derived (outcome : Outcome α) (program : Address)
    (seeds : List Bytes) : (outcome.after [.derived program seeds]).requests = outcome.requests := by
  simp [requests]

@[simp] theorem derivations_after_derived (outcome : Outcome α) (program : Address)
    (seeds : List Bytes) :
    (outcome.after [.derived program seeds]).derivations =
      (program, seeds) :: outcome.derivations := by
  simp [derivations]

end Outcome

/-! ## Answers of a source -/

namespace Source

variable (source : Source)

@[simp] theorem length_answer (asked addresses : List Address) :
    (source.answer asked addresses).length = addresses.length := by
  induction addresses generalizing asked with
  | nil => rfl
  | cons address later ih => simp [answer, ih]

theorem answer_append (asked addresses later : List Address) :
    source.answer asked (addresses ++ later) =
      source.answer asked addresses ++ source.answer (addresses.reverse ++ asked) later := by
  induction addresses generalizing asked with
  | nil => rfl
  | cons address rest ih => simp [answer, ih]

@[simp] theorem answer_fixed (accounts : Address → Option Account) (asked addresses : List Address) :
    (Source.fixed accounts).answer asked addresses = addresses.map accounts := by
  induction addresses generalizing asked with
  | nil => rfl
  | cons address later ih => simp [answer, ih, fixed]

end Source

/-! ## Runs -/

namespace Plan

variable {α β : Type} (deriver : Deriver)

section
variable (source : Source)

theorem run_bind (plan : Plan α) (f : α → Plan β) (asked : List Address) :
    (plan.bind f).run deriver source asked =
      ((f (plan.run deriver source asked).value).run deriver source
        ((plan.run deriver source asked).requests.reverse ++ asked)).after
        (plan.run deriver source asked).events := by
  induction plan generalizing asked with
  | done value => simp [bind, run, Outcome.requests]
  | request addresses next ih => simp [bind, run, ih, Outcome.after_after]
  | derivation program seeds next ih => simp [bind, run, ih, Outcome.after_after]
  | log entry next ih => simp [bind, run, ih, Outcome.after_after]

theorem run_map (plan : Plan α) (f : α → β) (asked : List Address) :
    (f <$> plan).run deriver source asked =
      { value := f (plan.run deriver source asked).value
        events := (plan.run deriver source asked).events } := by
  have h : f <$> plan = plan.bind fun value => done (f value) := map_eq_pure_bind f plan
  rw [h, run_bind]
  simp [run, Outcome.after]

theorem run_logAll (entries : List LogEntry) (plan : Plan α) (asked : List Address) :
    (logAll entries plan).run deriver source asked =
      (plan.run deriver source asked).after (entries.map .logged) := by
  induction entries with
  | nil => rfl
  | cons entry later ih =>
    simp only [logAll, List.foldr_cons, run] at ih ⊢
    rw [ih, Outcome.after_after]
    rfl

theorem run_requestEach (addresses : List Address) (next : List (Option Account) → Plan α)
    (asked : List Address) :
    (requestEach addresses next).run deriver source asked =
      ((next (source.answer asked addresses)).run deriver source
        (addresses.reverse ++ asked)).after (addresses.map .requested) := by
  induction addresses generalizing next asked with
  | nil => rfl
  | cons address later ih =>
    simp [requestEach, run, ih, Source.answer, Outcome.after_after]

/-- **Delivery does not show in a run**: each address of a batch is answered with those before it
asked for, either way. -/
theorem run_sequenced (plan : Plan α) (asked : List Address) :
    plan.sequenced.run deriver source asked = plan.run deriver source asked := by
  induction plan generalizing asked with
  | done value => rfl
  | request addresses next ih => simp only [sequenced, run_requestEach, run, ih]
  | derivation program seeds next ih => simp only [sequenced, run, ih]
  | log entry next ih => simp only [sequenced, run, ih]

theorem run_delivered (delivery : Delivery) (plan : Plan α) (asked : List Address) :
    (plan.delivered delivery).run deriver source asked = plan.run deriver source asked := by
  cases delivery with
  | immediate => exact run_sequenced deriver source plan asked
  | batched => rfl

end

section
variable (accounts : Address → Option Account)

theorem run_fixed_asked (plan : Plan α) (asked asked' : List Address) :
    plan.run deriver (.fixed accounts) asked = plan.run deriver (.fixed accounts) asked' := by
  induction plan generalizing asked asked' with
  | done value => rfl
  | request addresses next ih =>
    simp only [run, Source.answer_fixed]
    rw [ih _ (addresses.reverse ++ asked) (addresses.reverse ++ asked')]
  | derivation program seeds next ih => simp only [run, ih _ asked asked']
  | log entry next ih => simp only [run, ih asked asked']

theorem run_fixed_bind (plan : Plan α) (f : α → Plan β) (asked : List Address) :
    (plan.bind f).run deriver (.fixed accounts) asked =
      ((f (plan.run deriver (.fixed accounts) asked).value).run deriver (.fixed accounts)
        asked).after (plan.run deriver (.fixed accounts) asked).events := by
  rw [run_bind, run_fixed_asked deriver accounts _ _ asked]

end

end Plan

end ExtraAccounts
