import ExtraAccounts.Proofs.Memo

/-!
# What a plan may log

`Plan.MayLog` relates a plan to the logs and values that it may come to, when its requests are
answered as `given` allows, and when whatever serves them writes lines of its own
(`LogEntry.isOwn`). A run against a store is one such log (`mayLog_run`), and so is a run behind a
memo, an overlay and any delivery (`mayLog_run_served`): all they add to the log is lines of their
own, each where the plan asks. The store may change from one request to the next.
-/

namespace ExtraAccounts

/-- Whether a resolution writes the entry for itself. The others are about how it is served. -/
def LogEntry.isOwn : LogEntry → Bool
  | fetchingConfiguration _ | decodeFailed _ | recordCount _ | recordResolved .. |
    recordFailed .. => true
  | prefetching _ | memoHit _ | overlayServing _ => false

namespace Outcome

variable {α : Type} (outcome : Outcome α)

theorem entries_after_requested (addresses : List Address) :
    (outcome.after (addresses.map .requested)).entries = outcome.entries := by
  rw [entries, events_after, List.filterMap_append, filterMap_map_of_none fun _ => rfl]
  rfl

theorem entries_after_derived (program : Address) (seeds : List Bytes) :
    (outcome.after [.derived program seeds]).entries = outcome.entries := rfl

theorem entries_after_entry (entry : LogEntry) :
    (outcome.after [.logged entry]).entries = entry :: outcome.entries := rfl

end Outcome

namespace Source

/-- What the source answers at an address, at one time or another. -/
def MayAnswer (source : Source) (a : Address) (answer : Option Account) : Prop :=
  ∃ asked, source asked a = answer

theorem forall₂_answer (source : Source) (asked addresses : List Address) :
    List.Forall₂ source.MayAnswer addresses (source.answer asked addresses) := by
  induction addresses generalizing asked with
  | nil => exact .nil
  | cons a later ih => exact .cons ⟨asked, rfl⟩ (ih (a :: asked))

/-- What the source answers behind an overlay or none. -/
def behind (overlay : Option Store) (source : Source) : Source := fun asked a =>
  (overlay.bind fun overlay => overlay.get? a).or (source asked a)

end Source

namespace Plan

variable {α β : Type}

/-- Answered as `given` allows, the plan may write the lines and end with the value. Whenever it
asks, those who serve it may write lines of theirs. -/
inductive MayLog (deriver : Deriver) (given : Address → Option Account → Prop) :
    Plan α → (lines : List LogEntry) → (value : α) → Prop where
  | done (value : α) : MayLog deriver given (done value) [] value
  | request {addresses : List Address} {next : List (Option Account) → Plan α}
      {answers : List (Option Account)} {served lines : List LogEntry} {value : α}
      (hanswers : List.Forall₂ given addresses answers)
      (hserved : ∀ line ∈ served, line.isOwn = false)
      (hnext : MayLog deriver given (next answers) lines value) :
      MayLog deriver given (request addresses next) (served ++ lines) value
  | derivation {program : Address} {seeds : List Bytes}
      {next : Except DerivationError Address → Plan α} {lines : List LogEntry} {value : α}
      (hnext : MayLog deriver given (next (deriver program seeds)) lines value) :
      MayLog deriver given (derivation program seeds next) lines value
  | log {entry : LogEntry} {next : Plan α} {lines : List LogEntry} {value : α}
      (hnext : MayLog deriver given next lines value) :
      MayLog deriver given (log entry next) (entry :: lines) value

variable {deriver : Deriver} {given given' : Address → Option Account → Prop} {plan : Plan α}
  {lines : List LogEntry} {value : α}

/-- Nothing is given but the accounts of a store that does not change. -/
def GivesOnly (given : Address → Option Account → Prop) (accounts : Address → Option Account) :
    Prop :=
  ∀ a answer, given a answer → accounts a = answer

/-! ## Runs -/

/-- **A run** leaves a log that the plan may leave. -/
theorem mayLog_run (source : Source) (plan : Plan α) (asked : List Address) :
    plan.MayLog deriver source.MayAnswer (plan.run deriver source asked).entries
      (plan.run deriver source asked).value := by
  induction plan generalizing asked with
  | done value => exact .done value
  | request addresses next ih =>
    rw [run, Outcome.entries_after_requested, Outcome.value_after]
    exact .request (source.forall₂_answer asked addresses) (List.forall_mem_nil _) (ih _ _)
  | derivation program seeds next ih =>
    rw [run, Outcome.entries_after_derived]
    exact .derivation (ih _ asked)
  | log entry next ih =>
    rw [run, Outcome.entries_after_entry]
    exact .log (ih asked)

/-- Against a store that does not change, a plan ends with the value of its run. -/
theorem MayLog.value_eq {accounts : Address → Option Account} (hgiven : GivesOnly given accounts)
    (h : plan.MayLog deriver given lines value) :
    value = (plan.run deriver (.fixed accounts) []).value := by
  induction h with
  | done value => rfl
  | @request addresses next answers served lines value hanswers hserved hnext ih =>
    have hmap : addresses.map accounts = answers := by
      rw [← List.forall₂_eq_eq_eq, List.forall₂_map_left_iff]
      exact hanswers.imp hgiven
    rw [run, Source.answer_fixed, hmap, Outcome.value_after, run_fixed_asked deriver accounts _ _ []]
    exact ih
  | derivation hnext ih => exact ih
  | log hnext ih => exact ih

/-- **The log of a sequence** is that of its first part, then that of its second. -/
theorem MayLog.of_bind {f : α → Plan β} {value : β}
    (h : (plan.bind f).MayLog deriver given lines value) :
    ∃ first later middle, plan.MayLog deriver given first middle ∧
      (f middle).MayLog deriver given later value ∧ lines = first ++ later := by
  induction plan generalizing lines with
  | done middle => exact ⟨[], lines, middle, .done middle, h, rfl⟩
  | request addresses next ih =>
    cases h with
    | request hanswers hserved hnext =>
      obtain ⟨first, later, middle, hfirst, hlater, rfl⟩ := ih _ hnext
      exact ⟨_, later, middle, .request hanswers hserved hfirst, hlater,
        (List.append_assoc _ _ _).symm⟩
  | derivation program seeds next ih =>
    cases h with
    | derivation hnext =>
      obtain ⟨first, later, middle, hfirst, hlater, rfl⟩ := ih _ hnext
      exact ⟨first, later, middle, .derivation hfirst, hlater, rfl⟩
  | log entry next ih =>
    cases h with
    | log hnext =>
      obtain ⟨first, later, middle, hfirst, hlater, rfl⟩ := ih hnext
      exact ⟨entry :: first, later, middle, .log hfirst, hlater, rfl⟩

theorem MayLog.of_map {f : α → β} {value : β} (h : (f <$> plan).MayLog deriver given lines value) :
    ∃ first, plan.MayLog deriver given lines first ∧ value = f first := by
  rw [map_eq_pure_bind] at h
  obtain ⟨first, later, middle, hfirst, hlater, rfl⟩ := MayLog.of_bind h
  cases hlater
  rw [List.append_nil]
  exact ⟨middle, hfirst, rfl⟩

/-- A line and a request, whose answer makes no difference to what follows. -/
theorem MayLog.of_log_request {entry : LogEntry} {addresses : List Address} {later : Plan α}
    {value : α}
    (h : (Plan.log entry (Plan.request addresses fun _ => later)).MayLog deriver given lines value) :
    ∃ served rest, (∀ line ∈ served, line.isOwn = false) ∧ later.MayLog deriver given rest value ∧
      lines = entry :: (served ++ rest) := by
  cases h with
  | log hrequest =>
    cases hrequest with
    | request hanswers hserved hnext => exact ⟨_, _, hserved, hnext, rfl⟩

/-! ## Serving -/

theorem MayLog.of_logAll {entries : List LogEntry}
    (h : (logAll entries plan).MayLog deriver given lines value) :
    ∃ later, plan.MayLog deriver given later value ∧ lines = entries ++ later := by
  induction entries generalizing lines with
  | nil => exact ⟨lines, h, rfl⟩
  | cons entry entries ih =>
    cases h with
    | log hnext =>
      obtain ⟨later, hlater, rfl⟩ := ih hnext
      exact ⟨later, hlater, rfl⟩

/-- A batch that is known in part: the lines about that part count as written by those who serve the
request for the rest. -/
theorem MayLog.of_requestUnknown {known : Address → Option (Option Account)}
    {entry : Address → LogEntry} {addresses : List Address}
    {next : List (Option Account) → Plan α} (hentry : ∀ a, (entry a).isOwn = false)
    (h : (requestUnknown known entry addresses next).MayLog deriver given lines value) :
    ∃ fresh served later, List.Forall₂ given (unknown known addresses) fresh ∧
      (∀ line ∈ served, line.isOwn = false) ∧ (next fresh).MayLog deriver given later value ∧
      lines = served ++ later := by
  obtain ⟨later, hlater, rfl⟩ := h.of_logAll
  cases hlater with
  | @request _ _ fresh served later _ hfresh hserved hnext =>
    refine ⟨fresh, _, later, hfresh, fun line hline => ?_, hnext, (List.append_assoc _ _ _).symm⟩
    rcases List.mem_append.1 hline with hline | hline
    · obtain ⟨a, -, rfl⟩ := List.mem_map.1 hline
      exact hentry a
    · exact hserved line hline

/-- The answers to a batch, where each is known or is given afresh. -/
theorem forall₂_combine {known : Address → Option (Option Account)}
    (hknown : ∀ a answer, known a = some answer → given' a answer)
    (hfresh : ∀ a answer, known a = none → given a answer → given' a answer)
    {addresses : List Address} {fresh : List (Option Account)}
    (h : List.Forall₂ given (unknown known addresses) fresh) :
    List.Forall₂ given' addresses (combine known addresses fresh) := by
  induction addresses generalizing fresh with
  | nil => exact .nil
  | cons a later ih =>
    unfold unknown at h ih
    cases ha : known a with
    | some answer =>
      rw [List.filter_cons_of_neg (by simp [ha])] at h
      rw [combine, ha]
      exact .cons (hknown a answer ha) (ih h)
    | none =>
      rw [List.filter_cons_of_pos (by simp [ha])] at h
      rw [combine, ha]
      cases h with
      | cons hanswer hlater => exact .cons (hfresh a _ ha hanswer) (ih hlater)

end Plan

/-- Every answer that the memo keeps was given. -/
def Memo.Holds (memo : Memo) (given : Address → Option Account → Prop) : Prop :=
  ∀ a answer, memo.get? a = some answer → given a answer

theorem Memo.Holds.keep {memo : Memo} {given : Address → Option Account → Prop}
    (hmemo : memo.Holds given) {addresses : List Address} {answers : List (Option Account)}
    (h : List.Forall₂ given addresses answers) : (memo.keep addresses answers).Holds given := by
  induction h generalizing memo with
  | nil => exact hmemo
  | @cons address answer addresses answers hanswer hlater ih =>
    rw [keep_cons]
    refine ih fun a kept hkept => ?_
    rw [AddressMap.get?_insert] at hkept
    split at hkept
    · rename_i heq
      cases hkept
      exact heq ▸ hanswer
    · exact hmemo a kept hkept

namespace Plan

variable {α : Type} {deriver : Deriver} {given given' : Address → Option Account → Prop}
  {plan : Plan α} {lines : List LogEntry} {value : α}

/-- **A memo** adds lines of its own. What it answers was given before, so it allows no new answers. -/
theorem MayLog.of_memoized {memo memo' : Memo} (hmemo : memo.Holds given)
    (h : (plan.memoized memo).MayLog deriver given lines (value, memo')) :
    plan.MayLog deriver given lines value := by
  induction plan generalizing memo lines with
  | done value =>
    cases h
    exact .done value
  | request addresses next ih =>
    obtain ⟨fresh, served, later, hfresh, hserved, hnext, rfl⟩ :=
      MayLog.of_requestUnknown (fun _ => rfl) h
    exact .request (forall₂_combine hmemo (fun _ _ _ => id) hfresh) hserved
      (ih _ (hmemo.keep hfresh) hnext)
  | derivation program seeds next ih =>
    cases h with
    | derivation hnext => exact .derivation (ih _ hmemo hnext)
  | log entry next ih =>
    cases h with
    | log hnext => exact .log (ih hmemo hnext)

/-- **An overlay** adds lines of its own, and its accounts to what is answered. -/
theorem MayLog.of_overlaid {overlay : Store}
    (hknown : ∀ a account, overlay.get? a = some account → given' a (some account))
    (hgiven : ∀ a answer, overlay.get? a = none → given a answer → given' a answer)
    (h : (plan.overlaid overlay).MayLog deriver given lines value) :
    plan.MayLog deriver given' lines value := by
  induction plan generalizing lines with
  | done value =>
    cases h
    exact .done value
  | request addresses next ih =>
    obtain ⟨fresh, served, later, hfresh, hserved, hnext, rfl⟩ :=
      MayLog.of_requestUnknown (fun _ => rfl) h
    refine .request (forall₂_combine (fun a answer ha => ?_) (fun a answer ha => ?_) hfresh)
      hserved (ih _ hnext)
    · obtain ⟨account, haccount, rfl⟩ := Option.map_eq_some_iff.1 ha
      exact hknown a account haccount
    · exact hgiven a answer (Option.map_eq_none_iff.1 ha)
  | derivation program seeds next ih =>
    cases h with
    | derivation hnext => exact .derivation (ih _ hnext)
  | log entry next ih =>
    cases h with
    | log hnext => exact .log (ih hnext)

theorem MayLog.of_requestEach {addresses : List Address} {next : List (Option Account) → Plan α}
    (h : (requestEach addresses next).MayLog deriver given lines value) :
    ∃ answers served later, List.Forall₂ given addresses answers ∧
      (∀ line ∈ served, line.isOwn = false) ∧ (next answers).MayLog deriver given later value ∧
      lines = served ++ later := by
  induction addresses generalizing next lines with
  | nil => exact ⟨[], [], lines, .nil, nofun, h, rfl⟩
  | cons a addresses ih =>
    cases h with
    | @request _ _ _ first lines _ hanswers hfirst hnext =>
      cases hanswers with
      | @cons _ answer _ _ hanswer hnil =>
        cases hnil
        have hrest : (requestEach addresses fun later => next (answer :: later)).MayLog deriver given
            lines value := hnext
        obtain ⟨answers, served, later, hlater, hserved, hlast, rfl⟩ := ih hrest
        refine ⟨answer :: answers, first ++ served, later, .cons hanswer hlater,
          fun line hline => ?_, hlast, (List.append_assoc _ _ _).symm⟩
        exact (List.mem_append.1 hline).elim (hfirst line) (hserved line)

theorem MayLog.of_sequenced (h : plan.sequenced.MayLog deriver given lines value) :
    plan.MayLog deriver given lines value := by
  induction plan generalizing lines with
  | done value => exact h
  | request addresses next ih =>
    obtain ⟨answers, served, later, hanswers, hserved, hnext, rfl⟩ := MayLog.of_requestEach h
    exact .request hanswers hserved (ih _ hnext)
  | derivation program seeds next ih =>
    cases h with
    | derivation hnext => exact .derivation (ih _ hnext)
  | log entry next ih =>
    cases h with
    | log hnext => exact .log (ih hnext)

/-- **The delivery of batches** does not show in the log. -/
theorem MayLog.of_delivered {delivery : Delivery}
    (h : (plan.delivered delivery).MayLog deriver given lines value) :
    plan.MayLog deriver given lines value := by
  cases delivery with
  | batched => exact h
  | immediate => exact MayLog.of_sequenced h

/-! ## All of them -/

/-- The plan as it is served: with its batches delivered, behind a memo or none and an overlay or
none. -/
def served (memo : Bool) (delivery : Delivery) (overlay : Option Store) (plan : Plan α) : Plan α :=
  let delivered := plan.delivered delivery
  let remembered := if memo then Prod.fst <$> delivered.memoized ∅ else delivered
  match overlay with
  | some overlay => remembered.overlaid overlay
  | none => remembered

variable {memo : Bool} {delivery : Delivery} {overlay : Option Store} {source : Source}

theorem MayLog.of_served_none (h : (plan.served memo delivery none).MayLog deriver given lines value) :
    plan.MayLog deriver given lines value := by
  cases memo with
  | false => exact MayLog.of_delivered h
  | true =>
    obtain ⟨⟨_, kept⟩, h, rfl⟩ := MayLog.of_map h
    exact (h.of_memoized nofun).of_delivered

/-- **However a plan is served**, its run leaves a log that the plan may leave. -/
theorem mayLog_run_served (plan : Plan α) (asked : List Address) :
    plan.MayLog deriver (source.behind overlay).MayAnswer
      ((plan.served memo delivery overlay).run deriver source asked).entries
      ((plan.served memo delivery overlay).run deriver source asked).value := by
  cases overlay with
  | none => exact (mayLog_run source _ asked).of_served_none
  | some overlay =>
    have hrun : ((plan.served memo delivery none).overlaid overlay).MayLog deriver source.MayAnswer
        _ _ := mayLog_run source _ asked
    refine (hrun.of_overlaid (fun a account ha => ?_) fun a answer ha hanswer => ?_).of_served_none
    · exact ⟨[], by simp [Source.behind, ha]⟩
    · obtain ⟨before, rfl⟩ := hanswer
      exact ⟨before, by simp [Source.behind, ha]⟩

variable (deriver memo delivery overlay source)

/-- **The first request**: a plan that asks for one account first goes on with what the source
answers, asked for nothing before. -/
theorem run_served_request (entry : LogEntry) (a : Address)
    (next : List (Option Account) → Plan α) :
    ((log entry (request [a] next)).served memo delivery overlay).run deriver source [] =
      ((log entry (request [a] fun _ => next [source.behind overlay [] a])).served memo delivery
        overlay).run deriver source [] := by
  -- each way of serving asks up to the first answer by computation, whatever comes after it
  cases overlay with
  | none =>
    cases memo <;> cases delivery <;>
      simp [served, delivered, sequenced, requestEach, memoized, requestUnknown, unknown, combine,
        logAll, run, Source.answer, Source.behind, run_map]
  | some overlay =>
    cases h : overlay.get? a <;> cases memo <;> cases delivery <;>
      simp [served, delivered, sequenced, requestEach, memoized, requestUnknown, unknown, combine,
        logAll, run, Source.answer, Source.behind, overlaid, h, map_eq_pure_bind, bind]

end Plan

end ExtraAccounts
