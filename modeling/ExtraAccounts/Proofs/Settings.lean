import ExtraAccounts.Proofs.Prefetch

/-!
# The settings of a resolution

`Call.outcome` is what a call comes to against a store that does not change. Neither the memo nor
prefetching nor the delivery of batches shows in its value or in the addresses it has derived
(`resolve_transparent`). They show in its requests (`asked_settings`): the memo drops repeats,
and prefetching asks, without them, for the same addresses in the same order, and only for more if
the seeds of a record fail.
-/

namespace ExtraAccounts

/-- Every seed and every record one after the other, each account fetched when it is needed. -/
def Options.plain : Options where
  memo := false
  prefetch := false

namespace Call

/-- What a call comes to against a store that does not change. -/
def outcome (call : Call) (options : Options) (delivery : Plan.Delivery) (deriver : Deriver)
    (accounts : Address → Option Account) : Outcome (Except Failure Resolved) :=
  (call.resolve options delivery).run deriver (.fixed accounts) []

variable (call : Call) (delivery : Plan.Delivery) (deriver : Deriver)
  (accounts : Address → Option Account)

/-- Without a memo, a call comes to what its plan comes to. -/
theorem outcome_no_memo (prefetch : Bool) :
    call.outcome { memo := false, prefetch } delivery deriver accounts =
      Resolution.outcome deriver accounts (call.plan prefetch) :=
  Plan.run_delivered deriver _ delivery _ []

/-- With a memo, a call comes to what its plan comes to behind an empty one. -/
theorem run_memo (prefetch : Bool) (source : Source) :
    let behind := (((call.plan prefetch).run.delivered delivery).memoized ∅).run deriver source []
    (call.resolve { memo := true, prefetch } delivery).run deriver source [] =
      { value := behind.value.1, events := behind.events } :=
  Plan.run_map deriver source _ Prod.fst []

/-- With a memo, only the requests differ: each address is asked for once. -/
theorem outcome_memo (prefetch : Bool) :
    let behind := call.outcome { memo := true, prefetch } delivery deriver accounts
    let plain := Resolution.outcome deriver accounts (call.plan prefetch)
    behind.value = plain.value ∧ behind.derivations = plain.derivations ∧
      behind.requests = plain.requests.eraseDups := by
  have hd := (distinctBatches_plan call prefetch).delivered delivery
  have hagrees := Memo.agrees_empty accounts
  have hreq := Plan.requests_memoized deriver hd hagrees [] []
  obtain ⟨hv, hder⟩ := Plan.run_memoized deriver
    ((call.plan prefetch).run.delivered delivery) hagrees [] []
  have hall : Plan.unknown (∅ : Memo).get? = id := by
    funext addresses
    simp [Plan.unknown]
  simp only [Plan.run_delivered] at hv hder hreq
  rw [hall] at hreq
  rw [outcome, run_memo]
  exact ⟨hv, hder, hreq⟩

/-- Whatever the settings, the value and the derivations are those of the plan that does not
prefetch. -/
theorem outcome_eq_plan (options : Options) :
    let plain := Resolution.outcome deriver accounts (call.plan false)
    (call.outcome options delivery deriver accounts).value = plain.value ∧
      (call.outcome options delivery deriver accounts).derivations = plain.derivations := by
  obtain ⟨memo, prefetch⟩ := options
  have hplan : (call.outcome { memo, prefetch } delivery deriver accounts).value =
        (Resolution.outcome deriver accounts (call.plan prefetch)).value ∧
      (call.outcome { memo, prefetch } delivery deriver accounts).derivations =
        (Resolution.outcome deriver accounts (call.plan prefetch)).derivations := by
    cases memo with
    | false => rw [outcome_no_memo]; exact ⟨rfl, rfl⟩
    | true =>
      obtain ⟨hv, hd, -⟩ := outcome_memo call delivery deriver accounts prefetch
      exact ⟨hv, hd⟩
  rw [hplan.1, hplan.2]
  cases prefetch with
  | false => exact ⟨rfl, rfl⟩
  | true =>
    have h := ahead_plan deriver accounts call
    exact ⟨h.value, h.derivations⟩

/-- **The settings do not show in the result**: with or without the memo, with or without
prefetching, and whatever the delivery, a call comes to the same value and has the same addresses
derived, in the same order, as the plain run. -/
theorem resolve_transparent (options : Options) :
    (call.outcome options delivery deriver accounts).value =
        (call.outcome .plain .immediate deriver accounts).value ∧
      (call.outcome options delivery deriver accounts).derivations =
        (call.outcome .plain .immediate deriver accounts).derivations := by
  obtain ⟨hv, hd⟩ := call.outcome_eq_plan delivery deriver accounts options
  obtain ⟨hv', hd'⟩ := call.outcome_eq_plan .immediate deriver accounts .plain
  exact ⟨hv.trans hv'.symm, hd.trans hd'.symm⟩

/-- The first request is for the configuration. -/
theorem requests_plan (prefetch : Bool) :
    ∃ later, (Resolution.outcome deriver accounts (call.plan prefetch)).requests =
      call.configuration :: later := by
  unfold plan
  rw [Resolution.outcome_bind, Resolution.outcome_note, Resolution.outcome_bind,
    Resolution.outcome_fetch]
  exact ⟨_, rfl⟩

/-- The addresses that reach the store, in order and as often as they do. -/
def asked (memo prefetch : Bool) : List Address :=
  (call.outcome { memo, prefetch } delivery deriver accounts).requests

theorem asked_no_memo (prefetch : Bool) :
    call.asked delivery deriver accounts false prefetch =
      (Resolution.outcome deriver accounts (call.plan prefetch)).requests := by
  rw [asked, outcome_no_memo]

theorem asked_memo (prefetch : Bool) :
    call.asked delivery deriver accounts true prefetch =
      (Resolution.outcome deriver accounts (call.plan prefetch)).requests.eraseDups :=
  (outcome_memo call delivery deriver accounts prefetch).2.2

theorem head_asked (memo prefetch : Bool) :
    (call.asked delivery deriver accounts memo prefetch).head? = some call.configuration := by
  obtain ⟨later, hreq⟩ := requests_plan call deriver accounts prefetch
  cases memo with
  | false => rw [asked_no_memo, hreq]; rfl
  | true => rw [asked_memo, hreq, List.eraseDups_cons]; rfl

/-- **The requests of a call under its four settings.** All start with the configuration; the memo
drops every repeat; behind the memo, the requests without prefetching are the first of those with
it, and all of them unless the seeds of a record fail. -/
theorem asked_settings :
    let asked := call.asked delivery deriver accounts
    (∀ memo prefetch, (asked memo prefetch).head? = some call.configuration) ∧
      (∀ prefetch, asked true prefetch = (asked false prefetch).eraseDups ∧
        (asked true prefetch).Nodup) ∧
      asked true false <+: asked true true ∧
      ((∀ cause, (call.outcome .plain .immediate deriver accounts).value = .error cause →
          cause.isSeedFailure = false) →
        asked true false = asked true true) := by
  have h := ahead_plan deriver accounts call
  dsimp only
  refine ⟨call.head_asked delivery deriver accounts, fun prefetch => ⟨?_, ?_⟩, ?_, fun hc => ?_⟩
  · rw [asked_memo, asked_no_memo]
  · rw [asked_memo]
    exact nodup_eraseDups _
  · rw [asked_memo, asked_memo]
    exact h.first
  · rw [Options.plain, outcome_no_memo] at hc
    rw [asked_memo, asked_memo]
    exact h.same hc

end Call

end ExtraAccounts
