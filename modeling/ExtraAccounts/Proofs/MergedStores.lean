import ExtraAccounts.Proofs.Settings

/-!
# An overlay and the merged store

A plan behind an overlay comes to the same value and has the same addresses derived as the plan
that asks one store, in which the accounts of the overlay stand in front of the others
(`Plan.run_overlaid`). It holds for every store behind the overlay, changing ones included: that
store is asked for what the overlay does not have, as often and in the same order, and for nothing
else.

A later entry of an overlay replaces an earlier one with its address (`AddressMap.get?_ofList`), and
the memo stands in front of the overlay, so a whole resolution is one such plan
(`Call.resolve_overlaid`).
-/

namespace ExtraAccounts

/-! ## Entries -/

theorem AddressMap.get?_foldl_insert {α : Type} (entries : List (Address × α)) (m : AddressMap α)
    (a : Address) :
    (entries.foldl (fun m entry => m.insert entry.1 entry.2) m).get? a =
      (entries.reverse.lookup a).or (m.get? a) := by
  induction entries generalizing m with
  | nil => rfl
  | cons entry later ih =>
    obtain ⟨b, value⟩ := entry
    rw [List.foldl_cons, ih, List.reverse_cons, List.lookup_append, Option.or_assoc, get?_insert]
    congr 1
    by_cases h : a = b
    · subst h
      simp
    · rw [if_neg h, List.lookup_cons, beq_false_of_ne h]
      rfl

/-- The last entry for an address counts. -/
theorem AddressMap.get?_ofList {α : Type} (entries : List (Address × α)) (a : Address) :
    (ofList entries).get? a = entries.reverse.lookup a := by
  rw [ofList, get?_foldl_insert, get?_empty, Option.or_none]

/-! ## In front of a store -/

/-- The addresses that the overlay has no account for. -/
def Store.uncovered (overlay : Store) (addresses : List Address) : List Address :=
  addresses.filter fun a => (overlay.get? a).isNone

theorem Store.uncovered_ofList (entries : List (Address × Account)) (addresses : List Address) :
    Store.uncovered (.ofList entries) addresses =
      addresses.filter fun a => a ∉ entries.map Prod.fst := by
  refine List.filter_congr fun a _ => ?_
  rw [AddressMap.get?_ofList, Bool.eq_iff_iff, Option.isNone_iff_eq_none, List.lookup_eq_none_iff,
    decide_eq_true_iff, List.mem_map]
  constructor
  · rintro h ⟨entry, hentry, rfl⟩
    simpa using h entry (List.mem_reverse.2 hentry)
  · intro h entry hentry
    have hne : a ≠ entry.1 := fun he => h ⟨entry, List.mem_reverse.1 hentry, he.symm⟩
    simpa using hne

/-- One store with the accounts of the overlay and, where it has none, those of the source, which
is not told of the other requests. -/
def Source.merged (overlay : Store) (source : Source) : Source := fun asked a =>
  (overlay.get? a).or (source (overlay.uncovered asked) a)

theorem Source.merged_fixed (overlay : Store) (accounts : Address → Option Account) :
    Source.merged overlay (.fixed accounts) = .fixed fun a => (overlay.get? a).or (accounts a) :=
  rfl

namespace Plan

variable {α : Type} (overlay : Store) (source : Source)

theorem unknown_overlay (addresses : List Address) :
    unknown (fun a => (overlay.get? a).map some) addresses = overlay.uncovered addresses := by
  refine List.filter_congr fun a _ => ?_
  exact Option.isNone_map

/-- **A batch** is answered as by the merged store. -/
theorem combine_overlay (asked addresses : List Address) :
    combine (fun a => (overlay.get? a).map some) addresses
        (source.answer (overlay.uncovered asked) (overlay.uncovered addresses)) =
      (source.merged overlay).answer asked addresses := by
  induction addresses generalizing asked with
  | nil => rfl
  | cons address later ih =>
    have hlater := ih (address :: asked)
    unfold Store.uncovered at hlater ⊢
    cases hs : overlay.get? address with
    | some account =>
      simp only [List.filter_cons, hs, Option.isNone_some, Bool.false_eq_true, if_false] at hlater ⊢
      simp [combine, Source.answer, Source.merged, hs, hlater]
    | none =>
      simp only [List.filter_cons, hs, Option.isNone_none, if_true] at hlater ⊢
      simp [combine, Source.answer, Source.merged, Store.uncovered, hs, hlater]

/-- **A plan behind an overlay**, next to the plan that asks the merged store. -/
theorem run_overlaid (deriver : Deriver) (plan : Plan α) (asked : List Address) :
    let behind := (plan.overlaid overlay).run deriver source (overlay.uncovered asked)
    let merged := plan.run deriver (source.merged overlay) asked
    behind.value = merged.value ∧ behind.derivations = merged.derivations ∧
      behind.requests = overlay.uncovered merged.requests := by
  induction plan generalizing asked with
  | done value => exact ⟨rfl, rfl, rfl⟩
  | request addresses next ih =>
    have hasked : (overlay.uncovered addresses).reverse ++ overlay.uncovered asked =
        overlay.uncovered (addresses.reverse ++ asked) := by
      simp [Store.uncovered]
    simp only [overlaid, run_requestUnknown, run, unknown_overlay, combine_overlay, hasked,
      Outcome.value_after, Outcome.derivations_after_logged, Outcome.derivations_after_requested,
      Outcome.requests_after_logged, Outcome.requests_after_requested]
    obtain ⟨hv, hd, hr⟩ := ih ((source.merged overlay).answer asked addresses)
      (addresses.reverse ++ asked)
    refine ⟨hv, hd, ?_⟩
    rw [hr, Store.uncovered, Store.uncovered, Store.uncovered, List.filter_append]
  | derivation program seeds next ih =>
    simpa [overlaid, run] using ih (deriver program seeds) asked
  | log entry next ih => simpa [overlaid, run] using ih asked

end Plan

/-! ## Calls -/

namespace Call

variable (call : Call) (options : Options) (delivery : Plan.Delivery) (deriver : Deriver)

/-- **An overlay cannot be told from a merged store.** Whatever was entered into it, a call behind
the overlay comes to the same value and has the same addresses derived as against the store that
holds, at each address, the account entered last and, where none was, the one behind. The store
behind is asked for the other addresses, in the same order and as often, and never for one that was
entered. -/
theorem resolve_overlaid (entries : List (Address × Account))
    (accounts : Address → Option Account) :
    let overlay : Store := .ofList entries
    let behind := ((call.resolve options delivery).overlaid overlay).run deriver (.fixed accounts) []
    let merged := call.outcome options delivery deriver fun a =>
      (entries.reverse.lookup a).or (accounts a)
    behind.value = merged.value ∧ behind.derivations = merged.derivations ∧
      behind.requests = merged.requests.filter (fun a => a ∉ entries.map Prod.fst) ∧
      ∀ a ∈ entries.map Prod.fst, a ∉ behind.requests := by
  intro overlay behind merged
  have hstore : (Source.fixed accounts).merged overlay =
      .fixed fun a => (entries.reverse.lookup a).or (accounts a) := by
    rw [Source.merged_fixed]
    funext asked a
    exact congrArg (·.or (accounts a)) (AddressMap.get?_ofList entries a)
  obtain ⟨hv, hd, hr⟩ := Plan.run_overlaid overlay (.fixed accounts) deriver
    (call.resolve options delivery) []
  rw [hstore] at hv hd hr
  rw [Store.uncovered_ofList, Store.uncovered_ofList] at hr
  refine ⟨hv, hd, hr, fun a ha hreq => ?_⟩
  have hmem : a ∈ merged.requests.filter fun a => a ∉ entries.map Prod.fst := hr ▸ hreq
  exact absurd ha (by simpa using (List.mem_filter.1 hmem).2)

end Call

end ExtraAccounts
