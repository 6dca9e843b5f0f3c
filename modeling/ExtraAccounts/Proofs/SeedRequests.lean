import ExtraAccounts.Proofs.SeedEvaluation

/-!
# The requests of one seed spec

Evaluation goes over the sources up to the first that fails (`Reached`, `reached_reachedSeeds`), and
the accounts that a spec refers to count once each, in the order in which its sources come to them
first (`FirstOccurrences`, `firstOccurrences_eraseDups`).

With these, `requests_of_spec` says exactly which accounts one spec asks for. Fetched ahead, they
are the ones that all of its sources refer to, each once, and none is left for the sources to ask
for. Otherwise each source that is reached asks for its own, as often as they do.
-/

namespace ExtraAccounts

/-! ## First occurrences -/

section
variable {α : Type} [BEq α] [LawfulBEq α]

theorem idxOf_lt_of_filter {p : α → Bool} {l : List α} {a b : α} (ha : p a = true)
    (hb : p b = true) (h : (l.filter p).idxOf a < (l.filter p).idxOf b) :
    l.idxOf a < l.idxOf b := by
  induction l with
  | nil => exact h
  | cons x l ih =>
    by_cases hx : p x = true
    · rw [List.filter_cons_of_pos hx] at h
      by_cases hbx : x = b
      · rw [List.idxOf_cons_eq _ hbx] at h
        exact absurd h (Nat.not_lt_zero _)
      · rw [List.idxOf_cons_ne _ hbx] at h ⊢
        by_cases hax : x = a
        · rw [List.idxOf_cons_eq _ hax]
          exact Nat.succ_pos _
        · rw [List.idxOf_cons_ne _ hax] at h ⊢
          exact Nat.succ_lt_succ (ih (Nat.lt_of_succ_lt_succ h))
    · rw [List.filter_cons_of_neg hx] at h
      have hax : x ≠ a := fun he => hx (he ▸ ha)
      have hbx : x ≠ b := fun he => hx (he ▸ hb)
      rw [List.idxOf_cons_ne _ hax, List.idxOf_cons_ne _ hbx]
      exact Nat.succ_lt_succ (ih h)

/-- Without their repeats, elements stand in the order of their first occurrences. -/
theorem pairwise_idxOf_eraseDups (l : List α) :
    l.eraseDups.Pairwise fun a b => l.idxOf a < l.idxOf b := by
  match l with
  | [] => simp
  | a :: l =>
    have : (l.filter fun b => !b == a).length < l.length + 1 :=
      Nat.lt_add_one_of_le (List.length_filter_le _ l)
    have ih := pairwise_idxOf_eraseDups (l.filter fun b => !b == a)
    have hne : ∀ b ∈ (l.filter fun b => !b == a).eraseDups, (!b == a) = true := by
      intro b hb
      exact (List.mem_filter.1 (List.mem_eraseDups.1 hb)).2
    rw [List.eraseDups_cons, List.pairwise_cons]
    constructor
    · intro b hb
      have hab : a ≠ b := fun he => by simpa [he] using hne b hb
      rw [List.idxOf_cons_eq _ rfl, List.idxOf_cons_ne _ hab]
      exact Nat.succ_pos _
    · refine ih.imp_of_mem fun {b c} hb hc hlt => ?_
      have hab : a ≠ b := fun he => by simpa [he] using hne b hb
      have hac : a ≠ c := fun he => by simpa [he] using hne c hc
      rw [List.idxOf_cons_ne _ hab, List.idxOf_cons_ne _ hac]
      exact Nat.succ_lt_succ (idxOf_lt_of_filter (hne b hb) (hne c hc) hlt)
termination_by l.length

end

/-- The addresses of a list, in the order of their first occurrences. -/
structure FirstOccurrences (all distinct : List Address) : Prop where
  mem_iff : ∀ a, a ∈ distinct ↔ a ∈ all
  /-- Strictly, so that each stands there once. -/
  ordered : distinct.Pairwise fun a b => all.idxOf a < all.idxOf b

theorem firstOccurrences_eraseDups (all : List Address) : FirstOccurrences all all.eraseDups where
  mem_iff _ := List.mem_eraseDups
  ordered := pairwise_idxOf_eraseDups all

/-! ## Sources that are reached -/

section
variable (accounts : Address → Option Account) (scope : Scope)

/-- The sources that are evaluated: the first ones, up to one that fails if any does. -/
structure Reached (sources reached : List PlacedSeed) : Prop where
  first : reached <+: sources
  gives : ∀ seed ∈ reached.dropLast, ∃ bytes, seed.source.Gives accounts scope bytes
  stops : reached = sources ∨
    ∃ seed cause, reached.getLast? = some seed ∧ seed.Fails accounts scope cause

theorem reached_reachedSeeds (sources : List PlacedSeed) :
    Reached accounts scope sources (reachedSeeds accounts scope sources) := by
  induction sources with
  | nil => exact { first := List.prefix_rfl, gives := nofun, stops := .inl rfl }
  | cons seed later ih =>
    have hfirst := isPrefix_reachedSeeds accounts scope (seed :: later)
    rw [reachedSeeds] at hfirst ⊢
    cases hvalue : seedValue accounts scope seed with
    | error cause =>
      rw [hvalue] at hfirst
      exact { first := hfirst, gives := fun other hmem => absurd hmem List.not_mem_nil,
              stops := .inr ⟨seed, cause, rfl, seedValue_eq_error_iff.1 hvalue⟩ }
    | ok bytes =>
      rw [hvalue] at hfirst
      refine { first := hfirst, gives := ?_, stops := ?_ }
      · intro other hmem
        by_cases hnil : reachedSeeds accounts scope later = []
        · rw [hnil] at hmem
          exact absurd hmem List.not_mem_nil
        · rw [List.dropLast_cons_of_ne_nil hnil] at hmem
          rcases List.mem_cons.1 hmem with rfl | hmem
          · exact ⟨bytes, seedValue_eq_ok_iff.1 hvalue⟩
          · exact ih.gives other hmem
      · obtain hall | ⟨last, cause, hlast, hfails⟩ := ih.stops
        · exact .inl (congrArg (seed :: ·) hall)
        · refine .inr ⟨last, cause, ?_, hfails⟩
          rw [List.getLast?_cons, hlast]
          rfl

end

/-! ## A spec -/

section
variable (prefetch : Bool) (delivery : Plan.Delivery) (deriver : Deriver)
  (accounts : Address → Option Account) (scope : Scope) (spec : Bytes)

theorem requests_evaluateSpec_plain :
    (Resolution.outcome deriver accounts (evaluateSpec false scope spec)).requests =
      reachedAccounts accounts scope (SeedReading.ofSpec spec).sources := by
  rw [outcome_evaluateSpec_plain]
  exact requests_of_requested _ _

theorem requests_evaluateSpec_ahead :
    (Resolution.outcome deriver accounts (evaluateSpec true scope spec)).requests =
      if (dataAccounts scope (SeedReading.ofSpec spec).sources).length < 2 then
        reachedAccounts accounts scope (SeedReading.ofSpec spec).sources
      else dataAccounts scope (SeedReading.ofSpec spec).sources := by
  rw [outcome_evaluateSpec_ahead]
  split
  · exact requests_evaluateSpec_plain deriver accounts scope spec
  · exact requests_of_prefetched _ _

/-- With at most one account to read, or without prefetching, each source asks for its own. -/
theorem requests_evaluateSpec_on_demand
    (h : prefetch = false ∨ (dataAccounts scope (SeedReading.ofSpec spec).sources).length ≤ 1) :
    (Resolution.outcome deriver accounts (evaluateSpec prefetch scope spec)).requests =
      reachedAccounts accounts scope (SeedReading.ofSpec spec).sources := by
  cases prefetch with
  | false => exact requests_evaluateSpec_plain deriver accounts scope spec
  | true =>
    obtain h | h := h
    · cases h
    · rw [requests_evaluateSpec_ahead, if_pos (Nat.lt_succ_of_le h)]

/-- When every account that a reading refers to is held, evaluating it asks for none. -/
theorem requests_evaluateReading_of_held (reading : SeedReading) :
    let distinct := dataAccounts scope reading.sources
    (Resolution.outcome deriver accounts
      (evaluateReading scope (distinct.zip (distinct.map accounts)) reading)).requests = [] := by
  intro distinct
  rw [outcome_evaluateReading deriver accounts scope (Held.agrees_zip accounts distinct),
    requests_of_requested]
  apply List.filter_eq_nil_iff.2
  intro a ha
  rw [lookup_zip_map, if_pos (mem_dataAccounts_of_reached accounts ha)]
  exact Bool.false_ne_true

/-- **The requests of a spec.** Let the distinct accounts be those whose data its sources refer to,
in the order of first reference. With prefetching, if there are at least two, these are asked for,
each once and in this order, whatever comes of the spec, and its sources are evaluated without
another request. Otherwise the sources that are reached ask for the accounts they refer to, in order
and with repeats, the one at which evaluation stops included. Without any, nothing is asked for. -/
theorem requests_of_spec :
    ∃ distinct,
      FirstOccurrences
        ((SeedReading.ofSpec spec).sources.filterMap (PlacedSeed.dataAccount? scope)) distinct ∧
      (prefetch = true → 2 ≤ distinct.length →
        (seedsOutcome prefetch delivery deriver accounts scope spec).requests = distinct ∧
        (Resolution.outcome deriver accounts (evaluateReading scope
          (distinct.zip (distinct.map accounts)) (.ofSpec spec))).requests = []) ∧
      (prefetch = false ∨ distinct.length ≤ 1 → ∃ reached,
        Reached accounts scope (SeedReading.ofSpec spec).sources reached ∧
        (seedsOutcome prefetch delivery deriver accounts scope spec).requests =
          reached.filterMap (PlacedSeed.dataAccount? scope)) ∧
      (distinct = [] →
        (seedsOutcome prefetch delivery deriver accounts scope spec).requests = []) := by
  rw [seedsOutcome_eq]
  refine ⟨dataAccounts scope _, firstOccurrences_eraseDups _, ?_, ?_, ?_⟩
  · rintro rfl htwo
    refine ⟨?_, requests_evaluateReading_of_held deriver accounts scope _⟩
    rw [requests_evaluateSpec_ahead, if_neg (Nat.not_lt.2 htwo)]
  · intro h
    exact ⟨_, reached_reachedSeeds accounts scope _,
      requests_evaluateSpec_on_demand prefetch deriver accounts scope spec h⟩
  · intro hnone
    have hfew : (dataAccounts scope (SeedReading.ofSpec spec).sources).length ≤ 1 := by
      rw [hnone]
      exact Nat.zero_le 1
    rw [requests_evaluateSpec_on_demand prefetch deriver accounts scope spec (.inr hfew)]
    apply List.eq_nil_iff_forall_not_mem.2
    intro a ha
    have hmem := mem_dataAccounts_of_reached accounts ha
    rw [hnone] at hmem
    exact List.not_mem_nil hmem

end

end ExtraAccounts
