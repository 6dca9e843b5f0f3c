import ExtraAccounts.Proofs.Overlap

/-!
# Plans behind a memo are schedules of a cache

The fetches of a batch all start before the first of them is answered. In a cache, that is a
schedule: it asks the store for the addresses that the memo does not know, hands back the answers
that the batch gets, and leaves the memo that it leaves (`run_batch`, `returns_batch`). So what a
plan behind a memo asks for and keeps is what a cache asks for and keeps on some schedule, one batch
after the other (`exists_schedule`), and what holds of every schedule holds of it.
-/

namespace ExtraAccounts.Cache

section
variable (known : Address → Option (Option Account)) (inner : Nat → Address → Option Account)

/-- The calls for a batch of fetches that start together, the first of them with the given name. -/
def callsOf : Nat → List Address → List (Nat × Address)
  | _, [] => []
  | fetch, address :: later =>
    match known address with
    | some _ => callsOf (fetch + 1) later
    | none => (fetch, address) :: callsOf (fetch + 1) later

theorem map_snd_callsOf (fetch : Nat) (addresses : List Address) :
    (callsOf known fetch addresses).map Prod.snd = Plan.unknown known addresses := by
  induction addresses generalizing fetch with
  | nil => rfl
  | cons address later ih =>
    have ih := ih (fetch + 1)
    rw [Plan.unknown] at ih ⊢
    rw [callsOf]
    cases hk : known address with
    | none => simp [hk, ih]
    | some answer => simp [hk, ih]

theorem bounds_of_mem_callsOf {fetch : Nat} {addresses : List Address} {call : Nat × Address}
    (h : call ∈ callsOf known fetch addresses) :
    fetch ≤ call.1 ∧ call.1 < fetch + addresses.length := by
  induction addresses generalizing fetch with
  | nil => cases h
  | cons address later ih =>
    rw [callsOf] at h
    rw [List.length_cons]
    split at h
    · have := ih h
      omega
    · rcases List.mem_cons.1 h with rfl | h
      · omega
      · have := ih h
        omega

theorem nodup_callsOf (fetch : Nat) (addresses : List Address) :
    ((callsOf known fetch addresses).map Prod.fst).Nodup := by
  induction addresses generalizing fetch with
  | nil => exact List.nodup_nil
  | cons address later ih =>
    rw [callsOf]
    split
    · exact ih (fetch + 1)
    · rw [List.map_cons, List.nodup_cons]
      refine ⟨fun h => ?_, ih (fetch + 1)⟩
      obtain ⟨call, hc, he⟩ := List.mem_map.1 h
      have := bounds_of_mem_callsOf known hc
      omega

theorem combine_callsOf (fetch : Nat) (addresses : List Address) :
    Plan.combine known addresses ((callsOf known fetch addresses).map fun (i, a) => inner i a) =
      (addresses.zipIdx fetch).map fun (a, i) => (known a).getD (inner i a) := by
  induction addresses generalizing fetch with
  | nil => rfl
  | cons address later ih =>
    have ih := ih (fetch + 1)
    rw [callsOf, Plan.combine]
    cases hk : known address with
    | none => simp [hk, ih]
    | some answer => simp [hk, ih]

theorem run_starts {cache : Cache} (he : cache.enabled = true) (addresses : List Address) :
    cache.run inner (addresses.map .start) =
      ((addresses.zipIdx cache.started).map fun (a, fetch) => startEvent cache.memo.get? fetch a,
        { cache with
          started := cache.started + addresses.length
          waiting := cache.waiting ++ callsOf cache.memo.get? cache.started addresses }) := by
  obtain ⟨enabled, memo, started, waiting⟩ := cache
  cases he
  dsimp only
  induction addresses generalizing started waiting with
  | nil => simp [run, callsOf]
  | cons address later ih =>
    have hk : known? { memo, started, waiting } address = memo.get? address := rfl
    rw [List.map_cons, run, step, hk, callsOf]
    cases hm : memo.get? address with
    | none =>
      dsimp only
      rw [ih]
      simp [startEvent, hm]
      omega
    | some answer =>
      dsimp only
      rw [ih]
      simp [startEvent, hm]
      omega

theorem run_finishes (cache : Cache) (he : cache.enabled = true)
    (hnd : (cache.waiting.map Prod.fst).Nodup) :
    cache.run inner (cache.waiting.map fun call => .finish call.1) =
      (cache.waiting.map fun (fetch, a) => .answered fetch a (inner fetch a),
        { cache with
          memo := cache.memo.keep (cache.waiting.map Prod.snd)
            (cache.waiting.map fun (fetch, a) => inner fetch a)
          waiting := [] }) := by
  obtain ⟨enabled, memo, started, waiting⟩ := cache
  cases he
  dsimp only at hnd ⊢
  induction waiting generalizing memo with
  | nil => rfl
  | cons call later ih =>
    obtain ⟨fetch, address⟩ := call
    rw [List.map_cons, List.nodup_cons] at hnd
    have hlater : later.filter (fun call => call.1 ≠ fetch) = later := by
      refine List.filter_eq_self.2 fun call hc => ?_
      have hne : call.1 ≠ fetch := by
        rintro rfl
        exact hnd.1 (List.mem_map.2 ⟨call, hc, rfl⟩)
      simpa using hne
    rw [List.map_cons, run, step]
    simp only [List.find?_cons_of_pos, decide_true, Option.map_some, keep, if_true, ne_eq,
      not_true_eq_false, decide_false, Bool.false_eq_true, not_false_eq_true,
      List.filter_cons_of_neg]
    rw [hlater, ih _ hnd.2]
    rfl

end

/-- The steps of a batch: its fetches start, and then those that asked the store are answered. -/
def batch (known : Address → Option (Option Account)) (fetch : Nat) (addresses : List Address) :
    List Step :=
  addresses.map .start ++ (callsOf known fetch addresses).map fun call => .finish call.1

/-- What happens in a batch. -/
def batchHistory (known : Address → Option (Option Account))
    (inner : Nat → Address → Option Account) (fetch : Nat) (addresses : List Address) : History :=
  ((addresses.zipIdx fetch).map fun (a, fetch) => startEvent known fetch a) ++
    (callsOf known fetch addresses).map fun (fetch, a) => .answered fetch a (inner fetch a)

section
variable {cache : Cache} {inner inner' : Nat → Address → Option Account}

/-- **A batch of fetches leaves the memo that a batch behind the memo leaves.** -/
theorem run_batch (inner : Nat → Address → Option Account) (he : cache.enabled = true)
    (hw : cache.waiting = []) (addresses : List Address) :
    cache.run inner (batch cache.memo.get? cache.started addresses) =
      (batchHistory cache.memo.get? inner cache.started addresses,
        { cache with
          started := cache.started + addresses.length
          memo := cache.memo.keep (Plan.unknown cache.memo.get? addresses)
            ((callsOf cache.memo.get? cache.started addresses).map fun (fetch, a) =>
              inner fetch a) }) := by
  have hends := run_finishes inner
    { cache with
      started := cache.started + addresses.length
      waiting := callsOf cache.memo.get? cache.started addresses }
    he (nodup_callsOf _ _ _)
  rw [batch, run_append, run_starts inner he, hw, List.nil_append]
  dsimp only at hends ⊢
  rw [hends, map_snd_callsOf, batchHistory, ← hw]

/-- **A batch of fetches returns what a batch behind the memo is answered.** -/
theorem returns_batch {history : History} (h : Tracks true inner history cache)
    (hw : cache.waiting = []) (addresses : List Address) :
    ((addresses.zipIdx cache.started).map fun (_, fetch) =>
        History.returnsOf
          (history ++ batchHistory cache.memo.get? inner cache.started addresses) fetch) =
      (Plan.combine cache.memo.get? addresses
        ((callsOf cache.memo.get? cache.started addresses).map fun (fetch, a) =>
          inner fetch a)).map fun answer => [answer] := by
  have htracks := h.run (batch cache.memo.get? cache.started addresses)
  rw [run_batch inner h.enabled_eq hw] at htracks
  rw [combine_callsOf, List.map_map]
  refine List.map_congr_left fun (a, fetch) hmem => ?_
  -- what a fetch of the batch returns depends on what became of it when it started
  have hstart := List.mem_append_right history (List.mem_append_left
    ((callsOf cache.memo.get? cache.started addresses).map
      fun (fetch, a) => Event.answered fetch a (inner fetch a))
    (List.mem_map_of_mem (f := fun (a, fetch) => startEvent cache.memo.get? fetch a) hmem))
  dsimp only [Function.comp] at hstart ⊢
  unfold startEvent at hstart
  split at hstart
  · rename_i answer hk
    rw [hk]
    exact htracks.lawful.returnsOf_of_hit hstart
  · rename_i hk
    rw [hk, htracks.returnsOf_eq hstart, hw, if_neg List.not_mem_nil, Option.getD_none]

/-! ## A whole plan -/

/-- The address that the event asks the store for. -/
def Event.requests? : Event → Option Address
  | missed _ address => some address
  | hit .. | answered .. => none

/-- The addresses that reach the store, in order. -/
def History.requests (history : History) : List Address :=
  history.filterMap Event.requests?

theorem requests_starts (known : Address → Option (Option Account)) (fetch : Nat)
    (addresses : List Address) :
    (addresses.zipIdx fetch).filterMap (fun (a, fetch) => (startEvent known fetch a).requests?) =
      Plan.unknown known addresses := by
  induction addresses generalizing fetch with
  | nil => rfl
  | cons address later ih =>
    have ih := ih (fetch + 1)
    rw [Plan.unknown] at ih ⊢
    rw [List.zipIdx_cons, List.filterMap_cons, ih]
    cases hk : known address with
    | none => simp [startEvent, Event.requests?, hk]
    | some answer => simp [startEvent, Event.requests?, hk]

theorem requests_batchHistory (known : Address → Option (Option Account)) (fetch : Nat)
    (addresses : List Address) :
    (batchHistory known inner fetch addresses).requests = Plan.unknown known addresses := by
  -- the store is asked when fetches start, not when they are answered
  have hanswers : ((callsOf known fetch addresses).map fun (fetch, a) =>
      Event.answered fetch a (inner fetch a)).filterMap Event.requests? = [] :=
    filterMap_map_of_none (fun _ => rfl) _
  rw [batchHistory, History.requests, List.filterMap_append, hanswers, List.append_nil,
    List.filterMap_map]
  exact requests_starts known fetch addresses

/-- A schedule depends on the answers to the calls under way and to later ones. -/
theorem run_congr
    (hlater : ∀ fetch a, cache.started ≤ fetch → inner fetch a = inner' fetch a)
    (hwaiting : ∀ call ∈ cache.waiting, inner call.1 call.2 = inner' call.1 call.2)
    (steps : List Step) : cache.run inner steps = cache.run inner' steps := by
  induction steps generalizing cache with
  | nil => rfl
  | cons s later ih =>
    have hstep : cache.step inner s = cache.step inner' s := by
      cases s with
      | start address => rfl
      | finish fetch =>
        rw [step, step]
        refine Option.map_congr fun call hc => ?_
        obtain rfl : call.1 = fetch := by simpa using List.find?_some hc
        dsimp only
        rw [hwaiting call (List.mem_of_find?_eq_some hc)]
    rw [run, run, hstep]
    cases hs : cache.step inner' s with
    | none => exact ih hlater hwaiting
    | some result =>
      have ih : result.2.run inner later = result.2.run inner' later := by
        cases s with
        | start address =>
          rw [step] at hs
          split at hs
          · cases hs
            exact ih (fun fetch a hf => hlater fetch a (Nat.le_of_succ_le hf)) hwaiting
          · cases hs
            refine ih (fun fetch a hf => hlater fetch a (Nat.le_of_succ_le hf)) fun call hc => ?_
            rcases List.mem_append.1 hc with hc | hc
            · exact hwaiting call hc
            · obtain rfl := List.mem_singleton.1 hc
              exact hlater _ _ (Nat.le_refl _)
        | finish fetch =>
          obtain ⟨call, -, rfl⟩ := Option.map_eq_some_iff.1 hs
          exact ih hlater fun call hc => hwaiting call (List.mem_of_mem_filter hc)
      dsimp only
      rw [ih]

end

/-- Answers that the calls of a batch get, and after it those of another store. -/
def answersThen (calls : List (Nat × Address)) (fresh : List (Option Account)) (bound : Nat)
    (later : Nat → Address → Option Account) (fetch : Nat) (address : Address) : Option Account :=
  if fetch < bound then (((calls.map Prod.fst).zip fresh).lookup fetch).join
  else later fetch address

theorem map_answersThen (known : Address → Option (Option Account)) (fetch : Nat)
    (addresses : List Address) {fresh : List (Option Account)}
    (hl : fresh.length = (Plan.unknown known addresses).length)
    (later : Nat → Address → Option Account) :
    ((callsOf known fetch addresses).map fun (i, a) =>
      answersThen (callsOf known fetch addresses) fresh (fetch + addresses.length) later i a) =
        fresh := by
  rw [← map_snd_callsOf known fetch, List.length_map] at hl
  have hlookup := map_lookup_zip (nodup_callsOf known fetch addresses)
    (hl.trans (List.length_map _).symm)
  refine Eq.trans ?_ hlookup
  rw [List.map_map]
  refine List.map_congr_left fun call hc => ?_
  exact if_pos (bounds_of_mem_callsOf known hc).2

/-- **A plan behind the memo is a schedule of the cache.** -/
theorem exists_schedule {α : Type} (plan : Plan α) (deriver : Deriver) (source : Source)
    (asked : List Address) (cache : Cache) (he : cache.enabled = true) (hw : cache.waiting = []) :
    ∃ inner steps,
      let behind := (plan.memoized cache.memo).run deriver source asked
      (cache.run inner steps).1.requests = behind.requests ∧
      (cache.run inner steps).2.memo = behind.value.2 ∧
      (cache.run inner steps).2.waiting = [] := by
  induction plan generalizing cache asked with
  | done value => exact ⟨fun _ _ => none, [], rfl, rfl, hw⟩
  | request addresses next ih =>
    simp only [Plan.memoized, Plan.run_requestUnknown, Outcome.requests_after_logged,
      Outcome.requests_after_requested, Outcome.value_after]
    generalize hfresh : source.answer asked (Plan.unknown cache.memo.get? addresses) = fresh
    have hl : fresh.length = (Plan.unknown cache.memo.get? addresses).length := by simp [← hfresh]
    let later : Cache :=
      { cache with
        started := cache.started + addresses.length
        memo := cache.memo.keep (Plan.unknown cache.memo.get? addresses) fresh }
    obtain ⟨inner', steps, hr, hm, hempty⟩ := ih (Plan.combine cache.memo.get? addresses fresh)
      ((Plan.unknown cache.memo.get? addresses).reverse ++ asked) later he hw
    let inner := answersThen (callsOf cache.memo.get? cache.started addresses) fresh
      later.started inner'
    refine ⟨inner, batch cache.memo.get? cache.started addresses ++ steps, ?_⟩
    have hrest : later.run inner steps = later.run inner' steps :=
      run_congr (fun fetch a hf => if_neg (Nat.not_lt.2 hf)) (by simp [later, hw]) steps
    rw [run_append, run_batch inner he hw, map_answersThen _ _ _ hl, hrest]
    refine ⟨?_, hm, hempty⟩
    rw [← hr, ← requests_batchHistory cache.memo.get? cache.started addresses]
    exact List.filterMap_append
  | derivation program seeds next ih =>
    simpa [Plan.memoized, Plan.run] using ih (deriver program seeds) asked cache he hw
  | log entry next ih => simpa [Plan.memoized, Plan.run] using ih asked cache he hw

end ExtraAccounts.Cache
