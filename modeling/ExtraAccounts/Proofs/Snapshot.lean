import ExtraAccounts.Proofs.Settings

/-!
# A store that changes during a resolution

A store may answer differently each time it is asked. Behind the memo this does not show: no
address is asked for twice, so the resolution comes to what it comes to against one state of the
store, the `Source.snapshot` of the answers it got (`resolve_snapshot`).

* `run_eq_run_fixed`: a run is the run against any store that gives the answers it met.
* `map_snapshot`: requests without repeats are answered as by their snapshot.
-/

namespace ExtraAccounts

namespace Source

variable (source : Source)

/-- The store that holds, at each address asked for, what the source answered, and nothing else. -/
def snapshot (requests : List Address) (address : Address) : Option Account :=
  ((requests.zip (source.answer [] requests)).lookup address).join

/-- An address is answered with those before it asked for. -/
theorem getElem?_answer (asked addresses : List Address) {i : Nat} (h : i < addresses.length) :
    (source.answer asked addresses)[i]? =
      some (source ((addresses.take i).reverse ++ asked) addresses[i]) := by
  induction addresses generalizing asked i with
  | nil => simp at h
  | cons address later ih =>
    cases i with
    | zero => rfl
    | succ i =>
      rw [answer, List.getElem?_cons_succ, ih (address :: asked) (by simpa using h)]
      simp

theorem lookup_zip_of_not_mem {addresses : List Address} {a : Address} (h : a ∉ addresses)
    (answers : List (Option Account)) : (addresses.zip answers).lookup a = none := by
  rw [List.lookup_eq_none_iff]
  intro entry hmem
  have hne : a ≠ entry.1 := fun he => h (he ▸ (List.of_mem_zip hmem).1)
  simpa using hne

/-- **Requests without repeats are answered as by their snapshot.** -/
theorem map_snapshot {requests : List Address} (h : requests.Nodup) :
    requests.map (source.snapshot requests) = source.answer [] requests :=
  map_lookup_zip h (source.length_answer [] requests)

theorem snapshot_getElem {requests : List Address} (h : requests.Nodup) {i : Nat}
    (hi : i < requests.length) :
    source.snapshot requests requests[i] = source (requests.take i).reverse requests[i] := by
  have hget := source.getElem?_answer [] requests hi
  rw [← source.map_snapshot h, List.getElem?_map, List.getElem?_eq_getElem hi, List.append_nil] at hget
  simpa using hget

theorem snapshot_of_not_mem {requests : List Address} {a : Address} (h : a ∉ requests) :
    source.snapshot requests a = none := by
  rw [snapshot, lookup_zip_of_not_mem h]
  rfl

end Source

/-- **A run is the run against any store that gives the same answers.** -/
theorem Plan.run_eq_run_fixed {α : Type} (deriver : Deriver) (source : Source)
    {accounts : Address → Option Account} (plan : Plan α) (asked asked' : List Address)
    (h : (plan.run deriver source asked).requests.map accounts =
      source.answer asked (plan.run deriver source asked).requests) :
    plan.run deriver source asked = plan.run deriver (.fixed accounts) asked' := by
  induction plan generalizing asked asked' with
  | done value => rfl
  | request addresses next ih =>
    simp only [run, Outcome.requests_after_requested, List.map_append, Source.answer_append] at h
    -- the batch is answered alike, so the two runs go on with the same plan
    obtain ⟨hbatch, hlater⟩ := List.append_inj h (by simp)
    simp only [run, Source.answer_fixed, hbatch]
    rw [ih _ _ (addresses.reverse ++ asked') hlater]
  | derivation program seeds next ih =>
    simp only [run, Outcome.requests_after_derived] at h ⊢
    rw [ih _ _ asked' h]
  | log entry next ih =>
    simp only [run, Outcome.requests_after_entry] at h ⊢
    rw [ih _ asked' h]

namespace Call

variable (call : Call) (prefetch : Bool) (delivery : Plan.Delivery) (deriver : Deriver)
  (source : Source)

/-- What a call behind the memo comes to, against a store that may change. -/
def met : Outcome (Except Failure Resolved) :=
  (call.resolve { memo := true, prefetch } delivery).run deriver source []

/-- Behind the memo no address is asked for twice, whatever the store. -/
theorem nodup_requests_met : (call.met prefetch delivery deriver source).requests.Nodup := by
  have hd := (distinctBatches_plan call prefetch).delivered delivery
  rw [met, run_memo]
  exact (Plan.requests_memoized_fresh deriver source hd ∅ []).1

/-- The answers met are those of the snapshot. -/
theorem met_eq_outcome :
    call.met prefetch delivery deriver source =
      call.outcome { memo := true, prefetch } delivery deriver
        (source.snapshot (call.met prefetch delivery deriver source).requests) :=
  Plan.run_eq_run_fixed deriver source _ [] []
    (source.map_snapshot (call.nodup_requests_met prefetch delivery deriver source))

/-- **A resolution behind the memo sees one state of the store**, though the store may answer
differently each time it is asked. It asks for no address twice, the configuration included, and
comes to what it comes to against the store that holds the answers it got and nothing else, under
these settings and, but for the requests, under all others. -/
theorem resolve_snapshot :
    call.configuration ∈ (call.met prefetch delivery deriver source).requests ∧
      (call.met prefetch delivery deriver source).requests.Nodup ∧
      let met := call.met prefetch delivery deriver source
      let snapshot := source.snapshot met.requests
      (∀ i (h : i < met.requests.length),
        snapshot met.requests[i] = source (met.requests.take i).reverse met.requests[i]) ∧
      (∀ a, a ∉ met.requests → snapshot a = none) ∧
      met = call.outcome { memo := true, prefetch } delivery deriver snapshot ∧
      ∀ options delivery', met.value = (call.outcome options delivery' deriver snapshot).value := by
  have hnd := call.nodup_requests_met prefetch delivery deriver source
  have hsame := call.met_eq_outcome prefetch delivery deriver source
  refine ⟨?_, hnd, fun i hi => source.snapshot_getElem hnd hi,
    fun a ha => source.snapshot_of_not_mem ha, hsame, fun options delivery' => ?_⟩
  · have hhead := call.head_asked delivery deriver
      (source.snapshot (call.met prefetch delivery deriver source).requests) true prefetch
    rw [asked, ← hsame] at hhead
    exact List.mem_of_head? hhead
  · rw [(call.outcome_eq_plan delivery' deriver _ options).1,
      ← (call.outcome_eq_plan delivery deriver _ { memo := true, prefetch }).1, ← hsame]

end Call

end ExtraAccounts
