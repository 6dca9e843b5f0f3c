import ExtraAccounts.Proofs.CacheHistory

/-!
# Fetches that overlap

The state of a cache is what its history says (`Tracks`): its memo has the latest answer for every
address that has one, and the calls under way are those that have returned nothing. One step keeps
this (`Tracks.step`), so every schedule does (`Tracks.run`), and what the next step of a schedule
does is seen from the history too (`Tracks.run_start`, `Tracks.run_finish`). With the laws of
histories the cache is described without its state (`overlapping_fetches`).
-/

namespace ExtraAccounts.Cache

/-! ## What the history says of the cache -/

/-- The state of a cache, as its history has it. -/
structure Tracks (enabled : Bool) (inner : Nat → Address → Option Account) (history : History)
    (cache : Cache) : Prop where
  enabled_eq : cache.enabled = enabled
  lawful : Lawful enabled inner history
  memo : ∀ address, cache.memo.get? address = history.kept? enabled address
  empty : enabled = false → cache.memo = ∅
  started : cache.started = history.countP Event.isStart
  waiting : ∀ fetch address, (fetch, address) ∈ cache.waiting ↔
    .missed fetch address ∈ history ∧ history.returnsOf fetch = []

section
variable {enabled : Bool} {inner : Nat → Address → Option Account} {history : History}
  {cache : Cache}

theorem tracks_fresh (enabled : Bool) (inner : Nat → Address → Option Account) :
    Tracks enabled inner [] { enabled } where
  enabled_eq := rfl
  lawful := fun before event hp => by simp at hp
  memo := fun address => by cases enabled <;> rfl
  empty := fun _ => rfl
  started := rfl
  waiting := fun fetch address => by simp

theorem Tracks.known?_eq (h : Tracks enabled inner history cache) (address : Address) :
    cache.known? address = history.kept? enabled address := by
  rw [known?, h.enabled_eq, h.memo]
  cases enabled <;> rfl

theorem kept?_concat_of_start {event : Event} (he : event.isStart = true) (address : Address) :
    History.kept? enabled (history ++ [event]) address = history.kept? enabled address := by
  unfold History.kept?
  rw [History.answersTo_concat]
  cases event <;> simp [Event.answers?, Event.isStart] at he ⊢

theorem Tracks.hit (h : Tracks enabled inner history cache) {address : Address}
    {answer : Option Account} (hk : cache.known? address = some answer) :
    Tracks enabled inner (history ++ [.hit cache.started address answer])
      { cache with started := cache.started + 1 } where
  enabled_eq := h.enabled_eq
  lawful := lawful_concat_iff.2 ⟨h.lawful, h.started, h.known?_eq address ▸ hk⟩
  memo := fun a => by rw [kept?_concat_of_start rfl]; exact h.memo a
  empty := h.empty
  started := by simp [h.started, Event.isStart]
  waiting := fun fetch a => by
    rw [h.waiting]
    have hne : .missed fetch a ∈ history → cache.started ≠ fetch := by
      intro hm
      have : fetch < history.countP Event.isStart := h.lawful.fetch_lt _ hm
      rw [h.started]
      omega
    simp only [List.mem_append, List.mem_singleton, reduceCtorEq, or_false,
      History.returnsOf_concat]
    refine and_congr_right fun hm => ?_
    simp [Event.returns?, hne hm]

theorem Tracks.missed (h : Tracks enabled inner history cache) {address : Address}
    (hk : cache.known? address = none) :
    Tracks enabled inner (history ++ [.missed cache.started address])
      { cache with
        started := cache.started + 1
        waiting := cache.waiting ++ [(cache.started, address)] } where
  enabled_eq := h.enabled_eq
  lawful := lawful_concat_iff.2 ⟨h.lawful, h.started, h.known?_eq address ▸ hk⟩
  memo := fun a => by rw [kept?_concat_of_start rfl]; exact h.memo a
  empty := h.empty
  started := by simp [h.started, Event.isStart]
  waiting := fun fetch a => by
    have hnew := h.lawful.returnsOf_eq_nil (Nat.le_of_eq h.started.symm)
    simp only [List.mem_append, List.mem_singleton, h.waiting, History.returnsOf_concat,
      Event.returns?, Option.toList_none, List.append_nil, Event.missed.injEq, Prod.mk.injEq]
    constructor
    · rintro (⟨hm, hr⟩ | ⟨rfl, rfl⟩)
      · exact ⟨.inl hm, hr⟩
      · exact ⟨.inr ⟨rfl, rfl⟩, hnew⟩
    · rintro ⟨hm | ⟨rfl, rfl⟩, hr⟩
      · exact .inl ⟨hm, hr⟩
      · exact .inr ⟨rfl, rfl⟩

theorem Tracks.answered (h : Tracks enabled inner history cache) {fetch : Nat} {address : Address}
    (hw : (fetch, address) ∈ cache.waiting) :
    Tracks enabled inner (history ++ [.answered fetch address (inner fetch address)])
      { cache with
        memo := cache.keep address (inner fetch address)
        waiting := cache.waiting.filter fun call => call.1 ≠ fetch } where
  enabled_eq := h.enabled_eq
  lawful := lawful_concat_iff.2 ⟨h.lawful, rfl, (h.waiting fetch address).1 hw⟩
  memo := fun a => by
    have hm := h.memo a
    unfold keep History.kept? at *
    rw [h.enabled_eq, History.answersTo_concat]
    cases enabled with
    | false => exact hm
    | true =>
      rw [if_pos rfl] at hm ⊢
      rw [AddressMap.get?_insert, hm]
      by_cases ha : a = address
      · simp [ha, Event.answers?]
      · simp [ha, Ne.symm ha, Event.answers?]
  empty := fun he => by
    dsimp only [keep]
    rw [h.enabled_eq, he]
    exact h.empty he
  started := by simp [h.started, Event.isStart]
  waiting := fun f a => by
    simp only [List.mem_filter, h.waiting, List.mem_append, List.mem_singleton, reduceCtorEq,
      or_false, History.returnsOf_concat, decide_eq_true_eq]
    by_cases hf : fetch = f
    · simp [hf, Event.returns?]
    · simp [hf, Ne.symm hf, Event.returns?]

theorem Tracks.step (h : Tracks enabled inner history cache) {s : Step} {event : Event}
    {after : Cache} (hs : cache.step inner s = some (event, after)) :
    Tracks enabled inner (history ++ [event]) after := by
  cases s with
  | start address =>
    unfold Cache.step at hs
    dsimp only at hs
    split at hs <;> cases hs
    · exact h.hit ‹_›
    · exact h.missed ‹_›
  | finish fetch =>
    obtain ⟨⟨f, address⟩, hfind, hs⟩ := Option.map_eq_some_iff.1 hs
    cases hs
    have hf : f = fetch := by simpa using List.find?_some hfind
    subst hf
    exact h.answered (List.mem_of_find?_eq_some hfind)

theorem Tracks.run (h : Tracks enabled inner history cache) (steps : List Step) :
    Tracks enabled inner (history ++ (cache.run inner steps).1) (cache.run inner steps).2 := by
  induction steps generalizing history cache with
  | nil => simpa [Cache.run] using h
  | cons s later ih =>
    unfold Cache.run
    cases hs : cache.step inner s with
    | none => exact ih h
    | some result =>
      obtain ⟨event, after⟩ := result
      have := ih (h.step hs)
      simpa using this

end

theorem tracks_run (enabled : Bool) (inner : Nat → Address → Option Account) (steps : List Step) :
    let cache : Cache := { enabled }
    Tracks enabled inner (cache.run inner steps).1 (cache.run inner steps).2 :=
  (tracks_fresh enabled inner).run steps

theorem run_append (inner : Nat → Address → Option Account) (cache : Cache)
    (first later : List Step) :
    cache.run inner (first ++ later) =
      ((cache.run inner first).1 ++ ((cache.run inner first).2.run inner later).1,
        ((cache.run inner first).2.run inner later).2) := by
  induction first generalizing cache with
  | nil => rfl
  | cons s first ih =>
    rw [List.cons_append, run, run]
    cases cache.step inner s with
    | none => exact ih cache
    | some result =>
      dsimp only
      rw [ih]
      rfl

/-! ## The next step -/

section
variable {enabled : Bool} {inner : Nat → Address → Option Account} {history : History}
  {cache : Cache} (h : Tracks enabled inner history cache)
include h

theorem Tracks.run_start (address : Address) :
    (cache.run inner [.start address]).1 =
      [startEvent (history.kept? enabled) (history.countP Event.isStart) address] := by
  rw [startEvent, ← h.known?_eq, ← h.started, Cache.run, Cache.step]
  cases cache.known? address <;> rfl

/-- A fetch that asked the store and has returned nothing waits, for its own address. -/
theorem Tracks.find?_waiting {fetch : Nat} {address : Address}
    (hm : .missed fetch address ∈ history) (hr : history.returnsOf fetch = []) :
    (cache.waiting.find? fun call => call.1 = fetch) = some (fetch, address) := by
  have hw := (h.waiting fetch address).2 ⟨hm, hr⟩
  cases hfind : cache.waiting.find? fun call => call.1 = fetch with
  | none =>
    have hne := List.find?_eq_none.1 hfind _ hw
    simp at hne
  | some call =>
    obtain ⟨f, a⟩ := call
    obtain rfl : f = fetch := by simpa using List.find?_some hfind
    obtain ⟨hother, -⟩ := (h.waiting f a).1 (List.mem_of_find?_eq_some hfind)
    rw [h.lawful.missed_unique hother hm]

theorem Tracks.run_finish {fetch : Nat} {address : Address}
    (hm : .missed fetch address ∈ history) (hr : history.returnsOf fetch = []) :
    (cache.run inner [.finish fetch]).1 = [.answered fetch address (inner fetch address)] := by
  rw [Cache.run, Cache.step, h.find?_waiting hm hr]
  rfl

theorem Tracks.run_finish_of_idle {fetch : Nat}
    (hidle : ∀ address, .missed fetch address ∈ history → history.returnsOf fetch ≠ []) :
    (cache.run inner [.finish fetch]).1 = [] := by
  have hfind : (cache.waiting.find? fun call => call.1 = fetch) = none := by
    refine List.find?_eq_none.2 fun call hc hf => ?_
    obtain rfl : call.1 = fetch := by simpa using hf
    obtain ⟨hm, hr⟩ := (h.waiting call.1 call.2).1 hc
    exact hidle call.2 hm hr
  rw [Cache.run, Cache.step, hfind]
  rfl

end

/-! ## What is kept -/

theorem isSome_get?_iff {α : Type} (m : AddressMap α) (a : Address) :
    (m.get? a).isSome ↔ a ∈ m.entries.map Prod.fst := by
  simp [AddressMap.get?]

theorem size_eq_of_isSome_iff {α : Type} {m : AddressMap α} {addresses : List Address}
    (h : ∀ a, (m.get? a).isSome ↔ a ∈ addresses) : m.size = addresses.eraseDups.length := by
  have hperm : (m.entries.map Prod.fst).Perm addresses.eraseDups :=
    (List.perm_ext_iff_of_nodup m.nodup (nodup_eraseDups _)).2 fun a => by
      rw [← isSome_get?_iff, h, List.mem_eraseDups]
  simpa [AddressMap.size] using hperm.length_eq

theorem mem_answeredAddresses {history : History} {address : Address} :
    address ∈ history.answeredAddresses ↔ history.answersTo address ≠ [] := by
  simp only [History.answeredAddresses, List.mem_filterMap]
  constructor
  · rintro ⟨event, he, ha⟩
    cases event <;> cases ha
    exact List.ne_nil_of_mem (mem_answersTo.2 ⟨_, he⟩)
  · intro h
    obtain ⟨answer, ha⟩ := List.exists_mem_of_ne_nil _ h
    obtain ⟨fetch, he⟩ := mem_answersTo.1 ha
    exact ⟨_, he, rfl⟩

/-- A fetch of an address whose answer is kept returns it. -/
theorem Tracks.step_of_kept {inner : Nat → Address → Option Account} {history : History}
    {cache : Cache} (h : Tracks true inner history cache) {address : Address}
    {answer : Option Account} (hk : cache.memo.get? address = some answer) :
    cache.step inner (.start address) =
      some (.hit cache.started address answer, { cache with started := cache.started + 1 }) := by
  unfold Cache.step
  dsimp only
  rw [known?, h.enabled_eq, if_pos rfl, hk]

theorem Tracks.returnsOf_eq {enabled : Bool} {inner : Nat → Address → Option Account}
    {history : History} {cache : Cache} (h : Tracks enabled inner history cache) {fetch : Nat}
    {address : Address} (hm : .missed fetch address ∈ history) :
    history.returnsOf fetch =
      if (fetch, address) ∈ cache.waiting then [] else [inner fetch address] := by
  split
  · exact ((h.waiting fetch address).1 ‹_›).2
  · rename_i hw
    refine (h.lawful.returnsOf_of_missed hm).resolve_left fun hr => hw ?_
    exact (h.waiting fetch address).2 ⟨hm, hr⟩

/-- Without keeping answers, every fetch asks the store. -/
theorem Lawful.callsFor_of_disabled {inner : Nat → Address → Option Account} {history : History}
    (h : Lawful false inner history) (address : Address) :
    history.callsFor address = history.fetchesOf address := by
  refine List.filterMap_congr fun event he => ?_
  cases event with
  | hit fetch a answer =>
    obtain ⟨before, after, rfl⟩ := List.append_of_mem he
    cases (h before (.hit fetch a answer) (by simp)).2
  | missed fetch a => rfl
  | answered fetch a answer => rfl

/-- **Fetches that overlap**, in any order of starts and answers, through one cache. Each step
that a schedule goes on with adds its event to the history: a fetch that starts is a hit or asks the
store, by the answers that arrived before, and a fetch that waits is answered. Only an answer to a
fetch that does not wait is left out. -/
theorem overlapping_fetches (inner : Nat → Address → Option Account) (steps : List Step) :
    let run := fun enabled : Bool => ({ enabled } : Cache).run inner steps
    (let history := (run true).1
      let cache := (run true).2
      (∀ a, cache.memo.get? a = (history.answersTo a).getLast?) ∧
      cache.memo.size = history.answeredAddresses.eraseDups.length ∧
      (∀ a, history.answersTo a ≠ [] → ∃ answer, cache.memo.get? a = some answer ∧
        cache.step inner (.start a) = some (.hit cache.started a answer,
          { cache with started := cache.started + 1 }) ∧
        History.returnsOf (history ++ [.hit cache.started a answer]) cache.started = [answer]) ∧
      (∀ fetch a, .missed fetch a ∈ history →
        history.returnsOf fetch =
          if (fetch, a) ∈ cache.waiting then [] else [inner fetch a]) ∧
      (∀ a, history.callsFor a = (history.untilAnswer a).fetchesOf a) ∧
      (∀ a, history.NoOverlap a → history.fetchesOf a ≠ [] → (history.callsFor a).length = 1)) ∧
    (let history := (run false).1
      let cache := (run false).2
      cache.memo = ∅ ∧
      (∀ a, history.callsFor a = history.fetchesOf a) ∧
      (∀ fetch a, .missed fetch a ∈ history →
        history.returnsOf fetch =
          if (fetch, a) ∈ cache.waiting then [] else [inner fetch a])) ∧
    (∀ enabled : Bool,
      let history := (run enabled).1
      let next := fun s => (({ enabled } : Cache).run inner (steps ++ [s])).1
      (∀ a, next (.start a) = history ++
        [startEvent (history.kept? enabled) (history.countP Event.isStart) a]) ∧
      (∀ fetch a, .missed fetch a ∈ history → history.returnsOf fetch = [] →
        next (.finish fetch) = history ++ [.answered fetch a (inner fetch a)]) ∧
      (∀ fetch, (∀ a, .missed fetch a ∈ history → history.returnsOf fetch ≠ []) →
        next (.finish fetch) = history)) := by
  have h := tracks_run true inner steps
  have hoff := tracks_run false inner steps
  refine ⟨⟨h.memo, ?_, fun a ha => ?_, fun fetch a => h.returnsOf_eq, h.lawful.callsFor_eq,
    fun a => h.lawful.length_callsFor⟩, ⟨hoff.empty rfl, hoff.lawful.callsFor_of_disabled,
    fun fetch a => hoff.returnsOf_eq⟩, fun enabled => ?_⟩
  · refine size_eq_of_isSome_iff fun a => ?_
    rw [mem_answeredAddresses, h.memo]
    exact List.getLast?_isSome
  · obtain ⟨answer, hkept⟩ := Option.isSome_iff_exists.1 (List.getLast?_isSome.2 ha)
    have hget := (h.memo a).trans hkept
    have hstep := h.step_of_kept hget
    exact ⟨answer, hget, hstep,
      (h.step hstep).lawful.returnsOf_of_hit (List.mem_append_right _ (List.mem_singleton_self _))⟩
  · intro history next
    have htracks := tracks_run enabled inner steps
    have hnext : ∀ s, next s =
        history ++ ((({ enabled } : Cache).run inner steps).2.run inner [s]).1 := by
      intro s
      exact congrArg Prod.fst (run_append inner { enabled } steps [s])
    refine ⟨fun a => ?_, fun fetch a hm hr => ?_, fun fetch hidle => ?_⟩
    · rw [hnext, htracks.run_start]
    · rw [hnext, htracks.run_finish hm hr]
    · rw [hnext, htracks.run_finish_of_idle hidle, List.append_nil]

/-- Two fetches overlap: both ask the store, each returns its own answer, and a third returns the
one that arrived last. -/
example :
    let a : Address := .zero 32
    let answer := fun fetch => if fetch = 0 then some (default : Account) else none
    let (history, cache) := ({} : Cache).run (fun fetch _ => answer fetch)
      [.start a, .start a, .finish 1, .finish 0, .start a]
    history.callsFor a = [0, 1] ∧ history.returnsOf 0 = [answer 0] ∧
      history.returnsOf 1 = [answer 1] ∧ history.returnsOf 2 = [answer 0] ∧
      cache.memo.size = 1 := by
  decide

end ExtraAccounts.Cache
