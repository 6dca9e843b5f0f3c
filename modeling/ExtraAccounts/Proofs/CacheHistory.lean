import ExtraAccounts.Proofs.Memo
import Mathlib.Data.List.Induction
import Mathlib.Data.List.Infix
import Mathlib.Data.List.TakeWhile

/-!
# Histories of a cache

Any number of fetches may go through one memo at once. A fetch starts with a look at the memo; if
its address is not known it asks the store and waits, and other fetches start and finish before the
answer arrives, which it then keeps and returns. `Cache.run` is what comes of a schedule of such
steps, against a store that may answer each call differently: a `History` and a state.

A history is `Lawful` if each event is one that the events before it allow: a fetch misses iff no
answer for its address has arrived, and a call is answered once, as the store answers it. This alone
says who reaches the store and who returns what:

* `returnsOf_of_missed`: a fetch that asked the store returns the answer to its own call;
* `callsFor_eq`: the calls for an address are the fetches of it before its first answer;
* `length_callsFor`: there is one, if the fetches of the address do not overlap.
-/

namespace ExtraAccounts

/-- A memo, and the fetches that wait for the store. -/
structure Cache where
  /-- Whether answers are kept. -/
  enabled : Bool := true
  memo : Memo := ∅
  /-- How many fetches have started. A fetch is named by how many started before it. -/
  started : Nat := 0
  /-- The fetches that asked the store and have no answer yet. -/
  waiting : List (Nat × Address) := []
deriving DecidableEq

namespace Cache

/-- What may come next. -/
inductive Step where
  /-- Some fetch of the address starts. -/
  | start (address : Address)
  /-- The store answers the call of a fetch. -/
  | finish (fetch : Nat)
deriving DecidableEq

/-- What a step does to a fetch. -/
inductive Event where
  /-- The fetch finds an answer in the memo and returns it. -/
  | hit (fetch : Nat) (address : Address) (answer : Option Account)
  /-- The fetch finds none and asks the store. -/
  | missed (fetch : Nat) (address : Address)
  /-- The answer of the store arrives; the fetch keeps and returns it. -/
  | answered (fetch : Nat) (address : Address) (answer : Option Account)
deriving DecidableEq

/-- The answer kept for the address, if answers are kept. -/
def known? (cache : Cache) (address : Address) : Option (Option Account) :=
  if cache.enabled then cache.memo.get? address else none

def keep (cache : Cache) (address : Address) (answer : Option Account) : Memo :=
  if cache.enabled then cache.memo.insert address answer else cache.memo

/-- One step, for a store that answers the call of each fetch as `inner` says; `none` iff it answers
a fetch that does not wait. -/
def step (inner : Nat → Address → Option Account) (cache : Cache) : Step → Option (Event × Cache)
  | .start address =>
    match cache.known? address with
    | some answer =>
      some (.hit cache.started address answer, { cache with started := cache.started + 1 })
    | none =>
      some (.missed cache.started address,
        { cache with
          started := cache.started + 1
          waiting := cache.waiting ++ [(cache.started, address)] })
  | .finish fetch =>
    (cache.waiting.find? fun call => call.1 = fetch).map fun (_, address) =>
      (.answered fetch address (inner fetch address),
        { cache with
          memo := cache.keep address (inner fetch address)
          waiting := cache.waiting.filter fun call => call.1 ≠ fetch })

/-- What happened, in order. -/
abbrev History := List Event

/-- A schedule of steps; those that are not possible are left out. -/
def run (inner : Nat → Address → Option Account) : Cache → List Step → History × Cache
  | cache, [] => ([], cache)
  | cache, s :: later =>
    match cache.step inner s with
    | none => run inner cache later
    | some (event, after) => ((run inner after later).1.cons event, (run inner after later).2)

/-! ## Histories -/

namespace Event

def fetch : Event → Nat
  | hit fetch .. | missed fetch _ | answered fetch .. => fetch

def isStart : Event → Bool
  | hit .. | missed .. => true
  | answered .. => false

/-- The fetch of the address that starts. -/
def starts? (address : Address) : Event → Option Nat
  | hit fetch a _ | missed fetch a => if a = address then some fetch else none
  | answered .. => none

/-- The fetch of the address that asks the store. -/
def asks? (address : Address) : Event → Option Nat
  | missed fetch a => if a = address then some fetch else none
  | hit .. | answered .. => none

/-- What the store answers for the address. -/
def answers? (address : Address) : Event → Option (Option Account)
  | answered _ a answer => if a = address then some answer else none
  | hit .. | missed .. => none

/-- What the fetch returns. -/
def returns? (fetch : Nat) : Event → Option (Option Account)
  | hit f _ answer | answered f _ answer => if f = fetch then some answer else none
  | missed .. => none

end Event

namespace History

/-- The fetches of the address, in order. -/
def fetchesOf (history : History) (address : Address) : List Nat :=
  history.filterMap (Event.starts? address)

/-- Those that reached the store. -/
def callsFor (history : History) (address : Address) : List Nat :=
  history.filterMap (Event.asks? address)

/-- The answers of the store for the address, in the order in which they arrived. -/
def answersTo (history : History) (address : Address) : List (Option Account) :=
  history.filterMap (Event.answers? address)

/-- What the fetch returned. -/
def returnsOf (history : History) (fetch : Nat) : List (Option Account) :=
  history.filterMap (Event.returns? fetch)

/-- The addresses that the store gave answers for. -/
def answeredAddresses (history : History) : List Address :=
  history.filterMap fun
    | .answered _ address _ => some address
    | _ => none

/-- The answer that is kept for the address. -/
def kept? (enabled : Bool) (history : History) (address : Address) : Option (Option Account) :=
  if enabled then (history.answersTo address).getLast? else none

/-- What happened until the store first answered for the address. -/
def untilAnswer (history : History) (address : Address) : History :=
  history.takeWhile fun event => (event.answers? address).isNone

/-- Whenever a fetch of the address starts, the calls for it before are answered. -/
def NoOverlap (history : History) (address : Address) : Prop :=
  ∀ before event, before ++ [event] <+: history → (event.starts? address).isSome →
    ∀ fetch, .missed fetch address ∈ before → ∃ answer, .answered fetch address answer ∈ before

end History

/-- What becomes of a fetch when it starts, by what is known then. -/
def startEvent (known : Address → Option (Option Account)) (fetch : Nat) (address : Address) :
    Event :=
  match known address with
  | some answer => .hit fetch address answer
  | none => .missed fetch address

/-- What the events so far let the next one be. -/
def Allowed (enabled : Bool) (inner : Nat → Address → Option Account) (before : History) :
    Event → Prop
  | .hit fetch address answer =>
    fetch = before.countP Event.isStart ∧ before.kept? enabled address = some answer
  | .missed fetch address =>
    fetch = before.countP Event.isStart ∧ before.kept? enabled address = none
  | .answered fetch address answer =>
    answer = inner fetch address ∧ .missed fetch address ∈ before ∧ before.returnsOf fetch = []

/-- Every event is one that those before allow. -/
def Lawful (enabled : Bool) (inner : Nat → Address → Option Account) (history : History) : Prop :=
  ∀ before event, before ++ [event] <+: history → Allowed enabled inner before event

/-! ## What lawful histories say -/

section
variable {α : Type}

theorem filterMap_concat (f : Event → Option α) (history : History) (event : Event) :
    (history ++ [event]).filterMap f = history.filterMap f ++ (f event).toList := by
  rw [List.filterMap_append]
  cases h : f event <;> simp [h]

end

namespace History

variable (history : History) (event : Event) (address : Address)

@[simp] theorem fetchesOf_concat :
    fetchesOf (history ++ [event]) address =
      history.fetchesOf address ++ (event.starts? address).toList :=
  filterMap_concat _ history event

@[simp] theorem callsFor_concat :
    callsFor (history ++ [event]) address =
      history.callsFor address ++ (event.asks? address).toList :=
  filterMap_concat _ history event

@[simp] theorem answersTo_concat :
    answersTo (history ++ [event]) address =
      history.answersTo address ++ (event.answers? address).toList :=
  filterMap_concat _ history event

@[simp] theorem returnsOf_concat (fetch : Nat) :
    returnsOf (history ++ [event]) fetch =
      history.returnsOf fetch ++ (event.returns? fetch).toList :=
  filterMap_concat _ history event

variable {history address}

theorem answers?_eq_none (h : history.answersTo address = []) :
    ∀ event ∈ history, (event.answers? address).isNone = true := by
  intro event he
  simpa using List.filterMap_eq_nil_iff.1 h event he

theorem untilAnswer_of_nil (h : history.answersTo address = []) :
    history.untilAnswer address = history :=
  List.takeWhile_eq_self_iff.2 (answers?_eq_none h)

theorem untilAnswer_concat_of_nil (h : history.answersTo address = []) :
    untilAnswer (history ++ [event]) address =
      if (event.answers? address).isNone then history ++ [event] else history := by
  rw [untilAnswer, List.takeWhile_append_of_pos (answers?_eq_none h), List.takeWhile_cons,
    List.takeWhile_nil]
  split <;> simp

theorem untilAnswer_concat_of_ne_nil (h : history.answersTo address ≠ []) :
    untilAnswer (history ++ [event]) address = history.untilAnswer address := by
  rw [untilAnswer, List.takeWhile_append, if_neg, untilAnswer]
  intro hl
  refine h (List.filterMap_eq_nil_iff.2 fun event he => ?_)
  have hself := (List.takeWhile_prefix _).eq_of_length hl
  simpa using List.takeWhile_eq_self_iff.1 hself event he

theorem noOverlap_of_concat (h : NoOverlap (history ++ [event]) address) :
    history.NoOverlap address :=
  fun before last hp => h before last (hp.trans (List.prefix_append _ _))

end History

section
variable {enabled : Bool} {inner : Nat → Address → Option Account} {history : History}

theorem lawful_concat_iff {event : Event} :
    Lawful enabled inner (history ++ [event]) ↔
      Lawful enabled inner history ∧ Allowed enabled inner history event := by
  constructor
  · intro h
    exact ⟨fun before last hp => h before last (hp.trans (List.prefix_append _ _)),
      h history event List.prefix_rfl⟩
  · rintro ⟨h, he⟩ before last hp
    rcases List.prefix_concat_iff.1 hp with heq | hp
    · obtain ⟨rfl, hlast⟩ := List.append_inj' heq rfl
      cases hlast
      exact he
    · exact h before last hp

/-- Every fetch that anything happened to has started. -/
theorem Lawful.fetch_lt (h : Lawful enabled inner history) :
    ∀ event ∈ history, event.fetch < history.countP Event.isStart := by
  induction history using List.reverseRecOn with
  | nil => simp
  | append_singleton history last ih =>
    rw [lawful_concat_iff] at h
    obtain ⟨h, hlast⟩ := h
    have ih := ih h
    intro event he
    rw [List.countP_append, List.countP_singleton]
    rcases List.mem_append.1 he with he | he
    · have := ih event he
      omega
    · obtain rfl := List.mem_singleton.1 he
      cases event with
      | hit fetch address answer => simp [Event.fetch, Event.isStart, hlast.1]
      | missed fetch address => simp [Event.fetch, Event.isStart, hlast.1]
      | answered fetch address answer =>
        have : fetch < history.countP Event.isStart := ih _ hlast.2.1
        simp only [Event.fetch]
        omega

/-- A fetch that has not started has returned nothing. -/
theorem Lawful.returnsOf_eq_nil (h : Lawful enabled inner history) {fetch : Nat}
    (hf : history.countP Event.isStart ≤ fetch) : history.returnsOf fetch = [] := by
  refine List.filterMap_eq_nil_iff.2 fun event he => ?_
  have := h.fetch_lt event he
  cases event <;> simp only [Event.returns?, ite_eq_right_iff, reduceCtorEq, imp_false]
  all_goals
    simp only [Event.fetch] at this
    omega

theorem Lawful.missed_unique (h : Lawful enabled inner history) {fetch : Nat} {a b : Address}
    (ha : .missed fetch a ∈ history) (hb : .missed fetch b ∈ history) : a = b := by
  induction history using List.reverseRecOn with
  | nil => cases ha
  | append_singleton history last ih =>
    rw [lawful_concat_iff] at h
    obtain ⟨h, hlast⟩ := h
    -- the fetch that starts last is none of those before
    have hnew : ∀ address, last = .missed fetch address →
        ∀ address', .missed fetch address' ∉ history := by
      rintro address rfl address' hm
      have hlt := h.fetch_lt _ hm
      have heq := hlast.1
      simp only [Event.fetch] at hlt
      omega
    rcases List.mem_append.1 ha with ha | ha <;> rcases List.mem_append.1 hb with hb | hb
    · exact ih h ha hb
    · exact absurd ha (hnew b (List.mem_singleton.1 hb).symm a)
    · exact absurd hb (hnew a (List.mem_singleton.1 ha).symm b)
    · cases (List.mem_singleton.1 ha).trans (List.mem_singleton.1 hb).symm
      rfl

theorem Lawful.missed_of_answered (h : Lawful enabled inner history) {fetch : Nat} {a : Address}
    {answer : Option Account} (ha : .answered fetch a answer ∈ history) :
    .missed fetch a ∈ history := by
  obtain ⟨before, after, rfl⟩ := List.append_of_mem ha
  have := h before (.answered fetch a answer) (by simp)
  exact List.mem_append_left _ this.2.1

/-- **A fetch that asked the store returns the answer to its own call**, once. -/
theorem Lawful.returnsOf_of_missed (h : Lawful enabled inner history) {fetch : Nat} {a : Address}
    (hm : .missed fetch a ∈ history) :
    history.returnsOf fetch = [] ∨ history.returnsOf fetch = [inner fetch a] := by
  induction history using List.reverseRecOn with
  | nil => cases hm
  | append_singleton history last ih =>
    rw [lawful_concat_iff] at h
    obtain ⟨h, hlast⟩ := h
    rw [History.returnsOf_concat]
    rcases List.mem_append.1 hm with hbefore | hnow
    · have hlt : fetch < history.countP Event.isStart := h.fetch_lt _ hbefore
      cases last with
      | hit f address answer =>
        have hne : f ≠ fetch := by
          have := hlast.1
          omega
        simpa [Event.returns?, hne] using ih h hbefore
      | missed f address => simpa [Event.returns?] using ih h hbefore
      | answered f address answer =>
        by_cases hf : f = fetch
        · obtain ⟨rfl, hmissed, hnone⟩ := hlast
          subst hf
          cases h.missed_unique hbefore hmissed
          simp [hnone, Event.returns?]
        · simpa [Event.returns?, hf] using ih h hbefore
    · cases List.mem_singleton.1 hnow
      rw [h.returnsOf_eq_nil (Nat.le_of_eq hlast.1.symm)]
      exact .inl rfl

theorem Lawful.returnsOf_of_hit (h : Lawful enabled inner history) {fetch : Nat} {a : Address}
    {answer : Option Account} (hm : .hit fetch a answer ∈ history) :
    history.returnsOf fetch = [answer] := by
  induction history using List.reverseRecOn with
  | nil => cases hm
  | append_singleton history last ih =>
    rw [lawful_concat_iff] at h
    obtain ⟨h, hlast⟩ := h
    rw [History.returnsOf_concat]
    rcases List.mem_append.1 hm with hbefore | hnow
    · have hlt : fetch < history.countP Event.isStart := h.fetch_lt _ hbefore
      rw [ih h hbefore]
      cases last with
      | hit f address answer' =>
        have hne : f ≠ fetch := by
          have := hlast.1
          omega
        simp [Event.returns?, hne]
      | missed f address => rfl
      | answered f address answer' =>
        have hne : f ≠ fetch := by
          rintro rfl
          have := hlast.2.2
          rw [ih h hbefore] at this
          cases this
        simp [Event.returns?, hne]
    · cases List.mem_singleton.1 hnow
      rw [h.returnsOf_eq_nil (Nat.le_of_eq hlast.1.symm)]
      simp [Event.returns?]

theorem mem_callsFor {history : History} {address : Address} {fetch : Nat} :
    fetch ∈ history.callsFor address ↔ .missed fetch address ∈ history := by
  simp only [History.callsFor, List.mem_filterMap]
  constructor
  · rintro ⟨event, he, ha⟩
    cases event <;> simp only [Event.asks?, reduceCtorEq] at ha
    split at ha <;> cases ha
    rename_i h
    exact h ▸ he
  · intro h
    exact ⟨_, h, by simp [Event.asks?]⟩

theorem mem_fetchesOf_of_mem_callsFor {history : History} {address : Address} {fetch : Nat}
    (h : fetch ∈ history.callsFor address) : fetch ∈ history.fetchesOf address :=
  List.mem_filterMap.2 ⟨_, mem_callsFor.1 h, by simp [Event.starts?]⟩

theorem mem_answersTo {history : History} {address : Address} {answer : Option Account} :
    answer ∈ history.answersTo address ↔ ∃ fetch, .answered fetch address answer ∈ history := by
  simp only [History.answersTo, List.mem_filterMap]
  constructor
  · rintro ⟨event, he, ha⟩
    cases event <;> simp only [Event.answers?, reduceCtorEq] at ha
    split at ha <;> cases ha
    rename_i h
    exact ⟨_, h ▸ he⟩
  · rintro ⟨fetch, h⟩
    exact ⟨_, h, by simp [Event.answers?]⟩

theorem answersTo_of_hit {before : History} {fetch : Nat} {address : Address}
    {answer : Option Account} (h : Allowed true inner before (.hit fetch address answer)) :
    before.answersTo address ≠ [] := by
  intro hnil
  have hkept : (before.answersTo address).getLast? = some answer := h.2
  rw [hnil] at hkept
  cases hkept

theorem answersTo_of_missed {before : History} {fetch : Nat} {address : Address}
    (h : Allowed true inner before (.missed fetch address)) : before.answersTo address = [] :=
  List.getLast?_eq_none_iff.1 h.2

/-- **The calls for an address** are the fetches of it before its first answer. -/
theorem Lawful.callsFor_eq (h : Lawful true inner history) (address : Address) :
    history.callsFor address = (history.untilAnswer address).fetchesOf address := by
  induction history using List.reverseRecOn with
  | nil => rfl
  | append_singleton history last ih =>
    rw [lawful_concat_iff] at h
    obtain ⟨h, hlast⟩ := h
    rw [History.callsFor_concat, ih h]
    by_cases ha : History.answersTo history address = []
    · rw [History.untilAnswer_concat_of_nil last ha, History.untilAnswer_of_nil ha]
      cases last with
      | hit fetch a answer =>
        have hne : a ≠ address := fun he => answersTo_of_hit hlast (he ▸ ha)
        simp [Event.asks?, Event.answers?, Event.starts?, hne]
      | missed fetch a => simp [Event.asks?, Event.answers?, Event.starts?]
      | answered fetch a answer =>
        by_cases he : a = address
        · simp [Event.asks?, Event.answers?, he]
        · simp [Event.asks?, Event.answers?, Event.starts?, he]
    · rw [History.untilAnswer_concat_of_ne_nil last ha]
      cases last with
      | hit fetch a answer => simp [Event.asks?]
      | missed fetch a =>
        have hne : a ≠ address := fun he => ha (he ▸ answersTo_of_missed hlast)
        simp [Event.asks?, hne]
      | answered fetch a answer => simp [Event.asks?]

theorem Lawful.length_callsFor (h : Lawful true inner history) {address : Address}
    (hn : history.NoOverlap address) (hf : history.fetchesOf address ≠ []) :
    (history.callsFor address).length = 1 := by
  induction history using List.reverseRecOn with
  | nil => exact absurd rfl hf
  | append_singleton history last ih =>
    rw [lawful_concat_iff] at h
    obtain ⟨h, hlast⟩ := h
    have ih := ih h (History.noOverlap_of_concat last hn)
    rw [History.fetchesOf_concat] at hf
    rw [History.callsFor_concat]
    cases last with
    | hit fetch a answer =>
      by_cases ha : a = address
      · -- an answer is kept, so the store was asked before
        subst ha
        obtain ⟨kept, hkept⟩ := List.exists_mem_of_ne_nil _ (answersTo_of_hit hlast)
        obtain ⟨earlier, he⟩ := mem_answersTo.1 hkept
        have hcalled := mem_callsFor.2 (h.missed_of_answered he)
        simpa [Event.asks?] using ih (List.ne_nil_of_mem (mem_fetchesOf_of_mem_callsFor hcalled))
      · simp only [Event.starts?, ha, if_false, Option.toList_none, List.append_nil] at hf
        simpa [Event.asks?] using ih hf
    | missed fetch a =>
      by_cases ha : a = address
      · subst ha
        -- an earlier call would have been answered, and its answer kept
        have hnone : History.callsFor history a = [] := by
          refine List.eq_nil_iff_forall_not_mem.2 fun earlier he => ?_
          obtain ⟨answer, hanswer⟩ :=
            hn history _ List.prefix_rfl (by simp [Event.starts?]) earlier (mem_callsFor.1 he)
          have := mem_answersTo.2 ⟨earlier, hanswer⟩
          rw [answersTo_of_missed hlast] at this
          cases this
        simp [hnone, Event.asks?]
      · simp only [Event.starts?, ha, if_false, Option.toList_none, List.append_nil] at hf
        simpa [Event.asks?, ha] using ih hf
    | answered fetch a answer =>
      simp only [Event.starts?, Option.toList_none, List.append_nil] at hf
      simpa [Event.asks?] using ih hf

end

end Cache

end ExtraAccounts
