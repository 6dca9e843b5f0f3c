import ExtraAccounts.Proofs.Runs
import Mathlib.Data.List.Nodup

/-!
# What a memo changes

A plan behind a memo comes to the same value and the same derivations, as long as the answers in
the memo are those of the store (`Memo.Agrees`, `run_memoized`). It asks the store for less: for
exactly the addresses the plan asks for that the memo does not know, each once, in the order in
which the plan asks for them first (`requests_memoized`). That no address is asked for twice holds
for every store (`requests_memoized_fresh`).

The last two are about plans whose batches name no address twice (`Plan.DistinctBatches`): a memo
looks up a whole batch before any of it is answered.
-/

namespace ExtraAccounts

/-! ## Lists without their repeats -/

section
variable {α : Type} [BEq α] [LawfulBEq α]

theorem eraseDups_filter (p : α → Bool) (l : List α) :
    (l.filter p).eraseDups = l.eraseDups.filter p := by
  match l with
  | [] => rfl
  | a :: l =>
    have : (l.filter fun b => !b == a).length < l.length + 1 :=
      Nat.lt_add_one_of_le (List.length_filter_le _ l)
    have ih := eraseDups_filter p (l.filter fun b => !b == a)
    by_cases ha : p a = true
    · rw [List.filter_cons_of_pos ha, List.eraseDups_cons, List.eraseDups_cons,
        List.filter_cons_of_pos ha, ← ih, List.filter_filter, List.filter_filter]
      simp only [Bool.and_comm]
    · -- no later copy of `a` passes the filter either
      rw [List.filter_cons_of_neg ha, List.eraseDups_cons, List.filter_cons_of_neg ha, ← ih,
        List.filter_filter]
      congr 1
      refine List.filter_congr fun b _ => ?_
      by_cases hb : b = a
      · subst hb; simp [ha]
      · simp [hb]
termination_by l.length

theorem nodup_eraseDups (l : List α) : l.eraseDups.Nodup := by
  match l with
  | [] => simp
  | a :: l =>
    have : (l.filter fun b => !b == a).length < l.length + 1 :=
      Nat.lt_add_one_of_le (List.length_filter_le _ l)
    rw [List.eraseDups_cons, List.nodup_cons]
    refine ⟨fun h => ?_, nodup_eraseDups _⟩
    simpa using (List.mem_filter.1 (List.mem_eraseDups.1 h)).2
termination_by l.length

theorem eraseDups_of_nodup {l : List α} (h : l.Nodup) : l.eraseDups = l := by
  induction l with
  | nil => rfl
  | cons a l ih =>
    rw [List.nodup_cons] at h
    rw [List.eraseDups_cons, List.filter_eq_self.2, ih h.2]
    intro b hb
    have : b ≠ a := fun e => h.1 (e ▸ hb)
    simpa using this

/-- Of the later list, what the earlier one has is dropped. -/
theorem eraseDups_append_filter (xs ys : List α) :
    (xs ++ ys).eraseDups = xs.eraseDups ++ ys.eraseDups.filter fun a => !xs.elem a := by
  rw [List.eraseDups_append, List.removeAll, eraseDups_filter]

theorem elem_eq_of_eraseDups {xs xs' : List α} (h : xs.eraseDups = xs'.eraseDups) (a : α) :
    xs.elem a = xs'.elem a := by
  have : a ∈ xs ↔ a ∈ xs' := by
    rw [← List.mem_eraseDups, h, List.mem_eraseDups]
  rw [Bool.eq_iff_iff, List.elem_iff, List.elem_iff, this]

theorem eraseDups_append_congr {xs xs' ys ys' : List α} (hx : xs.eraseDups = xs'.eraseDups)
    (hy : ys.eraseDups = ys'.eraseDups) : (xs ++ ys).eraseDups = (xs' ++ ys').eraseDups := by
  simp only [eraseDups_append_filter, hx, hy, elem_eq_of_eraseDups hx]

theorem isPrefix_eraseDups_append {xs xs' ys ys' : List α} (hx : xs.eraseDups = xs'.eraseDups)
    (hy : ys.eraseDups <+: ys'.eraseDups) :
    (xs ++ ys).eraseDups <+: (xs' ++ ys').eraseDups := by
  simp only [eraseDups_append_filter, hx, elem_eq_of_eraseDups hx]
  exact (List.prefix_append_right_inj _).2 (hy.filter _)

theorem isPrefix_eraseDups {xs ys : List α} (h : xs <+: ys) : xs.eraseDups <+: ys.eraseDups := by
  obtain ⟨later, rfl⟩ := h
  rw [eraseDups_append_filter]
  exact List.prefix_append _ _

/-- Values that keys without repeats are paired with are found by their keys. -/
theorem map_lookup_zip {β : Type} {keys : List α} {values : List (Option β)} (hnd : keys.Nodup)
    (hl : values.length = keys.length) :
    keys.map (fun a => ((keys.zip values).lookup a).join) = values := by
  induction keys generalizing values with
  | nil => simpa [eq_comm] using hl
  | cons key later ih =>
    obtain ⟨value, values, rfl⟩ := List.exists_cons_of_length_eq_add_one hl
    rw [List.nodup_cons] at hnd
    rw [List.map_cons, List.zip_cons_cons, List.lookup_cons_self]
    refine congrArg (value :: ·) (Eq.trans (List.map_congr_left fun a ha => ?_)
      (ih hnd.2 (by simpa using hl)))
    have hne : a ≠ key := fun he => hnd.1 (he ▸ ha)
    rw [List.lookup_cons, beq_false_of_ne hne]

end

/-! ## Looking up a batch -/

theorem Plan.mem_unknown {known : Address → Option (Option Account)} {addresses : List Address}
    {a : Address} : a ∈ Plan.unknown known addresses ↔ a ∈ addresses ∧ known a = none := by
  simp [Plan.unknown]

namespace Memo

/-- Every answer kept is that of the store. -/
def Agrees (memo : Memo) (accounts : Address → Option Account) : Prop :=
  ∀ address answer, memo.get? address = some answer → answer = accounts address

theorem agrees_empty (accounts : Address → Option Account) : Memo.Agrees ∅ accounts := by
  intro address answer h
  simp at h

theorem keep_cons (memo : Memo) (address : Address) (addresses : List Address)
    (answer : Option Account) (answers : List (Option Account)) :
    memo.keep (address :: addresses) (answer :: answers) =
      Memo.keep (memo.insert address answer) addresses answers := rfl

/-- What is kept of a batch agrees with the store that answered it. -/
theorem Agrees.keep {memo : Memo} {accounts : Address → Option Account} (h : memo.Agrees accounts)
    (addresses : List Address) : (memo.keep addresses (addresses.map accounts)).Agrees accounts := by
  induction addresses generalizing memo with
  | nil => exact h
  | cons address later ih =>
    rw [List.map_cons, keep_cons]
    refine ih fun a answer ha => ?_
    rw [AddressMap.get?_insert] at ha
    split at ha
    · rename_i he
      rw [he, ← Option.some.inj ha]
    · exact h a answer ha

/-- The addresses of a batch are known from then on. -/
theorem get?_keep_eq_none {memo : Memo} {addresses : List Address}
    {answers : List (Option Account)} (hl : answers.length = addresses.length) (a : Address) :
    (memo.keep addresses answers).get? a = none ↔ memo.get? a = none ∧ a ∉ addresses := by
  induction addresses generalizing memo answers with
  | nil => simp [keep]
  | cons address later ih =>
    obtain ⟨answer, answers, rfl⟩ := List.exists_cons_of_length_eq_add_one hl
    rw [keep_cons, ih (by simpa using hl), AddressMap.get?_insert]
    by_cases he : a = address <;> simp [he]

theorem unknown_keep {memo : Memo} {addresses : List Address} {answers : List (Option Account)}
    (hl : answers.length = addresses.length) (l : List Address) :
    Plan.unknown (memo.keep addresses answers).get? l =
      (Plan.unknown memo.get? l).filter fun a => !addresses.elem a := by
  simp only [Plan.unknown, List.filter_filter]
  refine List.filter_congr fun a _ => ?_
  rw [Bool.eq_iff_iff]
  simp [get?_keep_eq_none hl, and_comm]

end Memo

namespace Plan

variable {α : Type}

/-- No batch names an address twice. -/
def DistinctBatches : Plan α → Prop
  | done _ => True
  | request addresses next => addresses.Nodup ∧ ∀ answers, (next answers).DistinctBatches
  | derivation _ _ next => ∀ answer, (next answer).DistinctBatches
  | log _ next => next.DistinctBatches

theorem DistinctBatches.bind {β : Type} {plan : Plan α} {f : α → Plan β}
    (h : plan.DistinctBatches) (hf : ∀ value, (f value).DistinctBatches) :
    (plan.bind f).DistinctBatches := by
  induction plan with
  | done value => exact hf value
  | request addresses next ih => exact ⟨h.1, fun answers => ih answers (h.2 answers)⟩
  | derivation program seeds next ih => exact fun answer => ih answer (h answer)
  | log entry next ih => exact ih h

theorem distinctBatches_requestEach {addresses : List Address}
    {next : List (Option Account) → Plan α} (h : ∀ answers, (next answers).DistinctBatches) :
    (requestEach addresses next).DistinctBatches := by
  induction addresses generalizing next with
  | nil => exact h []
  | cons address later ih => exact ⟨List.nodup_singleton address, fun _ => ih fun _ => h _⟩

theorem distinctBatches_sequenced (plan : Plan α) : plan.sequenced.DistinctBatches := by
  induction plan with
  | done value => exact trivial
  | request addresses next ih => exact distinctBatches_requestEach ih
  | derivation program seeds next ih => exact ih
  | log entry next ih => exact ih

theorem DistinctBatches.delivered {plan : Plan α} (h : plan.DistinctBatches)
    (delivery : Delivery) : (plan.delivered delivery).DistinctBatches := by
  cases delivery with
  | immediate => exact distinctBatches_sequenced plan
  | batched => exact h

/-! ## Runs behind a memo -/

variable (deriver : Deriver)

theorem run_requestUnknown (source : Source) (known : Address → Option (Option Account))
    (entry : Address → LogEntry) (addresses : List Address)
    (next : List (Option Account) → Plan α) (asked : List Address) :
    (requestUnknown known entry addresses next).run deriver source asked =
      (((next (source.answer asked (unknown known addresses))).run deriver source
        ((unknown known addresses).reverse ++ asked)).after
          ((unknown known addresses).map .requested)).after
            (((addresses.filter fun a => (known a).isSome).map entry).map .logged) := by
  rw [requestUnknown, run_logAll, run]

/-- A batch is answered as by the store. -/
theorem combine_map {known : Address → Option (Option Account)} {accounts : Address → Option Account}
    (h : ∀ a answer, known a = some answer → answer = accounts a) (addresses : List Address) :
    combine known addresses ((unknown known addresses).map accounts) = addresses.map accounts := by
  induction addresses with
  | nil => rfl
  | cons address later ih =>
    unfold unknown at ih ⊢
    cases hk : known address with
    | none => simp [combine, hk, ih]
    | some answer => simp [combine, hk, ih, h address answer hk]

/-- **A memo that agrees with the store changes neither the value nor the derivations.** -/
theorem run_memoized {accounts : Address → Option Account} (plan : Plan α) {memo : Memo}
    (h : memo.Agrees accounts) (asked asked' : List Address) :
    let behind := (plan.memoized memo).run deriver (.fixed accounts) asked'
    let plain := plan.run deriver (.fixed accounts) asked
    behind.value.1 = plain.value ∧ behind.derivations = plain.derivations := by
  induction plan generalizing memo asked asked' with
  | done value => exact ⟨rfl, rfl⟩
  | request addresses next ih =>
    simp only [memoized, run_requestUnknown, run, Source.answer_fixed, combine_map h,
      Outcome.value_after, Outcome.derivations_after_logged, Outcome.derivations_after_requested]
    exact ih (addresses.map accounts) (h.keep _) _ _
  | derivation program seeds next ih =>
    simpa [memoized, run] using ih (deriver program seeds) h asked asked'
  | log entry next ih => simpa [memoized, run] using ih h asked asked'

/-- **Behind a memo no address is asked for that is known, and none twice**, whatever the store. -/
theorem requests_memoized_fresh (source : Source) {plan : Plan α} (hp : plan.DistinctBatches)
    (memo : Memo) (asked : List Address) :
    let requests := ((plan.memoized memo).run deriver source asked).requests
    requests.Nodup ∧ ∀ a ∈ requests, memo.get? a = none := by
  induction plan generalizing memo asked with
  | done value => simp [memoized, run, Outcome.requests]
  | request addresses next ih =>
    simp only [memoized, run_requestUnknown, Outcome.requests_after_logged,
      Outcome.requests_after_requested]
    generalize hfresh : source.answer asked (unknown memo.get? addresses) = fresh
    have hl : fresh.length = (unknown memo.get? addresses).length := by simp [← hfresh]
    -- what is asked for later is new to a memo that knows this batch, hence not of this batch
    obtain ⟨hnd, hnew⟩ := ih (combine memo.get? addresses fresh) (hp.2 _)
      (memo.keep (unknown memo.get? addresses) fresh) ((unknown memo.get? addresses).reverse ++ asked)
    have hnew' := fun a ha => (Memo.get?_keep_eq_none hl a).1 (hnew a ha)
    refine ⟨List.nodup_append.2 ⟨hp.1.filter _, hnd, fun a ha b hb e => ?_⟩, fun a ha => ?_⟩
    · exact (hnew' b hb).2 (e ▸ ha)
    · rcases List.mem_append.1 ha with ha | ha
      · exact (mem_unknown.1 ha).2
      · exact (hnew' a ha).1
  | derivation program seeds next ih =>
    simpa [memoized, run] using ih (deriver program seeds) (hp _) memo asked
  | log entry next ih => simpa [memoized, run] using ih hp memo asked

/-- **Behind a memo a plan asks for what is not known, each address once.** -/
theorem requests_memoized {accounts : Address → Option Account} {plan : Plan α}
    (hp : plan.DistinctBatches) {memo : Memo} (h : memo.Agrees accounts)
    (asked asked' : List Address) :
    ((plan.memoized memo).run deriver (.fixed accounts) asked').requests =
      (unknown memo.get? (plan.run deriver (.fixed accounts) asked).requests).eraseDups := by
  induction plan generalizing memo asked asked' with
  | done value => simp [memoized, run, Outcome.requests, unknown]
  | request addresses next ih =>
    simp only [memoized, run_requestUnknown, run, Source.answer_fixed, combine_map h,
      Outcome.requests_after_logged, Outcome.requests_after_requested]
    rw [ih _ (hp.2 _) (h.keep _) (addresses.reverse ++ asked), Memo.unknown_keep (by simp),
      eraseDups_filter]
    simp only [unknown, List.filter_append]
    rw [eraseDups_append_filter, eraseDups_of_nodup (hp.1.filter _)]
  | derivation program seeds next ih =>
    simpa [memoized, run] using ih (deriver program seeds) (hp _) h asked asked'
  | log entry next ih => simpa [memoized, run] using ih hp h asked asked'

end Plan

end ExtraAccounts
