import ExtraAccounts.Proofs.LogLines
import ExtraAccounts.Proofs.OnlyReads
import ExtraAccounts.Proofs.RecordByRecord
import ExtraAccounts.Proofs.RequestBounds

/-!
# The log of a call

Of the lines that a call writes for itself, all but the first two are about its records: one for each
that resolved, in order, and a last one if the next failed (`Call.resolve_log`). A failure need not
name its record, so that line is what ties the two together. It is the last of the whole call.

Evaluating a strategy writes no such line (`uses_evaluateStrategy`), so a record writes one iff it
resolves, as its last (`ownLines_evaluateRecord`), and the lines of a run of records follow by
induction on them (`Call.mayLog_evaluateRecords`). All of it is said of every log that a plan may
leave, so how the plan is served makes no difference, nor whether the store changes meanwhile.
-/

namespace ExtraAccounts

/-- The lines that a resolution writes for itself. -/
def ownLines (lines : List LogEntry) : List LogEntry := lines.filter LogEntry.isOwn

theorem ownLines_append (first later : List LogEntry) :
    ownLines (first ++ later) = ownLines first ++ ownLines later :=
  List.filter_append first later

theorem ownLines_eq_nil {lines : List LogEntry} (h : ∀ line ∈ lines, line.isOwn = false) :
    ownLines lines = [] :=
  List.filter_eq_nil_iff.2 fun line hline => by simp [h line hline]

/-! ## Quiet plans -/

/-- The events that are no lines of a resolution's own. -/
def Event.IsQuiet : Event → Prop
  | .logged line => line.isOwn = false
  | .requested _ | .derived .. => True

namespace Plan

variable {α β : Type} {plan : Plan α} {deriver : Deriver}
  {given : Address → Option Account → Prop} {lines : List LogEntry}

theorem MayLog.ownLines_eq_nil {value : α} (hplan : plan.Uses Event.IsQuiet)
    (h : plan.MayLog deriver given lines value) : ownLines lines = [] := by
  induction h with
  | done value => rfl
  | request hanswers hserved hnext ih =>
    rw [ownLines_append, ExtraAccounts.ownLines_eq_nil hserved, ih (hplan.2 _), List.append_nil]
  | derivation hnext ih => exact ih (hplan.2 _)
  | log hnext ih =>
    rw [ownLines, List.filter_cons_of_neg (by simp [show _ = false from hplan.1])]
    exact ih hplan.2

/-! ## Resolutions -/

/-- **The log of a sequence**: the second part follows a first that gives a value. -/
theorem MayLog.of_run_bind {resolution : Resolution α} {f : α → Resolution β}
    {result : Except Failure β} (h : (resolution >>= f).run.MayLog deriver given lines result) :
    (∃ first later value, resolution.run.MayLog deriver given first (.ok value) ∧
      (f value).run.MayLog deriver given later result ∧ lines = first ++ later) ∨
    ∃ cause, resolution.run.MayLog deriver given lines (.error cause) ∧ result = .error cause := by
  rw [ExceptT.run_bind, bind_eq] at h
  obtain ⟨first, later, middle, hfirst, hlater, rfl⟩ := h.of_bind
  cases middle with
  | ok value => exact .inl ⟨first, later, value, hfirst, hlater, rfl⟩
  | error cause =>
    cases hlater
    rw [List.append_nil]
    exact .inr ⟨cause, hfirst, rfl⟩

theorem MayLog.of_note_bind {entry : LogEntry} {f : Unit → Resolution β} {result : Except Failure β}
    (h : (liftM (note entry) >>= f).run.MayLog deriver given lines result) :
    ∃ later, (f ()).run.MayLog deriver given later result ∧ lines = entry :: later := by
  cases h with
  | log hnext => exact ⟨_, hnext, rfl⟩

/-- A failure is logged on the way out. -/
theorem MayLog.of_tryCatch_note {resolution : Resolution α} {entry : Failure → LogEntry}
    {result : Except Failure α}
    (h : (tryCatch resolution fun cause => do
        Plan.note (entry cause)
        throw cause).run.MayLog deriver given lines result) :
    (∃ value, resolution.run.MayLog deriver given lines (.ok value) ∧ result = .ok value) ∨
    ∃ cause before, resolution.run.MayLog deriver given before (.error cause) ∧
      result = .error cause ∧ lines = before ++ [entry cause] := by
  rw [ExceptT.run_tryCatch, bind_eq] at h
  obtain ⟨first, later, middle, hfirst, hlater, rfl⟩ := h.of_bind
  cases middle with
  | ok value =>
    cases hlater
    rw [List.append_nil]
    exact .inl ⟨value, hfirst, rfl⟩
  | error cause =>
    obtain ⟨last, hlast, rfl⟩ := MayLog.of_note_bind hlater
    cases hlast
    exact .inr ⟨cause, first, hfirst, rfl, rfl⟩

end Plan

open Plan

/-! ## Records -/

section
variable (ctx : RecordContext) (known : List AccountMeta)

theorem Event.isQuiet_of_isRead : ∀ event : Event, event.IsRead → event.IsQuiet
  | .requested _, _ => trivial
  | .logged (.prefetching _), _ => rfl

theorem uses_deriveUnder (program : Address) (spec : AddressConfig) :
    (deriveUnder ctx known program spec).run.Uses Event.IsQuiet := by
  unfold deriveUnder
  refine ((onlyReads_evaluateSpec _ _ _).uses.mono Event.isQuiet_of_isRead).run_bind fun seeds => ?_
  refine ⟨trivial, fun derived => ?_⟩
  cases derived <;> exact trivial

/-- **Evaluating a strategy** writes no line of its own. -/
theorem uses_evaluateStrategy (strategy : Strategy) :
    (evaluateStrategy ctx known strategy).run.Uses Event.IsQuiet := by
  cases strategy with
  | literal address => exact trivial
  | seeds spec => exact uses_deriveUnder ctx known _ spec
  | pointer spec => exact (onlyReads_followPointer _ _).uses.mono Event.isQuiet_of_isRead
  | namespacedSeeds index spec =>
    unfold evaluateStrategy
    dsimp only
    split
    · exact trivial
    · exact uses_deriveUnder ctx known _ spec

end

section
variable {deriver : Deriver} {given : Address → Option Account → Prop} {lines : List LogEntry}
  {ctx : RecordContext} {known : List AccountMeta} {index : Nat} {record : Record}

/-- **The line of a record**: one if it gives an account, none if it fails. -/
theorem ownLines_evaluateRecord {result : Except Failure AccountMeta}
    (h : (evaluateRecord ctx known index record).run.MayLog deriver given lines result) :
    (∀ account, result = .ok account → ∃ strategy, record.strategy = .ok strategy ∧
      account.role = record.role ∧ ownLines lines = [.recordResolved index strategy account]) ∧
    ∀ cause, result = .error cause → ownLines lines = [] := by
  unfold evaluateRecord at h
  cases hstrategy : record.strategy with
  | error invalid =>
    rw [hstrategy] at h
    cases h
    exact ⟨nofun, fun _ _ => rfl⟩
  | ok strategy =>
    rw [hstrategy] at h
    have hquiet := uses_evaluateStrategy ctx known strategy
    rcases h.of_run_bind with ⟨first, later, address, hfirst, hlater, rfl⟩ | ⟨cause, hfails, rfl⟩
    · obtain ⟨last, hlast, rfl⟩ := MayLog.of_note_bind hlater
      cases hlast
      refine ⟨fun account haccount => ?_, nofun⟩
      cases haccount
      refine ⟨strategy, rfl, rfl, ?_⟩
      rw [ownLines_append, hfirst.ownLines_eq_nil hquiet]
      rfl
    · exact ⟨nofun, fun _ _ => hfails.ownLines_eq_nil hquiet⟩

end

/-- Each of the first records has its line, which says how the account was found that it gave. The
first record has the given index. -/
def ResolvedLines (index : Nat) (records : List Record) (metas : List AccountMeta)
    (lines : List LogEntry) : Prop :=
  lines.length = metas.length ∧ ∀ (i : Nat) (account : AccountMeta), metas[i]? = some account →
    ∃ (record : Record) (strategy : Strategy), records[i]? = some record ∧
      record.strategy = .ok strategy ∧ account.role = record.role ∧
      lines[i]? = some (.recordResolved (index + i) strategy account)

theorem ResolvedLines.nil (index : Nat) (records : List Record) :
    ResolvedLines index records [] [] :=
  ⟨rfl, fun i account h => by simp at h⟩

theorem ResolvedLines.cons {index : Nat} {record : Record} {records : List Record}
    {account : AccountMeta} {metas : List AccountMeta} {lines : List LogEntry} {strategy : Strategy}
    (hstrategy : record.strategy = .ok strategy) (hrole : account.role = record.role)
    (h : ResolvedLines (index + 1) records metas lines) :
    ResolvedLines index (record :: records) (account :: metas)
      (.recordResolved index strategy account :: lines) := by
  refine ⟨congrArg (· + 1) h.1, fun i found hfound => ?_⟩
  cases i with
  | zero =>
    cases hfound
    exact ⟨record, strategy, rfl, hstrategy, hrole, rfl⟩
  | succ i =>
    have hindex : index + (i + 1) = index + 1 + i := by omega
    rw [hindex]
    exact h.2 i found hfound

namespace Call

variable (call : Call) {deriver : Deriver} {given : Address → Option Account → Prop}
  {lines : List LogEntry} {prefetch : Bool} {index : Nat} {known : List AccountMeta}

/-- Against a store that does not change, evaluating a record comes to its value. -/
theorem recordValue_of_mayLog {accounts : Address → Option Account} {record : Record}
    {result : Except Failure AccountMeta} (hgiven : GivesOnly given accounts)
    (h : (evaluateRecord ⟨prefetch, call.gatingProgram, call.data⟩ known index record).run.MayLog
      deriver given lines result) :
    call.recordValue deriver accounts index known record = result := by
  rw [h.value_eq hgiven, ← value_evaluateRecord]
  cases prefetch with
  | false => rfl
  | true => exact (ahead_evaluateRecord deriver accounts known _ _ index record).value.symm

/-- **The lines of a record**: one that it resolved, or a last one that it failed. -/
theorem mayLog_tryRecord {record : Record} {result : Except Failure AccountMeta}
    (h : (tryCatch (evaluateRecord ⟨prefetch, call.gatingProgram, call.data⟩ known index record)
      fun cause => do
        Plan.note (.recordFailed index cause)
        throw cause).run.MayLog deriver given lines result) :
    (∀ account, result = .ok account → ∃ strategy, record.strategy = .ok strategy ∧
      account.role = record.role ∧ ownLines lines = [.recordResolved index strategy account]) ∧
    (∀ cause, result = .error cause → ∃ before, lines = before ++ [.recordFailed index cause] ∧
      ownLines before = []) ∧
    ∀ accounts, GivesOnly given accounts →
      call.recordValue deriver accounts index known record = result := by
  rcases h.of_tryCatch_note with ⟨account, hrecord, rfl⟩ | ⟨cause, before, hrecord, rfl, rfl⟩
  · exact ⟨(ownLines_evaluateRecord hrecord).1, fun _ hcause => (by cases hcause),
      fun accounts hgiven => call.recordValue_of_mayLog hgiven hrecord⟩
  · refine ⟨fun _ hok => (by cases hok), fun failure hfailure => ?_,
      fun accounts hgiven => call.recordValue_of_mayLog hgiven hrecord⟩
    cases hfailure
    exact ⟨before, rfl, (ownLines_evaluateRecord hrecord).2 _ rfl⟩

/-- **The lines of records**: one for each that resolved, and a last one if the next failed. -/
theorem mayLog_evaluateRecords {records : List Record} {result : Except Failure (List AccountMeta)}
    (h : (evaluateRecords ⟨prefetch, call.gatingProgram, call.data⟩ index records known).run.MayLog
      deriver given lines result) :
    ∃ metas resolved, ResolvedLines index records metas resolved ∧
      (∀ accounts, GivesOnly given accounts →
        InOrder (fun i => call.recordValue deriver accounts (index + i)) known records metas) ∧
      (∀ all, result = .ok all →
        all = known ++ metas ∧ metas.length = records.length ∧ ownLines lines = resolved) ∧
      ∀ cause, result = .error cause →
        ∃ record before, records[metas.length]? = some record ∧
          (∀ accounts, GivesOnly given accounts →
            call.recordValue deriver accounts (index + metas.length) (known ++ metas) record =
              .error cause) ∧
          lines = before ++ [.recordFailed (index + metas.length) cause] ∧
          ownLines before = resolved := by
  induction records generalizing index known lines with
  | nil =>
    cases h
    refine ⟨[], [], .nil index [], fun _ _ => inOrder_nil _ _ _, fun all hall => ?_,
      fun _ hcause => (by cases hcause)⟩
    cases hall
    exact ⟨(List.append_nil known).symm, rfl, rfl⟩
  | cons record later ih =>
    unfold evaluateRecords at h
    rcases h.of_run_bind with ⟨first, rest, account, hfirst, hrest, rfl⟩ | ⟨cause, hfails, rfl⟩
    · -- the record gives an account, and the others follow
      obtain ⟨hgives, -, hvalue⟩ := call.mayLog_tryRecord hfirst
      obtain ⟨strategy, hstrategy, hrole, hown⟩ := hgives account rfl
      obtain ⟨metas, resolved, hlines, horder, hok, herror⟩ := ih hrest
      refine ⟨account :: metas, _, hlines.cons hstrategy hrole, fun accounts hgiven => ?_,
        fun all hall => ?_, fun cause hcause => ?_⟩
      · refine (inOrder_cons _).2 ⟨hvalue accounts hgiven, ?_⟩
        rw [shift_index]
        exact horder accounts hgiven
      · obtain ⟨rfl, hlength, rfl⟩ := hok all hall
        refine ⟨List.append_assoc known [account] metas, congrArg (· + 1) hlength, ?_⟩
        rw [ownLines_append, hown]
        rfl
      · obtain ⟨failing, before, hfailing, hlater, rfl, rfl⟩ := herror cause hcause
        have hindex : index + (account :: metas).length = index + 1 + metas.length := by
          rw [List.length_cons]
          omega
        refine ⟨failing, first ++ before, hfailing, fun accounts hgiven => ?_, ?_, ?_⟩
        · rw [hindex, ← hlater accounts hgiven, List.append_assoc]
          rfl
        · rw [hindex, List.append_assoc]
        · rw [ownLines_append, hown]
          rfl
    · -- the record fails, and its line is the last
      obtain ⟨-, hline, hvalue⟩ := call.mayLog_tryRecord hfails
      obtain ⟨before, rfl, hquiet⟩ := hline cause rfl
      refine ⟨[], [], .nil index _, fun _ _ => inOrder_nil _ _ _, fun _ hok => (by cases hok),
        fun failure hfailure => ?_⟩
      cases hfailure
      refine ⟨record, before, rfl, fun accounts hgiven => ?_, rfl, hquiet⟩
      rw [List.append_nil]
      exact hvalue accounts hgiven

/-- **The lines of a call** that has the account of its configuration: that of the decoding, and then
those of the records. -/
theorem mayLog_resolveFrom {account : Account} {result : Except Failure Resolved}
    (h : (call.resolveFrom prefetch account).run.MayLog deriver given lines result) :
    match Configuration.decode account.data with
    | .error cause => result = .error (.badConfiguration cause) ∧ lines = [.decodeFailed cause]
    | .ok configuration =>
      ∃ rest records, (evaluateRecords ⟨prefetch, call.gatingProgram, call.data⟩ 0
          configuration.records call.base).run.MayLog deriver given rest records ∧
        lines = .recordCount configuration.records.length :: rest ∧
        result = records.map fun all => { all, baseLength := call.base.length } := by
  unfold resolveFrom at h
  cases hdecode : Configuration.decode account.data with
  | error cause =>
    rw [hdecode] at h
    obtain ⟨later, hlater, rfl⟩ := MayLog.of_note_bind h
    cases hlater
    exact ⟨rfl, rfl⟩
  | ok configuration =>
    rw [hdecode] at h
    obtain ⟨later, hlater, rfl⟩ := MayLog.of_note_bind h
    rcases hlater.of_run_bind with ⟨first, rest, all, hfirst, hrest, rfl⟩ | ⟨cause, hfails, rfl⟩
    · cases hrest
      rw [List.append_nil]
      exact ⟨first, .ok all, hfirst, rfl, rfl⟩
    · exact ⟨later, .error cause, hfails, rfl, rfl⟩

variable (options : Options) (delivery : Delivery) (overlay : Option Store) (deriver : Deriver)
  (source : Source)

/-- **The log of a call** starts with the line that it fetches its configuration. What comes after is
the log of what the call does with the first answer. -/
theorem mayLog_resolve :
    let plan := call.resolve options delivery
    let outcome := (overlay.elim plan fun overlay => plan.overlaid overlay).run deriver source []
    ∃ served later, (∀ line ∈ served, line.isOwn = false) ∧
      outcome.entries = .fetchingConfiguration call.configuration :: (served ++ later) ∧
      match source.behind overlay [] call.configuration with
      | none => later = [] ∧ outcome.value = .error (.noConfiguration call.configuration)
      | some account =>
        (call.resolveFrom options.prefetch account).run.MayLog deriver
          (source.behind overlay).MayAnswer later outcome.value := by
  intro plan outcome
  obtain ⟨next, hplan, hnone, hsome⟩ := call.run_plan_eq options.prefetch
  have hserved : (overlay.elim plan fun overlay => plan.overlaid overlay) =
      (call.plan options.prefetch).run.served options.memo delivery overlay := by
    cases overlay <;> rfl
  -- the run is that of a plan that goes on with the first answer, so its log is one of that plan
  have hlog : (Plan.log (.fetchingConfiguration call.configuration) (.request [call.configuration]
      fun _ => next [source.behind overlay [] call.configuration])).MayLog deriver
        (source.behind overlay).MayAnswer outcome.entries outcome.value := by
    have hrun := Plan.run_served_request deriver options.memo delivery overlay source
      (.fetchingConfiguration call.configuration) call.configuration next
    rw [← hplan, ← hserved] at hrun
    change outcome = _ at hrun
    rw [hrun]
    exact mayLog_run_served _ []
  obtain ⟨served, later, hquiet, hlater, hentries⟩ := hlog.of_log_request
  refine ⟨served, later, hquiet, hentries, ?_⟩
  cases hfound : source.behind overlay [] call.configuration with
  | none =>
    rw [hfound, hnone] at hlater
    generalize outcome.value = value at hlater ⊢
    cases hlater
    exact ⟨rfl, rfl⟩
  | some account =>
    rw [hfound, hsome] at hlater
    exact hlater

/-- **The log of a call pinpoints the record that failed.** However the call is served, and whatever
the store answers from one request to the next, the lines it writes for itself are

* that it fetches its configuration, and nothing more if there is none;
* one that says why the configuration does not decode, if so, in the words of the failure;
* else the number of records, one line for each of the first records, in order, with the strategy
  and the account it gave; all of them iff the call succeeds. Otherwise one more line follows for the
  record after those, with the words of the failure, and no line of any kind comes after it.

Against a store that does not change, the accounts are the values of their records, and the failure
is that of the record named. -/
theorem resolve_log :
    let plan := call.resolve options delivery
    let outcome := (overlay.elim plan fun overlay => plan.overlaid overlay).run deriver source []
    let own := ownLines outcome.entries
    match source.behind overlay [] call.configuration with
    | none =>
      outcome.value = .error (.noConfiguration call.configuration) ∧
      own = [.fetchingConfiguration call.configuration]
    | some account =>
      match Configuration.decode account.data with
      | .error cause =>
        outcome.value = .error (.badConfiguration cause) ∧
        own = [.fetchingConfiguration call.configuration, .decodeFailed cause] ∧
        (LogEntry.decodeFailed cause).text =
          "configuration decode failed: " ++ toString (Failure.badConfiguration cause)
      | .ok configuration =>
        ∃ metas resolved, ResolvedLines 0 configuration.records metas resolved ∧
          (∀ i strategy account, (LogEntry.recordResolved i strategy account).text =
            "record " ++ toString i ++ " (" ++ strategy.name ++ ") resolved to " ++
              (toString account.address ++ " (" ++ toString account.role ++ ")")) ∧
          ((∀ asked, source asked = source []) →
            InOrder (call.recordValue deriver (source.behind overlay [])) call.base
              configuration.records metas) ∧
          let begun := .fetchingConfiguration call.configuration ::
            .recordCount configuration.records.length :: resolved
          match outcome.value with
          | .ok all =>
            metas.length = configuration.records.length ∧ all.extra = metas ∧ own = begun
          | .error cause =>
            own = begun ++ [.recordFailed metas.length cause] ∧
            outcome.entries.getLast? = some (.recordFailed metas.length cause) ∧
            (LogEntry.recordFailed metas.length cause).text =
              "record " ++ toString metas.length ++ " failed: " ++ toString cause ∧
            ∃ record, configuration.records[metas.length]? = some record ∧
              ((∀ asked, source asked = source []) →
                call.recordValue deriver (source.behind overlay []) metas.length
                  (call.base ++ metas) record = .error cause) := by
  intro plan outcome own
  obtain ⟨served, later, hquiet, hentries, hlater⟩ :=
    call.mayLog_resolve options delivery overlay deriver source
  -- those who serve the first request write no line of the call's own
  have hown : own = .fetchingConfiguration call.configuration :: ownLines later := by
    change ownLines outcome.entries = _
    rw [hentries, ← List.singleton_append, ownLines_append, ownLines_append, ownLines_eq_nil hquiet]
    rfl
  have hgiven : (∀ asked, source asked = source []) →
      GivesOnly (source.behind overlay).MayAnswer (source.behind overlay []) := by
    rintro hfixed a answer ⟨asked, rfl⟩
    rw [Source.behind, Source.behind, hfixed asked]
  rw [hown]
  cases hfound : source.behind overlay [] call.configuration with
  | none =>
    rw [hfound] at hlater
    obtain ⟨rfl, hvalue⟩ := hlater
    exact ⟨hvalue, rfl⟩
  | some account =>
    rw [hfound] at hlater
    have hcall := call.mayLog_resolveFrom hlater
    dsimp only
    cases hdecode : Configuration.decode account.data with
    | error cause =>
      rw [hdecode] at hcall
      obtain ⟨hvalue, rfl⟩ := hcall
      exact ⟨hvalue, rfl, rfl⟩
    | ok configuration =>
      rw [hdecode] at hcall
      obtain ⟨rest, result, hrecords, rfl, hvalue⟩ := hcall
      obtain ⟨metas, resolved, hlines, horder, hok, herror⟩ := call.mayLog_evaluateRecords hrecords
      simp only [Nat.zero_add] at horder herror
      refine ⟨metas, resolved, hlines, fun _ _ _ => rfl, fun hfixed => horder _ (hgiven hfixed), ?_⟩
      rw [hvalue]
      cases result with
      | ok all =>
        obtain ⟨rfl, hlength, rfl⟩ := hok all rfl
        exact ⟨hlength, List.drop_left, rfl⟩
      | error cause =>
        obtain ⟨record, before, hrecord, hfails, rfl, rfl⟩ := herror cause rfl
        refine ⟨?_, ?_, rfl, record, hrecord, fun hfixed => hfails _ (hgiven hfixed)⟩
        · rw [← List.cons_append, ownLines_append]
          rfl
        · rw [show outcome.entries = _ from hentries, ← List.cons_append, List.getLast?_append,
            ← List.cons_append, List.getLast?_concat]
          rfl

end Call

/-! ## A call behind a memo and an overlay -/

namespace Interleaved

def payer : Address := .padded [15] (by decide)

def configuration : Configuration where
  records := [
    .make 2 (Pointer.data 1 0).pack false true,
    .make 1 (.padded [4, 1, 30, 9] (by decide)) false false]

def call : Call where
  configuration := .zero 32
  base := [{ address := .zero 32, role := .readonly }, { address := payer, role := .writable }]
  data := []
  gatingProgram := .zero 32

def accounts : Address → Option Account := fun address =>
  if address = .zero 32 then some (configuration.toAccount (.zero 32)) else none

def overlay : Store := .ofList [(payer, { data := List.replicate 32 15, owner := .zero 32 })]

example :
    (((call.resolve {} .batched).overlaid overlay).run (fun program _ => .ok program)
        (.fixed accounts) []).entries =
      [.fetchingConfiguration (.zero 32), .recordCount 2, .overlayServing payer,
        .recordResolved 0 (.pointer (Pointer.data 1 0).pack)
          { address := ⟨List.replicate 32 15, by decide⟩, role := .writable },
        .memoHit payer, .recordFailed 1 (.badSeed 0 (.dataOutOfBounds 30 39 32))] := by
  decide +kernel

end Interleaved

end ExtraAccounts
