import Transplant.Proofs.Migration.SecondRun
import Transplant.Proofs.Schedule.Order
import Transplant.Proofs.Text.Order
import Mathlib.Data.List.Nodup

/-!
# Every file is accounted for

Whatever goes wrong with single files, a run tells one outcome for every file that it has found.  A
file that fails is told with an error, which comes last and is the only one; no other file is told
with an error.  So the errors of a report are its failed files.

## The two states of a file

The events of a file are *open* while it is worked on: there are no errors among them
(`FileEvents.Open`).  They are *closed* once there is an outcome (`FileEvents.Closed`).  Telling
something keeps events open, and a failure or another outcome closes them, exactly once: work
without a product has closed its events, and a commit closes those of a product, on each of its ways
out.

## Failures that nobody has foreseen

Work and commits come to an end by themselves, or something that nobody has foreseen cuts them
short. The latter is told as a failure like any other.  `Migration.Interrupted` leaves open what it
is, when it happens and what has become of the files by then, and the accounts are still right.

* `World.closed_settle`: a commit closes the events of its file
* `Report.Accounts`: what it means that a report accounts for files
* `Migration.every_file_accounted_for`: reports account for the files that were found
-/

namespace Transplant

open Schedule

namespace FileEvents

/-- Events of a file that has no error so far. -/
structure Open (f : FileEvents) : Prop where
  own : ∀ e ∈ f.events, e.file = f.file
  calm : ∀ e ∈ f.events, e.level ≠ .error

/-- Events of a file that has an outcome: there is an error if and only if the file has failed, and
then it is the last event and the only error. -/
structure Closed (f : FileEvents) : Prop where
  own : ∀ e ∈ f.events, e.file = f.file
  settled : f.outcome ≠ none
  error_iff : (∃ e ∈ f.events, e.level = .error) ↔ f.outcome = some .failed
  last : f.outcome = some .failed → ∃ before e, f.events = before ++ [e] ∧ e.level = .error ∧
    ∀ e' ∈ before, e'.level ≠ .error

variable {f : FileEvents}

theorem open_empty (file : String) (component : Option String) :
    ({ file, component } : FileEvents).Open :=
  ⟨fun _ he => absurd he List.not_mem_nil, fun _ he => absurd he List.not_mem_nil⟩

theorem Open.add (h : f.Open) {level : Level} (hlevel : level ≠ .error) (message : String)
    (kind : Option String) : (f.add level message kind).Open := by
  constructor
  · intro e he
    rcases List.mem_append.mp he with he | he
    · exact h.own e he
    · rw [List.mem_singleton.mp he]
      rfl
  · intro e he
    rcases List.mem_append.mp he with he | he
    · exact h.calm e he
    · rw [List.mem_singleton.mp he]
      exact hlevel

theorem Open.info (h : f.Open) (message : String) : (f.info message).Open :=
  h.add (by decide) message none

theorem Open.warning (h : f.Open) (message : String) : (f.warning message).Open :=
  h.add (by decide) message none

theorem Open.foldl_info (messages : List String) :
    ∀ {f : FileEvents}, f.Open → (messages.foldl FileEvents.info f).Open := by
  induction messages with
  | nil => intro f h; exact h
  | cons m rest ih => intro f h; exact ih (h.info m)

theorem Open.warnings (messages : List String) :
    ∀ {f : FileEvents}, f.Open → (f.warnings messages).Open := by
  induction messages with
  | nil => intro f h; exact h
  | cons m rest ih => intro f h; exact ih (h.warning m)

/-- A failure closes the events of a file. -/
theorem Open.fail (h : f.Open) (failure : Failure) : (f.fail failure).Closed where
  own e he := by
    rcases List.mem_append.mp he with he | he
    · exact h.own e he
    · rw [List.mem_singleton.mp he]
      rfl
  settled := Option.some_ne_none _
  error_iff := ⟨fun _ => rfl,
    fun _ => ⟨_, List.mem_append_right _ (List.mem_singleton_self _), rfl⟩⟩
  last _ := ⟨f.events, _, rfl, rfl, h.calm⟩

/-- Any other outcome closes the events of a file. -/
theorem Open.finish (h : f.Open) {o : Outcome} (ho : o ≠ .failed) : (f.finish o).Closed where
  own := h.own
  settled := Option.some_ne_none o
  error_iff := by
    constructor
    · rintro ⟨e, he, herror⟩
      exact absurd herror (h.calm e he)
    · intro hfailed
      exact absurd (Option.some.inj hfailed) ho
  last hfailed := absurd (Option.some.inj hfailed) ho

/-- The errors in closed events: the last event of a failed file. -/
theorem Closed.filter_error (h : f.Closed) :
    f.events.filter (·.level == .error) =
      if f.outcome = some .failed then f.events.getLast?.toList else [] := by
  split
  · rename_i hfailed
    obtain ⟨before, e, hevents, herror, hcalm⟩ := h.last hfailed
    have hbefore : before.filter (·.level == .error) = [] := by
      rw [List.filter_eq_nil_iff]
      intro e' he'
      rw [beq_iff_eq]
      exact hcalm e' he'
    rw [hevents, List.filter_append, hbefore, List.nil_append, List.getLast?_concat]
    simp [herror]
  · rename_i hfailed
    rw [List.filter_eq_nil_iff]
    intro e he
    rw [beq_iff_eq]
    exact fun herror => hfailed (h.error_iff.mp ⟨e, he, herror⟩)

end FileEvents

open FileEvents (Open Closed)

/-! ## Work -/

namespace Work

/-- Work that can be committed: its events are closed if there is no product, and open if there
is one. -/
structure Accountable (x : Work) : Prop where
  stopped : x.product = none → x.events.Closed
  underway : x.product ≠ none → x.events.Open

theorem open_finish {f : FileEvents} (h : f.Open) (b : Batch) (j : Job) (files : Disk)
    (source : String) (draft : Draft) (text : String) :
    (finish b j files source draft text f).1.Open := by
  unfold finish
  split
  · exact h
  · split
    · exact h.warnings _
    · exact h

/-- Every piece of work on a file can be committed. -/
theorem accountable_process (b : Batch) (j : Job) (files : Disk) (source : String) :
    (process b j files source).Accountable := by
  unfold process
  split
  · exact ⟨fun _ => (FileEvents.open_empty source none).fail _, fun h => absurd rfl h⟩
  · rename_i parsed d hanalyse
    have hflag : (flag d { file := source, component := some d.name }).Open :=
      (FileEvents.open_empty source (some d.name)).warnings _
    dsimp only
    split
    · exact ⟨fun _ => (hflag.warnings _).fail _, fun h => absurd rfl h⟩
    · rename_i draft text hadapt
      have hfinish := open_finish (hflag.warnings draft.plan.warnings) b j files source draft text
      split
      · rename_i hresult
        rw [hresult] at hfinish
        exact ⟨fun _ => hfinish.fail _, fun h => absurd rfl h⟩
      · rename_i hresult
        rw [hresult] at hfinish
        exact ⟨nofun, fun _ => hfinish⟩

end Work

/-! ## Commits -/

namespace World

variable (b : Batch) (j : Job) (faults : Faults)

theorem closed_preview {f : FileEvents} (h : f.Open) (w : World) (source : String) (p : Product)
    (l : List (Path × String)) : (preview b w source p l f).Closed := by
  unfold preview
  split
  · exact ((h.warning _).info _).finish (by decide)
  · split
    · exact (h.info _).finish (by decide)
    · exact (FileEvents.Open.foldl_info _ h).finish (by decide)

/-- A delivery closes open events on each of its ways out. -/
theorem closed_deliver {f : FileEvents} (h : f.Open) (w : World) (source : String) (p : Product) :
    (deliver b j faults w source p f).2.Closed := by
  obtain ⟨-, heq⟩ | ⟨-, heq⟩ | ⟨-, fault, -, heq⟩ | ⟨-, -, heq⟩ :=
    deliver_cases b j faults w source p f
  · rw [heq]
    exact closed_preview b h w source p _
  · rw [heq]
    exact (h.info _).finish (by decide)
  · rw [heq]
    exact h.fail _
  · rw [heq]
    exact (FileEvents.Open.foldl_info _ h).finish (by decide)

/-- **A commit closes the events of its file.** -/
theorem closed_settle (w : World) {x : Work} (hx : x.Accountable) :
    (settle b j faults w x).2.Closed := by
  obtain ⟨hproduct, -, heq⟩ | ⟨hproduct, -, failure, heq⟩ | ⟨p, hp, heq⟩ :=
    settle_cases b j faults w x
  · rw [heq]
    exact hx.stopped hproduct
  · rw [heq]
    exact (hx.underway hproduct).fail failure
  · have hproduct : x.product ≠ none := by
      rw [product_of_admitted? hp]
      exact Option.some_ne_none p
    rw [heq]
    exact closed_deliver b j faults (hx.underway hproduct) _ x.source p

end World

namespace Migration

/-! ## Failures that nobody has foreseen -/

/-- A schedule of the work and the commits of a migration, where a failure may cut short any of
them: work is told as failed after some events, a commit as failed after those of its work and
perhaps some more, whatever it has done to the files and the registry. -/
structure Interrupted (b : Batch) (j : Job) (faults : Faults) (p : Plant World String Work) :
    Prop where
  work : ∀ w source, p.work w source = Work.process b j w.files source ∨
    ∃ (f : FileEvents) (failure : Failure), f.Open ∧ f.file = source ∧
      p.work w source = ⟨source, f.fail failure, none⟩
  commit : ∀ w x, p.commit w x = World.commit b j faults w x ∨
    x.product ≠ none ∧ ∃ (after : World) (f : FileEvents) (failure : Failure),
      f.Open ∧ f.file = x.events.file ∧
      p.commit w x = { after with report := w.report.merge (f.fail failure) }

variable {b : Batch} {j : Job} {faults : Faults} {p : Plant World String Work}

/-- Nothing is cut short in the schedule of a migration. -/
theorem interrupted_plant (b : Batch) (j : Job) (faults : Faults)
    (calledOff : Nat → World → Bool) : Interrupted b j faults (plant b j faults calledOff) :=
  ⟨fun _ _ => Or.inl rfl, fun _ _ => Or.inl rfl⟩

theorem Interrupted.accountable (hp : Interrupted b j faults p) (w : World) (source : String) :
    (p.work w source).Accountable ∧ (p.work w source).events.file = source := by
  obtain hwork | ⟨f, failure, hopen, hfile, hwork⟩ := hp.work w source
  · rw [hwork]
    exact ⟨Work.accountable_process b j w.files source, Work.file_process b j w.files source⟩
  · rw [hwork]
    exact ⟨⟨fun _ => hopen.fail failure, fun h => absurd rfl h⟩, hfile⟩

/-- A commit that may be cut short tells closed events of its file. -/
theorem Interrupted.report_commit (hp : Interrupted b j faults p) (w : World) {x : Work}
    (hx : x.Accountable) : ∃ f : FileEvents, f.Closed ∧ f.file = x.events.file ∧
      (p.commit w x).report = w.report.merge f := by
  obtain hcommit | ⟨-, after, f, failure, hopen, hfile, hcommit⟩ := hp.commit w x
  · rw [hcommit]
    exact ⟨_, World.closed_settle b j faults w hx, World.file_settle b j faults w x,
      World.report_commit b j faults w x⟩
  · rw [hcommit]
    exact ⟨f.fail failure, hopen.fail failure, hfile, rfl⟩

/-- Commits that may be cut short tell closed events, one after the other, of the files that were
worked on. -/
theorem Interrupted.report_foldl_commit (hp : Interrupted b j faults p) {w : World}
    {sources : List String} {works : List Work} (hworks : Worked p w sources works) :
    ∃ told : List FileEvents, (∀ f ∈ told, f.Closed) ∧ told.map (·.file) = sources ∧
      (works.foldl p.commit w).report = told.foldl Report.merge w.report := by
  induction hworks with
  | nil => exact ⟨[], nofun, rfl, rfl⟩
  | @concat sources works earlier _ _ source ih =>
    obtain ⟨told, hall, hfiles, hreport⟩ := ih
    obtain ⟨haccountable, hfile⟩ := hp.accountable (earlier.foldl p.commit w) source
    obtain ⟨f, hclosed, hown, hnext⟩ := hp.report_commit (works.foldl p.commit w) haccountable
    refine ⟨told ++ [f], List.forall_mem_append.mpr ⟨hall, by simpa using hclosed⟩, ?_, ?_⟩
    · rw [List.map_append, hfiles, List.map_singleton, hown, hfile]
    · rw [List.foldl_append, List.foldl_append, ← hreport]
      exact hnext

theorem closed_notScheduled (source : String) : (notScheduled source).Closed :=
  ((FileEvents.open_empty source none).info _).finish (by decide)

theorem open_frameworkCheck {files : Disk} {events : FileEvents} {log : List LogLine}
    (h : frameworkCheck j files = .ok (events, log)) : events.Open := by
  obtain ⟨⟨source, sourceLog⟩, -, h⟩ := exists_of_bind h
  obtain ⟨⟨target, targetLog⟩, -, h⟩ := exists_of_bind h
  obtain ⟨rfl, -⟩ := Prod.mk.inj (Except.ok.inj h)
  exact (FileEvents.open_empty "" none).warnings _

end Migration

/-! ## Reports -/

theorem Discovery.nodup_components (files : Disk) (j : Job) : (components files j).1.Nodup :=
  (List.mergeSort_perm _ _).nodup_iff.mpr (Text.nodup_distinct _)

namespace Report

/-- Where every file has an outcome, the three counts come to the number of files. -/
theorem count_outcomes {told : List FileEvents} (h : ∀ f ∈ told, f.outcome ≠ none) :
    (told.map (·.outcome)).count (some .migrated) + (told.map (·.outcome)).count (some .skipped) +
      (told.map (·.outcome)).count (some .failed) = told.length := by
  induction told with
  | nil => rfl
  | cons f rest ih =>
    have hrest := ih fun f' hf' => h f' (List.mem_cons_of_mem _ hf')
    obtain ⟨o, ho⟩ := Option.ne_none_iff_exists'.mp (h f List.mem_cons_self)
    rw [List.map_cons, ho, List.length_cons]
    simp only [List.count_cons]
    cases o <;> simp <;> omega

/-- The failed files, each with all that is told of it. -/
def failing (told : List FileEvents) : List FileEvents :=
  told.filter (·.outcome == some .failed)

theorem flatMap_filter_error {told : List FileEvents} (h : ∀ f ∈ told, f.Closed) :
    (told.flatMap (·.events)).filter (·.level == .error) =
      (failing told).filterMap (·.events.getLast?) := by
  induction told with
  | nil => rfl
  | cons f rest ih =>
    have hrest := ih fun f' hf' => h f' (List.mem_cons_of_mem _ hf')
    rw [List.flatMap_cons, List.filter_append, hrest, (h f List.mem_cons_self).filter_error,
      failing, failing, List.filter_cons]
    by_cases hfailed : f.outcome = some .failed
    · rw [if_pos hfailed, if_pos (beq_iff_eq.mpr hfailed), List.filterMap_cons]
      cases f.events.getLast? <;> rfl
    · rw [if_neg hfailed, if_neg (by rwa [beq_iff_eq]), List.nil_append]

/-- The last event of a failed file is told under that file. -/
theorem map_file_last_events {told : List FileEvents} (h : ∀ f ∈ told, f.Closed) :
    ((failing told).filterMap (·.events.getLast?)).map (·.file) = (failing told).map (·.file) := by
  have hlast : ∀ f ∈ failing told, (f.events.getLast?).map (·.file) = some f.file := by
    intro f hf
    obtain ⟨hmem, hfailed⟩ := List.mem_filter.mp hf
    have hclosed := h f hmem
    obtain ⟨before, e, hevents, -, -⟩ := hclosed.last (beq_iff_eq.mp hfailed)
    have he : e ∈ f.events := by
      rw [hevents]
      exact List.mem_append_right _ (List.mem_singleton_self e)
    rw [hevents, List.getLast?_concat, Option.map_some, hclosed.own e he]
  rw [List.map_filterMap, ← List.filterMap_eq_map]
  exact List.filterMap_congr hlast

/-- A report accounts for the files that were found: `told` has what is told of each of them, in
their order and after the events of the `opening`. -/
structure Accounts (r : Report) (opening : FileEvents) (found : List String)
    (told : List FileEvents) : Prop where
  merged : r = (opening :: told).foldl merge {}
  events_eq : r.events = opening.events ++ told.flatMap (·.events)
  once : found.Nodup
  each : told.map (·.file) = found
  closed : ∀ f ∈ told, f.Closed
  total : r.migrated + r.skipped + r.failed = found.length
  failures_eq : r.failures = (failing told).filterMap (·.events.getLast?)
  failures_files : r.failures.map (·.file) = (failing told).map (·.file)

end Report

namespace Migration

open Report (failing Accounts)

namespace Ready

variable {j : Job} {files : Disk} (g : Ready j files)

/-- The report after all files have been through a schedule, those never begun included. -/
def reportAfter (p : Plant World String Work) : Report :=
  let (w, remaining) := Schedule.run p j.window g.opening g.found
  (remaining.map notScheduled).foldl Report.merge w.report

theorem report_closing (faults : Faults) (calledOff : Nat → World → Bool) :
    (g.closing faults calledOff).report = g.reportAfter (g.schedule faults calledOff) := rfl

/-- What accounts come to: closed events of the files that were found, in their order. -/
theorem accounts_of_closed {told : List FileEvents} (heach : told.map (·.file) = g.found)
    (hclosed : ∀ f ∈ told, f.Closed) :
    ((g.events :: told).foldl Report.merge {}).Accounts g.events g.found told := by
  have hevents : ((g.events :: told).foldl Report.merge {}).events =
      g.events.events ++ told.flatMap (·.events) := by
    rw [Report.events_foldl_merge, List.flatMap_cons]
    exact List.nil_append _
  have hopening : g.events.events.filter (·.level == .error) = [] := by
    rw [List.filter_eq_nil_iff]
    intro e he
    rw [beq_iff_eq]
    exact (open_frameworkCheck g.framework).calm e he
  have hfailures : ((g.events :: told).foldl Report.merge {}).failures =
      (failing told).filterMap (·.events.getLast?) := by
    rw [Report.failures, hevents, List.filter_append, hopening, List.nil_append,
      Report.flatMap_filter_error hclosed]
  refine ⟨rfl, hevents, Discovery.nodup_components files j, heach, hclosed, ?_, hfailures, ?_⟩
  · rw [← heach, List.length_map, ← Report.count_outcomes fun f hf => (hclosed f hf).settled,
      ← g.tally_report told .migrated, ← g.tally_report told .skipped,
      ← g.tally_report told .failed]
    rfl
  · rw [hfailures, Report.map_file_last_events hclosed]

/-- A schedule in which anything may be cut short accounts for all files. -/
theorem accounts_reportAfter {faults : Faults} {p : Plant World String Work}
    (hp : Interrupted g.batch j faults p) :
    ∃ told, (g.reportAfter p).Accounts g.events g.found told := by
  obtain ⟨k, -, works, hworks, hrun, -⟩ :=
    run_commits_in_order p j.window_pos g.opening g.found
  obtain ⟨told, hclosed, hfiles, hreport⟩ := hp.report_foldl_commit hworks
  have hafter : g.reportAfter p =
      (g.events :: (told ++ (g.found.drop k).map notScheduled)).foldl Report.merge {} := by
    rw [reportAfter, hrun, List.foldl_cons, List.foldl_append]
    exact congrArg (((g.found.drop k).map notScheduled).foldl Report.merge) hreport
  rw [hafter]
  refine ⟨told ++ (g.found.drop k).map notScheduled, g.accounts_of_closed ?_ fun f hf => ?_⟩
  · rw [List.map_append, hfiles, List.map_map]
    exact (congrArg _ (List.map_id' _)).trans (List.take_append_drop k g.found)
  · rcases List.mem_append.mp hf with hf | hf
    · exact hclosed f hf
    · obtain ⟨source, -, rfl⟩ := List.mem_map.mp hf
      exact closed_notScheduled source

end Ready

/-- **Every file that was found is accounted for.**  Whatever the files are, whatever cannot be
written and whenever it is called off, a migration that can begin comes to a report that tells one
outcome for each file it has found; the counts add up to their number; a file is told with an error
if and only if it has failed, and that error is its last event and its only error; so the errors of
the report are the failed files, each once and in order.  The same holds of every schedule in which
failures that nobody has foreseen cut short any of the work and any of the commits. -/
theorem every_file_accounted_for {j : Job} {files : Disk} (g : Ready j files) (faults : Faults) :
    (∀ calledOff : Nat → World → Bool, ∃ out told,
      run j faults calledOff files = .ok out ∧ out.report.Accounts g.events g.found told) ∧
    ∀ p : Plant World String Work, Interrupted g.batch j faults p →
      ∃ told, (g.reportAfter p).Accounts g.events g.found told := by
  refine ⟨fun calledOff => ?_, fun p hp => g.accounts_reportAfter hp⟩
  obtain ⟨told, haccounts⟩ :=
    g.accounts_reportAfter (interrupted_plant g.batch j faults calledOff)
  refine ⟨_, told, g.run_eq faults calledOff, ?_⟩
  rw [g.report_outcome, g.report_closing]
  exact haccounts

/-- A schedule in which all work is cut short by the same failure. -/
def boom : Plant World String Work where
  work _ source :=
    ⟨source, FileEvents.fail { file := source } (.unexpected "boom" "RuntimeError"), none⟩
  commit := World.commit loneReady.batch lone fun _ => none
  calledOff _ _ := false

/-- The one component of a batch fails without warning, and the report says so. -/
theorem boom_accounted_for :
    loneReady.found = ["A.jsx"] ∧ (loneReady.reportAfter boom).failed = 1 ∧
      ∃ told, (loneReady.reportAfter boom).Accounts loneReady.events loneReady.found told := by
  have hinterrupted : Interrupted loneReady.batch lone (fun _ => none) boom :=
    ⟨fun w source => Or.inr ⟨{ file := source }, _, FileEvents.open_empty source none, rfl, rfl⟩,
      fun w x => Or.inl rfl⟩
  exact ⟨found_lone, by decide +kernel,
    (every_file_accounted_for loneReady fun _ => none).2 boom hinterrupted⟩

end Migration
end Transplant
