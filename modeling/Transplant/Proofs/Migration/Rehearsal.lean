import Transplant.Proofs.Migration.Writing

/-!
# What a dry run foretells

A dry run looks at every file against the disk at the start.  A run that writes looks at it after
the files in front have been committed, and these may have written a file that belongs to it as
well: a style file that two components import, or one path that is given for both.  Then a file that
was up to date may be so no longer, and one that was not may have become so.

`Ready.Foreseen` says that this does not happen: every file of the batch is up to date at the start
if and only if it is so when the files sent before it are taken into account.  It is what a dry run
rests on.  If the run meets no fault, writes none of its own inputs, and goes back in its paths only
from directories that are there, then the two runs agree on every file exactly if everything is
foreseen (`Migration.dry_run_foretells_iff`).

They can disagree: `Migration.shared_path_not_foretold` has two components that are both given the
path of a file which holds the second of them already.
-/

namespace Transplant

/-- Without directories given, components are looked for in the whole source project. -/
theorem Discovery.components_of_nil (files : Disk) {j : Job} (h : j.componentDirs = []) :
    (components files j).1 =
      Text.sort (Text.distinct ((search? files j isComponent "").getD [])) := by
  simp [components, roots, h]

/-! ## Dry runs do the same work -/

theorem Discovery.search?_dryRun (files : Disk) (j : Job) (dry : Bool) (wanted : String → Bool)
    (dir : String) :
    search? files { j with dryRun := dry } wanted dir = search? files j wanted dir := by
  simp only [search?, places?, way]

theorem Discovery.stray?_dryRun (files : Disk) (j : Job) (dry : Bool) :
    stray? files { j with dryRun := dry } = stray? files j := by
  simp only [stray?, places?, way, roots]

theorem Discovery.components_dryRun (files : Disk) (j : Job) (dry : Bool) :
    components files { j with dryRun := dry } = components files j := by
  simp only [components, search?_dryRun, roots]

theorem Discovery.styles_dryRun (files : Disk) (j : Job) (dry : Bool) :
    styles files { j with dryRun := dry } = styles files j := by
  simp only [styles, search?_dryRun]

theorem Work.process_dryRun (b : Batch) (files : Disk) (j : Job) (dry : Bool) (source : String) :
    process b { j with dryRun := dry } files source = process b j files source := by
  have hcopy : copy b { j with dryRun := dry } files source = copy b j files source := by
    funext asset
    simp only [copy]
  have hfinish : finish b { j with dryRun := dry } files source = finish b j files source := by
    funext draft text f
    simp only [finish, hcopy]
  have hanalyse : analyse { j with dryRun := dry } files source = analyse j files source := by
    simp only [analyse]
  unfold process
  rw [hanalyse]
  rw [hfinish]

/-! ## Outcomes -/

namespace World

variable (b : Batch) (j : Job) (faults : Faults)

theorem forall_split_cons {x : Work} {rest : List Work} {P : List Work → Work → Prop} :
    (∀ before y after, x :: rest = before ++ y :: after → P before y) ↔
      P [] x ∧ ∀ before y after, rest = before ++ y :: after → P (x :: before) y := by
  constructor
  · intro h
    refine ⟨h [] x rest rfl, fun before y after hrest => h (x :: before) y after ?_⟩
    rw [hrest]
    rfl
  · rintro ⟨hfirst, hrest⟩ before y after hsplit
    cases before with
    | nil =>
      obtain ⟨rfl, -⟩ := List.cons.inj hsplit
      exact hfirst
    | cons x' before =>
      obtain ⟨rfl, htail⟩ := List.cons.inj hsplit
      exact hrest before y after htail

theorem verdict_eq_iff {v w : World} (h : v.registry = w.registry) (x : Work) :
    verdict b v x = verdict b w x ↔
      ∀ p, admitted? w.registry x = some p → complete b v p = complete b w p := by
  unfold verdict
  rw [h]
  cases admitted? w.registry x with
  | none => simp
  | some p =>
    simp only [Option.some.injEq, forall_eq']
    cases complete b v p <;> cases complete b w p <;> decide

theorem outcome_settle_of_dryRun (hdry : j.dryRun = true) (w : World) {x : Work}
    (hx : x.Proper b) : (settle b j faults w x).2.outcome = some (verdict b w x) := by
  rw [outcome_settle b j faults w hx, delivery, handed_of_dryRun b j hdry]
  rfl

theorem outcome_settle_of_none {w : World} {x : Work} (hx : x.Proper b)
    (hnone : (delivery b j faults w x).2 = none) :
    (settle b j faults w x).2.outcome = some (verdict b w x) := by
  rw [outcome_settle b j faults w hx, hnone]

/-- A dry run and a run without faults that begin with the same registry tell the same outcomes if
and only if each product that they admit is complete for both or for none, where the dry run sees
the disk at its start. -/
theorem map_outcome_history_eq_iff (dry : Job) (hdry : dry.dryRun = true) (faults' : Faults)
    (works : List Work) {v w : World} (h : v.registry = w.registry)
    (hw : ∀ x ∈ works, x.Proper b) (hnone : Faultless b j faults w works) :
    (history b dry faults' v works).map (·.outcome) =
        (history b j faults w works).map (·.outcome) ↔
      ∀ before x after, works = before ++ x :: after →
        ∀ p, admitted? (before.foldl enrol w.registry) x = some p →
          complete b v p = complete b (before.foldl (commit b j faults) w) p := by
  induction works generalizing v w with
  | nil =>
    refine ⟨fun _ before x after hsplit => ?_, fun _ => rfl⟩
    exact absurd hsplit.symm (List.append_ne_nil_of_right_ne_nil _ (List.cons_ne_nil _ _))
  | cons x rest ih =>
    have hx := hw x List.mem_cons_self
    have hregistry : (commit b dry faults' v x).registry = (commit b j faults w x).registry := by
      rw [registry_commit, registry_commit, h]
    have hfiles : (commit b dry faults' v x).files = v.files :=
      files_settle_of_dryRun b dry faults' hdry v x
    have hhead : (settle b dry faults' v x).2.outcome = (settle b j faults w x).2.outcome ↔
        ∀ p, admitted? w.registry x = some p → complete b v p = complete b w p := by
      rw [outcome_settle_of_dryRun b dry faults' hdry v hx,
        outcome_settle_of_none b j faults hx hnone.1, Option.some.injEq, verdict_eq_iff b h]
    have htail := ih hregistry (fun y hy => hw y (List.mem_cons_of_mem _ hy)) hnone.2
    simp only [complete_congr b hfiles, registry_commit] at htail
    rw [history, history, List.map_cons, List.map_cons, List.cons.injEq, hhead, htail,
      forall_split_cons]
    rfl

end World

/-- If one of some files is missing and is not written, then they are not all there, before or
after. -/
theorem Disk.texts_iff_shows_of_missing {d : Disk} {l sent : List (Path × String)}
    {e : Path × String} (he : e ∈ l) (hmissing : d.readText e.1 ≠ .ok e.2)
    (hapart : ∀ e' ∈ sent, d.destination e'.1 ≠ d.destination e.1) :
    (∀ e ∈ l, d.readText e.1 = .ok e.2) ↔ ∀ e ∈ l, d.Shows sent e.1 e.2 := by
  refine iff_of_false (fun h => hmissing (h e he)) fun h => hmissing ?_
  exact (shows_iff_of_apart hapart).mp (h e he)

namespace Migration
namespace Ready

variable {j : Job} {files : Disk} (g : Ready j files)

theorem report_outcome (w : World) : (g.outcome w).report = w.report := rfl

theorem files_outcome (w : World) : (g.outcome w).files = w.files := rfl

/-- The same migration as a dry run. -/
def rehearsal : Ready { j with dryRun := true } files where
  events := g.events
  settings := g.settings
  frameworkLog := g.frameworkLog
  aliasLog := g.aliasLog
  roots := g.roots
  inside := (Discovery.stray?_dryRun files j true).trans g.inside
  framework := g.framework
  aliases := g.aliases

theorem found_rehearsal : g.rehearsal.found = g.found := by
  unfold found
  rw [Discovery.components_dryRun]

theorem batch_rehearsal : g.rehearsal.batch = g.batch := by
  unfold batch batchOf
  rw [found_rehearsal, Discovery.styles_dryRun]
  rfl

theorem works_rehearsal (k : Nat) : g.rehearsal.works k = g.works k := by
  unfold works
  rw [found_rehearsal, batch_rehearsal]
  exact List.map_congr_left fun source _ => Work.process_dryRun g.batch files j true source

theorem told_rehearsal (faults : Faults) (k : Nat) :
    g.rehearsal.told faults k =
      World.history g.batch { j with dryRun := true } faults g.opening (g.works k) := by
  unfold told
  rw [batch_rehearsal, works_rehearsal]
  rfl

/-- A dry run that is not called off tells about all files. -/
theorem report_rehearsal (faults : Faults) {calledOff : Nat → World → Bool}
    (hcalm : ∀ n w, calledOff n w = false) :
    (g.rehearsal.closing faults calledOff).report =
      (g.events :: g.rehearsal.told faults g.found.length).foldl Report.merge {} := by
  obtain ⟨k, -, hclosing, hk⟩ := g.rehearsal.closing_eq faults calledOff
    (g.rehearsal.steady_of_dryRun rfl faults calledOff)
  rw [hclosing, hk hcalm, List.drop_length, List.map_nil, List.foldl_nil,
    g.rehearsal.report_committed, found_rehearsal]
  rfl

/-- Every product that the batch admits is up to date at the start if and only if it is so when the
files that were sent before it are taken into account. -/
def Foreseen (faults : Faults) : Prop :=
  ∀ before x after, g.all = before ++ x :: after →
    ∀ p, World.admitted? (before.foldl World.enrol Registry.empty) x = some p →
      ((∀ e ∈ p.files g.batch, files.readText e.1 = .ok e.2) ↔
        ∀ e ∈ p.files g.batch,
          files.Shows (World.sent g.batch j faults g.opening before) e.1 e.2)

/-- No product that the batch admits has a file at a place that was written before. -/
def Unshared (faults : Faults) : Prop :=
  ∀ before x after, g.all = before ++ x :: after →
    ∀ p, World.admitted? (before.foldl World.enrol Registry.empty) x = some p →
      ∀ e ∈ p.files g.batch, ∀ e' ∈ World.sent g.batch j faults g.opening before,
        files.destination e'.1 ≠ files.destination e.1

/-- Where nothing is shared, everything is foreseen. -/
theorem Unshared.foreseen {faults : Faults} (h : g.Unshared faults) : g.Foreseen faults := by
  intro before x after hsplit p hp
  exact forall₂_congr fun e he =>
    (Disk.shows_iff_of_apart (h before x after hsplit p hp e he)).symm

theorem map_outcome_told_eq_iff (faults faults' : Faults)
    (hsettled : ∀ e ∈ g.outputs, files.Settled e.1)
    (hnone : World.Faultless g.batch j faults g.opening g.all) :
    (g.rehearsal.told faults' g.found.length).map (·.outcome) =
        (g.told faults g.found.length).map (·.outcome) ↔ g.Foreseen faults := by
  have hagree := World.map_outcome_history_eq_iff g.batch j faults { j with dryRun := true }
    rfl faults' g.all (v := g.opening) rfl (fun x hx => g.proper_of_mem_all hx) hnone
  rw [told_rehearsal, told, g.works_length]
  refine hagree.trans ?_
  refine forall₄_congr fun before x after hsplit => forall₂_congr fun p hp => ?_
  have hmem : x ∈ g.all := by
    rw [hsplit]
    exact List.mem_append_right _ List.mem_cons_self
  -- the disk in front of `x` is the one at the start with what was sent so far
  have hbefore := World.written_foldl_commit g.batch j faults before g.opening (.nil files)
    (fun y hy => g.proper_of_mem_all (hsplit ▸ List.mem_append_left _ hy))
    (World.faultless_append g.batch j faults |>.mp (hsplit ▸ hnone)).1
  rw [List.nil_append] at hbefore
  rw [Bool.eq_iff_iff, World.complete_iff, World.complete_iff]
  refine iff_congr Iff.rfl (forall₂_congr fun e he => ?_)
  exact hbefore.readText_iff
    (hsettled e (g.mem_outputs.mpr ⟨x, hmem, p, World.product_of_admitted? hp, he⟩))

end Ready

/-- **A dry run foretells a run exactly if everything is foreseen.**  Let a run not be called off,
meet no fault, leave its inputs alone, and go back in its paths only from directories that are
there.  Then the run and a dry run from the same disk both go through.  They tell the same outcome
for every file if and only if every file is up to date at the start just when it is so with the
files sent before it; and then they count the same.  This is so if no file of a product goes to a
place that was written before. -/
theorem dry_run_foretells_iff {j : Job} {files : Disk} (g : Ready j files)
    {faults : Faults} (hnone : World.Faultless g.batch j faults g.opening g.all)
    (hinputs : g.InputsKept faults) (hsettled : ∀ e ∈ g.outputs, files.Settled e.1)
    {calledOff : Nat → World → Bool} (hcalm : ∀ n w, calledOff n w = false)
    (faults' : Faults) {calledOff' : Nat → World → Bool} (hcalm' : ∀ n w, calledOff' n w = false) :
    ∃ (dry real : Migration.Outcome) (foretold told : List FileEvents),
      run { j with dryRun := true } faults' calledOff' files = .ok dry ∧
      run j faults calledOff files = .ok real ∧
      dry.report = (g.events :: foretold).foldl Report.merge {} ∧
      real.report = (g.events :: told).foldl Report.merge {} ∧
      foretold.map (·.file) = g.found ∧ told.map (·.file) = g.found ∧
      (foretold.map (·.outcome) = told.map (·.outcome) ↔ g.Foreseen faults) ∧
      (g.Foreseen faults → dry.report.migrated = real.report.migrated ∧
        dry.report.skipped = real.report.skipped ∧ dry.report.failed = real.report.failed) ∧
      (g.Unshared faults → g.Foreseen faults) := by
  have hreal : (g.closing faults calledOff).report =
      (g.events :: g.told faults g.found.length).foldl Report.merge {} := by
    rw [hinputs.closing_eq g hcalm, g.report_committed]
  have hdry := g.report_rehearsal faults' hcalm'
  have hiff := g.map_outcome_told_eq_iff faults faults' hsettled hnone
  refine ⟨_, _, g.rehearsal.told faults' g.found.length, g.told faults g.found.length,
    g.rehearsal.run_eq faults' calledOff', g.run_eq faults calledOff, hdry, hreal, ?_, ?_, hiff,
    fun hforeseen => ?_, fun hunshared => hunshared.foreseen g⟩
  · rw [g.rehearsal.map_file_told, g.found_rehearsal, List.take_length]
  · rw [g.map_file_told, List.take_length]
  · have htally : ∀ o, (g.rehearsal.closing faults' calledOff').report.tally o =
        (g.closing faults calledOff).report.tally o := by
      intro o
      rw [hdry, hreal, Report.tally_foldl_merge, Report.tally_foldl_merge, List.map_cons,
        List.map_cons, hiff.mpr hforeseen]
    exact ⟨htally .migrated, htally .skipped, htally .failed⟩

/-- The text of a component that shows one empty paragraph. -/
def bare (name : String) : String := "export const " ++ name ++ " = () => <p/>;\n"

/-- A disk with a source project of one component and an empty target project. -/
def loneFiles : Disk where
  top := .directory
    [("source", .directory [("A.jsx", .file (Utf8.encode (bare "A")))]),
      ("target", .directory [])]

/-- A run from the one project to the other. -/
def lone : Job where
  sourceDir := ⟨"", ["source"]⟩
  targetDir := ⟨"", ["target"]⟩
  settings := { header := false }

/-- The run can begin. -/
def loneReady : Ready lone loneFiles where
  events := { file := "" }
  settings := lone.settings
  frameworkLog := _
  aliasLog := _
  roots := by rfl
  inside := Discovery.stray?_of_nil loneFiles rfl
  framework := by rfl
  aliases := by rfl

theorem found_lone : loneReady.found = ["A.jsx"] := by decide +kernel

/-! ## Two components and one style file -/

/-- The text of a component with a style file. -/
def styled (name : String) : String := "import './a.css';\n" ++ bare name

/-- A disk with two components that import one style file, and an empty target project. -/
def pairFiles : Disk where
  top := .directory
    [("source", .directory
      [("B.jsx", .file (Utf8.encode (styled "B"))), ("A.jsx", .file (Utf8.encode (styled "A"))),
        ("a.css", .file (Utf8.encode "p{}"))]),
      ("target", .directory [])]

/-- The run over the two components can begin. -/
def pairReady : Ready lone pairFiles where
  events := { file := "" }
  settings := lone.settings
  frameworkLog := _
  aliasLog := _
  roots := by rfl
  inside := Discovery.stray?_of_nil pairFiles rfl
  framework := by rfl
  aliases := by rfl

theorem found_pair : pairReady.found = ["A.jsx", "B.jsx"] := by
  have hsearch : (Discovery.search? pairFiles lone Discovery.isComponent "").getD [] =
      ["B.jsx", "A.jsx"] := by decide
  rw [Ready.found, Discovery.components_of_nil pairFiles rfl, hsearch]
  exact sort_swapped (by decide)

/-- The batch of the two components. -/
def pairBatch : Batch where
  naming := lone.settings.naming
  targetDir := ⟨"", ["target"]⟩
  files := ["A.jsx", "B.jsx"]
  assets := ["a.css"]

theorem batch_pair : pairReady.batch = pairBatch := by
  have hstyles : Discovery.styles pairFiles lone = ["a.css"] := by decide +kernel
  rw [Ready.batch, batchOf, found_pair, hstyles]
  rfl

/-- The work on one of the two components. -/
def pairWork (source : String) : Work := Work.process pairBatch lone pairFiles source

theorem all_pair : pairReady.all = [pairWork "A.jsx", pairWork "B.jsx"] := by
  rw [Ready.all, batch_pair, found_pair]
  rfl

/-- Where the files of the two components go. -/
def pairPlace (name : String) : Path :=
  ⟨"", ["target", "src", "components_migrated_from_source", name]⟩

/-- The component of a name as it is to be left behind. -/
def pairComponent (name : String) : Path × String := (pairPlace (name ++ ".jsx"), styled name)

/-- The style file as it is to be left behind. -/
def pairStyle : Path × String := (pairPlace "a.css", "p{}")

/-- The world before the two components. -/
def pairOpening : World := { files := pairFiles }

/-- The world after them. -/
def pairClosing : World :=
  [pairWork "A.jsx", pairWork "B.jsx"].foldl (World.commit pairBatch lone fun _ => none) pairOpening

/-- What the work on the two components reads and what it comes to.  The style file is to be left
behind by both, and it is sent once. -/
theorem pair_check :
    (Work.inputs pairBatch lone pairFiles "A.jsx" =
        [⟨"", ["source", "A.jsx"]⟩, ⟨"", ["source", "a.css"]⟩] ∧
      Work.inputs pairBatch lone pairFiles "B.jsx" =
        [⟨"", ["source", "B.jsx"]⟩, ⟨"", ["source", "a.css"]⟩]) ∧
    ((pairWork "A.jsx").product.toList.flatMap (Product.files pairBatch) =
        [pairComponent "A", pairStyle] ∧
      (pairWork "B.jsx").product.toList.flatMap (Product.files pairBatch) =
        [pairComponent "B", pairStyle]) ∧
    (World.sent pairBatch lone (fun _ => none) pairOpening [pairWork "A.jsx"] =
        [pairComponent "A", pairStyle] ∧
      World.sent pairBatch lone (fun _ => none) pairOpening [pairWork "A.jsx", pairWork "B.jsx"] =
        [pairComponent "A", pairStyle, pairComponent "B"]) ∧
    ((World.delivery pairBatch lone (fun _ => none) pairOpening (pairWork "A.jsx")).2.isNone = true ∧
      (World.delivery pairBatch lone (fun _ => none)
        (World.commit pairBatch lone (fun _ => none) pairOpening (pairWork "A.jsx"))
        (pairWork "B.jsx")).2.isNone = true) ∧
    pairClosing.report.migrated = 2 ∧ pairClosing.report.failed = 0 := by
  decide +kernel

theorem outputs_pair :
    pairReady.outputs = [pairComponent "A", pairStyle, pairComponent "B", pairStyle] := by
  obtain ⟨-, ⟨hA, hB⟩, -⟩ := pair_check
  rw [Ready.outputs, all_pair, batch_pair, List.flatMap_cons, List.flatMap_singleton, hA, hB]
  rfl

theorem sent_pair :
    (pairReady.sent fun _ => none) = [pairComponent "A", pairStyle, pairComponent "B"] := by
  obtain ⟨-, -, ⟨-, hsent⟩, -⟩ := pair_check
  rw [Ready.sent, all_pair, batch_pair]
  exact hsent

theorem inputsKept_pair : pairReady.InputsKept fun _ => none := by
  have hinputs : ∀ source ∈ pairReady.found, ∀ p ∈ Work.inputs pairReady.batch lone pairFiles source,
      (∃ name ∈ ["A.jsx", "B.jsx", "a.css"], p = ⟨"", ["source", name]⟩) := by
    rw [found_pair, batch_pair]
    obtain ⟨⟨hA, hB⟩, -⟩ := pair_check
    intro source hsource p hp
    rcases List.mem_pair.mp hsource with rfl | rfl
    · rw [hA] at hp
      rcases List.mem_pair.mp hp with rfl | rfl
      · exact ⟨"A.jsx", by decide, rfl⟩
      · exact ⟨"a.css", by decide, rfl⟩
    · rw [hB] at hp
      rcases List.mem_pair.mp hp with rfl | rfl
      · exact ⟨"B.jsx", by decide, rfl⟩
      · exact ⟨"a.css", by decide, rfl⟩
  have hthere : ∀ name ∈ ["A.jsx", "B.jsx", "a.css"],
      (pairFiles.readBytes ⟨"", ["source", name]⟩).isOk = true := by decide
  have hkept : ∀ name ∈ ["A.jsx", "B.jsx", "a.css"],
      ∀ e ∈ [pairComponent "A", pairStyle, pairComponent "B"],
        pairFiles.destination e.1 ≠ pairFiles.destination ⟨"", ["source", name]⟩ := by decide
  refine ⟨fun source hsource p hp => ?_, fun source hsource p hp e he => ?_⟩
  · obtain ⟨name, hname, rfl⟩ := hinputs source hsource p hp
    cases hread : pairFiles.readBytes ⟨"", ["source", name]⟩ with
    | ok bytes => exact ⟨bytes, rfl⟩
    | error e => exact absurd (hthere name hname) (by simp [hread, Except.isOk, Except.toBool])
  · obtain ⟨name, hname, rfl⟩ := hinputs source hsource p hp
    rw [sent_pair] at he
    exact hkept name hname e he

theorem closing_pair :
    (pairReady.closing (fun _ => none) fun _ _ => false) = pairClosing := by
  rw [inputsKept_pair.closing_eq pairReady fun _ _ => rfl, Ready.committed, pairReady.works_length,
    all_pair, batch_pair]
  rfl

theorem faultless_pair :
    World.Faultless pairReady.batch lone (fun _ => none) pairReady.opening pairReady.all := by
  obtain ⟨-, -, -, ⟨hA, hB⟩, -⟩ := pair_check
  rw [all_pair, batch_pair]
  exact ⟨Option.isNone_iff_eq_none.mp hA, Option.isNone_iff_eq_none.mp hB, trivial⟩

/-- The first component has nothing in front of it; the second lacks a file of its own, whatever has
become of the style file. -/
theorem foreseen_pair : pairReady.Foreseen fun _ => none := by
  obtain ⟨-, ⟨-, hoffered⟩, ⟨hpassed, -⟩, -⟩ := pair_check
  unfold Ready.Foreseen
  rw [all_pair, batch_pair, World.forall_split_cons, World.forall_split_cons]
  refine ⟨fun p _ => forall₂_congr fun e _ => ?_, fun p hp => ?_, fun before x after hsplit => ?_⟩
  · exact (Disk.shows_iff_of_apart fun _ he' => absurd he' List.not_mem_nil).symm
  · have hmem : pairComponent "B" ∈ p.files pairBatch := by
      rw [World.product_of_admitted? hp, Option.toList_some, List.flatMap_singleton] at hoffered
      rw [hoffered]
      exact List.mem_cons_self
    have hmissing : (pairFiles.readText (pairComponent "B").1).isOk = false := by decide
    have hapart : ∀ e ∈ [pairComponent "A", pairStyle],
        pairFiles.destination e.1 ≠ pairFiles.destination (pairComponent "B").1 := by decide
    refine Disk.texts_iff_shows_of_missing hmem (fun htext => ?_) ?_
    · rw [htext] at hmissing
      cases hmissing
    · rw [← hpassed] at hapart
      exact hapart
  · exact absurd hsplit (by simp)

/-- The outcomes of the two components are foretold, although the second finds the style file in its
place. -/
theorem shared_style_foretold :
    ∃ dry real : Migration.Outcome,
      run { lone with dryRun := true } (fun _ => none) (fun _ _ => false) pairFiles = .ok dry ∧
      run lone (fun _ => none) (fun _ _ => false) pairFiles = .ok real ∧
      dry.report.migrated = 2 ∧ real.report.migrated = 2 ∧
      dry.report.skipped = real.report.skipped ∧ dry.report.failed = real.report.failed := by
  have hsettled : ∀ e ∈ pairReady.outputs, pairFiles.Settled e.1 := by
    have hdown : ∀ e ∈ pairReady.outputs, ".." ∉ e.1.parts := by
      rw [outputs_pair]
      decide
    exact fun e he => Disk.settled_of_notMem (hdown e he)
  obtain ⟨dry, real, _, _, hdry, hreal, -, -, -, -, -, hcounts, -⟩ :=
    dry_run_foretells_iff pairReady faultless_pair inputsKept_pair hsettled (fun _ _ => rfl)
      (fun _ => none) (fun _ _ => rfl)
  obtain ⟨hmigrated, hskipped, hfailed⟩ := hcounts foreseen_pair
  have hboth : real.report.migrated = 2 := by
    obtain rfl := Except.ok.inj ((pairReady.run_eq _ _).symm.trans hreal)
    obtain ⟨-, -, -, -, hreport, -⟩ := pair_check
    rw [Ready.report_outcome, closing_pair]
    exact hreport
  exact ⟨dry, real, hdry, hreal, hmigrated.trans hboth, hboth, hskipped, hfailed⟩

/-! ## A path for two components -/

/-- A job that gives one path to two components. -/
def crowded : Job where
  sourceDir := ⟨"", ["source"]⟩
  targetDir := ⟨"", ["target"]⟩
  settings :=
    { header := false, pathOverrides := Table.ofPairs [("A.jsx", "X.jsx"), ("B.jsx", "X.jsx")] }

/-- Two components, the second of which is at the path already. -/
def crowdedFiles : Disk where
  top := .directory
    [("source", .directory
      [("B.jsx", .file (Utf8.encode (bare "B"))), ("A.jsx", .file (Utf8.encode (bare "A")))]),
      ("target", .directory [("src", .directory [("components_migrated_from_source", .directory
        [("X.jsx", .file (Utf8.encode (bare "B")))])])])]

/-- The job can begin. -/
def crowdedReady : Ready crowded crowdedFiles where
  events := { file := "" }
  settings := crowded.settings
  frameworkLog := _
  aliasLog := _
  roots := by rfl
  inside := Discovery.stray?_of_nil crowdedFiles rfl
  framework := by rfl
  aliases := by rfl

theorem found_crowded : crowdedReady.found = ["A.jsx", "B.jsx"] := by
  have hsearch : (Discovery.search? crowdedFiles crowded Discovery.isComponent "").getD [] =
      ["B.jsx", "A.jsx"] := by decide +kernel
  rw [Ready.found, Discovery.components_of_nil crowdedFiles rfl, hsearch]
  exact sort_swapped (by decide)

/-- The world after the two components, in a dry run or not. -/
def crowdedWorld (dry : Bool) : World :=
  processAll (batchOf crowded crowded.settings crowdedFiles ["A.jsx", "B.jsx"])
    { crowded with dryRun := dry } (fun _ => none) (fun _ _ => false) crowdedReady.opening
    ["A.jsx", "B.jsx"]

theorem closing_crowded :
    crowdedReady.closing (fun _ => none) (fun _ _ => false) = crowdedWorld false := by
  unfold Ready.closing Ready.batch
  rw [found_crowded]
  rfl

theorem closing_rehearsal_crowded :
    crowdedReady.rehearsal.closing (fun _ => none) (fun _ _ => false) = crowdedWorld true := by
  unfold Ready.closing
  rw [crowdedReady.batch_rehearsal, crowdedReady.found_rehearsal]
  unfold Ready.batch
  rw [found_crowded]
  rfl

theorem report_crowdedWorld :
    ((crowdedWorld true).report.migrated = 1 ∧ (crowdedWorld true).report.skipped = 1) ∧
      (crowdedWorld false).report.migrated = 2 ∧ (crowdedWorld false).report.failed = 0 := by
  decide +kernel

/-- **A dry run can foretell something else than what happens.**  The second component is up to date
at the start, so the dry run skips it; the run has put the first one in its place by then. -/
theorem shared_path_not_foretold :
    ∃ dry real : Migration.Outcome,
      run { crowded with dryRun := true } (fun _ => none) (fun _ _ => false) crowdedFiles =
        .ok dry ∧
      run crowded (fun _ => none) (fun _ _ => false) crowdedFiles = .ok real ∧
      (dry.report.migrated = 1 ∧ dry.report.skipped = 1) ∧
      real.report.migrated = 2 ∧ real.report.failed = 0 := by
  obtain ⟨hdry, hreal⟩ := report_crowdedWorld
  refine ⟨_, _, crowdedReady.rehearsal.run_eq _ _, crowdedReady.run_eq _ _, ?_, ?_⟩
  · rw [Ready.report_outcome, closing_rehearsal_crowded]
    exact hdry
  · rw [Ready.report_outcome, closing_crowded]
    exact hreal

end Migration
end Transplant
