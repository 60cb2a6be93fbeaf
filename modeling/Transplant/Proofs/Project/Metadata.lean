import Transplant.Project.Metadata
import Transplant.Proofs.Adapt.Reading
import Transplant.Proofs.Files.Written
import Transplant.Proofs.Path.Pure

/-!
# What a project says about itself stays the same

Files may be written to a project.  If its manifest and the files that declare its aliases are not
among them, then the project has the same framework and the same aliases as before.

The warnings may differ.  A file that was missing may be found unusable afterwards, as a directory
of its name may have been made; but neither a missing file nor an unusable one says anything.

* `Project.aliases_of_grows`, `Project.framework_of_grows`: aliases and framework are as before
-/

namespace Transplant

namespace Disk

variable {d : Disk}

/-- A path into a directory that is there can be followed. -/
theorem leads_child {dir : Path} (h : d.isDirectoryAt dir = true) {name : String}
    (hname : Path.ofString name = ⟨"", [name]⟩) : d.Leads (dir.child name) := by
  obtain ⟨hleads, hsight⟩ := isDirectoryAt_iff.mp h
  rw [Path.child, hname, Path.append_of_relative rfl]
  refine hleads.append fun l n r hsplit => ?_
  obtain ⟨rfl, -⟩ | ⟨-, habsurd⟩ := List.singleton_eq_append_iff.mp hsplit
  · exact hsight
  · cases habsurd

end Disk

namespace Project

variable {d d' : Disk} {S : List String → Prop}

/-- The value in a file, if it has one. -/
def Glance.value? : Glance → Option Value
  | .value v => some v
  | _ => none

theorem glance_of_error {p : Path} {e : FileError} (h : d.readBytes p = .error e) :
    ∃ x, glance d p = .ok x ∧ x.value? = none := by
  have hread : d.readText p = .error (.file e) := by
    rw [Disk.readText, h]
    rfl
  have hglance : glance d p =
      .ok (if (ReadError.file e).isMissing then .missing else .unusable) := by
    rw [glance, hread]
  refine ⟨_, hglance, ?_⟩
  split <;> rfl

/-- A file that is not written says the same as before. -/
theorem glance_of_grows (h : d.Grows S d') {p : Path} (hS : ¬ S (d.destination p))
    (hp : d.Leads p) {x : Glance} (hx : glance d p = .ok x) :
    ∃ x', glance d' p = .ok x' ∧ x'.value? = x.value? := by
  cases hbytes : d.readBytes p with
  | ok bytes =>
    refine ⟨x, ?_, rfl⟩
    rw [glance, h.readText hS ⟨bytes, hbytes⟩]
    exact hx
  | error e =>
    obtain ⟨y, hy, hvalue⟩ := glance_of_error hbytes
    obtain rfl := Except.ok.inj (hy.symm.trans hx)
    rw [hvalue]
    -- nothing but a directory can have come to the place
    cases hbytes' : d'.readBytes p with
    | error e' => exact glance_of_error hbytes'
    | ok bytes =>
      have hbefore := h.readBytes_before hS (fun _ => hp) hbytes'
      rw [hbytes] at hbefore
      cases hbefore

/-- What becomes of the aliases when one file has been looked at. -/
theorem aliasesFrom_cons {dir : Path} {name : String} {rest : List String} {x : Glance}
    {found : Table String} (hx : glance d (dir.child name) = .ok x) :
    (∃ log, aliasesFrom d dir (name :: rest) = .ok (found, log)) ↔
      match x.value?.bind declared? with
      | some aliases => aliases = found
      | none => ∃ log, aliasesFrom d dir rest = .ok (found, log) := by
  rw [aliasesFrom, hx]
  cases x with
  | missing => exact Iff.rfl
  | unusable =>
    cases aliasesFrom d dir rest with
    | error e => simp [Glance.value?, bind, Except.bind]
    | ok r => simp [Glance.value?, bind, Except.bind, pure, Except.pure, Prod.ext_iff]
  | value v =>
    cases hdeclared : declared? v with
    | none => simp [Glance.value?, bind, Except.bind, hdeclared]
    | some aliases => simp [Glance.value?, bind, Except.bind, hdeclared, pure, Except.pure]

theorem exists_glance_of_aliasesFrom {dir : Path} {name : String} {rest : List String}
    {r : Table String × List LogLine} (h : aliasesFrom d dir (name :: rest) = .ok r) :
    ∃ x, glance d (dir.child name) = .ok x := by
  rw [aliasesFrom] at h
  obtain ⟨x, hx, -⟩ := exists_of_bind h
  exact ⟨x, hx⟩

theorem aliasesFrom_of_grows (h : d.Grows S d') {dir : Path} {names : List String}
    (hnames : ∀ name ∈ names, ¬ S (d.destination (dir.child name)) ∧ d.Leads (dir.child name))
    {found : Table String} (hfound : ∃ log, aliasesFrom d dir names = .ok (found, log)) :
    ∃ log, aliasesFrom d' dir names = .ok (found, log) := by
  induction names with
  | nil => exact hfound
  | cons name rest ih =>
    obtain ⟨x, hx⟩ := exists_glance_of_aliasesFrom hfound.choose_spec
    obtain ⟨hS, hleads⟩ := hnames name List.mem_cons_self
    obtain ⟨x', hx', hvalue⟩ := glance_of_grows h hS hleads hx
    rw [aliasesFrom_cons hx] at hfound
    rw [aliasesFrom_cons hx', hvalue]
    cases hdeclared : x.value?.bind declared? with
    | some aliases =>
      rw [hdeclared] at hfound
      exact hfound
    | none =>
      rw [hdeclared] at hfound
      exact ih (fun n hn => hnames n (List.mem_cons_of_mem _ hn)) hfound

/-- The framework of a project, from what its manifest says. -/
theorem framework_iff {dir : Path} {x : Glance} {found : Option String}
    (hx : glance d (dir.child "package.json") = .ok x) :
    (∃ log, framework d dir = .ok (found, log)) ↔
      match x.value? with
      | none => found = none
      | some (.table entries) => found = frameworkOf? (dependencies (.table entries))
      | some _ => False := by
  rw [framework, hx]
  cases x with
  | missing => simp [Glance.value?, bind, Except.bind, pure, Except.pure, eq_comm]
  | unusable => simp [Glance.value?, bind, Except.bind, pure, Except.pure, eq_comm]
  | value v =>
    cases v <;> simp [Glance.value?, bind, Except.bind, pure, Except.pure, throw, throwThe,
      MonadExceptOf.throw, eq_comm]

/-- The files in which a project says something about itself. -/
def metadata (dir : Path) : List Path := ("package.json" :: aliasFiles).map dir.child

theorem leads_metadata {dir : Path} (hdir : d.isDirectoryAt dir = true) {name : String}
    (hname : name ∈ "package.json" :: aliasFiles) : d.Leads (dir.child name) := by
  refine Disk.leads_child hdir ?_
  have hall : ∀ n ∈ "package.json" :: aliasFiles, Path.ofString n = ⟨"", [n]⟩ := by decide
  exact hall name hname

/-- **A project has the aliases that it had before**, if the files that declare them are not
written. -/
theorem aliases_of_grows (h : d.Grows S d') {dir : Path} (hdir : d.isDirectoryAt dir = true)
    (hS : ∀ p ∈ metadata dir, ¬ S (d.destination p)) {found : Table String} {log : List LogLine}
    (hfound : aliases d dir = .ok (found, log)) : ∃ log', aliases d' dir = .ok (found, log') := by
  refine aliasesFrom_of_grows h (fun name hname => ?_) ⟨log, hfound⟩
  have hmem : name ∈ "package.json" :: aliasFiles := List.mem_cons_of_mem _ hname
  exact ⟨hS _ (List.mem_map_of_mem hmem), leads_metadata hdir hmem⟩

/-- **A project has the framework that it had before**, if its manifest is not written. -/
theorem framework_of_grows (h : d.Grows S d') {dir : Path} (hdir : d.isDirectoryAt dir = true)
    (hS : ∀ p ∈ metadata dir, ¬ S (d.destination p)) {found : Option String} {log : List LogLine}
    (hfound : framework d dir = .ok (found, log)) :
    ∃ log', framework d' dir = .ok (found, log') := by
  have hmem : "package.json" ∈ "package.json" :: aliasFiles := List.mem_cons_self
  obtain ⟨x, hx, -⟩ := exists_of_bind hfound
  obtain ⟨x', hx', hvalue⟩ := glance_of_grows h (hS _ (List.mem_map_of_mem hmem))
    (leads_metadata hdir hmem) hx
  rw [framework_iff hx', hvalue]
  exact (framework_iff hx).mp ⟨log, hfound⟩

end Project
end Transplant
