import Transplant.Component.Analysis
import Transplant.Migration.Failure
import Transplant.Migration.Job
import Transplant.TestSpec.Module

/-!
# Work on one file

A file is read, analysed, adapted and given its test, all without writing anything. What comes out
is the events so far, with a `Product` if all went well.

* `Work.process`: the work on a file, which never stops the batch
-/

namespace Transplant

/-- What is to be written for a component. -/
structure Product where
  plan : Plan
  text : String
  test : Option String
  /-- Copies of style files, with where they go. -/
  assets : List (Path × String)

/-- What has come out of the work on a file. -/
structure Work where
  source : String
  events : FileEvents
  product : Option Product

namespace Work

/-- The events with what there is to say about a component: what it changes outside itself, and
which props it hands on. -/
def flag (d : Descriptor) (f : FileEvents) : FileEvents :=
  let key (w : OutsideWrite) := (w.target.toList, w.kind.name.toList)
  let notAfter (a b : OutsideWrite) : Bool :=
    a.line < b.line || (a.line == b.line &&
      !decide ([(key b).1, (key b).2] < [(key a).1, (key a).2]))
  let writes := (d.outsideWrites.mergeSort notAfter).map fun w =>
    s!"Cross-cutting effect at line {w.line}: {w.kind.name} on {w.target}; review manually"
  let unknown := (Text.sort d.unknownProps).map fun name =>
    s!"Props passed through '{name}' cannot be enumerated; tests cover named props only"
  f.warnings (writes ++ unknown)

/-- The source of a file with its descriptor. -/
def analyse (j : Job) (files : Disk) (source : String) :
    Except Failure (Source × Descriptor) := do
  let text ← (files.readText (j.sourceDir.child source)).mapError (.unreadable source)
  let parsed ← (Source.parse text source).mapError (.analysis ∘ .unparseable source)
  let d ← (Descriptor.ofTree parsed.root parsed.language source).mapError .analysis
  return (parsed, d)

/-- The adapted source with its text. -/
def adapt (b : Batch) (source : Source) (d : Descriptor) :
    Except Failure (Draft × String) := do
  let draft ← (b.adapt source d).mapError .ofAdapt
  let text ← draft.source.text.mapError fun f => .unreadable source.path (.undecodable f)
  return (draft, text)

/-- A style file with where it goes. -/
def copy (b : Batch) (j : Job) (files : Disk) (source asset : String) :
    Except Failure (Path × String) := do
  let text ← (files.readText (j.sourceDir.child asset)).mapError (.unreadable source)
  let path ← (b.assetPath asset).mapError .ofPlan
  return (path, text)

/-- The test of a component. -/
def testText (b : Batch) (plan : Plan) (spec : TestSpec) : Except Failure String := do
  let importPath ← (b.testImport plan).mapError .ofPath
  let marker := b.naming.enforced?.map (·.shown)
  (TestModule.ofSpec marker spec plan.targetName importPath).mapError
    fun e => .badValue e.message

/-- The product of an adapted source, with the warnings of its test. -/
def finish (b : Batch) (j : Job) (files : Disk) (source : String) (draft : Draft)
    (text : String) (f : FileEvents) : FileEvents × Except Failure Product :=
  match draft.plan.assets.mapM (copy b j files source) with
  | .error e => (f, .error e)
  | .ok assets =>
    if j.generateTests then
      let spec := TestSpec.ofDescriptor draft.plan.descriptor
      (f.warnings spec.warnings,
        (testText b draft.plan spec).map fun test => ⟨draft.plan, text, some test, assets⟩)
    else (f, .ok ⟨draft.plan, text, none, assets⟩)

/-- The work on a file. -/
def process (b : Batch) (j : Job) (files : Disk) (source : String) : Work :=
  let f : FileEvents := { file := source }
  match analyse j files source with
  | .error e => ⟨source, f.fail e, none⟩
  | .ok (parsed, d) =>
    let f := flag d { f with component := some d.name }
    match adapt b parsed d with
    | .error e => ⟨source, (f.warnings e.warnings).fail e, none⟩
    | .ok (draft, text) =>
      match finish b j files source draft text (f.warnings draft.plan.warnings) with
      | (f, .error e) => ⟨source, f.fail e, none⟩
      | (f, .ok product) => ⟨source, f, some product⟩

end Work
end Transplant
