import Transplant.Proofs.Data.Digits
import Transplant.Proofs.Project.Metadata

/-!
# When nothing can be said about a project

The files in which a project says something about itself may be missing, unreadable or no JSON, and
they may hold any value at all; in all these cases they are passed over.  Two things are not passed
over: a manifest that is JSON but no object, and a whole number with more digits than can be read, in
any file that is looked at.  A file of aliases is looked at unless one in front of it declares some.

* `Project.framework_returns_iff`, `Project.aliases_returns_iff`: when framework and aliases are told
* `Project.overlong_of_tooLong`: what a file with such a number looks like
-/

namespace Transplant
namespace Project

variable {files : Disk} {dir p : Path}

/-- A file can be read and holds a JSON value. -/
def Holds (files : Disk) (p : Path) (v : Value) : Prop :=
  ∃ text, files.readText p = .ok text ∧ Json.parse text = .ok v

/-- A file can be read, and a whole number in it has too many digits. -/
def TooLong (files : Disk) (p : Path) : Prop :=
  ∃ text n, files.readText p = .ok text ∧ Json.parse text = .error (.tooLong n)

/-- A file declares path aliases. -/
def Declares (files : Disk) (p : Path) : Prop :=
  ∃ v, Holds files p v ∧ (declared? v).isSome = true

/-- A file with a number that is too long has too many digits in a row. -/
theorem overlong_of_tooLong (h : TooLong files p) :
    ∃ text, files.readText p = .ok text ∧ Json.Overlong text.toList := by
  obtain ⟨text, n, hread, hparse⟩ := h
  exact ⟨text, hread, Json.overlong_of_parse hparse⟩

theorem glance_returns_iff : (∃ x, glance files p = .ok x) ↔ ¬ TooLong files p := by
  unfold glance TooLong
  cases hread : files.readText p with
  | error e => simp
  | ok text =>
    cases hparse : Json.parse text with
    | ok v => simp [hparse]
    | error fault => cases fault <;> simp [hparse]

theorem value?_glance_eq_some_iff {x : Glance} (hx : glance files p = .ok x) {v : Value} :
    x.value? = some v ↔ Holds files p v := by
  unfold glance at hx
  unfold Holds
  cases hread : files.readText p with
  | error e =>
    rw [hread] at hx
    obtain rfl := Except.ok.inj hx
    split <;> simp [Glance.value?]
  | ok text =>
    rw [hread] at hx
    dsimp only at hx
    split at hx
    · rename_i v' hparse
      obtain rfl := Except.ok.inj hx
      simp [Glance.value?, hparse]
    · rename_i hparse
      obtain rfl := Except.ok.inj hx
      simp [Glance.value?, hparse]
    · cases hx

/-- **The framework of a project is told** unless its manifest is JSON but no object, or a whole
number in it has too many digits. -/
theorem framework_returns_iff :
    (∃ r, framework files dir = .ok r) ↔
      ¬ TooLong files (dir.child "package.json") ∧
        ∀ v, Holds files (dir.child "package.json") v → ∃ entries, v = .table entries := by
  rw [← glance_returns_iff]
  constructor
  · rintro ⟨⟨found, log⟩, hfound⟩
    obtain ⟨x, hx, -⟩ := exists_of_bind hfound
    refine ⟨⟨x, hx⟩, fun v hv => ?_⟩
    have htold := (framework_iff hx).mp ⟨log, hfound⟩
    rw [(value?_glance_eq_some_iff hx).mpr hv] at htold
    cases v with
    | table entries => exact ⟨entries, rfl⟩
    | _ => exact htold.elim
  · rintro ⟨⟨x, hx⟩, hobject⟩
    cases hvalue : x.value? with
    | none =>
      have hnone : ∃ log, framework files dir = .ok (none, log) :=
        (framework_iff hx).mpr (by rw [hvalue])
      exact ⟨_, hnone.choose_spec⟩
    | some v =>
      obtain ⟨entries, rfl⟩ := hobject v ((value?_glance_eq_some_iff hx).mp hvalue)
      have htold : ∃ log, framework files dir =
          .ok (frameworkOf? (dependencies (.table entries)), log) :=
        (framework_iff hx).mpr (by rw [hvalue])
      exact ⟨_, htold.choose_spec⟩

theorem declares_iff {x : Glance} (hx : glance files p = .ok x) :
    Declares files p ↔ (x.value?.bind declared?).isSome = true := by
  unfold Declares
  cases hvalue : x.value? with
  | none =>
    simp only [← value?_glance_eq_some_iff hx, hvalue]
    simp
  | some v =>
    simp only [← value?_glance_eq_some_iff hx, hvalue]
    simp

theorem aliasesFrom_returns_iff {names : List String} :
    (∃ r, aliasesFrom files dir names = .ok r) ↔
      ∀ before name after, names = before ++ name :: after →
        (∀ n ∈ before, ¬ Declares files (dir.child n)) → ¬ TooLong files (dir.child name) := by
  induction names with
  | nil => exact iff_of_true ⟨_, rfl⟩ fun before name after h => by simp at h
  | cons first rest ih =>
    by_cases hlong : TooLong files (dir.child first)
    · -- the first file is always looked at
      refine iff_of_false ?_ fun h => h [] first rest rfl (List.forall_mem_nil _) hlong
      rintro ⟨r, hr⟩
      exact glance_returns_iff.mp (exists_glance_of_aliasesFrom hr) hlong
    · obtain ⟨x, hx⟩ := glance_returns_iff.mpr hlong
      by_cases hdeclares : Declares files (dir.child first)
      · -- and no other, if it declares aliases
        obtain ⟨aliases, haliases⟩ := Option.isSome_iff_exists.mp ((declares_iff hx).mp hdeclares)
        have hfound : ∃ log, aliasesFrom files dir (first :: rest) = .ok (aliases, log) := by
          rw [aliasesFrom_cons hx, haliases]
        refine iff_of_true ⟨_, hfound.choose_spec⟩ fun before name after hsplit hbefore => ?_
        cases before with
        | nil =>
          obtain ⟨rfl, -⟩ := List.cons.inj hsplit
          exact hlong
        | cons n before =>
          obtain ⟨rfl, -⟩ := List.cons.inj hsplit
          exact absurd hdeclares (hbefore first List.mem_cons_self)
      · have hnone : x.value?.bind declared? = none := by
          rw [← Option.not_isSome_iff_eq_none, ← declares_iff hx]
          exact hdeclares
        have hrest : (∃ r, aliasesFrom files dir (first :: rest) = .ok r) ↔
            ∃ r, aliasesFrom files dir rest = .ok r := by
          simp only [Prod.exists, aliasesFrom_cons hx, hnone]
        rw [hrest, ih]
        constructor
        · intro h before name after hsplit hbefore
          cases before with
          | nil =>
            obtain ⟨rfl, -⟩ := List.cons.inj hsplit
            exact hlong
          | cons n before =>
            obtain ⟨-, rfl⟩ := List.cons.inj hsplit
            exact h before name after rfl fun m hm => hbefore m (List.mem_cons_of_mem _ hm)
        · intro h before name after hsplit hbefore
          refine h (first :: before) name after (by rw [hsplit, List.cons_append]) ?_
          exact List.forall_mem_cons.mpr ⟨hdeclares, hbefore⟩

/-- **The aliases of a project are told** unless a whole number has too many digits in one of the
files that are looked at. -/
theorem aliases_returns_iff :
    (∃ r, aliases files dir = .ok r) ↔
      ¬ TooLong files (dir.child "tsconfig.json") ∧
        (Declares files (dir.child "tsconfig.json") ∨ ¬ TooLong files (dir.child "jsconfig.json")) := by
  rw [aliases, aliasesFrom_returns_iff]
  constructor
  · intro h
    refine ⟨h [] "tsconfig.json" ["jsconfig.json"] rfl (List.forall_mem_nil _), ?_⟩
    by_cases hdeclares : Declares files (dir.child "tsconfig.json")
    · exact .inl hdeclares
    · refine .inr (h ["tsconfig.json"] "jsconfig.json" [] rfl fun n hn => ?_)
      rwa [List.mem_singleton.mp hn]
  · rintro ⟨hts, hjs⟩ before name after hsplit hbefore
    obtain ⟨rfl, rfl⟩ | ⟨rfl, rfl⟩ : (before = [] ∧ name = "tsconfig.json") ∨
        (before = ["tsconfig.json"] ∧ name = "jsconfig.json") := by
      rcases before with _ | ⟨a, _ | ⟨b, before⟩⟩ <;> simp_all [aliasFiles]
    · exact hts
    · exact hjs.resolve_left (hbefore _ (List.mem_singleton.mpr rfl))

/-- Something can be told about a project: its manifest is an object if it is JSON at all, and no
number is too long in a file that is looked at. -/
structure Told (files : Disk) (dir : Path) : Prop where
  manifest : ¬ TooLong files (dir.child "package.json")
  object : ∀ v, Holds files (dir.child "package.json") v → ∃ entries, v = .table entries
  tsconfig : ¬ TooLong files (dir.child "tsconfig.json")
  jsconfig : Declares files (dir.child "tsconfig.json") ∨ ¬ TooLong files (dir.child "jsconfig.json")

theorem told_iff :
    Told files dir ↔
      (∃ r, framework files dir = .ok r) ∧ ∃ r, aliases files dir = .ok r := by
  rw [framework_returns_iff, aliases_returns_iff]
  exact ⟨fun h => ⟨⟨h.manifest, h.object⟩, h.tsconfig, h.jsconfig⟩,
    fun h => ⟨h.1.1, h.1.2, h.2.1, h.2.2⟩⟩

end Project
end Transplant
