import Transplant.Config.Settings

/-!
# What checked settings are worth

Settings are values that nobody has looked at, and `Settings.update` checks them when it puts a table
over them.  `Settings.Checked` says what the checks are for: known options, a suffix that can be part
of the name of a directory, and new names that are names.  An update goes well (`Settings.Clean`) if
it gives checked settings or else says in an error what is wrong with the table.

## Where the checks slip

Not every update goes well.  The checks know texts, but a table can hold any value:

* a slash is looked for in the suffix, and in a number, a truth value or a moment none can be looked
  for;
* in a list a slash is looked for among the elements, and in a table among the keys, so that either
  can pass as a suffix;
* an error shows the value that it refuses, and a tag becomes part of the suffix, but a whole number
  with too many digits cannot be written out.

And one check says less than it seems: a name may end with a line feed (`Text.isIdentifier_iff`).
`Settings.Slip` lists all this, and nothing else goes wrong.

* `Settings.validate_clean_iff`: the checks go well exactly if none of them slips
* `Settings.update_clean_iff`: the same of settings with those of a table put over them
-/

namespace Transplant

/-! ## Names -/

namespace Text

/-- A name of letters, digits, `_` and `$` that does not begin with a digit. -/
structure PlainName (name : String) : Prop where
  nonempty : name ≠ ""
  chars : ∀ c ∈ name.toList, isLetter c = true ∨ isDigit c = true ∨ c = '_' ∨ c = '$'
  start : ∀ c, name.toList.head? = some c → isDigit c = false

theorem inName_iff {c : Char} :
    inName c = true ↔ isLetter c = true ∨ isDigit c = true ∨ c = '_' ∨ c = '$' := by
  simp only [inName, startsName, Bool.or_eq_true, beq_iff_eq]
  constructor
  · rintro (((h | h) | h) | h)
    · exact .inl h
    · exact .inr (.inr (.inl h))
    · exact .inr (.inr (.inr h))
    · exact .inr (.inl h)
  · rintro (h | h | h | h)
    · exact .inl (.inl (.inl h))
    · exact .inr h
    · exact .inl (.inl (.inr h))
    · exact .inl (.inr h)

theorem isDigit_of_startsName {c : Char} (h : startsName c = true) : isDigit c = false := by
  simp only [startsName, isLetter, isCapital, Bool.or_eq_true, Bool.and_eq_true, beq_iff_eq,
    decide_eq_true_eq] at h
  rcases h with (((⟨hlow, hhigh⟩ | ⟨hlow, hhigh⟩) | rfl) | rfl)
  · have hlow : 65 ≤ c.toNat := hlow
    rw [isDigit, Bool.and_eq_false_iff]
    refine .inr (decide_eq_false fun hdigit => ?_)
    have hdigit : c.toNat ≤ 57 := hdigit
    omega
  · have hlow : 97 ≤ c.toNat := hlow
    rw [isDigit, Bool.and_eq_false_iff]
    refine .inr (decide_eq_false fun hdigit => ?_)
    have hdigit : c.toNat ≤ 57 := hdigit
    omega
  · decide
  · decide

/-- A character begins a name if it stands in names and is no digit. -/
theorem startsName_iff {c : Char} : startsName c = true ↔ inName c = true ∧ isDigit c = false := by
  refine ⟨fun h => ⟨by rw [inName, h, Bool.true_or], isDigit_of_startsName h⟩, fun ⟨h, hdigit⟩ => ?_⟩
  rwa [inName, hdigit, Bool.or_false] at h

/-- A name is plain if its first character begins names and the others stand in names. -/
theorem plainName_iff {name : String} {c : Char} {rest : List Char} (h : name.toList = c :: rest) :
    PlainName name ↔ startsName c = true ∧ ∀ d ∈ rest, inName d = true := by
  constructor
  · intro hname
    have hchars : ∀ d ∈ c :: rest, inName d = true := fun d hd =>
      inName_iff.mpr (hname.chars d (h ▸ hd))
    have hstart := hname.start c (by rw [h, List.head?_cons])
    exact ⟨startsName_iff.mpr ⟨hchars c List.mem_cons_self, hstart⟩,
      fun d hd => hchars d (List.mem_cons_of_mem _ hd)⟩
  · rintro ⟨hstart, hrest⟩
    refine ⟨?_, fun d hd => ?_, fun d hd => ?_⟩
    · rintro rfl
      cases h
    · rw [h] at hd
      rcases List.mem_cons.mp hd with rfl | hd
      · exact inName_iff.mp (startsName_iff.mp hstart).1
      · exact inName_iff.mp (hrest d hd)
    · rw [h, List.head?_cons] at hd
      obtain rfl := Option.some.inj hd
      exact isDigit_of_startsName hstart

theorem allButNewline_iff {allowed : Char → Bool} {l : List Char} :
    allButNewline allowed l = true ↔
      (∀ c ∈ l, allowed c = true) ∨
        ∃ front, l = front ++ ['\n'] ∧ ∀ c ∈ front, allowed c = true := by
  induction l using allButNewline.induct with
  | case1 => simp [allButNewline]
  | case2 => simp [allButNewline]
  | case3 c rest hlast ih =>
    rw [allButNewline.eq_3 allowed c rest hlast, Bool.and_eq_true, ih]
    constructor
    · rintro ⟨hc, hall | ⟨front, rfl, hfront⟩⟩
      · exact .inl (List.forall_mem_cons.mpr ⟨hc, hall⟩)
      · exact .inr ⟨c :: front, rfl, List.forall_mem_cons.mpr ⟨hc, hfront⟩⟩
    · rintro (hall | ⟨_ | ⟨d, front⟩, hsplit, hfront⟩)
      · obtain ⟨hc, hall⟩ := List.forall_mem_cons.mp hall
        exact ⟨hc, .inl hall⟩
      · obtain ⟨rfl, rfl⟩ := List.cons.inj hsplit
        exact absurd rfl (hlast rfl)
      · obtain ⟨rfl, rfl⟩ := List.cons.inj hsplit
        obtain ⟨hc, hfront⟩ := List.forall_mem_cons.mp hfront
        exact ⟨hc, .inr ⟨front, rfl, hfront⟩⟩

/-- **A text passes for an identifier if it is a plain name, or one with a line feed at its end.** -/
theorem isIdentifier_iff {name : String} :
    isIdentifier name = true ↔
      PlainName name ∨ ∃ plain, PlainName plain ∧ name = plain ++ "\n" := by
  unfold isIdentifier isNameOf
  cases hname : name.toList with
  | nil =>
    refine ⟨nofun, ?_⟩
    rintro (h | ⟨plain, -, rfl⟩)
    · exact absurd (String.toList_eq_nil_iff.mp hname) h.nonempty
    · rw [String.toList_append] at hname
      cases (List.append_eq_nil_iff.mp hname).2
  | cons c rest =>
    rw [plainName_iff hname, Bool.and_eq_true, allButNewline_iff]
    constructor
    · rintro ⟨hstart, hall | ⟨front, rfl, hfront⟩⟩
      · exact .inl ⟨hstart, hall⟩
      · refine .inr ⟨String.ofList (c :: front), ?_, ?_⟩
        · exact (plainName_iff String.toList_ofList).mpr ⟨hstart, hfront⟩
        · rw [← String.toList_inj, hname, String.toList_append, String.toList_ofList]
          rfl
    · rintro (⟨hstart, hall⟩ | ⟨plain, hplain, rfl⟩)
      · exact ⟨hstart, .inl hall⟩
      · rw [String.toList_append] at hname
        cases hlist : plain.toList with
        | nil => exact absurd (String.toList_eq_nil_iff.mp hlist) hplain.nonempty
        | cons d front =>
          rw [hlist] at hname
          obtain ⟨rfl, rfl⟩ := List.cons.inj hname
          obtain ⟨hstart, hfront⟩ := (plainName_iff hlist).mp hplain
          exact ⟨hstart, .inr ⟨front, rfl, hfront⟩⟩

/-- Of the texts that pass for identifiers, those are no plain names that end with a line feed. -/
theorem plainName_iff_of_isIdentifier {name : String} (h : isIdentifier name = true) :
    PlainName name ↔ name.toList.getLast? ≠ some '\n' := by
  obtain hname | ⟨plain, -, rfl⟩ := isIdentifier_iff.mp h
  · refine ⟨fun _ hlast => ?_, fun _ => hname⟩
    have hfeed := hname.chars '\n' (List.mem_of_getLast? hlast)
    exact absurd hfeed (by decide)
  · have hlast : (plain ++ "\n").toList.getLast? = some '\n' := by
      rw [String.toList_append, List.getLast?_append]
      rfl
    refine ⟨fun hname => ?_, fun hnot => absurd hlast hnot⟩
    have hfeed := hname.chars '\n' (List.mem_of_getLast? hlast)
    exact absurd hfeed (by decide)

end Text

/-! ## Values -/

namespace Value

/-- What counts as a no has no digits too many. -/
theorem isWritable_of_isTruthy_eq_false {v : Value} (h : v.isTruthy = false) :
    v.isWritable = true := by
  cases v with
  | int n =>
    obtain rfl : n = 0 := by simpa [isTruthy] using h
    have hpos : ∀ digits, 0 < Nat.pow 10 digits := fun digits => Nat.pow_pos (by decide)
    rw [isWritable, Int.natAbs_zero, decide_eq_true_eq]
    exact hpos _
  | list items =>
    obtain rfl : items = [] := by simpa [isTruthy] using h
    rfl
  | table entries =>
    obtain rfl : entries = [] := by simpa [isTruthy] using h
    rfl
  | _ => rfl

theorem text?_eq_some_iff {v : Value} {t : String} : v.text? = some t ↔ v = .text t := by
  cases v <;> simp [text?]

end Value

namespace Settings

open Text (PlainName isIdentifier)

variable {s : Settings}

/-- Settings as they should be when they have been checked. -/
structure Checked (s : Settings) : Prop where
  style : ∃ t ∈ styles, s.defaultStyle = .text t
  mismatch : ∃ t ∈ strategies, s.mismatch = .text t
  suffix : ∃ t, s.suffix = .text t ∧ t ≠ "" ∧ '/' ∉ t.toList
  renames : ∀ e ∈ s.renames.entries, PlainName e.1 ∧ PlainName e.2

/-- An update that goes well: the settings are as they should be, or an error says why not. -/
def Clean : Except ConfigFault Settings → Prop
  | .ok s => s.Checked
  | .error fault => ∃ e, fault = .rejected e

/-- Both options are among those that are known. -/
def Known (s : Settings) : Prop :=
  isOneOf s.defaultStyle styles = true ∧ isOneOf s.mismatch strategies = true

/-- All old and new names pass for identifiers. -/
def Renamable (s : Settings) : Prop :=
  ∀ e ∈ s.renames.entries, isIdentifier e.1 = true ∧ isIdentifier e.2 = true

/-- The ways in which the checks of settings slip. -/
inductive Slip (s : Settings) : Prop where
  /-- The style is unknown and cannot be written out. -/
  | style (hstyle : isOneOf s.defaultStyle styles = false)
      (hwritable : s.defaultStyle.isWritable = false)
  /-- The strategy is unknown and cannot be written out. -/
  | mismatch (hstyle : isOneOf s.defaultStyle styles = true)
      (hmismatch : isOneOf s.mismatch strategies = false)
      (hwritable : s.mismatch.isWritable = false)
  /-- No slash can be looked for in the suffix. -/
  | unsearchable (hknown : s.Known) (htruthy : s.suffix.isTruthy = true)
      (hslash : hasSlash? s.suffix = none)
  /-- The suffix has a slash and cannot be written out. -/
  | unwritable (hknown : s.Known) (hslash : hasSlash? s.suffix = some true)
      (hwritable : s.suffix.isWritable = false)
  /-- The suffix is no text and passes. -/
  | noText (hknown : s.Known) (htruthy : s.suffix.isTruthy = true)
      (hslash : hasSlash? s.suffix = some false) (htext : s.suffix.text? = none)
      (hrenamable : s.Renamable)
  /-- A name ends with a line feed and passes. -/
  | lineFeed (hknown : s.Known) (hsuffix : checkSuffix s.suffix = .ok ())
      (hrenamable : s.Renamable) (e : String × String) (he : e ∈ s.renames.entries)
      (hfeed : e.1.toList.getLast? = some '\n' ∨ e.2.toList.getLast? = some '\n')

theorem isOneOf_iff {v : Value} {texts : List String} :
    isOneOf v texts = true ↔ ∃ t ∈ texts, v = .text t := by
  unfold isOneOf
  cases v <;> simp [Value.text?]

theorem clean_refused_iff {v : Value} {e : ConfigError} :
    Clean (.error (refused v e)) ↔ v.isWritable = true := by
  unfold refused
  cases v.isWritable <;> simp [Clean]

theorem badRename?_eq_none_iff {e : String × String} :
    badRename? e = none ↔ isIdentifier e.1 = true ∧ isIdentifier e.2 = true := by
  rw [badRename?, Option.map_eq_none_iff, List.find?_eq_none]
  simp

theorem findSome?_badRename?_iff :
    s.renames.entries.findSome? badRename? = none ↔ s.Renamable := by
  rw [List.findSome?_eq_none_iff]
  exact forall₂_congr fun e _ => badRename?_eq_none_iff

/-! ## The checks one by one -/

theorem validate_of_unknownStyle (h : isOneOf s.defaultStyle styles = false) :
    s.validate = .error (refused s.defaultStyle (.unknownStyle s.defaultStyle)) := by
  rw [validate, h]
  rfl

theorem validate_of_unknownMismatch (hstyle : isOneOf s.defaultStyle styles = true)
    (h : isOneOf s.mismatch strategies = false) :
    s.validate = .error (refused s.mismatch (.unknownMismatch s.mismatch)) := by
  rw [validate, hstyle, h]
  rfl

theorem validate_of_checkSuffix_eq_error (h : s.Known) {fault : ConfigFault}
    (hsuffix : checkSuffix s.suffix = .error fault) : s.validate = .error fault := by
  rw [validate, h.1, h.2, hsuffix]
  rfl

theorem validate_of_checkSuffix_eq_ok (h : s.Known) (hsuffix : checkSuffix s.suffix = .ok ()) :
    s.validate = match s.renames.entries.findSome? badRename? with
      | some e => .error (.rejected e)
      | none => .ok s := by
  rw [validate, h.1, h.2, hsuffix]
  cases s.renames.entries.findSome? badRename? <;> rfl

theorem checkSuffix_cases (v : Value) :
    (v.isTruthy = false ∧ checkSuffix v = .error (refused v (.invalidSuffix v))) ∨
    (v.isTruthy = true ∧ hasSlash? v = none ∧ checkSuffix v = .error (.notSearchable v)) ∨
    (v.isTruthy = true ∧ hasSlash? v = some true ∧
      checkSuffix v = .error (refused v (.invalidSuffix v))) ∨
    (v.isTruthy = true ∧ hasSlash? v = some false ∧ checkSuffix v = .ok ()) := by
  unfold checkSuffix
  cases v.isTruthy <;> rcases hasSlash? v with _ | _ | _ <;> simp

/-- What has passed all checks is as it should be if the suffix is a text and no name ends with a
line feed. -/
theorem checked_iff_of_passed (hknown : s.Known) (htruthy : s.suffix.isTruthy = true)
    (hslash : hasSlash? s.suffix = some false) (hrenamable : s.Renamable) :
    s.Checked ↔ s.suffix.text? ≠ none ∧ ∀ e ∈ s.renames.entries,
      e.1.toList.getLast? ≠ some '\n' ∧ e.2.toList.getLast? ≠ some '\n' := by
  have hnames : (∀ e ∈ s.renames.entries, PlainName e.1 ∧ PlainName e.2) ↔
      ∀ e ∈ s.renames.entries,
        e.1.toList.getLast? ≠ some '\n' ∧ e.2.toList.getLast? ≠ some '\n' :=
    forall₂_congr fun e he => and_congr
      (Text.plainName_iff_of_isIdentifier (hrenamable e he).1)
      (Text.plainName_iff_of_isIdentifier (hrenamable e he).2)
  constructor
  · intro h
    obtain ⟨t, ht, -⟩ := h.suffix
    exact ⟨by simp [ht, Value.text?], hnames.mp h.renames⟩
  · rintro ⟨htext, hfeed⟩
    obtain ⟨t, ht⟩ := Option.ne_none_iff_exists'.mp htext
    rw [Value.text?_eq_some_iff] at ht
    rw [ht] at htruthy hslash
    refine ⟨isOneOf_iff.mp hknown.1, isOneOf_iff.mp hknown.2, ⟨t, ht, ?_, ?_⟩, hnames.mpr hfeed⟩
    · simpa [Value.isTruthy] using htruthy
    · simpa [hasSlash?] using hslash

theorem validate_clean_iff_of_known (hknown : s.Known) : Clean s.validate ↔ ¬ s.Slip := by
  have hstyle := hknown.1
  have hmismatch := hknown.2
  obtain ⟨htruthy, hsuffix⟩ | ⟨htruthy, hslash, hsuffix⟩ | ⟨htruthy, hslash, hsuffix⟩ |
    ⟨htruthy, hslash, hsuffix⟩ := checkSuffix_cases s.suffix
  · -- a suffix that counts as a no is refused, and it can be written out
    have hwritable := Value.isWritable_of_isTruthy_eq_false htruthy
    rw [validate_of_checkSuffix_eq_error hknown hsuffix, clean_refused_iff]
    refine iff_of_true hwritable ?_
    rintro (_ | _ | _ | _ | _ | _) <;> simp_all
  · rw [validate_of_checkSuffix_eq_error hknown hsuffix]
    refine iff_of_false ?_ (not_not_intro (.unsearchable hknown htruthy hslash))
    rintro ⟨e, he⟩
    cases he
  · rw [validate_of_checkSuffix_eq_error hknown hsuffix, clean_refused_iff]
    constructor
    · rintro hwritable (_ | _ | _ | _ | _ | _) <;> simp_all
    · exact fun hslip => eq_true_of_ne_false fun hwritable =>
        hslip (.unwritable hknown hslash hwritable)
  · rw [validate_of_checkSuffix_eq_ok hknown hsuffix]
    cases hbad : s.renames.entries.findSome? badRename? with
    | some e =>
      have hnot : ¬ s.Renamable := fun h => by
        rw [findSome?_badRename?_iff.mpr h] at hbad
        cases hbad
      refine iff_of_true ⟨e, rfl⟩ ?_
      rintro (_ | _ | _ | _ | _ | _) <;> simp_all
    | none =>
      have hrenamable := findSome?_badRename?_iff.mp hbad
      refine (checked_iff_of_passed hknown htruthy hslash hrenamable).trans ?_
      constructor
      · rintro ⟨htext, hfeed⟩ hslip
        cases hslip with
        | lineFeed _ _ _ e he hends => exact hends.elim (hfeed e he).1 (hfeed e he).2
        | _ => simp_all
      · intro hslip
        refine ⟨fun htext => hslip (.noText hknown htruthy hslash htext hrenamable),
          fun e he => ⟨fun hends => ?_, fun hends => ?_⟩⟩
        · exact hslip (.lineFeed hknown hsuffix hrenamable e he (.inl hends))
        · exact hslip (.lineFeed hknown hsuffix hrenamable e he (.inr hends))

/-- **The checks of settings go well exactly if none of them slips.** -/
theorem validate_clean_iff (s : Settings) : Clean s.validate ↔ ¬ s.Slip := by
  cases hstyle : isOneOf s.defaultStyle styles with
  | false =>
    rw [validate_of_unknownStyle hstyle, clean_refused_iff]
    constructor
    · rintro hwritable (_ | _ | _ | _ | _ | _) <;> simp_all [Known]
    · exact fun hslip => eq_true_of_ne_false fun hwritable => hslip (.style hstyle hwritable)
  | true =>
    cases hmismatch : isOneOf s.mismatch strategies with
    | false =>
      rw [validate_of_unknownMismatch hstyle hmismatch, clean_refused_iff]
      constructor
      · rintro hwritable (_ | _ | _ | _ | _ | _) <;> simp_all [Known]
      · exact fun hslip => eq_true_of_ne_false fun hwritable =>
          hslip (.mismatch hstyle hmismatch hwritable)
    | true => exact validate_clean_iff_of_known ⟨hstyle, hmismatch⟩

/-! ## A table over settings -/

/-- The tag can be written out, if the suffix is made of it. -/
def TagWritable (data : Table Value) : Prop :=
  ∀ tag, data.get? "provenance_suffix" = none → data.get? "tag" = some tag →
    tag.isWritable = true

theorem checkTag_cases (data : Table Value) :
    (TagWritable data ∧ checkTag data = .ok ()) ∨
      (¬ TagWritable data ∧ ∃ tag, checkTag data = .error (.unwritable tag)) := by
  unfold checkTag TagWritable
  rcases data.get? "provenance_suffix" with _ | suffix <;> rcases data.get? "tag" with _ | tag
  · simp
  · cases hwritable : tag.isWritable <;> simp [hwritable]
  · simp
  · simp

/-- **Putting a table over settings goes well exactly if nothing slips**: a tag that the suffix is
made of can be written out, and the settings that come out pass their checks without a slip.  If the
table has something else where texts belong, an error says so. -/
theorem update_clean_iff (s : Settings) (data : Table Value) :
    Clean (s.update data) ↔
      ∀ s', s.override data = .ok s' → TagWritable data ∧ ¬ s'.Slip := by
  unfold update
  cases hover : s.override data with
  | error e => exact iff_of_true ⟨e, rfl⟩ nofun
  | ok s' =>
    obtain ⟨hwritable, htag⟩ | ⟨hnot, tag, htag⟩ := checkTag_cases data
    · rw [htag]
      refine (validate_clean_iff s').trans ⟨?_, fun h => (h s' rfl).2⟩
      rintro hslip _ ⟨⟩
      exact ⟨hwritable, hslip⟩
    · rw [htag]
      refine iff_of_false ?_ fun h => hnot (h s' rfl).1
      rintro ⟨e, he⟩
      cases he

/-- A suffix that is a number is neither accepted nor rejected. -/
example : ({} : Settings).update (Table.ofPairs [("provenance_suffix", .int 5)]) =
    .error (.notSearchable (.int 5)) := rfl

/-- A new name with a line feed at its end is accepted. -/
theorem line_feed_accepted :
    ¬ Clean (({} : Settings).update
      (Table.ofPairs [("rename_overrides", .table [("A", .text "B\n")])])) := by
  have hupdate : ({} : Settings).update
      (Table.ofPairs [("rename_overrides", .table [("A", .text "B\n")])]) =
        .ok { renames := Table.ofPairs [("A", "B\n")] } := rfl
  rw [hupdate]
  intro h
  have hname := (h.renames ("A", "B\n") (by decide)).2
  exact absurd (hname.chars '\n' (by decide)) (by decide)

end Settings

end Transplant
