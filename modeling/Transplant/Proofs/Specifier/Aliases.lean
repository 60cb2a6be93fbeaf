import Transplant.Specifier.Alias
import Mathlib.Data.List.Nodup

/-!
# Aliases carried from one project to another

An import names a file through the longest alias of the source project that it begins with.  The
redirects between two alias tables spell the directory of such an alias through the target.  If each
alias had a redirect of its own, every redirected import would name the same file as before.  But
an alias has none if the target spells its directory in the same way, or not at all, and then the
redirect of a shorter alias can take its place.

The redirect that is taken for an import depends on the alias alone.  So the aliases without a
redirect of their own have to be looked at, and nothing else: redirected imports keep their files
exactly if the target reads each such alias, after the redirect, as the directory that it stood for.

* `Alias.Denotes`: what a project means by a specifier
* `Redirects.match?_ofRules_iff`: the redirect that is taken is the longest that fits
* `Alias.Harmless`: the condition
* `Alias.redirected_files_kept_iff`: redirected imports keep their files under it, and only then
* `Alias.shared_alias_redirected`: an alias that both projects spell alike, and that is lost
-/

namespace Transplant

/-! ## Beginnings of texts -/

namespace Text

theorem startsWith_append (lead rest : String) : startsWith (lead ++ rest) lead = true := by
  rw [startsWith_iff, String.toList_append]
  exact List.prefix_append _ _

@[simp] theorem drop_append_size (lead rest : String) : drop (lead ++ rest) (size lead) = rest := by
  rw [← String.toList_inj]
  simp [size]

theorem append_drop {s lead : String} (h : startsWith s lead = true) :
    lead ++ drop s (size lead) = s := by
  obtain ⟨rest, hrest⟩ := startsWith_iff.mp h
  rw [← String.toList_inj, String.toList_append, toList_drop, ← hrest, size, List.drop_left]

theorem startsWith_trans {s t u : String} (hst : startsWith s t = true)
    (htu : startsWith t u = true) : startsWith s u = true :=
  startsWith_iff.mpr ((startsWith_iff.mp htu).trans (startsWith_iff.mp hst))

/-- Of two beginnings of a text the shorter one is a beginning of the longer one. -/
theorem startsWith_of_size_le {s t u : String} (ht : startsWith s t = true)
    (hu : startsWith s u = true) (h : size u ≤ size t) : startsWith t u = true :=
  startsWith_iff.mpr
    (List.prefix_of_prefix_length_le (startsWith_iff.mp hu) (startsWith_iff.mp ht) h)

theorem eq_of_startsWith_of_size {s t u : String} (ht : startsWith s t = true)
    (hu : startsWith s u = true) (h : size t = size u) : t = u := by
  rw [← String.toList_inj]
  exact (List.prefix_of_prefix_length_le (startsWith_iff.mp ht) (startsWith_iff.mp hu)
    (Nat.le_of_eq h)).eq_of_length h

/-- A text that ends in a slash does not end in a star. -/
theorem withoutStar_of_slash {s : String} (h : endsWith s "/" = true) :
    Redirect.withoutStar s = s := by
  have hstar : endsWith s "*" = false := by
    rw [Bool.eq_false_iff]
    intro hstar
    obtain ⟨l, hl⟩ := endsWith_iff.mp h
    obtain ⟨m, hm⟩ := endsWith_iff.mp hstar
    have hlast := congrArg List.getLast? (hl.trans hm.symm)
    simp at hlast
  simp [Redirect.withoutStar, hstar]

end Text

namespace Table

variable {α : Type}

/-- Pairs with different keys are the entries of their table. -/
theorem mem_ofPairs_iff {pairs : List (String × α)} (h : (pairs.map (·.1)).Nodup)
    {e : String × α} : e ∈ (ofPairs pairs).entries ↔ e ∈ pairs := by
  have hreverse : (pairs.reverse.map (·.1)).Nodup := by
    rw [List.map_reverse]
    exact List.nodup_reverse.mpr h
  rw [mem_entries_iff, get?_ofPairs, ← List.mem_reverse]
  exact (mem_entries_iff (t := ⟨pairs.reverse, hreverse⟩)).symm

/-- What becomes of entries that keep their keys or go has no key twice. -/
theorem nodup_keys_filterMap {β : Type} {f : String × α → Option (String × β)}
    (hf : ∀ e e', f e = some e' → e'.1 = e.1) (t : Table α) :
    ((t.entries.filterMap f).map (·.1)).Nodup := by
  have hsublist (l : List (String × α)) :
      ((l.filterMap f).map (·.1)).Sublist (l.map (·.1)) := by
    induction l with
    | nil => exact .refl _
    | cons e rest ih =>
      cases he : f e with
      | none =>
        rw [List.filterMap_cons_none he, List.map_cons]
        exact .cons _ ih
      | some e' =>
        rw [List.filterMap_cons_some he, List.map_cons, List.map_cons, hf e e' he]
        exact .cons_cons _ ih
  exact t.distinct.sublist (hsublist t.entries)

/-- The entries of a table of pairs are among these. -/
theorem mem_of_mem_ofPairs {pairs : List (String × α)} {e : String × α}
    (h : e ∈ (ofPairs pairs).entries) : e ∈ pairs := by
  rw [mem_entries_iff, get?_ofPairs] at h
  rw [← List.mem_reverse]
  obtain ⟨before, after, hsplit, -⟩ := List.lookup_eq_some_iff.mp h
  rw [hsplit]
  exact List.mem_append_right _ List.mem_cons_self

end Table

/-! ## The longest redirect that fits -/

namespace Redirects

variable {rules : List Redirect} {specifier : String} {r : Redirect}

theorem match?_ofRules_cases (h : (ofRules rules).match? specifier = some r) :
    r ∈ rules ∧ r.applies specifier = true ∧
      ∀ q ∈ rules, q.applies specifier = true → Text.size q.lead ≤ Text.size r.lead := by
  obtain ⟨hr, before, after, hsplit, hbefore⟩ := List.find?_eq_some_iff_append.mp h
  have hsorted : (before ++ r :: after).Pairwise fun a b => Redirect.notShorter a b = true := by
    rw [← hsplit]
    exact List.pairwise_mergeSort (by simp [Redirect.notShorter]; omega)
      (by simp [Redirect.notShorter]; omega) rules
  have hmem (q : Redirect) : q ∈ rules ↔ q ∈ before ++ r :: after := by
    rw [← hsplit]
    exact List.mem_mergeSort.symm
  refine ⟨(hmem r).mpr (List.mem_append_right _ List.mem_cons_self), hr, fun q hq hfits => ?_⟩
  rcases List.mem_append.mp ((hmem q).mp hq) with hq | hq
  · simpa [hfits] using hbefore q hq
  · rcases List.mem_cons.mp hq with rfl | hq
    · exact Nat.le_refl _
    · exact of_decide_eq_true ((List.pairwise_cons.mp (List.pairwise_append.mp hsorted).2.1).1 q hq)

/-- **The redirect that is taken is the longest of those that fit**, if no two begin alike. -/
theorem match?_ofRules_iff (h : ∀ q ∈ rules, ∀ q' ∈ rules, q.lead = q'.lead → q = q') :
    (ofRules rules).match? specifier = some r ↔
      r ∈ rules ∧ r.applies specifier = true ∧
        ∀ q ∈ rules, q.applies specifier = true → Text.size q.lead ≤ Text.size r.lead := by
  refine ⟨match?_ofRules_cases, fun ⟨hr, hfits, hlongest⟩ => ?_⟩
  cases hmatch : (ofRules rules).match? specifier with
  | none =>
    have hnone := List.find?_eq_none.mp hmatch r (List.mem_mergeSort.mpr hr)
    exact absurd hfits hnone
  | some q =>
    obtain ⟨hq, hqfits, hqlongest⟩ := match?_ofRules_cases hmatch
    have hsize := Nat.le_antisymm (hlongest q hq hqfits) (hqlongest r hr hfits)
    exact congrArg some (h q hq r hr (Text.eq_of_startsWith_of_size
      ((Bool.and_eq_true _ _).mp hqfits).1 ((Bool.and_eq_true _ _).mp hfits).1 hsize))

end Redirects

/-! ## Alias tables -/

namespace Alias

/-- The aliases of a table stand for whole directories.  They end in a slash, and so do their
directories, except for the project itself. -/
structure Whole (t : Table String) : Prop where
  aliases : ∀ e ∈ t.entries, Text.endsWith e.1 "/" = true
  directories : ∀ e ∈ t.entries, e.2 = "" ∨ Text.endsWith e.2 "/" = true

theorem directory?_cases {base : String} {targets : Value} {d : String}
    (h : directory? base targets = some d) : d = "" ∨ Text.endsWith d "/" = true := by
  unfold directory? at h
  split at h
  · split at h
    · dsimp only at h
      split at h
      · cases h
      · obtain rfl := Option.some.inj h
        split
        · exact Or.inl rfl
        · refine Or.inr (Text.endsWith_iff.mpr ?_)
          rw [String.toList_append]
          exact List.suffix_append _ _
    · cases h
  · cases h

/-- The aliases that a project declares stand for whole directories as soon as they end in a
slash. -/
theorem whole_ofPaths {paths : Table Value} {base : String}
    (h : ∀ a ∈ (ofPaths paths base).keys, Text.endsWith a "/" = true) :
    Whole (ofPaths paths base) where
  aliases e he := h e.1 (List.mem_map_of_mem he)
  directories e he := by
    obtain ⟨entry, -, hentry⟩ := List.mem_filterMap.mp (Table.mem_of_mem_ofPairs he)
    unfold ofMapping? at hentry
    split at hentry
    · obtain ⟨d, hd, rfl⟩ := Option.map_eq_some_iff.mp hentry
      exact directory?_cases hd
    · cases hentry

/-- Some alias of a table reads a specifier as a path. -/
def Reads (t : Table String) (specifier path : String) : Prop :=
  ∃ e ∈ t.entries, ∃ rest, specifier = e.1 ++ rest ∧ path = e.2 ++ rest

/-- The longest alias of a table that a specifier begins with reads it as a path. -/
def Denotes (t : Table String) (specifier path : String) : Prop :=
  ∃ e ∈ t.entries, (∃ rest, specifier = e.1 ++ rest ∧ path = e.2 ++ rest) ∧
    ∀ e' ∈ t.entries, Text.startsWith specifier e'.1 = true → Text.size e'.1 ≤ Text.size e.1

variable {S T : Table String} {specifier path : String}

theorem Reads.append (h : Reads T specifier path) (rest : String) :
    Reads T (specifier ++ rest) (path ++ rest) := by
  obtain ⟨e, he, tail, rfl, rfl⟩ := h
  exact ⟨e, he, tail ++ rest, String.append_assoc .., String.append_assoc ..⟩

/-- Every alias denotes its own directory. -/
theorem denotes_alias {e : String × String} (he : e ∈ S.entries) : Denotes S e.1 e.2 := by
  refine ⟨e, he, ⟨"", by simp, by simp⟩, fun e' _ hlead => ?_⟩
  exact (Text.startsWith_iff.mp hlead).length_le

/-! ### Redirects between two tables -/

theorem redirect_iff {entry e : String × String} :
    ((spell? entry.2 T).bind fun new => if new = entry.1 then none else some (entry.1, new)) =
      some e ↔ entry.1 = e.1 ∧ spell? entry.2 T = some e.2 ∧ e.2 ≠ e.1 := by
  obtain ⟨old, new⟩ := e
  rw [Option.bind_eq_some_iff]
  constructor
  · rintro ⟨x, hx, h⟩
    split at h
    · cases h
    · rename_i hne
      obtain ⟨rfl, rfl⟩ := Prod.mk.inj (Option.some.inj h)
      exact ⟨rfl, hx, hne⟩
  · rintro ⟨rfl, hspell, hne⟩
    exact ⟨new, hspell, if_neg hne⟩

/-- The redirects are the aliases that the target spells in another way. -/
theorem mem_redirects_iff {e : String × String} :
    e ∈ (redirects S T).entries ↔
      ∃ d, (e.1, d) ∈ S.entries ∧ spell? d T = some e.2 ∧ e.2 ≠ e.1 := by
  rw [redirects, Table.mem_ofPairs_iff
    (Table.nodup_keys_filterMap (fun _ _ h => (redirect_iff.mp h).1.symm) S), List.mem_filterMap]
  constructor
  · rintro ⟨entry, hentry, h⟩
    obtain ⟨hold, hspell, hne⟩ := redirect_iff.mp h
    exact ⟨entry.2, hold ▸ hentry, hspell, hne⟩
  · rintro ⟨d, hentry, hspell, hne⟩
    exact ⟨(e.1, d), hentry, redirect_iff.mpr ⟨rfl, hspell, hne⟩⟩

theorem foldl_better_cases {l : List (String × String)} {start : Option (String × String)}
    {e : String × String} (h : l.foldl better start = some e) : e ∈ l ∨ start = some e := by
  induction l generalizing start with
  | nil => exact Or.inr h
  | cons next rest ih =>
    rcases ih h with hrest | hstep
    · exact Or.inl (List.mem_cons_of_mem _ hrest)
    · unfold better at hstep
      split at hstep
      · exact Or.inl (Option.some.inj hstep ▸ List.mem_cons_self)
      · split at hstep
        · exact Or.inl (Option.some.inj hstep ▸ List.mem_cons_self)
        · exact Or.inr hstep

/-- The best alias for a path is one of the table, and the path begins with its directory. -/
theorem best?_cases {e : String × String} (h : best? T path = some e) :
    e ∈ T.entries ∧ Text.startsWith path e.2 = true := by
  have hmem := (foldl_better_cases h).resolve_right nofun
  obtain ⟨hentry, hlead⟩ := List.mem_filter.mp hmem
  exact ⟨List.mem_mergeSort.mp hentry, hlead⟩

/-- What a path is spelled as is read as that path. -/
theorem reads_of_spell? {spelling : String} (h : spell? path T = some spelling) :
    Reads T spelling path := by
  obtain ⟨e, he, rfl⟩ := Option.map_eq_some_iff.mp h
  obtain ⟨hentry, hlead⟩ := best?_cases he
  exact ⟨e, hentry, _, rfl, (Text.append_drop hlead).symm⟩

/-- A whole directory is spelled as a whole directory. -/
theorem slash_of_spell? {d spelling : String} (hT : Whole T)
    (hd : d = "" ∨ Text.endsWith d "/" = true) (h : spell? d T = some spelling) :
    Text.endsWith spelling "/" = true := by
  obtain ⟨e, he, rest, rfl, rfl⟩ := reads_of_spell? h
  rw [Text.endsWith_iff, String.toList_append]
  by_cases hrest : rest.toList = []
  · rw [hrest, List.append_nil]
    exact Text.endsWith_iff.mp (hT.aliases e he)
  · -- the slash at the end of the directory is that of the rest
    have hslash : "/".toList <:+ e.2.toList ++ rest.toList := by
      rw [← String.toList_append]
      refine Text.endsWith_iff.mp (hd.resolve_left fun hempty => hrest ?_)
      exact (List.append_eq_nil_iff.mp ((String.toList_append ..).symm.trans
        (congrArg String.toList hempty))).2
    have hlast : "/".toList <:+ rest.toList :=
      List.suffix_of_suffix_length_le hslash (List.suffix_append _ _)
        (List.length_pos_iff.mpr hrest)
    exact hlast.trans (List.suffix_append _ _)

/-- The redirect between two tables that is taken for a specifier: the longest of those whose alias
the specifier begins with. -/
def Takes (S T : Table String) (specifier : String) (rule : String × String) : Prop :=
  rule ∈ (redirects S T).entries ∧ Text.startsWith specifier rule.1 = true ∧
    ∀ q ∈ (redirects S T).entries, Text.startsWith specifier q.1 = true →
      Text.size q.1 ≤ Text.size rule.1

/-- A table of redirects between whole directories is used as it stands. -/
theorem ofTable_redirects (hS : Whole S) (hT : Whole T) :
    Redirects.ofTable (redirects S T) =
      Redirects.ofRules ((redirects S T).entries.map fun e => ⟨e.1, e.2⟩) := by
  refine congrArg Redirects.ofRules (List.map_congr_left fun e he => ?_)
  obtain ⟨d, hd, hspell, -⟩ := mem_redirects_iff.mp he
  rw [Redirect.ofEntry, Text.withoutStar_of_slash (hS.aliases (e.1, d) hd),
    Text.withoutStar_of_slash (slash_of_spell? hT (hS.directories (e.1, d) hd) hspell)]

theorem applies_iff (hS : Whole S) {e : String × String} (he : e ∈ (redirects S T).entries) :
    (⟨e.1, e.2⟩ : Redirect).applies specifier = true ↔ Text.startsWith specifier e.1 = true := by
  obtain ⟨d, hd, -, -⟩ := mem_redirects_iff.mp he
  have hslash : Text.endsWith e.1 "/" = true := hS.aliases (e.1, d) hd
  simp [Redirect.applies, hslash]

/-- A specifier is redirected by the redirect that is taken for it. -/
theorem resolve?_redirects_iff (hS : Whole S) (hT : Whole T) {new : String} :
    (Redirects.ofTable (redirects S T)).resolve? specifier = some new ↔
      ∃ rule, Takes S T specifier rule ∧
        new = rule.2 ++ Text.drop specifier (Text.size rule.1) := by
  have hapart : ∀ q ∈ (redirects S T).entries.map fun e => (⟨e.1, e.2⟩ : Redirect),
      ∀ q' ∈ (redirects S T).entries.map fun e => (⟨e.1, e.2⟩ : Redirect),
        q.lead = q'.lead → q = q' := by
    simp only [List.mem_map]
    rintro _ ⟨e, he, rfl⟩ _ ⟨e', he', rfl⟩ hlead
    have hsame : e = e' := List.inj_on_of_nodup_map (redirects S T).distinct he he' hlead
    rw [hsame]
  rw [ofTable_redirects hS hT, Redirects.resolve?, Option.map_eq_some_iff]
  constructor
  · rintro ⟨r, hr, rfl⟩
    obtain ⟨hmem, hfits, hlongest⟩ := (Redirects.match?_ofRules_iff hapart).mp hr
    obtain ⟨e, he, rfl⟩ := List.mem_map.mp hmem
    refine ⟨e, ⟨he, (applies_iff hS he).mp hfits, fun q hq hlead => ?_⟩, rfl⟩
    exact hlongest _ (List.mem_map_of_mem hq) ((applies_iff hS hq).mpr hlead)
  · rintro ⟨e, ⟨he, hlead, hlongest⟩, rfl⟩
    refine ⟨⟨e.1, e.2⟩, (Redirects.match?_ofRules_iff hapart).mpr
      ⟨List.mem_map_of_mem he, (applies_iff hS he).mpr hlead, fun q hq hfits => ?_⟩, rfl⟩
    obtain ⟨e', he', rfl⟩ := List.mem_map.mp hq
    exact hlongest e' he' ((applies_iff hS he').mp hfits)

/-! ### Redirects and files -/

/-- The redirect that is taken for a specifier is the one that is taken for the longest alias that
it begins with. -/
theorem Takes.of_append {e rule : String × String} {rest : String}
    (h : Takes S T (e.1 ++ rest) rule)
    (hlongest : ∀ e' ∈ S.entries, Text.startsWith (e.1 ++ rest) e'.1 = true →
      Text.size e'.1 ≤ Text.size e.1) : Takes S T e.1 rule := by
  obtain ⟨hrule, hlead, htaken⟩ := h
  obtain ⟨d, hd, -, -⟩ := mem_redirects_iff.mp hrule
  have hbegins := Text.startsWith_append e.1 rest
  exact ⟨hrule, Text.startsWith_of_size_le hbegins hlead (hlongest (rule.1, d) hd hlead),
    fun q hq hqlead => htaken q hq (Text.startsWith_trans hbegins hqlead)⟩

/-- An alias with a redirect of its own is read as its directory. -/
theorem reads_of_own {e rule : String × String} (he : e ∈ S.entries)
    (hrule : rule ∈ (redirects S T).entries) (hown : rule.1 = e.1) : Reads T rule.2 e.2 := by
  obtain ⟨d, hd, hspell, -⟩ := mem_redirects_iff.mp hrule
  rw [hown] at hd
  have hsame := Option.some.inj
    ((Table.mem_entries_iff.mp hd).symm.trans (Table.mem_entries_iff.mp he))
  exact hsame ▸ reads_of_spell? hspell

/-- The aliases without a redirect of their own do no harm: if another redirect is taken for one of
them, the target reads the result as the directory of the alias. -/
def Harmless (S T : Table String) : Prop :=
  ∀ e ∈ S.entries, ∀ rule ∈ (redirects S T).entries, Takes S T e.1 rule → rule.1 ≠ e.1 →
    Reads T (rule.2 ++ Text.drop e.1 (Text.size rule.1)) e.2

theorem kept_of_harmless (hS : Whole S) (hT : Whole T) (h : Harmless S T) {new : String}
    (hdenotes : Denotes S specifier path)
    (hnew : (Redirects.ofTable (redirects S T)).resolve? specifier = some new) :
    Reads T new path := by
  obtain ⟨e, he, ⟨rest, rfl, rfl⟩, hlongest⟩ := hdenotes
  obtain ⟨rule, htakes, rfl⟩ := (resolve?_redirects_iff hS hT).mp hnew
  have halias := htakes.of_append hlongest
  have hreads : Reads T (rule.2 ++ Text.drop e.1 (Text.size rule.1)) e.2 := by
    by_cases hown : rule.1 = e.1
    · have hnothing : Text.drop e.1 (Text.size rule.1) = "" := by
        rw [hown]
        exact (by simpa using Text.drop_append_size e.1 "")
      rw [hnothing, String.append_empty]
      exact reads_of_own he htakes.1 hown
    · exact h e he rule htakes.1 halias hown
  have hdrop : Text.drop (e.1 ++ rest) (Text.size rule.1) =
      Text.drop e.1 (Text.size rule.1) ++ rest := by
    obtain ⟨tail, htail⟩ : ∃ tail, e.1 = rule.1 ++ tail := ⟨_, (Text.append_drop halias.2.1).symm⟩
    rw [htail, String.append_assoc, Text.drop_append_size, Text.drop_append_size]
  rw [hdrop, ← String.append_assoc]
  exact hreads.append rest

/-- **Redirected imports keep their files exactly if no alias without a redirect does harm.**  Take
the aliases that two projects declare, which are to end in slashes.  Every specifier that denotes a
file in the first project, and is redirected, is read as this very file by the second project if and
only if the aliases without a redirect of their own are harmless. -/
theorem redirected_files_kept_iff (paths paths' : Table Value) (base base' : String)
    (hS : ∀ a ∈ (ofPaths paths base).keys, Text.endsWith a "/" = true)
    (hT : ∀ a ∈ (ofPaths paths' base').keys, Text.endsWith a "/" = true) :
    (∀ specifier path new, Denotes (ofPaths paths base) specifier path →
      (Redirects.ofTable (redirects (ofPaths paths base) (ofPaths paths' base'))).resolve?
        specifier = some new → Reads (ofPaths paths' base') new path) ↔
      Harmless (ofPaths paths base) (ofPaths paths' base') := by
  have hwhole := whole_ofPaths hS
  have hwhole' := whole_ofPaths hT
  constructor
  · intro h e he rule hrule htakes hother
    exact h e.1 e.2 _ (denotes_alias he)
      ((resolve?_redirects_iff hwhole hwhole').mpr ⟨rule, htakes, rfl⟩)
  · intro h specifier path new hdenotes hnew
    exact kept_of_harmless hwhole hwhole' h hdenotes hnew

/-! ### An alias that both projects spell alike -/

instance (T : Table String) (specifier path : String) : Decidable (Reads T specifier path) :=
  decidable_of_iff (∃ e ∈ T.entries, Text.startsWith specifier e.1 = true ∧
      path = e.2 ++ Text.drop specifier (Text.size e.1))
    ⟨fun ⟨e, he, hlead, hpath⟩ => ⟨e, he, _, (Text.append_drop hlead).symm, hpath⟩, by
      rintro ⟨e, he, rest, rfl, rfl⟩
      exact ⟨e, he, Text.startsWith_append e.1 rest, by rw [Text.drop_append_size]⟩⟩

/-- A project that calls `src` by `@/`, and some directory by `@/ui/`. -/
def atUi (ui : String) : Table String :=
  ofPaths (Table.ofPairs [("@/*", .list [.text "src/*"]), ("@/ui/*", .list [.text ui])]) "."

/-- A project that calls `src` by `~/`, and some directory by `@/ui/`. -/
def tildeUi (ui : String) : Table String :=
  ofPaths (Table.ofPairs [("@/ui/*", .list [.text ui]), ("~/*", .list [.text "src/*"])]) "."

theorem sorted_of_pairwise {t : Table String}
    (h : t.entries.Pairwise fun a b => Text.notAfter a.1 b.1 = true) : sorted t = t.entries :=
  List.mergeSort_of_pairwise h

/-- Only the first alias is redirected, as the other one is spelled in the same way. -/
theorem redirects_inside : redirects (atUi "src/ui/*") (tildeUi "src/ui/*") =
    Table.ofPairs [("@/", "~/")] := by
  have hsorted : sorted (tildeUi "src/ui/*") = [("@/ui/", "src/ui/"), ("~/", "src/")] :=
    sorted_of_pairwise (by decide)
  simp only [redirects, spell?, best?, hsorted]
  decide

theorem redirects_elsewhere : redirects (atUi "lib/ui/*") (tildeUi "lib/ui/*") =
    Table.ofPairs [("@/", "~/")] := by
  have hsorted : sorted (tildeUi "lib/ui/*") = [("@/ui/", "lib/ui/"), ("~/", "src/")] :=
    sorted_of_pairwise (by decide)
  simp only [redirects, spell?, best?, hsorted]
  decide

/-- The redirect of the shorter alias does no harm to one for a directory inside. -/
theorem inner_alias_kept :
    Denotes (atUi "src/ui/*") "@/ui/Button" "src/ui/Button" ∧
    Reads (tildeUi "src/ui/*") "~/ui/Button" "src/ui/Button" := by
  have hharmless : Harmless (atUi "src/ui/*") (tildeUi "src/ui/*") := by
    unfold Harmless Takes
    rw [redirects_inside]
    decide
  have hdenotes : Denotes (atUi "src/ui/*") "@/ui/Button" "src/ui/Button" :=
    ⟨("@/ui/", "src/ui/"), by decide, ⟨"Button", rfl, rfl⟩, by decide⟩
  refine ⟨hdenotes, (redirected_files_kept_iff _ _ "." "." ?_ ?_).mpr hharmless _ _ _ hdenotes ?_⟩
  · decide
  · decide +kernel
  · change (Redirects.ofTable (redirects (atUi "src/ui/*") (tildeUi "src/ui/*"))).resolve? _ = _
    rw [redirects_inside]
    decide +kernel

/-- **An alias that both projects spell in the same way is redirected all the same**, if a shorter
one is.  The import would be read in the same way as before if it was left alone. -/
theorem shared_alias_redirected :
    (∀ a ∈ (atUi "lib/ui/*").keys ++ (tildeUi "lib/ui/*").keys, Text.endsWith a "/" = true) ∧
    Denotes (atUi "lib/ui/*") "@/ui/Button" "lib/ui/Button" ∧
    Reads (tildeUi "lib/ui/*") "@/ui/Button" "lib/ui/Button" ∧
    (Redirects.ofTable (redirects (atUi "lib/ui/*") (tildeUi "lib/ui/*"))).resolve? "@/ui/Button" =
      some "~/ui/Button" ∧
    ¬Reads (tildeUi "lib/ui/*") "~/ui/Button" "lib/ui/Button" := by
  refine ⟨by decide, ⟨("@/ui/", "lib/ui/"), ?_, ⟨"Button", rfl, rfl⟩, ?_⟩, ?_, ?_, ?_⟩
  · decide
  · decide +kernel
  · decide +kernel
  · rw [redirects_elsewhere]
    decide +kernel
  · decide +kernel

end Alias
end Transplant
