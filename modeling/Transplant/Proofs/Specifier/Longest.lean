import Transplant.Proofs.Specifier.Aliases

/-!
# The longest beginning counts

Of several redirects that fit a specifier the one with the longest beginning is taken.  The code
finds it by sorting: it puts longer beginnings first, and takes the first redirect that fits.  What
is asked of the result is said here without any sorting.

## Two redirects that begin alike

The order in which redirects are given matters only for those with the same beginning.  Such pairs
are common, since a table may have entries for `@/` and for `@/*`, which mean the same.  The sort is
stable, so it keeps them in order, and whether a redirect fits depends on its beginning alone.
Hence the redirect that is taken is the first of those that begin like it (`find?_lead`).

## Looking behind the beginning

A beginning has to end where a component of the specifier ends, which is seen from the character
behind it.  `Redirect.probe?` looks this character up by its place, and `Redirects.search?` goes
through the redirects in this way.  Neither ever looks behind the end of the specifier.

* `Redirect.Fits`: what it means that a redirect fits
* `Redirects.Taken`: the redirect that should be taken
* `Redirects.LongestFirst`: redirects that work in this way
* `Redirects.Stands`: the redirect that an entry of a table stands for
* `Redirects.longest_lead_taken`: all redirects do, from a list or from a table
-/

namespace Transplant

/-! ## One redirect -/

namespace Redirect

/-- A redirect fits a specifier that begins like it, up to the border of a component: the beginning
ends with a slash, or nothing or a slash comes after it. -/
def Fits (r : Redirect) (specifier : String) : Prop :=
  ∃ rest, specifier = r.lead ++ rest ∧
    (Text.endsWith r.lead "/" = true ∨ rest = "" ∨ Text.startsWith rest "/" = true)

/-- Whether a redirect fits, by looking up the character behind its beginning.  There is no answer
if there is no such character. -/
def probe? (r : Redirect) (specifier : String) : Option Bool :=
  if Text.startsWith specifier r.lead then
    if Text.endsWith r.lead "/" || Text.size specifier == Text.size r.lead then some true
    else specifier.toList[Text.size r.lead]?.map (· == '/')
  else some false

variable {r : Redirect} {specifier : String}

theorem applies_lead_append {rest : String} :
    r.applies (r.lead ++ rest) =
      (Text.endsWith r.lead "/" || rest.toList.head?.all (· == '/')) := by
  have hdrop : (r.lead ++ rest).toList.drop (Text.size r.lead) = rest.toList := by
    rw [String.toList_append, Text.size, List.drop_left]
  rw [applies, Text.startsWith_append, hdrop, Bool.true_and]
  cases rest.toList <;> rfl

theorem applies_iff_fits : r.applies specifier = true ↔ r.Fits specifier := by
  have hborder (rest : String) : rest.toList.head?.all (· == '/') = true ↔
      rest = "" ∨ Text.startsWith rest "/" = true := by
    have hslash : "/".toList = ['/'] := rfl
    rw [← String.toList_eq_nil_iff, Text.startsWith_iff, hslash]
    cases rest.toList with
    | nil => simp
    | cons c tail =>
      rw [List.cons_prefix_cons, List.head?_cons, Option.all_some, beq_iff_eq]
      exact ⟨fun h => Or.inr ⟨h.symm, List.nil_prefix⟩, fun h => (h.resolve_left nofun).1.symm⟩
  constructor
  · intro h
    obtain ⟨rest, rfl⟩ : ∃ rest, specifier = r.lead ++ rest :=
      ⟨_, (Text.append_drop ((Bool.and_eq_true _ _).mp h).1).symm⟩
    rw [applies_lead_append, Bool.or_eq_true, hborder] at h
    exact ⟨rest, rfl, h⟩
  · rintro ⟨rest, rfl, h⟩
    rw [applies_lead_append, Bool.or_eq_true, hborder]
    exact h

/-- There always is a character to look up. -/
theorem probe?_eq (r : Redirect) (specifier : String) :
    r.probe? specifier = some (r.applies specifier) := by
  unfold probe?
  split
  · rename_i hstart
    obtain ⟨rest, rfl⟩ : ∃ rest, specifier = r.lead ++ rest := ⟨_, (Text.append_drop hstart).symm⟩
    have hlength : Text.size (r.lead ++ rest) = Text.size r.lead + rest.toList.length := by
      rw [Text.size, String.toList_append, List.length_append, Text.size]
    have hbehind : (r.lead ++ rest).toList[Text.size r.lead]? = rest.toList.head? := by
      rw [String.toList_append, Text.size, List.getElem?_append_right (Nat.le_refl _),
        Nat.sub_self, ← List.head?_eq_getElem?]
    rw [applies_lead_append, hlength, hbehind]
    cases Text.endsWith r.lead "/" with
    | true => rfl
    | false => cases rest.toList <;> simp
  · rename_i hstart
    rw [applies, Bool.eq_false_iff.mpr hstart, Bool.false_and]

/-- What a redirect makes of a specifier that begins like it. -/
theorem apply_lead_append (r : Redirect) (rest : String) :
    r.apply (r.lead ++ rest) = r.replacement ++ rest := by
  rw [apply, Text.drop_append_size]

end Redirect

/-! ## Several redirects -/

namespace Redirects

/-- The first redirect that fits, found by looking up characters. -/
def search? (specifier : String) : List Redirect → Option (Option Redirect)
  | [] => some none
  | r :: rest => (r.probe? specifier).bind fun fits =>
    if fits then some (some r) else search? specifier rest

theorem search?_eq (specifier : String) (rules : List Redirect) :
    search? specifier rules = some (rules.find? (·.applies specifier)) := by
  induction rules with
  | nil => rfl
  | cons r rest ih =>
    rw [search?, Redirect.probe?_eq, Option.bind_some, List.find?_cons]
    cases r.applies specifier with
    | true => rfl
    | false => exact ih

/-- Among the given redirects `r` is the one to take for a specifier: it fits, none that fits has a
longer beginning, and it is the first with its beginning. -/
structure Taken (given : List Redirect) (specifier : String) (r : Redirect) : Prop where
  fits : r.Fits specifier
  longest : ∀ q ∈ given, q.Fits specifier → Text.size q.lead ≤ Text.size r.lead
  first : ∃ before after, given = before ++ r :: after ∧ ∀ q ∈ before, q.lead ≠ r.lead

variable {rules : List Redirect} {specifier : String} {r : Redirect}

/-- A stable sort keeps elements in order that it may not tell apart. -/
theorem filter_mergeSort {α : Type} {le : α → α → Bool} {p : α → Bool}
    (htrans : ∀ a b c, le a b = true → le b c = true → le a c = true)
    (htotal : ∀ a b, (le a b || le b a) = true)
    (htied : ∀ a b, p a = true → p b = true → le a b = true) (l : List α) :
    (l.mergeSort le).filter p = l.filter p := by
  have hordered : (l.filter p).Pairwise fun a b => le a b = true := by
    refine List.pairwise_of_forall_mem_list fun a ha b hb => ?_
    exact htied a b (List.mem_filter.mp ha).2 (List.mem_filter.mp hb).2
  have hsublist : (l.filter p).Sublist (l.mergeSort le) :=
    List.sublist_mergeSort htrans htotal hordered List.filter_sublist
  have hfiltered := hsublist.filter p
  rw [List.filter_filter, funext fun a => Bool.and_self (p a)] at hfiltered
  exact (hfiltered.eq_of_length ((List.mergeSort_perm l le).filter p).length_eq.symm).symm

theorem notShorter_trans (a b c : Redirect) (hab : a.notShorter b = true)
    (hbc : b.notShorter c = true) : a.notShorter c = true := by
  simp only [Redirect.notShorter, decide_eq_true_eq] at *
  omega

theorem notShorter_total (a b : Redirect) : (a.notShorter b || b.notShorter a) = true := by
  simp only [Redirect.notShorter, Bool.or_eq_true, decide_eq_true_eq]
  omega

/-- The redirect that is taken is the first with its beginning. -/
theorem find?_lead (h : (ofRules rules).match? specifier = some r) :
    rules.find? (·.lead == r.lead) = some r := by
  obtain ⟨hfits, before, after, hsplit, hbefore⟩ := List.find?_eq_some_iff_append.mp h
  have hsorted : (ofRules rules).rules.find? (·.lead == r.lead) = some r := by
    refine List.find?_eq_some_iff_append.mpr ⟨beq_self_eq_true _, before, after, hsplit, ?_⟩
    intro q hq
    -- what begins like the redirect fits as well
    by_contra hlead
    have hsame : q.lead = r.lead := by simpa using hlead
    have hqfits : q.applies specifier = r.applies specifier := by
      rw [Redirect.applies, Redirect.applies, hsame]
    have hnot := hbefore q hq
    rw [hqfits, hfits] at hnot
    exact absurd hnot (by decide)
  have htied : ∀ a b : Redirect, (a.lead == r.lead) = true → (b.lead == r.lead) = true →
      a.notShorter b = true := by
    intro a b ha hb
    rw [Redirect.notShorter, beq_iff_eq.mp ha, beq_iff_eq.mp hb]
    exact decide_eq_true (Nat.le_refl _)
  rw [← List.head?_filter] at hsorted ⊢
  rwa [ofRules, filter_mergeSort notShorter_trans notShorter_total htied] at hsorted

theorem taken_of_match? (h : (ofRules rules).match? specifier = some r) :
    Taken rules specifier r := by
  obtain ⟨-, hfits, hlongest⟩ := match?_ofRules_cases h
  obtain ⟨-, before, after, hsplit, hbefore⟩ := List.find?_eq_some_iff_append.mp (find?_lead h)
  refine ⟨Redirect.applies_iff_fits.mp hfits, fun q hq hq' => ?_, before, after, hsplit, ?_⟩
  · exact hlongest q hq (Redirect.applies_iff_fits.mpr hq')
  · intro q hq
    simpa using hbefore q hq

theorem match?_eq_none_iff :
    (ofRules rules).match? specifier = none ↔ ∀ q ∈ rules, ¬q.Fits specifier := by
  rw [match?, List.find?_eq_none]
  refine ⟨fun h q hq hfits => ?_, fun h q hq hfits => ?_⟩
  · exact h q (List.mem_mergeSort.mpr hq) (Redirect.applies_iff_fits.mpr hfits)
  · exact h q (List.mem_mergeSort.mp hq) (Redirect.applies_iff_fits.mp hfits)

theorem Taken.mem (h : Taken rules specifier r) : r ∈ rules := by
  obtain ⟨before, after, hsplit, -⟩ := h.first
  rw [hsplit]
  exact List.mem_append_right _ List.mem_cons_self

theorem Taken.find?_lead (h : Taken rules specifier r) :
    rules.find? (·.lead == r.lead) = some r := by
  obtain ⟨before, after, hsplit, hbefore⟩ := h.first
  refine List.find?_eq_some_iff_append.mpr ⟨beq_self_eq_true _, before, after, hsplit, ?_⟩
  intro q hq
  simpa using hbefore q hq

/-- Beginnings of one specifier that are equally long are equal. -/
theorem lead_eq_of_size {q : Redirect} (hr : r.Fits specifier) (hq : q.Fits specifier)
    (h : Text.size r.lead = Text.size q.lead) : r.lead = q.lead := by
  obtain ⟨rest, hrest, -⟩ := hr
  obtain ⟨rest', hrest', -⟩ := hq
  exact Text.eq_of_startsWith_of_size (hrest ▸ Text.startsWith_append r.lead rest)
    (hrest' ▸ Text.startsWith_append q.lead rest') h

/-- At most one redirect can be taken. -/
theorem Taken.unique {q : Redirect} (hr : Taken rules specifier r)
    (hq : Taken rules specifier q) : r = q := by
  have hsize := Nat.le_antisymm (hq.longest r hr.mem hr.fits) (hr.longest q hq.mem hq.fits)
  have hfirst := hr.find?_lead
  rw [lead_eq_of_size hr.fits hq.fits hsize, hq.find?_lead] at hfirst
  exact (Option.some.inj hfirst).symm

theorem match?_eq_some_iff :
    (ofRules rules).match? specifier = some r ↔ Taken rules specifier r := by
  refine ⟨taken_of_match?, fun h => ?_⟩
  cases hmatch : (ofRules rules).match? specifier with
  | none => exact absurd h.fits (match?_eq_none_iff.mp hmatch r h.mem)
  | some q => exact congrArg some ((taken_of_match? hmatch).unique h)

/-- What is taken from redirects that all begin differently does not depend on their order. -/
theorem match?_perm {rules' : List Redirect} (hperm : rules.Perm rules')
    (hdistinct : (rules.map (·.lead)).Nodup) (specifier : String) :
    (ofRules rules').match? specifier = (ofRules rules).match? specifier := by
  have hapart : ∀ q ∈ rules, ∀ q' ∈ rules, q.lead = q'.lead → q = q' :=
    fun q hq q' hq' => List.inj_on_of_nodup_map hdistinct hq hq'
  have hapart' : ∀ q ∈ rules', ∀ q' ∈ rules', q.lead = q'.lead → q = q' :=
    fun q hq q' hq' => hapart q (hperm.mem_iff.mpr hq) q' (hperm.mem_iff.mpr hq')
  refine Option.ext fun r => ?_
  rw [match?_ofRules_iff hapart, match?_ofRules_iff hapart']
  simp only [hperm.mem_iff]

/-! ## All redirects -/

/-- Redirects that take what is to be taken from the given ones. -/
structure LongestFirst (redirects : Redirects) (given : List Redirect) : Prop where
  /-- No character behind the end of a specifier is looked up. -/
  inside : ∀ specifier, search? specifier redirects.rules = some (redirects.match? specifier)
  none_iff : ∀ specifier,
    redirects.match? specifier = none ↔ ∀ q ∈ given, ¬q.Fits specifier
  some_iff : ∀ specifier r, redirects.match? specifier = some r ↔ Taken given specifier r
  resolve_none : ∀ specifier,
    redirects.match? specifier = none → redirects.resolve? specifier = none
  resolve_some : ∀ specifier r, redirects.match? specifier = some r →
    ∃ rest, specifier = r.lead ++ rest ∧
      redirects.resolve? specifier = some (r.replacement ++ rest)

theorem longestFirst_ofRules (rules : List Redirect) : LongestFirst (ofRules rules) rules where
  inside specifier := search?_eq specifier _
  none_iff _ := match?_eq_none_iff
  some_iff _ _ := match?_eq_some_iff
  resolve_none specifier h := by rw [resolve?, h, Option.map_none]
  resolve_some specifier r h := by
    obtain ⟨rest, rfl, -⟩ := (match?_eq_some_iff.mp h).fits
    exact ⟨rest, rfl, by rw [resolve?, h, Option.map_some, Redirect.apply_lead_append]⟩

/-! ## Tables -/

/-- The text is `bare` with or without a star behind it, and it is with one whenever it ends with a
star. -/
def Starless (s bare : String) : Prop := s = bare ++ "*" ∨ (s = bare ∧ ∀ u, s ≠ u ++ "*")

theorem starless_withoutStar (s : String) : Starless s (Redirect.withoutStar s) := by
  have hstar : "*".toList = ['*'] := rfl
  unfold Redirect.withoutStar
  split
  · rename_i hends
    obtain ⟨lead, hlead⟩ := Text.endsWith_iff.mp hends
    refine .inl (String.toList_injective ?_)
    rw [String.toList_append, Text.dropLast, String.toList_ofList, ← hlead, hstar]
    simp
  · rename_i hends
    refine .inr ⟨rfl, fun u hu => hends ?_⟩
    rw [Text.endsWith_iff, hu, String.toList_append]
    exact List.suffix_append _ _

/-- A text is without a star at its end in one way. -/
theorem Starless.unique {s u v : String} (hu : Starless s u) (hv : Starless s v) : u = v := by
  obtain hu | ⟨hu, hnone⟩ := hu
  · obtain hv | ⟨-, hnone⟩ := hv
    · exact String.append_left_inj "*" |>.mp (hu.symm.trans hv)
    · exact absurd hu (hnone u)
  · obtain hv | ⟨hv, -⟩ := hv
    · exact absurd hv (hnone v)
    · exact hu.symm.trans hv

/-- The redirect of an entry, whose key and value count without a star at the end. -/
def Stands (entry : String × String) (r : Redirect) : Prop :=
  Starless entry.1 r.lead ∧ Starless entry.2 r.replacement

theorem stands_ofEntry (entry : String × String) : Stands entry (Redirect.ofEntry entry) :=
  ⟨starless_withoutStar entry.1, starless_withoutStar entry.2⟩

theorem Stands.eq_ofEntry {entry : String × String} {r : Redirect} (h : Stands entry r) :
    r = Redirect.ofEntry entry := by
  obtain ⟨hlead, hreplacement⟩ := h
  obtain ⟨lead, replacement⟩ := r
  rw [Redirect.ofEntry, Redirect.mk.injEq]
  exact ⟨hlead.unique (starless_withoutStar _), hreplacement.unique (starless_withoutStar _)⟩

/-- The entries of a table stand for these redirects, in order, and for no others. -/
theorem forall₂_stands_iff {entries : List (String × String)} {given : List Redirect} :
    List.Forall₂ Stands entries given ↔ given = entries.map Redirect.ofEntry := by
  constructor
  · intro h
    induction h with
    | nil => rfl
    | cons hstands _ ih => rw [List.map_cons, ← ih, hstands.eq_ofEntry]
  · rintro rfl
    exact List.forall₂_map_right_iff.mpr (List.forall₂_same.mpr fun e _ => stands_ofEntry e)

/-- **The longest beginning counts**, be the redirects given as a list or as a table, in which a
star at the end of a text counts for nothing.  If no two of them begin alike, then the order in
which they are given does not matter. -/
theorem longest_lead_taken (rules : List Redirect) (t : Table String) :
    LongestFirst (ofRules rules) rules ∧
    (∀ rules', rules.Perm rules' → (rules.map (·.lead)).Nodup → ∀ specifier,
      (ofRules rules').match? specifier = (ofRules rules).match? specifier ∧
        (ofRules rules').resolve? specifier = (ofRules rules).resolve? specifier) ∧
    ∃ given, List.Forall₂ Stands t.entries given ∧ LongestFirst (ofTable t) given ∧
      ∀ t' : Table String, t.entries.Perm t'.entries → (given.map (·.lead)).Nodup → ∀ specifier,
        (ofTable t').match? specifier = (ofTable t).match? specifier ∧
          (ofTable t').resolve? specifier = (ofTable t).resolve? specifier := by
  have horder {rules rules' : List Redirect} (hperm : rules.Perm rules')
      (hdistinct : (rules.map (·.lead)).Nodup) (specifier : String) :
      (ofRules rules').match? specifier = (ofRules rules).match? specifier ∧
        (ofRules rules').resolve? specifier = (ofRules rules).resolve? specifier := by
    have hmatch := match?_perm hperm hdistinct specifier
    exact ⟨hmatch, by rw [resolve?, resolve?, hmatch]⟩
  exact ⟨longestFirst_ofRules rules, fun _ => horder, t.entries.map Redirect.ofEntry,
    forall₂_stands_iff.mpr rfl, longestFirst_ofRules _,
    fun _ hperm => horder (hperm.map Redirect.ofEntry)⟩

/-- A longer beginning counts more than a shorter one, be it behind that one or in front, in a list
and in a table with stars. -/
theorem nested_lead_taken :
    (ofRules [⟨"@/", "src/"⟩, ⟨"@/ui/", "lib/"⟩]).match? "@/ui/Button" =
      some ⟨"@/ui/", "lib/"⟩ ∧
    (ofRules [⟨"@/ui/", "lib/"⟩, ⟨"@/", "src/"⟩]).match? "@/ui/Button" =
      some ⟨"@/ui/", "lib/"⟩ ∧
    (ofTable (.ofPairs [("@/*", "src/*"), ("@/ui/*", "lib/*")])).resolve? "@/ui/Button" =
      some "lib/Button" ∧
    (ofTable (.ofPairs [("@/ui/*", "lib/*"), ("@/*", "src/*")])).resolve? "@/ui/Button" =
      some "lib/Button" := by
  have htaken : Taken [⟨"@/", "src/"⟩, ⟨"@/ui/", "lib/"⟩] "@/ui/Button" ⟨"@/ui/", "lib/"⟩ := by
    refine ⟨⟨"Button", rfl, ?_⟩, ?_, ?_⟩
    · exact Or.inl (by decide)
    · have hshorter : ∀ q ∈ [⟨"@/", "src/"⟩, (⟨"@/ui/", "lib/"⟩ : Redirect)],
          Text.size q.lead ≤ Text.size "@/ui/" := by decide
      exact fun q hq _ => hshorter q hq
    · exact ⟨[⟨"@/", "src/"⟩], [], rfl, by decide⟩
  obtain ⟨hlist, hlistOrder, given, hgiven, htable, htableOrder⟩ :=
    longest_lead_taken [⟨"@/", "src/"⟩, ⟨"@/ui/", "lib/"⟩]
      (.ofPairs [("@/*", "src/*"), ("@/ui/*", "lib/*")])
  -- the stars are gone
  obtain rfl : given = [⟨"@/", "src/"⟩, ⟨"@/ui/", "lib/"⟩] :=
    (forall₂_stands_iff.mp hgiven).trans (by decide)
  have hbehind := (hlist.some_iff _ _).mpr htaken
  have hstarred := (htable.some_iff _ _).mpr htaken
  obtain ⟨rest, hrest, hresolve⟩ := htable.resolve_some _ _ hstarred
  obtain rfl : "Button" = rest := (String.append_right_inj "@/ui/").mp hrest
  refine ⟨hbehind, ?_, hresolve, ?_⟩
  · rw [(hlistOrder _ (List.Perm.swap (Redirect.mk "@/ui/" "lib/") _ []) (by decide) _).1]
    exact hbehind
  · rw [(htableOrder (.ofPairs [("@/ui/*", "lib/*"), ("@/*", "src/*")]) (by decide)
      (by decide) _).2]
    exact hresolve

end Redirects
end Transplant
