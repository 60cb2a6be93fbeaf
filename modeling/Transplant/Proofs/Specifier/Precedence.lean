import Transplant.Proofs.Specifier.Longest
import Transplant.Proofs.Adapt.Reading
import Transplant.Migration.Run

/-!
# Redirects from aliases and configured redirects

The redirects between the aliases of two projects come first in a table, and the configured ones are
put over them.  Two keys can mean the same beginning, `@/` and `@/*`, and then both entries stay,
the one from the aliases in front.  So it is taken, although the other one has been configured.

Which redirect is taken for a beginning depends on the first entry for it (`entryFor?`).  In the
merged table this is the first one of the aliases, with the value that is configured for its very
key, and a configured one only if there is none of the aliases (`entryFor?_merge`).

* `Table.find?_merge`: the first entry of a merged table whose key is of a given kind
* `Migration.importPrefixes_settings`: the imports of a migration are redirected by such a table
* `Redirects.Outweighs`: specifiers for which a configured redirect should be taken
* `Redirects.Unshadowed`: beginnings for which it is taken
* `Redirects.configured_redirect_taken_iff`: it is always taken exactly if all are of this kind
* `Redirects.starred_redirect_shadowed`: one that is not
-/

namespace Transplant

/-! ## Tables put over each other -/

namespace Table

variable {α : Type}

theorem find?_putEntry (p : String → Bool) (key : String) (value : α) (l : List (String × α)) :
    (putEntry key value l).find? (fun e => p e.1) =
      ((l.find? fun e => p e.1).map fun e => if e.1 = key then (key, value) else e).or
        (if p key then some (key, value) else none) := by
  induction l with
  | nil =>
    rw [putEntry, List.find?_cons, List.find?_nil]
    cases p key <;> rfl
  | cons e rest ih =>
    by_cases hkey : e.1 = key
    · cases hp : p key with
      | true => simp [putEntry, hkey, hp]
      | false =>
        -- an entry that is found is not the replaced one
        cases hrest : rest.find? (fun e => p e.1) with
        | none => simp [putEntry, hkey, hp, hrest]
        | some e' =>
          have hne : e'.1 ≠ key := by
            rintro rfl
            have hfound := List.find?_some hrest
            exact Bool.false_ne_true (hp.symm.trans hfound)
          simp [putEntry, hkey, hp, hrest, hne]
    · rw [putEntry, if_neg hkey, List.find?_cons, List.find?_cons]
      cases p e.1 with
      | true => simp [hkey]
      | false => exact ih

theorem find?_foldl_put (p : String → Bool) (pairs : List (String × α))
    (hpairs : (pairs.map (·.1)).Nodup) (t : Table α) :
    (pairs.foldl (fun t e => t.put e.1 e.2) t).entries.find? (fun e => p e.1) =
      ((t.entries.find? fun e => p e.1).map fun e => (e.1, (pairs.lookup e.1).getD e.2)).or
        (pairs.find? fun e => p e.1) := by
  induction pairs generalizing t with
  | nil => simp
  | cons q rest ih =>
    obtain ⟨name, value⟩ := q
    rw [List.map_cons, List.nodup_cons] at hpairs
    have hgone : rest.lookup name = none := by
      rw [List.lookup_eq_none_iff]
      intro e he
      rw [bne_iff_ne]
      rintro rfl
      exact hpairs.1 (List.mem_map.mpr ⟨e, he, rfl⟩)
    rw [List.foldl_cons, ih hpairs.2, put, find?_putEntry]
    cases t.entries.find? (fun e => p e.1) with
    | some e =>
      by_cases hname : e.1 = name
      · simp [hname, hgone]
      · simp [hname, List.lookup_cons, beq_false_of_ne hname]
    | none =>
      cases hp : p name with
      | true => simp [hp, hgone]
      | false => simp [hp]

/-- The first entry of a certain kind in a merged table: the first of the table below, with the
value from above if its key has one there, and otherwise the first of the table above. -/
theorem find?_merge (p : String → Bool) (t u : Table α) :
    (t.merge u).entries.find? (fun e => p e.1) =
      ((t.entries.find? fun e => p e.1).map fun e => (e.1, (u.get? e.1).getD e.2)).or
        (u.entries.find? fun e => p e.1) :=
  find?_foldl_put p u.entries u.distinct t

theorem mem_keys_merge {t u : Table α} {k : String} :
    k ∈ (t.merge u).keys ↔ k ∈ t.keys ∨ k ∈ u.keys := by
  have hfold (pairs : List (String × α)) : k ∈ (pairs.foldl (fun t e => t.put e.1 e.2) t).keys ↔
      k ∈ t.keys ∨ k ∈ pairs.map (·.1) := by
    induction pairs generalizing t with
    | nil => simp
    | cons e rest ih =>
      rw [List.foldl_cons, ih, mem_keys_put, List.map_cons, List.mem_cons, or_assoc, or_left_comm]
  exact hfold u.entries

theorem entries_foldl_put {pairs : List (String × α)} {t : Table α}
    (h : ((t.entries ++ pairs).map (·.1)).Nodup) :
    (pairs.foldl (fun t e => t.put e.1 e.2) t).entries = t.entries ++ pairs := by
  have hput (key : String) (value : α) (l : List (String × α)) (hl : key ∉ l.map (·.1)) :
      putEntry key value l = l ++ [(key, value)] := by
    induction l with
    | nil => rfl
    | cons e rest ih =>
      rw [List.map_cons, List.mem_cons, not_or] at hl
      rw [putEntry, if_neg (Ne.symm hl.1), ih hl.2, List.cons_append]
  induction pairs generalizing t with
  | nil => exact (List.append_nil _).symm
  | cons q rest ih =>
    have hnew : (t.put q.1 q.2).entries = t.entries ++ [q] := by
      refine hput q.1 q.2 t.entries fun hmem => ?_
      rw [List.map_append, List.nodup_append] at h
      exact h.2.2 q.1 hmem q.1 List.mem_cons_self rfl
    rw [List.append_cons, ← hnew] at h ⊢
    exact ih h

theorem empty_merge (u : Table α) : empty.merge u = u := by
  have hentries : (empty.merge u).entries = u.entries := entries_foldl_put u.distinct
  cases hmerge : empty.merge u
  cases u
  rw [hmerge] at hentries
  exact (mk.injEq ..).mpr hentries

end Table

/-- What the imports of a migration are redirected by: the configured redirects, put over those
between the aliases that the two projects declare. -/
theorem Migration.importPrefixes_settings {j : Job} {files : Disk} {s : Settings}
    {log : List LogLine} (h : Migration.settings j files = .ok (s, log)) :
    ∃ source target sourceLog targetLog,
      Project.aliases files j.sourceDir = .ok (source, sourceLog) ∧
      Project.aliases files j.targetDir = .ok (target, targetLog) ∧
      s.importPrefixes = (Alias.redirects source target).merge j.settings.importPrefixes := by
  obtain ⟨⟨source, sourceLog⟩, hsource, h⟩ := exists_of_bind h
  obtain ⟨⟨target, targetLog⟩, htarget, h⟩ := exists_of_bind h
  refine ⟨source, target, sourceLog, targetLog, ok_of_mapError hsource, ok_of_mapError htarget, ?_⟩
  dsimp only at h
  split at h
  · rename_i hempty
    obtain ⟨rfl, -⟩ := Prod.mk.inj (Except.ok.inj h)
    -- without aliases of the source there are no redirects between aliases
    have hnone : source.entries = [] := List.isEmpty_iff.mp ((Bool.and_eq_true _ _).mp hempty).1
    rw [Alias.redirects, hnone]
    exact (Table.empty_merge _).symm
  · obtain ⟨rfl, -⟩ := Prod.mk.inj (Except.ok.inj h)
    rfl

namespace Redirects

open Redirect (withoutStar ofEntry)

/-! ## The entry for a beginning -/

/-- The first entry of a table that is for the beginning `lead`. -/
def entryFor? (t : Table String) (lead : String) : Option (String × String) :=
  t.entries.find? fun e => withoutStar e.1 == lead

theorem entryFor?_merge (t u : Table String) (lead : String) :
    entryFor? (t.merge u) lead =
      ((entryFor? t lead).map fun e => (e.1, (u.get? e.1).getD e.2)).or (entryFor? u lead) :=
  Table.find?_merge (fun k => withoutStar k == lead) t u

variable {t seeded configured : Table String} {specifier lead : String} {r : Redirect}

/-- The redirect that is taken is that of the first entry for its beginning. -/
theorem Taken.entryFor? (h : Taken (t.entries.map ofEntry) specifier r) :
    ∃ e, entryFor? t r.lead = some e ∧ ofEntry e = r := by
  have hfirst := h.find?_lead
  rw [List.find?_map, Option.map_eq_some_iff] at hfirst
  exact hfirst

/-- Whether the redirect of an entry fits depends on the key alone. -/
theorem fits_of_key {e e' : String × String} (hkey : e.1 = e'.1)
    (h : (ofEntry e).Fits specifier) : (ofEntry e').Fits specifier := by
  have hlead : (ofEntry e).lead = (ofEntry e').lead := congrArg withoutStar hkey
  rw [Redirect.Fits, ← hlead]
  exact h

/-! ## Configured redirects -/

/-- A configured redirect fits the specifier and begins with at least as much of it as each of the
redirects from the aliases that fit. -/
def Outweighs (configured seeded : Table String) (specifier : String) : Prop :=
  ∃ e ∈ configured.entries, (ofEntry e).Fits specifier ∧
    ∀ q ∈ seeded.entries, (ofEntry q).Fits specifier →
      Text.size (ofEntry q).lead ≤ Text.size (ofEntry e).lead

/-- The first entry of the aliases for a beginning, if there is one, is configured under its very
key to become what the first configured entry for this beginning says, or says so itself. -/
def Unshadowed (configured seeded : Table String) (lead : String) : Prop :=
  ∀ k ∈ entryFor? seeded lead, ∀ e ∈ entryFor? configured lead,
    withoutStar ((configured.get? k.1).getD k.2) = withoutStar e.2

/-- For a specifier that a configured redirect should be taken for, one with the same beginning is
taken from the merged table. -/
theorem lead_eq_of_outweighs {q : Redirect} (h : Outweighs configured seeded specifier)
    (hr : Taken (configured.entries.map ofEntry) specifier r)
    (hq : Taken ((seeded.merge configured).entries.map ofEntry) specifier q) :
    r.lead = q.lead := by
  obtain ⟨e, he, hefits, hlongest⟩ := h
  obtain ⟨er, her, rfl⟩ := List.mem_map.mp hr.mem
  obtain ⟨eq, heq, rfl⟩ := List.mem_map.mp hq.mem
  have hmost : Text.size (ofEntry e).lead ≤ Text.size (ofEntry er).lead :=
    hr.longest _ (List.mem_map_of_mem he) hefits
  have hle : Text.size (ofEntry eq).lead ≤ Text.size (ofEntry er).lead := by
    have hkey : eq.1 ∈ (seeded.merge configured).keys := List.mem_map_of_mem heq
    rcases Table.mem_keys_merge.mp hkey with hseeded | hconfigured
    · obtain ⟨e', he', hkey'⟩ := List.mem_map.mp hseeded
      have hsize := hlongest e' he' (fits_of_key hkey'.symm hq.fits)
      rw [show (ofEntry e').lead = (ofEntry eq).lead from congrArg withoutStar hkey'] at hsize
      exact Nat.le_trans hsize hmost
    · obtain ⟨e', he', hkey'⟩ := List.mem_map.mp hconfigured
      have hsize := hr.longest _ (List.mem_map_of_mem he') (fits_of_key hkey'.symm hq.fits)
      rwa [show (ofEntry e').lead = (ofEntry eq).lead from congrArg withoutStar hkey'] at hsize
  have hge : Text.size (ofEntry er).lead ≤ Text.size (ofEntry eq).lead := by
    have hkey : er.1 ∈ (seeded.merge configured).keys :=
      Table.mem_keys_merge.mpr (Or.inr (List.mem_map_of_mem her))
    obtain ⟨e', he', hkey'⟩ := List.mem_map.mp hkey
    have hsize := hq.longest _ (List.mem_map_of_mem he') (fits_of_key hkey'.symm hr.fits)
    rwa [show (ofEntry e').lead = (ofEntry er).lead from congrArg withoutStar hkey'] at hsize
  exact lead_eq_of_size hr.fits hq.fits (Nat.le_antisymm hge hle)

/-- A redirect is taken from a table as soon as an entry fits. -/
theorem exists_taken {e : String × String} (he : e ∈ t.entries)
    (hfits : (ofEntry e).Fits specifier) :
    ∃ r, (ofTable t).match? specifier = some r ∧ Taken (t.entries.map ofEntry) specifier r := by
  cases hmatch : (ofTable t).match? specifier with
  | none => exact absurd hfits (match?_eq_none_iff.mp hmatch _ (List.mem_map_of_mem he))
  | some r => exact ⟨r, rfl, taken_of_match? hmatch⟩

/-- For such a specifier both tables agree exactly if the beginning is not shadowed. -/
theorem resolve?_merge_iff (h : Outweighs configured seeded specifier)
    (hmatch : (ofTable configured).match? specifier = some r) :
    (ofTable (seeded.merge configured)).resolve? specifier =
        (ofTable configured).resolve? specifier ↔ Unshadowed configured seeded r.lead := by
  have hr : Taken (configured.entries.map ofEntry) specifier r := taken_of_match? hmatch
  obtain ⟨q, hqmatch, hq⟩ : ∃ q, (ofTable (seeded.merge configured)).match? specifier = some q ∧
      Taken ((seeded.merge configured).entries.map ofEntry) specifier q := by
    obtain ⟨e, he, hefits, -⟩ := h
    obtain ⟨e', he', hkey⟩ := List.mem_map.mp (Table.mem_keys_merge.mpr
      (Or.inr (List.mem_map_of_mem he)) : e.1 ∈ (seeded.merge configured).keys)
    exact exists_taken he' (fits_of_key hkey.symm hefits)
  have hlead := lead_eq_of_outweighs h hr hq
  obtain ⟨rest, hrest, -⟩ := hr.fits
  have hreplacement : (ofTable (seeded.merge configured)).resolve? specifier =
      (ofTable configured).resolve? specifier ↔ q.replacement = r.replacement := by
    rw [resolve?, resolve?, hqmatch, hmatch, Option.map_some, Option.map_some, Option.some_inj,
      hrest, Redirect.apply_lead_append, hlead, Redirect.apply_lead_append,
      String.append_left_inj]
  obtain ⟨e, he, rfl⟩ := hr.entryFor?
  obtain ⟨e', he', rfl⟩ := hq.entryFor?
  rw [hreplacement, Unshadowed, he]
  rw [← hlead, entryFor?_merge, he] at he'
  cases hk : entryFor? seeded (ofEntry e).lead with
  | none =>
    rw [hk] at he'
    obtain rfl := Option.some.inj he'
    simp
  | some k =>
    rw [hk] at he'
    obtain rfl := Option.some.inj he'
    simp [ofEntry]

/-- **Configured redirects are taken exactly if no beginning is shadowed.**  Put configured
redirects over those between two alias tables.  Every specifier for which a configured one should be
taken becomes what the configured ones alone make of it, if and only if each beginning that is
configured gets its value in the merged table. -/
theorem configured_redirect_taken_iff (source target configured : Table String) :
    (∀ specifier, Outweighs configured (Alias.redirects source target) specifier →
      (ofTable ((Alias.redirects source target).merge configured)).resolve? specifier =
        (ofTable configured).resolve? specifier) ↔
    ∀ e ∈ configured.entries,
      Unshadowed configured (Alias.redirects source target) (withoutStar e.1) := by
  constructor
  · intro h e he
    -- the beginning is a specifier itself, and no redirect that fits it is longer
    have hfits : (ofEntry e).Fits (withoutStar e.1) := ⟨"", by simp [ofEntry], Or.inr (Or.inl rfl)⟩
    have hlongest (q : Redirect) (hq : q.Fits (withoutStar e.1)) :
        Text.size q.lead ≤ Text.size (ofEntry e).lead := by
      obtain ⟨rest, hrest, -⟩ := hq
      have hlength := congrArg (List.length ∘ String.toList) hrest
      simp only [Function.comp, String.toList_append, List.length_append] at hlength
      simp only [Text.size, ofEntry]
      omega
    have houtweighs : Outweighs configured (Alias.redirects source target) (withoutStar e.1) :=
      ⟨e, he, hfits, fun q _ hq => hlongest _ hq⟩
    obtain ⟨r, hmatch, hr⟩ := exists_taken he hfits
    have hlead : r.lead = withoutStar e.1 := by
      refine lead_eq_of_size (r := r) (q := ofEntry e) hr.fits hfits ?_
      exact Nat.le_antisymm (hlongest r hr.fits) (hr.longest _ (List.mem_map_of_mem he) hfits)
    rw [← hlead]
    exact (resolve?_merge_iff houtweighs hmatch).mp (h _ houtweighs)
  · intro h specifier houtweighs
    obtain ⟨e, he, hefits, hlongest⟩ := houtweighs
    obtain ⟨r, hmatch, hr⟩ := exists_taken he hefits
    obtain ⟨er, her, rfl⟩ := List.mem_map.mp hr.mem
    exact (resolve?_merge_iff ⟨e, he, hefits, hlongest⟩ hmatch).mpr (h er her)

/-! ## Two spellings of one beginning -/

/-- A project that calls `src` by some alias. -/
def srcAs (name : String) : Table String := Table.ofPairs [(name, "src/")]

theorem redirects_srcAs :
    Alias.redirects (srcAs "@/") (srcAs "~/") = Table.ofPairs [("@/", "~/")] := by
  have hsorted : Alias.sorted (srcAs "~/") = [("~/", "src/")] :=
    Alias.sorted_of_pairwise (by decide)
  simp only [Alias.redirects, Alias.spell?, Alias.best?, hsorted]
  decide

theorem outweighs_button {e : String × String} (he : e ∈ configured.entries)
    (hlead : (ofEntry e).lead = "@/") :
    Outweighs configured (Alias.redirects (srcAs "@/") (srcAs "~/")) "@/ui/Button" := by
  refine ⟨e, he, ⟨"ui/Button", ?_, Or.inl ?_⟩, fun q hq _ => ?_⟩
  · rw [hlead]
    rfl
  · rw [hlead]
    rfl
  · rw [redirects_srcAs] at hq
    obtain rfl : q = ("@/", "~/") := List.mem_singleton.mp hq
    exact Nat.le_of_eq (congrArg Text.size hlead.symm)

/-- A configured redirect with the spelling of the alias is taken. -/
theorem same_spelling_taken :
    Outweighs (Table.ofPairs [("@/", "lib/")]) (Alias.redirects (srcAs "@/") (srcAs "~/"))
      "@/ui/Button" ∧
    (ofTable ((Alias.redirects (srcAs "@/") (srcAs "~/")).merge
      (Table.ofPairs [("@/", "lib/")]))).resolve? "@/ui/Button" = some "lib/ui/Button" := by
  have houtweighs : Outweighs (Table.ofPairs [("@/", "lib/")])
      (Alias.redirects (srcAs "@/") (srcAs "~/")) "@/ui/Button" :=
    outweighs_button (e := ("@/", "lib/")) (by decide +kernel) rfl
  refine ⟨houtweighs, ?_⟩
  rw [(configured_redirect_taken_iff (srcAs "@/") (srcAs "~/") _).mpr ?_ _ houtweighs]
  · decide +kernel
  · unfold Unshadowed
    rw [redirects_srcAs]
    decide +kernel

/-- **A configured redirect with a star is shadowed** by that of the alias, which is spelled without
one. -/
theorem starred_redirect_shadowed :
    Outweighs (Table.ofPairs [("@/*", "lib/*")]) (Alias.redirects (srcAs "@/") (srcAs "~/"))
      "@/ui/Button" ∧
    (ofTable ((Alias.redirects (srcAs "@/") (srcAs "~/")).merge
      (Table.ofPairs [("@/*", "lib/*")]))).resolve? "@/ui/Button" = some "~/ui/Button" ∧
    (ofTable (Table.ofPairs [("@/*", "lib/*")])).resolve? "@/ui/Button" =
      some "lib/ui/Button" := by
  -- both begin alike, so the sort leaves them as they are
  have hrules : ofTable ((Table.ofPairs [("@/", "~/")]).merge (Table.ofPairs [("@/*", "lib/*")])) =
      ⟨[⟨"@/", "~/"⟩, ⟨"@/", "lib/"⟩]⟩ :=
    congrArg Redirects.mk (List.mergeSort_of_pairwise (by decide))
  refine ⟨outweighs_button (e := ("@/*", "lib/*")) (by decide +kernel) rfl, ?_, ?_⟩
  · rw [redirects_srcAs, hrules]
    decide +kernel
  · decide +kernel

end Redirects
end Transplant
