import Transplant.Proofs.Files.Growth
import Transplant.Proofs.Text.Utf8

/-!
# Reading back what has been written

Files are written one after the other, some of them more than once.  What a path reads as afterwards
is known from the disk at the start and from the list of what was written: the text that was written
last at the place of the path, or else what was read there at the start.

One thing can come between.  A path that goes back with `..` from a directory that is missing leads
nowhere, and writing another file may make that directory.  `Disk.Settled` excludes it: the path
goes back only from directories that are there.

* `Disk.Written`: what becomes of a disk when files are written one after the other
* `Disk.Shows`: what a path reads as afterwards, from the list of what was written
* `Disk.Written.readText_iff`: the two agree
-/

namespace Transplant

namespace Text

theorem unifiedList_of_notMem {l : List Char} (h : '\r' ∉ l) : unifiedList l = l := by
  induction l using unifiedList.induct with
  | case1 => rfl
  | case2 rest ih => exact absurd List.mem_cons_self h
  | case3 c rest hpair ih =>
    rw [List.mem_cons, not_or] at h
    rw [unifiedList.eq_3 c rest hpair, if_neg (Ne.symm h.1), ih h.2]

/-- A text without returns is not changed by unifying line ends. -/
theorem unified_of_notMem {s : String} (h : '\r' ∉ s.toList) : unified s = s := by
  rw [unified, unifiedList_of_notMem h, String.ofList_toList]

/-- A text has no returns if its bytes have none. -/
theorem return_notMem_of_bytes {s : String} (h : (13 : UInt8) ∉ s.toByteArray.data.toList) :
    '\r' ∉ s.toList := by
  intro hreturn
  rw [← String.utf8Encode_toList, List.utf8Encode, List.data_toByteArray] at h
  exact h (List.mem_flatMap.mpr ⟨'\r', hreturn, by decide⟩)

end Text

namespace Disk

open FileTree

variable {d d' : Disk} {p : Path} {S : List String → Prop}

/-! ## Texts -/

theorem readText_eq_ok_iff {text : String} :
    d.readText p = .ok text ↔
      ∃ bytes read, d.readBytes p = .ok bytes ∧ Utf8.decode bytes = .ok read ∧
        Text.unified read = text := by
  unfold readText
  cases d.readBytes p with
  | error e => exact ⟨nofun, nofun⟩
  | ok bytes =>
    cases hdecode : Utf8.decode bytes with
    | error f =>
      refine ⟨fun h => ?_, ?_⟩
      · simp [hdecode, Except.mapError, bind, Except.bind] at h
      · rintro ⟨_, read, hbytes, hread, -⟩
        obtain rfl := Except.ok.inj hbytes
        rw [hdecode] at hread
        cases hread
    | ok t =>
      simp only [Except.mapError, bind, Except.bind, hdecode, pure, Except.pure]
      constructor
      · intro h
        exact ⟨bytes, t, rfl, hdecode, Except.ok.inj h⟩
      · rintro ⟨_, read, hbytes, hread, rfl⟩
        obtain rfl := Except.ok.inj hbytes
        rw [hdecode] at hread
        rw [Except.ok.inj hread]

theorem readText_congr (h : d'.readBytes p = d.readBytes p) : d'.readText p = d.readText p := by
  rw [readText, h, readText]

theorem readBytes_of_readText {text : String} (h : d.readText p = .ok text) :
    ∃ bytes, d.readBytes p = .ok bytes := by
  obtain ⟨bytes, -, hbytes, -⟩ := readText_eq_ok_iff.mp h
  exact ⟨bytes, hbytes⟩

/-- The bytes of a text are read as that text with its line ends unified. -/
theorem readText_of_encode {text : String} (h : d.readBytes p = .ok (Utf8.encode text)) :
    d.readText p = .ok (Text.unified text) :=
  readText_eq_ok_iff.mpr ⟨_, _, h, Utf8.decode_encode text, rfl⟩

/-- A file that is there and is not written reads as before. -/
theorem Grows.readText (h : Grows S d d') (hS : ¬ S (d.destination p))
    (hp : ∃ bytes, d.readBytes p = .ok bytes) : d'.readText p = d.readText p := by
  obtain ⟨bytes, hbytes⟩ := hp
  exact readText_congr ((h.readBytes hS hbytes).trans hbytes.symm)

/-! ## Paths that go back -/

/-- A path goes back only from directories that are there. -/
def Settled (d : Disk) (p : Path) : Prop :=
  ∀ l r, p.parts = l ++ ".." :: r → d.top.sight (l.foldl step (d.base p)).reverse = .directory

theorem settled_of_notMem (h : ".." ∉ p.parts) : d.Settled p := by
  intro l r hparts
  exact absurd (hparts ▸ List.mem_append_right l List.mem_cons_self) h

theorem Grows.settled (h : Grows S d d') (hp : d.Settled p) : d'.Settled p := by
  intro l r hparts
  rw [h.base]
  exact h.top.directory (hp l r hparts)

theorem foldl_step {names : List String} (h : ".." ∉ names) (done : List String) :
    (names.foldl step done).reverse = done.reverse ++ names := by
  induction names generalizing done with
  | nil => rw [List.foldl_nil, List.append_nil]
  | cons name rest ih =>
    rw [List.mem_cons, not_or] at h
    rw [List.foldl_cons, ih h.2, step, if_neg (Ne.symm h.1), List.reverse_cons,
      List.append_assoc, List.singleton_append]

/-- A path can be followed further if the names that come next are looked up in directories. -/
theorem Leads.append {names : List String} (hp : d.Leads p)
    (h : ∀ l name r, names = l ++ name :: r →
      d.top.sight (l.foldl step (p.parts.foldl step (d.base p))).reverse = .directory) :
    d.Leads ⟨p.root, p.parts ++ names⟩ := by
  intro l name r hparts
  obtain ⟨next, rfl, hnext⟩ | ⟨rest, hown, hrest⟩ := List.append_eq_append_iff.mp hparts
  · rw [List.foldl_append]
    exact h next name r hnext
  · cases rest with
    | nil =>
      rw [List.append_nil] at hown
      rw [← hown]
      exact h [] name r hrest.symm
    | cons name' rest =>
      obtain ⟨rfl, -⟩ := List.cons.inj hrest
      exact hp l name rest hown

/-- What is at the end of a settled path can be reached along it. -/
theorem Settled.reaches (h : d.Settled p) : d.Reaches p := by
  intro hsome l name r hparts
  -- the names from here on lead down, up to the end or to the next place where the path goes back
  by_cases hback : ".." ∈ name :: r
  · obtain ⟨down, rest, hsplit, hdown⟩ := List.eq_append_cons_of_mem hback
    have hthere := h (l ++ down) rest (by rw [hparts, hsplit, List.append_assoc])
    rw [List.foldl_append, foldl_step hdown] at hthere
    exact directory_above hthere
  · rw [destination, hparts, List.foldl_append, foldl_step hback] at hsome
    exact sight_above hsome (List.cons_ne_nil name r)

/-! ## Files written one after the other -/

/-- The text that is written last at a place. -/
def latest? (d : Disk) (sent : List (Path × String)) (place : List String) : Option String :=
  (sent.reverse.find? fun e => d.destination e.1 = place).map (·.2)

theorem latest?_concat (sent : List (Path × String)) (e : Path × String) (place : List String) :
    d.latest? (sent ++ [e]) place =
      if d.destination e.1 = place then some e.2 else d.latest? sent place := by
  unfold latest?
  rw [List.reverse_append, List.reverse_singleton, List.singleton_append, List.find?_cons]
  split <;> simp_all

theorem latest?_eq_none_iff {sent : List (Path × String)} {place : List String} :
    d.latest? sent place = none ↔ ∀ e ∈ sent, d.destination e.1 ≠ place := by
  unfold latest?
  simp

/-- The disk `d'` is what becomes of `d` when the files in `sent` are written one after the other:
nothing else changes, and at each place stands what was written there last. -/
structure Written (d : Disk) (sent : List (Path × String)) (d' : Disk) : Prop where
  grows : Grows (fun place => ∃ e ∈ sent, d.destination e.1 = place) d d'
  latest : ∀ place text, d.latest? sent place = some text →
    d'.top.sight place = .file (Utf8.encode text)

theorem Written.nil (d : Disk) : Written d [] d := ⟨.refl _ d, fun _ _ h => nomatch h⟩

theorem Written.concat {sent : List (Path × String)} (h : Written d sent d') {text : String}
    (hp : p ≠ Path.here) (hok : (d'.write p text).2 = .ok ()) :
    Written d (sent ++ [(p, text)]) (d'.write p text).1 := by
  obtain ⟨hgrows, hread⟩ := write_cases (d := d') hp text
  have hplace : d'.destination p = d.destination p := h.grows.destination p
  refine ⟨.trans (h.grows.mono ?_) (hgrows.mono ?_), fun place last hlast => ?_⟩
  · rintro place ⟨e, he, hdest⟩
    exact ⟨e, List.mem_append_left _ he, hdest⟩
  · rintro place rfl
    exact ⟨(p, text), List.mem_append_right _ List.mem_cons_self, hplace.symm⟩
  · rw [latest?_concat] at hlast
    split at hlast
    · rename_i hthis
      obtain rfl := Option.some.inj hlast
      have hfile := (readBytes_eq_ok_iff.mp (hread hok)).2
      rwa [hgrows.destination, hplace, hthis] at hfile
    · rename_i hother
      refine hgrows.top.file (fun hsame => hother ?_) (h.latest place last hlast)
      rw [hsame]
      exact hplace.symm

/-- What a path reads as when files have been written: the text that was written last at its place,
or else what was read at the start. -/
def Shows (d : Disk) (sent : List (Path × String)) (p : Path) (text : String) : Prop :=
  match d.latest? sent (d.destination p) with
  | some last => Text.unified last = text
  | none => d.readText p = .ok text

/-- If nothing is written at the place of a path, it reads as at the start. -/
theorem shows_iff_of_apart {sent : List (Path × String)} {text : String}
    (h : ∀ e ∈ sent, d.destination e.1 ≠ d.destination p) :
    d.Shows sent p text ↔ d.readText p = .ok text := by
  unfold Shows
  rw [latest?_eq_none_iff.mpr h]

/-- **A settled path reads as the last text that was written at its place, or as at the start.** -/
theorem Written.readText_iff {sent : List (Path × String)} (h : Written d sent d')
    (hp : d.Settled p) {text : String} :
    d'.readText p = .ok text ↔ d.Shows sent p text := by
  unfold Shows
  cases hlast : d.latest? sent (d.destination p) with
  | some last =>
    have hsight := h.latest _ _ hlast
    rw [← h.grows.destination] at hsight
    have hleads := (h.grows.settled hp).reaches (by simp [hsight])
    rw [readText_of_encode (readBytes_eq_ok_iff.mpr ⟨hleads, hsight⟩), Except.ok.injEq]
  | none =>
    have hnot : ¬ ∃ e ∈ sent, d.destination e.1 = d.destination p := by
      rintro ⟨e, he, hdest⟩
      exact latest?_eq_none_iff.mp hlast e he hdest
    constructor
    · intro hread
      obtain ⟨bytes, hbytes⟩ := readBytes_of_readText hread
      have hbefore := h.grows.readBytes_before hnot hp.reaches hbytes
      rwa [h.grows.readText hnot ⟨bytes, hbefore⟩] at hread
    · intro hread
      rwa [h.grows.readText hnot (readBytes_of_readText hread)]

/-- A file that can be read is read after a write at its place as what was written there. -/
theorem readBytes_write_same {content : Bytes} {new : String} {q : Path}
    (h : d.readBytes p = .ok content) (hq : q ≠ Path.here) (hok : (d.write q new).2 = .ok ())
    (hplace : d.destination p = d.destination q) :
    (d.write q new).1.readBytes p = .ok (Utf8.encode new) := by
  obtain ⟨hgrows, hread⟩ := write_cases (d := d) hq new
  have hleads := hgrows.leads (readBytes_eq_ok_iff.mp h).1
  have hfile := (readBytes_eq_ok_iff.mp (hread hok)).2
  rw [hgrows.destination, ← hplace, ← hgrows.destination] at hfile
  exact readBytes_eq_ok_iff.mpr ⟨hleads, hfile⟩

/-- A file that has the bytes of a text has them still when a file has been written, if at its place
nothing but this text is written. -/
theorem readBytes_write {text new : String} {q : Path}
    (h : d.readBytes p = .ok (Utf8.encode text)) (hq : q ≠ Path.here)
    (hok : (d.write q new).2 = .ok ())
    (hsame : d.destination q = d.destination p → new = text) :
    (d.write q new).1.readBytes p = .ok (Utf8.encode text) := by
  by_cases hplace : d.destination p = d.destination q
  · obtain rfl := hsame hplace.symm
    exact readBytes_write_same h hq hok hplace
  · exact (write_cases hq new).1.readBytes hplace h

/-- A path that reads as a text reads as that text still when a file has been written, if at the
place of the path nothing but this text is written. -/
theorem readText_write {text new : String} {q : Path} (h : d.readText p = .ok text)
    (hreturn : '\r' ∉ text.toList) (hq : q ≠ Path.here) (hok : (d.write q new).2 = .ok ())
    (hsame : d.destination q = d.destination p → new = text) :
    (d.write q new).1.readText p = .ok text := by
  by_cases hplace : d.destination p = d.destination q
  · obtain rfl := hsame hplace.symm
    obtain ⟨bytes, hbytes⟩ := readBytes_of_readText h
    rw [readText_of_encode (readBytes_write_same hbytes hq hok hplace),
      Text.unified_of_notMem hreturn]
  · rw [(write_cases hq new).1.readText hplace (readBytes_of_readText h), h]

end Disk
end Transplant
