import FileWatch.Proofs.Path.Canonical
import FileWatch.Proofs.Reader.Dispatch
import FileWatch.Proofs.WatchTable.Widening
import FileWatch.Shell.Session

/-!
# What a filter of files lets through

Files are watched through their directories.  The event that comes of it has the name that the table
has for the directory, with the name of the entry behind it, and the filter compares this text with
the files.  That goes well as long as every directory has one name.  If two of the files name one
directory in two ways, the kernel has one handle for both, the table keeps the name that came last, and
events carry that one: the filter lets through the files that were listed under it, and misses the
others.

So there are two halves.  `accepts_join_iff` is about text: the filter lets an entry of a directory
through if one of its files has the name of the entry, and a directory of the same clean spelling.
`resolve?_enlist` is about the table: a handle stands for the directory of the file that was listed with
it last.

To the filter alone the spelling of the files makes no difference: paths that agree have the same last
name and agreeing directories (`directory_of_agrees`), so their filters are the same.
-/

namespace FileWatch

/-! ## A file and its directory -/

namespace Path

/-- The last part of a path, if it is a name. -/
def fileName? (p : Path) : Option Bytes :=
  match p.parts.getLast? with
  | some (.name n) => some n
  | _ => none

theorem fileName?_eq_some_iff {p : Path} {n : Bytes} :
    p.fileName? = some n ↔ ∃ before, p.parts = before ++ [.name n] := by
  unfold fileName?
  rw [← List.getLast?_eq_some_iff]
  cases hlast : p.parts.getLast? with
  | none => simp
  | some s => cases s <;> simp

/-- **A file is its directory and its name.** -/
theorem proper_eq_directory {p : Path} {n : Bytes} (h : p.fileName? = some n) :
    p.proper = p.directory.proper ++ [.name n] := by
  obtain ⟨before, hparts⟩ := fileName?_eq_some_iff.mp h
  have hparent := p.parent?_eq
  have hnot : ¬ (p.parts = [] ∨ p.parts = [.root]) := by
    rw [hparts]
    rintro (hnil | hroot)
    · simp at hnil
    · have hlast := congrArg List.getLast? hroot
      simp at hlast
  rw [if_neg hnot, Option.map_eq_some_iff] at hparent
  obtain ⟨above, habove, hdrop⟩ := hparent
  rw [hparts, List.dropLast_concat] at hdrop
  have hdirectory : p.directory.proper = above.proper := by
    unfold directory
    rw [habove]
    by_cases hempty : above.bytes = []
    · obtain ⟨bytes⟩ := above
      cases hempty
      rfl
    · simp only [if_neg hempty]
  rw [hdirectory, proper, proper, hparts, hdrop, List.filter_append]
  rfl

/-- Where it starts does not matter to what a path says last. -/
theorem fileName?_of_proper {p : Path} {before : List Part} {n : Bytes}
    (h : p.proper = before ++ [.name n]) : p.fileName? = some n := by
  rw [proper_eq_append] at h
  rw [fileName?_eq_some_iff, parts_eq]
  rcases List.eq_nil_or_concat (said p.body) with hnil | ⟨steps, s, hsteps⟩
  · -- Where a path starts is no name.
    rw [hnil, List.append_nil] at h
    have hlast := congrArg List.getLast? h
    rw [List.getLast?_concat] at hlast
    rcases p.anchor?_cases with hanchor | hanchor | hanchor <;> rw [hanchor] at hlast <;> cases hlast
  · rw [hsteps, List.concat_eq_append, ← List.append_assoc] at h
    obtain ⟨-, hname⟩ := List.append_inj' h rfl
    exact ⟨p.anchor?.toList ++ steps, by
      rw [hsteps, List.concat_eq_append, hname, List.append_assoc]⟩

end Path

/-! ## The filter -/

/-- Leaving out what comes again leaves one of each. -/
theorem any_eraseDups {α : Type} [BEq α] [EquivBEq α] (l : List α) (a : α) :
    (l.eraseDups.any fun b => b == a) = l.any fun b => b == a := by
  induction hn : l.length using Nat.strongRecOn generalizing l with
  | _ n ih =>
    cases l with
    | nil => rfl
    | cons x rest =>
      have hshorter : (rest.filter fun b => !b == x).length < n := by
        have := List.length_filter_le (fun b => !b == x) rest
        rw [← hn, List.length_cons]
        omega
      rw [List.eraseDups_cons, List.any_cons, List.any_cons, ih _ hshorter _ rfl]
      by_cases hx : (x == a) = true
      · simp [hx]
      · -- What is left out is like the first, and that is not what is looked for.
        rw [List.any_filter]
        congr 2
        funext b
        by_cases hb : (b == x) = true
        · have hba : (b == a) = false := by
            rw [Bool.eq_false_iff]
            exact fun h => hx (BEq.trans (BEq.symm hb) h)
          simp [hb, hba]
        · simp [hb]

namespace FileFilter

theorem accepts_eq (files : List Path) (e : Event) :
    (ofFiles files).accepts e = files.any fun f => f.normalize == e.path.normalize := by
  unfold ofFiles accepts Path.sorted
  rw [(List.mergeSort_perm _ _).any_eq, any_eraseDups, List.any_map]
  rfl

/-- **An entry of a directory is let through if it is one of the files**: by its name, and by the clean
spelling of its directory. -/
theorem accepts_join_iff (files : List Path) (base : Path) {n : Bytes} (h : Path.IsFileName n)
    (ops : Ops) : (ofFiles files).accepts ⟨base.join n, ops⟩ = true ↔
      ∃ f ∈ files, f.fileName? = some n ∧ f.directory.normalize = base.normalize := by
  rw [accepts_eq, List.any_eq_true]
  refine exists_congr fun f => and_congr_right fun _ => ?_
  rw [Path.beq_iff, Path.parts_normalize_join base h, Path.normalize_eq_iff, Path.parts_normalize]
  constructor
  · intro hparts
    have hproper : f.proper = base.proper ++ [.name n] := by
      split at hparts
      · have hlast := congrArg List.getLast? hparts
        rw [List.getLast?_concat] at hlast
        cases hlast
      · exact hparts
    have hname := Path.fileName?_of_proper hproper
    have hsame := hproper.symm.trans (Path.proper_eq_directory hname)
    exact ⟨hname, (List.append_cancel_right hsame).symm⟩
  · rintro ⟨hname, hdirectory⟩
    have hproper := Path.proper_eq_directory hname
    rw [hdirectory] at hproper
    rw [hproper, if_neg (List.append_ne_nil_of_right_ne_nil _ (List.cons_ne_nil _ _))]

end FileFilter

/-! ## Whatever the spelling -/

namespace Path

theorem isFileName_of_fileName? {p : Path} {n : Bytes} (h : p.fileName? = some n) :
    IsFileName n := by
  obtain ⟨before, hparts⟩ := fileName?_eq_some_iff.mp h
  have hmem : Part.name n ∈ p.parts := hparts ▸ List.mem_append_right before List.mem_cons_self
  rw [parts_eq, List.mem_append] at hmem
  rcases hmem with hanchor | hsaid
  · rcases p.anchor?_cases with ha | ha | ha <;> rw [ha] at hanchor <;> simp at hanchor
  · exact isFileName_of_plain (plain_of_mem_said hsaid)

/-- Two spellings of a file name the same entry of the same directory. -/
theorem directory_of_agrees {p q : Path} {n : Bytes} (named : p.fileName? = some n)
    (agrees : p.Agrees q) :
    q.fileName? = some n ∧ q.directory.normalize = p.directory.normalize := by
  have hsame : p.proper = q.proper := normalize_eq_iff.mp ((normalize_eq_iff_agrees p q).mpr agrees)
  have hproper : q.proper = p.directory.proper ++ [.name n] := by
    rw [← hsame, proper_eq_directory named]
  have hq : q.fileName? = some n := fileName?_of_proper hproper
  refine ⟨hq, normalize_of_proper_eq ?_⟩
  exact (List.append_cancel_right (hproper.symm.trans (proper_eq_directory hq))).symm

end Path

namespace FileFilter

/-- The filter is the same for files that are spelled in other ways. -/
theorem ofFiles_congr {files others : List Path} (agree : List.Forall₂ Path.Agrees files others) :
    ofFiles files = ofFiles others := by
  have hclean : files.map Path.normalize = others.map Path.normalize := by
    induction agree with
    | nil => rfl
    | cons head _ ih =>
      rw [List.map_cons, List.map_cons, ih, (Path.normalize_eq_iff_agrees _ _).mpr head]
  unfold ofFiles
  rw [hclean]

/-- **The filter is exact, however the files are spelled.**  What happens to an entry of the directory
that is watched for one of the files is let through exactly if a listed file has the name of the entry
and the same directory watched for it.  So every file is let through under the directory watched for it,
in whatever other way it is spelled, and a neighbour with another name than theirs is not. -/
theorem exact_whatever_spelling {files : List Path} (named : ∀ f ∈ files, f.fileName?.isSome = true)
    {g : Path} (listed : g ∈ files) {n : Bytes} (entry : Path.IsFileName n) (ops : Ops) :
    ((ofFiles files).accepts ⟨g.directory.normalize.join n, ops⟩ = true ↔
      ∃ f ∈ files, f.fileName? = some n ∧ f.directory.normalize = g.directory.normalize) ∧
    (∃ m, g.fileName? = some m ∧ ∀ g', g.Agrees g' →
      (ofFiles files).accepts ⟨g'.directory.normalize.join m, ops⟩ = true) ∧
    (∀ others, List.Forall₂ Path.Agrees files others → ofFiles others = ofFiles files) := by
  have hclean : ∀ p : Path, p.normalize.normalize = p.normalize := fun p => p.isNormal_normalize
  refine ⟨?_, ?_, fun others agree => (ofFiles_congr agree).symm⟩
  · rw [accepts_join_iff _ _ entry, hclean]
  · obtain ⟨m, hm⟩ := Option.isSome_iff_exists.mp (named g listed)
    refine ⟨m, hm, fun g' agrees => ?_⟩
    obtain ⟨-, hdirectory⟩ := Path.directory_of_agrees hm agrees
    rw [hdirectory, accepts_join_iff _ _ (Path.isFileName_of_fileName? hm), hclean]
    exact ⟨g, listed, hm, rfl⟩

/-- The files `x`, `./d/..//y/` and `/z` with the entries of `d/..`: the second file is one of them. -/
theorem exact_whatever_spelling_upward :
    let files : List Path := [⟨[0x78]⟩,
      ⟨[dot, slash, 0x64, slash, dot, dot, slash, slash, 0x79, slash]⟩, ⟨[slash, 0x7A]⟩]
    let file : Path := ⟨[dot, slash, 0x64, slash, dot, dot, slash, slash, 0x79, slash]⟩
    file ∈ files ∧ file.directory.normalize.bytes = [0x64, slash, dot, dot] ∧
      (ofFiles files).accepts ⟨file.directory.normalize.join [0x79], .write⟩ = true ∧
      ¬ (ofFiles files).accepts ⟨file.directory.normalize.join [0x78], .write⟩ = true := by
  intro files file
  have listed : file ∈ files := List.mem_cons_of_mem _ List.mem_cons_self
  have named : ∀ f ∈ files, f.fileName?.isSome = true := by decide
  have entry : ∀ n ∈ [[0x78], [0x79]], Path.IsFileName n := by
    intro n hn
    rcases List.mem_cons.mp hn with rfl | hn
    · exact ⟨by decide, by decide, by decide, by decide⟩
    · rw [List.mem_singleton.mp hn]
      exact ⟨by decide, by decide, by decide, by decide⟩
  refine ⟨listed, by decide, ?_, ?_⟩
  · rw [(exact_whatever_spelling named listed (entry [0x79] (by simp)) .write).1]
    decide
  · rw [(exact_whatever_spelling named listed (entry [0x78] (by simp)) .write).1]
    decide

end FileFilter

/-! ## The table -/

namespace WatchTable

/-- The table after files were listed, each with the handle that the kernel has for its directory. -/
def enlist (flags : Mask) (t : WatchTable) (listed : List (Path × Handle)) : WatchTable :=
  listed.foldl (fun t x => (t.register x.1.directory.normalize flags fun _ _ => .ok x.2).2) t

theorem enlist_concat (flags : Mask) (t : WatchTable) (listed : List (Path × Handle))
    (x : Path × Handle) : enlist flags t (listed ++ [x]) =
      (enlist flags t listed).insert x.1.directory.normalize
        ⟨x.2, (enlist flags t listed).flagsOf x.1.directory.normalize ||| flags⟩ := by
  have hlast : enlist flags t (listed ++ [x]) =
      ((enlist flags t listed).register x.1.directory.normalize flags fun _ _ => .ok x.2).2 := by
    simp [enlist]
  rw [hlast, register, demand_eq_flagsOf]

theorem paired_enlist (flags : Mask) (listed : List (Path × Handle)) :
    (enlist flags .empty listed).Paired := by
  induction listed using List.reverseRecOn with
  | nil => exact paired_empty
  | append_singleton listed x ih =>
    rw [enlist_concat]
    exact ih.insert _ _

/-- **The newest name wins.**  A handle stands for the directory of the file that was listed with it
last. -/
theorem resolve?_enlist {flags : Mask} {listed : List (Path × Handle)} {h : Handle} {p : Path}
    (resolves : (enlist flags .empty listed).resolve? h = some p) :
    ∃ before x after, listed = before ++ x :: after ∧ x.2 = h ∧ (∀ y ∈ after, y.2 ≠ h) ∧
      p = x.1.directory.normalize := by
  induction listed using List.reverseRecOn with
  | nil => cases resolves
  | append_singleton listed x ih =>
    rw [enlist_concat, resolve?_insert] at resolves
    by_cases hx : x.2 = h
    · rw [if_pos hx, Option.some.injEq] at resolves
      exact ⟨listed, x, [], rfl, hx, nofun, resolves.symm⟩
    · rw [if_neg hx] at resolves
      split at resolves
      · cases resolves
      · obtain ⟨before, y, after, hlisted, hy, hafter, hp⟩ := ih resolves
        refine ⟨before, y, after ++ [x], by rw [hlisted]; simp, hy, ?_, hp⟩
        intro z hz
        rcases List.mem_append.mp hz with hz | hz
        · exact hafter z hz
        · rw [List.mem_singleton.mp hz]
          exact hx

end WatchTable

namespace Session

/-- What a watcher does for one file. -/
theorem table_registerFile {w v : Watcher} {file : Path} (h : registerFile w file = .ok v) :
    ∃ g : Handle, v.table = w.table.insert file.directory.normalize
      ⟨g, w.table.flagsOf file.directory.normalize ||| WatchOptions.default.flags⟩ := by
  unfold registerFile at h
  split at h
  · cases h
  split at h
  · cases h
  unfold register at h
  split at h
  · rename_i hadd
    cases h
    rcases w.add_cases file.directory .default with ⟨f, hresult, -⟩ | ⟨g, -, htable⟩
    · rw [hadd] at hresult
      cases hresult
    · rw [hadd] at htable
      exact ⟨g, htable⟩
  · cases h

theorem table_registerFiles {w v : Watcher} {files : List Path}
    {listed : List (Path × Handle)} (hw : w.table = .enlist WatchOptions.default.flags .empty listed)
    (h : files.foldlM registerFile w = .ok v) :
    ∃ more : List (Path × Handle), more.map (·.1) = files ∧
      v.table = .enlist WatchOptions.default.flags .empty (listed ++ more) := by
  induction files generalizing w listed with
  | nil =>
    cases h
    exact ⟨[], rfl, by rw [List.append_nil, hw]⟩
  | cons file rest ih =>
    rw [List.foldlM_cons] at h
    cases hfirst : registerFile w file with
    | error r =>
      rw [hfirst] at h
      cases h
    | ok u =>
      rw [hfirst] at h
      obtain ⟨g, htable⟩ := table_registerFile hfirst
      rw [hw, ← WatchTable.enlist_concat _ _ _ (file, g)] at htable
      obtain ⟨more, hmore, hlast⟩ := ih htable h
      refine ⟨(file, g) :: more, by rw [List.map_cons, hmore], ?_⟩
      rw [hlast, List.append_assoc]
      rfl

/-- **A command that watches files lists them one by one**, with the handles that the kernel gives. -/
theorem start_enlists {k : Kernel} {settings : Settings} {files : List Path} {session : Session}
    (h : start k settings (.file files) = .ok session) :
    ∃ listed : List (Path × Handle), listed.map (·.1) = files ∧
      session.watcher.table = .enlist WatchOptions.default.flags .empty listed := by
  unfold start at h
  cases hall : registerAll (.start settings k) (.file files) with
  | error r =>
    rw [hall] at h
    cases h
  | ok w =>
    rw [hall] at h
    cases h
    have hfresh : (Watcher.start settings k).table = .enlist WatchOptions.default.flags .empty [] := rfl
    exact table_registerFiles hfresh hall

end Session

/-! ## Both halves -/

namespace Reader

/-- **Whether the event of a listed file is let through.**  Files are listed, a reader has their table, and
a record about an entry is delivered.  The event lies in the directory as the file spelled it that was
listed last with this handle.  So it is let through exactly if a listed file has the name of the entry
and has that spelling of its directory, cleaned; and if all files with this handle have, none of them is
missed. -/
theorem listed_file_accepted {s : Reader} (hears : s.events.listening = true)
    (hearsErrors : s.errors.listening = true) (unclosed : s.closing = false) {flags : Mask}
    {listed : List (Path × Handle)} (table : s.table = .enlist flags .empty listed)
    {pathExists : Path → Bool} {r : Record} {n : Bytes} (named : r.name = some n)
    (entry : Path.IsFileName n) {e : Event}
    (delivered : (s.dispatch pathExists r).2.events.sent = s.events.sent ++ [e]) :
    ∃ before x after, listed = before ++ x :: after ∧ x.2 = r.handle ∧
      (∀ y ∈ after, y.2 ≠ r.handle) ∧ e.path = x.1.directory.normalize.join n ∧
      ((FileFilter.ofFiles (listed.map (·.1))).accepts e = true ↔
        ∃ f ∈ listed, f.1.fileName? = some n ∧ f.1.directory.normalize = x.1.directory.normalize) ∧
      ((∀ y ∈ listed, y.2 = r.handle → y.1.directory.normalize = x.1.directory.normalize) →
        ∀ f ∈ listed, f.2 = r.handle → f.1.fileName? = some n →
          (FileFilter.ofFiles (listed.map (·.1))).accepts e = true) := by
  have serving : s.Serving := ⟨table ▸ WatchTable.paired_enlist flags listed, hears, hearsErrors, unclosed⟩
  obtain ⟨said, hsaid, hdispatch⟩ := serving.dispatch pathExists r
  have hsent : s.events.sent ++ said.toList = s.events.sent ++ [e] := by
    rw [hdispatch] at delivered
    exact delivered
  have hannounced : said = some e := by
    have hlist := List.append_cancel_left hsent
    cases said with
    | none => cases hlist
    | some e' =>
      obtain ⟨rfl, -⟩ := List.cons.inj hlist
      rfl
  obtain ⟨watched, -, -, resolves, -, -, -⟩ := (hsaid e).mp hannounced
  rw [table] at resolves
  obtain ⟨before, x, after, hlisted, hx, hafter, rfl⟩ := WatchTable.resolve?_enlist resolves
  have hpath : r.subject x.1.directory.normalize = x.1.directory.normalize.join n := by
    rw [Record.subject, named]
  have hiff : (FileFilter.ofFiles (listed.map (·.1))).accepts
        ⟨r.subject x.1.directory.normalize, r.mask.ops⟩ = true ↔
      ∃ f ∈ listed, f.1.fileName? = some n ∧ f.1.directory.normalize = x.1.directory.normalize := by
    have hclean : x.1.directory.normalize.normalize = x.1.directory.normalize :=
      x.1.directory.isNormal_normalize
    rw [hpath, FileFilter.accepts_join_iff _ _ entry, hclean]
    simp only [List.mem_map, exists_exists_and_eq_and]
  refine ⟨before, x, after, hlisted, hx, hafter, hpath, hiff, fun hone f hf hhandle hname => ?_⟩
  exact hiff.mpr ⟨f, hf, hname, hone f hf hhandle⟩

/-- A reader after some files were listed. -/
def listing (listed : List (Path × Handle)) : Reader :=
  { fresh with table := .enlist WatchOptions.default.flags .empty listed }

/-- A file `x` was written to, in the directory that was listed first. -/
def written : Record := ⟨⟨1⟩, Mask.modify, 0, some [0x78]⟩

/-- `d/x` and `./d//y`: two files of one directory, in one spelling when cleaned. -/
def neighbours : List (Path × Handle) :=
  [( ⟨[0x64, slash, 0x78]⟩, ⟨1⟩), ( ⟨[dot, slash, 0x64, slash, slash, 0x79]⟩, ⟨1⟩)]

theorem listed_file_accepted_neighbours : ∃ e : Event,
    ((listing neighbours).dispatch (fun _ => true) written).2.events.sent = [e] ∧
      e.path = ⟨[0x64, slash, 0x78]⟩ ∧
      (FileFilter.ofFiles (neighbours.map (·.1))).accepts e = true := by
  have delivered : ((listing neighbours).dispatch (fun _ => true) written).2.events.sent
      = (listing neighbours).events.sent ++ [⟨⟨[0x64, slash, 0x78]⟩, .write⟩] := by cbv
  have hlisting : (listing neighbours).table
      = .enlist WatchOptions.default.flags .empty neighbours := rfl
  refine ⟨_, delivered, rfl, ?_⟩
  obtain ⟨before, x, after, hlisted, -, -, -, hiff, -⟩ := listed_file_accepted
    (s := listing neighbours) rfl rfl rfl hlisting (r := written) rfl
    ⟨by decide, by decide, by decide, by decide⟩ delivered
  have hx : x ∈ neighbours := hlisted ▸ List.mem_append_right before List.mem_cons_self
  have hsame : ∀ y ∈ neighbours, ( ⟨[0x64, slash, 0x78]⟩ : Path).directory.normalize
      = y.1.directory.normalize := by decide
  exact hiff.mpr ⟨_, List.mem_cons_self, by decide, hsame x hx⟩

/-- `a/../x` and `y`: two files of one directory, which the kernel knows under one handle. -/
def aliased : List (Path × Handle) :=
  [( ⟨[0x61, slash, dot, dot, slash, 0x78]⟩, ⟨1⟩), ( ⟨[0x79]⟩, ⟨1⟩)]

/-- The event of a listed file can be missed: it has the other name of the directory. -/
theorem listed_file_missed : ¬ ∀ (s : Reader) (listed : List (Path × Handle)) (r : Record) (n : Bytes)
    (e : Event) (f : Path × Handle),
    s.events.listening = true → s.errors.listening = true → s.closing = false →
    (∀ x ∈ listed, x.1.fileName?.isSome = true) →
    s.table = .enlist WatchOptions.default.flags .empty listed →
    r.name = some n → Path.IsFileName n →
    (s.dispatch (fun _ => true) r).2.events.sent = s.events.sent ++ [e] →
    f ∈ listed → f.1.fileName? = some n → f.2 = r.handle →
    (FileFilter.ofFiles (listed.map (·.1))).accepts e = true := by
  intro every
  have delivered : ((listing aliased).dispatch (fun _ => true) written).2.events.sent
      = (listing aliased).events.sent ++ [⟨⟨[dot, slash, 0x78]⟩, .write⟩] := by cbv
  have haccepts := every (listing aliased) aliased written [0x78] _
    (⟨[0x61, slash, dot, dot, slash, 0x78]⟩, ⟨1⟩) rfl rfl rfl (by decide) rfl rfl
    ⟨by decide, by decide, by decide, by decide⟩ delivered List.mem_cons_self (by decide) rfl
  have hmissed : (FileFilter.ofFiles (aliased.map (·.1))).accepts ⟨⟨[dot, slash, 0x78]⟩, .write⟩
      = false := by cbv
  rw [hmissed] at haccepts
  cases haccepts

end Reader

end FileWatch
