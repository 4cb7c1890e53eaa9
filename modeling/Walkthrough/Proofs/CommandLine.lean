import Walkthrough.CommandLine
import Walkthrough.Proofs.Addresses
import Walkthrough.Proofs.Checked
import Walkthrough.Proofs.Files.Loader
import Walkthrough.Proofs.Files.Writing

/-!
# What a run of the command line leaves behind

The outcome of visualizing files and folders, whatever can be read around the run and whatever
becomes of a file that is written: when it fails, that nothing is printed or written then, and
what is printed or written otherwise.

* `load_eq` and `exists_load_error` tell when the snippets can be loaded, and which they are;
* `exists_effects_eq` pairs the snippets with the traces of the batch;
* `FileSystem.carryOut_prints` is about effects that cannot fail, one after the other;
* `shows_visualize` puts this together.
-/

namespace Walkthrough

/-! ## Two runs over one snippet -/

/-- One trace is the other but for its addresses and its times. -/
def Trace.SameButRun (steps steps' : Trace) : Prop :=
  ∃ rename : Address → Address, Function.Injective rename ∧
    steps.map (fun step => (step.renamed rename).untimed) = steps'.map Step.untimed

theorem Snippet.trace_sameButRun (run run' : Run) (s : Snippet) :
    (s.trace run).SameButRun (s.trace run') := by
  obtain ⟨rename, injective, memory⟩ := Trace.exists_renaming run run' s.code
  have same := Trace.sameContent_stateAt run run' s.code
  refine ⟨rename, injective, map_eq_map_iff_forall₂.2 (Trace.forall₂_synthesize ?_ ?_)⟩
  · intro k item found
    have inside := Nat.le_of_lt (List.getElem?_eq_some_iff.1 found).1
    exact (same k).step_renamed _ _ _ (memory k inside) _ _
  · intro k last
    exact (same k).completionStep_renamed _ _ _ (memory k (Nat.le_of_eq last)) _

namespace Trace

/-- The formats other than JSON show neither addresses nor times. -/
theorem render_map {format : Export.Format} (h : format ≠ .json) {f : Step → Step}
    (listing : ∀ step, (f step).listing = step.listing)
    (highlight : ∀ step, (f step).highlight = step.highlight)
    (description : ∀ step, (f step).description = step.description)
    (edges : ∀ step, (f step).edges = step.edges) (steps : Trace) :
    render format (steps.map f) = render format steps := by
  cases format with
  | json => exact absurd rfl h
  | text =>
    have lines_eq : (steps.map f).flatMap Step.listing = steps.flatMap Step.listing := by
      simp only [List.flatMap_map, listing]
    exact congrArg (Text.join ['\n']) lines_eq
  | dot =>
    have edgesOf_eq : Flowchart.edgesOf (steps.map f) = Flowchart.edgesOf steps := by
      simp only [Flowchart.edgesOf, List.getLast?_map, Option.map_map, Function.comp_def, edges]
    have nodesOf_eq : Flowchart.nodesOf (steps.map f) = Flowchart.nodesOf steps := by
      simp only [Flowchart.nodesOf, edgesOf_eq, List.filterMap_map, Function.comp_def, highlight]
    have nodeLabel_eq (line : Nat) :
        Flowchart.nodeLabel (steps.map f) line = Flowchart.nodeLabel steps line := by
      unfold Flowchart.nodeLabel
      simp only [List.find?_map, Function.comp_def, highlight]
      cases steps.find? fun step => decide (step.highlight = some line) with
      | none => rfl
      | some step => simp only [Option.map_some, description]
    have nodeStatement_eq :
        Flowchart.nodeStatement (steps.map f) = Flowchart.nodeStatement steps := by
      funext line
      unfold Flowchart.nodeStatement
      rw [nodeLabel_eq]
    have statements_eq : Flowchart.statements (steps.map f) = Flowchart.statements steps := by
      rw [Flowchart.statements, edgesOf_eq, nodesOf_eq, nodeStatement_eq, Flowchart.statements]
    exact congrArg (Text.join ['\n']) statements_eq

theorem SameButRun.render_eq {steps steps' : Trace} (h : steps.SameButRun steps')
    {format : Export.Format} (other : format ≠ .json) :
    render format steps = render format steps' := by
  obtain ⟨rename, -, same⟩ := h
  have left := render_map other (f := fun step => (step.renamed rename).untimed)
    (fun _ => rfl) (fun _ => rfl) (fun _ => rfl) (fun _ => rfl) steps
  have right := render_map other (f := Step.untimed)
    (fun _ => rfl) (fun _ => rfl) (fun _ => rfl) (fun _ => rfl) steps'
  rw [← left, same, right]

end Trace

namespace CommandLine

/-! ## Loading -/

/-- The snippets of the inputs that can be loaded, and then those of the folders that can be
read to the bottom. -/
def loadable (files : Surroundings) (inputs folders : List Path) (language : Option Language) :
    List LoadedSnippet :=
  (inputs.filterMap fun path => (Loader.loadFile language path (files.fileAt path)).toOption) ++
    folders.flatMap fun folder =>
      (Loader.loadFolder language folder (files.folderAt folder)).toOption.getD []

/-- Every folder is a tree as file systems have them. -/
def Surroundings.WellFormed (files : Surroundings) : Prop :=
  ∀ path entries, files.folderAt path = some entries → (Tree.directory entries).WellFormed

theorem wellFormed_ofDisk {d : Disk} (h : d.root.WellFormed) :
    (Surroundings.ofDisk d).WellFormed := by
  intro path entries found
  obtain ⟨u, resolved, entries_eq⟩ := Option.bind_eq_some_iff.1 found
  obtain ⟨names, leads⟩ := Disk.exists_at?_of_resolve? resolved
  cases u with
  | file | sealed | locked => cases entries_eq
  | directory =>
    obtain rfl := Option.some.inj entries_eq
    exact h.at? leads

theorem mapM_eq_ok {ε α β : Type} {f : α → Except ε β} {g : α → β} {l : List α}
    (h : ∀ a ∈ l, f a = .ok (g a)) : l.mapM f = .ok (l.map g) := by
  induction l with
  | nil => rfl
  | cons a l ih =>
    obtain ⟨first, others⟩ := List.forall_mem_cons.1 h
    rw [List.mapM_cons, first, ih others]
    rfl

theorem exists_mapM_error {ε α β : Type} {f : α → Except ε β} {l : List α} {a : α} (mem : a ∈ l)
    (h : ∃ e, f a = .error e) : ∃ e, l.mapM f = .error e := by
  induction l with
  | nil => cases mem
  | cons b l ih =>
    rw [List.mapM_cons]
    rcases List.mem_cons.1 mem with rfl | later
    · obtain ⟨e, failed⟩ := h
      rw [failed]
      exact ⟨e, rfl⟩
    · obtain ⟨e, failed⟩ := ih later
      rw [failed]
      cases f b with
      | error first => exact ⟨first, rfl⟩
      | ok _ => exact ⟨e, rfl⟩

section
variable {files : Surroundings} (h : files.WellFormed) {folders : List Path}
include h

theorem load_eq
    (readable : ∀ folder ∈ folders, ¬ Loader.MeetsUnreadable folder (files.folderAt folder))
    (inputs : List Path) (language : Option Language) :
    load files inputs folders language = .ok (loadable files inputs folders language) := by
  have folder_eq : ∀ folder ∈ folders, Loader.loadFolder language folder (files.folderAt folder) =
      .ok ((Loader.loadFolder language folder (files.folderAt folder)).toOption.getD []) := by
    intro folder mem
    obtain ⟨loaded, eq⟩ := (Loader.exists_loadFolder_iff (h folder)).2 (readable folder mem)
    rw [eq]
    rfl
  unfold load
  rw [mapM_eq_ok folder_eq]
  rfl

theorem exists_load_error {folder : Path} (mem : folder ∈ folders)
    (unreadable : Loader.MeetsUnreadable folder (files.folderAt folder)) (inputs : List Path)
    (language : Option Language) : ∃ error, load files inputs folders language = .error error := by
  have failed : ∃ e, Loader.loadFolder language folder (files.folderAt folder) = .error e := by
    cases searched : Loader.loadFolder language folder (files.folderAt folder) with
    | error e => exact ⟨e, rfl⟩
    | ok loaded =>
      have readable := (Loader.exists_loadFolder_iff (h folder)).1 ⟨loaded, searched⟩
      exact absurd unreadable readable
  obtain ⟨e, failed⟩ := exists_mapM_error
    (f := fun path => Loader.loadFolder language path (files.folderAt path)) mem failed
  unfold load
  rw [failed]
  exact ⟨e, rfl⟩

end

/-! ## The effects of a batch -/

theorem put_visualize (format : Export.Format) (several : Bool) (output : Option Path)
    (l : LoadedSnippet) (run : Run) :
    put format several output l (l.snippet.visualize run) =
      putTrace format several output l (l.snippet.trace run) := by
  rw [Snippet.visualize_eq]
  rfl

theorem exists_flatMap_put_eq (format : Export.Format) (several : Bool) (output : Option Path)
    (run : Run) (loaded : List LoadedSnippet) :
    ∃ ts : List Trace,
      List.Forall₂ (fun l steps => ∃ alone, steps = l.snippet.trace alone) loaded ts ∧
      ((loaded.zip (Snippet.visualizeAll run (loaded.map (·.snippet)))).flatMap fun (l, response) =>
          put format several output l response) =
        (loaded.zip ts).flatMap fun (l, steps) => putTrace format several output l steps := by
  induction loaded generalizing run with
  | nil => exact ⟨[], .nil, rfl⟩
  | cons l rest ih =>
    obtain ⟨ts, each, effects_eq⟩ :=
      ih { run with candidates := Trace.unusedCandidates run l.snippet.code }
    refine ⟨l.snippet.trace run :: ts, .cons ⟨run, rfl⟩ each, ?_⟩
    simp only [List.map_cons, Snippet.visualizeAll, List.zip_cons_cons, List.flatMap_cons,
      put_visualize, effects_eq]

/-- Each snippet has a trace, which is put out in its turn and is the one that it has in a run
of its own. -/
theorem exists_effects_eq (run : Run) (loaded : List LoadedSnippet) (format : Export.Format)
    (output : Option Path) :
    ∃ ts : List Trace,
      List.Forall₂ (fun l steps => ∃ alone, steps = l.snippet.trace alone) loaded ts ∧
      effects run loaded format output =
        (loaded.zip ts).flatMap fun (l, steps) =>
          putTrace format (1 < loaded.length) output l steps :=
  exists_flatMap_put_eq format _ output run loaded

theorem effects_single (run : Run) (l : LoadedSnippet) (format : Export.Format)
    (output : Option Path) :
    effects run [l] format output = putTrace format false output l (l.snippet.trace run) := by
  simp only [effects, List.map_cons, Snippet.visualizeAll, List.zip_cons_cons, List.zip_nil_left,
    List.flatMap_cons, List.flatMap_nil, List.append_nil, put_visualize]
  rfl

/-- The texts that are printed for one trace. -/
def printed (format : Export.Format) (several : Bool) (l : LoadedSnippet) (steps : Trace) :
    List Text :=
  (if several then [heading l] else []) ++ [Trace.render format steps ++ ['\n']]

theorem putTrace_none (format : Export.Format) (several : Bool) (l : LoadedSnippet)
    (steps : Trace) :
    putTrace format several none l steps = (printed format several l steps).map .print := by
  cases several <;> rfl

section
variable {σ : Type} (F : FileSystem σ)

theorem FileSystem.carryOut_prints (texts : List Text) (stdout : Text) (files : σ) :
    F.carryOut (texts.map .print) stdout files = ⟨0, stdout ++ texts.flatten, files⟩ := by
  induction texts generalizing stdout with
  | nil => rw [List.map_nil, carryOut, List.flatten_nil, List.append_nil]
  | cons t texts ih => rw [List.map_cons, carryOut, ih, List.flatten_cons, List.append_assoc]

/-- The places of a file system, as far as writing a file is concerned: what is written stands
at the place to which its path leads, and at all others stands what stood there. -/
structure FileSystem.Places where
  Place : Type
  place? : σ → Path → Option Place
  kindAt? : σ → Place → Option Tree.Kind
  written : ∀ {files files' : σ} {path : Path} {bytes : List UInt8},
    F.write? files path bytes = some files' →
      ∃ place, place? files' path = some place ∧ kindAt? files' place = some (.file bytes) ∧
        ∀ other, other ≠ place → kindAt? files' other = kindAt? files other

/-- The files after exactly one was written. -/
structure FileSystem.Wrote (files files' : σ) (path : Path) (bytes : List UInt8) : Prop where
  performed : F.write? files path bytes = some files'
  effect : ∀ P : F.Places, ∃ place, P.place? files' path = some place ∧
    P.kindAt? files' place = some (.file bytes) ∧
    ∀ other, other ≠ place → P.kindAt? files' other = P.kindAt? files other

theorem FileSystem.wrote_of_write? {files files' : σ} {path : Path} {bytes : List UInt8}
    (performed : F.write? files path bytes = some files') : F.Wrote files files' path bytes :=
  ⟨performed, fun P => P.written performed⟩

end

/-- The places on a disk are the names that lead down from its top. -/
def diskPlaces : disks.Places where
  Place := List Name
  place? d path := d.root.locate? (d.start path) path.parts
  kindAt? d names := d.root.kindAt? names
  written performed := by
    obtain ⟨names, leads, kinds⟩ := (Disk.written_of_write? performed).others
    refine ⟨names, leads, ?_, ?_⟩
    · rw [kinds, if_pos rfl]
    · intro other differs
      rw [kinds, if_neg differs]

/-! ## The outcome -/

/-- A trace is that of a snippet in a run of its own, and looks as it does in any other. -/
structure IsTraceOf (format : Export.Format) (l : LoadedSnippet) (steps : Trace) : Prop where
  traced : ∃ alone : Run, steps = l.snippet.trace alone
  same : ∀ alone : Run, steps.SameButRun (l.snippet.trace alone)
  rendered : format ≠ .json → ∀ alone : Run,
    Trace.render format steps = Trace.render format (l.snippet.trace alone)

theorem isTraceOf_trace (format : Export.Format) (l : LoadedSnippet) (run : Run) :
    IsTraceOf format l (l.snippet.trace run) where
  traced := ⟨run, rfl⟩
  same alone := l.snippet.trace_sameButRun run alone
  rendered other alone := (l.snippet.trace_sameButRun run alone).render_eq other

section
variable {σ : Type} (F : FileSystem σ)

/-- The outcome of visualizing what was loaded, unless the search of a folder was `blocked`. -/
structure Outcome.Shows (outcome : Outcome σ) (files : σ) (run : Run) (blocked : Prop)
    (loaded : List LoadedSnippet) (format : Export.Format) (output : Option Path) : Prop where
  fails_iff : outcome.exitCode ≠ 0 ↔
    blocked ∨ loaded = [] ∨ (output.isSome ∧ 1 < loaded.length) ∨
      ∃ path one, output = some path ∧ loaded = [one] ∧
        F.write? files path (Text.toUtf8 (Trace.render format (one.snippet.trace run))) = none
  fails : outcome.exitCode ≠ 0 → outcome.stdout = [] ∧ outcome.files = files
  writes : outcome.exitCode = 0 → ∀ path, output = some path → outcome.stdout = [] ∧
    ∃ one, loaded = [one] ∧ F.Wrote files outcome.files path
      (Text.toUtf8 (Trace.render format (one.snippet.trace run)))
  prints : outcome.exitCode = 0 → output = none → outcome.files = files ∧
    ∃ ts : List Trace, List.Forall₂ (IsTraceOf format) loaded ts ∧
      (∀ steps, ts = [steps] → outcome.stdout = Trace.render format steps ++ ['\n']) ∧
      (1 < ts.length → outcome.stdout = (loaded.zip ts).flatMap fun (l, steps) =>
        "== ".toList ++ l.path ++ " (".toList ++ l.snippet.language.name ++ ")\n".toList ++
          Trace.render format steps ++ ['\n'])

theorem Failure.exitCode_ne_zero (failure : Failure) : failure.exitCode ≠ 0 := by
  cases failure <;> exact Nat.succ_ne_zero _

variable {files : σ} {run : Run} {blocked : Prop} {loaded : List LoadedSnippet}
  {format : Export.Format} {output : Option Path}

theorem shows_of_failure (failure : Failure)
    (reason : blocked ∨ loaded = [] ∨ (output.isSome ∧ 1 < loaded.length) ∨
      ∃ path one, output = some path ∧ loaded = [one] ∧
        F.write? files path (Text.toUtf8 (Trace.render format (one.snippet.trace run))) = none) :
    (F.finish files (.error failure)).Shows F files run blocked loaded format output where
  fails_iff := iff_of_true failure.exitCode_ne_zero reason
  fails _ := ⟨rfl, rfl⟩
  writes succeeded := absurd succeeded failure.exitCode_ne_zero
  prints succeeded := absurd succeeded failure.exitCode_ne_zero

theorem shows_print (free : ¬ blocked) (some_loaded : loaded ≠ []) :
    (F.finish files (visualize run loaded format none)).Shows F files run blocked loaded format
      none := by
  obtain ⟨ts, each, effects_eq⟩ :=
    exists_effects_eq run loaded format none
  have length_eq := each.length_eq
  have outcome_eq : F.finish files (visualize run loaded format none) =
      ⟨0, ((loaded.zip ts).flatMap fun (l, steps) =>
        printed format (1 < loaded.length) l steps).flatten, files⟩ := by
    rw [visualize, if_neg (by simpa using some_loaded), if_neg (by simp), effects_eq]
    simp only [putTrace_none, ← List.map_flatMap, FileSystem.finish, F.carryOut_prints,
      List.nil_append]
  rw [outcome_eq]
  constructor
  case fails_iff => simp [free, some_loaded]
  case fails => exact fun failed => absurd rfl failed
  case writes => exact fun _ _ none => nomatch none
  case prints =>
    intro _ _
    refine ⟨rfl, ts, each.imp ?_, ?_, ?_⟩
    · rintro l _ ⟨alone, rfl⟩
      exact isTraceOf_trace format l alone
    · rintro steps rfl
      obtain ⟨l, rfl⟩ := List.length_eq_one_iff.1 length_eq
      simp [printed]
    · intro several
      have heads : decide (1 < loaded.length) = true := by
        rw [length_eq]
        exact decide_eq_true several
      rw [heads, ← List.flatMap_id, List.flatMap_assoc]
      simp [printed, heading]

theorem shows_write (free : ¬ blocked) (one : LoadedSnippet) (path : Path) :
    (F.finish files (visualize run [one] format (some path))).Shows F files run blocked [one]
      format (some path) := by
  have effects_eq : visualize run [one] format (some path) =
      .ok [.write path (Trace.render format (one.snippet.trace run))] := by
    rw [visualize, if_neg (by simp), if_neg (by simp), effects_single]
    rfl
  rw [effects_eq]
  cases written : F.write? files path (Text.toUtf8 (Trace.render format (one.snippet.trace run)))
    with
  | none =>
    have failed : F.finish files (.ok [.write path (Trace.render format (one.snippet.trace run))]) =
        F.finish files (.error (.unwritable path)) := by
      simp only [FileSystem.finish, FileSystem.carryOut, written]
    rw [failed]
    exact shows_of_failure F _ (.inr (.inr (.inr ⟨path, one, rfl, rfl, written⟩)))
  | some files' =>
    have succeeded : F.finish files
        (.ok [.write path (Trace.render format (one.snippet.trace run))]) = ⟨0, [], files'⟩ := by
      simp only [FileSystem.finish, FileSystem.carryOut, written]
    rw [succeeded]
    constructor
    case fails_iff => simp [free, written]
    case fails => exact fun failed => absurd rfl failed
    case writes =>
      rintro - _ ⟨⟩
      exact ⟨rfl, one, rfl, F.wrote_of_write? written⟩
    case prints => exact fun _ none => nomatch none

/-- Visualizing files and folders fails exactly if the search of a folder comes to a directory
that cannot be read, nothing is loaded, there is one output file for several snippets or it
cannot be written.  Then nothing is printed and no file changes.  Otherwise there is either one
file written, with what the single snippet is rendered as, or as much printed for each snippet
in their order, with a heading if there are several.  All arguments with this meaning have this
outcome. -/
theorem shows_visualize (h : (F.around files).WellFormed) (run : Run)
    (inputs folders : List Path) (language : Option Language) (format : Export.Format)
    (output : Option Path) :
    let task := Task.visualize inputs folders language format output
    let outcome := F.perform files run task
    (∀ arguments, readArguments? arguments = some task → F.start files run arguments = outcome) ∧
      outcome.Shows F files run
        (∃ folder ∈ folders, Loader.MeetsUnreadable folder ((F.around files).folderAt folder))
        (loadable (F.around files) inputs folders language) format output := by
  intro task outcome
  constructor
  · intro arguments asks
    rw [FileSystem.start, plan, asks]
    rfl
  · by_cases blocked :
        ∃ folder ∈ folders, Loader.MeetsUnreadable folder ((F.around files).folderAt folder)
    · obtain ⟨folder, mem, unreadable⟩ := blocked
      obtain ⟨error, failed⟩ := exists_load_error h mem unreadable inputs language
      simp only [outcome, task, FileSystem.perform, perform, failed]
      exact shows_of_failure F _ (.inl ⟨folder, mem, unreadable⟩)
    · have readable : ∀ folder ∈ folders,
          ¬ Loader.MeetsUnreadable folder ((F.around files).folderAt folder) :=
        fun folder mem unreadable => blocked ⟨folder, mem, unreadable⟩
      simp only [outcome, task, FileSystem.perform, perform, load_eq h readable]
      generalize loadable (F.around files) inputs folders language = loaded
      match loaded, output with
      | [], none | [], some _ => exact shows_of_failure F .nothingLoaded (.inr (.inl rfl))
      | l :: rest, none => exact shows_print F blocked (List.cons_ne_nil l rest)
      | [one], some path => exact shows_write F blocked one path
      | first :: second :: rest, some path =>
        have several : visualize run (first :: second :: rest) format (some path) =
          .error (.severalForOutput (first :: second :: rest).length) := rfl
        rw [several]
        exact shows_of_failure F _ (.inr (.inr (.inl ⟨rfl, by simp⟩)))

end

/-- A disk with one snippet in its working directory. -/
def oneSnippet : Disk := .ofTree (.directory [("a.py".toList, .file (Text.toUtf8 "x = 1".toList))])

/-- A file of that disk that cannot be loaded is passed over, and the trace of the other one is
written to a path from the root. -/
theorem visualize_oneSnippet :
    let task := Task.visualize ["b.py".toList, "a.py".toList] [] none .dot (some "/out".toList)
    let outcome := disks.perform oneSnippet ⟨[], fun _ => 0, 0⟩ task
    (disks.around oneSnippet).WellFormed ∧ outcome.exitCode = 0 ∧ outcome.stdout = [] ∧
      ∃ (t : Text) (names : List Name),
        outcome.files.resolve? "/out".toList = some (.file (Text.toUtf8 t)) ∧
        diskPlaces.kindAt? outcome.files names = some (.file (Text.toUtf8 t)) ∧
        ∀ other, other ≠ names →
          diskPlaces.kindAt? outcome.files other = diskPlaces.kindAt? oneSnippet other := by
  intro task outcome
  have wellFormed : (disks.around oneSnippet).WellFormed := by
    apply wellFormed_ofDisk
    simp only [oneSnippet, Disk.ofTree, Tree.wellFormed_directory_iff, Tree.wellFormed_file,
      List.forall_mem_cons, List.not_mem_nil, false_implies, implies_true, and_true]
    decide
  obtain ⟨-, shows⟩ := shows_visualize disks wellFormed ⟨[], fun _ => 0, 0⟩
    ["b.py".toList, "a.py".toList] [] none .dot (some "/out".toList)
  have loaded : loadable (disks.around oneSnippet) ["b.py".toList, "a.py".toList] [] none =
      [⟨"a.py".toList, "x = 1".toList, .python⟩] :=
    rfl
  have succeeded : outcome.exitCode = 0 := by
    by_contra failed
    rcases shows.fails_iff.1 failed with blocked | empty | several | ⟨_, _, ⟨⟩, -, unwritten⟩
    · simp at blocked
    · rw [loaded] at empty
      cases empty
    · rw [loaded] at several
      exact absurd several.2 (Nat.lt_irrefl 1)
    · cases unwritten
  obtain ⟨silent, one, -, wrote⟩ := shows.writes succeeded _ rfl
  have performed : oneSnippet.write? "/out".toList _ = some outcome.files := wrote.performed
  have leads := (Disk.written_of_write? performed).leads
  obtain ⟨names, -, written, kept⟩ := wrote.effect diskPlaces
  exact ⟨wellFormed, succeeded, silent, _, names, leads, written, kept⟩

end CommandLine
end Walkthrough
