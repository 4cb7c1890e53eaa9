import Mathlib.Data.List.Perm.Basic
import Walkthrough.Files.Loader
import Walkthrough.Proofs.Files.Tree
import Walkthrough.Proofs.Text.ByteOrder

/-!
# The snippets of a folder

The search of a folder comes to the files with no directory that is left out on the way
(`isSearched_iff`).  It fails if it comes to a directory that cannot be read
(`exists_collect_iff`), and otherwise finds what the files on its way have to give
(`collect_eq`).  `loadFolder_spec` puts this together: one snippet for each file that has one,
in the order of the paths as they are shown.  The order of the entries has a say only among
files whose paths are shown alike, and there are none if all names are UTF-8
(`loadFolder_lookalikes` has two).
-/

namespace Walkthrough.Loader

/-! ## What is left out -/

/-- What a path ends with is not left out. -/
def IsOpen (p : Path) : Prop := ∀ name, (Path.steps p).getLast? = some name → name ∉ leftOut

theorem parent_not_mem_leftOut : [Path.dot, Path.dot] ∉ leftOut := by
  decide

theorem isLeftOut_eq_false_iff {p : Path} : isLeftOut p = false ↔ IsOpen p := by
  unfold isLeftOut IsOpen Path.lastName? Path.steps
  cases (p.parts.filter fun part => !Path.isVoid part).getLast? with
  | none => simp
  | some part =>
    by_cases up : Path.isParent part = true
    · -- a path that goes up at its end has no last name
      have kept : part ∉ leftOut := by
        rw [beq_iff_eq.1 up]
        exact parent_not_mem_leftOut
      simp [up, kept]
    · simp [up]

/-- A single dot at the end of a path makes no difference. -/
theorem isLeftOut_append_slash_dot (p : Path) :
    isLeftOut (p ++ [Path.slash, Path.dot]) = isLeftOut p := by
  have steps_eq := Path.steps_append_slash_dot p
  unfold Path.steps at steps_eq
  simp only [isLeftOut, Path.lastName?, steps_eq]

theorem isOpen_join_iff {p : Path} {name : Name} (h : Path.IsName name) :
    IsOpen (p.join name) ↔ name ∉ leftOut := by
  unfold IsOpen
  rw [Path.steps_join p h, List.getLast?_concat]
  simp

/-- Whether nothing is left out on the way down from a path, the path itself and all
names but the last among it. -/
def isSearched (p : Path) : List Name → Bool
  | [] => true
  | name :: names => !isLeftOut p && isSearched (p.join name) names

theorem isSearched_iff {p : Path} {names : List Name} (proper : ∀ name ∈ names, Path.IsName name)
    (h : names ≠ []) :
    isSearched p names = true ↔ IsOpen p ∧ ∀ name ∈ names.dropLast, name ∉ leftOut := by
  induction names generalizing p with
  | nil => exact absurd rfl h
  | cons name names ih =>
    obtain ⟨first, others⟩ := List.forall_mem_cons.1 proper
    rw [isSearched, Bool.and_eq_true, Bool.not_eq_true', isLeftOut_eq_false_iff]
    apply and_congr_right
    intro _
    cases names with
    | nil => simp [isSearched]
    | cons next names =>
      rw [ih others (List.cons_ne_nil _ _), isOpen_join_iff first, List.dropLast_cons_cons,
        List.forall_mem_cons]

/-! ## One file -/

/-- A snippet is that of the file at a path, in the language that is forced or else in that of
the extension. -/
structure IsOfFile (language : Option Language) (p : Path) (bytes : List UInt8)
    (loaded : LoadedSnippet) : Prop where
  path : loaded.path = p.display
  content : Text.toUtf8 loaded.snippet.code = bytes
  language : ∃ inferred, Language.ofPath? p = some inferred ∧
    loaded.snippet.language = language.getD inferred

theorem chooseLanguage?_of_known (language : Option Language) {p : Path} {inferred : Language}
    (known : Language.ofPath? p = some inferred) :
    chooseLanguage? language p = some (language.getD inferred) := by
  cases language with
  | none => exact known
  | some l => rfl

theorem fileSnippet_eq_toList (language : Option Language) (p : Path)
    (bytes : Option (List UInt8)) :
    fileSnippet language p bytes = (fileSnippet language p bytes).head?.toList := by
  unfold fileSnippet
  split
  · cases loadFile language p bytes <;> rfl
  · rfl

theorem fileSnippet_none (language : Option Language) (p : Path) :
    fileSnippet language p none = [] := by
  unfold fileSnippet loadFile
  split
  · cases chooseLanguage? language p <;> rfl
  · rfl

theorem head?_fileSnippet_eq_some_iff {language : Option Language} {p : Path} {bytes : List UInt8}
    {loaded : LoadedSnippet} :
    (fileSnippet language p (some bytes)).head? = some loaded ↔
      IsOfFile language p bytes loaded := by
  unfold fileSnippet
  constructor
  · intro h
    cases known : Language.ofPath? p with
    | none => simp [known] at h
    | some inferred =>
      have chosen := chooseLanguage?_of_known language known
      cases decoded : Text.ofUtf8? bytes with
      | none => simp [known, loadFile, chosen, decoded] at h
      | some code =>
        simp only [known, Option.isSome_some, if_true, loadFile, chosen, Option.bind_some, decoded,
          List.head?_cons, Option.some.injEq] at h
        subst h
        exact ⟨rfl, (Text.ofUtf8?_eq_some_iff.1 decoded).symm, inferred, known, rfl⟩
  · rintro ⟨path_eq, rfl, inferred, known, language_eq⟩
    have chosen := chooseLanguage?_of_known language known
    simp [known, loadFile, chosen, Text.ofUtf8?_toUtf8, ← language_eq, ← path_eq]

/-- What the search of a folder takes from a file below it. -/
def pick? (language : Option Language) (p : Path) (file : List Name × List UInt8) :
    Option LoadedSnippet :=
  if isSearched p file.1 then (fileSnippet language (Path.below p file.1) (some file.2)).head?
  else none

theorem pick?_eq_some_iff {language : Option Language} {p : Path} {names : List Name}
    {bytes : List UInt8} {loaded : LoadedSnippet} :
    pick? language p (names, bytes) = some loaded ↔
      isSearched p names = true ∧ IsOfFile language (Path.below p names) bytes loaded := by
  rw [pick?, ← head?_fileSnippet_eq_some_iff]
  split <;> simp_all

theorem pick?_cons {language : Option Language} {p : Path} (h : isLeftOut p = false) (name : Name)
    (names : List Name) (bytes : List UInt8) :
    pick? language p (name :: names, bytes) = pick? language (p.join name) (names, bytes) := by
  unfold pick?
  rw [isSearched, h, Path.below_cons]
  rfl

/-! ## The search -/

mutual
theorem collect_eq {language : Option Language} {p : Path} :
    ∀ {t : Tree} {found : List LoadedSnippet}, collect language p t = .ok found →
      found = t.files.filterMap (pick? language p)
  | .file bytes, _, h => by
    rw [collect, fileSnippet_eq_toList] at h
    obtain rfl := Except.ok.inj h
    rw [Tree.files, List.filterMap_cons, pick?, isSearched, if_pos rfl, Path.below, List.foldl_nil]
    cases (fileSnippet language p (some bytes)).head? <;> rfl
  | .sealed, _, h => by
    rw [collect, fileSnippet_none] at h
    obtain rfl := Except.ok.inj h
    rfl
  | .directory entries, _, h => by
    rw [collect] at h
    cases out : isLeftOut p with
    | true =>
      rw [out, if_pos rfl] at h
      obtain rfl := Except.ok.inj h
      symm
      rw [Tree.files, Tree.filesIn_eq_flatMap, List.filterMap_eq_nil_iff]
      intro file mem
      obtain ⟨entry, -, listed⟩ := List.mem_flatMap.1 mem
      obtain ⟨inner, -, rfl⟩ := List.mem_map.1 listed
      simp [pick?, isSearched, out]
    | false =>
      rw [out, if_neg Bool.false_ne_true] at h
      exact collectEntries_eq out h
  | .locked, _, h => by
    rw [collect] at h
    split at h
    · obtain rfl := Except.ok.inj h
      rfl
    · cases h

theorem collectEntries_eq {language : Option Language} {p : Path} (isOpen : isLeftOut p = false) :
    ∀ {entries : List (Name × Tree)} {found : List LoadedSnippet},
      collectEntries language p entries = .ok found →
        found = (Tree.filesIn entries).filterMap (pick? language p)
  | [], _, h => by
    rw [collectEntries] at h
    obtain rfl := Except.ok.inj h
    rfl
  | (name, t) :: rest, _, h => by
    rw [collectEntries] at h
    cases first : collect language (p.join name) t with
    | error _ =>
      rw [first] at h
      cases h
    | ok snippets =>
      cases others : collectEntries language p rest with
      | error _ =>
        rw [first, others] at h
        cases h
      | ok more =>
        rw [first, others] at h
        obtain rfl := Except.ok.inj h
        rw [collect_eq first, collectEntries_eq isOpen others, Tree.filesIn, List.filterMap_append,
          List.filterMap_map]
        congr 2
        funext file
        exact (pick?_cons isOpen name file.1 file.2).symm
end

theorem exists_collectEntries_iff {language : Option Language} {p : Path}
    {entries : List (Name × Tree)} :
    (∃ found, collectEntries language p entries = .ok found) ↔
      ∀ entry ∈ entries, ∃ found, collect language (p.join entry.1) entry.2 = .ok found := by
  induction entries with
  | nil => simp [collectEntries]
  | cons entry rest ih =>
    obtain ⟨name, t⟩ := entry
    rw [List.forall_mem_cons, ← ih, collectEntries]
    cases collect language (p.join name) t with
    | error _ => simp [bind, Except.bind]
    | ok snippets =>
      cases collectEntries language p rest <;> simp [bind, Except.bind, pure, Except.pure]

theorem exists_collect_of_isReadable (language : Option Language) (p : Path) {t : Tree}
    (h : t.IsReadable) : ∃ found, collect language p t = .ok found := by
  induction h generalizing p with
  | file | sealed => exact ⟨_, rfl⟩
  | directory _ ih =>
    rw [collect]
    split
    · exact ⟨_, rfl⟩
    · exact exists_collectEntries_iff.2 fun entry mem => ih entry mem _

/-- The search comes to a directory that cannot be read. -/
def MeetsLocked (p : Path) (t : Tree) : Prop :=
  IsOpen p ∧ ∃ names, t.at? names = some .locked ∧ ∀ name ∈ names, name ∉ leftOut

theorem exists_collect_iff {language : Option Language} {p : Path} {t : Tree} (h : t.WellFormed) :
    (∃ found, collect language p t = .ok found) ↔ ¬ MeetsLocked p t := by
  unfold MeetsLocked
  induction h generalizing p with
  | file | sealed =>
    simp only [collect, Except.ok.injEq, exists_eq', true_iff]
    rintro ⟨-, names, found, -⟩
    cases names <;> cases found
  | locked =>
    rw [collect, ← isLeftOut_eq_false_iff]
    cases isLeftOut p with
    | true => simp
    | false => simpa using ⟨[], rfl, List.forall_mem_nil _⟩
  | @directory entries proper distinct _ ih =>
    rw [collect, ← isLeftOut_eq_false_iff]
    cases isLeftOut p with
    | true => simp
    | false =>
      rw [if_neg Bool.false_ne_true, exists_collectEntries_iff]
      constructor
      · rintro all ⟨-, names, found, kept⟩
        cases names with
        | nil => cases found
        | cons name names =>
          rw [Tree.at?_cons] at found
          obtain ⟨child, entry, leads⟩ := Option.bind_eq_some_iff.1 found
          have mem := (lookup_eq_some_iff_mem distinct).1 entry
          obtain ⟨first, others⟩ := List.forall_mem_cons.1 kept
          have isOpen := (isOpen_join_iff (p := p) (proper _ mem)).2 first
          exact (ih _ mem).1 (all _ mem) ⟨isOpen, names, leads, others⟩
      · intro none entry mem
        rw [ih entry mem, isOpen_join_iff (proper entry mem)]
        rintro ⟨first, names, leads, others⟩
        have found := (lookup_eq_some_iff_mem distinct).2 mem
        refine none ⟨rfl, entry.1 :: names, ?_, List.forall_mem_cons.2 ⟨first, others⟩⟩
        rw [Tree.at?_cons, found]
        exact leads

/-! ## The order of the paths -/

/-- Snippets are in the order of the bytes of their paths, those with one path as they were
found. -/
structure IsSorting (found loaded : List LoadedSnippet) : Prop where
  perm : loaded.Perm found
  sorted : loaded.Pairwise fun a b => ¬ Text.BytesPrecede b.path a.path
  stable : ∀ path, (loaded.filter fun s => s.path = path) = found.filter fun s => s.path = path

theorem not_precedes_trans (a b c : LoadedSnippet) (hab : (!Text.precedes b.path a.path) = true)
    (hbc : (!Text.precedes c.path b.path) = true) : (!Text.precedes c.path a.path) = true := by
  simp only [Bool.not_eq_true', Bool.eq_false_iff] at hab hbc ⊢
  intro hca
  rcases Text.precedes_trichotomous a.path b.path with before | same | after
  · exact hbc (Text.precedes_trans hca before)
  · exact hbc (same ▸ hca)
  · exact hab after

theorem not_precedes_total (a b : LoadedSnippet) :
    (!Text.precedes b.path a.path || !Text.precedes a.path b.path) = true := by
  rw [Bool.or_eq_true, Bool.not_eq_true', Bool.not_eq_true', ← Bool.not_eq_true,
    ← Bool.not_eq_true, ← not_and_or]
  rintro ⟨hba, hab⟩
  exact Text.not_precedes_of_precedes hab hba

theorem isSorting_sortByPath (found : List LoadedSnippet) : IsSorting found (sortByPath found) := by
  have perm : (sortByPath found).Perm found := List.mergeSort_perm found _
  constructor
  case perm => exact perm
  case sorted =>
    apply (List.pairwise_mergeSort not_precedes_trans not_precedes_total found).imp
    intro a b ordered
    rwa [← Text.precedes_iff_bytes, Bool.not_eq_true, ← Bool.not_eq_true']
  case stable =>
    intro path
    have alike : (found.filter fun s => s.path = path).Pairwise fun a b =>
        (!Text.precedes b.path a.path) = true := by
      rw [List.pairwise_filter]
      apply List.pairwise_of_forall
      intro a b ha hb
      rw [of_decide_eq_true ha, of_decide_eq_true hb, Text.precedes_irrefl]
      rfl
    have kept := List.sublist_mergeSort not_precedes_trans not_precedes_total alike
      List.filter_sublist
    have among := kept.filter fun s => decide (s.path = path)
    rw [List.filter_filter] at among
    simp only [Bool.and_self] at among
    exact (among.eq_of_length (perm.filter _).length_eq.symm).symm

/-- Snippets with distinct paths follow each other strictly. -/
theorem IsSorting.strict {found loaded : List LoadedSnippet} (h : IsSorting found loaded)
    (distinct : (loaded.map (·.path)).Nodup) :
    loaded.Pairwise fun a b => Text.BytesPrecede a.path b.path := by
  rw [List.nodup_iff_pairwise_ne, List.pairwise_map] at distinct
  apply h.sorted.imp₂ _ distinct
  intro a b notAfter differs
  rcases Text.precedes_trichotomous a.path b.path with before | same | after
  · exact Text.bytesPrecede_of_precedes before
  · exact absurd same differs
  · exact absurd (Text.bytesPrecede_of_precedes after) notAfter

/-- Snippets with distinct paths are sorted in one way, in whatever order they were found. -/
theorem IsSorting.unique {found found' loaded loaded' : List LoadedSnippet}
    (h : IsSorting found loaded) (h' : IsSorting found' loaded') (perm : found.Perm found')
    (distinct : (loaded.map (·.path)).Nodup) : loaded = loaded' := by
  have same : loaded.Perm loaded' := h.perm.trans (perm.trans h'.perm.symm)
  have distinct' := (same.map (·.path)).nodup_iff.1 distinct
  refine same.eq_of_pairwise ?_ (h.strict distinct) (h'.strict distinct')
  intro a b _ _ before after
  exact absurd after (List.lex_asymm UInt8.lt_asymm before)

/-! ## All files of a folder -/

theorem loadFolder_some (language : Option Language) (folder : Path)
    (entries : List (Name × Tree)) :
    loadFolder language folder (some entries) =
      (collect language folder (.directory entries)).map sortByPath := by
  rw [loadFolder, collect]
  split
  · rw [Except.map, sortByPath, List.mergeSort_nil]
  · rfl

/-- The search of a folder, from its entries if it could be read, comes to a directory that
cannot be read: the folder itself or one below it. -/
def MeetsUnreadable (folder : Path) (entries? : Option (List (Name × Tree))) : Prop :=
  IsOpen folder ∧ ∀ entries, entries? = some entries →
    ∃ names, (Tree.directory entries).at? names = some .locked ∧ ∀ name ∈ names, name ∉ leftOut

theorem exists_loadFolder_iff {language : Option Language} {folder : Path}
    {entries? : Option (List (Name × Tree))}
    (h : ∀ entries, entries? = some entries → (Tree.directory entries).WellFormed) :
    (∃ loaded, loadFolder language folder entries? = .ok loaded) ↔
      ¬ MeetsUnreadable folder entries? := by
  unfold MeetsUnreadable
  cases entries? with
  | none =>
    rw [loadFolder, ← isLeftOut_eq_false_iff]
    cases isLeftOut folder <;> simp
  | some entries =>
    have searched : (∃ found, collect language folder (.directory entries) = .ok found) ↔
        ¬ MeetsLocked folder (.directory entries) := exists_collect_iff (h entries rfl)
    simp only [Option.some.injEq, forall_eq', loadFolder_some]
    rw [← MeetsLocked, ← searched]
    cases collect language folder (.directory entries) <;> simp [Except.map]

/-- Names that lead down from a folder to a file, and the snippet that is loaded from it. -/
structure IsSource (language : Option Language) (folder : Path) (t : Tree) (names : List Name)
    (loaded : LoadedSnippet) : Prop where
  isOpen : IsOpen folder
  between : ∀ name ∈ names.dropLast, name ∉ leftOut
  content : t.at? names = some (.file (Text.toUtf8 loaded.snippet.code))
  language : ∃ stem extension inferred,
    names.getLast? = some (stem ++ Path.dot :: Text.toUtf8 extension) ∧ stem ≠ [] ∧
      Path.dot ∉ Text.toUtf8 extension ∧ Language.ofExtension? extension = some inferred ∧
      loaded.snippet.language = language.getD inferred
  path : loaded.path = (Path.below folder names).display

theorem ofPath?_below_eq_some_iff {p : Path} {names : List Name} (h : names ≠ [])
    (proper : ∀ name ∈ names, Path.IsName name) {inferred : Language} :
    Language.ofPath? (Path.below p names) = some inferred ↔
      ∃ stem extension, names.getLast? = some (stem ++ Path.dot :: Text.toUtf8 extension) ∧
        stem ≠ [] ∧ Path.dot ∉ Text.toUtf8 extension ∧
        Language.ofExtension? extension = some inferred := by
  obtain ⟨above, last, rfl⟩ := (List.eq_nil_or_concat' names).resolve_left h
  have last_proper := proper last (List.mem_append_right _ List.mem_cons_self)
  rw [List.getLast?_concat, Path.below_concat, Language.ofPath?, Path.extension?,
    Path.lastName?_join _ last_proper, Option.bind_some]
  simp only [Option.bind_eq_some_iff, Path.extensionOf?_eq_some_iff, Text.ofUtf8?_eq_some_iff,
    Option.some.injEq]
  constructor
  · rintro ⟨extension, ⟨_, ⟨stem, stem_ne, bare, rfl⟩, rfl⟩, known⟩
    exact ⟨stem, extension, rfl, stem_ne, bare, known⟩
  · rintro ⟨stem, extension, rfl, stem_ne, bare, known⟩
    exact ⟨extension, ⟨_, ⟨stem, stem_ne, bare, rfl⟩, rfl⟩, known⟩

theorem forall₂_filterMap {α β : Type} (f : α → Option β) (l : List α) :
    List.Forall₂ (fun a b => a ∈ l ∧ f a = some b) (l.filter fun a => (f a).isSome)
      (l.filterMap f) := by
  induction l with
  | nil => exact .nil
  | cons a l ih =>
    have later := ih.imp fun _ _ ⟨mem, eq⟩ => And.intro (List.mem_cons_of_mem a mem) eq
    cases found : f a with
    | none =>
      rw [List.filterMap_cons_none found, List.filter_cons_of_neg (by simp [found])]
      exact later
    | some b =>
      rw [List.filterMap_cons_some found, List.filter_cons_of_pos (by simp [found])]
      exact .cons ⟨List.mem_cons_self, found⟩ later

section
variable (language : Option Language) (folder : Path) {entries : List (Name × Tree)}

theorem mem_files_and_pick?_iff {language : Option Language} {folder : Path}
    (h : (Tree.directory entries).WellFormed) {names : List Name} {loaded : LoadedSnippet} :
    (∃ bytes, (names, bytes) ∈ (Tree.directory entries).files ∧
        pick? language folder (names, bytes) = some loaded) ↔
      IsSource language folder (.directory entries) names loaded := by
  simp only [Tree.mem_files h, pick?_eq_some_iff]
  have ne_nil {bytes : List UInt8}
      (found : (Tree.directory entries).at? names = some (.file bytes)) : names ≠ [] := by
    rintro rfl
    cases found
  constructor
  · rintro ⟨bytes, found, searched, path_eq, rfl, inferred, known, language_eq⟩
    have proper := h.isName found
    obtain ⟨isOpen, between⟩ := (isSearched_iff proper (ne_nil found)).1 searched
    obtain ⟨stem, extension, last, stem_ne, bare, known⟩ :=
      (ofPath?_below_eq_some_iff (ne_nil found) proper).1 known
    exact ⟨isOpen, between, found, ⟨stem, extension, inferred, last, stem_ne, bare, known,
      language_eq⟩, path_eq⟩
  · rintro ⟨isOpen, between, found, ⟨stem, extension, inferred, last, stem_ne, bare, known,
      language_eq⟩, path_eq⟩
    have proper := h.isName found
    have searched := (isSearched_iff proper (ne_nil found)).2 ⟨isOpen, between⟩
    have ofPath := (ofPath?_below_eq_some_iff (p := folder) (ne_nil found) proper).2
      ⟨stem, extension, last, stem_ne, bare, known⟩
    exact ⟨_, found, searched, path_eq, rfl, inferred, ofPath, language_eq⟩

/-- Files whose names are UTF-8 have paths that are shown differently. -/
theorem nodup_paths (h : (Tree.directory entries).WellFormed)
    (texts : ∀ names s, IsSource language folder (.directory entries) names s →
      ∀ name ∈ names, ∃ t : Text, name = Text.toUtf8 t) :
    (((Tree.directory entries).files.filterMap (pick? language folder)).map (·.path)).Nodup := by
  have distinct := Tree.files_nodup h
  rw [List.nodup_iff_pairwise_ne, List.pairwise_map] at distinct ⊢
  rw [List.pairwise_filterMap]
  apply distinct.imp_of_mem
  rintro ⟨names, bytes⟩ ⟨names', bytes'⟩ mem mem' differ loaded picked loaded' picked' same
  have source := (mem_files_and_pick?_iff h).1 ⟨bytes, mem, picked⟩
  have source' := (mem_files_and_pick?_iff h).1 ⟨bytes', mem', picked'⟩
  rw [source.path, source'.path] at same
  exact differ (Path.display_below_injective folder (h.isName source.content)
    (h.isName source'.content) (texts names loaded source) (texts names' loaded' source') same)

/-- The snippets that the files below a folder give, with the files next to them: each file that
has one, once, in the order of the search. -/
structure IsListing (t : Tree) (files : List (List Name)) (found : List LoadedSnippet) : Prop where
  nodup : files.Nodup
  inOrder : files.Sublist (t.files.map Prod.fst)
  complete : ∀ names, names ∈ files ↔ ∃ s, IsSource language folder t names s
  sources : List.Forall₂ (IsSource language folder t) files found

theorem exists_isListing (h : (Tree.directory entries).WellFormed) :
    ∃ files, IsListing language folder (.directory entries) files
      ((Tree.directory entries).files.filterMap (pick? language folder)) := by
  let picked :=
    (Tree.directory entries).files.filter fun file => (pick? language folder file).isSome
  refine ⟨picked.map Prod.fst, ?_, ?_, ?_, ?_⟩
  · exact (Tree.files_nodup h).sublist (List.filter_sublist.map _)
  · exact List.filter_sublist.map _
  · intro names
    simp only [← mem_files_and_pick?_iff h, picked, List.mem_map, List.mem_filter,
      Option.isSome_iff_exists]
    constructor
    · rintro ⟨⟨_, bytes⟩, ⟨mem, loaded, found⟩, rfl⟩
      exact ⟨loaded, bytes, mem, found⟩
    · rintro ⟨loaded, bytes, mem, found⟩
      exact ⟨(names, bytes), ⟨mem, loaded, found⟩, rfl⟩
  · rw [List.forall₂_map_left_iff]
    apply (forall₂_filterMap (pick? language folder) (Tree.directory entries).files).imp
    rintro ⟨names, bytes⟩ loaded from_file
    exact (mem_files_and_pick?_iff h).1 ⟨bytes, from_file⟩

end

/-- Of a folder of which every directory can be read, one snippet is loaded for each file
that has one.  They are in the order of the bytes of their paths as these are shown, files
whose paths are shown alike in the order of the search.  Where no two paths are shown alike,
they follow each other strictly, in whatever order the entries of the directories are listed;
this is so if the names of the files and of the directories on the way are UTF-8. -/
theorem loadFolder_spec (language : Option Language) (folder : Path)
    {entries : List (Name × Tree)} (h : (Tree.directory entries).WellFormed)
    (readable : (Tree.directory entries).IsReadable) :
    ∃ files found loaded, loadFolder language folder (some entries) = .ok loaded ∧
      IsListing language folder (.directory entries) files found ∧ IsSorting found loaded ∧
      ((loaded.map (·.path)).Nodup →
        (loaded.Pairwise fun a b => Text.BytesPrecede a.path b.path) ∧
        ∀ entries', Tree.Reordered (.directory entries) (.directory entries') →
          loadFolder language folder (some entries') = .ok loaded) ∧
      ((∀ names s, IsSource language folder (.directory entries) names s →
          ∀ name ∈ names, ∃ t : Text, name = Text.toUtf8 t) →
        (loaded.map (·.path)).Nodup) := by
  obtain ⟨found, searched⟩ := exists_collect_of_isReadable language folder readable
  have found_eq := collect_eq searched
  obtain ⟨files, listing⟩ := exists_isListing language folder h
  have sorting := isSorting_sortByPath found
  refine ⟨files, found, sortByPath found, ?_, ?_, sorting, ?_, ?_⟩
  · rw [loadFolder_some, searched]
    rfl
  · rwa [found_eq]
  · intro distinct
    refine ⟨sorting.strict distinct, ?_⟩
    intro entries' reordered
    obtain ⟨found', searched'⟩ :=
      exists_collect_of_isReadable language folder (readable.reordered reordered)
    have perm : found.Perm found' := by
      rw [found_eq, collect_eq searched']
      exact (Tree.files_perm reordered).filterMap _
    rw [loadFolder_some, searched', sorting.unique (isSorting_sortByPath found') perm distinct]
    rfl
  · intro texts
    rw [(sorting.perm.map (·.path)).nodup_iff, found_eq]
    exact nodup_paths language folder h texts

/-- A folder with a directory named like a file, a file named like a directory that is left
out, a directory that is left out, a file that is not UTF-8 and one that cannot be read. -/
def mixedFolder : List (Name × Tree) :=
  [("lib.py".toList, .directory [("App.TSX".toList, .file (Text.toUtf8 "n = 2".toList))]),
    ("target".toList, .directory [("dep.ts".toList, .file [])]),
    ("web".toList, .directory
      [("target".toList, .file []), ("a.py".toList, .file [0xFF]), ("b.py".toList, .sealed)])]

theorem loadFolder_mixedFolder :
    (Tree.directory mixedFolder).WellFormed ∧ (Tree.directory mixedFolder).IsReadable ∧
      ∃ loaded, loadFolder none "src/".toList (some mixedFolder) = .ok loaded ∧ loaded ≠ [] := by
  have wellFormed : (Tree.directory mixedFolder).WellFormed := by
    simp only [mixedFolder, Tree.wellFormed_directory_iff, Tree.wellFormed_file,
      Tree.wellFormed_sealed, List.forall_mem_cons, List.not_mem_nil, false_implies, implies_true,
      and_true]
    decide
  have readable : (Tree.directory mixedFolder).IsReadable := by
    simp only [mixedFolder, Tree.isReadable_directory_iff, Tree.isReadable_file,
      Tree.isReadable_sealed, List.forall_mem_cons, List.not_mem_nil, false_implies, implies_true,
      and_true]
  have source : IsSource none "src/".toList (.directory mixedFolder)
      ["lib.py".toList, "App.TSX".toList]
      ⟨"src/lib.py/App.TSX".toList, "n = 2".toList, .react⟩ := by
    refine ⟨?_, by decide, rfl, ⟨"App".toList, "TSX".toList, .react, rfl, by decide,
      by decide, by decide, rfl⟩, rfl⟩
    intro name last
    cases last
    decide
  obtain ⟨files, found, loaded, eq, listing, sorting, -, -⟩ :=
    loadFolder_spec none "src/".toList wellFormed readable
  refine ⟨wellFormed, readable, loaded, eq, ?_⟩
  rintro rfl
  obtain rfl := sorting.perm.nil_eq
  have no_files : files = [] := by
    cases listing.sources
    rfl
  have listed := (listing.complete _).2 ⟨_, source⟩
  rw [no_files] at listed
  cases listed

/-- Two files whose names are not UTF-8 and are shown alike. -/
def lookalikes : List (Name × Tree) :=
  [([0xFF, 0x2E, 0x70, 0x79], .file (Text.toUtf8 "x = 1".toList)),
    ([0xFE, 0x2E, 0x70, 0x79], .file (Text.toUtf8 "y = 2".toList))]

/-- The snippets of the two files do not follow each other strictly, and their order is that in
which the entries are listed.  Besides, a folder is left out for its name `target` also when it
is given with a dot as the last part of its path. -/
theorem loadFolder_lookalikes :
    (Tree.directory lookalikes).WellFormed ∧ (Tree.directory lookalikes).IsReadable ∧
      Tree.Reordered (.directory lookalikes) (.directory lookalikes.reverse) ∧
      (∀ loaded, loadFolder none "src".toList (some lookalikes) = .ok loaded →
        ¬ loaded.Pairwise fun a b => Text.BytesPrecede a.path b.path) ∧
      loadFolder none "src".toList (some lookalikes.reverse) ≠
        loadFolder none "src".toList (some lookalikes) ∧
      loadFolder none "target/.".toList
        (some [("a.py".toList, .file (Text.toUtf8 "x = 1".toList))]) = .ok [] := by
  have wellFormed : (Tree.directory lookalikes).WellFormed := by
    simp only [lookalikes, Tree.wellFormed_directory_iff, Tree.wellFormed_file,
      List.forall_mem_cons, List.not_mem_nil, false_implies, implies_true, and_true]
    decide
  have readable : (Tree.directory lookalikes).IsReadable := by
    simp only [lookalikes, Tree.isReadable_directory_iff, Tree.isReadable_file,
      List.forall_mem_cons, List.not_mem_nil, false_implies, implies_true, and_true]
  let x : LoadedSnippet := ⟨"src/\uFFFD.py".toList, "x = 1".toList, .python⟩
  let y : LoadedSnippet := ⟨"src/\uFFFD.py".toList, "y = 2".toList, .python⟩
  have kept (a b : LoadedSnippet) (alike : a.path = b.path) : sortByPath [a, b] = [a, b] := by
    apply List.mergeSort_of_pairwise
    simp [alike, Text.precedes_irrefl]
  have listed : loadFolder none "src".toList (some lookalikes) = .ok [x, y] := by
    have searched : loadFolder none "src".toList (some lookalikes) = .ok (sortByPath [x, y]) := rfl
    rw [searched, kept x y rfl]
  have reversed : loadFolder none "src".toList (some lookalikes.reverse) = .ok [y, x] := by
    have searched : loadFolder none "src".toList (some lookalikes.reverse) =
        .ok (sortByPath [y, x]) := rfl
    rw [searched, kept y x rfl]
  have dotted : isLeftOut "target/.".toList = true := isLeftOut_append_slash_dot "target".toList
  refine ⟨wellFormed, readable, .listed lookalikes.reverse_perm.symm, ?_, ?_, ?_⟩
  · intro loaded eq strict
    rw [listed] at eq
    obtain rfl := Except.ok.inj eq
    have before : Text.BytesPrecede x.path y.path := by simpa using strict
    exact List.lex_irrefl UInt8.lt_irrefl _ before
  · rw [listed, reversed]
    intro same
    have code_eq : "y = 2".toList = "x = 1".toList := by
      have first := congrArg List.head? (Except.ok.inj same)
      exact congrArg (fun s => s.snippet.code) (Option.some.inj first)
    exact absurd code_eq (by decide)
  · rw [loadFolder, if_pos dotted]

end Walkthrough.Loader
